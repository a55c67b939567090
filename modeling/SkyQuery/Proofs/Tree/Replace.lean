import SkyQuery.Proofs.Tree.Related
import SkyQuery.Tree.Replace

/-!
# Searching and replacing walk the same tree

`Fragment.operands` and `Fragment.replaceOperands` go through a tree by themselves. They meet the same
operands in the same order: `Fragment.replaceOperands_walk`. A replacement hides what lies inside the
operand that it replaces, and nothing else.
-/

namespace SkyQuery

variable {f : Operand → Option Operand}

/-! ### What lies around an operand -/

/-- An operand with those in which it lies, the innermost first. -/
structure Enclosed where
  around : List Operand
  operand : Operand

namespace Enclosed

def children (e : Enclosed) : List Enclosed := e.operand.children.map fun c => ⟨e.operand :: e.around, c⟩

theorem sizeOf_lt_of_mem_children (e : Enclosed) : ∀ c ∈ e.children, sizeOf c.operand < sizeOf e.operand := by
  intro c member
  obtain ⟨part, found, rfl⟩ := List.mem_map.1 member
  exact Operand.sizeOf_lt_of_mem_children found

/-- An operand and all that it is made of, each before its parts. -/
def all (e : Enclosed) : List Enclosed := descent children (wellFounded_of_shrinks sizeOf_lt_of_mem_children) e

theorem all_eq (e : Enclosed) : e.all = e :: e.children.flatMap all := descent_eq e

theorem all_operands (o : Operand) : ∀ around, (all ⟨around, o⟩).map operand = o.nodes := by
  induction o using Operand.byParts with
  | step o ih =>
    intro around
    rw [all_eq, List.map_cons, Operand.nodes_eq, children, List.flatMap_map, List.map_flatMap]
    exact congrArg (o :: ·) (List.flatMap_congr fun c member => ih c member _)

/-- No operand around this one is replaced. -/
def reached (f : Operand → Option Operand) (e : Enclosed) : Bool := e.around.all fun a => (f a).isNone

/-- What is reached of an operand and of all that it is made of. -/
def reachedIn (f : Operand → Option Operand) (e : Enclosed) : List Operand := (e.all.filter (reached f)).map operand

theorem reachedIn_eq (e : Enclosed) :
    e.reachedIn f = (if e.reached f then [e.operand] else []) ++ e.children.flatMap (reachedIn f) := by
  unfold reachedIn
  rw [all_eq, List.filter_cons, List.filter_flatMap, ← List.map_flatMap]
  split <;> rfl

/-- Inside an operand that is replaced nothing is reached. -/
theorem reachedIn_of_not_reached (o : Operand) :
    ∀ around, reached f ⟨around, o⟩ = false → reachedIn f ⟨around, o⟩ = [] := by
  induction o using Operand.byParts with
  | step o ih =>
    intro around hidden
    rw [reachedIn_eq, hidden, children, List.flatMap_map, List.flatMap_eq_nil_iff.2 fun c member => ih c member _ ?_]
    · rfl
    · rw [reached] at hidden ⊢
      rw [List.all_cons, hidden, Bool.and_false]

/-- What is around an operand does not matter, if none of it is replaced. -/
theorem reachedIn_of_reached (o : Operand) :
    ∀ around, reached f ⟨around, o⟩ = true → reachedIn f ⟨around, o⟩ = reachedIn f ⟨[], o⟩ := by
  induction o using Operand.byParts with
  | step o ih =>
    intro around shown
    rw [reachedIn_eq, shown, reachedIn_eq ⟨[], o⟩, children, children, List.flatMap_map, List.flatMap_map]
    refine congrArg (o :: ·) (List.flatMap_congr fun c member => ?_)
    rw [reached] at shown
    cases given : f o with
    | none =>
      rw [ih c member (o :: around) (by simp [reached, given, shown]), ih c member [o] (by simp [reached, given])]
    | some other =>
      rw [reachedIn_of_not_reached c (o :: around) (by simp [reached, given]),
        reachedIn_of_not_reached c [o] (by simp [reached, given])]

end Enclosed

/-- The operands inside an operand on which a function has to be called. -/
def Operand.reached (f : Operand → Option Operand) (o : Operand) : List Operand := Enclosed.reachedIn f ⟨[], o⟩

theorem Operand.reached_eq (o : Operand) :
    o.reached f = o :: if (f o).isSome then [] else o.children.flatMap (Operand.reached f) := by
  rw [reached, Enclosed.reachedIn_eq, Enclosed.children, List.flatMap_map]
  refine congrArg (o :: ·) ?_
  cases given : f o with
  | none =>
    exact List.flatMap_congr fun c _ => Enclosed.reachedIn_of_reached c [o] (by simp [Enclosed.reached, given])
  | some other =>
    exact List.flatMap_eq_nil_iff.2 fun c _ =>
      Enclosed.reachedIn_of_not_reached c [o] (by simp [Enclosed.reached, given])

/-- The operands of a node, with what lies around each. -/
def Node.enclosed : Node → List Enclosed
  | .operand o => Enclosed.all ⟨[], o⟩
  | _ => []

/-- The operands of a tree, with what lies around each. -/
def Fragment.enclosed (t : Fragment) : List Enclosed := t.nodes.flatMap Node.enclosed

theorem Fragment.enclosed_operands (t : Fragment) : t.enclosed.map Enclosed.operand = t.operands := by
  rw [enclosed, operands, List.map_flatMap]
  refine List.flatMap_congr fun n _ => ?_
  cases n with
  | operand o => exact Enclosed.all_operands o []
  | _ => rfl

/-- What is reached in the operands among some nodes. -/
def reachedOf (f : Operand → Option Operand) (nodes : List Node) : List Operand :=
  ((nodes.flatMap Node.enclosed).filter (Enclosed.reached f)).map Enclosed.operand

@[simp] theorem reachedOf_nil : reachedOf f [] = [] := rfl

@[simp] theorem reachedOf_append (a b : List Node) : reachedOf f (a ++ b) = reachedOf f a ++ reachedOf f b := by
  simp [reachedOf]

@[simp] theorem reachedOf_operand (o : Operand) (nodes : List Node) :
    reachedOf f (.operand o :: nodes) = o.reached f ++ reachedOf f nodes := by
  simp [reachedOf, Node.enclosed, Operand.reached, Enclosed.reachedIn]

@[simp] theorem reachedOf_constraint (c : Constraint) (nodes : List Node) :
    reachedOf f (.constraint c :: nodes) = reachedOf f nodes := rfl

@[simp] theorem reachedOf_withItem (item : WithItem) (nodes : List Node) :
    reachedOf f (.withItem item :: nodes) = reachedOf f nodes := rfl

@[simp] theorem reachedOf_set (o : SetOperation) (nodes : List Node) :
    reachedOf f (.setOperation o :: nodes) = reachedOf f nodes := rfl

@[simp] theorem reachedOf_offset (o : Offset) (nodes : List Node) :
    reachedOf f (.offset o :: nodes) = reachedOf f nodes := rfl

theorem reachedOf_flatMap {α : Type} (as : List α) (g : α → List Node) :
    reachedOf f (as.flatMap g) = as.flatMap fun a => reachedOf f (g a) := by
  induction as with
  | nil => rfl
  | cons a rest ih => rw [List.flatMap_cons, reachedOf_append, ih, List.flatMap_cons]

/-! ### Steps of the walk -/

section Calls

variable {α β : Type}

/-- A step gives `a`, and calls the function on the operands of `os` in their order. -/
def Calls (f : Operand → Option Operand) (p : StateM Replacer α) (a : α) (os : List Operand) : Prop :=
  ∀ r : Replacer, p.run r = (a, ⟨r.tried ++ os, r.count + os.countP fun o => (f o).isSome⟩)

theorem calls_pure (a : α) : Calls f (pure a) a [] := fun r => by
  show (a, r) = _
  rw [List.append_nil]
  rfl

theorem Calls.bind {p : StateM Replacer α} {k : α → StateM Replacer β} {a : α} {b : β} {os os' : List Operand}
    (h : Calls f p a os) (h' : Calls f (k a) b os') : Calls f (p >>= k) b (os ++ os') := fun r => by
  rw [StateT.run_bind, h r]
  show (k a).run _ = _
  rw [h', List.append_assoc, List.countP_append, Nat.add_assoc]

theorem Calls.give {p : StateM Replacer α} {g : α → β} {a : α} {os : List Operand} (h : Calls f p a os) :
    Calls f (p >>= fun a => pure (g a)) (g a) os := by
  have given := h.bind (k := fun a => pure (g a)) (calls_pure (g a))
  rwa [List.append_nil] at given

theorem calls_mapM {p : α → StateM Replacer α} {g : α → α} {os : α → List Operand} {as : List α}
    (h : ∀ a ∈ as, Calls f (p a) (g a) (os a)) : Calls f (as.mapM p) (as.map g) (as.flatMap os) := by
  induction as with
  | nil => exact calls_pure []
  | cons a rest ih =>
    rw [List.mapM_cons]
    exact (h a List.mem_cons_self).bind (ih fun b member => h b (List.mem_cons_of_mem _ member)).give

theorem calls_spared {o : Operand} (spared : f o = none) :
    Calls f (modify fun r => { r with tried := r.tried ++ [o] }) () [o] := fun r => by
  show ((), _) = _
  rw [List.countP_singleton, spared]
  rfl

theorem calls_put {o other : Operand} (given : f o = some other) : Calls f (do
    modify fun r => { r with tried := r.tried ++ [o] }
    modify fun r => { r with count := r.count + 1 }
    return other) other [o] := fun r => by
  show (other, _) = _
  rw [List.countP_singleton, given]
  rfl

end Calls

/-! ### The walk calls the function on what is reached -/

theorem Operand.visitAll_calls {os : List Operand} (h : ∀ o ∈ os, Calls f (o.visit f) (o.replace f) (o.reached f)) :
    Calls f (Operand.visitAll f os) (Operand.replaceAll f os) (os.flatMap (Operand.reached f)) := by
  induction os with
  | nil => exact calls_pure []
  | cons o rest ih =>
    rw [visitAll]
    exact (h o List.mem_cons_self).bind (ih fun b member => h b (List.mem_cons_of_mem _ member)).give

theorem Operand.visit_calls (o : Operand) : Calls f (o.visit f) (o.replace f) (o.reached f) := by
  induction o using Operand.byParts with
  | step o ih =>
    rw [Operand.reached_eq, Operand.visit.eq_def, Operand.replace.eq_def]
    cases given : f o with
    | some other => exact calls_put given
    | none =>
      refine (calls_spared given).bind ?_
      -- The forms differ in how many operands they have: none, one, two, or a list of them.
      have one {c : Operand} (h : o.children = [c]) :
          Calls f (c.visit f) (c.replace f) (o.children.flatMap (reached f)) := by
        rw [h, List.flatMap_singleton]
        exact ih c (h ▸ List.mem_singleton_self c)
      have all {cs : List Operand} (h : o.children = cs) :
          Calls f (visitAll f cs) (replaceAll f cs) (o.children.flatMap (reached f)) :=
        h ▸ visitAll_calls fun c member => ih c member
      have both {c d : Operand} (h : o.children = [c, d]) {g : Operand → Operand → Operand} :
          Calls f (do return g (← c.visit f) (← d.visit f)) (g (c.replace f) (d.replace f))
            (o.children.flatMap (reached f)) := by
        rw [h, List.flatMap_cons, List.flatMap_singleton]
        exact (ih c (by simp [h])).bind (ih d (by simp [h])).give
      cases o with
      | numeric | string | column => exact calls_pure _
      | negative | wrapped | lower | upper | cast => exact (one rfl).give
      | operation left op right span => exact both rfl (g := fun left right => .operation left op right span)
      | inUnit value unit span => exact both rfl (g := fun value unit => .inUnit value unit span)
      | concatenation | math | coalesce | userDefined => exact (all rfl).give
      | aggregate fn distinct arg =>
        cases arg with
        | none => exact calls_pure _
        | some arg => exact (one rfl).give
      | geometry fn sys args =>
        cases sys with
        | none => exact (all rfl).give
        | some sys =>
          exact (ih sys List.mem_cons_self).bind
            (visitAll_calls fun c member => ih c (List.mem_cons_of_mem _ member)).give

theorem Operand.visitAll_operands (os : List Operand) :
    Calls f (Operand.visitAll f os) (Operand.replaceAll f os) (reachedOf f (os.map .operand)) := by
  have listed : reachedOf f (os.map .operand) = os.flatMap (Operand.reached f) := by
    induction os with
    | nil => rfl
    | cons o rest ih => rw [List.map_cons, reachedOf_operand, ih, List.flatMap_cons]
  rw [listed]
  exact visitAll_calls fun o _ => visit_calls o

theorem SelectItem.visit_calls (item : SelectItem) :
    Calls f (item.visit f) (item.replace f) (reachedOf f item.nodes) := by
  cases item with
  | expr operand label =>
    rw [SelectItem.nodes, reachedOf_operand, reachedOf_nil, List.append_nil]
    exact operand.visit_calls.give
  | all span => exact calls_pure _
  | allOf table span => exact calls_pure _

theorem SelectClause.visit_calls (c : SelectClause) : Calls f (c.visit f) (c.replace f) (reachedOf f c.nodes) := by
  rw [SelectClause.nodes, reachedOf_flatMap]
  exact (calls_mapM fun item _ => item.visit_calls).give

theorem OrderItem.visitAll_calls (order : List OrderItem) : Calls f (order.mapM (OrderItem.visit f))
    (order.map (OrderItem.replace f)) (reachedOf f (order.map fun item => .operand item.expr)) := by
  rw [List.map_eq_flatMap (f := fun item : OrderItem => Node.operand item.expr), reachedOf_flatMap]
  refine calls_mapM fun item _ => ?_
  rw [reachedOf_operand, reachedOf_nil, List.append_nil]
  exact item.expr.visit_calls.give

/-- What ends a query has no operands but those of its order. -/
theorem reachedOf_tail (order : List OrderItem) (offset : Option Offset) :
    reachedOf f (tailNodes order offset) = reachedOf f (order.map fun item => .operand item.expr) := by
  cases offset <;> simp [tailNodes]

mutual

theorem Query.visit_calls (q : Query) : Calls f (q.visit f) (q.replace f) (reachedOf f q.nodes) := by
  cases q with
  | mk items body span =>
    rw [Query.visit, Query.replace, Query.nodes, reachedOf_append]
    exact (WithItem.visitAll_calls items).bind (QueryBody.visit_calls body).give
termination_by structural q

theorem WithItem.visitAll_calls (items : List WithItem) :
    Calls f (WithItem.visitAll f items) (WithItem.replaceAll f items) (reachedOf f (WithItem.allNodes items)) := by
  cases items with
  | nil =>
    rw [WithItem.visitAll, WithItem.replaceAll, WithItem.allNodes]
    exact calls_pure []
  | cons item rest =>
    cases item with
    | mk name columns query span =>
      rw [WithItem.visitAll, WithItem.replaceAll, WithItem.allNodes, reachedOf_withItem, reachedOf_append]
      exact (Query.visit_calls query).bind (WithItem.visitAll_calls rest).give
termination_by structural items

theorem QueryBody.visit_calls (b : QueryBody) : Calls f (b.visit f) (b.replace f) (reachedOf f b.nodes) := by
  cases b with
  | select q =>
    rw [QueryBody.visit, QueryBody.replace, QueryBody.nodes]
    exact (SelectQuery.visit_calls q).give
  | set o =>
    cases o with
    | mk left op all right orderBy offset span =>
      rw [QueryBody.visit, QueryBody.replace, QueryBody.nodes, SetOperation.visit, SetOperation.replace,
        SetOperation.nodes, reachedOf_append, reachedOf_set, reachedOf_append, reachedOf_tail]
      exact ((QueryBody.visit_calls left).bind
        ((QueryBody.visit_calls right).bind (OrderItem.visitAll_calls orderBy).give)).give
termination_by structural b

theorem SelectQuery.visit_calls (q : SelectQuery) : Calls f (q.visit f) (q.replace f) (reachedOf f q.nodes) := by
  cases q with
  | mk clause source filter groupBy having orderBy offset span =>
    rw [SelectQuery.visit, SelectQuery.replace.eq_def, SelectQuery.nodes.eq_def]
    simp only [reachedOf_append, reachedOf_tail, List.append_assoc]
    exact clause.visit_calls.bind ((FromItem.visitAll_calls source).bind ((Constraint.visitEach_calls filter).bind
      ((Operand.visitAll_operands groupBy).bind ((Constraint.visitEach_calls having).bind
        (OrderItem.visitAll_calls orderBy).give))))
termination_by structural q

theorem FromItem.visitAll_calls (items : List FromItem) :
    Calls f (FromItem.visitAll f items) (FromItem.replaceAll f items) (reachedOf f (FromItem.allNodes items)) := by
  cases items with
  | nil =>
    rw [FromItem.visitAll, FromItem.replaceAll, FromItem.allNodes]
    exact calls_pure []
  | cons item rest =>
    rw [FromItem.visitAll, FromItem.replaceAll, FromItem.allNodes, reachedOf_append]
    exact (FromItem.visit_calls item).bind (FromItem.visitAll_calls rest).give
termination_by structural items

theorem FromItem.visit_calls (item : FromItem) :
    Calls f (item.visit f) (item.replace f) (reachedOf f item.nodes) := by
  cases item with
  | table name label span =>
    rw [FromItem.visit, FromItem.replace, FromItem.nodes]
    exact calls_pure _
  | subquery query label span =>
    rw [FromItem.visit, FromItem.replace, FromItem.nodes]
    exact (Query.visit_calls query).give
  | join left kind natural right condition span =>
    rw [FromItem.visit, FromItem.replace, FromItem.nodes, reachedOf_append, reachedOf_append, List.append_assoc]
    exact (FromItem.visit_calls left).bind
      ((FromItem.visit_calls right).bind (JoinCondition.visit_calls condition).give)
termination_by structural item

theorem JoinCondition.visit_calls (condition : JoinCondition) :
    Calls f (condition.visit f) (condition.replace f) (reachedOf f condition.nodes) := by
  cases condition with
  | unstated =>
    rw [JoinCondition.visit, JoinCondition.replace, JoinCondition.nodes]
    exact calls_pure _
  | on c =>
    rw [JoinCondition.visit, JoinCondition.replace, JoinCondition.nodes]
    exact (Constraint.visit_calls c).give
  | sharing columns =>
    rw [JoinCondition.visit, JoinCondition.replace, JoinCondition.nodes]
    exact calls_pure _
termination_by structural condition

theorem Constraint.visitEach_calls (c : Option Constraint) :
    Calls f (Constraint.visitEach f c) (match c with | some condition => some (condition.replace f) | none => none)
      (reachedOf f (match c with | some condition => condition.nodes | none => [])) := by
  cases c with
  | none =>
    rw [Constraint.visitEach]
    exact calls_pure none
  | some c =>
    rw [Constraint.visitEach]
    exact (Constraint.visit_calls c).give
termination_by structural c

theorem Constraint.visit_calls (c : Constraint) : Calls f (c.visit f) (c.replace f) (reachedOf f c.nodes) := by
  cases c with
  | comparison left op right span =>
    rw [Constraint.visit, Constraint.replace, Constraint.nodes, reachedOf_constraint]
    simp only [reachedOf_operand, reachedOf_nil, List.append_nil]
    exact left.visit_calls.bind right.visit_calls.give
  | between value low high negated span =>
    rw [Constraint.visit, Constraint.replace, Constraint.nodes, reachedOf_constraint]
    simp only [reachedOf_operand, reachedOf_nil, List.append_nil]
    exact value.visit_calls.bind (low.visit_calls.bind high.visit_calls.give)
  | inValues value values negated span =>
    rw [Constraint.visit, Constraint.replace, Constraint.nodes, reachedOf_constraint, reachedOf_operand]
    exact value.visit_calls.bind (Operand.visitAll_operands values).give
  | inQuery value query negated span =>
    rw [Constraint.visit, Constraint.replace, Constraint.nodes, reachedOf_constraint, reachedOf_operand]
    exact value.visit_calls.bind (Query.visit_calls query).give
  | isNull value negated span =>
    rw [Constraint.visit, Constraint.replace, Constraint.nodes, reachedOf_constraint]
    simp only [reachedOf_operand, reachedOf_nil, List.append_nil]
    exact value.visit_calls.give
  | nonEmpty query span =>
    rw [Constraint.visit, Constraint.replace, Constraint.nodes, reachedOf_constraint]
    exact (Query.visit_calls query).give
  | not inner span | group inner span =>
    rw [Constraint.visit, Constraint.replace, Constraint.nodes, reachedOf_constraint]
    exact (Constraint.visit_calls inner).give
  | and left right span | or left right span =>
    rw [Constraint.visit, Constraint.replace, Constraint.nodes, reachedOf_constraint, reachedOf_append]
    exact (Constraint.visit_calls left).bind (Constraint.visit_calls right).give
termination_by structural c

end

theorem Fragment.visit_calls (t : Fragment) : Calls f (t.visit f) (t.replace f) (reachedOf f t.nodes) := by
  cases t with
  | query q => exact q.visit_calls.give
  | select clause => exact clause.visit_calls.give
  | source items => exact (FromItem.visitAll_calls items).give
  | filter condition => exact condition.visit_calls.give
  | orderBy items => exact (OrderItem.visitAll_calls items).give
  | groupBy items => exact (Operand.visitAll_operands items).give

/-- The walk gives the tree with its operands replaced, and calls the function on what is reached. -/
theorem Fragment.replaceOperands_eq (f : Operand → Option Operand) (t : Fragment) :
    t.replaceOperands f = (t.replace f, ⟨reachedOf f t.nodes, (reachedOf f t.nodes).countP fun o => (f o).isSome⟩) := by
  rw [replaceOperands, t.visit_calls, List.nil_append, Nat.zero_add]

/-! ### What is left as it was -/

section Replaced

variable {R : Operand → Operand → Prop}

/-- The operand gives way to what the function gives for it, or else it stays and its parts are replaced. -/
inductive Operand.Replaced (f : Operand → Option Operand) : Operand → Operand → Prop where
  | put {o o' : Operand} (given : f o = some o') : Operand.Replaced f o o'
  | kept {o o' : Operand} (spared : f o = none) (same : o.hollow = o'.hollow)
    (parts : List.Forall₂ (Operand.Replaced f) o.children o'.children) : Operand.Replaced f o o'

theorem Operand.replaceAll_eq_map (os : List Operand) : Operand.replaceAll f os = os.map (Operand.replace f) := by
  induction os with
  | nil => rfl
  | cons o rest ih => rw [replaceAll, ih, List.map_cons]

theorem Operand.replace_of_some {o o' : Operand} (given : f o = some o') : o.replace f = o' := by
  rw [Operand.replace.eq_def, given]

theorem Operand.children_replace {o : Operand} (spared : f o = none) :
    (o.replace f).children = o.children.map (Operand.replace f) := by
  rw [Operand.replace.eq_def, spared]
  cases o with
  | aggregate fn distinct arg => cases arg <;> rfl
  | geometry fn sys args => cases sys <;> simp [Operand.children, Operand.replaceAll_eq_map]
  | _ => simp [Operand.children, Operand.replaceAll_eq_map]

theorem Operand.hollow_replace {o : Operand} (spared : f o = none) : (o.replace f).hollow = o.hollow := by
  rw [Operand.replace.eq_def, spared]
  cases o with
  | aggregate fn distinct arg => cases arg <;> rfl
  | geometry fn sys args => cases sys <;> simp [Operand.hollow, Operand.replaceAll_eq_map, Function.comp_def]
  | _ => simp [Operand.hollow, Operand.replaceAll_eq_map, Function.comp_def]

theorem Operand.replace_replaced (o : Operand) : o.Replaced f (o.replace f) := by
  induction o using Operand.byParts with
  | step o ih =>
    cases given : f o with
    | some other => exact .put (given.trans (congrArg some (Operand.replace_of_some given).symm))
    | none =>
      refine .kept given (Operand.hollow_replace given).symm ?_
      rw [Operand.children_replace given, List.forall₂_map_right_iff]
      exact List.forall₂_same.2 ih

theorem Operand.Replaced.eq {o o' : Operand} (h : o.Replaced f o') : o' = o.replace f := by
  induction o using Operand.byParts generalizing o' with
  | step o ih =>
    cases h with
    | put given => exact (Operand.replace_of_some given).symm
    | kept spared same parts =>
      refine Operand.eq_of_hollow (same.symm.trans (Operand.hollow_replace spared).symm) ?_
      have each := (List.forall₂_and_left _ _).2 ⟨fun c (member : c ∈ o.children) => member, parts⟩
      have given : List.Forall₂ (fun c c' => c.replace f = c') o.children o'.children :=
        each.imp fun c c' here => (ih c here.1 here.2).symm
      rw [Operand.children_replace spared, ← List.forall₂_eq_eq_eq, List.forall₂_map_right_iff]
      exact given.flip.imp fun _ _ here => here.symm

theorem Operand.replace_none (o : Operand) : o.replace (fun _ => none) = o := by
  refine (Replaced.eq ?_).symm
  induction o using Operand.byParts with
  | step o ih => exact .kept rfl rfl (List.forall₂_same.2 ih)

theorem Operand.replaceAll_related (hR : ∀ o, R o (o.replace f)) (os : List Operand) :
    List.Forall₂ R os (Operand.replaceAll f os) := by
  rw [Operand.replaceAll_eq_map, List.forall₂_map_right_iff]
  exact List.forall₂_same.2 fun o _ => hR o

theorem SelectClause.replace_related (hR : ∀ o, R o (o.replace f)) (c : SelectClause) :
    c.Related Eq R (c.replace f) := by
  refine ⟨rfl, rfl, ?_, rfl⟩
  rw [SelectClause.replace, List.forall₂_map_right_iff]
  refine List.forall₂_same.2 fun item _ => ?_
  cases item with
  | all => exact .all
  | allOf => exact .allOf (TableName.Renamed.refl (fun _ => rfl) _)
  | expr operand => exact .expr (hR operand) (rel_self fun _ _ => rfl)

theorem OrderItem.replaceAll_related (hR : ∀ o, R o (o.replace f)) (order : List OrderItem) :
    List.Forall₂ (OrderItem.Related R) order (order.map (OrderItem.replace f)) := by
  rw [List.forall₂_map_right_iff]
  exact List.forall₂_same.2 fun item _ => ⟨hR item.expr, rfl, rfl⟩

mutual

theorem Query.replace_related (hR : ∀ o, R o (o.replace f)) (q : Query) : q.Related Eq R (q.replace f) := by
  cases q with
  | mk items body span =>
    rw [Query.replace]
    exact .intro (WithItem.replaceAll_related hR items) (QueryBody.replace_related hR body)
termination_by structural q

theorem WithItem.replaceAll_related (hR : ∀ o, R o (o.replace f)) (items : List WithItem) :
    List.Forall₂ (WithItem.Related Eq R) items (WithItem.replaceAll f items) := by
  cases items with
  | nil =>
    rw [WithItem.replaceAll]
    exact .nil
  | cons item rest =>
    cases item with
    | mk name columns query span =>
      rw [WithItem.replaceAll]
      refine .cons (.intro rfl ?_ (Query.replace_related hR query)) (WithItem.replaceAll_related hR rest)
      exact List.forall₂_same.2 fun _ _ => rfl
termination_by structural items

theorem QueryBody.replace_related (hR : ∀ o, R o (o.replace f)) (b : QueryBody) : b.Related Eq R (b.replace f) := by
  cases b with
  | select q =>
    rw [QueryBody.replace]
    exact .select (SelectQuery.replace_related hR q)
  | set o =>
    cases o with
    | mk left op all right orderBy offset span =>
      rw [QueryBody.replace, SetOperation.replace]
      exact .set (QueryBody.replace_related hR left) (QueryBody.replace_related hR right)
        (OrderItem.replaceAll_related hR orderBy)
termination_by structural b

theorem SelectQuery.replace_related (hR : ∀ o, R o (o.replace f)) (q : SelectQuery) :
    q.Related Eq R (q.replace f) := by
  cases q with
  | mk clause source filter groupBy having orderBy offset span =>
    rw [SelectQuery.replace.eq_def]
    exact .intro (SelectClause.replace_related hR clause) (FromItem.replaceAll_related hR source)
      (Constraint.replaceEach_related hR filter) (Operand.replaceAll_related hR groupBy)
      (Constraint.replaceEach_related hR having) (OrderItem.replaceAll_related hR orderBy)
termination_by structural q

theorem FromItem.replaceAll_related (hR : ∀ o, R o (o.replace f)) (items : List FromItem) :
    List.Forall₂ (FromItem.Related Eq R) items (FromItem.replaceAll f items) := by
  cases items with
  | nil =>
    rw [FromItem.replaceAll]
    exact .nil
  | cons item rest =>
    rw [FromItem.replaceAll]
    exact .cons (FromItem.replace_related hR item) (FromItem.replaceAll_related hR rest)
termination_by structural items

theorem FromItem.replace_related (hR : ∀ o, R o (o.replace f)) (item : FromItem) :
    item.Related Eq R (item.replace f) := by
  cases item with
  | table name label span =>
    rw [FromItem.replace]
    exact .table (TableName.Renamed.refl (fun _ => rfl) name) (rel_self fun _ _ => rfl)
  | subquery query label span =>
    rw [FromItem.replace]
    exact .subquery (Query.replace_related hR query) rfl
  | join left kind natural right condition span =>
    rw [FromItem.replace]
    exact .join (FromItem.replace_related hR left) (FromItem.replace_related hR right)
      (JoinCondition.replace_related hR condition)
termination_by structural item

theorem JoinCondition.replace_related (hR : ∀ o, R o (o.replace f)) (condition : JoinCondition) :
    condition.Related Eq R (condition.replace f) := by
  cases condition with
  | unstated =>
    rw [JoinCondition.replace]
    exact .unstated
  | on c =>
    rw [JoinCondition.replace]
    exact .on (Constraint.replace_related hR c)
  | sharing columns =>
    rw [JoinCondition.replace]
    exact .sharing (List.forall₂_same.2 fun _ _ => rfl)
termination_by structural condition

theorem Constraint.replaceEach_related (hR : ∀ o, R o (o.replace f)) (c : Option Constraint) :
    Option.Rel (Constraint.Related Eq R) c
      (match c with | some condition => some (condition.replace f) | none => none) := by
  cases c with
  | none => exact .none
  | some c => exact .some (Constraint.replace_related hR c)
termination_by structural c

theorem Constraint.replace_related (hR : ∀ o, R o (o.replace f)) (c : Constraint) :
    c.Related Eq R (c.replace f) := by
  cases c with
  | comparison left op right span =>
    rw [Constraint.replace]
    exact .comparison (hR left) (hR right)
  | between value low high negated span =>
    rw [Constraint.replace]
    exact .between (hR value) (hR low) (hR high)
  | inValues value values negated span =>
    rw [Constraint.replace]
    exact .inValues (hR value) (Operand.replaceAll_related hR values)
  | inQuery value query negated span =>
    rw [Constraint.replace]
    exact .inQuery (hR value) (Query.replace_related hR query)
  | isNull value negated span =>
    rw [Constraint.replace]
    exact .isNull (hR value)
  | nonEmpty query span =>
    rw [Constraint.replace]
    exact .nonEmpty (Query.replace_related hR query)
  | not inner span =>
    rw [Constraint.replace]
    exact .not (Constraint.replace_related hR inner)
  | group inner span =>
    rw [Constraint.replace]
    exact .group (Constraint.replace_related hR inner)
  | and left right span =>
    rw [Constraint.replace]
    exact .and (Constraint.replace_related hR left) (Constraint.replace_related hR right)
  | or left right span =>
    rw [Constraint.replace]
    exact .or (Constraint.replace_related hR left) (Constraint.replace_related hR right)
termination_by structural c

end

theorem Fragment.replace_related (hR : ∀ o, R o (o.replace f)) (t : Fragment) : t.Related Eq R (t.replace f) := by
  cases t with
  | query q => exact .query (Query.replace_related hR q)
  | select clause => exact .select (SelectClause.replace_related hR clause)
  | source items => exact .source (FromItem.replaceAll_related hR items)
  | filter condition => exact .filter (Constraint.replace_related hR condition)
  | orderBy items => exact .orderBy (OrderItem.replaceAll_related hR items)
  | groupBy operands => exact .groupBy (Operand.replaceAll_related hR operands)

end Replaced

/-! ### Both walks -/

theorem Enclosed.reached_none (e : Enclosed) : e.reached (fun _ => none) = true := by simp [reached]

/-- Searching and replacing meet the same operands: the function is called on all those that a search for
everything finds, in the same order, but for those inside an operand that it replaces. It is counted how
often it replaces, each such operand gives way to what the function gives for it, and all else is as it
was; if it never replaces, the tree is the same and each operand is tried once. -/
theorem Fragment.replaceOperands_walk (f : Operand → Option Operand) (t : Fragment) :
    t.enclosed.map Enclosed.operand = t.operands ∧
      (t.replaceOperands f).2.tried = (t.enclosed.filter (Enclosed.reached f)).map Enclosed.operand ∧
      (t.replaceOperands f).2.count = (t.replaceOperands f).2.tried.countP (fun o => (f o).isSome) ∧
      t.Related Eq (Operand.Replaced f) (t.replaceOperands f).1 ∧
      t.replaceOperands (fun _ => none) = (t, ⟨t.operands, 0⟩) := by
  have unchanged : t.replace (fun _ => none) = t := by
    exact ((Fragment.replace_related (fun o => o.replace_none.symm) t).eq id id).symm
  have all : reachedOf (fun _ => none) t.nodes = t.operands := by
    rw [reachedOf, List.filter_eq_self.2 fun e _ => e.reached_none]
    exact t.enclosed_operands
  refine ⟨t.enclosed_operands, ?_, ?_, ?_, ?_⟩
  · rw [replaceOperands_eq]
    rfl
  · rw [replaceOperands_eq]
  · rw [replaceOperands_eq]
    exact Fragment.replace_related Operand.replace_replaced t
  · rw [replaceOperands_eq, unchanged, all, List.countP_eq_zero.2 fun o _ => by simp]

end SkyQuery
