import SkyQuery.Proofs.Tree.WellFormed

/-!
# Trees without places

`unplaced` forgets the spans of a tree. Two trees are the same but for their places if they are
equal without them; what the grammar asks of a tree and what the printer writes depend on no place.
-/

namespace SkyQuery

open Grammar

/-! ### Definitions -/

mutual

/-- The expression without its places. -/
def Operand.unplaced : Operand → Operand
  | .numeric text _ => .numeric text none
  | .string value _ => .string value none
  | .column ref _ => .column ref none
  | .negative inner _ => .negative inner.unplaced none
  | .operation left op right _ => .operation left.unplaced op right.unplaced none
  | .concatenation parts _ => .concatenation (Operand.allUnplaced parts) none
  | .wrapped inner _ => .wrapped inner.unplaced none
  | .math fn args _ => .math fn (Operand.allUnplaced args) none
  | .aggregate fn distinct (some arg) _ => .aggregate fn distinct (some arg.unplaced) none
  | .aggregate fn distinct none _ => .aggregate fn distinct none none
  | .geometry fn (some sys) args _ => .geometry fn (some sys.unplaced) (Operand.allUnplaced args) none
  | .geometry fn none args _ => .geometry fn none (Operand.allUnplaced args) none
  | .lower value _ => .lower value.unplaced none
  | .upper value _ => .upper value.unplaced none
  | .coalesce args _ => .coalesce (Operand.allUnplaced args) none
  | .inUnit value unit _ => .inUnit value.unplaced unit.unplaced none
  | .cast value target _ => .cast value.unplaced target none
  | .userDefined name args _ => .userDefined name (Operand.allUnplaced args) none

def Operand.allUnplaced : List Operand → List Operand
  | [] => []
  | o :: rest => o.unplaced :: Operand.allUnplaced rest

end

def SelectItem.unplaced : SelectItem → SelectItem
  | .all _ => .all none
  | .allOf table _ => .allOf table none
  | .expr operand label => .expr operand.unplaced label

def SelectClause.unplaced (c : SelectClause) : SelectClause :=
  { c with items := c.items.map SelectItem.unplaced, span := none }

def OrderItem.unplaced (o : OrderItem) : OrderItem := ⟨o.expr.unplaced, o.descending, none⟩

def Offset.unplaced (o : Offset) : Offset := ⟨o.value, none⟩

mutual

/-- The condition without its places. -/
def Constraint.unplaced : Constraint → Constraint
  | .comparison left op right _ => .comparison left.unplaced op right.unplaced none
  | .between value low high negated _ =>
    .between value.unplaced low.unplaced high.unplaced negated none
  | .inValues value values negated _ =>
    .inValues value.unplaced (values.map Operand.unplaced) negated none
  | .inQuery value query negated _ => .inQuery value.unplaced query.unplaced negated none
  | .isNull value negated _ => .isNull value.unplaced negated none
  | .nonEmpty query _ => .nonEmpty query.unplaced none
  | .not inner _ => .not inner.unplaced none
  | .and left right _ => .and left.unplaced right.unplaced none
  | .or left right _ => .or left.unplaced right.unplaced none
  | .group inner _ => .group inner.unplaced none

def FromItem.unplaced : FromItem → FromItem
  | .table name label _ => .table name label none
  | .subquery query label _ => .subquery query.unplaced label none
  | .join left kind natural right condition _ =>
    .join left.unplaced kind natural right.unplaced condition.unplaced none

def JoinCondition.unplaced : JoinCondition → JoinCondition
  | .unstated => .unstated
  | .on condition => .on condition.unplaced
  | .sharing columns => .sharing columns

def SelectQuery.unplaced : SelectQuery → SelectQuery
  | { clause, source, filter, groupBy, having, orderBy, offset, .. } =>
    { clause := clause.unplaced, source := FromItem.allUnplaced source,
      filter := Constraint.eachUnplaced filter, groupBy := groupBy.map Operand.unplaced,
      having := Constraint.eachUnplaced having, orderBy := orderBy.map OrderItem.unplaced,
      offset := offset.map Offset.unplaced, span := none }

def SetOperation.unplaced : SetOperation → SetOperation
  | { left, op, all, right, orderBy, offset, .. } =>
    { left := left.unplaced, op, all, right := right.unplaced,
      orderBy := orderBy.map OrderItem.unplaced, offset := offset.map Offset.unplaced, span := none }

def QueryBody.unplaced : QueryBody → QueryBody
  | .select query => .select query.unplaced
  | .set operation => .set operation.unplaced

def WithItem.unplaced : WithItem → WithItem
  | { name, columns, query, .. } => { name, columns, query := query.unplaced, span := none }

/-- The query without its places. -/
def Query.unplaced : Query → Query
  | { withItems, body, .. } =>
    { withItems := WithItem.allUnplaced withItems, body := body.unplaced, span := none }

def Constraint.eachUnplaced : Option Constraint → Option Constraint
  | none => none
  | some condition => some condition.unplaced

def FromItem.allUnplaced : List FromItem → List FromItem
  | [] => []
  | item :: rest => item.unplaced :: FromItem.allUnplaced rest

def WithItem.allUnplaced : List WithItem → List WithItem
  | [] => []
  | item :: rest => item.unplaced :: WithItem.allUnplaced rest

end

/-! ### Lists -/

theorem Operand.allUnplaced_eq_map (os : List Operand) :
    Operand.allUnplaced os = os.map Operand.unplaced := by
  induction os with
  | nil => rfl
  | cons o rest ih => rw [Operand.allUnplaced, ih, List.map_cons]

theorem FromItem.allUnplaced_eq_map (items : List FromItem) :
    FromItem.allUnplaced items = items.map FromItem.unplaced := by
  induction items with
  | nil => rfl
  | cons item rest ih => rw [FromItem.allUnplaced, ih, List.map_cons]

theorem WithItem.allUnplaced_eq_map (items : List WithItem) :
    WithItem.allUnplaced items = items.map WithItem.unplaced := by
  induction items with
  | nil => rfl
  | cons item rest ih => rw [WithItem.allUnplaced, ih, List.map_cons]

/-! ### What depends on no place -/

theorem Operand.sizeOf_lt_of_mem_children {o c : Operand} (h : c ∈ o.children) : sizeOf c < sizeOf o := by
  cases o
  case aggregate fn distinct arg span =>
    cases arg with
    | none => cases h
    | some arg =>
      obtain rfl := List.mem_singleton.1 h
      simp
      omega
  case geometry fn sys args span =>
    cases sys with
    | none =>
      have := List.sizeOf_lt_of_mem (show c ∈ args from h)
      simp
      omega
    | some sys =>
      rcases List.mem_cons.1 h with rfl | h
      · simp
        omega
      · have := List.sizeOf_lt_of_mem (show c ∈ args from h)
        simp
        omega
  case concatenation parts span | math fn parts span | coalesce parts span | userDefined name parts span =>
    have := List.sizeOf_lt_of_mem (show c ∈ parts from h)
    simp
    omega
  all_goals
    simp [Operand.children] at h
    try rcases h with rfl | rfl
    all_goals simp_all; try omega

/-- What holds of an expression if it holds of its parts holds of all expressions. -/
theorem Operand.byParts {P : Operand → Prop} (step : ∀ o, (∀ c ∈ o.children, P c) → P o) (o : Operand) :
    P o :=
  step o fun c _ => Operand.byParts step c
termination_by sizeOf o
decreasing_by exact Operand.sizeOf_lt_of_mem_children ‹_›

namespace Operand

/-- What stands where a part is left out. -/
def blank : Operand := .numeric "" none

/-- An expression with all its parts left out. -/
def hollow : Operand → Operand
  | .negative _ s => .negative blank s
  | .operation _ op _ s => .operation blank op blank s
  | .concatenation parts s => .concatenation (parts.map fun _ => blank) s
  | .wrapped _ s => .wrapped blank s
  | .math fn args s => .math fn (args.map fun _ => blank) s
  | .aggregate fn distinct arg s => .aggregate fn distinct (arg.map fun _ => blank) s
  | .geometry fn sys args s => .geometry fn (sys.map fun _ => blank) (args.map fun _ => blank) s
  | .lower _ s => .lower blank s
  | .upper _ s => .upper blank s
  | .coalesce args s => .coalesce (args.map fun _ => blank) s
  | .inUnit _ _ s => .inUnit blank blank s
  | .cast _ target s => .cast blank target s
  | .userDefined name args s => .userDefined name (args.map fun _ => blank) s
  | o => o

/-- An expression is told by its parts and by what is left without them. -/
theorem eq_of_hollow {o o' : Operand} (same : o.hollow = o'.hollow) (parts : o.children = o'.children) : o = o' := by
  cases o <;> cases o' <;> simp only [hollow, reduceCtorEq] at same
  case aggregate.aggregate arg _ _ _ arg' _ => cases arg <;> cases arg' <;> simp_all [children]
  case geometry.geometry sys _ _ _ sys' _ _ => cases sys <;> cases sys' <;> simp_all [children]
  all_goals simp_all [children]

theorem allNumeric_eq_all (os : List Operand) : allNumeric os = os.all isNumeric := by
  induction os with
  | nil => rfl
  | cons o rest ih => rw [allNumeric, ih, List.all_cons]

theorem allString_eq_all (os : List Operand) : allString os = os.all isString := by
  induction os with
  | nil => rfl
  | cons o rest ih => rw [allString, ih, List.all_cons]

theorem allGeometry_eq_all (os : List Operand) : allGeometry os = os.all isGeometry := by
  induction os with
  | nil => rfl
  | cons o rest ih => rw [allGeometry, ih, List.all_cons]

theorem renderAll_eq_map (os : List Operand) : renderAll os = os.map render := by
  induction os with
  | nil => rfl
  | cons o rest ih => rw [renderAll, ih, List.map_cons]

theorem all_map_unplaced {f : Operand → Bool} {os : List Operand}
    (h : ∀ o ∈ os, f o.unplaced = f o) : (os.map unplaced).all f = os.all f := by
  induction os with
  | nil => rfl
  | cons o rest ih =>
    obtain ⟨first, others⟩ := List.forall_mem_cons.1 h
    rw [List.map_cons, List.all_cons, List.all_cons, first, ih others]

theorem isNumeric_unplaced (o : Operand) : o.unplaced.isNumeric = o.isNumeric := by
  induction o using byParts with
  | step o ih =>
    cases o with
    | wrapped inner span => exact ih inner List.mem_cons_self
    | aggregate fn distinct arg span =>
      cases arg with
      | none => cases fn <;> rfl
      | some arg =>
        have := ih arg List.mem_cons_self
        cases fn <;> simp [unplaced, isNumeric, this]
    | geometry fn sys args span => cases sys <;> rfl
    | coalesce args span =>
      simp only [unplaced, isNumeric, allNumeric_eq_all, allUnplaced_eq_map]
      exact all_map_unplaced ih
    | _ => rfl

theorem isString_unplaced (o : Operand) : o.unplaced.isString = o.isString := by
  induction o using byParts with
  | step o ih =>
    cases o with
    | wrapped inner span => exact ih inner List.mem_cons_self
    | aggregate fn distinct arg span =>
      cases arg with
      | none => cases fn <;> rfl
      | some arg =>
        have := ih arg List.mem_cons_self
        cases fn <;> simp [unplaced, isString, this]
    | geometry fn sys args span => cases sys <;> rfl
    | coalesce args span =>
      simp only [unplaced, isString, allString_eq_all, allUnplaced_eq_map]
      exact all_map_unplaced ih
    | _ => rfl

theorem isGeometry_unplaced (o : Operand) : o.unplaced.isGeometry = o.isGeometry := by
  induction o using byParts with
  | step o ih =>
    cases o with
    | wrapped inner span => exact ih inner List.mem_cons_self
    | aggregate fn distinct arg span => cases arg <;> rfl
    | geometry fn sys args span => cases sys <;> rfl
    | coalesce args span =>
      simp only [unplaced, isGeometry, allGeometry_eq_all, allUnplaced_eq_map]
      exact all_map_unplaced ih
    | _ => rfl

theorem isStringOnly_unplaced (o : Operand) : isStringOnly o.unplaced = isStringOnly o := by
  induction o using byParts with
  | step o ih =>
    cases o with
    | wrapped inner span => exact ih inner List.mem_cons_self
    | aggregate fn distinct arg span => cases arg <;> rfl
    | geometry fn sys args span => cases sys <;> rfl
    | _ => rfl

theorem isPointLike_unplaced (o : Operand) : isPointLike o.unplaced = isPointLike o := by
  induction o using byParts with
  | step o ih =>
    cases o with
    | wrapped inner span => exact ih inner List.mem_cons_self
    | aggregate fn distinct arg span => cases arg <;> rfl
    | geometry fn sys args span => cases sys <;> rfl
    | _ => rfl

theorem asColumn?_unplaced (o : Operand) : o.unplaced.asColumn? = o.asColumn? := by
  cases o with
  | aggregate fn distinct arg span => cases arg <;> rfl
  | geometry fn sys args span => cases sys <;> rfl
  | _ => rfl

theorem startsWithCoordSys_unplaced (fn : GeometryFn) (args : List Operand) :
    startsWithCoordSys fn (args.map unplaced) = startsWithCoordSys fn args := by
  cases args with
  | nil => rfl
  | cons first others =>
    have second : ((others.map unplaced).head?.map isPointLike).getD false
        = (others.head?.map isPointLike).getD false := by
      cases others <;> simp [isPointLike_unplaced]
    simp only [startsWithCoordSys, List.map_cons, List.length_map, isStringOnly_unplaced,
      isPointLike_unplaced, second]

/-- The printer writes no places. -/
theorem render_unplaced (o : Operand) : o.unplaced.render = o.render := by
  induction o using byParts with
  | step o ih =>
    have list (os : List Operand) (h : ∀ c ∈ os, c.unplaced.render = c.render) :
        renderAll (allUnplaced os) = renderAll os := by
      simp only [renderAll_eq_map, allUnplaced_eq_map, List.map_map]
      exact List.map_congr_left h
    cases o with
    | negative inner span =>
      have := ih inner List.mem_cons_self
      simp only [unplaced, render, this]
    | operation left op right span =>
      have hl := ih left (by simp [children])
      have hr := ih right (by simp [children])
      simp only [unplaced, render, hl, hr]
    | wrapped inner span | lower inner span | upper inner span | cast inner target span =>
      have := ih inner List.mem_cons_self
      simp only [unplaced, render, this]
    | inUnit value unit span =>
      have hl := ih value (by simp [children])
      have hr := ih unit (by simp [children])
      simp only [unplaced, render, hl, hr]
    | aggregate fn distinct arg span =>
      cases arg with
      | none => rfl
      | some arg =>
        have := ih arg List.mem_cons_self
        simp only [unplaced, render, this]
    | geometry fn sys args span =>
      cases sys with
      | none =>
        have := list args fun c hc => ih c (by simpa [children] using hc)
        simp only [unplaced, render, this]
      | some sys =>
        have hsys := ih sys (by simp [children])
        have := list args fun c hc => ih c (by simp [children, hc])
        simp only [unplaced, render, hsys, this]
    | concatenation parts span | math fn parts span | coalesce parts span | userDefined name parts span =>
      have := list parts fun c hc => ih c hc
      simp only [unplaced, render, this]
    | _ => rfl

end Operand

theorem SelectItem.render_unplaced (item : SelectItem) : item.unplaced.render = item.render := by
  cases item with
  | expr operand label => simp only [unplaced, render, Operand.render_unplaced]
  | _ => rfl

theorem SelectClause.render_unplaced (c : SelectClause) : c.unplaced.render = c.render := by
  have items : (c.items.map SelectItem.unplaced).map SelectItem.render = c.items.map SelectItem.render := by
    rw [List.map_map]
    exact List.map_congr_left fun item _ => item.render_unplaced
  simp only [unplaced, render, items]

theorem OrderItem.render_unplaced (o : OrderItem) : o.unplaced.render = o.render := by
  simp only [unplaced, render, Operand.render_unplaced]

theorem renderTail_unplaced (orderBy : List OrderItem) (offset : Option Offset) :
    renderTail (orderBy.map OrderItem.unplaced) (offset.map Offset.unplaced) = renderTail orderBy offset := by
  have items : (orderBy.map OrderItem.unplaced).map OrderItem.render = orderBy.map OrderItem.render := by
    rw [List.map_map]
    exact List.map_congr_left fun item _ => item.render_unplaced
  cases offset <;> simp only [renderTail, items, List.isEmpty_map, Option.map_none, Option.map_some, Offset.unplaced]

theorem Operand.renderAll_unplaced (os : List Operand) :
    Operand.renderAll (os.map Operand.unplaced) = Operand.renderAll os := by
  rw [renderAll_eq_map, renderAll_eq_map, List.map_map]
  exact List.map_congr_left fun o _ => o.render_unplaced

mutual

theorem Constraint.render_unplaced : ∀ c : Constraint, c.unplaced.render = c.render
  | .comparison left op right _ => by
    simp only [Constraint.unplaced, Constraint.render, Operand.render_unplaced]
  | .between value low high negated _ => by
    simp only [Constraint.unplaced, Constraint.render, Operand.render_unplaced]
  | .inValues value values negated _ => by
    simp only [Constraint.unplaced, Constraint.render, Operand.render_unplaced, Operand.renderAll_unplaced]
  | .inQuery value query negated _ => by
    simp only [Constraint.unplaced, Constraint.render, Operand.render_unplaced, Query.render_unplaced query]
  | .isNull value negated _ => by
    simp only [Constraint.unplaced, Constraint.render, Operand.render_unplaced]
  | .nonEmpty query _ => by simp only [Constraint.unplaced, Constraint.render, Query.render_unplaced query]
  | .not inner _ => by simp only [Constraint.unplaced, Constraint.render, Constraint.render_unplaced inner]
  | .and left right _ => by
    simp only [Constraint.unplaced, Constraint.render, Constraint.render_unplaced left,
      Constraint.render_unplaced right]
  | .or left right _ => by
    simp only [Constraint.unplaced, Constraint.render, Constraint.render_unplaced left,
      Constraint.render_unplaced right]
  | .group inner _ => by simp only [Constraint.unplaced, Constraint.render, Constraint.render_unplaced inner]

theorem FromItem.render_unplaced : ∀ item : FromItem, item.unplaced.render = item.render
  | .table name label _ => by simp only [FromItem.unplaced, FromItem.render]
  | .subquery query label _ => by simp only [FromItem.unplaced, FromItem.render, Query.render_unplaced query]
  | .join left kind natural right condition _ => by
    simp only [FromItem.unplaced, FromItem.render, FromItem.render_unplaced left,
      FromItem.render_unplaced right, JoinCondition.render_unplaced condition]

theorem JoinCondition.render_unplaced : ∀ c : JoinCondition, c.unplaced.render = c.render
  | .unstated => rfl
  | .on condition => by
    simp only [JoinCondition.unplaced, JoinCondition.render, Constraint.render_unplaced condition]
  | .sharing columns => rfl

theorem SelectQuery.render_unplaced : ∀ q : SelectQuery, q.unplaced.render = q.render
  | ⟨clause, source, filter, groupBy, having, orderBy, offset, span⟩ => by
    have hsource := FromItem.renderAll_unplaced source
    have hfilter := Constraint.renderEach_unplaced filter
    have hhaving := Constraint.renderEach_unplaced having
    cases filter <;> cases having <;>
      simp_all only [SelectQuery.unplaced, SelectQuery.render, SelectClause.render_unplaced,
        Operand.renderAll_unplaced, renderTail_unplaced, List.isEmpty_map, Constraint.eachUnplaced,
        Option.map_some, Option.map_none, Option.some.injEq]

theorem SetOperation.render_unplaced : ∀ o : SetOperation, o.unplaced.render = o.render
  | ⟨left, op, all, right, orderBy, offset, span⟩ => by
    simp only [SetOperation.unplaced, SetOperation.render, QueryBody.render_unplaced left,
      QueryBody.render_unplaced right, renderTail_unplaced]

theorem QueryBody.render_unplaced : ∀ b : QueryBody, b.unplaced.render = b.render
  | .select query => by simp only [QueryBody.unplaced, QueryBody.render, SelectQuery.render_unplaced query]
  | .set operation => by
    simp only [QueryBody.unplaced, QueryBody.render, SetOperation.render_unplaced operation]

theorem WithItem.render_unplaced : ∀ item : WithItem, item.unplaced.render = item.render
  | ⟨name, columns, query, span⟩ => by
    simp only [WithItem.unplaced, WithItem.render, Query.render_unplaced query]

/-- The printer writes no places. -/
theorem Query.render_unplaced : ∀ q : Query, q.unplaced.render = q.render
  | ⟨withItems, body, span⟩ => by
    have hwith := WithItem.renderAll_unplaced withItems
    have empty : (WithItem.allUnplaced withItems).isEmpty = withItems.isEmpty := by
      rw [WithItem.allUnplaced_eq_map, List.isEmpty_map]
    simp only [Query.unplaced, Query.render, QueryBody.render_unplaced body, hwith, empty]

theorem Constraint.renderEach_unplaced : ∀ c : Option Constraint,
    (Constraint.eachUnplaced c).map Constraint.render = c.map Constraint.render
  | none => rfl
  | some condition => by
    simp only [Constraint.eachUnplaced, Option.map_some, Constraint.render_unplaced condition]

theorem FromItem.renderAll_unplaced : ∀ items : List FromItem,
    FromItem.renderAll (FromItem.allUnplaced items) = FromItem.renderAll items
  | [] => rfl
  | item :: rest => by
    simp only [FromItem.allUnplaced, FromItem.renderAll, FromItem.render_unplaced item,
      FromItem.renderAll_unplaced rest]

theorem WithItem.renderAll_unplaced : ∀ items : List WithItem,
    WithItem.renderAll (WithItem.allUnplaced items) = WithItem.renderAll items
  | [] => rfl
  | item :: rest => by
    simp only [WithItem.allUnplaced, WithItem.renderAll, WithItem.render_unplaced item,
      WithItem.renderAll_unplaced rest]

end

/-! ### Sameness -/

/-- Two expressions that differ in places only. -/
def Operand.Same (a b : Operand) : Prop := a.unplaced = b.unplaced

namespace Operand.Same

variable {a b : Operand}

theorem eq (h : a.Same b) : a.unplaced = b.unplaced := h

theorem isNumeric (h : a.Same b) : a.isNumeric = b.isNumeric := by
  rw [← isNumeric_unplaced a, h, isNumeric_unplaced]

theorem isString (h : a.Same b) : a.isString = b.isString := by
  rw [← isString_unplaced a, h, isString_unplaced]

theorem isGeometry (h : a.Same b) : a.isGeometry = b.isGeometry := by
  rw [← isGeometry_unplaced a, h, isGeometry_unplaced]

theorem asColumn? (h : a.Same b) : a.asColumn? = b.asColumn? := by
  rw [← asColumn?_unplaced a, h, asColumn?_unplaced]

end Operand.Same

/-- Lists of expressions that differ in places only. -/
def Operand.SameAll (as bs : List Operand) : Prop := as.map Operand.unplaced = bs.map Operand.unplaced

namespace Operand.SameAll

variable {as bs : List Operand} {a : Operand}

theorem length (h : SameAll as bs) : as.length = bs.length := by
  simpa using congrArg List.length h

theorem allUnplaced (h : SameAll as bs) : Operand.allUnplaced as = Operand.allUnplaced bs := by
  rw [allUnplaced_eq_map, allUnplaced_eq_map]
  exact h

theorem of_cons {b : Operand} (h : SameAll (a :: as) (b :: bs)) : a.Same b ∧ SameAll as bs :=
  List.cons.inj h

/-- What holds of all expressions of a list, and depends on no place. -/
theorem forall_mem {f : Operand → Bool} (inv : ∀ o, f o.unplaced = f o) (h : SameAll as bs)
    (hbs : ∀ b ∈ bs, f b = true) : ∀ a ∈ as, f a = true := by
  rw [← List.all_eq_true] at hbs ⊢
  rw [← all_map_unplaced fun o _ => inv o, h, all_map_unplaced fun o _ => inv o, hbs]

theorem pointFirst (h : SameAll as bs) : as.head?.map isPointLike = bs.head?.map isPointLike := by
  cases as with
  | nil =>
    cases bs with
    | nil => rfl
    | cons b bs => cases h
  | cons a as =>
    cases bs with
    | nil => cases h
    | cons b bs =>
      have first : a.unplaced = b.unplaced := h.of_cons.1
      rw [List.head?_cons, List.head?_cons, Option.map_some, Option.map_some, ← isPointLike_unplaced a, first,
        isPointLike_unplaced]

theorem startsWithCoordSys (fn : GeometryFn) (h : SameAll as bs) :
    startsWithCoordSys fn as = startsWithCoordSys fn bs := by
  rw [← startsWithCoordSys_unplaced, h, startsWithCoordSys_unplaced]

end Operand.SameAll

end SkyQuery
