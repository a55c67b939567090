import SkyQuery.Proofs.Check.Complete
import SkyQuery.Proofs.RoundTrip.Texts

/-!
# Roots of what is read

A query or clause is a row of trees, its roots. `Fragment.operands` and `Fragment.constraints` list the
operands and the conditions of these trees in the order of `Part.all`, each part before what it is made of,
and all roots of what a text is read as are well formed (`Entry.read_wellFormed`).
-/

namespace SkyQuery

open Grammar Parse

/-- The parts that belong to no other. -/
def Fragment.roots : Fragment → List Part
  | .query q => [.query q]
  | .select clause => (clause.items.filterMap SelectItem.operand?).map .operand
  | .source items => items.map .fromItem
  | .filter condition => [.constraint condition]
  | .orderBy items => items.map fun item => .operand item.expr
  | .groupBy items => items.map .operand

def Part.constraint? : Part → Option Constraint
  | .constraint c => some c
  | _ => none

/-! ### Lists of a walk -/

/-- A set operation is visited after its left side. -/
theorem Part.walk_set_eq (o : SetOperation) :
    (set o).walk = o.left.part.walk ++ set o :: (o.right.part.walk ++ (tailParts o.orderBy o.offset).flatMap walk) := by
  obtain ⟨left, op, all, right, orderBy, offset, span⟩ := o
  rw [walk, SetOperation.nodes, partsOf_append, partsOf_cons, partsOf_append, walk_part, walk_part, walk_tail]
  rfl

/-- Operands and conditions are found by a walk in the order of `Part.all`. -/
theorem Part.walk_filterMap {α : Type} {pick : Part → Option α}
    (only : ∀ p, p.operand? = none → p.constraint? = none → pick p = none) (p : Part) :
    p.walk.filterMap pick = p.all.filterMap pick := by
  induction p using (wellFounded_of_shrinks Part.sizeOf_lt_of_mem_children).induction with
  | h p ih =>
    have below : p.children.flatMap (fun c => c.walk.filterMap pick) =
        p.children.flatMap fun c => c.all.filterMap pick := List.flatMap_congr ih
    have step : p.walk.filterMap pick = [p].filterMap pick ++ (p.children.flatMap walk).filterMap pick := by
      cases p with
      | operand o => rw [walk_operand, List.filterMap_append]
      | constraint c => rw [walk_constraint, List.filterMap_append]
      | set o =>
        rw [walk_set_eq]
        simp [children, only (.set o) rfl rfl]
      | fromItem item => simp [walk_fromItem, only (.fromItem item) rfl rfl]
      | offset o => simp [walk, children]
      | select q => simp [walk_select, only (.select q) rfl rfl]
      | withItem item => simp [walk, children, only (.withItem item) rfl rfl]
      | query q => simp [walk_query, only (.query q) rfl rfl]
    rw [step, List.filterMap_flatMap, below, ← List.filterMap_flatMap, ← List.filterMap_append, all, descent_eq]
    rfl

/-! ### Lists of a fragment -/

theorem Fragment.nodes_parts (f : Fragment) : partsOf f.nodes = f.roots.flatMap Part.walk := by
  cases f with
  | query q => simp [nodes, roots, Part.walk]
  | select clause =>
    obtain ⟨distinct, top, items, place⟩ := clause
    simp only [nodes, roots, SelectClause.nodes]
    induction items with
    | nil => rfl
    | cons item rest ih =>
      rw [List.flatMap_cons, partsOf_append, ih]
      cases item <;> simp [SelectItem.nodes, SelectItem.operand?, List.filterMap_cons, Part.walk, Node.parts]
  | source items =>
    rw [nodes, roots, FromItem.allNodes_eq_flatMap, partsOf_flatMap, List.flatMap_map]
    rfl
  | filter condition => simp [nodes, roots, Part.walk]
  | orderBy items =>
    rw [nodes, roots, partsOf, List.flatMap_map, List.flatMap_map]
    rfl
  | groupBy items => exact (Part.walk_operands items).symm

/-- The operands are those of the roots, each before those that it is made of. -/
theorem Fragment.operands_eq (f : Fragment) : f.operands = (f.roots.flatMap Part.all).filterMap Part.operand? := by
  have walked : f.operands = (partsOf f.nodes).filterMap Part.operand? := by
    rw [operands, partsOf, List.filterMap_flatMap]
    exact List.flatMap_congr fun n _ => n.operands_eq
  rw [walked, nodes_parts, List.filterMap_flatMap, List.filterMap_flatMap]
  exact List.flatMap_congr fun p _ => Part.walk_filterMap (fun _ noOperand _ => noOperand) p

theorem Fragment.constraints_eq (f : Fragment) :
    f.constraints = (f.roots.flatMap Part.all).filterMap Part.constraint? := by
  have walked : f.constraints = (partsOf f.nodes).filterMap Part.constraint? := by
    rw [constraints, partsOf, List.filterMap_flatMap, List.filterMap_eq_flatMap_toList]
    refine List.flatMap_congr fun n _ => ?_
    cases n with
    | operand o => simp [Node.parts, Part.constraint?]
    | _ => rfl
  rw [walked, nodes_parts, List.filterMap_flatMap, List.filterMap_flatMap]
  exact List.flatMap_congr fun p _ => Part.walk_filterMap (fun _ _ noCondition => noCondition) p

theorem Fragment.mem_operands_iff {f : Fragment} {o : Operand} :
    o ∈ f.operands ↔ ∃ root ∈ f.roots, .operand o ∈ root.all := by
  have shown (p : Part) : p.operand? = some o ↔ p = .operand o := by cases p <;> simp [Part.operand?]
  simp only [operands_eq, List.mem_filterMap, List.mem_flatMap, shown, exists_eq_right]

/-! ### What is read -/

section Read

variable {v : Version} {text : String} {entry : Entry} {f : Fragment}

/-- The trees of whatever is read are well formed. -/
theorem Entry.read_wellFormed (h : entry.read v text = .ok f) : ∀ root ∈ f.roots, root.WellFormed v := by
  have clause {α : Type} {p : Parse α} {wrap : α → Fragment} (h : (readWhole p v text).map wrap = .ok f)
      (hp : Yields v p fun a => ∀ root ∈ (wrap a).roots, root.WellFormed v) : ∀ root ∈ f.roots, root.WellFormed v := by
    obtain ⟨a, read, rfl⟩ := ok_of_map h
    exact readWhole_ok hp read
  cases entry with
  | query => exact clause h (query_yields.mono fun q hq => List.forall_mem_singleton.2 hq)
  | select =>
    refine clause h (selectClause_yields.mono fun c hc => List.forall_mem_map.2 fun o ho => ?_)
    obtain ⟨item, member, found⟩ := List.mem_filterMap.1 ho
    have formed := hc.2.2 item member
    cases item with
    | expr operand label =>
      cases found
      exact formed.1
    | _ => cases found
  | source =>
    exact clause h ((fromClause_yields subquery_yields).mono fun items hitems => List.forall_mem_map.2 hitems.2)
  | filter => exact clause h (whereClause_yields.mono fun c hc => List.forall_mem_singleton.2 hc)
  | orderBy => exact clause h (orderByClause_yields.mono fun items hitems => List.forall_mem_map.2 fun o ho => (hitems.2 o ho).1)
  | groupBy => exact clause h (groupByClause_yields.mono fun os hos => List.forall_mem_map.2 fun o ho => (hos.2 o ho).1)

end Read

end SkyQuery
