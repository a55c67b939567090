import SkyQuery.Proofs.Tree.Parts
import SkyQuery.Tree.Needs

/-!
# Walks reach every part

The nodes that `Fragment.nodes` lists, with the operands inside them, are exactly the parts of a tree
that can be at fault, each once. Queries, their sources and their bodies are passed through.
-/

namespace SkyQuery

/-! ### Walks as sequences of parts -/

theorem Operand.allNodes_eq_flatMap (os : List Operand) : allNodes os = os.flatMap nodes := by
  induction os with
  | nil => rfl
  | cons o rest ih => rw [allNodes, ih, List.flatMap_cons]

theorem Operand.nodes_eq (o : Operand) : o.nodes = o :: o.children.flatMap nodes := by
  cases o
  case aggregate fn distinct arg span => cases arg <;> simp [nodes, children]
  case geometry fn sys args span => cases sys <;> simp [nodes, children, allNodes_eq_flatMap]
  all_goals simp [nodes, children, allNodes_eq_flatMap]

theorem FromItem.allNodes_eq_flatMap (items : List FromItem) : allNodes items = items.flatMap nodes := by
  induction items with
  | nil => rfl
  | cons item rest ih => rw [allNodes, ih, List.flatMap_cons]

theorem WithItem.allNodes_eq_flatMap (items : List WithItem) :
    allNodes items = items.flatMap fun item => .withItem item :: item.query.nodes := by
  induction items with
  | nil => rfl
  | cons item rest ih =>
    obtain ⟨name, columns, query, span⟩ := item
    rw [allNodes, ih, List.flatMap_cons, List.cons_append]

/-- The parts that a node of a walk stands for. -/
def Node.parts : Node → List Part
  | .operand o => o.nodes.map .operand
  | .constraint c => [.constraint c]
  | .withItem item => [.withItem item]
  | .setOperation o => [.set o]
  | .offset o => [.offset o]

/-- The parts that a walk visits, in its order. -/
def partsOf (nodes : List Node) : List Part := nodes.flatMap Node.parts

@[simp] theorem partsOf_nil : partsOf [] = [] := rfl

@[simp] theorem partsOf_cons (n : Node) (nodes : List Node) : partsOf (n :: nodes) = n.parts ++ partsOf nodes := rfl

@[simp] theorem partsOf_append (a b : List Node) : partsOf (a ++ b) = partsOf a ++ partsOf b :=
  List.flatMap_append

theorem partsOf_flatMap {α : Type} (as : List α) (f : α → List Node) :
    partsOf (as.flatMap f) = as.flatMap fun a => partsOf (f a) := List.flatMap_assoc

namespace Part

/-- The parts that a walk from a part visits, in its order. -/
def walk : Part → List Part
  | .operand o => o.nodes.map .operand
  | .constraint c => partsOf c.nodes
  | .fromItem item => partsOf item.nodes
  | .offset o => [.offset o]
  | .select q => partsOf q.nodes
  | .set o => partsOf o.nodes
  | .withItem item => .withItem item :: partsOf item.query.nodes
  | .query q => partsOf q.nodes

/-- The part itself, if a walk visits it. -/
def visit : Part → List Part
  | .fromItem _ | .select _ | .query _ => []
  | p => [p]

theorem walk_part (b : QueryBody) : b.part.walk = partsOf b.nodes := by cases b <;> rfl

theorem walk_operands (os : List Operand) :
    (os.map Part.operand).flatMap walk = partsOf (os.map .operand) := by
  rw [List.flatMap_map, partsOf, List.flatMap_map]
  rfl

theorem walk_tail (orderBy : List OrderItem) (offset : Option Offset) :
    (tailParts orderBy offset).flatMap walk = partsOf (tailNodes orderBy offset) := by
  have order : (orderBy.map fun item => Part.operand item.expr).flatMap walk =
      partsOf (orderBy.map fun item => .operand item.expr) := by
    rw [List.flatMap_map, partsOf, List.flatMap_map]
    rfl
  rw [tailParts, tailNodes, List.flatMap_append, partsOf_append, order]
  cases offset <;> rfl

theorem walk_operand (o : Operand) : (operand o).walk = [operand o] ++ (operand o).children.flatMap walk := by
  rw [walk, Operand.nodes_eq, children, List.map_cons, List.map_flatMap, List.flatMap_map]
  rfl

theorem walk_constraint (c : Constraint) :
    (constraint c).walk = [constraint c] ++ (constraint c).children.flatMap walk := by
  cases c
  case inValues value values negated span =>
    have list := walk_operands values
    simp [walk, children, Constraint.operands, Constraint.children, Constraint.subqueries, Constraint.nodes,
      Node.parts, list]
  all_goals
    simp [walk, children, Constraint.operands, Constraint.children, Constraint.subqueries, Constraint.nodes,
      Node.parts]

theorem walk_fromItem (item : FromItem) : (fromItem item).walk = (fromItem item).children.flatMap walk := by
  cases item with
  | table name label span => rfl
  | subquery q label span => simp [walk, children, FromItem.nodes]
  | join left kind natural right condition span =>
    cases condition <;>
      simp [walk, children, FromItem.nodes, JoinCondition.nodes, JoinCondition.constraint?]

theorem walk_select (q : SelectQuery) : (select q).walk = (select q).children.flatMap walk := by
  obtain ⟨⟨distinct, top, items, place⟩, source, filter, groupBy, having, orderBy, offset, span⟩ := q
  have columns : partsOf (items.flatMap SelectItem.nodes) =
      ((items.filterMap SelectItem.operand?).map Part.operand).flatMap walk := by
    induction items with
    | nil => rfl
    | cons item rest ih =>
      rw [List.flatMap_cons, partsOf_append, ih]
      cases item <;> simp [SelectItem.nodes, SelectItem.operand?, List.filterMap_cons, walk, Node.parts]
  have sources : partsOf (FromItem.allNodes source) = (source.map Part.fromItem).flatMap walk := by
    rw [FromItem.allNodes_eq_flatMap, partsOf_flatMap, List.flatMap_map]
    rfl
  have grouped := walk_operands groupBy
  have tail := walk_tail orderBy offset
  cases filter <;> cases having <;>
    simp [walk, SelectQuery.nodes, SelectClause.nodes, children, columns, sources, grouped, tail]

/-- A set operation is visited between its sides. -/
theorem walk_set (o : SetOperation) : ((set o).walk).Perm ([set o] ++ (set o).children.flatMap walk) := by
  have parts : (set o).children.flatMap walk =
      partsOf o.left.nodes ++ (partsOf o.right.nodes ++ partsOf (tailNodes o.orderBy o.offset)) := by
    rw [children, List.flatMap_append, walk_tail, List.flatMap_cons, List.flatMap_singleton, walk_part, walk_part,
      List.append_assoc]
  have visited : (set o).walk =
      partsOf o.left.nodes ++ set o :: (partsOf o.right.nodes ++ partsOf (tailNodes o.orderBy o.offset)) := by
    obtain ⟨left, op, all, right, orderBy, offset, span⟩ := o
    rw [walk, SetOperation.nodes, partsOf_append, partsOf_cons, partsOf_append]
    rfl
  rw [parts, visited]
  exact List.perm_middle

theorem walk_query (q : Query) : (query q).walk = (query q).children.flatMap walk := by
  obtain ⟨items, body, span⟩ := q
  have named : partsOf (WithItem.allNodes items) = (items.map Part.withItem).flatMap walk := by
    rw [WithItem.allNodes_eq_flatMap, partsOf_flatMap, List.flatMap_map]
    rfl
  rw [walk, Query.nodes, children, partsOf_append, named, List.flatMap_append, List.flatMap_singleton, walk_part]

theorem walk_step (p : Part) : p.walk.Perm (p.visit ++ p.children.flatMap walk) := by
  cases p with
  | operand o => exact .of_eq (walk_operand o)
  | constraint c => exact .of_eq (walk_constraint c)
  | fromItem item => exact .of_eq (walk_fromItem item)
  | offset o => rfl
  | select q => exact .of_eq (walk_select q)
  | set o => exact walk_set o
  | withItem item => simp [walk, visit, children]
  | query q => exact .of_eq (walk_query q)

/-- A walk visits each part that can be at fault, at any depth, exactly once. -/
theorem walk_perm_all (p : Part) : p.walk.Perm (p.all.flatMap visit) := walk_perm visit walk walk_step p

end Part

end SkyQuery
