import SkyQuery.Proofs.Tree.Parts
import SkyQuery.Sql.Dialect

/-!
# What a dialect can express

A tree has a text in a dialect exactly if nothing in it, at any depth, is something that the dialect
lacks (`Sql.Dialect.Exact.succeeds_iff`). All that has to be known of a dialect is when it has a text
for a call of a geometry function and for a comparison, given the texts of what is in them.
-/

namespace SkyQuery

/-- The direct parts of an expression except for the coordinate system of a shape. -/
def Operand.contents : Operand → List Operand
  | .geometry _ _ args _ => args
  | o => o.children

/-- What a part is directly made of, except for the coordinate systems of shapes. -/
def Part.contents : Part → List Part
  | .operand o => o.contents.map .operand
  | p => p.children

theorem Operand.contents_subset (o : Operand) : o.contents ⊆ o.children := by
  cases o with
  | geometry fn sys args span => exact List.subset_append_right _ _
  | _ => exact List.Subset.refl _

theorem Part.contents_subset (p : Part) : p.contents ⊆ p.children := by
  cases p with
  | operand o => exact List.map_subset _ o.contents_subset
  | _ => exact List.Subset.refl _

theorem Part.sizeOf_lt_of_mem_contents (p : Part) : ∀ c ∈ p.contents, sizeOf c < sizeOf p :=
  fun c member => p.sizeOf_lt_of_mem_children c (p.contents_subset member)

/-- A part and all parts below it, except for what is in the coordinate systems of shapes. -/
def Part.allContents (p : Part) : List Part :=
  descent Part.contents (wellFounded_of_shrinks Part.sizeOf_lt_of_mem_contents) p

namespace Sql

/-! ### Texts that there are -/

def Succeeds {α : Type} (x : Except Inexpressible α) : Prop := ∃ a, x = .ok a

section Succeeds

variable {α β : Type} {x : Except Inexpressible α} {f : α → Except Inexpressible β}

@[simp] theorem succeeds_ok (a : α) : Succeeds (.ok a) := ⟨a, rfl⟩

@[simp] theorem succeeds_pure (a : α) : Succeeds (pure a) := ⟨a, rfl⟩

@[simp] theorem not_succeeds_error (e : Inexpressible) : ¬ Succeeds (.error e : Except Inexpressible α) := by
  rintro ⟨a, h⟩
  cases h

@[simp] theorem not_succeeds_unsupported (what : String) : ¬ Succeeds (unsupported what) := not_succeeds_error _

theorem not_succeeds_iff : ¬ Succeeds x ↔ ∃ e, x = .error e := by cases x <;> simp

@[simp] theorem exists_ok : (∃ a, x = .ok a) ↔ Succeeds x := Iff.rfl

@[simp] theorem succeeds_bind : Succeeds (x >>= f) ↔ ∃ a, x = .ok a ∧ Succeeds (f a) := by
  cases x <;> simp [Bind.bind, Except.bind]

@[simp] theorem succeeds_map {f : α → β} : Succeeds (f <$> x) ↔ Succeeds x := by
  cases x <;> simp [Functor.map, Except.map]

@[simp] theorem succeeds_sequence {l : List SqlText} : Succeeds (Dialect.sequence l) ↔ ∀ t ∈ l, Succeeds t := by
  induction l with
  | nil => simp [Dialect.sequence]
  | cons t rest ih => simp [Dialect.sequence, ih]

@[simp] theorem succeeds_commas {l : List SqlText} : Succeeds (Dialect.commas l) ↔ ∀ t ∈ l, Succeeds t := by
  cases written : Dialect.sequence l <;> simp [Dialect.commas, Except.map, written, ← succeeds_sequence]

end Succeeds

/-- What a dialect lacks: units, random numbers from a seed, and the calls of geometry functions for
which it has no form. -/
def Lacks (noForm : GeometryFn → List Operand → Prop) : Part → Prop
  | .operand (.inUnit ..) => True
  | .operand (.math fn args _) => fn = .rand ∧ args ≠ []
  | .operand (.geometry fn _ args _) => noForm fn args
  | _ => False

namespace Dialect

variable {d : Dialect} {noForm : GeometryFn → List Operand → Prop} {fits : Part → Prop}

/-- The text of a part. -/
def part (d : Dialect) : Part → SqlText
  | .operand o => d.operand o
  | .constraint c => d.constraint c
  | .fromItem item => d.fromItem item
  | .offset _ => .ok ""
  | .select q => d.selectQuery q
  | .set o => d.setOperation o
  | .withItem item => d.withItem item
  | .query q => d.query q

@[simp] theorem part_operand (o : Operand) : d.part (.operand o) = d.operand o := rfl

@[simp] theorem part_constraint (c : Constraint) : d.part (.constraint c) = d.constraint c := rfl

@[simp] theorem part_fromItem (item : FromItem) : d.part (.fromItem item) = d.fromItem item := rfl

@[simp] theorem part_offset (o : Offset) : d.part (.offset o) = .ok "" := rfl

@[simp] theorem part_select (q : SelectQuery) : d.part (.select q) = d.selectQuery q := rfl

@[simp] theorem part_set (o : SetOperation) : d.part (.set o) = d.setOperation o := rfl

@[simp] theorem part_withItem (item : WithItem) : d.part (.withItem item) = d.withItem item := rfl

@[simp] theorem part_query (q : Query) : d.part (.query q) = d.query q := rfl

/-- Of the parts that `fits` tells, the dialect has a text for exactly the geometry calls that have a
form and whose arguments have texts, and for exactly the comparisons of expressions with texts. -/
structure Exact (d : Dialect) (noForm : GeometryFn → List Operand → Prop) (fits : Part → Prop) : Prop where
  contents : ∀ {p}, fits p → ∀ c ∈ p.contents, fits c
  geometry : ∀ {fn sys args span}, fits (.operand (.geometry fn sys args span)) →
    (Succeeds (d.geometry fn sys args (args.map d.operand)) ↔ ¬ noForm fn args ∧ ∀ a ∈ args, Succeeds (d.operand a))
  comparison : ∀ {left op right span}, fits (.constraint (.comparison left op right span)) →
    (Succeeds (d.comparison d.operand left op right) ↔ Succeeds (d.operand left) ∧ Succeeds (d.operand right))

theorem operands_eq (l : List Operand) : d.operands l = l.map d.operand := by
  induction l with
  | nil => rfl
  | cons o rest ih => rw [operands, ih, List.map_cons]

theorem succeeds_plainComparison {operand : Operand → SqlText} {left right : Operand} {op : ComparisonOp} :
    Succeeds (plainComparison operand left op right) ↔ Succeeds (operand left) ∧ Succeeds (operand right) := by
  simp [plainComparison]

theorem isEmpty_of_sequence {l : List SqlText} {texts : List String} (written : sequence l = .ok texts) :
    texts.isEmpty = l.isEmpty := by
  cases l with
  | nil =>
    cases written
    rfl
  | cons t rest =>
    cases t with
    | error e => cases written
    | ok first =>
      cases others : sequence rest with
      | error e => simp [sequence, others, Bind.bind, Except.bind] at written
      | ok more =>
        simp only [sequence, others, Bind.bind, Except.bind, Pure.pure, Except.pure, Except.ok.injEq] at written
        rw [← written]
        rfl

theorem succeeds_math {fn : MathFn} {args : List SqlText} :
    Succeeds (math fn args) ↔ (∀ t ∈ args, Succeeds t) ∧ (fn = .rand → args = []) := by
  rw [math, succeeds_bind, ← succeeds_sequence]
  cases written : sequence args with
  | error e => simp
  | ok texts =>
    cases fn with
    | rand =>
      have empty := isEmpty_of_sequence written
      cases texts <;> cases args <;> simp_all
    | _ => simp

theorem Exact.operand (h : d.Exact noForm fits) {o : Operand} (fit : fits (.operand o)) :
    Succeeds (d.operand o) ↔ ¬ Lacks noForm (.operand o) ∧ ∀ c ∈ o.contents, Succeeds (d.operand c) := by
  cases o with
  | geometry fn sys args span =>
    rw [Dialect.operand, operands_eq, h.geometry fit]
    rfl
  | math fn args span =>
    simp [Dialect.operand, operands_eq, succeeds_math, Operand.contents, Operand.children, Lacks, and_comm]
  | aggregate fn distinct arg span =>
    cases arg <;> simp [Dialect.operand, Operand.contents, Operand.children, Lacks]
  | _ => simp [Dialect.operand, operands_eq, Operand.contents, Operand.children, Lacks]

/-! ### Clauses -/

theorem succeeds_selectItem {item : SelectItem} :
    Succeeds (d.selectItem item) ↔ ∀ o ∈ item.operand?, Succeeds (d.operand o) := by
  cases item <;> simp [selectItem, SelectItem.operand?]

theorem succeeds_selectItems {l : List SelectItem} :
    (∀ item ∈ l, Succeeds (d.selectItem item)) ↔
      ∀ p ∈ (l.filterMap SelectItem.operand?).map Part.operand, Succeeds (d.part p) := by
  simp only [succeeds_selectItem, List.forall_mem_map, part_operand]
  constructor
  · intro written o member
    obtain ⟨item, member, found⟩ := List.mem_filterMap.1 member
    exact written item member o found
  · exact fun written item member o found => written o (List.mem_filterMap.2 ⟨item, member, found⟩)

theorem succeeds_orderBy {l : List OrderItem} {offset : Option Offset} :
    Succeeds (d.orderBy l) ↔ ∀ p ∈ tailParts l offset, Succeeds (d.part p) := by
  unfold orderBy
  cases l <;> simp [orderItem, tailParts, or_imp, forall_and]

theorem succeeds_groupBy {l : List Operand} : Succeeds (d.groupBy l) ↔ ∀ o ∈ l, Succeeds (d.operand o) := by
  unfold groupBy
  cases l <;> simp [operands_eq]

theorem fromItems_eq (l : List FromItem) : d.fromItems l = l.map d.fromItem := by
  induction l with
  | nil => rfl
  | cons item rest ih => rw [fromItems, ih, List.map_cons]

theorem withAll_eq (l : List WithItem) : d.withAll l = l.map d.withItem := by
  induction l with
  | nil => rfl
  | cons item rest ih => rw [withAll, ih, List.map_cons]

theorem succeeds_joinCondition {condition : JoinCondition} :
    Succeeds (d.joinCondition condition) ↔ ∀ c ∈ condition.constraint?, Succeeds (d.constraint c) := by
  cases condition <;> simp [joinCondition, JoinCondition.constraint?]

theorem body_eq (b : QueryBody) : d.body b = d.part b.part := by cases b <;> simp [body, part, QueryBody.part]

/-! ### Parts -/

theorem Exact.constraint (h : d.Exact noForm fits) {c : Constraint} (fit : fits (.constraint c)) :
    Succeeds (d.constraint c) ↔ ∀ p ∈ (Part.constraint c).contents, Succeeds (d.part p) := by
  cases c with
  | comparison left op right span =>
    rw [Dialect.constraint, h.comparison fit]
    simp [Part.contents, Part.children, Constraint.operands, Constraint.children, Constraint.subqueries]
  | _ =>
    simp [Dialect.constraint, operands_eq, Part.contents, Part.children, Constraint.operands, Constraint.children,
      Constraint.subqueries, and_comm, or_imp, forall_and]

theorem succeeds_fromItem {item : FromItem} :
    Succeeds (d.fromItem item) ↔ ∀ p ∈ (Part.fromItem item).contents, Succeeds (d.part p) := by
  cases item <;> simp [fromItem, Part.contents, Part.children, succeeds_joinCondition, or_imp, forall_and]

theorem succeeds_selectQuery {q : SelectQuery} :
    Succeeds (d.selectQuery q) ↔ ∀ p ∈ (Part.select q).contents, Succeeds (d.part p) := by
  obtain ⟨clause, source, filter, groupBy, having, orderBy, offset, span⟩ := q
  simp only [Part.contents, Part.children, List.forall_mem_append, ← succeeds_selectItems, ← succeeds_orderBy]
  cases filter <;> cases having <;> simp [selectQuery, succeeds_groupBy, fromItems_eq, and_assoc]

theorem succeeds_setOperation {o : SetOperation} :
    Succeeds (d.setOperation o) ↔ ∀ p ∈ (Part.set o).contents, Succeeds (d.part p) := by
  obtain ⟨left, op, all, right, orderBy, offset, span⟩ := o
  simp only [Part.contents, Part.children, List.forall_mem_append, ← succeeds_orderBy]
  simp [setOperation, body_eq, and_assoc]

theorem succeeds_withItem {item : WithItem} :
    Succeeds (d.withItem item) ↔ ∀ p ∈ (Part.withItem item).contents, Succeeds (d.part p) := by
  obtain ⟨name, columns, query, span⟩ := item
  simp [withItem, Part.contents, Part.children]

theorem succeeds_query {q : Query} : Succeeds (d.query q) ↔ ∀ p ∈ (Part.query q).contents, Succeeds (d.part p) := by
  obtain ⟨items, body, span⟩ := q
  simp [query, Part.contents, Part.children, withAll_eq, body_eq, or_imp, forall_and]

/-- A part has a text exactly if what it is made of has, unless the dialect lacks it. -/
theorem Exact.part (h : d.Exact noForm fits) {p : Part} (fit : fits p) :
    Succeeds (d.part p) ↔ ¬ Lacks noForm p ∧ ∀ c ∈ p.contents, Succeeds (d.part c) := by
  cases p with
  | operand o => simpa [Part.contents] using h.operand fit
  | constraint c => simpa [Lacks] using h.constraint fit
  | fromItem item => simpa [Lacks] using succeeds_fromItem
  | offset o => simp [Lacks, Part.contents, Part.children]
  | select q => simpa [Lacks] using succeeds_selectQuery
  | set o => simpa [Lacks] using succeeds_setOperation
  | withItem item => simpa [Lacks] using succeeds_withItem
  | query q => simpa [Lacks] using succeeds_query

/-- A tree has a text exactly if the dialect lacks nothing in it. -/
theorem Exact.succeeds_iff (h : d.Exact noForm fits) {p : Part} (fit : fits p) :
    Succeeds (d.part p) ↔ ∀ c ∈ p.allContents, ¬ Lacks noForm c := by
  have below := wellFounded_of_shrinks Part.sizeOf_lt_of_mem_contents
  induction p using below.induction with
  | h p ih =>
    rw [h.part fit, Part.allContents, forall_mem_descent]
    exact and_congr_right' (forall₂_congr fun c member => ih c member (h.contents fit c member))

/-- A query cannot be written exactly if the dialect lacks something in it. -/
theorem Exact.fails_iff (h : d.Exact noForm fits) {q : Query} (fit : fits (.query q)) :
    (∃ e, d.query q = .error e) ↔ ∃ c ∈ (Part.query q).allContents, Lacks noForm c := by
  rw [← not_succeeds_iff, ← part_query, h.succeeds_iff fit]
  simp

end Dialect

end Sql

end SkyQuery
