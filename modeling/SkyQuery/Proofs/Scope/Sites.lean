import SkyQuery.Proofs.Scope.Rules
import SkyQuery.Proofs.Tree.Parts

/-!
# Sites of references

What queries expose to those around them, and all references of a query with what can be seen from
each. A `Site` is a query at any depth with the named queries and the scopes that it can see.
-/

namespace SkyQuery

/-! ### What queries expose -/

section Exposure

variable (tables : List Table)

mutual

/-- The names of the result columns of a query that can read from the `named` ones. -/
def Query.outputs (named : List Relation) : Query → List Identifier
  | { withItems, body, .. } => body.outputs (WithItem.visible named withItems)

/-- The named queries that can be seen after some items. Each item is visible to those after it, with
the columns that it declares or else those of its query. -/
def WithItem.visible (named : List Relation) : List WithItem → List Relation
  | [] => named
  | { name, columns, query, .. } :: rest =>
    WithItem.visible (⟨{ table := name }, if columns.isEmpty then query.outputs named else columns⟩ :: named) rest

def QueryBody.outputs (named : List Relation) : QueryBody → List Identifier
  | .select query => query.outputs named
  | .set { left, .. } => left.outputs named

def SelectQuery.outputs (named : List Relation) : SelectQuery → List Identifier
  | { clause, source, .. } => clause.items.flatMap (SelectItem.resultColumns (FromItem.scope named source))

/-- The relations that a `FROM` clause opens; a table that stands for nothing opens none. -/
def FromItem.scope (named : List Relation) : List FromItem → Scope
  | [] => []
  | item :: rest => item.exposed named ++ FromItem.scope named rest

def FromItem.exposed (named : List Relation) : FromItem → Scope
  | .table name label _ => (designated? tables named name).toList.map fun r => Scope.aliased r label
  | .subquery query label _ => [⟨{ table := label }, query.outputs named⟩]
  | .join left _ _ right _ _ => left.exposed named ++ right.exposed named

end

end Exposure

/-! ### Parts of a query -/

def FromItem.query? : FromItem → Option Query
  | .subquery query _ _ => some query
  | .table .. | .join .. => none

/-- The join conditions of an item. -/
def FromItem.conditions : FromItem → List Constraint
  | .join left _ _ right condition _ => left.conditions ++ right.conditions ++ condition.constraint?.toList
  | .table .. | .subquery .. => []

/-- The queries of a condition that are inside no other. -/
def Constraint.queries : Constraint → List Query
  | .inQuery _ query _ _ | .nonEmpty query _ => [query]
  | .not inner _ | .group inner _ => inner.queries
  | .and left right _ | .or left right _ => left.queries ++ right.queries
  | .comparison .. | .between .. | .inValues .. | .isNull .. => []

/-- The conditions that see what a query reads from: those of its joins, `WHERE` and `HAVING`. -/
def SelectQuery.conditions (q : SelectQuery) : List Constraint :=
  q.source.flatMap FromItem.conditions ++ q.filter.toList ++ q.having.toList

/-- The tables and subqueries that a query reads from. -/
def SelectQuery.leaves (q : SelectQuery) : List FromItem := q.source.flatMap FromItem.leaves

def QueryBody.selects : QueryBody → List SelectQuery
  | .select query => [query]
  | .set { left, right, .. } => left.selects ++ right.selects

def QueryBody.operations : QueryBody → List SetOperation
  | .select _ => []
  | .set { left, op, all, right, orderBy, offset, span } =>
    { left, op, all, right, orderBy, offset, span } :: (left.operations ++ right.operations)

/-! ### References -/

namespace Occurrence

def table? (c : Context) : FromItem → Option Occurrence
  | .table name _ span => some ⟨.table name, span, c⟩
  | .subquery .. | .join .. => none

def allOf? (c : Context) : SelectItem → Option Occurrence
  | .allOf table span => some ⟨.allOf table, span, c⟩
  | .all _ | .expr _ _ => none

def columns (c : Context) (operands : List Operand) : List Occurrence :=
  (Operand.allNodes operands).filterMap fun o => o.asColumn?.map fun ref => ⟨.column ref, o.span, c⟩

end Occurrence

variable (tables : List Table) (named : List Relation) (outer : List Scope)

/-- What the clauses of a query see: what it reads from, and then what is around it. -/
def SelectQuery.inner (q : SelectQuery) : Context where
  named
  scopes := FromItem.scope tables named q.source :: outer

/-- The references of a query, those of its subqueries left out. Only grouping and order can name
the result columns. -/
def SelectQuery.occurrences (q : SelectQuery) : List Occurrence :=
  let inner := q.inner tables named outer
  q.leaves.filterMap (Occurrence.table? inner) ++
    (q.source.flatMap FromItem.sharedColumns).map (fun column => ⟨.shared column, none, inner⟩) ++
    q.clause.items.filterMap (Occurrence.allOf? inner) ++
    Occurrence.columns inner
      (q.conditions.flatMap Constraint.ownOperands ++ q.clause.items.flatMap SelectItem.ownOperands) ++
    Occurrence.columns { inner with results := q.outputs tables named } (q.groupBy ++ q.orderBy.map OrderItem.expr)

/-- The order of a set operation sees the result columns only. -/
def SetOperation.occurrences (o : SetOperation) : List Occurrence :=
  Occurrence.columns ⟨named, [], o.left.outputs tables named⟩ (o.orderBy.map OrderItem.expr)

/-! ### Sites -/

/-- A query with the named queries and the scopes that it sees. -/
structure Site where
  named : List Relation
  outer : List Scope
  query : Query

/-- The queries of some items, each of which sees those before it. -/
def WithItem.sites (named : List Relation) : List WithItem → List Site
  | [] => []
  | { name, columns, query, .. } :: rest =>
    ⟨named, outer, query⟩ ::
      WithItem.sites (⟨{ table := name }, if columns.isEmpty then query.outputs tables named else columns⟩ :: named) rest

/-- The subqueries of a query: those in `FROM` do not see what stands beside them, those of conditions
do. -/
def SelectQuery.sites (q : SelectQuery) : List Site :=
  (q.leaves.filterMap FromItem.query?).map (fun query => ⟨named, outer, query⟩) ++
    (q.conditions.flatMap Constraint.queries).map fun query =>
      ⟨named, (q.inner tables named outer).scopes, query⟩

namespace Site

/-- The named queries that the body of a query sees. -/
def visible (s : Site) : List Relation := WithItem.visible tables s.named s.query.withItems

def occurrences (s : Site) : List Occurrence :=
  s.query.body.selects.flatMap (SelectQuery.occurrences tables (s.visible tables) s.outer) ++
    s.query.body.operations.flatMap (SetOperation.occurrences tables (s.visible tables))

/-- The queries directly inside a query. -/
def children (s : Site) : List Site :=
  WithItem.sites tables s.outer s.named s.query.withItems ++
    s.query.body.selects.flatMap (SelectQuery.sites tables (s.visible tables) s.outer)

end Site

/-! ### Sites are below each other -/

theorem FromItem.sizeOf_le_of_mem_leaves {leaf : FromItem} : (item : FromItem) → leaf ∈ item.leaves →
    sizeOf leaf ≤ sizeOf item
  | .table .., h => by
    obtain rfl := List.mem_singleton.1 h
    exact Nat.le_refl _
  | .subquery .., h => by
    obtain rfl := List.mem_singleton.1 h
    exact Nat.le_refl _
  | .join left kind natural right condition span, h => by
    rw [leaves] at h
    rcases List.mem_append.1 h with h | h
    · have := sizeOf_le_of_mem_leaves left h
      simp
      omega
    · have := sizeOf_le_of_mem_leaves right h
      simp
      omega

theorem FromItem.sizeOf_lt_of_query? {item : FromItem} {q : Query} (h : item.query? = some q) :
    sizeOf q < sizeOf item := by
  cases item with
  | subquery query label span =>
    cases h
    simp
    omega
  | _ => cases h

theorem FromItem.sizeOf_lt_of_mem_conditions {c : Constraint} : (item : FromItem) → c ∈ item.conditions →
    sizeOf c < sizeOf item
  | .table .., h => by cases h
  | .subquery .., h => by cases h
  | .join left kind natural right condition span, h => by
    rw [conditions, List.mem_append, List.mem_append] at h
    rcases h with (h | h) | h
    · have := sizeOf_lt_of_mem_conditions left h
      simp
      omega
    · have := sizeOf_lt_of_mem_conditions right h
      simp
      omega
    · cases condition with
      | on condition =>
        obtain rfl := List.mem_singleton.1 h
        simp
        omega
      | _ => cases h

theorem Constraint.sizeOf_lt_of_mem_queries {q : Query} : (c : Constraint) → q ∈ c.queries → sizeOf q < sizeOf c
  | .inQuery value query negated span, h => by
    obtain rfl := List.mem_singleton.1 h
    simp
    omega
  | .nonEmpty query span, h => by
    obtain rfl := List.mem_singleton.1 h
    simp
    omega
  | .not inner span, h => by
    have := sizeOf_lt_of_mem_queries inner h
    simp
    omega
  | .group inner span, h => by
    have := sizeOf_lt_of_mem_queries inner h
    simp
    omega
  | .and left right span, h => by
    rw [queries] at h
    rcases List.mem_append.1 h with h | h
    · have := sizeOf_lt_of_mem_queries left h
      simp
      omega
    · have := sizeOf_lt_of_mem_queries right h
      simp
      omega
  | .or left right span, h => by
    rw [queries] at h
    rcases List.mem_append.1 h with h | h
    · have := sizeOf_lt_of_mem_queries left h
      simp
      omega
    · have := sizeOf_lt_of_mem_queries right h
      simp
      omega
  | .comparison .., h => by cases h
  | .between .., h => by cases h
  | .inValues .., h => by cases h
  | .isNull .., h => by cases h

theorem QueryBody.sizeOf_lt_of_mem_selects {q : SelectQuery} : (b : QueryBody) → q ∈ b.selects → sizeOf q < sizeOf b
  | .select query, h => by
    obtain rfl := List.mem_singleton.1 h
    simp
  | .set ⟨left, op, all, right, orderBy, offset, span⟩, h => by
    rw [selects] at h
    rcases List.mem_append.1 h with h | h
    · have := sizeOf_lt_of_mem_selects left h
      simp
      omega
    · have := sizeOf_lt_of_mem_selects right h
      simp
      omega

variable {tables named outer}

theorem SelectQuery.sizeOf_lt_of_mem_leaves {q : SelectQuery} {leaf : FromItem} (h : leaf ∈ q.leaves) :
    sizeOf leaf < sizeOf q := by
  obtain ⟨clause, source, filter, groupBy, having, orderBy, offset, span⟩ := q
  obtain ⟨item, member, h⟩ := List.mem_flatMap.1 h
  have := FromItem.sizeOf_le_of_mem_leaves item h
  have := List.sizeOf_lt_of_mem member
  simp at this ⊢
  omega

theorem SelectQuery.sizeOf_lt_of_mem_conditions {q : SelectQuery} {c : Constraint} (h : c ∈ q.conditions) :
    sizeOf c < sizeOf q := by
  obtain ⟨clause, source, filter, groupBy, having, orderBy, offset, span⟩ := q
  simp only [conditions, List.mem_append, Option.mem_toList] at h
  rcases h with (h | rfl) | rfl
  · obtain ⟨item, member, h⟩ := List.mem_flatMap.1 h
    have := FromItem.sizeOf_lt_of_mem_conditions item h
    have := List.sizeOf_lt_of_mem member
    simp
    omega
  · simp
    omega
  · simp
    omega

theorem SelectQuery.sizeOf_lt_of_mem_sites {q : SelectQuery} {s : Site} (h : s ∈ q.sites tables named outer) :
    sizeOf s.query < sizeOf q := by
  rcases List.mem_append.1 h with h | h
  · obtain ⟨query, member, rfl⟩ := List.mem_map.1 h
    obtain ⟨leaf, hleaf, found⟩ := List.mem_filterMap.1 member
    have := sizeOf_lt_of_mem_leaves hleaf
    have := FromItem.sizeOf_lt_of_query? found
    show sizeOf query < sizeOf q
    omega
  · obtain ⟨query, member, rfl⟩ := List.mem_map.1 h
    obtain ⟨c, hc, hquery⟩ := List.mem_flatMap.1 member
    have := sizeOf_lt_of_mem_conditions hc
    have := Constraint.sizeOf_lt_of_mem_queries c hquery
    show sizeOf query < sizeOf q
    omega

theorem WithItem.sizeOf_lt_of_mem_sites {s : Site} (items : List WithItem) :
    ∀ named, s ∈ WithItem.sites tables outer named items → sizeOf s.query < sizeOf items := by
  induction items with
  | nil =>
    intro _ h
    cases h
  | cons item rest ih =>
    intro named h
    obtain ⟨name, columns, query, span⟩ := item
    rcases List.mem_cons.1 h with rfl | h
    · simp
      omega
    · have := ih _ h
      simp
      omega

theorem Site.sizeOf_lt_of_mem_children (s : Site) : ∀ c ∈ s.children tables, sizeOf c.query < sizeOf s.query := by
  intro c h
  obtain ⟨named, outer, items, body, span⟩ := s
  rcases List.mem_append.1 h with h | h
  · have := WithItem.sizeOf_lt_of_mem_sites items _ h
    simp
    omega
  · obtain ⟨q, member, h⟩ := List.mem_flatMap.1 h
    have := QueryBody.sizeOf_lt_of_mem_selects body member
    have := SelectQuery.sizeOf_lt_of_mem_sites h
    simp
    omega

/-- A query and all queries inside it. -/
def Site.all (tables : List Table) (s : Site) : List Site :=
  descent (Site.children tables) (wellFounded_of_shrinks Site.sizeOf_lt_of_mem_children) s

/-- All references of a query, at any depth. -/
def Query.occurrences (tables : List Table) (q : Query) : List Occurrence :=
  (Site.all tables ⟨[], [], q⟩).flatMap (Site.occurrences tables)

end SkyQuery
