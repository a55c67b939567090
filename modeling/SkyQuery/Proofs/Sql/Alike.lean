import SkyQuery.Proofs.Sql.Exact
import SkyQuery.Sql.PgSphere

/-!
# Dialects that write alike

Two dialects that write the calls and the comparisons of a tree alike write the tree alike
(`Sql.Dialect.Alike.part`): all else passes from what a part is made of to the part. PostgreSQL with
and without pgSphere differ in geometry functions only (`Sql.pgSphere_query_eq`).
-/

namespace SkyQuery

/-- Whether there is no call of a geometry function in a part, at any depth. -/
def Part.IsFlat (p : Part) : Prop := ∀ o, .operand o ∈ p.all → Sql.PgSphere.isGeometryCall o = false

theorem Part.isFlat_iff {p : Part} :
    p.IsFlat ↔ (∀ o, p = .operand o → Sql.PgSphere.isGeometryCall o = false) ∧ ∀ c ∈ p.children, c.IsFlat := by
  have spread : p.IsFlat ↔ ∀ b ∈ p.all, ∀ o, b = .operand o → Sql.PgSphere.isGeometryCall o = false :=
    ⟨fun flat b member o found => flat o (found ▸ member), fun flat o member => flat _ member o rfl⟩
  rw [spread, Part.all, forall_mem_descent]
  refine and_congr_right' (forall₂_congr fun c _ => ?_)
  exact ⟨fun flat o member => flat _ member o rfl, fun flat b member o found => flat o (found ▸ member)⟩

namespace Sql.Dialect

variable {d e : Dialect} {fits : Part → Prop}

/-- Of the parts that `fits` tells, the dialects write a call or a comparison alike if they write its
operands alike. -/
structure Alike (d e : Dialect) (fits : Part → Prop) : Prop where
  identifier : d.identifier = e.identifier
  rows : d.rows = e.rows
  children : ∀ {p}, fits p → ∀ c ∈ p.children, fits c
  geometry : ∀ {fn sys args span}, fits (.operand (.geometry fn sys args span)) → args.map d.operand = args.map e.operand →
    d.geometry fn sys args (args.map d.operand) = e.geometry fn sys args (args.map e.operand)
  comparison : ∀ {left op right span}, fits (.constraint (.comparison left op right span)) →
    d.operand left = e.operand left → d.operand right = e.operand right →
    d.comparison d.operand left op right = e.comparison e.operand left op right

/-! ### Names -/

theorem Alike.names (h : d.Alike e fits) (l : List Identifier) : d.names l = e.names l := by
  rw [Dialect.names, Dialect.names, h.identifier]

theorem Alike.tableName (h : d.Alike e fits) (t : TableName) : d.tableName t = e.tableName t := by
  rw [Dialect.tableName, Dialect.tableName, h.identifier]

theorem Alike.column (h : d.Alike e fits) (c : ColumnRef) : d.column c = e.column c := by
  unfold Dialect.column
  rw [h.identifier]
  cases c.table with
  | none => rfl
  | some table => exact congrArg (· ++ "." ++ _) (h.tableName table)

theorem Alike.withAlias (h : d.Alike e fits) (text : String) (label : Option Identifier) :
    d.withAlias text label = e.withAlias text label := by
  cases label with
  | none => rfl
  | some label => rw [Dialect.withAlias, Dialect.withAlias, h.identifier]

/-! ### Expressions -/

theorem operands_congr {l : List Operand} (h : ∀ o ∈ l, d.operand o = e.operand o) : d.operands l = e.operands l := by
  rw [operands_eq, operands_eq, List.map_congr_left h]

theorem Alike.operand (h : d.Alike e fits) {o : Operand} (fit : fits (.operand o))
    (parts : ∀ c ∈ o.children, d.operand c = e.operand c) : d.operand o = e.operand o := by
  cases o with
  | numeric | string => rfl
  | column ref span => exact congrArg Except.ok (h.column ref)
  | negative inner span | wrapped inner span | lower inner span | upper inner span | cast inner target span =>
    rw [Dialect.operand, Dialect.operand, parts inner (List.mem_singleton_self inner)]
  | operation left op right span =>
    rw [Dialect.operand, Dialect.operand, parts left (by simp [Operand.children]), parts right (by simp [Operand.children])]
  | concatenation args span | math fn args span | coalesce args span =>
    rw [Dialect.operand, Dialect.operand, operands_congr (l := args) parts]
  | aggregate fn distinct arg span =>
    cases arg with
    | none => rfl
    | some arg => rw [Dialect.operand, Dialect.operand, parts arg (by simp [Operand.children])]
  | geometry fn sys args span =>
    rw [Dialect.operand, Dialect.operand, operands_eq, operands_eq]
    exact h.geometry fit (List.map_congr_left fun a member => parts a (List.mem_append_right _ member))
  | inUnit => rfl
  | userDefined name args span => rw [Dialect.operand, Dialect.operand, operands_congr (l := args) parts, h.identifier]

/-! ### Clauses -/

theorem Alike.selectItem (h : d.Alike e fits) {item : SelectItem} (parts : ∀ o ∈ item.operand?, d.operand o = e.operand o) :
    d.selectItem item = e.selectItem item := by
  cases item with
  | all span => rfl
  | allOf table span => rw [Dialect.selectItem, Dialect.selectItem, h.tableName]
  | expr o label =>
    rw [Dialect.selectItem, Dialect.selectItem, parts o rfl]
    simp only [h.withAlias]

theorem orderBy_congr {l : List OrderItem} {offset : Option Offset}
    (parts : ∀ p ∈ tailParts l offset, d.part p = e.part p) : d.orderBy l = e.orderBy l := by
  have items : l.map d.orderItem = l.map e.orderItem := List.map_congr_left fun item member => by
    have expr : d.operand item.expr = e.operand item.expr := parts (.operand item.expr)
      (List.mem_append_left _ (List.mem_map_of_mem (f := fun item => Part.operand item.expr) member))
    rw [orderItem, orderItem, expr]
  rw [orderBy, orderBy, items]

theorem groupBy_congr {l : List Operand} (parts : ∀ o ∈ l, d.operand o = e.operand o) : d.groupBy l = e.groupBy l := by
  rw [groupBy, groupBy, operands_congr parts]

/-! ### Parts -/

theorem Alike.constraint (h : d.Alike e fits) {c : Constraint} (fit : fits (.constraint c))
    (parts : ∀ p ∈ (Part.constraint c).children, d.part p = e.part p) : d.constraint c = e.constraint c := by
  simp only [Part.children, List.forall_mem_append, List.forall_mem_map, part_operand, part_constraint,
    part_query] at parts
  obtain ⟨⟨operands, conditions⟩, queries⟩ := parts
  cases c with
  | comparison left op right span =>
    rw [Dialect.constraint, Dialect.constraint]
    exact h.comparison fit (operands left (by simp [Constraint.operands])) (operands right (by simp [Constraint.operands]))
  | between value low high negated span =>
    rw [Dialect.constraint, Dialect.constraint, operands value (by simp [Constraint.operands]),
      operands low (by simp [Constraint.operands]), operands high (by simp [Constraint.operands])]
  | inValues value values negated span =>
    obtain ⟨here, others⟩ := List.forall_mem_cons.1 operands
    rw [Dialect.constraint, Dialect.constraint, operands_congr others, here]
  | inQuery value query negated span =>
    rw [Dialect.constraint, Dialect.constraint, queries query (List.mem_singleton_self query),
      operands value (List.mem_singleton_self value)]
  | isNull value negated span =>
    rw [Dialect.constraint, Dialect.constraint, operands value (List.mem_singleton_self value)]
  | nonEmpty query span =>
    rw [Dialect.constraint, Dialect.constraint, queries query (List.mem_singleton_self query)]
  | not inner span | group inner span =>
    rw [Dialect.constraint, Dialect.constraint, conditions inner (List.mem_singleton_self inner)]
  | and left right span | or left right span =>
    rw [Dialect.constraint, Dialect.constraint, conditions left (by simp [Constraint.children]),
      conditions right (by simp [Constraint.children])]

theorem Alike.joinCondition (h : d.Alike e fits) {condition : JoinCondition}
    (parts : ∀ c ∈ condition.constraint?, d.constraint c = e.constraint c) :
    d.joinCondition condition = e.joinCondition condition := by
  cases condition with
  | unstated => rfl
  | on c => rw [Dialect.joinCondition, Dialect.joinCondition, parts c rfl]
  | sharing columns => rw [Dialect.joinCondition, Dialect.joinCondition, h.names]

theorem Alike.fromItem (h : d.Alike e fits) {item : FromItem}
    (parts : ∀ p ∈ (Part.fromItem item).children, d.part p = e.part p) : d.fromItem item = e.fromItem item := by
  cases item with
  | table name label span => rw [Dialect.fromItem, Dialect.fromItem, h.withAlias, h.tableName]
  | subquery query label span =>
    have inner : d.query query = e.query query := parts (.query query) (List.mem_singleton_self _)
    rw [Dialect.fromItem, Dialect.fromItem, inner, h.identifier]
  | join left kind natural right condition span =>
    have onLeft : d.fromItem left = e.fromItem left := parts (.fromItem left) (by simp [Part.children])
    have onRight : d.fromItem right = e.fromItem right := parts (.fromItem right) (by simp [Part.children])
    have matched : d.joinCondition condition = e.joinCondition condition :=
      h.joinCondition fun c found => parts (.constraint c) (by simp [Part.children, Option.mem_def.1 found])
    rw [Dialect.fromItem, Dialect.fromItem, onLeft, onRight, matched]

theorem Alike.selectQuery (h : d.Alike e fits) {q : SelectQuery}
    (parts : ∀ p ∈ (Part.select q).children, d.part p = e.part p) : d.selectQuery q = e.selectQuery q := by
  obtain ⟨clause, source, filter, groupBy, having, orderBy, offset, span⟩ := q
  simp only [Part.children, List.forall_mem_append, List.forall_mem_map, part_operand, part_constraint, part_fromItem,
    Option.mem_toList] at parts
  obtain ⟨⟨⟨⟨⟨columns, sources⟩, filters⟩, groups⟩, havings⟩, tail⟩ := parts
  have items : clause.items.map d.selectItem = clause.items.map e.selectItem := List.map_congr_left fun item member =>
    h.selectItem fun o found => columns o (List.mem_filterMap.2 ⟨item, member, found⟩)
  rw [Dialect.selectQuery, Dialect.selectQuery, items, fromItems_eq, fromItems_eq, List.map_congr_left sources,
    groupBy_congr groups, orderBy_congr tail, h.rows]
  cases filter with
  | none =>
    cases having with
    | none => rfl
    | some having => simp only [havings having rfl]
  | some filter =>
    cases having with
    | none => simp only [filters filter rfl]
    | some having => simp only [filters filter rfl, havings having rfl]

theorem Alike.setOperation (h : d.Alike e fits) {o : SetOperation}
    (parts : ∀ p ∈ (Part.set o).children, d.part p = e.part p) : d.setOperation o = e.setOperation o := by
  obtain ⟨left, op, all, right, orderBy, offset, span⟩ := o
  simp only [Part.children, List.forall_mem_append, List.forall_mem_cons] at parts
  obtain ⟨⟨onLeft, onRight, -⟩, tail⟩ := parts
  rw [Dialect.setOperation, Dialect.setOperation, body_eq, body_eq, body_eq, body_eq, onLeft, onRight, orderBy_congr tail,
    h.rows]

theorem Alike.withItem (h : d.Alike e fits) {item : WithItem} (inner : d.query item.query = e.query item.query) :
    d.withItem item = e.withItem item := by
  obtain ⟨name, columns, query, span⟩ := item
  have inner : d.query query = e.query query := inner
  rw [Dialect.withItem, Dialect.withItem, inner, h.identifier, h.names]

theorem query_congr {q : Query} (parts : ∀ p ∈ (Part.query q).children, d.part p = e.part p) : d.query q = e.query q := by
  obtain ⟨items, inner, span⟩ := q
  simp only [Part.children, List.forall_mem_append, List.forall_mem_map, part_withItem, List.forall_mem_singleton] at parts
  obtain ⟨named, body⟩ := parts
  rw [query, query, body_eq, body_eq, withAll_eq, withAll_eq, List.map_congr_left named, body]

/-- A part is written alike if what it is made of is. -/
theorem Alike.part_of_children (h : d.Alike e fits) {p : Part} (fit : fits p)
    (parts : ∀ c ∈ p.children, d.part c = e.part c) : d.part p = e.part p := by
  cases p with
  | operand o => exact h.operand fit (List.forall_mem_map.1 parts)
  | constraint c => exact h.constraint fit parts
  | fromItem item => exact h.fromItem parts
  | offset o => rfl
  | select q => exact h.selectQuery parts
  | set o => exact h.setOperation parts
  | withItem item => exact h.withItem (parts (.query item.query) (List.mem_singleton_self _))
  | query q => exact query_congr parts

theorem Alike.part (h : d.Alike e fits) {p : Part} (fit : fits p) : d.part p = e.part p := by
  have below := wellFounded_of_shrinks Part.sizeOf_lt_of_mem_children
  induction p using below.induction with
  | h p ih => exact h.part_of_children fit fun c member => ih c member (h.children fit c member)

end Dialect

/-! ### With and without pgSphere -/

theorem PgSphere.predicateCall?_eq_none {o : Operand} (flat : isGeometryCall o = false) : predicateCall? o = none := by
  cases o with
  | geometry => cases flat
  | _ => rfl

theorem PgSphere.comparison_eq_plain {operand : Operand → SqlText} {left right : Operand} {op : ComparisonOp}
    (onLeft : isGeometryCall left = false) (onRight : isGeometryCall right = false) :
    comparison operand left op right = plainComparison operand left op right := by
  unfold comparison
  rw [predicateCall?_eq_none onLeft, predicateCall?_eq_none onRight]
  rfl

theorem pgSphere_alike : pgSphere.Alike postgres Part.IsFlat where
  identifier := rfl
  rows := rfl
  children flat := (Part.isFlat_iff.1 flat).2
  geometry flat _ := Bool.noConfusion ((Part.isFlat_iff.1 flat).1 _ rfl)
  comparison {left op right span} flat onLeft onRight := by
    have operand (o : Operand) (member : o ∈ [left, right]) : PgSphere.isGeometryCall o = false := by
      refine (Part.isFlat_iff.1 ((Part.isFlat_iff.1 flat).2 (.operand o) ?_)).1 o rfl
      simpa [Part.children, Constraint.operands, Constraint.children, Constraint.subqueries] using member
    have plain : pgSphere.comparison pgSphere.operand left op right = plainComparison pgSphere.operand left op right :=
      PgSphere.comparison_eq_plain (operand left (by simp)) (operand right (by simp))
    rw [plain, plainComparison, onLeft, onRight]
    rfl

/-- A query without geometry functions, at any depth, is written alike with and without pgSphere. -/
theorem pgSphere_query_eq (q : Query) (flat : ∀ o, .operand o ∈ (Part.query q).all → PgSphere.isGeometryCall o = false) :
    pgSphere.query q = postgres.query q :=
  pgSphere_alike.part (p := .query q) flat

/-- A comparison and a limit. -/
theorem pgSphere_query_eq_comparison :
    let a : Operand := .column { column := ⟨"a", true⟩ } none
    let one : Operand := .numeric "1" none
    let c : Constraint := .comparison a .eq one none
    let t : FromItem := .table { table := ⟨"t", false⟩ } none none
    let q : Query := ⟨[], .select ⟨⟨false, some 5, [.expr a none], none⟩, [t], some c, [], none, [], none, none⟩, none⟩
    (∀ o, .operand o ∈ (Part.query q).all → PgSphere.isGeometryCall o = false) ∧
      pgSphere.query q = postgres.query q ∧ pgSphere.query q = .ok "SELECT \"a\"\nFROM t\nWHERE \"a\" = 1\nLIMIT 5" := by
  intro a one c t q
  have node {p : Part} (here : ∀ o, p = .operand o → PgSphere.isGeometryCall o = false)
      (below : ∀ c ∈ p.children, c.IsFlat) : p.IsFlat := Part.isFlat_iff.2 ⟨here, below⟩
  have leaf {o : Operand} (here : PgSphere.isGeometryCall o = false) (alone : o.children = []) : (Part.operand o).IsFlat := by
    refine node (fun _ same => Part.operand.inj same ▸ here) ?_
    rw [Part.children, alone]
    exact List.forall_mem_nil _
  have column : (Part.operand a).IsFlat := leaf rfl rfl
  have comparison : (Part.constraint c).IsFlat :=
    node (fun _ same => by cases same) (List.forall_mem_cons.2 ⟨column, List.forall_mem_singleton.2 (leaf rfl rfl)⟩)
  have table : (Part.fromItem t).IsFlat := node (fun _ same => by cases same) (List.forall_mem_nil _)
  have body : (QueryBody.part q.body).IsFlat := node (fun _ same => by cases same)
    (List.forall_mem_cons.2 ⟨column, List.forall_mem_cons.2 ⟨table, List.forall_mem_singleton.2 comparison⟩⟩)
  have select : (Part.query q).IsFlat := node (fun _ same => by cases same) (List.forall_mem_singleton.2 body)
  exact ⟨select, pgSphere_query_eq q select, by decide +kernel⟩

end Sql

end SkyQuery
