import SkyQuery.Proofs.Scope.Complete
import SkyQuery.Proofs.Tree.Walk

/-!
# Ambiguous columns

A column without qualifier is ambiguous if the innermost scope that has it has it more than once. The
scope decides this alone: `Query.resolve_orderName` says what is reported where an order names a result
column, and `Query.resolve_joined` what is reported for a column of both sides of a join.
-/

namespace SkyQuery

variable {tables : List Table} {named : List Relation} {outer : List Scope} {column : Identifier}

/-- The innermost scope that has the column has it more than once. -/
def Context.Ambiguous (c : Context) (column : Identifier) : Prop :=
  ∃ scope, IsFirst (·.Has column) c.scopes scope ∧ 1 < scope.countP (·.hasColumn column)

def ambiguousColumn (column : Identifier) (span : Option Span) : Diagnostic where
  code := .ambiguousColumn
  message := "Ambiguous column name \"" ++ ({ column } : ColumnRef).render ++ "\"!"
  span := span

/-! ### One reference -/

theorem fault?_of_ambiguous {o : Occurrence} (plain : o.reference = .column { column })
    (ambiguous : o.context.Ambiguous column) : o.fault? tables = some (ambiguousColumn column o.span) := by
  obtain ⟨scope, innermost, several⟩ := ambiguous
  have judged := o.judged tables
  rw [plain] at judged
  cases found : o.fault? tables with
  | none =>
    rw [found] at judged
    cases judged with
    | plain here once =>
      obtain rfl := innermost.unique here
      omega
    | result unscoped => exact (unscoped _ innermost.mem innermost.1).elim
  | some d =>
    rw [found] at judged
    cases judged with
    | unknownColumn unscoped => exact (unscoped _ innermost.mem innermost.1).elim
    | ambiguousColumn => rfl

/-- The name of a result column is at fault only where it is ambiguous. -/
theorem fault?_eq_none_of_result {o : Occurrence} (plain : o.reference = .column { column })
    (result : ∃ r ∈ o.context.results, r.denotes column = true) :
    o.fault? tables = none ↔ ¬ o.context.Ambiguous column := by
  constructor
  · intro none ambiguous
    rw [fault?_of_ambiguous plain ambiguous] at none
    cases none
  · intro unambiguous
    have judged := o.judged tables
    rw [plain] at judged
    cases found : o.fault? tables with
    | none => rfl
    | some d =>
      rw [found] at judged
      cases judged with
      | unknownColumn _ unnamed =>
        obtain ⟨r, member, denotes⟩ := result
        exact (unnamed r member denotes).elim
      | ambiguousColumn innermost several => exact (unambiguous ⟨_, innermost, several⟩).elim

/-! ### Its share in a report -/

/-- A report has the fault of each reference beside those of the others. -/
theorem Query.resolve_of_mem {root : Query} {s : Site} {o : Occurrence} (below : s ∈ Site.all tables ⟨[], [], root⟩)
    (member : o ∈ s.occurrences tables) : ∃ others, (root.occurrences tables).Perm (o :: others) ∧
      (root.resolve tables).Perm ((o.fault? tables).toList ++ faultsOf tables others) := by
  have all : o ∈ root.occurrences tables := List.mem_flatMap.2 ⟨s, below, member⟩
  obtain ⟨before, after, split⟩ := List.append_of_mem all
  refine ⟨before ++ after, split ▸ List.perm_middle, root.resolve_perm.trans ?_⟩
  have moved : (faultsOf tables (root.occurrences tables)).Perm (faultsOf tables (o :: (before ++ after))) :=
    List.Perm.filterMap _ (split ▸ List.perm_middle)
  have first : faultsOf tables (o :: (before ++ after)) = (o.fault? tables).toList ++ faultsOf tables (before ++ after) := by
    unfold faultsOf
    cases found : o.fault? tables <;> simp [found]
  rwa [first] at moved

theorem Site.mem_all_self (s : Site) : s ∈ s.all tables := by
  unfold Site.all
  rw [descent_eq]
  exact List.mem_cons_self

theorem Site.mem_all_of_child {s c : Site} (h : c ∈ s.children tables) : c ∈ s.all tables := by
  unfold Site.all
  rw [descent_eq]
  exact List.mem_cons_of_mem _ (List.mem_flatMap.2 ⟨c, h, c.mem_all_self⟩)

theorem Site.mem_occurrences {s : Site} {q : SelectQuery} {o : Occurrence} (body : q ∈ s.query.body.selects)
    (member : o ∈ q.occurrences tables (s.visible tables) s.outer) : o ∈ s.occurrences tables :=
  List.mem_append_left _ (List.mem_flatMap.2 ⟨q, body, member⟩)

/-! ### Result columns -/

/-- What the grouping and the order of a query see: what its other clauses see, and its result columns. -/
def SelectQuery.ordering (tables : List Table) (named : List Relation) (outer : List Scope) (q : SelectQuery) : Context :=
  { q.inner tables named outer with results := q.outputs tables named }

theorem SelectQuery.orderName_mem {q : SelectQuery} {item : OrderItem} {span : Option Span} (member : item ∈ q.orderBy)
    (plain : item.expr = .column { column } span) :
    ⟨.column { column }, span, q.ordering tables named outer⟩ ∈ q.occurrences tables named outer := by
  have operand : item.expr ∈ q.groupBy ++ q.orderBy.map OrderItem.expr :=
    List.mem_append_right _ (List.mem_map_of_mem member)
  have node : Operand.column { column } span ∈ Operand.allNodes (q.groupBy ++ q.orderBy.map OrderItem.expr) := by
    rw [Operand.allNodes_eq_flatMap]
    exact List.mem_flatMap.2 ⟨_, operand, by rw [plain, Operand.nodes]; exact List.mem_cons_self⟩
  exact List.mem_append_right _ (List.mem_filterMap.2 ⟨_, node, rfl⟩)

/-- Where an order names one of the result columns, nothing is reported for the name unless it is
ambiguous among the relations that the query sees; then the name is reported as ambiguous. -/
theorem Query.resolve_orderName (tables : List Table) (root : Query) {s : Site} (below : s ∈ Site.all tables ⟨[], [], root⟩)
    {q : SelectQuery} (body : q ∈ s.query.body.selects) {item : OrderItem} (member : item ∈ q.orderBy)
    {column : Identifier} {span : Option Span} (plain : item.expr = .column { column } span)
    (result : ∃ r ∈ q.outputs tables (s.visible tables), r.denotes column = true) :
    let name : Occurrence := ⟨.column { column }, span, q.ordering tables (s.visible tables) s.outer⟩
    ∃ others, (root.occurrences tables).Perm (name :: others) ∧
      (¬ name.context.Ambiguous column → (root.resolve tables).Perm (faultsOf tables others)) ∧
      (name.context.Ambiguous column →
        (root.resolve tables).Perm (ambiguousColumn column span :: faultsOf tables others)) := by
  intro name
  obtain ⟨others, split, report⟩ := Query.resolve_of_mem below (Site.mem_occurrences body (q.orderName_mem member plain))
  refine ⟨others, split, fun unambiguous => ?_, fun ambiguous => ?_⟩
  · rwa [(fault?_eq_none_of_result (o := name) rfl result).2 unambiguous] at report
  · rwa [fault?_of_ambiguous (o := name) rfl ambiguous] at report

theorem Query.resolve_orderName_correlated :
    let tables : List Table := [⟨none, none, "a", ["x"]⟩, ⟨none, none, "b", ["x"]⟩, ⟨none, none, "c", ["y"]⟩]
    let reads (names : List String) : List FromItem := names.map fun name => .table { table := ⟨name, false⟩ } none none
    let column (name : String) : Operand := .column { column := ⟨name, false⟩ } none
    let x : OrderItem := ⟨column "x", false, none⟩
    let inner : SelectQuery := ⟨⟨false, none, [.expr (column "y") (some ⟨"x", false⟩)], none⟩, reads ["c"], none, [],
      none, [x], none, none⟩
    let root : Query := ⟨[], .select ⟨⟨false, none, [.all none], none⟩, reads ["a", "b"],
      some (.nonEmpty ⟨[], .select inner, none⟩ none), [], none, [], none, none⟩, none⟩
    let s : Site := ⟨[], [FromItem.scope tables [] (reads ["a", "b"])], ⟨[], .select inner, none⟩⟩
    let name : Occurrence := ⟨.column { column := ⟨"x", false⟩ }, none, inner.ordering tables (s.visible tables) s.outer⟩
    s ∈ Site.all tables ⟨[], [], root⟩ ∧ inner ∈ s.query.body.selects ∧ x ∈ inner.orderBy ∧
      (∃ r ∈ inner.outputs tables (s.visible tables), r.denotes ⟨"x", false⟩ = true) ∧
      ∃ others, (root.occurrences tables).Perm (name :: others) ∧
        (¬ name.context.Ambiguous ⟨"x", false⟩ → (root.resolve tables).Perm (faultsOf tables others)) ∧
        (name.context.Ambiguous ⟨"x", false⟩ →
          (root.resolve tables).Perm (ambiguousColumn ⟨"x", false⟩ none :: faultsOf tables others)) := by
  intro tables reads column x inner root s name
  have below : s ∈ Site.all tables ⟨[], [], root⟩ := Site.mem_all_of_child (List.mem_singleton_self _)
  have body : inner ∈ s.query.body.selects := List.mem_singleton_self _
  have member : x ∈ inner.orderBy := List.mem_singleton_self _
  have result : ∃ r ∈ inner.outputs tables (s.visible tables), r.denotes ⟨"x", false⟩ = true :=
    ⟨⟨"x", false⟩, List.mem_singleton_self _, by decide⟩
  exact ⟨below, body, member, result, Query.resolve_orderName tables root below body member rfl result⟩

/-- An order that names a result column, reported since two relations have a column of that name. -/
theorem Query.resolve_orderName_ambiguous :
    let tables : List Table := [⟨none, none, "source", ["ra", "mag"]⟩, ⟨none, none, "obs", ["ra"]⟩]
    ((readQuery .v21 "SELECT mag * 2 AS ra FROM source, obs").toOption.map (Query.resolve tables)) = some [] ∧
      ((readQuery .v21 "SELECT mag * 2 AS ra FROM source, obs ORDER BY ra").toOption.map (Query.resolve tables)) =
        some [ambiguousColumn ⟨"ra", false⟩ (some ⟨1, 48, 1, 50⟩)] := by
  decide +kernel

/-! ### Joins -/

theorem SelectQuery.scopes_of_mem {q : SelectQuery} {o : Occurrence} (h : o ∈ q.occurrences tables named outer) :
    o.context.scopes = FromItem.scope tables named q.source :: outer := by
  simp only [occurrences, Occurrence.columns, List.mem_append, List.mem_filterMap, List.mem_map] at h
  rcases h with (((⟨leaf, -, found⟩ | ⟨_, -, rfl⟩) | ⟨item, -, found⟩) | ⟨_, -, found⟩) | ⟨_, -, found⟩
  · cases leaf <;> cases found
    rfl
  · rfl
  · cases item <;> cases found
    rfl
  · obtain ⟨_, -, rfl⟩ := Option.map_eq_some_iff.1 found
    rfl
  · obtain ⟨_, -, rfl⟩ := Option.map_eq_some_iff.1 found
    rfl

theorem FromItem.exposed_sublist_scope {item : FromItem} {source : List FromItem} (member : item ∈ source) :
    (item.exposed tables named).Sublist (FromItem.scope tables named source) := by
  induction source with
  | nil => cases member
  | cons first rest ih =>
    rw [FromItem.scope]
    rcases List.mem_cons.1 member with rfl | member
    · exact List.sublist_append_left ..
    · exact (ih member).trans (List.sublist_append_right ..)

theorem Scope.Has.countP_pos {scope : Scope} (h : scope.Has column) : 0 < scope.countP (·.hasColumn column) :=
  List.countP_pos_iff.2 h

/-- A column of both sides of a join is there more than once, whatever the join shares. -/
theorem SelectQuery.ambiguous_of_join {q : SelectQuery} {left right : FromItem} {kind : JoinKind} {natural : Bool}
    {condition : JoinCondition} {span : Option Span} (joined : .join left kind natural right condition span ∈ q.source)
    (first : (left.exposed tables named).Has column) (second : (right.exposed tables named).Has column) {o : Occurrence}
    (member : o ∈ q.occurrences tables named outer) : o.context.Ambiguous column := by
  have several : 1 < (FromItem.scope tables named q.source).countP (·.hasColumn column) := by
    have part : ((FromItem.join left kind natural right condition span).exposed tables named).countP (·.hasColumn column) ≤
        (FromItem.scope tables named q.source).countP (·.hasColumn column) :=
      (FromItem.exposed_sublist_scope joined).countP_le
    rw [FromItem.exposed, List.countP_append] at part
    have := first.countP_pos
    have := second.countP_pos
    omega
  have has : (FromItem.scope tables named q.source).Has column := List.countP_pos_iff.1 (Nat.lt_of_succ_lt several)
  exact ⟨_, ⟨has, [], outer, q.scopes_of_mem member, by simp⟩, several⟩

theorem FromItem.table_has {name : TableName} {label : Option Identifier} {span : Option Span} {r : Relation}
    (designates : Designates tables named name r) (has : r.hasColumn column = true) :
    ((FromItem.table name label span).exposed tables named).Has column := by
  rw [FromItem.exposed, designated?_eq_some_iff.2 designates]
  refine ⟨Scope.aliased r label, List.mem_singleton_self _, ?_⟩
  cases label <;> exact has

/-- Joins merge no columns: in a query that joins two tables which both have a column, each mention of
the column without qualifier is reported as ambiguous, also where the join shares the column. -/
theorem Query.resolve_joined (tables : List Table) (root : Query) {s : Site} (below : s ∈ Site.all tables ⟨[], [], root⟩)
    {q : SelectQuery} (body : q ∈ s.query.body.selects) {left right : TableName} {label label' : Option Identifier}
    {place place' span : Option Span} {kind : JoinKind} {natural : Bool} {condition : JoinCondition}
    (joined : .join (.table left label place) kind natural (.table right label' place') condition span ∈ q.source)
    {r r' : Relation} (first : Designates tables (s.visible tables) left r)
    (second : Designates tables (s.visible tables) right r') {column : Identifier} (has : r.hasColumn column = true)
    (has' : r'.hasColumn column = true) {o : Occurrence} (member : o ∈ q.occurrences tables (s.visible tables) s.outer)
    (plain : o.reference = .column { column }) :
    ∃ others, (root.occurrences tables).Perm (o :: others) ∧
      (root.resolve tables).Perm (ambiguousColumn column o.span :: faultsOf tables others) := by
  have ambiguous : o.context.Ambiguous column :=
    q.ambiguous_of_join joined (FromItem.table_has first has) (FromItem.table_has second has') member
  obtain ⟨others, split, report⟩ := Query.resolve_of_mem below (Site.mem_occurrences body member)
  rw [fault?_of_ambiguous plain ambiguous] at report
  exact ⟨others, split, report⟩

theorem Query.resolve_joined_using :
    let tables : List Table := [⟨none, none, "a", ["c", "x"]⟩, ⟨some "m", some "s", "b", ["C"]⟩]
    let c : Identifier := ⟨"c", false⟩
    let left : TableName := { table := ⟨"a", false⟩ }
    let right : TableName := { schema := some ⟨"S", false⟩, table := ⟨"b", false⟩ }
    let r : Relation := ⟨left, [c, ⟨"x", false⟩]⟩
    let r' : Relation := ⟨⟨some ⟨"m", false⟩, some ⟨"s", false⟩, ⟨"b", false⟩⟩, [⟨"C", false⟩]⟩
    let join : FromItem := .join (.table left none none) .leftOuter false (.table right (some ⟨"d", false⟩) none)
      (.sharing [c]) none
    let q : SelectQuery := ⟨⟨false, none, [.expr (.column { column := c } none) none], none⟩, [join], none, [], none, [],
      none, none⟩
    let root : Query := ⟨[], .select q, none⟩
    let s : Site := ⟨[], [], root⟩
    let o : Occurrence := ⟨.column { column := c }, none, q.inner tables [] []⟩
    s ∈ Site.all tables ⟨[], [], root⟩ ∧ q ∈ s.query.body.selects ∧ join ∈ q.source ∧
      Designates tables (s.visible tables) left r ∧ Designates tables (s.visible tables) right r' ∧
      r.hasColumn c = true ∧ r'.hasColumn c = true ∧ o ∈ q.occurrences tables (s.visible tables) s.outer ∧
      ∃ others, (root.occurrences tables).Perm (o :: others) ∧
        (root.resolve tables).Perm (ambiguousColumn c o.span :: faultsOf tables others) := by
  intro tables c left right r r' join q root s o
  have below : s ∈ Site.all tables ⟨[], [], root⟩ := Site.mem_all_self s
  have body : q ∈ s.query.body.selects := List.mem_singleton_self _
  have joined : join ∈ q.source := List.mem_singleton_self _
  have first : Designates tables (s.visible tables) left r := designated?_eq_some_iff.1 (by decide)
  have second : Designates tables (s.visible tables) right r' := designated?_eq_some_iff.1 (by decide)
  have has : r.hasColumn c = true := by decide
  have has' : r'.hasColumn c = true := by decide
  have member : o ∈ q.occurrences tables (s.visible tables) s.outer :=
    List.mem_append_left _ (List.mem_append_right _ (List.mem_singleton_self _))
  exact ⟨below, body, joined, first, second, has, has', member,
    Query.resolve_joined tables root below body joined first second has has' member rfl⟩

/-- A column that a join shares, reported as ambiguous. -/
theorem Query.resolve_joined_shared :
    let tables : List Table := [⟨none, none, "a", ["c", "x"]⟩, ⟨none, none, "b", ["c", "y"]⟩]
    ((readQuery .v21 "SELECT c FROM a JOIN b USING (c)").toOption.map (Query.resolve tables)) =
        some [ambiguousColumn ⟨"c", false⟩ (some ⟨1, 8, 1, 9⟩)] ∧
      ((readQuery .v21 "SELECT x FROM a NATURAL JOIN b ORDER BY c").toOption.map (Query.resolve tables)) =
        some [ambiguousColumn ⟨"c", false⟩ (some ⟨1, 41, 1, 42⟩)] := by
  decide +kernel

end SkyQuery
