import SkyQuery.Proofs.Scope.Sites

/-!
# Resolving is complete

`Query.resolve_occurrences`: resolving reports each reference of a query that the rules refuse, once
each and nothing else.
-/

namespace SkyQuery

variable {tables : List Table} {named : List Relation} {outer : List Scope}

/-! ### What is exposed -/

theorem ownRelations_table (name : TableName) (label : Option Identifier) (span : Option Span) :
    (FromItem.ownRelations tables named outer (.table name label span)).1 =
      FromItem.exposed tables named (.table name label span) := by
  rw [FromItem.ownRelations, FromItem.exposed, ← tableRelation_toOption tables named name span]
  cases Scope.tableRelation tables named name span <;> rfl

mutual

theorem Query.resolution_columns (named : List Relation) : (q : Query) →
    (q.resolution tables named outer).columns = q.outputs tables named
  | ⟨items, body, span⟩ => by
    rw [Query.resolution, Query.outputs, ← WithItem.relations_visible named items]
    exact QueryBody.resolution_columns _ body

theorem WithItem.relations_visible (named : List Relation) : (items : List WithItem) →
    (WithItem.relations tables named outer items).1 = WithItem.visible tables named items
  | [] => by rw [WithItem.relations, WithItem.visible]
  | ⟨name, columns, query, span⟩ :: rest => by
    rw [WithItem.relations, WithItem.visible, ← Query.resolution_columns named query]
    exact WithItem.relations_visible _ rest

theorem QueryBody.resolution_columns (named : List Relation) : (b : QueryBody) →
    (b.resolution tables named outer).columns = b.outputs tables named
  | .select query => by
    rw [QueryBody.resolution, QueryBody.outputs]
    exact SelectQuery.resolution_columns named query
  | .set ⟨left, op, all, right, orderBy, offset, span⟩ => by
    rw [QueryBody.resolution, QueryBody.outputs, SetOperation.resolution]
    exact QueryBody.resolution_columns named left

theorem SelectQuery.resolution_columns (named : List Relation) : (q : SelectQuery) →
    (q.resolution tables named outer).columns = q.outputs tables named
  | ⟨clause, source, filter, groupBy, having, orderBy, offset, span⟩ => by
    rw [SelectQuery.resolution.eq_def, SelectQuery.outputs, ← FromItem.relations_scope named source]

theorem FromItem.relations_scope (named : List Relation) : (items : List FromItem) →
    (FromItem.relations tables named outer items).1 = FromItem.scope tables named items
  | [] => by rw [FromItem.relations, FromItem.scope]
  | item :: rest => by
    rw [FromItem.relations, FromItem.scope, ← FromItem.ownRelations_exposed named item,
      ← FromItem.relations_scope named rest]

theorem FromItem.ownRelations_exposed (named : List Relation) : (item : FromItem) →
    (item.ownRelations tables named outer).1 = item.exposed tables named
  | .table name label span => ownRelations_table name label span
  | .subquery query label span => by
    rw [FromItem.ownRelations, FromItem.exposed, ← Query.resolution_columns named query]
  | .join left kind natural right condition span => by
    rw [FromItem.ownRelations, FromItem.exposed, ← FromItem.ownRelations_exposed named left,
      ← FromItem.ownRelations_exposed named right]

end

/-! ### What is reported -/

/-- The faults that the rules give for some references. -/
def faultsOf (tables : List Table) (os : List Occurrence) : Report := os.filterMap (Occurrence.fault? tables)

theorem faultsOf_append (a b : List Occurrence) : faultsOf tables (a ++ b) = faultsOf tables a ++ faultsOf tables b :=
  List.filterMap_append

theorem columnFaults_eq (tables : List Table) (c : Context) (os : List Operand) :
    Scope.columnFaults c.scopes c.results os = faultsOf tables (Occurrence.columns c os) := by
  unfold Scope.columnFaults faultsOf Occurrence.columns
  rw [List.filterMap_filterMap]
  apply List.filterMap_congr
  intro o _
  cases o.asColumn? <;> rfl

theorem allNodes_append (a b : List Operand) : Operand.allNodes (a ++ b) = Operand.allNodes a ++ Operand.allNodes b := by
  induction a with
  | nil => rfl
  | cons o rest ih => rw [List.cons_append, Operand.allNodes, ih, Operand.allNodes, List.append_assoc]

theorem columnFaults_append (scopes : List Scope) (results : List Identifier) (a b : List Operand) :
    Scope.columnFaults scopes results (a ++ b) =
      Scope.columnFaults scopes results a ++ Scope.columnFaults scopes results b := by
  unfold Scope.columnFaults
  rw [allNodes_append, List.filterMap_append]

theorem sharedFaults_eq (c : Context) {scope : Scope} (own : c.scopes.head? = some scope) (columns : List Identifier) :
    columns.filterMap scope.sharedFault? =
      faultsOf tables (columns.map fun column => ⟨.shared column, none, c⟩) := by
  rw [faultsOf, List.filterMap_map]
  apply List.filterMap_congr
  intro column _
  simp [Scope.sharedFault?, Occurrence.fault?, own]

theorem allOfFaults_eq (c : Context) {scope : Scope} (own : c.scopes.head? = some scope) (items : List SelectItem) :
    items.filterMap (SelectItem.fault? scope) = faultsOf tables (items.filterMap (Occurrence.allOf? c)) := by
  rw [faultsOf, List.filterMap_filterMap]
  apply List.filterMap_congr
  intro item _
  cases item <;> simp [SelectItem.fault?, Occurrence.allOf?, Occurrence.fault?, own]

/-- The faults of a query and of all queries inside it. -/
def Site.faults (tables : List Table) (s : Site) : Report :=
  (s.all tables).flatMap fun s => faultsOf tables (s.occurrences tables)

def SelectQuery.siteFaults (tables : List Table) (named : List Relation) (outer : List Scope) (q : SelectQuery) : Report :=
  faultsOf tables (q.occurrences tables named outer) ++ (q.sites tables named outer).flatMap (Site.faults tables)

def QueryBody.siteFaults (tables : List Table) (named : List Relation) (outer : List Scope) (b : QueryBody) : Report :=
  b.selects.flatMap (SelectQuery.siteFaults tables named outer) ++
    b.operations.flatMap fun o => faultsOf tables (o.occurrences tables named)

def FromItem.siteFaults (tables : List Table) (named : List Relation) (outer : List Scope) (leaf : FromItem) : Report :=
  faultsOf tables (Occurrence.table? ⟨named, [], []⟩ leaf).toList ++
    leaf.query?.toList.flatMap fun query => Site.faults tables ⟨named, outer, query⟩

def Constraint.siteFaults (tables : List Table) (named : List Relation) (scopes : List Scope) (c : Constraint) : Report :=
  c.queries.flatMap fun query => Site.faults tables ⟨named, scopes, query⟩

theorem faultsOf_flatMap {α : Type} (f : α → List Occurrence) (as : List α) :
    faultsOf tables (as.flatMap f) = as.flatMap fun a => faultsOf tables (f a) := List.filterMap_flatMap

theorem Site.faults_eq (s : Site) : s.faults tables =
    faultsOf tables (s.occurrences tables) ++ (s.children tables).flatMap (Site.faults tables) := by
  unfold faults all
  rw [descent_eq, List.flatMap_cons, List.flatMap_assoc]

theorem Site.faults_perm (s : Site) : (s.faults tables).Perm
    ((WithItem.sites tables s.outer s.named s.query.withItems).flatMap (Site.faults tables) ++
      s.query.body.siteFaults tables (s.visible tables) s.outer) := by
  rw [faults_eq]
  unfold occurrences children QueryBody.siteFaults SelectQuery.siteFaults
  have selects := List.flatMap_append_perm s.query.body.selects
    (fun q => faultsOf tables (q.occurrences tables (s.visible tables) s.outer))
    (fun q => (q.sites tables (s.visible tables) s.outer).flatMap (Site.faults tables))
  rw [faultsOf_append, faultsOf_flatMap, faultsOf_flatMap, List.flatMap_append, List.flatMap_assoc]
  rw [List.perm_iff_count] at selects ⊢
  intro d
  have := selects d
  simp only [List.count_append] at this ⊢
  omega

/-! ### Queries -/

theorem FromItem.ownOperands_eq : (item : FromItem) →
    item.ownOperands = item.conditions.flatMap Constraint.ownOperands
  | .table .. => by rw [ownOperands, conditions, List.flatMap_nil]
  | .subquery .. => by rw [ownOperands, conditions, List.flatMap_nil]
  | .join left kind natural right condition span => by
    have first := ownOperands_eq left
    have second := ownOperands_eq right
    cases condition <;> simp [ownOperands, conditions, JoinCondition.constraint?, first, second]

/-- The faults of one query, with those of its subqueries as they are resolved. -/
theorem SelectQuery.faults_eq (q : SelectQuery) (c : Context) (hc : c = q.inner tables named outer) :
    (q.resolution tables named outer).faults = (FromItem.relations tables named outer q.source).2 ++
      faultsOf tables ((q.source.flatMap FromItem.sharedColumns).map fun column => ⟨.shared column, none, c⟩) ++
      faultsOf tables (q.clause.items.filterMap (Occurrence.allOf? c)) ++
      Scope.columnFaults c.scopes [] (q.source.flatMap FromItem.ownOperands ++
        q.clause.items.flatMap SelectItem.ownOperands ++ q.filter.toList.flatMap Constraint.ownOperands ++
        q.having.toList.flatMap Constraint.ownOperands) ++
      (FromItem.subqueryFaults tables named c.scopes q.source ++
        q.filter.toList.flatMap (Constraint.subqueryFaults tables named c.scopes) ++
        q.having.toList.flatMap (Constraint.subqueryFaults tables named c.scopes)) ++
      Scope.columnFaults c.scopes (q.outputs tables named) (q.groupBy ++ q.orderBy.map OrderItem.expr) := by
  obtain ⟨clause, source, filter, groupBy, having, orderBy, offset, span⟩ := q
  have own : c.scopes.head? = some (FromItem.scope tables named source) := by
    rw [hc]
    rfl
  have scopes : c.scopes = FromItem.scope tables named source :: outer := by
    rw [hc]
    rfl
  have seen : (FromItem.relations tables named outer source).1 = _ := FromItem.relations_scope named source
  rw [← sharedFaults_eq c own, ← allOfFaults_eq c own, scopes, SelectQuery.outputs, SelectQuery.resolution.eq_def,
    ← seen]
  cases filter <;> cases having <;> simp

/-- What a query reads from is at fault where its tables and the subqueries beside them are. -/
theorem leaves_faults_perm (c : Context) (leaves : List FromItem) :
    (leaves.flatMap (FromItem.siteFaults tables c.named outer)).Perm
      (faultsOf tables (leaves.filterMap (Occurrence.table? c)) ++
        ((leaves.filterMap FromItem.query?).map fun query => ⟨c.named, outer, query⟩).flatMap (Site.faults tables)) := by
  have tablesOf : faultsOf tables (leaves.filterMap (Occurrence.table? c)) =
      leaves.flatMap fun leaf => faultsOf tables (Occurrence.table? ⟨c.named, [], []⟩ leaf).toList := by
    rw [List.filterMap_eq_flatMap_toList, faultsOf_flatMap]
    apply List.flatMap_congr
    intro leaf _
    cases leaf <;> rfl
  rw [tablesOf, List.flatMap_map, List.filterMap_eq_flatMap_toList, List.flatMap_assoc]
  exact (List.flatMap_append_perm ..).symm

/-- If what is resolved inside a query is reported as the rules say, then so is the query. -/
theorem SelectQuery.siteFaults_perm {q : SelectQuery} {scopes : List Scope}
    (hscopes : scopes = (q.inner tables named outer).scopes)
    (sources : (FromItem.relations tables named outer q.source).2.Perm
      (q.leaves.flatMap (FromItem.siteFaults tables named outer)))
    (joins : (FromItem.subqueryFaults tables named scopes q.source).Perm
      ((q.source.flatMap FromItem.conditions).flatMap (Constraint.siteFaults tables named scopes)))
    (filtered : (q.filter.toList.flatMap (Constraint.subqueryFaults tables named scopes)).Perm
      (q.filter.toList.flatMap (Constraint.siteFaults tables named scopes)))
    (grouped : (q.having.toList.flatMap (Constraint.subqueryFaults tables named scopes)).Perm
      (q.having.toList.flatMap (Constraint.siteFaults tables named scopes))) :
    (q.resolution tables named outer).faults.Perm (q.siteFaults tables named outer) := by
  subst hscopes
  have leaves : (q.leaves.flatMap (FromItem.siteFaults tables named outer)).Perm
      (faultsOf tables (q.leaves.filterMap (Occurrence.table? (q.inner tables named outer))) ++
        ((q.leaves.filterMap FromItem.query?).map fun query => (⟨named, outer, query⟩ : Site)).flatMap
          (Site.faults tables)) :=
    leaves_faults_perm (q.inner tables named outer) q.leaves
  have own : q.source.flatMap FromItem.ownOperands =
      (q.source.flatMap FromItem.conditions).flatMap Constraint.ownOperands := by
    rw [List.flatMap_assoc]
    exact List.flatMap_congr fun item _ => FromItem.ownOperands_eq item
  have inside := columnFaults_eq tables (q.inner tables named outer)
  have last := columnFaults_eq tables { q.inner tables named outer with results := q.outputs tables named }
  have below : (((q.conditions.flatMap Constraint.queries).map fun query =>
      (⟨named, (q.inner tables named outer).scopes, query⟩ : Site)).flatMap (Site.faults tables)) =
        q.conditions.flatMap (Constraint.siteFaults tables named (q.inner tables named outer).scopes) := by
    rw [List.flatMap_map, List.flatMap_assoc]
    rfl
  have unnamed : (q.inner tables named outer).results = [] := rfl
  rw [q.faults_eq _ rfl, own, siteFaults, occurrences, sites]
  simp only [faultsOf_append, ← inside, ← last, unnamed, List.flatMap_append, below]
  simp only [columnFaults_append, conditions, List.flatMap_append]
  -- Both sides are sums of the same parts in different orders, so it is enough to count.
  rw [List.perm_iff_count] at *
  intro d
  have := sources d
  have := joins d
  have := filtered d
  have := grouped d
  have := leaves d
  simp only [List.count_append] at *
  omega

mutual

theorem Query.resolution_faults (named : List Relation) (outer : List Scope) : (q : Query) →
    (q.resolution tables named outer).faults.Perm (Site.faults tables ⟨named, outer, q⟩)
  | ⟨items, body, span⟩ => by
    have before := WithItem.relations_faults named outer items
    have inside := QueryBody.resolution_faults (WithItem.visible tables named items) outer body
    have site : (Site.faults tables ⟨named, outer, ⟨items, body, span⟩⟩).Perm _ := Site.faults_perm _
    rw [Site.visible, ← WithItem.relations_visible named items] at site
    rw [← WithItem.relations_visible named items] at inside
    rw [Query.resolution]
    exact (before.append inside).trans site.symm

theorem WithItem.relations_faults (named : List Relation) (outer : List Scope) : (items : List WithItem) →
    (WithItem.relations tables named outer items).2.Perm
      ((WithItem.sites tables outer named items).flatMap (Site.faults tables))
  | [] => by
    rw [WithItem.relations]
    exact .nil
  | ⟨name, columns, query, span⟩ :: rest => by
    have here := Query.resolution_faults named outer query
    rw [WithItem.relations, WithItem.sites, List.flatMap_cons, ← Query.resolution_columns named query]
    exact here.append (WithItem.relations_faults _ outer rest)

theorem QueryBody.resolution_faults (named : List Relation) (outer : List Scope) : (b : QueryBody) →
    (b.resolution tables named outer).faults.Perm (b.siteFaults tables named outer)
  | .select query => by
    rw [QueryBody.resolution]
    simpa [QueryBody.siteFaults, QueryBody.selects, QueryBody.operations] using
      SelectQuery.resolution_faults named outer query
  | .set ⟨left, op, all, right, orderBy, offset, span⟩ => by
    have first := QueryBody.resolution_faults named outer left
    have second := QueryBody.resolution_faults named outer right
    rw [QueryBody.resolution, SetOperation.resolution, QueryBody.resolution_columns named left,
      columnFaults_eq tables ⟨named, [], left.outputs tables named⟩]
    unfold QueryBody.siteFaults at *
    rw [QueryBody.selects, QueryBody.operations, List.flatMap_append, List.flatMap_cons, List.flatMap_append]
    rw [List.perm_iff_count] at *
    intro d
    have := first d
    have := second d
    simp only [List.count_append, SetOperation.occurrences] at *
    omega

theorem SelectQuery.resolution_faults (named : List Relation) (outer : List Scope) : (q : SelectQuery) →
    (q.resolution tables named outer).faults.Perm (q.siteFaults tables named outer)
  | ⟨clause, source, filter, groupBy, having, orderBy, offset, span⟩ => by
    have sources := FromItem.relations_faults named outer source
    have joins := FromItem.subqueryFaults_perm named (FromItem.scope tables named source :: outer) source
    have filtered := Constraint.eachSubqueryFaults_perm named (FromItem.scope tables named source :: outer) filter
    have grouped := Constraint.eachSubqueryFaults_perm named (FromItem.scope tables named source :: outer) having
    exact SelectQuery.siteFaults_perm rfl sources joins filtered grouped

theorem FromItem.relations_faults (named : List Relation) (outer : List Scope) : (items : List FromItem) →
    (FromItem.relations tables named outer items).2.Perm
      ((items.flatMap FromItem.leaves).flatMap (FromItem.siteFaults tables named outer))
  | [] => by
    rw [FromItem.relations]
    exact .nil
  | item :: rest => by
    rw [FromItem.relations, List.flatMap_cons, List.flatMap_append]
    exact (FromItem.ownRelations_faults named outer item).append (FromItem.relations_faults named outer rest)

theorem FromItem.ownRelations_faults (named : List Relation) (outer : List Scope) : (item : FromItem) →
    (item.ownRelations tables named outer).2.Perm (item.leaves.flatMap (FromItem.siteFaults tables named outer))
  | .table name label span => by
    rw [FromItem.ownRelations]
    cases found : Scope.tableRelation tables named name span <;>
      simp [found, FromItem.leaves, FromItem.siteFaults, FromItem.query?, faultsOf, Occurrence.table?,
        Occurrence.fault?]
  | .subquery query label span => by
    rw [FromItem.ownRelations]
    simpa [FromItem.leaves, FromItem.siteFaults, FromItem.query?, faultsOf, Occurrence.table?] using
      Query.resolution_faults named outer query
  | .join left kind natural right condition span => by
    rw [FromItem.ownRelations, FromItem.leaves, List.flatMap_append]
    exact (FromItem.ownRelations_faults named outer left).append (FromItem.ownRelations_faults named outer right)

theorem FromItem.subqueryFaults_perm (named : List Relation) (scopes : List Scope) : (items : List FromItem) →
    (FromItem.subqueryFaults tables named scopes items).Perm
      ((items.flatMap FromItem.conditions).flatMap (Constraint.siteFaults tables named scopes))
  | [] => by
    rw [FromItem.subqueryFaults]
    exact .nil
  | item :: rest => by
    rw [FromItem.subqueryFaults, List.flatMap_cons, List.flatMap_append]
    exact (FromItem.ownSubqueryFaults_perm named scopes item).append (FromItem.subqueryFaults_perm named scopes rest)

theorem FromItem.ownSubqueryFaults_perm (named : List Relation) (scopes : List Scope) : (item : FromItem) →
    (item.ownSubqueryFaults tables named scopes).Perm
      (item.conditions.flatMap (Constraint.siteFaults tables named scopes))
  | .table .. => by
    rw [FromItem.ownSubqueryFaults]
    exact .nil
  | .subquery .. => by
    rw [FromItem.ownSubqueryFaults]
    exact .nil
  | .join left kind natural right condition span => by
    rw [FromItem.ownSubqueryFaults, FromItem.conditions, List.flatMap_append, List.flatMap_append]
    have first := FromItem.ownSubqueryFaults_perm named scopes left
    have second := FromItem.ownSubqueryFaults_perm named scopes right
    exact (first.append second).append (JoinCondition.subqueryFaults_perm named scopes condition)

theorem JoinCondition.subqueryFaults_perm (named : List Relation) (scopes : List Scope) : (c : JoinCondition) →
    (c.subqueryFaults tables named scopes).Perm
      (c.constraint?.toList.flatMap (Constraint.siteFaults tables named scopes))
  | .unstated => by
    rw [JoinCondition.subqueryFaults]
    exact .nil
  | .sharing _ => by
    rw [JoinCondition.subqueryFaults]
    exact .nil
  | .on condition => by
    rw [JoinCondition.subqueryFaults]
    simpa [JoinCondition.constraint?] using Constraint.subqueryFaults_perm named scopes condition

theorem Constraint.eachSubqueryFaults_perm (named : List Relation) (scopes : List Scope) : (c : Option Constraint) →
    (c.toList.flatMap (Constraint.subqueryFaults tables named scopes)).Perm
      (c.toList.flatMap (Constraint.siteFaults tables named scopes))
  | none => .nil
  | some c => by simpa using Constraint.subqueryFaults_perm named scopes c

theorem Constraint.subqueryFaults_perm (named : List Relation) (scopes : List Scope) : (c : Constraint) →
    (c.subqueryFaults tables named scopes).Perm (c.siteFaults tables named scopes)
  | .inQuery value query negated span => by
    rw [Constraint.subqueryFaults]
    simpa [Constraint.siteFaults, Constraint.queries] using Query.resolution_faults named scopes query
  | .nonEmpty query span => by
    rw [Constraint.subqueryFaults]
    simpa [Constraint.siteFaults, Constraint.queries] using Query.resolution_faults named scopes query
  | .not inner span => by
    rw [Constraint.subqueryFaults]
    exact Constraint.subqueryFaults_perm named scopes inner
  | .group inner span => by
    rw [Constraint.subqueryFaults]
    exact Constraint.subqueryFaults_perm named scopes inner
  | .and left right span => by
    rw [Constraint.subqueryFaults, Constraint.siteFaults, Constraint.queries, List.flatMap_append]
    exact (Constraint.subqueryFaults_perm named scopes left).append (Constraint.subqueryFaults_perm named scopes right)
  | .or left right span => by
    rw [Constraint.subqueryFaults, Constraint.siteFaults, Constraint.queries, List.flatMap_append]
    exact (Constraint.subqueryFaults_perm named scopes left).append (Constraint.subqueryFaults_perm named scopes right)
  | .comparison .. => by
    rw [Constraint.subqueryFaults]
    exact .nil
  | .between .. => by
    rw [Constraint.subqueryFaults]
    exact .nil
  | .inValues .. => by
    rw [Constraint.subqueryFaults]
    exact .nil
  | .isNull .. => by
    rw [Constraint.subqueryFaults]
    exact .nil

end

/-! ### The whole query -/

theorem Query.resolve_perm (q : Query) : (q.resolve tables).Perm (faultsOf tables (q.occurrences tables)) := by
  unfold resolve occurrences
  rw [faultsOf_flatMap]
  exact (List.mergeSort_perm _ _).trans (Query.resolution_faults [] [] q)

theorem faultsOf_eq_nil_iff {os : List Occurrence} : faultsOf tables os = [] ↔ ∀ o ∈ os, o.Bound tables := by
  simp only [faultsOf, List.filterMap_eq_nil_iff, Occurrence.fault?_eq_none_iff]

/-- The references that are not bound have one fault each, which the rules give. -/
theorem faultsOf_refused (os : List Occurrence) :
    List.Forall₂ (Occurrence.Refused tables) (os.filter fun o => ¬ o.Bound tables) (faultsOf tables os) := by
  induction os with
  | nil => exact .nil
  | cons o rest ih =>
    unfold faultsOf at *
    cases found : o.fault? tables with
    | none =>
      have bound := Occurrence.fault?_eq_none_iff.1 found
      simpa [found, bound] using ih
    | some d =>
      have unbound : ¬ o.Bound tables := by
        simp [← Occurrence.fault?_eq_none_iff, found]
      rw [List.filterMap_cons_some found, List.filter_cons_of_pos (by simpa using unbound)]
      exact .cons (Occurrence.refused_of_fault? found) ih

/-- Resolving a query reports each of its references that is not bound exactly once, with a fault that
the rules give for it, and reports nothing else; so it reports nothing if all references are bound. -/
theorem Query.resolve_occurrences (tables : List Table) (q : Query) :
    (∃ faults, (q.resolve tables).Perm faults ∧
      List.Forall₂ (Occurrence.Refused tables) ((q.occurrences tables).filter fun o => ¬ o.Bound tables) faults) ∧
    (q.resolve tables = [] ↔ ∀ o ∈ q.occurrences tables, o.Bound tables) := by
  have perm : (q.resolve tables).Perm _ := q.resolve_perm
  constructor
  · exact ⟨_, perm, faultsOf_refused _⟩
  · rw [← faultsOf_eq_nil_iff]
    constructor
    · intro none
      rw [none] at perm
      exact perm.nil_eq.symm
    · intro none
      rw [none] at perm
      exact perm.eq_nil

end SkyQuery
