import SkyQuery.Proofs.Scope.Reordered
import SkyQuery.Proofs.Tree.Walk

/-!
# The order of what a query reads from

A qualifier stands for the first relation of its name, and all else that a reference may stand for is
found in any order. `Query.resolve_reordered`: if no qualified column depends on which relation of the
name is the first, then the same is reported for a query whatever the order of the items in `FROM`.
-/

namespace SkyQuery

/-! ### Places that see the same -/

/-- What is said about a fault, without its place. -/
def Diagnostic.said (d : Diagnostic) : Code × String := (d.code, d.message)

structure Context.Alike (c c' : Context) : Prop where
  named : List.Forall₂ Relation.Alike c.named c'.named
  scopes : List.Forall₂ Scope.Alike c.scopes c'.scopes
  results : ∀ column, column ∈ c.results ↔ column ∈ c'.results

/-- One reference at places that see the same. -/
structure Occurrence.Alike (o o' : Occurrence) : Prop where
  reference : o.reference = o'.reference
  context : o.context.Alike o'.context

/-- The relations for which a qualifier may stand all have the column or all lack it, so that it does not
matter which is the first. -/
def Occurrence.Settled (o : Occurrence) : Prop :=
  ∀ table column scope, o.reference = .column { table := some table, column } →
    IsFirst (·.Exposes table) o.context.scopes scope → ∀ r ∈ scope, ∀ r' ∈ scope, r.name.denotedBy table = true →
      r'.name.denotedBy table = true → r.hasColumn column = r'.hasColumn column

section Alike

variable {tables : List Table} {named named' : List Relation} {scope scope' : Scope} {scopes scopes' : List Scope}
  {results results' : List Identifier} {column : Identifier} {name : TableName} {span span' : Option Span}

theorem Scope.Alike.any_hasColumn (h : scope.Alike scope') (column : Identifier) :
    (scope.any fun r => r.hasColumn column) = scope'.any fun r => r.hasColumn column :=
  Matches.any_eq h fun _ _ here => here.hasColumn column

theorem Scope.Alike.any_denotedBy (h : scope.Alike scope') :
    (scope.any fun r => r.name.denotedBy name) = scope'.any fun r => r.name.denotedBy name :=
  Matches.any_eq h fun _ _ here => by rw [here.name]

theorem tableFault_alike (h : List.Forall₂ Relation.Alike named named') :
    ((Occurrence.mk (.table name) span ⟨named, scopes, results⟩).fault? tables).map Diagnostic.said =
      ((Occurrence.mk (.table name) span' ⟨named', scopes', results'⟩).fault? tables).map Diagnostic.said := by
  have query := namedQuery?_alike h name
  simp only [Occurrence.fault?, tableRelation_eq]
  revert query
  generalize namedQuery? named name = found
  generalize namedQuery? named' name = found'
  rintro (_ | _)
  · rfl
  · cases Table.named tables name with
    | nil => rfl
    | cons t rest => cases rest <;> rfl

theorem plainFault_alike (h : List.Forall₂ Scope.Alike scopes scopes')
    (same : ∀ column, column ∈ results ↔ column ∈ results') :
    (Scope.plainFault? results column span scopes).map Diagnostic.said =
      (Scope.plainFault? results' column span' scopes').map Diagnostic.said := by
  have innermost := find?_rel h fun _ _ here => Scope.Alike.any_hasColumn here column
  rw [plainFault?_eq, plainFault?_eq]
  revert innermost
  generalize scopes.find? _ = found
  generalize scopes'.find? _ = found'
  rintro (here | _)
  · dsimp only
    rw [Matches.countP_eq here fun _ _ alike => alike.hasColumn column]
    split <;> rfl
  · have named : (results.any fun r => r.denotes column) = results'.any fun r => r.denotes column := by
      rw [Bool.eq_iff_iff]
      simp only [List.any_eq_true, same]
    rw [named]
    dsimp only
    split <;> rfl

/-- The relation that a qualifier names has the column in one order if it has in another. -/
theorem qualified_alike (h : List.Forall₂ Scope.Alike scopes scopes')
    (settled : ∀ scope, IsFirst (·.Exposes name) scopes scope → ∀ r ∈ scope, ∀ r' ∈ scope,
      r.name.denotedBy name = true → r'.name.denotedBy name = true → r.hasColumn column = r'.hasColumn column) :
    Option.Rel (fun r r' => r.hasColumn column = r'.hasColumn column) (Scope.relation? scopes name)
      (Scope.relation? scopes' name) := by
  unfold Scope.relation?
  induction h with
  | nil => exact .none
  | @cons scope scope' outer outer' here _ ih =>
    rw [List.findSome?_cons, List.findSome?_cons]
    cases found : scope.find? fun r => r.name.denotedBy name with
    | none =>
      have unexposed : ¬ scope.Exposes name := by
        rw [exposes_iff]
        simpa using found
      have found' : scope'.find? (fun r => r.name.denotedBy name) = none := by
        rw [exposes_iff, Scope.Alike.any_denotedBy here] at unexposed
        simpa using unexposed
      rw [found']
      refine ih fun inner first => settled inner ?_
      obtain ⟨exposes, before, after, rfl, none⟩ := first
      exact ⟨exposes, scope :: before, after, rfl, List.forall_mem_cons.2 ⟨unexposed, none⟩⟩
    | some r =>
      have exposes : scope.Exposes name := ⟨r, List.mem_of_find?_eq_some found, by simpa using List.find?_some found⟩
      have exposes' : scope'.Exposes name := by rwa [exposes_iff, ← Scope.Alike.any_denotedBy here, ← exposes_iff]
      obtain ⟨r', found'⟩ := Option.isSome_iff_exists.1 (List.find?_isSome.2 exposes')
      rw [found']
      -- In the other order another relation of the name may be the first: `r'`, whose twin here is not `r`.
      obtain ⟨twin, member, alike⟩ := Matches.exists_left here (List.mem_of_find?_eq_some found')
      refine .some ((settled scope ⟨exposes, [], outer, rfl, by simp⟩ r (List.mem_of_find?_eq_some found) twin member
        (by simpa using List.find?_some found) ?_).trans (alike.hasColumn column))
      rw [alike.name]
      simpa using List.find?_some found'

theorem head?_alike (h : List.Forall₂ Scope.Alike scopes scopes') : Option.Rel Scope.Alike scopes.head? scopes'.head? := by
  cases h with
  | nil => exact .none
  | cons here _ => exact .some here

/-- The same is said about a reference at places that see the same. -/
theorem Occurrence.Alike.said {o o' : Occurrence} (h : o.Alike o') (settled : o.Settled) :
    (o.fault? tables).map Diagnostic.said = (o'.fault? tables).map Diagnostic.said := by
  obtain ⟨reference, span, named, scopes, results⟩ := o
  obtain ⟨reference', span', named', scopes', results'⟩ := o'
  obtain ⟨rfl, alike⟩ := h
  have own := head?_alike alike.scopes
  cases reference with
  | table name => exact tableFault_alike alike.named
  | column ref =>
    obtain ⟨table, column⟩ := ref
    cases table with
    | none => exact plainFault_alike alike.scopes alike.results
    -- The relations that are found may differ, but not in whether they have the column.
    | some table =>
      have found := qualified_alike alike.scopes (settled table column · rfl)
      simp only [Occurrence.fault?, Scope.columnFault?]
      revert found
      generalize Scope.relation? scopes table = r
      generalize Scope.relation? scopes' table = r'
      rintro (same | _)
      · dsimp only
        rw [same]
        split <;> rfl
      · rfl
  | allOf table =>
    simp only [Occurrence.fault?]
    revert own
    generalize scopes.head? = found
    generalize scopes'.head? = found'
    rintro (here | _)
    · simp only [Option.any_some, Scope.Alike.any_denotedBy here]
      split <;> rfl
    · rfl
  | shared column =>
    simp only [Occurrence.fault?]
    revert own
    generalize scopes.head? = found
    generalize scopes'.head? = found'
    rintro (here | _)
    · simp only [Option.any_some, Scope.Alike.any_hasColumn here column]
      split <;> rfl
    · rfl

end Alike

/-! ### The references of reordered queries -/

theorem Operand.children_unplaced (o : Operand) : o.unplaced.children = o.children.map unplaced := by
  cases o
  case aggregate fn distinct arg span => cases arg <;> rfl
  case geometry fn sys args span => cases sys <;> simp [unplaced, children, allUnplaced_eq_map]
  all_goals simp [unplaced, children, allUnplaced_eq_map]

theorem Operand.nodes_unplaced (o : Operand) : o.unplaced.nodes = o.nodes.map unplaced := by
  induction o using byParts with
  | step o ih =>
    rw [nodes_eq, nodes_eq, children_unplaced, List.map_cons, List.map_flatMap, List.flatMap_map]
    rw [List.flatMap_congr ih]

section Occurrences

variable {tables : List Table} {named named' : List Relation} {outer outer' : List Scope} {c c' : Context}

theorem columns_alike (h : c.Alike c') {os os' : List Operand} (same : Matches Operand.Same os os') :
    Matches Occurrence.Alike (Occurrence.columns c os) (Occurrence.columns c' os') := by
  have nodes : Matches Operand.Same (Operand.allNodes os) (Operand.allNodes os') := by
    rw [Operand.allNodes_eq_flatMap, Operand.allNodes_eq_flatMap]
    refine same.flatMap fun o o' here => matches_of_forall₂ (forall₂_of_map_eq ?_)
    rw [← Operand.nodes_unplaced, ← Operand.nodes_unplaced, here.eq]
  refine nodes.filterMap fun o o' here => ?_
  rw [here.asColumn?]
  cases o'.asColumn? with
  | none => exact .none
  | some ref => exact .some ⟨rfl, h⟩

theorem FromItem.Reordered.leaves (item : FromItem) {item' : FromItem} (h : item.Reordered item') :
    List.Forall₂ FromItem.Reordered item.leaves item'.leaves := by
  cases item with
  | table name label span => cases h with | table => exact .cons .table .nil
  | subquery q label span => cases h with | subquery query => exact .cons (.subquery query) .nil
  | join l kind natural r c span =>
    cases h with
    | join left right _ => exact List.rel_append (FromItem.Reordered.leaves l left) (FromItem.Reordered.leaves r right)

theorem FromItem.Reordered.sharedColumns (item : FromItem) {item' : FromItem} (h : item.Reordered item') :
    item.sharedColumns = item'.sharedColumns := by
  cases item with
  | join l kind natural r c span =>
    cases h with
    | join left right condition =>
      have first := FromItem.Reordered.sharedColumns l left
      have second := FromItem.Reordered.sharedColumns r right
      cases condition <;> simp [FromItem.sharedColumns, first, second]
  | _ => cases h; rfl

theorem FromItem.Reordered.conditions (item : FromItem) {item' : FromItem} (h : item.Reordered item') :
    List.Forall₂ Constraint.Reordered item.conditions item'.conditions := by
  cases item with
  | join l kind natural r c span =>
    cases h with
    | join left right condition =>
      refine List.rel_append (List.rel_append (FromItem.Reordered.conditions l left)
        (FromItem.Reordered.conditions r right)) ?_
      cases condition with
      | on condition => exact .cons condition .nil
      | _ => exact .nil
  | _ => cases h; exact .nil

theorem Constraint.Reordered.ownOperands (c : Constraint) {c' : Constraint} (h : c.Reordered c') :
    List.Forall₂ Operand.Same c.ownOperands c'.ownOperands := by
  cases c with
  | comparison l op r span => cases h with | comparison left right => exact .cons left (.cons right .nil)
  | between o l u negated span =>
    cases h with | between value low high => exact .cons value (.cons low (.cons high .nil))
  | inValues o os negated span => cases h with | inValues value values => exact .cons value (forall₂_of_map_eq values)
  | inQuery o q negated span => cases h with | inQuery value _ => exact .cons value .nil
  | isNull o negated span => cases h with | isNull value => exact .cons value .nil
  | nonEmpty q span => cases h with | nonEmpty _ => exact .nil
  | not c span => cases h with | not inner => exact (Constraint.Reordered.ownOperands c inner :)
  | group c span => cases h with | group inner => exact (Constraint.Reordered.ownOperands c inner :)
  | and l r span =>
    cases h with
    | and left right =>
      exact List.rel_append (Constraint.Reordered.ownOperands l left) (Constraint.Reordered.ownOperands r right)
  | or l r span =>
    cases h with
    | or left right =>
      exact List.rel_append (Constraint.Reordered.ownOperands l left) (Constraint.Reordered.ownOperands r right)

theorem Constraint.Reordered.queries (c : Constraint) {c' : Constraint} (h : c.Reordered c') :
    List.Forall₂ Query.Reordered c.queries c'.queries := by
  cases c with
  | inQuery o q negated span => cases h with | inQuery _ query => exact .cons query .nil
  | nonEmpty q span => cases h with | nonEmpty query => exact .cons query .nil
  | not c span => cases h with | not inner => exact (Constraint.Reordered.queries c inner :)
  | group c span => cases h with | group inner => exact (Constraint.Reordered.queries c inner :)
  | and l r span =>
    cases h with
    | and left right => exact List.rel_append (Constraint.Reordered.queries l left) (Constraint.Reordered.queries r right)
  | or l r span =>
    cases h with
    | or left right => exact List.rel_append (Constraint.Reordered.queries l left) (Constraint.Reordered.queries r right)
  | _ => cases h; exact .nil

theorem table?_alike (h : c.Alike c') {leaf leaf' : FromItem} (same : leaf.Reordered leaf') :
    Option.Rel Occurrence.Alike (Occurrence.table? c leaf) (Occurrence.table? c' leaf') := by
  cases same with
  | table => exact .some ⟨rfl, h⟩
  | _ => exact .none

theorem allOf?_alike (h : c.Alike c') {item item' : SelectItem} (same : item.unplaced = item'.unplaced) :
    Option.Rel Occurrence.Alike (Occurrence.allOf? c item) (Occurrence.allOf? c' item') := by
  cases item <;> cases item' <;>
    simp only [SelectItem.unplaced, reduceCtorEq, SelectItem.allOf.injEq, and_true] at same
  · exact .none
  · exact same ▸ .some ⟨rfl, h⟩
  · exact .none

/-- The clauses of a reordered query see the same. -/
theorem SelectQuery.Reordered.inner {q q' : SelectQuery} (h : q.Reordered q')
    (hn : List.Forall₂ Relation.Alike named named') (ho : List.Forall₂ Scope.Alike outer outer') :
    (q.inner tables named outer).Alike (q'.inner tables named' outer') :=
  ⟨hn, .cons (h.scope hn) ho, fun _ => Iff.rfl⟩

theorem SelectQuery.Reordered.leaves {q q' : SelectQuery} (h : q.Reordered q') :
    Matches FromItem.Reordered q.leaves q'.leaves :=
  h.source.flatMap fun item _ here => matches_of_forall₂ (FromItem.Reordered.leaves item here)

theorem SelectQuery.Reordered.conditions {q q' : SelectQuery} (h : q.Reordered q') :
    Matches Constraint.Reordered q.conditions q'.conditions := by
  have joins : Matches Constraint.Reordered (q.source.flatMap FromItem.conditions)
      (q'.source.flatMap FromItem.conditions) :=
    h.source.flatMap fun item _ here => matches_of_forall₂ (FromItem.Reordered.conditions item here)
  cases h with
  | intro _ _ _ _ filtered _ grouped => exact (joins.append (matches_toList filtered)).append (matches_toList grouped)

theorem SelectQuery.Reordered.items {q q' : SelectQuery} (h : q.Reordered q') :
    List.Forall₂ (fun item item' => item.unplaced = item'.unplaced) q.clause.items q'.clause.items := by
  cases h with
  | intro _ select => exact forall₂_of_map_eq (congrArg SelectClause.items select)

theorem SelectItem.ownOperands_same {item item' : SelectItem} (same : item.unplaced = item'.unplaced) :
    Matches Operand.Same item.ownOperands item'.ownOperands := by
  cases item <;> cases item' <;>
    simp only [SelectItem.unplaced, reduceCtorEq, SelectItem.expr.injEq] at same
  · exact .zero
  · exact .zero
  · exact matches_of_forall₂ (.cons same.1 .nil)

theorem orderBy_same {order order' : List OrderItem}
    (same : order.map OrderItem.unplaced = order'.map OrderItem.unplaced) :
    Matches Operand.Same (order.map OrderItem.expr) (order'.map OrderItem.expr) := by
  refine matches_of_forall₂ (forall₂_of_map_eq ?_)
  have expr := congrArg (List.map OrderItem.expr) same
  rwa [List.map_map, List.map_map] at expr ⊢

theorem SelectQuery.Reordered.occurrences {q q' : SelectQuery} (h : q.Reordered q')
    (hn : List.Forall₂ Relation.Alike named named') (ho : List.Forall₂ Scope.Alike outer outer') :
    Matches Occurrence.Alike (q.occurrences tables named outer) (q'.occurrences tables named' outer') := by
  have inner : (q.inner tables named outer).Alike (q'.inner tables named' outer') := h.inner hn ho
  have last : Context.Alike { q.inner tables named outer with results := q.outputs tables named }
      { q'.inner tables named' outer' with results := q'.outputs tables named' } :=
    ⟨inner.named, inner.scopes, SelectQuery.Reordered.outputs hn q h⟩
  have sources := h.leaves.filterMap fun _ _ here => table?_alike inner here
  have shared : Matches Eq (q.source.flatMap FromItem.sharedColumns) (q'.source.flatMap FromItem.sharedColumns) :=
    h.source.flatMap fun item _ here => by
      rw [FromItem.Reordered.sharedColumns item here]
      exact Multiset.rel_eq.2 rfl
  have all := (matches_of_forall₂ h.items).filterMap fun _ _ here => allOf?_alike inner here
  have own : Matches Operand.Same
      (q.conditions.flatMap Constraint.ownOperands ++ q.clause.items.flatMap SelectItem.ownOperands)
      (q'.conditions.flatMap Constraint.ownOperands ++ q'.clause.items.flatMap SelectItem.ownOperands) := by
    have conditions := h.conditions.flatMap fun c _ here => matches_of_forall₂ (Constraint.Reordered.ownOperands c here)
    exact conditions.append ((matches_of_forall₂ h.items).flatMap fun _ _ here => SelectItem.ownOperands_same here)
  have tail : Matches Operand.Same (q.groupBy ++ q.orderBy.map OrderItem.expr)
      (q'.groupBy ++ q'.orderBy.map OrderItem.expr) := by
    cases h with
    | intro _ _ _ _ _ groupBy _ orderBy =>
      exact (matches_of_forall₂ (forall₂_of_map_eq groupBy)).append (orderBy_same orderBy)
  have mentioned := shared.map fun column column' same =>
    show Occurrence.Alike ⟨.shared column, none, q.inner tables named outer⟩
      ⟨.shared column', none, q'.inner tables named' outer'⟩ from ⟨congrArg Reference.shared same, inner⟩
  exact ((((sources.append mentioned).append all).append (columns_alike inner own))).append (columns_alike last tail)

/-! ### Sites -/

/-- Set operations whose results have the same names, with the same order. -/
structure SetOperation.Alike (o o' : SetOperation) : Prop where
  left : o.left.Reordered o'.left
  orderBy : o.orderBy.map OrderItem.unplaced = o'.orderBy.map OrderItem.unplaced

theorem QueryBody.Reordered.selects (b : QueryBody) {b' : QueryBody} (h : b.Reordered b') :
    List.Forall₂ SelectQuery.Reordered b.selects b'.selects := by
  cases b with
  | select q => cases h with | select query => exact .cons query .nil
  | set o =>
    obtain ⟨l, _, _, r, _, _, _⟩ := o
    cases h with
    | set left right =>
      rw [QueryBody.selects, QueryBody.selects]
      exact List.rel_append (QueryBody.Reordered.selects l left) (QueryBody.Reordered.selects r right)

theorem QueryBody.Reordered.operations (b : QueryBody) {b' : QueryBody} (h : b.Reordered b') :
    List.Forall₂ SetOperation.Alike b.operations b'.operations := by
  cases b with
  | select q => cases h with | select _ => exact .nil
  | set o =>
    obtain ⟨l, _, _, r, _, _, _⟩ := o
    cases h with
    | set left right orderBy =>
      rw [QueryBody.operations, QueryBody.operations]
      refine .cons ⟨left, orderBy⟩ ?_
      exact List.rel_append (QueryBody.Reordered.operations l left) (QueryBody.Reordered.operations r right)

/-- Reordered queries at places that see the same. -/
structure Site.Alike (s s' : Site) : Prop where
  named : List.Forall₂ Relation.Alike s.named s'.named
  outer : List.Forall₂ Scope.Alike s.outer s'.outer
  query : s.query.Reordered s'.query

theorem SelectQuery.Reordered.sites {q q' : SelectQuery} (h : q.Reordered q')
    (hn : List.Forall₂ Relation.Alike named named') (ho : List.Forall₂ Scope.Alike outer outer') :
    Matches Site.Alike (q.sites tables named outer) (q'.sites tables named' outer') := by
  have leaf {item item' : FromItem} (here : item.Reordered item') :
      Option.Rel Query.Reordered item.query? item'.query? := by
    cases here with
    | subquery query => exact .some query
    | _ => exact .none
  have sources := h.leaves.filterMap fun _ _ here => leaf here
  have below := h.conditions.flatMap fun c c' here => matches_of_forall₂ (Constraint.Reordered.queries c here)
  have inner : (q.inner tables named outer).Alike (q'.inner tables named' outer') := h.inner hn ho
  exact (sources.map fun _ _ here => ⟨hn, ho, here⟩).append (below.map fun _ _ here => ⟨hn, inner.scopes, here⟩)

theorem WithItem.Reordered.sites {items items' : List WithItem} (h : List.Forall₂ WithItem.Reordered items items')
    (ho : List.Forall₂ Scope.Alike outer outer') : ∀ {named named'}, List.Forall₂ Relation.Alike named named' →
      Matches Site.Alike (WithItem.sites tables outer named items) (WithItem.sites tables outer' named' items') := by
  induction h with
  | nil => exact fun _ => .zero
  | cons here others ih =>
    intro named named' hn
    cases here with
    | @intro name columns q q' span span' query =>
      have step : List.Forall₂ Relation.Alike (WithItem.visible tables named [⟨name, columns, q, span⟩])
          (WithItem.visible tables named' [⟨name, columns, q', span'⟩]) :=
        WithItem.Reordered.visible hn _ (.cons (.intro query) .nil)
      rw [WithItem.visible, WithItem.visible, WithItem.visible, WithItem.visible] at step
      exact .cons ⟨hn, ho, query⟩ (ih step)

section Sites

variable {s s' : Site}

theorem Site.Alike.visible (h : s.Alike s') :
    List.Forall₂ Relation.Alike (s.visible tables) (s'.visible tables) :=
  WithItem.Reordered.visible h.named _ h.query.withItems

theorem Site.Alike.occurrences (h : s.Alike s') :
    Matches Occurrence.Alike (s.occurrences tables) (s'.occurrences tables) := by
  have visible : List.Forall₂ Relation.Alike (s.visible tables) (s'.visible tables) := h.visible
  refine Matches.append ?_ ?_
  · refine (matches_of_forall₂ (QueryBody.Reordered.selects _ h.query.body)).flatMap fun q q' here => ?_
    exact here.occurrences visible h.outer
  · refine (matches_of_forall₂ (QueryBody.Reordered.operations _ h.query.body)).flatMap fun o o' here => ?_
    exact columns_alike ⟨visible, .nil, QueryBody.Reordered.outputs visible _ here.left⟩ (orderBy_same here.orderBy)

theorem Site.Alike.children (h : s.Alike s') : Matches Site.Alike (s.children tables) (s'.children tables) := by
  refine (WithItem.Reordered.sites h.query.withItems h.outer h.named).append ?_
  refine (matches_of_forall₂ (QueryBody.Reordered.selects _ h.query.body)).flatMap fun q q' here => ?_
  exact here.sites h.visible h.outer

theorem Site.Alike.all {s s' : Site} (h : s.Alike s') : Matches Site.Alike (s.all tables) (s'.all tables) := by
  have below : Matches (fun c c' => Matches Site.Alike (c.all tables) (c'.all tables)) (s.children tables)
      (s'.children tables) :=
    Multiset.Rel.mono h.children fun c member c' _ here => Site.Alike.all here
  unfold Site.all
  rw [descent_eq, descent_eq]
  exact .cons h (below.flatMap fun _ _ here => here)
termination_by sizeOf s.query
decreasing_by exact Site.sizeOf_lt_of_mem_children s c (Multiset.mem_coe.1 member)

end Sites

end Occurrences

/-! ### Reports -/

/-- What is reported for a query, places apart, does not depend on the order of the items in its `FROM`
clauses, if no qualified column of the query depends on which relation of a name is the first. -/
theorem Query.resolve_reordered (tables : List Table) {q q' : Query} (reordered : q.Reordered q')
    (settled : ∀ o ∈ q.occurrences tables, o.Settled) :
    ((q.resolve tables).map Diagnostic.said).Perm ((q'.resolve tables).map Diagnostic.said) := by
  have sites : Site.Alike ⟨[], [], q⟩ ⟨[], [], q'⟩ := ⟨.nil, .nil, reordered⟩
  have references : Matches Occurrence.Alike (q.occurrences tables) (q'.occurrences tables) :=
    sites.all.flatMap fun _ _ here => here.occurrences
  have same : Matches (fun o o' => (o.fault? tables).map Diagnostic.said = (o'.fault? tables).map Diagnostic.said)
      (q.occurrences tables) (q'.occurrences tables) :=
    Multiset.Rel.mono references fun o member _ _ here => here.said (settled o (Multiset.mem_coe.1 member))
  have said (q : Query) : ((q.resolve tables).map Diagnostic.said).Perm
      ((q.occurrences tables).flatMap fun o => ((o.fault? tables).map Diagnostic.said).toList) := by
    refine (q.resolve_perm.map _).trans ?_
    rw [faultsOf, List.map_filterMap, List.filterMap_eq_flatMap_toList]
  exact (said q).trans ((same.flatMap_perm fun _ _ here => congrArg Option.toList here).trans (said q').symm)

theorem Query.resolve_reordered_tables :
    let tables : List Table := [⟨none, some "s", "t", ["x"]⟩, ⟨none, some "u", "t", ["x", "y"]⟩]
    let s : TableName := { schema := some ⟨"s", false⟩, table := ⟨"t", false⟩ }
    let u : TableName := { schema := some ⟨"u", false⟩, table := ⟨"t", false⟩ }
    let x : ColumnRef := { table := some { table := ⟨"t", false⟩ }, column := ⟨"x", false⟩ }
    let clause : SelectClause :=
      ⟨false, none, [.expr (.column x none) none, .expr (.column { column := ⟨"z", false⟩ } none) none], none⟩
    let q : Query :=
      ⟨[], .select ⟨clause, [.table s none none, .table u none none], none, [], none, [], none, none⟩, none⟩
    let q' : Query :=
      ⟨[], .select ⟨clause, [.table u none none, .table s none none], none, [], none, [], none, none⟩, none⟩
    q.Reordered q' ∧ (∀ o ∈ q.occurrences tables, o.Settled) ∧
      ((q.resolve tables).map Diagnostic.said).Perm ((q'.resolve tables).map Diagnostic.said) := by
  intro tables s u x clause q q'
  have reordered : q.Reordered q' :=
    .intro .nil (.select (.of_perm _ (.swap ..)))
  let inner : Context := ⟨[], [FromItem.scope tables [] [.table s none none, .table u none none]], []⟩
  have sites : Site.all tables ⟨[], [], q⟩ = [⟨[], [], q⟩] := by
    unfold Site.all
    rw [descent_eq]
    rfl
  have listed : Site.occurrences tables ⟨[], [], q⟩ = [⟨.table s, none, inner⟩, ⟨.table u, none, inner⟩,
      ⟨.column x, none, inner⟩, ⟨.column { column := ⟨"z", false⟩ }, none, inner⟩] := rfl
  have all : ∀ scope ∈ inner.scopes, ∀ r ∈ scope, r.hasColumn x.column = true := by decide
  have settled : ∀ o ∈ q.occurrences tables, o.Settled := by
    intro o member table column scope qualified innermost r found r' found' _ _
    rw [Query.occurrences, sites, List.flatMap_singleton, listed] at member
    simp only [List.mem_cons, List.not_mem_nil, or_false] at member
    have mentioned : column = x.column ∧ o.context = inner := by
      rcases member with rfl | rfl | rfl | rfl
      · cases qualified
      · cases qualified
      · exact ⟨(congrArg ColumnRef.column (Reference.column.inj qualified)).symm, rfl⟩
      · cases qualified
    obtain ⟨rfl, seen⟩ := mentioned
    have here : scope ∈ inner.scopes := by
      obtain ⟨-, before, after, split, -⟩ := innermost
      rw [← seen, split]
      exact List.mem_append_right _ (List.mem_cons_self ..)
    exact (all scope here r found).trans (all scope here r' found').symm
  exact ⟨reordered, settled, Query.resolve_reordered tables reordered settled⟩

/-- Two tables of a name, of which the first one decides whether the column is known. -/
theorem Query.resolve_reordered_unlike :
    let tables : List Table := [⟨none, some "s", "t", ["x"]⟩, ⟨none, some "u", "t", ["y"]⟩]
    let x : ColumnRef := { table := some { table := ⟨"t", false⟩ }, column := ⟨"x", false⟩ }
    ((readQuery .v21 "SELECT t.x FROM s.t, u.t").toOption.map (Query.resolve tables)) = some [] ∧
      ((readQuery .v21 "SELECT t.x FROM u.t, s.t").toOption.map (Query.resolve tables)) =
        some [Scope.unknownColumn x (some ⟨1, 8, 1, 11⟩)] := by
  decide +kernel

end SkyQuery
