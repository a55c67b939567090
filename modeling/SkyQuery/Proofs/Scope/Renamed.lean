import SkyQuery.Proofs.Check.Rules
import SkyQuery.Proofs.Scope.Reordered
import SkyQuery.Proofs.Tree.Renamed

/-!
# Letter case and the order of metadata

Resolving finds names by comparing identifiers and nothing else, and where it looks for a published table
or for a column of a relation, it looks at all of them. So it does the same for queries whose identifiers
are `Renamed` by a relation that the comparisons respect, and for tables that are published in another
order: `Query.resolution_renamed` carries the two runs through every scope side by side.

`Query.resolve_recased`: the letter case of regular identifiers does not matter.
`Query.resolve_republished`: the order of the tables and of their columns does not matter.
-/

namespace SkyQuery

/-! ### Identifiers that stand for the same -/

/-- Related identifiers stand for the same identifiers and for the same published names. -/
structure Identifier.Congruence (I : Identifier → Identifier → Prop) : Prop where
  denotes {i i' j j' : Identifier} : I i i' → I j j' → i.denotes j = i'.denotes j'
  denotesName {i i' : Identifier} (name : String) : I i i' → i.denotesName name true = i'.denotesName name true
  published (name : String) : I ⟨name, false⟩ ⟨name, false⟩

namespace Identifier

theorem congruence_eq : Congruence Eq where
  denotes here there := by rw [here, there]
  denotesName name here := by rw [here]
  published _ := rfl

theorem sameLetters_congr {a a' b b' : String} (ha : Text.sameLetters a a' = true) (hb : Text.sameLetters b b' = true) :
    Text.sameLetters a b = Text.sameLetters a' b' := by
  unfold Text.sameLetters at *
  rw [beq_iff_eq.1 ha, beq_iff_eq.1 hb]

theorem congruence_recased : Congruence Recased where
  denotes here there := by
    simp only [denotes, here.left, here.right, there.left, there.right, Bool.or_self, Bool.false_eq_true, if_false]
    exact sameLetters_congr here.name there.name
  denotesName name here := by
    simp only [denotesName, here.left, here.right, Bool.false_and, Bool.false_eq_true, if_false]
    exact sameLetters_congr here.name (Text.sameLetters_refl name)
  published name := ⟨rfl, rfl, Text.sameLetters_refl name⟩

end Identifier

/-! ### Tables in another order -/

/-- One table with its columns in some order. -/
structure Table.Reordered (t t' : Table) : Prop where
  catalog : t.catalog = t'.catalog
  schema : t.schema = t'.schema
  name : t.name = t'.name
  columns : t.columns.Perm t'.columns

/-- Relations under related names, whose columns match in some order. -/
structure Relation.Renamed (I : Identifier → Identifier → Prop) (r r' : Relation) : Prop where
  name : r.name.Renamed I r'.name
  columns : Matches I r.columns r'.columns

/-- The same fault, of which the message may write the names in another way. -/
structure Diagnostic.Renamed (I : Identifier → Identifier → Prop) (d d' : Diagnostic) : Prop where
  code : d.code = d'.code
  span : d.span = d'.span
  eq : Subrelation I Eq → d = d'

structure Resolution.Renamed (I : Identifier → Identifier → Prop) (r r' : Resolution) : Prop where
  columns : Matches I r.columns r'.columns
  faults : List.Forall₂ (Diagnostic.Renamed I) r.faults r'.faults

/-- Relations with the faults that were met on the way to them. -/
structure Exposed.Renamed (I : Identifier → Identifier → Prop) (e e' : List Relation × List Diagnostic) : Prop where
  relations : List.Forall₂ (Relation.Renamed I) e.1 e'.1
  faults : List.Forall₂ (Diagnostic.Renamed I) e.2 e'.2

variable {I : Identifier → Identifier → Prop}

/-! ### Names of tables -/

section Names

variable {tables tables' : List Table} {name name' : TableName} {r r' : Relation} {column column' : Identifier}

theorem TableName.Renamed.denotedBy (hI : Identifier.Congruence I) {t t' : TableName} (h : t.Renamed I t')
    (hname : name.Renamed I name') : t.denotedBy name = t'.denotedBy name' := by
  have part {i i' j j' : Option Identifier} (here : Option.Rel I i i') (there : Option.Rel I j j') :
      partDenotes i j = partDenotes i' j' := by
    cases here with
    | none => cases there <;> rfl
    | some first =>
      cases there with
      | none => rfl
      | some second => exact hI.denotes first second
  unfold TableName.denotedBy
  rw [hI.denotes h.table hname.table, part h.schema hname.schema, part h.catalog hname.catalog]

theorem TableName.Renamed.plain (h : name.Renamed I name') :
    (name.schema.isNone && name.catalog.isNone) = (name'.schema.isNone && name'.catalog.isNone) := by
  have part {i i' : Option Identifier} (here : Option.Rel I i i') : i.isNone = i'.isNone := by cases here <;> rfl
  rw [part h.schema, part h.catalog]

theorem Table.Reordered.denotedBy (hI : Identifier.Congruence I) {t t' : Table} (h : t.Reordered t')
    (hname : name.Renamed I name') : t.denotedBy name = t'.denotedBy name' := by
  have part {i i' : Option Identifier} (here : Option.Rel I i i') (actual : Option String) :
      partDenoted i actual = partDenoted i' actual := by
    cases here with
    | none => rfl
    | some first =>
      cases actual with
      | none => rfl
      | some actual => exact hI.denotesName actual first
  unfold Table.denotedBy
  rw [h.name, h.schema, h.catalog, hI.denotesName _ hname.table, part hname.schema, part hname.catalog]

theorem Table.Reordered.relation (hI : Identifier.Congruence I) {t t' : Table} (h : t.Reordered t') :
    t.relation.Renamed I t'.relation := by
  have part (name : Option String) :
      Option.Rel I (name.map fun name => ⟨name, false⟩) (name.map fun name => ⟨name, false⟩) := by
    cases name with
    | none => exact .none
    | some name => exact .some (hI.published name)
  obtain ⟨catalog, schema, name, columns⟩ := t
  obtain ⟨_, _, _, columns'⟩ := t'
  obtain ⟨rfl, rfl, rfl, reordered⟩ := h
  refine ⟨⟨part catalog, part schema, hI.published name⟩, ?_⟩
  have same : Matches I (columns.map fun column => ⟨column, false⟩) (columns.map fun column => ⟨column, false⟩) :=
    matches_of_forall₂ (List.forall₂_same.2 fun i member => by
      obtain ⟨column, -, rfl⟩ := List.mem_map.1 member
      exact hI.published column)
  exact same.perm (reordered.map _)

/-- The tables for which a name stands are the same ones in some order. -/
theorem Table.named_reordered (hI : Identifier.Congruence I) (ht : Matches Table.Reordered tables tables')
    (hname : name.Renamed I name') :
    Matches Table.Reordered (Table.named tables name) (Table.named tables' name') := by
  unfold Table.named
  rw [← List.filterMap_eq_filter, ← List.filterMap_eq_filter]
  refine ht.filterMap fun t t' here => ?_
  simp only [Option.guard, here.denotedBy hI hname]
  split
  · exact .some here
  · exact .none

theorem Relation.Renamed.hasColumn (hI : Identifier.Congruence I) (h : r.Renamed I r') (hcolumn : I column column') :
    r.hasColumn column = r'.hasColumn column' :=
  h.columns.any_eq fun _ _ here => hI.denotes here hcolumn

theorem Relation.Renamed.aliased (h : r.Renamed I r') {label label' : Option Identifier}
    (hlabel : Option.Rel I label label') : (Scope.aliased r label).Renamed I (Scope.aliased r' label') := by
  cases hlabel with
  | none => exact h
  | some here => exact ⟨⟨.none, .none, here⟩, h.columns⟩

end Names

/-! ### Faults of columns -/

section Columns

variable {scope scope' : Scope} {scopes scopes' : List Scope} {results results' : List Identifier}
  {name name' : TableName} {column column' : Identifier} {ref ref' : ColumnRef} {span : Option Span}

theorem unknownTable_renamed (h : name.Renamed I name') (span : Option Span) :
    (Scope.unknownTable name span).Renamed I (Scope.unknownTable name' span) :=
  ⟨rfl, rfl, fun exact => by rw [h.eq exact]⟩

theorem unknownColumn_renamed (h : ref.Renamed I ref') (span : Option Span) :
    (Scope.unknownColumn ref span).Renamed I (Scope.unknownColumn ref' span) :=
  ⟨rfl, rfl, fun exact => by rw [h.eq exact]⟩

theorem Scope.countP_renamed (hI : Identifier.Congruence I) (h : List.Forall₂ (Relation.Renamed I) scope scope')
    (hcolumn : I column column') :
    (scope.countP fun r => r.hasColumn column) = scope'.countP fun r => r.hasColumn column' :=
  (matches_of_forall₂ h).countP_eq fun _ _ here => here.hasColumn hI hcolumn

theorem Scope.any_hasColumn_renamed (hI : Identifier.Congruence I)
    (h : List.Forall₂ (Relation.Renamed I) scope scope') (hcolumn : I column column') :
    (scope.any fun r => r.hasColumn column) = scope'.any fun r => r.hasColumn column' :=
  (matches_of_forall₂ h).any_eq fun _ _ here => here.hasColumn hI hcolumn

theorem Scope.any_denotedBy_renamed (hI : Identifier.Congruence I)
    (h : List.Forall₂ (Relation.Renamed I) scope scope') (hname : name.Renamed I name') :
    (scope.any fun r => r.name.denotedBy name) = scope'.any fun r => r.name.denotedBy name' :=
  (matches_of_forall₂ h).any_eq fun _ _ here => here.name.denotedBy hI hname

theorem plainFault?_renamed (hI : Identifier.Congruence I)
    (h : List.Forall₂ (List.Forall₂ (Relation.Renamed I)) scopes scopes') (hr : Matches I results results')
    (hcolumn : I column column') : Option.Rel (Diagnostic.Renamed I) (Scope.plainFault? results column span scopes)
      (Scope.plainFault? results' column' span scopes') := by
  have ref : ColumnRef.Renamed I { column } { column := column' } := ⟨.none, hcolumn⟩
  induction h with
  | nil =>
    rw [Scope.plainFault?, Scope.plainFault?, hr.any_eq fun _ _ here => hI.denotes here hcolumn]
    split
    · exact .none
    · exact .some (unknownColumn_renamed ref span)
  | cons here _ ih =>
    rw [Scope.plainFault?, Scope.plainFault?, Scope.countP_renamed hI here hcolumn]
    split
    · exact ih
    · exact .none
    · exact .some ⟨rfl, rfl, fun exact => by rw [ref.eq exact]⟩

theorem relation?_renamed (hI : Identifier.Congruence I)
    (h : List.Forall₂ (List.Forall₂ (Relation.Renamed I)) scopes scopes') (hname : name.Renamed I name') :
    Option.Rel (Relation.Renamed I) (Scope.relation? scopes name) (Scope.relation? scopes' name') := by
  unfold Scope.relation?
  induction h with
  | nil => exact .none
  | cons here _ ih =>
    rw [List.findSome?_cons, List.findSome?_cons]
    have first := find?_rel here fun r r' alike => alike.name.denotedBy hI hname
    revert first
    generalize List.find? _ _ = found
    generalize List.find? _ _ = found'
    rintro (alike | _)
    · exact .some alike
    · exact ih

theorem columnFault?_renamed (hI : Identifier.Congruence I)
    (h : List.Forall₂ (List.Forall₂ (Relation.Renamed I)) scopes scopes') (hr : Matches I results results')
    (href : ref.Renamed I ref') : Option.Rel (Diagnostic.Renamed I) (Scope.columnFault? scopes results ref span)
      (Scope.columnFault? scopes' results' ref' span) := by
  obtain ⟨table, column⟩ := ref
  obtain ⟨table', column'⟩ := ref'
  obtain ⟨qualifier, same⟩ := href
  cases qualifier with
  | none => exact plainFault?_renamed hI h hr same
  | some here =>
    have found := relation?_renamed hI h here
    dsimp only [Scope.columnFault?]
    revert found
    generalize Scope.relation? scopes _ = r
    generalize Scope.relation? scopes' _ = r'
    rintro (alike | _)
    · dsimp only
      rw [alike.hasColumn hI same]
      split
      · exact .none
      · exact .some (unknownColumn_renamed ⟨.some here, same⟩ span)
    · exact .some (unknownTable_renamed here span)

theorem columnFaults_renamed (hI : Identifier.Congruence I)
    (h : List.Forall₂ (List.Forall₂ (Relation.Renamed I)) scopes scopes') (hr : Matches I results results')
    {os os' : List Operand} (hos : List.Forall₂ (Operand.Renamed I) os os') :
    List.Forall₂ (Diagnostic.Renamed I) (Scope.columnFaults scopes results os)
      (Scope.columnFaults scopes' results' os') := by
  refine List.rel_filterMap (fun o o' here => ?_) (Operand.Renamed.allNodes hos)
  rw [here.span]
  have column := here.asColumn?
  revert column
  generalize o.asColumn? = ref
  generalize o'.asColumn? = ref'
  rintro (same | _)
  · exact columnFault?_renamed hI h hr same
  · exact .none

end Columns

/-! ### Items and conditions -/

section Parts

variable {scope scope' : Scope}

theorem SelectItem.resultColumns_renamed (hI : Identifier.Congruence I)
    (h : List.Forall₂ (Relation.Renamed I) scope scope') {item item' : SelectItem} (hitem : item.Renamed I item') :
    Matches I (item.resultColumns scope) (item'.resultColumns scope') := by
  have columns {kept kept' : Scope} (here : List.Forall₂ (Relation.Renamed I) kept kept') :
      Matches I (kept.flatMap Relation.columns) (kept'.flatMap Relation.columns) :=
    (matches_of_forall₂ here).flatMap fun _ _ alike => alike.columns
  cases hitem with
  | all => exact columns h
  | allOf table =>
    exact columns (List.rel_filter (fun r r' alike => Bool.eq_iff_iff.1 (alike.name.denotedBy hI table)) h)
  | expr operand label =>
    cases label with
    | some same => exact .cons same .zero
    | none =>
      refine matches_toList ?_
      have column := operand.asColumn?
      revert column
      generalize Operand.asColumn? _ = ref
      generalize Operand.asColumn? _ = ref'
      rintro (same | _)
      · exact .some same.column
      · exact .none

theorem SelectItem.fault?_renamed (hI : Identifier.Congruence I)
    (h : List.Forall₂ (Relation.Renamed I) scope scope') {item item' : SelectItem} (hitem : item.Renamed I item') :
    Option.Rel (Diagnostic.Renamed I) (item.fault? scope) (item'.fault? scope') := by
  cases hitem with
  | allOf table =>
    rw [SelectItem.fault?, SelectItem.fault?, Scope.any_denotedBy_renamed hI h table]
    split
    · exact .none
    · exact .some (unknownTable_renamed table _)
  | _ => exact .none

theorem Scope.sharedFault?_renamed (hI : Identifier.Congruence I)
    (h : List.Forall₂ (Relation.Renamed I) scope scope') {column column' : Identifier} (hcolumn : I column column') :
    Option.Rel (Diagnostic.Renamed I) (scope.sharedFault? column) (scope'.sharedFault? column') := by
  rw [Scope.sharedFault?, Scope.sharedFault?, Scope.any_hasColumn_renamed hI h hcolumn]
  split
  · exact .none
  · exact .some (unknownColumn_renamed ⟨.none, hcolumn⟩ none)

variable {R : Operand → Operand → Prop}

theorem Constraint.Related.ownOperands (c : Constraint) {c' : Constraint} (h : c.Related I R c') :
    List.Forall₂ R c.ownOperands c'.ownOperands := by
  cases c with
  | comparison => cases h with | comparison left right => exact .cons left (.cons right .nil)
  | between => cases h with | between value low high => exact .cons value (.cons low (.cons high .nil))
  | inValues => cases h with | inValues value values => exact .cons value values
  | inQuery => cases h with | inQuery value => exact .cons value .nil
  | isNull => cases h with | isNull value => exact .cons value .nil
  | nonEmpty => cases h with | nonEmpty => exact .nil
  | not c => cases h with | not inner => exact (Constraint.Related.ownOperands c inner :)
  | group c => cases h with | group inner => exact (Constraint.Related.ownOperands c inner :)
  | and l r =>
    cases h with
    | and left right =>
      exact List.rel_append (Constraint.Related.ownOperands l left) (Constraint.Related.ownOperands r right)
  | or l r =>
    cases h with
    | or left right =>
      exact List.rel_append (Constraint.Related.ownOperands l left) (Constraint.Related.ownOperands r right)

theorem FromItem.Related.ownOperands (item : FromItem) {item' : FromItem} (h : item.Related I R item') :
    List.Forall₂ R item.ownOperands item'.ownOperands := by
  cases item with
  | table => cases h with | table => exact .nil
  | subquery => cases h with | subquery => exact .nil
  | join l _ _ r =>
    cases h with
    | join left right condition =>
      refine List.rel_append
        (List.rel_append (FromItem.Related.ownOperands l left) (FromItem.Related.ownOperands r right)) ?_
      cases condition with
      | on here => exact Constraint.Related.ownOperands _ here
      | _ => exact .nil

theorem FromItem.Related.sharedColumns (item : FromItem) {item' : FromItem} (h : item.Related I R item') :
    List.Forall₂ I item.sharedColumns item'.sharedColumns := by
  cases item with
  | table => cases h with | table => exact .nil
  | subquery => cases h with | subquery => exact .nil
  | join l _ _ r =>
    cases h with
    | join left right condition =>
      refine List.rel_append
        (List.rel_append (FromItem.Related.sharedColumns l left) (FromItem.Related.sharedColumns r right)) ?_
      cases condition with
      | sharing columns => exact columns
      | _ => exact .nil

theorem SelectItem.Related.ownOperands {item item' : SelectItem} (h : item.Related I R item') :
    List.Forall₂ R item.ownOperands item'.ownOperands := by
  cases h with
  | expr operand => exact .cons operand .nil
  | _ => exact .nil

theorem OrderItem.Related.exprs {order order' : List OrderItem} (h : List.Forall₂ (OrderItem.Related R) order order') :
    List.Forall₂ R (order.map OrderItem.expr) (order'.map OrderItem.expr) :=
  List.rel_map (fun _ _ here => here.expr) h

end Parts

/-! ### What a query reads from -/

section Sources

variable {tables tables' : List Table} {named named' : List Relation} {outer outer' : List Scope}

/-- What two runs see at one place: the published tables, the named queries and the scopes. -/
structure SeesAlike (I : Identifier → Identifier → Prop) (tables tables' : List Table) (named named' : List Relation)
    (scopes scopes' : List Scope) : Prop where
  congruence : Identifier.Congruence I
  tables : Matches Table.Reordered tables tables'
  named : List.Forall₂ (Relation.Renamed I) named named'
  scopes : List.Forall₂ (List.Forall₂ (Relation.Renamed I)) scopes scopes'

theorem SeesAlike.naming (seen : SeesAlike I tables tables' named named' outer outer') {rs rs' : List Relation}
    (h : List.Forall₂ (Relation.Renamed I) rs rs') : SeesAlike I tables tables' rs rs' outer outer' :=
  { seen with named := h }

theorem SeesAlike.opening (seen : SeesAlike I tables tables' named named' outer outer') {scope scope' : Scope}
    (h : List.Forall₂ (Relation.Renamed I) scope scope') :
    SeesAlike I tables tables' named named' (scope :: outer) (scope' :: outer') :=
  { seen with scopes := .cons h seen.scopes }

/-- A table in `FROM` stands for one relation in both runs, or has the same fault. -/
theorem ownRelations_table_renamed (seen : SeesAlike I tables tables' named named' outer outer')
    {name name' : TableName} (hname : name.Renamed I name') {label label' : Option Identifier}
    (hlabel : Option.Rel I label label') (span : Option Span) :
    Exposed.Renamed I (FromItem.ownRelations tables named outer (.table name label span))
      (FromItem.ownRelations tables' named' outer' (.table name' label' span)) := by
  have latest : Option.Rel (Relation.Renamed I) (namedQuery? named name) (namedQuery? named' name') :=
    find?_rel seen.named fun r r' here => by rw [hname.plain, seen.congruence.denotes here.name.table hname.table]
  have published := Table.named_reordered seen.congruence seen.tables hname
  simp only [FromItem.ownRelations, tableRelation_eq]
  revert latest published
  generalize namedQuery? named name = found
  generalize namedQuery? named' name' = found'
  generalize Table.named tables name = ts
  generalize Table.named tables' name' = ts'
  rintro (here | _) published
  · exact ⟨.cons (here.aliased hlabel) .nil, .nil⟩
  · have length : ts.length = ts'.length := Multiset.card_eq_card_of_rel published
    -- none, one or several tables, as many in one run as in the other
    rcases ts with _ | ⟨t, _ | ⟨u, ts⟩⟩ <;> rcases ts' with _ | ⟨t', _ | ⟨u', ts'⟩⟩ <;> try cases length
    · exact ⟨.nil, .cons (unknownTable_renamed hname span) .nil⟩
    · have only : t.Reordered t' := by
        obtain ⟨_, member, here⟩ := published.exists_left (List.mem_singleton.2 rfl)
        rwa [List.mem_singleton.1 member] at here
      exact ⟨.cons ((only.relation seen.congruence).aliased hlabel) .nil, .nil⟩
    · exact ⟨.nil, .cons ⟨rfl, rfl, fun exact => by rw [hname.eq exact]⟩ .nil⟩

mutual

theorem Query.resolution_renamed {named named' : List Relation} {outer outer' : List Scope}
    (seen : SeesAlike I tables tables' named named' outer outer') (q : Query) {q' : Query} (h : q.Renamed I q') :
    Resolution.Renamed I (q.resolution tables named outer) (q'.resolution tables' named' outer') := by
  cases q with
  | mk items b span =>
    cases h with
    | intro withItems body =>
      have before := WithItem.relations_renamed seen items withItems
      have inner := QueryBody.resolution_renamed (seen.naming before.relations) b body
      rw [Query.resolution, Query.resolution]
      exact ⟨inner.columns, List.rel_append before.faults inner.faults⟩
termination_by structural q

theorem WithItem.relations_renamed {named named' : List Relation} {outer outer' : List Scope}
    (seen : SeesAlike I tables tables' named named' outer outer') (items : List WithItem) {items' : List WithItem}
    (h : List.Forall₂ (WithItem.Renamed I) items items') :
    Exposed.Renamed I (WithItem.relations tables named outer items)
      (WithItem.relations tables' named' outer' items') := by
  cases items with
  | nil =>
    cases h
    rw [WithItem.relations, WithItem.relations]
    exact ⟨seen.named, .nil⟩
  | cons item rest =>
    cases item with
    | mk name columns q span =>
      cases h with
      | cons here others =>
        cases here with
        | @intro _ name' _ columns' _ q' _ label declared query =>
          have inner := Query.resolution_renamed seen q query
          have visible : Matches I (if columns.isEmpty then (q.resolution tables named outer).columns else columns)
              (if columns'.isEmpty then (q'.resolution tables' named' outer').columns else columns') := by
            cases declared with
            | nil => exact inner.columns
            | cons first rest => exact matches_of_forall₂ (.cons first rest)
          have relation : Relation.Renamed I ⟨{ table := name }, _⟩ ⟨{ table := name' }, _⟩ :=
            ⟨⟨.none, .none, label⟩, visible⟩
          have after := WithItem.relations_renamed (seen.naming (.cons relation seen.named)) rest others
          rw [WithItem.relations, WithItem.relations]
          exact ⟨after.relations, List.rel_append inner.faults after.faults⟩
termination_by structural items

theorem QueryBody.resolution_renamed {named named' : List Relation} {outer outer' : List Scope}
    (seen : SeesAlike I tables tables' named named' outer outer') (b : QueryBody) {b' : QueryBody}
    (h : b.Renamed I b') :
    Resolution.Renamed I (b.resolution tables named outer) (b'.resolution tables' named' outer') := by
  cases b with
  | select q =>
    cases h with
    | select query =>
      rw [QueryBody.resolution, QueryBody.resolution]
      exact SelectQuery.resolution_renamed seen q query
  | set o =>
    cases o with
    | mk l op all r order offset span =>
      cases h with
      | set left right orderBy =>
        have first := QueryBody.resolution_renamed seen l left
        have second := QueryBody.resolution_renamed seen r right
        rw [QueryBody.resolution, QueryBody.resolution, SetOperation.resolution, SetOperation.resolution]
        exact ⟨first.columns, List.rel_append (List.rel_append first.faults second.faults)
          (columnFaults_renamed seen.congruence .nil first.columns (OrderItem.Related.exprs orderBy))⟩
termination_by structural b

theorem SelectQuery.resolution_renamed {named named' : List Relation} {outer outer' : List Scope}
    (seen : SeesAlike I tables tables' named named' outer outer') (q : SelectQuery) {q' : SelectQuery}
    (h : q.Renamed I q') :
    Resolution.Renamed I (q.resolution tables named outer) (q'.resolution tables' named' outer') := by
  cases q with
  | mk clause source filter groupBy having orderBy offset span =>
    cases h with
    | intro select items filtered groups grouped order =>
      have opened := FromItem.relations_renamed seen source items
      have inside := seen.opening opened.relations
      have joins := FromItem.subqueryFaults_renamed inside source items
      have below := Constraint.eachSubqueryFaults_renamed inside filter filtered
      have last := Constraint.eachSubqueryFaults_renamed inside having grouped
      have conditions {c c' : Option Constraint} : Option.Rel (Constraint.Renamed I) c c' →
          List.Forall₂ (Operand.Renamed I) (match c with | some condition => condition.ownOperands | none => [])
            (match c' with | some condition => condition.ownOperands | none => []) := by
        rintro (same | _)
        · exact Constraint.Related.ownOperands _ same
        · exact .nil
      have results := (matches_of_forall₂ select.items).flatMap fun _ _ here =>
        SelectItem.resultColumns_renamed seen.congruence opened.relations here
      have shared := List.rel_filterMap
        (fun _ _ here => Scope.sharedFault?_renamed seen.congruence opened.relations here)
        (List.rel_flatMap items fun item _ here => FromItem.Related.sharedColumns item here)
      have stars := List.rel_filterMap
        (fun _ _ here => SelectItem.fault?_renamed seen.congruence opened.relations here) select.items
      have operands := List.rel_append (List.rel_append (List.rel_append
        (List.rel_flatMap items fun item _ here => FromItem.Related.ownOperands item here)
        (List.rel_flatMap select.items fun _ _ here => here.ownOperands)) (conditions filtered)) (conditions grouped)
      have own := columnFaults_renamed seen.congruence inside.scopes .zero operands
      have tail := columnFaults_renamed seen.congruence inside.scopes results
        (List.rel_append groups (OrderItem.Related.exprs order))
      have subqueries := List.rel_append (List.rel_append joins below) last
      rw [SelectQuery.resolution.eq_def, SelectQuery.resolution.eq_def]
      exact ⟨results, List.rel_append (List.rel_append (List.rel_append (List.rel_append (List.rel_append
        opened.faults shared) stars) own) subqueries) tail⟩
termination_by structural q

theorem FromItem.relations_renamed {named named' : List Relation} {outer outer' : List Scope}
    (seen : SeesAlike I tables tables' named named' outer outer') (items : List FromItem) {items' : List FromItem}
    (h : List.Forall₂ (FromItem.Renamed I) items items') :
    Exposed.Renamed I (FromItem.relations tables named outer items)
      (FromItem.relations tables' named' outer' items') := by
  cases items with
  | nil =>
    cases h
    rw [FromItem.relations, FromItem.relations]
    exact ⟨.nil, .nil⟩
  | cons item rest =>
    cases h with
    | cons here others =>
      have first := FromItem.ownRelations_renamed seen item here
      have after := FromItem.relations_renamed seen rest others
      rw [FromItem.relations, FromItem.relations]
      exact ⟨List.rel_append first.relations after.relations, List.rel_append first.faults after.faults⟩
termination_by structural items

theorem FromItem.ownRelations_renamed {named named' : List Relation} {outer outer' : List Scope}
    (seen : SeesAlike I tables tables' named named' outer outer') (item : FromItem) {item' : FromItem}
    (h : item.Renamed I item') :
    Exposed.Renamed I (item.ownRelations tables named outer) (item'.ownRelations tables' named' outer') := by
  cases item with
  | table name label span =>
    cases h with
    | table same shown => exact ownRelations_table_renamed seen same shown span
  | subquery q label span =>
    cases h with
    | subquery query shown =>
      have inner := Query.resolution_renamed seen q query
      rw [FromItem.ownRelations, FromItem.ownRelations]
      exact ⟨.cons ⟨⟨.none, .none, shown⟩, inner.columns⟩ .nil, inner.faults⟩
  | join l kind natural r condition span =>
    cases h with
    | join left right _ =>
      have first := FromItem.ownRelations_renamed seen l left
      have second := FromItem.ownRelations_renamed seen r right
      rw [FromItem.ownRelations, FromItem.ownRelations]
      exact ⟨List.rel_append first.relations second.relations, List.rel_append first.faults second.faults⟩
termination_by structural item

theorem FromItem.subqueryFaults_renamed {named named' : List Relation} {scopes scopes' : List Scope}
    (seen : SeesAlike I tables tables' named named' scopes scopes') (items : List FromItem)
    {items' : List FromItem} (h : List.Forall₂ (FromItem.Renamed I) items items') :
    List.Forall₂ (Diagnostic.Renamed I) (FromItem.subqueryFaults tables named scopes items)
      (FromItem.subqueryFaults tables' named' scopes' items') := by
  cases items with
  | nil =>
    cases h
    rw [FromItem.subqueryFaults, FromItem.subqueryFaults]
    exact .nil
  | cons item rest =>
    cases h with
    | cons here others =>
      rw [FromItem.subqueryFaults, FromItem.subqueryFaults]
      exact List.rel_append (FromItem.ownSubqueryFaults_renamed seen item here)
        (FromItem.subqueryFaults_renamed seen rest others)
termination_by structural items

theorem FromItem.ownSubqueryFaults_renamed {named named' : List Relation} {scopes scopes' : List Scope}
    (seen : SeesAlike I tables tables' named named' scopes scopes') (item : FromItem) {item' : FromItem}
    (h : item.Renamed I item') :
    List.Forall₂ (Diagnostic.Renamed I) (item.ownSubqueryFaults tables named scopes)
      (item'.ownSubqueryFaults tables' named' scopes') := by
  cases item with
  | table name label span =>
    cases h
    rw [FromItem.ownSubqueryFaults, FromItem.ownSubqueryFaults]
    exact .nil
  | subquery q label span =>
    cases h
    rw [FromItem.ownSubqueryFaults, FromItem.ownSubqueryFaults]
    exact .nil
  | join l kind natural r condition span =>
    cases h with
    | join left right matched =>
      rw [FromItem.ownSubqueryFaults, FromItem.ownSubqueryFaults]
      exact List.rel_append (List.rel_append (FromItem.ownSubqueryFaults_renamed seen l left)
        (FromItem.ownSubqueryFaults_renamed seen r right))
        (JoinCondition.subqueryFaults_renamed seen condition matched)
termination_by structural item

theorem JoinCondition.subqueryFaults_renamed {named named' : List Relation} {scopes scopes' : List Scope}
    (seen : SeesAlike I tables tables' named named' scopes scopes') (condition : JoinCondition)
    {condition' : JoinCondition} (h : condition.Renamed I condition') :
    List.Forall₂ (Diagnostic.Renamed I) (condition.subqueryFaults tables named scopes)
      (condition'.subqueryFaults tables' named' scopes') := by
  cases condition with
  | unstated =>
    cases h
    rw [JoinCondition.subqueryFaults, JoinCondition.subqueryFaults]
    exact .nil
  | on c =>
    cases h with
    | on here =>
      rw [JoinCondition.subqueryFaults, JoinCondition.subqueryFaults]
      exact Constraint.subqueryFaults_renamed seen c here
  | sharing columns =>
    cases h
    rw [JoinCondition.subqueryFaults, JoinCondition.subqueryFaults]
    exact .nil
termination_by structural condition

theorem Constraint.eachSubqueryFaults_renamed {named named' : List Relation} {scopes scopes' : List Scope}
    (seen : SeesAlike I tables tables' named named' scopes scopes') (c : Option Constraint)
    {c' : Option Constraint} : Option.Rel (Constraint.Renamed I) c c' → List.Forall₂ (Diagnostic.Renamed I)
      (match c with | some condition => condition.subqueryFaults tables named scopes | none => [])
      (match c' with | some condition => condition.subqueryFaults tables' named' scopes' | none => []) := by
  intro h
  cases c with
  | none =>
    cases h
    exact .nil
  | some c =>
    cases h with
    | some here => exact Constraint.subqueryFaults_renamed seen c here
termination_by structural c

theorem Constraint.subqueryFaults_renamed {named named' : List Relation} {scopes scopes' : List Scope}
    (seen : SeesAlike I tables tables' named named' scopes scopes') (c : Constraint) {c' : Constraint}
    (h : c.Renamed I c') :
    List.Forall₂ (Diagnostic.Renamed I) (c.subqueryFaults tables named scopes)
      (c'.subqueryFaults tables' named' scopes') := by
  cases c with
  | inQuery value q negated span =>
    cases h with
    | inQuery _ query =>
      rw [Constraint.subqueryFaults, Constraint.subqueryFaults]
      exact (Query.resolution_renamed seen q query).faults
  | nonEmpty q span =>
    cases h with
    | nonEmpty query =>
      rw [Constraint.subqueryFaults, Constraint.subqueryFaults]
      exact (Query.resolution_renamed seen q query).faults
  | not inner span =>
    cases h with
    | not here =>
      rw [Constraint.subqueryFaults, Constraint.subqueryFaults]
      exact Constraint.subqueryFaults_renamed seen inner here
  | group inner span =>
    cases h with
    | group here =>
      rw [Constraint.subqueryFaults, Constraint.subqueryFaults]
      exact Constraint.subqueryFaults_renamed seen inner here
  | and l r span =>
    cases h with
    | and left right =>
      rw [Constraint.subqueryFaults, Constraint.subqueryFaults]
      exact List.rel_append (Constraint.subqueryFaults_renamed seen l left)
        (Constraint.subqueryFaults_renamed seen r right)
  | or l r span =>
    cases h with
    | or left right =>
      rw [Constraint.subqueryFaults, Constraint.subqueryFaults]
      exact List.rel_append (Constraint.subqueryFaults_renamed seen l left)
        (Constraint.subqueryFaults_renamed seen r right)
  | _ =>
    cases h
    simp only [Constraint.subqueryFaults]
    exact .nil
termination_by structural c

end

end Sources

/-! ### Reports -/

theorem Diagnostic.map_mark_sort (ds : List Diagnostic) : (sort ds).map mark =
    (ds.map mark).mergeSort fun m m' => notAfter ⟨m.1, "", m.2, none⟩ ⟨m'.1, "", m'.2, none⟩ :=
  List.map_mergeSort fun _ _ _ _ => rfl

variable {tables tables' : List Table}

/-- Resolving renamed queries meets the same faults one by one. -/
theorem Query.faults_renamed (hI : Identifier.Congruence I) (ht : Matches Table.Reordered tables tables') {q q' : Query}
    (h : q.Renamed I q') : List.Forall₂ (Diagnostic.Renamed I) (q.resolution tables [] []).faults
      (q'.resolution tables' [] []).faults :=
  (Query.resolution_renamed ⟨hI, ht, .nil, .nil⟩ q h).faults

/-- The letter case of regular identifiers does not matter, wherever they stand: the same faults are reported
at the same places in the same order. -/
theorem Query.resolve_recased (tables : List Table) {q q' : Query} (h : q.Renamed Identifier.Recased q') :
    (q.resolve tables).map Diagnostic.mark = (q'.resolve tables).map Diagnostic.mark := by
  have same (t : Table) : t.Reordered t := ⟨rfl, rfl, rfl, .refl _⟩
  have faults := Query.faults_renamed Identifier.congruence_recased
    (matches_of_forall₂ (List.forall₂_same.2 fun t (_ : t ∈ tables) => same t)) h
  have marks : List.Forall₂ Eq ((q.resolution tables [] []).faults.map Diagnostic.mark)
      ((q'.resolution tables [] []).faults.map Diagnostic.mark) :=
    List.rel_map (fun d d' here => show d.mark = d'.mark from Prod.ext here.code here.span) faults
  rw [List.forall₂_eq_eq_eq] at marks
  rw [Query.resolve, Query.resolve, Diagnostic.map_mark_sort, Diagnostic.map_mark_sort, marks]

theorem Query.resolve_recased_with :
    let tables : List Table := [⟨none, none, "stars", ["ra", "dec"]⟩]
    let inner (ra stars : Identifier) : Query :=
      ⟨[], .select ⟨⟨false, none, [.expr (.column { column := ra } none) none], none⟩,
        [.table { table := stars } none none], none, [], none, [], none, none⟩, none⟩
    let outer (near ra x y : Identifier) (inner : Query) : Query := ⟨[⟨near, [], inner, none⟩],
      .select ⟨⟨false, none, [.expr (.column { table := some { table := x }, column := ra } none) none,
        .expr (.column { column := y } (some ⟨1, 60, 1, 61⟩)) none], none⟩,
        [.table { table := near } (some x) none], none, [], none, [], none, none⟩, none⟩
    let q := outer ⟨"Near", false⟩ ⟨"RA", false⟩ ⟨"x", false⟩ ⟨"y", false⟩ (inner ⟨"ra", false⟩ ⟨"Stars", false⟩)
    let q' := outer ⟨"near", false⟩ ⟨"ra", false⟩ ⟨"X", false⟩ ⟨"Y", false⟩ (inner ⟨"Ra", false⟩ ⟨"STARS", false⟩)
    q.Renamed Identifier.Recased q' ∧
      (q.resolve tables).map Diagnostic.mark = (q'.resolve tables).map Diagnostic.mark := by
  intro tables inner outer q q'
  have near : Identifier.Recased ⟨"Near", false⟩ ⟨"near", false⟩ := ⟨rfl, rfl, by decide⟩
  have x : Identifier.Recased ⟨"x", false⟩ ⟨"X", false⟩ := ⟨rfl, rfl, by decide⟩
  have below : Query.Renamed Identifier.Recased (inner ⟨"ra", false⟩ ⟨"Stars", false⟩)
      (inner ⟨"Ra", false⟩ ⟨"STARS", false⟩) :=
    .intro .nil (.select (.intro
      ⟨rfl, rfl, .cons (.expr (.column ⟨.none, ⟨rfl, rfl, by decide⟩⟩) .none) .nil, rfl⟩
      (.cons (.table ⟨.none, .none, ⟨rfl, rfl, by decide⟩⟩ .none) .nil) .none .nil .none .nil))
  have recased : q.Renamed Identifier.Recased q' := by
    refine .intro (.cons (.intro near .nil below) .nil) (.select (.intro ⟨rfl, rfl, ?_, rfl⟩ ?_ .none .nil .none .nil))
    · exact .cons (.expr (.column ⟨.some ⟨.none, .none, x⟩, ⟨rfl, rfl, by decide⟩⟩) .none)
        (.cons (.expr (.column ⟨.none, ⟨rfl, rfl, by decide⟩⟩) .none) .nil)
    · exact .cons (.table ⟨.none, .none, near⟩ (.some x)) .nil
  exact ⟨recased, Query.resolve_recased tables recased⟩

/-- The order in which tables and their columns are published does not matter. -/
theorem Query.resolve_republished (q : Query) (h : Matches Table.Reordered tables tables') :
    q.resolve tables = q.resolve tables' := by
  have faults := Query.faults_renamed Identifier.congruence_eq h (Query.Renamed.refl (fun _ => rfl) q)
  have same : List.Forall₂ Eq (q.resolution tables [] []).faults (q.resolution tables' [] []).faults :=
    faults.imp fun _ _ here => here.eq id
  rw [List.forall₂_eq_eq_eq] at same
  rw [Query.resolve, Query.resolve, same]

theorem Query.resolve_republished_tables :
    let tables : List Table := [⟨none, some "s", "t", ["x", "y"]⟩, ⟨none, some "u", "t", ["y", "z"]⟩]
    let tables' : List Table := [⟨none, some "u", "t", ["z", "y"]⟩, ⟨none, some "s", "t", ["y", "x"]⟩]
    let s : TableName := { schema := some ⟨"s", false⟩, table := ⟨"t", false⟩ }
    let t : TableName := { table := ⟨"t", false⟩ }
    let w : ColumnRef := { column := ⟨"w", false⟩ }
    let q : Query := ⟨[], .select ⟨⟨false, none, [.all none, .expr (.column w none) none], none⟩,
      [.table s none none, .table t none none], none, [], none, [], none, none⟩, none⟩
    Matches Table.Reordered tables tables' ∧ q.resolve tables = q.resolve tables' := by
  intro tables tables' s t w q
  have published : Matches Table.Reordered tables tables' := by
    have columns : List.Forall₂ Table.Reordered tables
        [⟨none, some "s", "t", ["y", "x"]⟩, ⟨none, some "u", "t", ["z", "y"]⟩] :=
      .cons ⟨rfl, rfl, rfl, .swap ..⟩ (.cons ⟨rfl, rfl, rfl, .swap ..⟩ .nil)
    exact (matches_of_forall₂ columns).perm (.swap ..)
  exact ⟨published, q.resolve_republished published⟩

end SkyQuery
