import Mathlib.Data.List.Perm.Basic
import SkyQuery.Scope.Resolve

/-!
# Rules of scope

What a table or column that a query mentions may stand for, given what can be seen from its place.
The rules say which relation that is and when there is none; `Occurrence.fault?`, which decides them,
is what `Query.resolve` reports for one place.
-/

namespace SkyQuery

/-- The first member of a list that has a property. -/
def IsFirst {α : Type} (P : α → Prop) (as : List α) (a : α) : Prop :=
  P a ∧ ∃ before after, as = before ++ a :: after ∧ ∀ b ∈ before, ¬ P b

theorem IsFirst.unique {α : Type} {P : α → Prop} {as : List α} {a b : α} (ha : IsFirst P as a) (hb : IsFirst P as b) :
    a = b := by
  classical
  have find {a : α} (h : IsFirst P as a) : as.find? (fun a => decide (P a)) = some a :=
    List.find?_eq_some_iff_append.2 (by simpa [IsFirst] using h)
  exact Option.some.inj ((find ha).symm.trans (find hb))

theorem IsFirst.mem {α : Type} {P : α → Prop} {as : List α} {a : α} (h : IsFirst P as a) : a ∈ as := by
  obtain ⟨-, before, after, rfl, -⟩ := h
  exact List.mem_append_right _ List.mem_cons_self

theorem isFirst_iff_find? {α : Type} {p : α → Bool} {as : List α} {a : α} :
    IsFirst (fun a => p a = true) as a ↔ as.find? p = some a := by
  simp [IsFirst, List.find?_eq_some_iff_append]

/-! ### Tables -/

/-- A name without qualifier stands for the latest of the named queries that has it. -/
def NamesQuery (named : List Relation) (name : TableName) (r : Relation) : Prop :=
  (name.schema = none ∧ name.catalog = none) ∧ IsFirst (fun r => r.name.table.denotes name.table = true) named r

def Table.relation (t : Table) : Relation := ⟨t.toName, t.columns.map fun column => ⟨column, false⟩⟩

/-- The relation that a table in `FROM` stands for: a named query or else the only published table of
that name. -/
inductive Designates (tables : List Table) (named : List Relation) (name : TableName) : Relation → Prop where
  | query {r : Relation} (latest : NamesQuery named name r) : Designates tables named name r
  | table {t : Table} (unnamed : ∀ r, ¬ NamesQuery named name r) (only : Table.named tables name = [t]) :
    Designates tables named name t.relation

/-- The named query for which a name stands. -/
def namedQuery? (named : List Relation) (name : TableName) : Option Relation :=
  named.find? fun r => (name.schema.isNone && name.catalog.isNone) && r.name.table.denotes name.table

theorem namedQuery?_eq_some_iff {named : List Relation} {name : TableName} {r : Relation} :
    namedQuery? named name = some r ↔ NamesQuery named name r := by
  unfold namedQuery? NamesQuery
  rw [isFirst_iff_find?]
  by_cases plain : name.schema = none ∧ name.catalog = none
  · simp [plain]
  · have qualified : (name.schema.isNone && name.catalog.isNone) = false := by
      rw [← Bool.not_eq_true]
      simpa using plain
    have nothing : named.find? (fun _ => false) = none := List.find?_eq_none.2 (by simp)
    simp [plain, qualified, nothing]

theorem namedQuery?_eq_none_iff {named : List Relation} {name : TableName} :
    namedQuery? named name = none ↔ ∀ r, ¬ NamesQuery named name r := by
  simp only [← namedQuery?_eq_some_iff, Option.eq_none_iff_forall_ne_some, ne_eq]

/-- The relation for which a table in `FROM` stands. -/
def designated? (tables : List Table) (named : List Relation) (name : TableName) : Option Relation :=
  match namedQuery? named name with
  | some r => some r
  | none =>
    match Table.named tables name with
    | [t] => some t.relation
    | _ => none

theorem designated?_eq_some_iff {tables : List Table} {named : List Relation} {name : TableName} {r : Relation} :
    designated? tables named name = some r ↔ Designates tables named name r := by
  unfold designated?
  constructor
  · intro h
    split at h
    · rename_i found
      cases h
      exact .query (namedQuery?_eq_some_iff.1 found)
    · rename_i unnamed
      split at h
      · rename_i only
        cases h
        exact .table (namedQuery?_eq_none_iff.1 unnamed) only
      · cases h
  · rintro (latest | ⟨unnamed, only⟩)
    · rw [namedQuery?_eq_some_iff.2 latest]
    · rw [namedQuery?_eq_none_iff.2 unnamed, only]

/-! ### Places -/

/-- What can be seen from a place: the named queries, the latest first, the scopes around it, the
innermost first, and the result columns that it may name. -/
structure Context where
  named : List Relation
  scopes : List Scope
  results : List Identifier := []

/-- What a query mentions. -/
inductive Reference where
  /-- A table to read from. -/
  | table (name : TableName)
  | column (ref : ColumnRef)
  /-- All columns of a table. -/
  | allOf (table : TableName)
  /-- A column that a join shares. -/
  | shared (column : Identifier)

/-- A reference with its place and what can be seen from there. -/
structure Occurrence where
  reference : Reference
  span : Option Span
  context : Context

/-- Some relation of a scope has the column. -/
def Scope.Has (scope : Scope) (column : Identifier) : Prop := ∃ r ∈ scope, r.hasColumn column = true

/-- Some relation of a scope is exposed under the name. -/
def Scope.Exposes (scope : Scope) (table : TableName) : Prop := ∃ r ∈ scope, r.name.denotedBy table = true

variable {tables : List Table}

/-- A reference stands for one thing. -/
inductive Context.Binds (tables : List Table) (c : Context) : Reference → Prop where
  | table {name : TableName} {r : Relation} (designates : Designates tables c.named name r) : c.Binds tables (.table name)
  /-- The innermost scope that has the column has it once. -/
  | plain {column : Identifier} {scope : Scope} (innermost : IsFirst (·.Has column) c.scopes scope)
    (once : scope.countP (·.hasColumn column) = 1) : c.Binds tables (.column { column })
  | result {column : Identifier} (unscoped : ∀ scope ∈ c.scopes, ¬ scope.Has column)
    (named : ∃ result ∈ c.results, result.denotes column = true) : c.Binds tables (.column { column })
  /-- The first relation of that name, in the innermost scope that has one, has the column. -/
  | qualified {table : TableName} {column : Identifier} {scope : Scope} {r : Relation}
    (innermost : IsFirst (·.Exposes table) c.scopes scope)
    (first : IsFirst (fun r => r.name.denotedBy table = true) scope r) (has : r.hasColumn column = true) :
    c.Binds tables (.column { table := some table, column })
  | allOf {table : TableName} {scope : Scope} (own : scope ∈ c.scopes.head?) (exposes : scope.Exposes table) :
    c.Binds tables (.allOf table)
  | shared {column : Identifier} {scope : Scope} (own : scope ∈ c.scopes.head?) (has : scope.Has column) :
    c.Binds tables (.shared column)

/-- What is reported for a reference that stands for nothing, or for more than one thing. -/
inductive Context.Refuses (tables : List Table) (c : Context) (span : Option Span) : Reference → Diagnostic → Prop where
  | unknownTable {name : TableName} (unnamed : ∀ r, ¬ NamesQuery c.named name r)
    (unpublished : Table.named tables name = []) : c.Refuses tables span (.table name) (Scope.unknownTable name span)
  | ambiguousTable {name : TableName} (unnamed : ∀ r, ¬ NamesQuery c.named name r)
    (several : 1 < (Table.named tables name).length) :
    c.Refuses tables span (.table name)
      { code := .ambiguousColumn, message := "Ambiguous table name \"" ++ name.render ++ "\"!", span }
  | unknownColumn {column : Identifier} (unscoped : ∀ scope ∈ c.scopes, ¬ scope.Has column)
    (unnamed : ∀ result ∈ c.results, ¬ result.denotes column = true) :
    c.Refuses tables span (.column { column }) (Scope.unknownColumn { column } span)
  | ambiguousColumn {column : Identifier} {scope : Scope} (innermost : IsFirst (·.Has column) c.scopes scope)
    (several : 1 < scope.countP (·.hasColumn column)) :
    c.Refuses tables span (.column { column })
      { code := .ambiguousColumn
        message := "Ambiguous column name \"" ++ ({ column } : ColumnRef).render ++ "\"!", span }
  | unknownQualifier {table : TableName} {column : Identifier} (unscoped : ∀ scope ∈ c.scopes, ¬ scope.Exposes table) :
    c.Refuses tables span (.column { table := some table, column }) (Scope.unknownTable table span)
  | missingColumn {table : TableName} {column : Identifier} {scope : Scope} {r : Relation}
    (innermost : IsFirst (·.Exposes table) c.scopes scope)
    (first : IsFirst (fun r => r.name.denotedBy table = true) scope r) (lacks : ¬ r.hasColumn column = true) :
    c.Refuses tables span (.column { table := some table, column })
      (Scope.unknownColumn { table := some table, column } span)
  | unknownAllOf {table : TableName} (unscoped : ∀ scope ∈ c.scopes.head?, ¬ scope.Exposes table) :
    c.Refuses tables span (.allOf table) (Scope.unknownTable table span)
  | unknownShared {column : Identifier} (unscoped : ∀ scope ∈ c.scopes.head?, ¬ scope.Has column) :
    c.Refuses tables span (.shared column) (Scope.unknownColumn { column } span)

namespace Occurrence

def Bound (tables : List Table) (o : Occurrence) : Prop := o.context.Binds tables o.reference

def Refused (tables : List Table) (o : Occurrence) (d : Diagnostic) : Prop :=
  o.context.Refuses tables o.span o.reference d

/-- What resolving reports for one reference. -/
def fault? (tables : List Table) : Occurrence → Option Diagnostic
  | ⟨.table name, span, c⟩ =>
    match Scope.tableRelation tables c.named name span with
    | .ok _ => none
    | .error e => some e
  | ⟨.column ref, span, c⟩ => Scope.columnFault? c.scopes c.results ref span
  | ⟨.allOf table, span, c⟩ =>
    if c.scopes.head?.any fun scope => scope.any fun r => r.name.denotedBy table then none
    else some (Scope.unknownTable table span)
  | ⟨.shared column, span, c⟩ =>
    if c.scopes.head?.any fun scope => scope.any fun r => r.hasColumn column then none
    else some (Scope.unknownColumn { column } span)

end Occurrence

/-! ### The rules decide -/

variable {named : List Relation} {name : TableName} {span : Option Span} {scopes : List Scope}
  {results : List Identifier} {column : Identifier}

theorem tableRelation_eq : Scope.tableRelation tables named name span =
    match namedQuery? named name with
    | some r => .ok r
    | none =>
      match Table.named tables name with
      | [] => .error (Scope.unknownTable name span)
      | [t] => .ok t.relation
      | _ => .error
        { code := .ambiguousColumn, message := "Ambiguous table name \"" ++ name.render ++ "\"!", span } := rfl

/-- A table in `FROM` has the relation that it stands for, and a fault otherwise. -/
theorem tableRelation_toOption (tables : List Table) (named : List Relation) (name : TableName) (span : Option Span) :
    (Scope.tableRelation tables named name span).toOption = designated? tables named name := by
  rw [tableRelation_eq, designated?]
  cases namedQuery? named name with
  | some r => rfl
  | none =>
    cases Table.named tables name with
    | nil => rfl
    | cons t rest => cases rest <;> rfl

theorem tableRelation_error {d : Diagnostic} (h : Scope.tableRelation tables named name span = .error d) :
    Context.Refuses tables ⟨named, scopes, results⟩ span (.table name) d := by
  rw [tableRelation_eq] at h
  split at h
  · cases h
  · rename_i unnamed
    rw [namedQuery?_eq_none_iff] at unnamed
    split at h
    · rename_i none
      cases h
      exact .unknownTable unnamed none
    · cases h
    · rename_i notNone notOne
      cases h
      apply Context.Refuses.ambiguousTable unnamed
      cases found : Table.named tables name with
      | nil => exact (notNone found).elim
      | cons t rest =>
        cases rest with
        | nil => exact (notOne t found).elim
        | cons u rest => simp

theorem has_iff {scope : Scope} : scope.Has column ↔ (scope.any fun r => r.hasColumn column) = true := by
  simp [Scope.Has]

theorem exposes_iff {scope : Scope} : scope.Exposes name ↔ (scope.any fun r => r.name.denotedBy name) = true := by
  simp [Scope.Exposes]

theorem isFirst_has_iff {scope : Scope} : IsFirst (·.Has column) scopes scope ↔
    (scopes.find? fun scope => scope.any fun r => r.hasColumn column) = some scope := by
  rw [← isFirst_iff_find?]
  simp only [has_iff]

theorem forall_not_has_iff : (∀ scope ∈ scopes, ¬ scope.Has column) ↔
    (scopes.find? fun scope => scope.any fun r => r.hasColumn column) = none := by
  rw [List.find?_eq_none]
  simp only [has_iff]

/-- The innermost scope that has a column decides it, and the result columns do if there is none. -/
theorem plainFault?_eq (scopes : List Scope) : Scope.plainFault? results column span scopes =
    match scopes.find? fun scope => scope.any fun r => r.hasColumn column with
    | some scope =>
      if scope.countP (·.hasColumn column) = 1 then none
      else some
        { code := .ambiguousColumn
          message := "Ambiguous column name \"" ++ ({ column } : ColumnRef).render ++ "\"!", span }
    | none =>
      if results.any fun r => r.denotes column then none else some (Scope.unknownColumn { column } span) := by
  induction scopes with
  | nil => rfl
  | cons scope outer ih =>
    unfold Scope.plainFault?
    by_cases has : (scope.any fun r => r.hasColumn column) = true
    · obtain ⟨r, member, here⟩ := List.any_eq_true.1 has
      have positive : 0 < scope.countP (·.hasColumn column) := List.countP_pos_iff.2 ⟨r, member, here⟩
      simp only [List.find?_cons, has]
      split
      · omega
      · rename_i once
        simp [once]
      · rename_i several
        rw [if_neg several]
    · have zero : scope.countP (·.hasColumn column) = 0 := by simpa using has
      simp only [List.find?_cons, has, zero]
      exact ih

/-- A qualifier stands for the first relation of that name in the innermost scope that has one. -/
theorem relation?_eq_some_iff {r : Relation} : Scope.relation? scopes name = some r ↔
    ∃ scope, IsFirst (·.Exposes name) scopes scope ∧ IsFirst (fun r => r.name.denotedBy name = true) scope r := by
  unfold Scope.relation?
  rw [List.findSome?_eq_some_iff]
  constructor
  · rintro ⟨before, scope, after, rfl, found, unexposed⟩
    have first := isFirst_iff_find?.2 found
    refine ⟨scope, ⟨⟨r, List.mem_of_find?_eq_some found, first.1⟩, before, after, rfl, ?_⟩, first⟩
    intro other member
    simpa [Scope.Exposes] using unexposed other member
  · rintro ⟨scope, ⟨-, before, after, rfl, unexposed⟩, first⟩
    refine ⟨before, scope, after, rfl, isFirst_iff_find?.1 first, ?_⟩
    intro other member
    simpa [Scope.Exposes] using unexposed other member

theorem relation?_eq_none_iff :
    Scope.relation? scopes name = none ↔ ∀ scope ∈ scopes, ¬ scope.Exposes name := by
  simp [Scope.relation?, Scope.Exposes]

/-! ### Verdicts -/

theorem Context.Refuses.not_binds {c : Context} {ref : Reference} {d : Diagnostic}
    (refuses : c.Refuses tables span ref d) : ¬ c.Binds tables ref := by
  intro binds
  -- A refusal denies what the binding of the same form of reference asserts.
  cases refuses with
  | unknownTable unnamed unpublished =>
    cases binds with
    | table designates =>
      rcases designates with latest | ⟨-, only⟩
      · exact unnamed _ latest
      · rw [unpublished] at only
        cases only
  | ambiguousTable unnamed several =>
    cases binds with
    | table designates =>
      rcases designates with latest | ⟨-, only⟩
      · exact unnamed _ latest
      · simp [only] at several
  | unknownColumn unscoped unnamed =>
    cases binds with
    | plain innermost once => exact unscoped _ innermost.mem innermost.1
    | result _ named =>
      obtain ⟨result, member, denotes⟩ := named
      exact unnamed result member denotes
  | ambiguousColumn innermost several =>
    cases binds with
    | plain here once =>
      obtain rfl := innermost.unique here
      omega
    | result unscoped => exact unscoped _ innermost.mem innermost.1
  | unknownQualifier unscoped =>
    cases binds with
    | qualified innermost => exact unscoped _ innermost.mem innermost.1
  | missingColumn innermost first lacks =>
    cases binds with
    | qualified here firstHere has =>
      obtain rfl := innermost.unique here
      obtain rfl := first.unique firstHere
      exact lacks has
  | unknownAllOf unscoped =>
    cases binds with
    | allOf own exposes => exact unscoped _ own exposes
  | unknownShared unscoped =>
    cases binds with
    | shared own has => exact unscoped _ own has

/-- No fault means that a reference is bound, and a fault is one that the rules give. -/
def Context.Judged (tables : List Table) (c : Context) (span : Option Span) (ref : Reference) : Option Diagnostic → Prop
  | none => c.Binds tables ref
  | some d => c.Refuses tables span ref d

theorem plain_judged (c : Context) :
    c.Judged tables span (.column { column }) (Scope.plainFault? c.results column span c.scopes) := by
  rw [plainFault?_eq]
  split
  · rename_i scope found
    have innermost := isFirst_has_iff.2 found
    by_cases once : scope.countP (·.hasColumn column) = 1
    · rw [if_pos once]
      exact .plain innermost once
    · rw [if_neg once]
      obtain ⟨r, member, has⟩ := innermost.1
      have positive : 0 < scope.countP (·.hasColumn column) := List.countP_pos_iff.2 ⟨r, member, has⟩
      exact .ambiguousColumn innermost (by omega)
  · rename_i unscoped
    rw [← forall_not_has_iff] at unscoped
    by_cases named : (c.results.any fun r => r.denotes column) = true
    · rw [if_pos named]
      exact .result unscoped (List.any_eq_true.1 named)
    · rw [if_neg named]
      exact .unknownColumn unscoped (by simpa using named)

theorem qualified_judged (c : Context) :
    c.Judged tables span (.column { table := some name, column })
      (Scope.columnFault? c.scopes c.results { table := some name, column } span) := by
  unfold Scope.columnFault?
  dsimp only
  split
  · rename_i unscoped
    exact .unknownQualifier (relation?_eq_none_iff.1 unscoped)
  · rename_i r found
    obtain ⟨scope, innermost, first⟩ := relation?_eq_some_iff.1 found
    by_cases has : r.hasColumn column = true
    · rw [if_pos has]
      exact .qualified innermost first has
    · rw [if_neg has]
      exact .missingColumn innermost first has

theorem Occurrence.judged (tables : List Table) (o : Occurrence) : o.context.Judged tables o.span o.reference (o.fault? tables) := by
  obtain ⟨reference, span, c⟩ := o
  cases reference with
  | table name =>
    have found := tableRelation_toOption tables c.named name span
    dsimp only [fault?]
    split
    · rename_i r here
      rw [here] at found
      exact .table (designated?_eq_some_iff.1 found.symm)
    · rename_i d here
      exact tableRelation_error here
  | column ref =>
    obtain ⟨table, column⟩ := ref
    cases table with
    | none => exact plain_judged c
    | some table => exact qualified_judged c
  | allOf table =>
    dsimp only [fault?]
    by_cases exposed : (c.scopes.head?.any fun scope => scope.any fun r => r.name.denotedBy table) = true
    · rw [if_pos exposed]
      obtain ⟨scope, own, exposes⟩ := (Option.any_eq_true ..).1 exposed
      exact .allOf own (exposes_iff.2 exposes)
    · rw [if_neg exposed]
      apply Context.Refuses.unknownAllOf
      intro scope own exposes
      exact exposed ((Option.any_eq_true ..).2 ⟨scope, own, exposes_iff.1 exposes⟩)
  | shared column =>
    dsimp only [fault?]
    by_cases had : (c.scopes.head?.any fun scope => scope.any fun r => r.hasColumn column) = true
    · rw [if_pos had]
      obtain ⟨scope, own, has⟩ := (Option.any_eq_true ..).1 had
      exact .shared own (has_iff.2 has)
    · rw [if_neg had]
      apply Context.Refuses.unknownShared
      intro scope own has
      exact had ((Option.any_eq_true ..).2 ⟨scope, own, has_iff.1 has⟩)

namespace Occurrence

theorem fault?_eq_none_iff {o : Occurrence} : o.fault? tables = none ↔ o.Bound tables := by
  have judged := o.judged tables
  constructor
  · intro none
    rwa [none] at judged
  · intro bound
    cases found : o.fault? tables with
    | none => rfl
    | some d =>
      rw [found] at judged
      exact (judged.not_binds bound).elim

theorem refused_of_fault? {o : Occurrence} {d : Diagnostic} (h : o.fault? tables = some d) : o.Refused tables d := by
  have judged := o.judged tables
  rwa [h] at judged

instance (o : Occurrence) : Decidable (o.Bound tables) := decidable_of_iff _ fault?_eq_none_iff

end Occurrence

end SkyQuery
