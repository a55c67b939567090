import Mathlib.Data.Multiset.Bind
import SkyQuery.Proofs.Scope.Complete
import SkyQuery.Proofs.Tree.Unplaced

/-!
# Queries with what they read from in another order

`Query.Reordered` relates queries that differ in the order of the items of `FROM` clauses, at any depth,
and in their places. Such queries expose the same relations, in another order, and their result columns
have the same names: `Query.Reordered.outputs`.
-/

namespace SkyQuery

/-! ### Reordered queries -/

mutual

/-- The same query but for the order of the items of `FROM` clauses, at any depth, and for the places. -/
inductive Query.Reordered : Query → Query → Prop where
  | intro {items items' : List WithItem} {b b' : QueryBody} {span span' : Option Span}
    (withItems : List.Forall₂ WithItem.Reordered items items') (body : b.Reordered b') :
    Query.Reordered ⟨items, b, span⟩ ⟨items', b', span'⟩

inductive WithItem.Reordered : WithItem → WithItem → Prop where
  | intro {name : Identifier} {columns : List Identifier} {q q' : Query} {span span' : Option Span}
    (query : q.Reordered q') : WithItem.Reordered ⟨name, columns, q, span⟩ ⟨name, columns, q', span'⟩

inductive QueryBody.Reordered : QueryBody → QueryBody → Prop where
  | select {q q' : SelectQuery} (query : q.Reordered q') : QueryBody.Reordered (.select q) (.select q')
  | set {l l' r r' : QueryBody} {op : SetOperator} {all : Bool} {order order' : List OrderItem}
    {offset offset' : Option Offset} {span span' : Option Span} (left : l.Reordered l') (right : r.Reordered r')
    (orderBy : order.map OrderItem.unplaced = order'.map OrderItem.unplaced)
    (start : offset.map Offset.unplaced = offset'.map Offset.unplaced) :
    QueryBody.Reordered (.set ⟨l, op, all, r, order, offset, span⟩) (.set ⟨l', op, all, r', order', offset', span'⟩)

/-- The items are the same in another order, each perhaps reordered inside. -/
inductive SelectQuery.Reordered : SelectQuery → SelectQuery → Prop where
  | intro {clause clause' : SelectClause} {source source' : List FromItem} {filter filter' : Option Constraint}
    {groups groups' : List Operand} {having having' : Option Constraint} {order order' : List OrderItem}
    {offset offset' : Option Offset} {span span' : Option Span} (mid : List FromItem)
    (select : clause.unplaced = clause'.unplaced) (items : List.Forall₂ FromItem.Reordered source mid)
    (reordered : mid.Perm source')
    (filtered : Option.Rel Constraint.Reordered filter filter')
    (groupBy : Operand.SameAll groups groups')
    (grouped : Option.Rel Constraint.Reordered having having')
    (orderBy : order.map OrderItem.unplaced = order'.map OrderItem.unplaced)
    (start : offset.map Offset.unplaced = offset'.map Offset.unplaced) :
    SelectQuery.Reordered ⟨clause, source, filter, groups, having, order, offset, span⟩
      ⟨clause', source', filter', groups', having', order', offset', span'⟩

inductive FromItem.Reordered : FromItem → FromItem → Prop where
  | table {name : TableName} {label : Option Identifier} {span span' : Option Span} :
    FromItem.Reordered (.table name label span) (.table name label span')
  | subquery {q q' : Query} {label : Identifier} {span span' : Option Span} (query : q.Reordered q') :
    FromItem.Reordered (.subquery q label span) (.subquery q' label span')
  | join {l l' r r' : FromItem} {kind : JoinKind} {natural : Bool} {c c' : JoinCondition} {span span' : Option Span}
    (left : l.Reordered l') (right : r.Reordered r') (condition : c.Reordered c') :
    FromItem.Reordered (.join l kind natural r c span) (.join l' kind natural r' c' span')

inductive JoinCondition.Reordered : JoinCondition → JoinCondition → Prop where
  | unstated : JoinCondition.Reordered .unstated .unstated
  | on {c c' : Constraint} (condition : c.Reordered c') : JoinCondition.Reordered (.on c) (.on c')
  | sharing {columns : List Identifier} : JoinCondition.Reordered (.sharing columns) (.sharing columns)

inductive Constraint.Reordered : Constraint → Constraint → Prop where
  | comparison {l l' r r' : Operand} {op : ComparisonOp} {span span' : Option Span} (left : l.Same l')
    (right : r.Same r') : Constraint.Reordered (.comparison l op r span) (.comparison l' op r' span')
  | between {o o' l l' h h' : Operand} {negated : Bool} {span span' : Option Span} (value : o.Same o')
    (low : l.Same l') (high : h.Same h') :
    Constraint.Reordered (.between o l h negated span) (.between o' l' h' negated span')
  | inValues {o o' : Operand} {os os' : List Operand} {negated : Bool} {span span' : Option Span}
    (value : o.Same o') (values : Operand.SameAll os os') :
    Constraint.Reordered (.inValues o os negated span) (.inValues o' os' negated span')
  | inQuery {o o' : Operand} {q q' : Query} {negated : Bool} {span span' : Option Span}
    (value : o.Same o') (query : q.Reordered q') :
    Constraint.Reordered (.inQuery o q negated span) (.inQuery o' q' negated span')
  | isNull {o o' : Operand} {negated : Bool} {span span' : Option Span} (value : o.Same o') :
    Constraint.Reordered (.isNull o negated span) (.isNull o' negated span')
  | nonEmpty {q q' : Query} {span span' : Option Span} (query : q.Reordered q') :
    Constraint.Reordered (.nonEmpty q span) (.nonEmpty q' span')
  | not {c c' : Constraint} {span span' : Option Span} (inner : c.Reordered c') :
    Constraint.Reordered (.not c span) (.not c' span')
  | and {l l' r r' : Constraint} {span span' : Option Span} (left : l.Reordered l') (right : r.Reordered r') :
    Constraint.Reordered (.and l r span) (.and l' r' span')
  | or {l l' r r' : Constraint} {span span' : Option Span} (left : l.Reordered l') (right : r.Reordered r') :
    Constraint.Reordered (.or l r span) (.or l' r' span')
  | group {c c' : Constraint} {span span' : Option Span} (inner : c.Reordered c') :
    Constraint.Reordered (.group c span) (.group c' span')

end

/-! ### A query is a reordering of itself -/

mutual

theorem Query.Reordered.refl (q : Query) : q.Reordered q := by
  cases q with
  | mk items b span => exact .intro (WithItem.Reordered.refl_all items) (QueryBody.Reordered.refl b)
termination_by structural q

theorem WithItem.Reordered.refl_all (items : List WithItem) :
    List.Forall₂ WithItem.Reordered items items := by
  cases items with
  | nil => exact .nil
  | cons item rest =>
    cases item with
    | mk name columns q span =>
      exact .cons (.intro (Query.Reordered.refl q)) (WithItem.Reordered.refl_all rest)
termination_by structural items

theorem QueryBody.Reordered.refl (b : QueryBody) : b.Reordered b := by
  cases b with
  | select q => exact .select (SelectQuery.Reordered.refl q)
  | set o =>
    cases o with
    | mk l op all r order offset span =>
      exact .set (QueryBody.Reordered.refl l) (QueryBody.Reordered.refl r) rfl rfl
termination_by structural b

theorem SelectQuery.Reordered.refl (q : SelectQuery) : q.Reordered q := by
  cases q with
  | mk clause source filter groupBy having orderBy offset span =>
    exact .intro source rfl (FromItem.Reordered.refl_all source) (.refl source)
      (Constraint.Reordered.refl_option filter) rfl (Constraint.Reordered.refl_option having) rfl rfl
termination_by structural q

theorem FromItem.Reordered.refl_all (items : List FromItem) :
    List.Forall₂ FromItem.Reordered items items := by
  cases items with
  | nil => exact .nil
  | cons item rest => exact .cons (FromItem.Reordered.refl item) (FromItem.Reordered.refl_all rest)
termination_by structural items

theorem FromItem.Reordered.refl (item : FromItem) : item.Reordered item := by
  cases item with
  | table name label span => exact .table
  | subquery q label span => exact .subquery (Query.Reordered.refl q)
  | join l kind natural r condition span =>
    exact .join (FromItem.Reordered.refl l) (FromItem.Reordered.refl r) (JoinCondition.Reordered.refl condition)
termination_by structural item

theorem JoinCondition.Reordered.refl (condition : JoinCondition) : condition.Reordered condition := by
  cases condition with
  | unstated => exact .unstated
  | on c => exact .on (Constraint.Reordered.refl c)
  | sharing columns => exact .sharing
termination_by structural condition

theorem Constraint.Reordered.refl_option (c : Option Constraint) :
    Option.Rel Constraint.Reordered c c := by
  cases c with
  | none => exact .none
  | some c => exact .some (Constraint.Reordered.refl c)
termination_by structural c

theorem Constraint.Reordered.refl (c : Constraint) : c.Reordered c := by
  cases c with
  | comparison l op r span => exact .comparison rfl rfl
  | between o l u negated span => exact .between rfl rfl rfl
  | inValues o os negated span => exact .inValues rfl rfl
  | inQuery o q negated span => exact .inQuery rfl (Query.Reordered.refl q)
  | isNull o negated span => exact .isNull rfl
  | nonEmpty q span => exact .nonEmpty (Query.Reordered.refl q)
  | not c span => exact .not (Constraint.Reordered.refl c)
  | group c span => exact .group (Constraint.Reordered.refl c)
  | and l r span => exact .and (Constraint.Reordered.refl l) (Constraint.Reordered.refl r)
  | or l r span => exact .or (Constraint.Reordered.refl l) (Constraint.Reordered.refl r)
termination_by structural c

end

/-- The items of one `FROM` clause in another order. -/
theorem SelectQuery.Reordered.of_perm (q : SelectQuery) {source : List FromItem} (h : q.source.Perm source) :
    q.Reordered { q with source } := by
  cases SelectQuery.Reordered.refl q with
  | intro mid select items reordered filtered groupBy grouped orderBy start =>
    exact .intro mid select items (reordered.trans h) filtered groupBy grouped orderBy start

/-! ### Lists whose members match in some order -/

section Matching

variable {α β γ δ : Type} {R : α → β → Prop} {S : γ → δ → Prop} {as as' : List α} {bs bs' : List β}

/-- The members of one list match those of the other in some order. -/
abbrev Matches (R : α → β → Prop) (as : List α) (bs : List β) : Prop :=
  Multiset.Rel R (as : Multiset α) (bs : Multiset β)

theorem matches_of_forall₂ (h : List.Forall₂ R as bs) : Matches R as bs := by
  induction h with
  | nil => exact .zero
  | cons here _ ih => exact .cons here ih

theorem matches_toList {a : Option α} {b : Option β} (h : Option.Rel R a b) : Matches R a.toList b.toList := by
  cases h with
  | some here => exact .cons here .zero
  | none => exact .zero

theorem Matches.perm (h : Matches R as bs) (reordered : bs.Perm bs') : Matches R as bs' := by
  unfold Matches at *
  rwa [← Multiset.coe_eq_coe.2 reordered]

theorem Matches.append (h : Matches R as bs) (h' : Matches R as' bs') : Matches R (as ++ as') (bs ++ bs') := by
  unfold Matches
  rw [← Multiset.coe_add, ← Multiset.coe_add]
  exact h.add h'

theorem Matches.flatMap {f : α → List γ} {g : β → List δ} (h : Matches R as bs)
    (each : ∀ a b, R a b → Matches S (f a) (g b)) : Matches S (as.flatMap f) (bs.flatMap g) := by
  unfold Matches
  rw [← Multiset.coe_bind, ← Multiset.coe_bind]
  exact Multiset.rel_bind (fun a b here => each a b here) h

theorem Matches.flatMap_perm {f : α → List γ} {g : β → List γ} (h : Matches R as bs)
    (each : ∀ a b, R a b → f a = g b) : (as.flatMap f).Perm (bs.flatMap g) := by
  have same : Matches Eq (as.flatMap f) (bs.flatMap g) :=
    h.flatMap fun a b here => by rw [each a b here]; exact Multiset.rel_eq.2 rfl
  exact Multiset.coe_eq_coe.1 (Multiset.rel_eq.1 same)

theorem Matches.exists_left (h : Matches R as bs) {b : β} (member : b ∈ bs) : ∃ a ∈ as, R a b := by
  obtain ⟨others, split⟩ := Multiset.exists_cons_of_mem (Multiset.mem_coe.2 member)
  unfold Matches at h
  rw [split, Multiset.rel_cons_right] at h
  obtain ⟨a, rest, here, -, whole⟩ := h
  exact ⟨a, Multiset.mem_coe.1 (whole ▸ Multiset.mem_cons_self a rest), here⟩

theorem Matches.flip (h : Matches R as bs) : Matches (fun b a => R a b) bs as := Multiset.rel_flip.2 h

theorem Matches.map_perm {f : α → γ} {g : β → γ} (h : Matches R as bs) (each : ∀ a b, R a b → f a = g b) :
    (as.map f).Perm (bs.map g) := by
  rw [List.map_eq_flatMap, List.map_eq_flatMap]
  exact h.flatMap_perm fun a b here => by rw [each a b here]

theorem Matches.map {f : α → γ} {g : β → δ} (h : Matches R as bs) (each : ∀ a b, R a b → S (f a) (g b)) :
    Matches S (as.map f) (bs.map g) := by
  rw [List.map_eq_flatMap, List.map_eq_flatMap]
  exact h.flatMap fun a b here => .cons (each a b here) .zero

theorem Matches.countP_eq {p : α → Bool} {q : β → Bool} (h : Matches R as bs) (each : ∀ a b, R a b → p a = q b) :
    as.countP p = bs.countP q := by
  have count := (h.map_perm each).countP_eq id
  rwa [List.countP_map, List.countP_map] at count

theorem Matches.any_eq {p : α → Bool} {q : β → Bool} (h : Matches R as bs) (each : ∀ a b, R a b → p a = q b) :
    as.any p = bs.any q := by
  rw [Bool.eq_iff_iff, List.any_eq_true, List.any_eq_true, ← List.countP_pos_iff, ← List.countP_pos_iff, h.countP_eq each]

theorem Matches.filterMap {f : α → Option γ} {g : β → Option δ} (h : Matches R as bs)
    (each : ∀ a b, R a b → Option.Rel S (f a) (g b)) : Matches S (as.filterMap f) (bs.filterMap g) := by
  rw [List.filterMap_eq_flatMap_toList, List.filterMap_eq_flatMap_toList]
  exact h.flatMap fun a b here => matches_toList (each a b here)

theorem find?_rel {p : α → Bool} {q : β → Bool} (h : List.Forall₂ R as bs) (each : ∀ a b, R a b → p a = q b) :
    Option.Rel R (as.find? p) (bs.find? q) := by
  induction h with
  | nil => exact .none
  | @cons a b _ _ here _ ih =>
    rw [List.find?_cons, List.find?_cons, each a b here]
    split
    · exact .some here
    · exact ih

theorem forall₂_of_map_eq {f : α → β} (h : as.map f = as'.map f) :
    List.Forall₂ (fun a a' => f a = f a') as as' := by
  rw [← List.forall₂_eq_eq_eq] at h
  rwa [List.forall₂_map_left_iff, List.forall₂_map_right_iff] at h

end Matching

/-! ### Relations that are alike -/

/-- Relations of one name with the same columns. -/
structure Relation.Alike (r r' : Relation) : Prop where
  name : r.name = r'.name
  columns : ∀ c, c ∈ r.columns ↔ c ∈ r'.columns

/-- Scopes with the same relations in some order. -/
abbrev Scope.Alike (scope scope' : Scope) : Prop := Matches Relation.Alike scope scope'

section Alike

variable {r r' : Relation} {scope scope' : Scope}

theorem Relation.Alike.refl (r : Relation) : r.Alike r := ⟨rfl, fun _ => Iff.rfl⟩

theorem Relation.Alike.symm (h : r.Alike r') : r'.Alike r := ⟨h.name.symm, fun c => (h.columns c).symm⟩

theorem Relation.Alike.hasColumn (h : r.Alike r') (column : Identifier) : r.hasColumn column = r'.hasColumn column := by
  rw [Bool.eq_iff_iff]
  simp only [Relation.hasColumn, List.any_eq_true, h.columns]

theorem Relation.Alike.aliased (h : r.Alike r') (label : Option Identifier) :
    (Scope.aliased r label).Alike (Scope.aliased r' label) := by
  cases label with
  | none => exact h
  | some label => exact ⟨rfl, h.columns⟩

theorem Scope.Alike.symm (h : scope.Alike scope') : scope'.Alike scope :=
  h.flip.mono fun _ _ _ _ here => here.symm

theorem Scope.Alike.mem_columns (h : scope.Alike scope') {p : TableName → Bool} {c : Identifier}
    (member : c ∈ (scope.filter fun r => p r.name).flatMap Relation.columns) :
    c ∈ (scope'.filter fun r => p r.name).flatMap Relation.columns := by
  obtain ⟨r, found, has⟩ := List.mem_flatMap.1 member
  obtain ⟨found, here⟩ := List.mem_filter.1 found
  obtain ⟨r', found', alike⟩ := h.flip.exists_left found
  refine List.mem_flatMap.2 ⟨r', List.mem_filter.2 ⟨found', ?_⟩, (alike.columns c).1 has⟩
  rwa [← alike.name]

end Alike

/-! ### What reordered queries expose -/

variable {tables : List Table} {named named' : List Relation}

theorem namedQuery?_alike (h : List.Forall₂ Relation.Alike named named') (name : TableName) :
    Option.Rel Relation.Alike (namedQuery? named name) (namedQuery? named' name) :=
  find?_rel h fun _ _ here => by rw [here.name]

theorem designated?_alike (tables : List Table) (h : List.Forall₂ Relation.Alike named named') (name : TableName) :
    Option.Rel Relation.Alike (designated? tables named name) (designated? tables named' name) := by
  have query := namedQuery?_alike h name
  unfold designated?
  revert query
  generalize namedQuery? named name = found
  generalize namedQuery? named' name = found'
  rintro (here | _)
  · exact .some here
  · cases Table.named tables name with
    | nil => exact .none
    | cons t rest =>
      cases rest with
      | nil => exact .some (.refl _)
      | cons => exact .none

theorem SelectItem.resultColumns_unplaced (scope : Scope) (item : SelectItem) :
    item.unplaced.resultColumns scope = item.resultColumns scope := by
  cases item with
  | expr operand label => cases label <;> simp [unplaced, resultColumns, Operand.asColumn?_unplaced]
  | _ => rfl

theorem SelectItem.mem_resultColumns {scope scope' : Scope} (h : scope.Alike scope') {item : SelectItem} {c : Identifier}
    (member : c ∈ item.resultColumns scope) : c ∈ item.resultColumns scope' := by
  cases item with
  | all =>
    have all : c ∈ (scope.filter fun _ => true).flatMap Relation.columns := by rwa [List.filter_true]
    have := Scope.Alike.mem_columns h (p := fun _ => true) all
    rwa [List.filter_true] at this
  | allOf table => exact Scope.Alike.mem_columns h (p := fun name => name.denotedBy table) member
  | expr operand label => cases label <;> exact member

theorem SelectClause.mem_resultColumns {clause clause' : SelectClause} (same : clause.unplaced = clause'.unplaced)
    {scope scope' : Scope} (h : scope.Alike scope') {c : Identifier}
    (member : c ∈ clause.items.flatMap (SelectItem.resultColumns scope)) :
    c ∈ clause'.items.flatMap (SelectItem.resultColumns scope') := by
  have items : clause.items.map SelectItem.unplaced = clause'.items.map SelectItem.unplaced :=
    congrArg SelectClause.items same
  have unplaced (scope : Scope) (items : List SelectItem) : items.flatMap (SelectItem.resultColumns scope) =
      (items.map SelectItem.unplaced).flatMap (SelectItem.resultColumns scope) := by
    rw [List.flatMap_map]
    exact List.flatMap_congr fun item _ => (SelectItem.resultColumns_unplaced scope item).symm
  rw [unplaced, items, ← unplaced] at member
  obtain ⟨item, found, has⟩ := List.mem_flatMap.1 member
  exact List.mem_flatMap.2 ⟨item, found, SelectItem.mem_resultColumns h has⟩

theorem exposed_table_alike (h : List.Forall₂ Relation.Alike named named') (name : TableName)
    (label : Option Identifier) (span span' : Option Span) :
    Scope.Alike ((FromItem.table name label span).exposed tables named)
      ((FromItem.table name label span').exposed tables named') := by
  have designated := designated?_alike tables h name
  rw [FromItem.exposed, FromItem.exposed]
  revert designated
  generalize designated? tables named name = found
  generalize designated? tables named' name = found'
  rintro (here | _)
  · exact .cons (here.aliased label) .zero
  · exact .zero

theorem FromItem.scope_eq_flatMap (source : List FromItem) :
    FromItem.scope tables named source = source.flatMap (FromItem.exposed tables named) := by
  induction source with
  | nil => rw [scope, List.flatMap_nil]
  | cons item rest ih => rw [scope, ih, List.flatMap_cons]

theorem FromItem.scope_perm {source source' : List FromItem} (reordered : source.Perm source') :
    (FromItem.scope tables named source).Perm (FromItem.scope tables named source') := by
  rw [scope_eq_flatMap, scope_eq_flatMap]
  exact reordered.flatMap_right _

mutual

theorem Query.Reordered.outputs {named named' : List Relation} (hn : List.Forall₂ Relation.Alike named named')
    (q : Query) {q' : Query} (h : q.Reordered q') (c : Identifier) :
    c ∈ q.outputs tables named ↔ c ∈ q'.outputs tables named' := by
  cases q with
  | mk items b span =>
    cases h with
    | intro withItems body =>
      rw [Query.outputs, Query.outputs]
      exact QueryBody.Reordered.outputs (WithItem.Reordered.visible hn items withItems) b body c
termination_by structural q

theorem WithItem.Reordered.visible {named named' : List Relation} (hn : List.Forall₂ Relation.Alike named named')
    (items : List WithItem) {items' : List WithItem} (h : List.Forall₂ WithItem.Reordered items items') :
    List.Forall₂ Relation.Alike (WithItem.visible tables named items) (WithItem.visible tables named' items') := by
  cases items with
  | nil =>
    cases h
    rwa [WithItem.visible, WithItem.visible]
  | cons item rest =>
    cases item with
    | mk name columns q span =>
      cases h with
      | cons here others =>
        cases here with
        | @intro _ _ _ q' _ _ query =>
          rw [WithItem.visible, WithItem.visible]
          have alike : Relation.Alike ⟨{ table := name }, if columns.isEmpty then q.outputs tables named else columns⟩
              ⟨{ table := name }, if columns.isEmpty then q'.outputs tables named' else columns⟩ := by
            refine ⟨rfl, ?_⟩
            by_cases undeclared : columns.isEmpty
            · simpa only [if_pos undeclared] using Query.Reordered.outputs hn q query
            · simp only [if_neg undeclared, implies_true]
          exact WithItem.Reordered.visible (.cons alike hn) rest others
termination_by structural items

theorem QueryBody.Reordered.outputs {named named' : List Relation} (hn : List.Forall₂ Relation.Alike named named')
    (b : QueryBody) {b' : QueryBody} (h : b.Reordered b') (c : Identifier) :
    c ∈ b.outputs tables named ↔ c ∈ b'.outputs tables named' := by
  cases b with
  | select q =>
    cases h with
    | select query =>
      rw [QueryBody.outputs, QueryBody.outputs]
      exact SelectQuery.Reordered.outputs hn q query c
  | set o =>
    cases o with
    | mk l op all r order offset span =>
      cases h with
      | set left =>
        rw [QueryBody.outputs, QueryBody.outputs]
        exact QueryBody.Reordered.outputs hn l left c
termination_by structural b

theorem SelectQuery.Reordered.outputs {named named' : List Relation} (hn : List.Forall₂ Relation.Alike named named')
    (q : SelectQuery) {q' : SelectQuery} (h : q.Reordered q') (c : Identifier) :
    c ∈ q.outputs tables named ↔ c ∈ q'.outputs tables named' := by
  cases q with
  | mk clause source filter groupBy having orderBy offset span =>
    cases h with
    | @intro _ _ _ source' _ _ _ _ _ _ _ _ _ _ _ _ mid select items reordered =>
      have scopes : (FromItem.scope tables named source).Alike (FromItem.scope tables named' source') :=
        Matches.perm (FromItem.Reordered.scope hn source items) (FromItem.scope_perm reordered)
      rw [SelectQuery.outputs, SelectQuery.outputs]
      exact ⟨SelectClause.mem_resultColumns select scopes,
        SelectClause.mem_resultColumns select.symm (Scope.Alike.symm scopes)⟩
termination_by structural q

theorem FromItem.Reordered.scope {named named' : List Relation} (hn : List.Forall₂ Relation.Alike named named')
    (source : List FromItem) {source' : List FromItem} (h : List.Forall₂ FromItem.Reordered source source') :
    Scope.Alike (FromItem.scope tables named source) (FromItem.scope tables named' source') := by
  cases source with
  | nil =>
    cases h
    rw [FromItem.scope, FromItem.scope]
    exact .zero
  | cons item rest =>
    cases h with
    | cons here others =>
      rw [FromItem.scope, FromItem.scope]
      exact Matches.append (FromItem.Reordered.exposed hn item here) (FromItem.Reordered.scope hn rest others)
termination_by structural source

theorem FromItem.Reordered.exposed {named named' : List Relation} (hn : List.Forall₂ Relation.Alike named named')
    (item : FromItem) {item' : FromItem} (h : item.Reordered item') :
    Scope.Alike (item.exposed tables named) (item'.exposed tables named') := by
  cases item with
  | table name label span =>
    cases h
    exact exposed_table_alike hn name label _ _
  | subquery q label span =>
    cases h with
    | subquery query =>
      rw [FromItem.exposed, FromItem.exposed]
      exact .cons ⟨rfl, Query.Reordered.outputs hn q query⟩ .zero
  | join l kind natural r condition span =>
    cases h with
    | join left right _ =>
      rw [FromItem.exposed, FromItem.exposed]
      exact Matches.append (FromItem.Reordered.exposed hn l left) (FromItem.Reordered.exposed hn r right)
termination_by structural item

end

theorem Query.Reordered.withItems {q q' : Query} (h : q.Reordered q') :
    List.Forall₂ WithItem.Reordered q.withItems q'.withItems := by
  cases h with
  | intro withItems => exact withItems

theorem Query.Reordered.body {q q' : Query} (h : q.Reordered q') : q.body.Reordered q'.body := by
  cases h with
  | intro _ body => exact body

theorem SelectQuery.Reordered.source {q q' : SelectQuery} (h : q.Reordered q') :
    Matches FromItem.Reordered q.source q'.source := by
  cases h with
  | intro mid _ items reordered => exact (matches_of_forall₂ items).perm reordered

theorem SelectQuery.Reordered.scope {q q' : SelectQuery} (h : q.Reordered q')
    (hn : List.Forall₂ Relation.Alike named named') :
    (FromItem.scope tables named q.source).Alike (FromItem.scope tables named' q'.source) := by
  rw [FromItem.scope_eq_flatMap, FromItem.scope_eq_flatMap]
  exact h.source.flatMap fun item _ here => FromItem.Reordered.exposed hn item here

end SkyQuery
