import SkyQuery.Grammar.Query
import SkyQuery.Proofs.Extends.Conditions
import SkyQuery.Proofs.Located.Values

/-!
# Queries that both versions read

`carries_query`: a query of version 2.0 is read as the same query in version 2.1, unless it stops before a
word with which version 2.1 goes on. Version 2.0 has no set operators, and it orders and groups by less
than version 2.1.
-/

namespace SkyQuery.Grammar

open Parse

variable {query : Parse Query} {start : Place} {s s' t : State}

/-! ### What queries read from -/

theorem carries_optionalAlias : Carries [] [] optionalAlias :=
  .eat (by decide) (carries_identifier.bind fun _ => carries_pure) carries_eatIdentifier

theorem carries_tableRef (hquery : Carries [] wordsAfter query) : Carries [] [] (tableRef query) := by
  refine .place fun start => .eat (by decide) ?_ ?_
  · refine hquery.bind fun _ => .expect (by decide) fun _ => ?_
    exact .eat (by decide) (carries_identifier.bind fun _ => carries_placed)
      (carries_identifier.bind fun _ => carries_placed)
  · refine (carries_dotted 2).bind fun parts => ?_
    cases TableName.ofParts? parts with
    | none => exact carries_unexpected
    | some name => exact carries_optionalAlias.bind fun _ => carries_placed

theorem carries_eatSide : Carries [] [] eatSide :=
  .eat (by decide) carries_pure (.eat (by decide) carries_pure (.eat (by decide) carries_pure carries_pure))

theorem carries_eatJoin : Carries [] [] eatJoin := by
  refine .eat (by decide) (.expect (by decide) fun _ => carries_pure) (.eat (by decide) carries_pure ?_)
  refine carries_eatSide.bind fun found => ?_
  cases found with
  | none => exact carries_pure
  | some side =>
    exact .eat (by decide) (.expect (by decide) fun _ => carries_pure) (.expect (by decide) fun _ => carries_pure)

theorem carries_joinCondition (hquery : Carries [] wordsAfter query) : Carries [] [] (joinCondition query) := by
  refine .eat (by decide) ((carries_condition hquery).bind fun _ => carries_pure) ?_
  refine .eat (by decide) ?_ carries_unexpected
  refine .expect (by decide) fun _ => (carries_identifier.sepBy (by decide)).bind fun _ => ?_
  exact .expect (by decide) fun _ => carries_pure

theorem carries_joinTail (hquery : Carries [] wordsAfter query) (left : FromItem) :
    Carries [] [] (joinTail query start left) := by
  refine .eat (by decide) ?_ (.eat (by decide) (carries_eatJoin.bind fun found => ?_) (carries_eatJoin.bind fun found => ?_))
  · exact .expect (by decide) fun _ => (carries_tableRef hquery).bind fun _ => carries_placed
  · cases found with
    | none => exact carries_unexpected
    | some kind => exact (carries_tableRef hquery).bind fun _ => carries_pure.bind fun _ => carries_placed
  · cases found with
    | none => exact carries_pure
    | some kind =>
      exact (carries_tableRef hquery).bind fun _ => (carries_joinCondition hquery).bind fun _ => carries_placed

theorem carries_fromItem (hquery : Carries [] wordsAfter query) : Carries [] [] (fromItem query) :=
  .place fun _ => (carries_tableRef hquery).bind fun left => .iterate (fun left => carries_joinTail hquery left) left

theorem carries_fromClause (hquery : Carries [] wordsAfter query) : Carries [] [] (fromClause query) :=
  .expect (by decide) fun _ => (carries_fromItem hquery).sepBy (by decide)

/-! ### The select clause -/

theorem carries_eatTableStar : Carries [] [] eatTableStar := by
  refine carries_of_agrees fun {s s'} hs found t h => ?_
  unfold eatTableStar at h ⊢
  rw [hs.current.name, hs.second.beq_kind rfl (by decide)]
  split at h
  · rename_i opens
    rw [if_pos opens]
    split at h
    · rename_i parts r hparts
      obtain stuck | ⟨r', hparts', hr⟩ := (carries_dotted 2).agrees hs parts r hparts
      · exact absurd stuck.kind List.not_mem_nil
      rw [hparts']
      simp only
      rw [hr.current.beq_kind rfl (by decide), hr.second.beq_kind rfl (by decide)]
      split at h
      · rename_i star
        rw [if_pos star]
        cases table : TableName.ofParts? parts <;> rw [table] at h <;> cases h
        · exact .inr ⟨s', rfl, hs⟩
        · exact .inr ⟨_, rfl, hr.advance.advance⟩
      · rename_i noStar
        rw [if_neg noStar]
        cases h
        exact .inr ⟨s', rfl, hs⟩
    · cases h
  · rename_i other
    rw [if_neg other]
    cases h
    exact .inr ⟨s', rfl, hs⟩

theorem carries_selectItem : Carries [] [] selectItem := by
  refine .place fun start => .eat (by decide) carries_placed (carries_eatTableStar.bind fun found => ?_)
  cases found with
  | some table => exact carries_placed
  | none => exact carries_value.bind fun _ => carries_optionalAlias.bind fun _ => carries_pure

theorem carries_rowCount (word : String) : Carries [] [] (rowCount word) := by
  refine .place fun start => .expect (by decide) fun token => ?_
  cases number : digitsBelow? (Nat.pow 2 64) token.text with
  | none =>
    simp only [number]
    exact .spanFrom fun _ => carries_failAt
  | some n =>
    simp only [number]
    exact carries_pure

theorem carries_distinctness : Carries [] [] distinctness :=
  .eat (by decide) carries_pure (.eat (by decide) carries_pure carries_pure)

theorem carries_topClause : Carries [] [] topClause :=
  .eat (by decide) ((carries_rowCount "TOP").bind fun _ => carries_pure) carries_pure

theorem carries_selectClause : Carries wordsAfter [] selectClause :=
  .place fun _ => .expect (by decide) fun _ => carries_distinctness.bind fun _ => carries_topClause.bind fun _ =>
    (carries_selectItem.sepBy (by decide)).bind fun _ => carries_placed

/-! ### Grouping and order -/

theorem held_of_kind {kind : Kind} (here : t.current.kind = kind) (listed : kind ∈ wordsAfter)
    (noName : kind ≠ .ident ∧ kind ≠ .quotedIdent) : Held wordsAfter t.current := by
  subst here
  exact ⟨listed, isIdentifier_kind noName.1 noName.2⟩

/-- What version 2.0 reads as a column or a number is all of a value, where it does not stop before a word
with which values go on. -/
theorem value_of_item {o : Operand} (opens : Kind.opensPrimary s'.current.kind = true)
    (free : ¬ Held wordsAfter t.current)
    (read : ∀ expected, ∃ t', primary (call (valueFor s'.rest.length)) (valueFor s'.rest.length) .v21
      { s' with expected } = .ok (o, t') ∧ t.Becomes t') : ∃ t', value .v21 s' = .ok (o, t') ∧ t.Becomes t' := by
  refine value_alone opens fun expected => ?_
  obtain ⟨t', ht', ht⟩ := read expected
  refine ⟨t', ht', Bool.eq_false_iff.2 fun goesOn => free ?_, ht.expecting t.expected⟩
  have same {kind : Kind} (here : t'.current.kind = kind) (known : kind.availableIn .v20 = true)
      (noWord : kind ≠ .ident) : t.current.kind = kind := (ht.current.kind_iff known noWord).1 here
  cases kind : t'.current.kind <;> rw [kind] at goesOn <;> cases goesOn
  all_goals exact held_of_kind (same kind rfl (by decide)) (by decide) (by decide)

/-- A column of version 2.0 is a value of version 2.1. -/
theorem agrees_column {o : Operand} (hs : s.Becomes s') (h : columnRef .v20 s = .ok (o, t)) :
    Held wordsAfter t.current ∨ ∃ t', value .v21 s' = .ok (o, t') ∧ t.Becomes t' := by
  refine Classical.or_iff_not_imp_left.2 fun free => ?_
  have column {r : State} (hr : s.Becomes r) : ∃ t', columnRef .v21 r = .ok (o, t') ∧ t.Becomes t' :=
    (carries_columnRef.agrees hr o t h).resolve_left fun stuck => List.not_mem_nil stuck.kind
  obtain ⟨t', ht', ht⟩ := column hs
  obtain ⟨ws, hws⟩ := hs.ended
  have name : isIdentifier .v21 s'.current = true := (columnRef_ok ht').1
  -- A name before a parenthesis is a call in version 2.1; version 2.0 stops at the parenthesis.
  have noCall : s'.second.kind ≠ .leftParen := fun paren => by
    have next := (ht.current.kind_iff rfl (by decide)).1 (columnRef_call hws paren ht')
    exact free (held_of_kind next (by decide) (by decide))
  refine value_of_item (opensPrimary_of_isIdentifier name) free fun expected => ?_
  rw [primary_column (s := { s' with expected }) name noCall]
  exact column (hs.expecting s.expected expected)

theorem carries_groupItem : Carries [] wordsAfter groupItem := carries_of_agrees fun hs _ _ h => agrees_column hs h

theorem carries_groupByClause : Carries wordsAfter wordsAfter groupByClause :=
  .expect (by decide) fun _ => .expect (by decide) fun _ => carries_groupItem.sepBy (by decide)

theorem orderKey_integer (integer : s.current.kind = .integer) : orderKey .v20 s =
    .ok (.numeric s.current.text (some (Span.between s.current.start s.advance.reached)), s.advance) := by
  change (if (s.current.kind == .integer) = true then _ else _ : Parse Operand) .v20 _ = _
  rw [if_pos (beq_iff_eq.2 integer)]
  rfl

theorem orderKey_column (other : s.current.kind ≠ .integer) :
    orderKey .v20 s = columnRef .v20 { s with expected := Kind.integer.describe :: s.expected } := by
  change (if (s.current.kind == .integer) = true then _ else _ : Parse Operand) .v20 _ = _
  rw [if_neg (mt beq_iff_eq.1 other)]

theorem primary_number {v : Version} {call value : Parse Operand} (number : s.current.kind.isNumber = true) :
    primary call value v s =
      .ok (.numeric s.current.text (some (Span.between s.current.start s.advance.reached)), s.advance) := by
  rw [primary, place_bind, current_bind, if_pos number]
  rfl

theorem carries_orderKey : Carries [] wordsAfter orderKey := by
  refine carries_of_agrees fun {s s'} hs o t h => ?_
  change _ ∨ ∃ t', value .v21 s' = _ ∧ _
  by_cases integer : s.current.kind = .integer
  · have same : s'.current = s.current := hs.current.eq fun word => by rw [integer] at word; cases word
    rw [orderKey_integer integer] at h
    obtain ⟨rfl, rfl⟩ := Prod.mk.inj (Except.ok.inj h)
    refine Classical.or_iff_not_imp_left.2 fun free => ?_
    refine value_of_item (by rw [same, integer]; rfl) free fun expected => ⟨s'.advance, ?_, hs.advance⟩
    rw [primary_number (by rw [same, integer]; rfl), State.advance_expecting, same, hs.advance.reached]
  · rw [orderKey_column integer] at h
    exact agrees_column (hs.expecting _ s'.expected) h

theorem carries_direction : Carries wordsAfter wordsAfter direction :=
  .eat (by decide) carries_pure.fresh (.eat (by decide) carries_pure.fresh carries_pure)

theorem carries_orderItem : Carries [] wordsAfter orderItem :=
  .place fun _ => carries_orderKey.bind fun _ => carries_direction.bind fun _ => carries_placed

theorem carries_orderByClause : Carries wordsAfter wordsAfter orderByClause :=
  .expect (by decide) fun _ => .expect (by decide) fun _ => carries_orderItem.sepBy (by decide)

theorem carries_offsetClause : Carries wordsAfter wordsAfter offsetClause :=
  .place fun _ => .eatAbsent rfl (by decide) (by decide) carries_pure

/-! ### Bodies -/

theorem carries_optionalClause {α : Type} {word : Keyword} {clause : Parse (List α)} {held : List Kind}
    (hclause : Carries wordsAfter wordsAfter clause) (le : held ⊆ wordsAfter) (common : Common held (.keyword word)) :
    Carries held wordsAfter (optionalClause word clause) :=
  .sees common hclause.fresh (carries_pure.mono (List.Subset.refl _) le)

theorem carries_optionalCondition {word : Keyword} {held : List Kind} (hquery : Carries [] wordsAfter query)
    (common : Common held (.keyword word)) : Carries held held (optionalCondition query word) :=
  .eat common (((carries_condition hquery).bind fun _ => carries_pure).mono (List.nil_subset _) (List.nil_subset _))
    carries_pure

theorem carries_selectQuery (hquery : Carries [] wordsAfter query) :
    Carries wordsAfter wordsAfter (selectQuery query) := by
  refine .place fun start => carries_selectClause.bind fun clause => (carries_fromClause hquery).bind fun source => ?_
  refine (carries_optionalCondition hquery (by decide)).bind fun filter => ?_
  refine (carries_optionalClause carries_groupByClause (List.nil_subset _) (by decide)).bind fun groupBy => ?_
  exact (carries_optionalCondition hquery (by decide)).bind fun having => carries_placed

/-- Version 2.0 has no set operators. -/
theorem carries_eatSetOperator (operators : List (Keyword × SetOperator))
    (new : ∀ entry ∈ operators, entry.1.availableIn .v20 = false ∧ Kind.keyword entry.1 ∉ wordsAfter) :
    Carries wordsAfter wordsAfter (eatSetOperator operators) := by
  induction operators with
  | nil => exact carries_pure
  | cons entry others ih =>
    obtain ⟨first, more⟩ := List.forall_mem_cons.1 new
    exact .eatLater first.1 (by decide) first.2 (ih more)

theorem carries_combined {operators : List (Keyword × SetOperator)} {item : Parse QueryBody}
    (hitem : Carries wordsAfter wordsAfter item)
    (new : ∀ entry ∈ operators, entry.1.availableIn .v20 = false ∧ Kind.keyword entry.1 ∉ wordsAfter) :
    Carries wordsAfter wordsAfter (combined operators item) := by
  refine .place fun start => hitem.bind fun left => .iterate (fun left => ?_) left
  refine (carries_eatSetOperator operators new).bind fun found => ?_
  -- No operator is found in version 2.0, yet the rule asks for what would follow one.
  cases found with
  | none => exact carries_pure
  | some op =>
    have right (all : Bool) : Carries wordsAfter wordsAfter (do
        let right ← item
        return some (.set { left, op, all, right, orderBy := [], offset := none,
                            span := ← spanFrom start }) : Parse (Option QueryBody)) :=
      hitem.bind fun _ => carries_placed
    exact .eat (by decide) (right true).fresh (right false)

theorem carries_queryBody (hquery : Carries [] wordsAfter query) : Carries wordsAfter wordsAfter (queryBody query) :=
  carries_combined (carries_combined ((carries_selectQuery hquery).bind fun _ => carries_pure) (by decide)) (by decide)

theorem carries_orderedBody (hquery : Carries [] wordsAfter query) :
    Carries wordsAfter wordsAfter (orderedBody query) := by
  refine .place fun start => (carries_queryBody hquery).bind fun body => ?_
  refine (carries_optionalClause carries_orderByClause (List.Subset.refl _) (by decide)).bind fun orderBy => ?_
  exact carries_offsetClause.bind fun offset => carries_placed

theorem carries_subqueryFor (n : Nat) : Carries [] wordsAfter (subqueryFor n) := by
  induction n with
  | zero => exact carries_unexpected
  | succ n ih =>
    exact .place fun start => (carries_orderedBody ih).fresh.bind fun body => carries_placed

theorem carries_subquery : Carries [] wordsAfter subquery := .bounded carries_subqueryFor

theorem carries_withClause : Carries wordsAfter wordsAfter withClause :=
  .eatLater rfl (by decide) (by decide) carries_pure

/-- A query of version 2.0 is read as the same query in version 2.1. -/
theorem carries_query : Carries wordsAfter wordsAfter Grammar.query :=
  .place fun _ => carries_withClause.bind fun _ => (carries_orderedBody carries_subquery).bind fun _ => carries_placed

end SkyQuery.Grammar
