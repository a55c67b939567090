import SkyQuery.Proofs.Extends.Values

/-!
# Conditions that both versions read

`carries_condition`: a condition of version 2.0 is read as the same condition in version 2.1, where the
subqueries are. A group and a predicate that starts with a parenthesis are told apart alike, since no text
is both.
-/

namespace SkyQuery.Grammar

open Parse

/-- The kinds at which a query of version 2.0 ends and one of version 2.1 may go on. -/
def wordsAfter : List Kind := [.ident, .plus, .minus, .star, .slash, .concat, .leftParen]

variable {query : Parse Query} {start : Place} {s s' : State}

/-! ### Conditions -/

theorem carries_eatOperator (operators : List (Kind × ComparisonOp))
    (common : ∀ entry ∈ operators, Common [] entry.1) : Carries [] [] (eatOperator operators) := by
  induction operators with
  | nil => exact carries_pure
  | cons entry others ih =>
    obtain ⟨first, more⟩ := List.forall_mem_cons.1 common
    exact .eat first carries_pure (ih more)

theorem carries_comparisonTail (left : Operand) (op : ComparisonOp) : Carries [] [] (comparisonTail left op start) :=
  carries_value.bind fun _ => .ite (fun _ => carries_placed) fun _ => carries_failAt

theorem carries_nullTail (tested : Operand) : Carries [] [] (nullTail tested start) := by
  have tail (negated : Bool) : Carries [] [] (do
      let _ ← expect (.keyword .nullKw)
      if tested.asColumn?.isSome then return .isNull tested negated (← spanFrom start)
      else
        failAt .incompatibleTypes ("Only a column can be tested against NULL, not \"" ++
          tested.render ++ "\"!") tested.span : Parse Constraint) :=
    .expect (by decide) fun _ => .ite (fun _ => carries_placed) fun _ => carries_failAt
  exact .eat (by decide) (tail true) (tail false)

theorem carries_betweenTail (tested : Operand) (negated : Bool) : Carries [] [] (betweenTail tested negated start) :=
  carries_value.bind fun _ => .expect (by decide) fun _ => carries_value.bind fun _ => carries_placed

theorem carries_patternTail (matched : Operand) (op : ComparisonOp) : Carries [] [] (patternTail matched op start) :=
  carries_value.bind fun pattern => (carries_checkString matched).bind fun _ =>
    (carries_checkString pattern).bind fun _ => carries_placed

theorem carries_memberTail (hquery : Carries [] wordsAfter query) (tested : Operand) (negated : Bool) :
    Carries [] [] (memberTail query tested negated start) := by
  refine .expect (by decide) fun _ => .sees (by decide) ?_ ?_
  · exact hquery.bind fun _ => .expect (by decide) fun _ => carries_placed
  · exact (carries_value.sepBy (by decide)).bind fun _ => .expect (by decide) fun _ => carries_placed

theorem carries_predicate (hquery : Carries [] wordsAfter query) : Carries [] [] (predicate query) := by
  have tail (tested : Operand) (negated : Bool) (start : Place) : Carries [] [] (do
      if ← eat (.keyword .betweenKw) then betweenTail tested negated start
      else if ← eat (.keyword .likeKw) then
        patternTail tested (if negated then .notLike else .like) start
      else if ← eat (.keyword .ilikeKw) then
        patternTail tested (if negated then .notIlike else .ilike) start
      else if ← eat (.keyword .inKw) then memberTail query tested negated start
      else unexpected) :=
    .eat (by decide) (carries_betweenTail tested negated) <| .eat (by decide) (carries_patternTail tested _) <|
      .eatAbsent rfl (by decide) (by decide) <|
        .eat (by decide) (carries_memberTail hquery tested negated) carries_unexpected
  refine .place fun start => carries_value.bind fun tested => ?_
  refine (carries_eatOperator comparisons (by decide)).bind fun found => ?_
  cases found with
  | some op => exact carries_comparisonTail tested op
  | none =>
    refine .eat (by decide) (carries_nullTail tested) ?_
    exact .eat (by decide) (tail tested true start) (tail tested false start)

section Groups

variable {condition : Parse Constraint}

theorem carries_grouped (hcondition : Carries [] [] condition) : Carries [] [] (grouped condition) :=
  .place fun _ => .expect (by decide) fun _ => hcondition.bind fun _ => .expect (by decide) fun _ => carries_placed

theorem carries_existsTail (hquery : Carries [] wordsAfter query) : Carries [] [] (existsTail query start) :=
  .expect (by decide) fun _ => hquery.bind fun _ => .expect (by decide) fun _ => carries_placed

/-- Where version 2.0 reads no group but a predicate, version 2.1 reads the predicate and so no group. -/
theorem carries_eitherGroup (hquery : Carries [] wordsAfter query) (hcondition : Carries [] [] condition)
    (apart : ∀ {ws}, ValueEnclosed .v21 ws → Fails .v21 condition ws) :
    Carries [] [] (either (grouped condition) (predicate query)) := by
  refine carries_of_agrees fun {s s'} hs c t h => ?_
  obtain ⟨ws, hws⟩ := hs.ended
  unfold either at h ⊢
  split at h
  · rename_i r grouped20
    obtain rfl := Except.ok.inj h
    obtain stuck | ⟨t', grouped21, ht⟩ := (carries_grouped hcondition).agrees hs c t grouped20
    · exact .inl stuck
    · rw [grouped21]
      exact .inr ⟨t', rfl, ht⟩
  split at h
  · rename_i r predicate20
    obtain rfl := Except.ok.inj h
    obtain stuck | ⟨t', predicate21, ht⟩ := (carries_predicate hquery).agrees hs c t predicate20
    · exact .inl stuck
    · -- Version 2.1 might read a group that version 2.0 cannot; but no text is a group and a predicate.
      obtain ⟨e, fails⟩ := grouped_fails_of_predicate apart hws predicate21
      rw [fails, predicate21]
      exact .inr ⟨t', rfl, ht⟩
  · cases h

theorem carries_negationFor (hquery : Carries [] wordsAfter query) (hcondition : Carries [] [] condition)
    (apart : ∀ {ws}, ValueEnclosed .v21 ws → Fails .v21 condition ws) (n : Nat) :
    Carries [] [] (negationFor query condition n) := by
  induction n with
  | zero => exact carries_unexpected
  | succ n ih =>
    refine .place fun start => .eat (by decide) (ih.bind fun _ => carries_placed) ?_
    refine .eat (by decide) (carries_existsTail hquery) ?_
    refine carries_of_agrees fun {s s'} hs c t h => ?_
    change (if (s.current.kind == .leftParen && !(s.second.kind == .keyword .selectKw)) = true
      then _ else _ : Parse Constraint) .v20 s = _ at h
    change _ ∨ ∃ t', (if (s'.current.kind == .leftParen && !(s'.second.kind == .keyword .selectKw)) = true
      then _ else _ : Parse Constraint) .v21 s' = _ ∧ _
    rw [hs.current.beq_kind rfl (by decide), hs.second.beq_kind rfl (by decide)]
    exact Agrees.ite (fun _ => (carries_eitherGroup hquery hcondition apart).agrees hs)
      (fun _ => (carries_predicate hquery).agrees hs) c t h

theorem carries_connected {word : Keyword} {connect : Constraint → Constraint → Option Span → Constraint}
    {item : Parse Constraint} (hitem : Carries [] [] item) (common : Common [] (.keyword word)) :
    Carries [] [] (connected word connect item) := by
  refine .place fun start => hitem.bind fun left => .iterate (fun left => .eat common ?_ carries_pure) left
  exact hitem.bind fun _ => carries_placed

end Groups

theorem carries_conditionFor (hquery : Carries [] wordsAfter query) (n : Nat) :
    Carries [] [] (conditionFor query n) := by
  induction n with
  | zero => exact carries_unexpected
  | succ n ih =>
    refine carries_connected (carries_connected (.bounded fun m => ?_) (by decide)) (by decide)
    exact carries_negationFor hquery ih (fun h => conditionFor_fails n h) m

theorem carries_condition (hquery : Carries [] wordsAfter query) : Carries [] [] (condition query) :=
  .bounded (carries_conditionFor hquery)

end SkyQuery.Grammar
