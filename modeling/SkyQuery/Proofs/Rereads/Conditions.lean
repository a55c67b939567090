import SkyQuery.Proofs.Rereads.Parentheses

/-!
# Conditions are read again

`rereads_condition`: a condition is read again from its words if the queries in it are.
-/

namespace SkyQuery.Grammar

open Parse

variable {v : Version} {outer : Bool} {d : Nat} {query query' : Parse Query} {start start' : Place}

/-- `query'` reads again what `query` reads, at other places, if it is given fewer than `d` words. -/
abbrev RereadsQuery (v : Version) (d : Nat) (query query' : Parse Query) : Prop :=
  Rereads false v [] d (fun _ => True) query query' Query.unplaced

/-- `condition'` reads again what `condition` reads, at other places, if it is given fewer than `d` words. -/
abbrev RereadsCondition (outer : Bool) (v : Version) (d : Nat) (condition condition' : Parse Constraint) : Prop :=
  Rereads outer v [] d (fun _ => True) condition condition' Constraint.unplaced

/-! ### Predicates -/

theorem rereads_eatOperator {operators : List (Kind × ComparisonOp)}
    (inside : ∀ entry ∈ operators, ¬Stops outer entry.1) :
    Rereads outer v [] d (·.isSome = true) (eatOperator operators) (eatOperator operators) id := by
  induction operators with
  | nil => exact rereads_pure rfl Bool.false_ne_true
  | cons entry others ih =>
    obtain ⟨first, more⟩ := List.forall_mem_cons.1 inside
    exact .eatIf first (rereads_pure rfl id) (ih more)

theorem comparable_same {a a' b b' : Operand} (ha : a.Same a') (hb : b.Same b') :
    comparable a b = comparable a' b' := by
  simp only [comparable, ha.isNumeric, hb.isNumeric, ha.isString, hb.isString, ha.isGeometry, hb.isGeometry]

section Tails

variable {left left' : Operand} (same : left'.Same left)

include same

theorem rereads_comparisonTail (op : ComparisonOp) :
    RereadsCondition outer v d (comparisonTail left op start) (comparisonTail left' op start') := by
  refine rereads_value.first (fun right right' same' => ?_) (Nat.le_succ d)
  rw [comparable_same same same']
  refine .ite (fun _ => rereads_placed fun _ _ => ?_) fun _ => rereads_failAt
  simp only [Constraint.unplaced, same.eq, same']

theorem rereads_nullTail : RereadsCondition outer v d (nullTail left start) (nullTail left' start') := by
  have tail (negated : Bool) : RereadsCondition outer v d (do
      let _ ← expect (.keyword .nullKw)
      if left.asColumn?.isSome then return .isNull left negated (← spanFrom start)
      else
        failAt .incompatibleTypes ("Only a column can be tested against NULL, not \"" ++
          left.render ++ "\"!") left.span) (do
      let _ ← expect (.keyword .nullKw)
      if left'.asColumn?.isSome then return .isNull left' negated (← spanFrom start')
      else
        failAt .incompatibleTypes ("Only a column can be tested against NULL, not \"" ++
          left'.render ++ "\"!") left'.span) := by
    refine .expect (by nofun) (fun _ _ _ _ => ?_) (Nat.le_succ d)
    rw [same.asColumn?]
    refine .ite (fun _ => rereads_placed fun _ _ => ?_) fun _ => rereads_failAt
    simp only [Constraint.unplaced, same.eq]
  exact .eat (by nofun) (tail true).any (tail false) (Nat.le_succ d)

theorem rereads_betweenTail (negated : Bool) :
    RereadsCondition outer v d (betweenTail left negated start) (betweenTail left' negated start') := by
  refine rereads_value.first (fun low low' hlow => ?_) (Nat.le_succ d)
  refine .expect (by nofun) (fun _ _ _ _ => ?_) (Nat.le_succ d)
  refine rereads_value.any.bind fun high high' hhigh => rereads_placed fun _ _ => ?_
  simp only [Constraint.unplaced, same.eq, hlow, hhigh]

theorem rereads_patternTail (op : ComparisonOp) :
    RereadsCondition outer v d (patternTail left op start) (patternTail left' op start') := by
  refine rereads_value.first (fun pattern pattern' same' => ?_) (Nat.le_succ d)
  refine (rereads_checkString same).bindSame fun _ => (rereads_checkString same').bindSame fun _ => ?_
  refine rereads_placed fun _ _ => ?_
  simp only [Constraint.unplaced, same.eq, same']

theorem rereads_memberTail (hq : RereadsQuery v d query query') (negated : Bool) :
    RereadsCondition outer v d (memberTail query left negated start) (memberTail query' left' negated start') := by
  refine .expect (by nofun) (fun _ _ _ _ => .peek (peeks_sees _) (blind_sees (by nofun)) (fun w select => ?_) ?_) (Nat.le_succ d)
  · rw [show (w.1 == _) = true from Bool.ne_false_iff.1 select]
    refine (hq.taking fun _ _ _ _ _ => trivial).enclosed fun source source' same' => ?_
    refine .expect (by nofun) (fun _ _ _ _ => rereads_placed fun _ _ => ?_) (Nat.le_succ d)
    simp only [Constraint.unplaced, same.eq, same']
  · refine (rereads_value.sepBy (by nofun)).any.bind fun values values' same' => ?_
    refine .expect (by nofun) (fun _ _ _ _ => rereads_placed fun _ _ => ?_) (Nat.le_succ d)
    simp only [Constraint.unplaced, same.eq, same']

end Tails

theorem comparisons_inside : ∀ entry ∈ comparisons, ¬Stops outer entry.1 := by
  simp only [comparisons, List.forall_mem_cons]
  refine ⟨?_, ?_, ?_, ?_, ?_, ?_, List.forall_mem_nil _⟩ <;> rintro ⟨⟩

theorem rereads_predicate (hq : RereadsQuery v d query query') :
    RereadsCondition outer v d (predicate query) (predicate query') := by
  refine .place fun start start' => rereads_value.first (fun tested tested' same => ?_) (Nat.le_succ d)
  have same : tested'.Same tested := same
  refine (rereads_eatOperator comparisons_inside).matched ?_ fun op => (rereads_comparisonTail same op).any
  · have negatable (negated : Bool) : RereadsCondition outer v d (do
        if ← eat (.keyword .betweenKw) then betweenTail tested negated start
        else if ← eat (.keyword .likeKw) then patternTail tested (if negated then .notLike else .like) start
        else if ← eat (.keyword .ilikeKw) then patternTail tested (if negated then .notIlike else .ilike) start
        else if ← eat (.keyword .inKw) then memberTail query tested negated start
        else unexpected) (do
        if ← eat (.keyword .betweenKw) then betweenTail tested' negated start'
        else if ← eat (.keyword .likeKw) then patternTail tested' (if negated then .notLike else .like) start'
        else if ← eat (.keyword .ilikeKw) then patternTail tested' (if negated then .notIlike else .ilike) start'
        else if ← eat (.keyword .inKw) then memberTail query' tested' negated start'
        else unexpected) := by
      refine .eatIf (by nofun) (rereads_betweenTail same negated).any ?_
      refine .eatIf (by nofun) (rereads_patternTail same _).any ?_
      refine .eatIf (by nofun) (rereads_patternTail same _).any ?_
      exact .eatIf (by nofun) (rereads_memberTail same hq negated).any rereads_unexpected
    refine .eatIf (by nofun) (rereads_nullTail same).any ?_
    exact .eat (by nofun) (negatable true).any (negatable false).any (Nat.le_succ d)

/-! ### Groups -/

variable {condition condition' : Parse Constraint}

theorem rereads_grouped {e : Nat} (hc : RereadsCondition outer v e condition condition') (room : d ≤ e + 1) :
    RereadsCondition outer v d (grouped condition) (grouped condition') := by
  refine .place fun start start' => .expect (by nofun) (fun _ _ _ _ => hc.any.bind fun inner inner' same => ?_) room
  refine .expect (by nofun) (fun _ _ _ _ => rereads_placed fun _ _ => ?_) (Nat.le_succ e)
  simp only [Constraint.unplaced, same]

theorem rereads_existsTail (hq : RereadsQuery v d query query') :
    RereadsCondition outer v d (existsTail query start) (existsTail query' start') := by
  refine .expect (by nofun) (fun _ _ _ _ => hq.any.enclosed fun source source' same => ?_) (Nat.le_succ d)
  refine .expect (by nofun) (fun _ _ _ _ => rereads_placed fun _ _ => ?_) (Nat.le_succ d)
  simp only [Constraint.unplaced, same]

/-- What may start with a parenthesis: a group, or a predicate. -/
def groupOrPredicate (query : Parse Query) (condition : Parse Constraint) : Parse Constraint := do
  if (← current).kind == .leftParen && (← second).kind != .keyword .selectKw then
    either (grouped condition) (predicate query)
  else predicate query

/-- A predicate is read whether or not a group is tried first, since no group is read where it is. -/
theorem reads_afterGroup {ws rest : List Word} {P : Constraint → Prop} (h : Reads v (predicate query) ws rest P)
    (fails : ∀ {ws}, ValueEnclosed v ws → Fails v condition ws) :
    Reads v (groupOrPredicate query condition) ws rest P := by
  have group : Fails v (grouped condition) (ws ++ rest) := fun s hs => by
    obtain ⟨c, t, hc, -⟩ := h s hs
    exact grouped_fails_of_predicate fails hs hc
  intro s hs
  by_cases both : (s.current.kind == .leftParen && s.second.kind != .keyword .selectKw) = true
  · exact Reads.iteTrue both (h.eitherRight group) s hs
  · exact Reads.iteFalse both h s hs

theorem rereads_afterGroup (hpredicate : RereadsCondition outer v d (predicate query) (predicate query'))
    (fails : ∀ {ws}, ValueEnclosed v ws → Fails v condition' ws) :
    RereadsCondition outer v d (predicate query) (groupOrPredicate query' condition') := by
  intro s whole c t hs h
  obtain ⟨ws, us, rfl, ht, took, again⟩ := hpredicate s whole c t hs h
  exact ⟨ws, us, rfl, ht, took, fun rest hrest short => reads_afterGroup (again rest hrest short) fails⟩

theorem rereads_groupOrPredicate (hgroup : RereadsCondition outer v d (grouped condition) (grouped condition'))
    (hpredicate : RereadsCondition outer v d (predicate query) (predicate query'))
    (fails : ∀ {ws}, ValueEnclosed v ws → Fails v condition' ws) :
    RereadsCondition outer v d (groupOrPredicate query condition) (groupOrPredicate query' condition') := by
  intro s whole c t hs h
  change (if (s.current.kind == .leftParen && s.second.kind != .keyword .selectKw) = true then
    either (grouped condition) (predicate query) else predicate query) v s = .ok (c, t) at h
  split at h
  · rename_i both
    unfold Parse.either at h
    split at h
    · rename_i r hr
      cases h
      obtain ⟨ws, us, rfl, ht, took, again⟩ := hgroup s whole c t hs hr
      obtain ⟨w, ws, rfl⟩ := List.exists_cons_of_ne_nil (took trivial)
      refine ⟨w :: ws, us, rfl, ht, took, fun rest hrest short s' hs' => ?_⟩
      have both' : (s'.current.kind == .leftParen && s'.second.kind != .keyword .selectKw) = true := by
        have hs : s.Shows (w :: (ws ++ us)) := hs
        have hs' : s'.Shows (w :: (ws ++ rest)) := hs'
        rw [Bool.and_eq_true, beq_iff_eq, bne_iff_ne, hs.kind, hs.secondKind] at both
        rw [Bool.and_eq_true, beq_iff_eq, bne_iff_ne, hs'.kind, hs'.secondKind]
        refine ⟨both.1, ?_⟩
        rcases (hrest.append ws).nextKind with same | stops
        · exact same ▸ both.2
        · exact stops.ne nofun
      exact Reads.iteTrue both' (again rest hrest short).eitherLeft s' hs'
    · split at h
      · rename_i r hr
        cases h
        exact rereads_afterGroup hpredicate fails s whole c t hs hr
      · cases h
  · exact rereads_afterGroup hpredicate fails s whole c t hs h

theorem rereads_negationFor (hq : RereadsQuery v d query query') {e : Nat}
    (hc : RereadsCondition outer v e condition condition') (room : d ≤ e + 1)
    (fails : ∀ {ws}, ValueEnclosed v ws → Fails v condition' ws) (n m : Nat) :
    RereadsCondition outer v (min d m) (negationFor query condition n) (negationFor query' condition' m) := by
  induction n generalizing m with
  | zero => exact rereads_unexpected
  | succ n ih =>
    have read (m : Nat) : RereadsCondition outer v (min d (m + 1)) (negationFor query condition (n + 1))
        (negationFor query' condition' (m + 1)) := by
      have inner {start start' : Place} : RereadsCondition outer v (min d m) (do
          let inner ← negationFor query condition n
          return .not inner (← spanFrom start)) (do
          let inner ← negationFor query' condition' m
          return .not inner (← spanFrom start')) := by
        refine (ih m).first (fun inner inner' same => rereads_placed fun _ _ => ?_) (Nat.le_succ _)
        simp only [Constraint.unplaced, same]
      have choice := rereads_groupOrPredicate (rereads_grouped hc room) (rereads_predicate hq) fails
      refine .place fun start start' => .eat (by nofun) inner.any ?_ (by omega)
      exact .eatIf (by nofun) ((rereads_existsTail hq).any.shorter (Nat.min_le_left d _))
        (choice.shorter (Nat.min_le_left d _))
    cases m with
    | zero =>
      rw [Nat.min_zero]
      exact (read 0).vacuous
    | succ m => exact read m

/-! ### Connections -/

section Connections

variable {word : Keyword} {connect : Constraint → Constraint → Option Span → Constraint} {item item' : Parse Constraint}

/-- One more condition after the word. -/
def connected.round (word : Keyword) (connect : Constraint → Constraint → Option Span → Constraint)
    (item : Parse Constraint) (start : Place) (left : Constraint) : Parse (Option Constraint) := do
  if ← eat (.keyword word) then
    let right ← item
    return some (connect left right (← spanFrom start))
  else return none

theorem rereads_connectedRound (inside : ¬Stops outer (.keyword word))
    (unplaced : ∀ left right span, (connect left right span).unplaced = connect left.unplaced right.unplaced none)
    (hitem : RereadsCondition outer v d item item') {left left' : Constraint} (same : left'.unplaced = left.unplaced) :
    Rereads outer v [] d (·.isSome = true) (connected.round word connect item start left)
      (connected.round word connect item' start' left') (Option.map Constraint.unplaced) := by
  refine .eatIf inside ?_ (rereads_pure rfl (by simp))
  refine hitem.any.bind fun right right' same' => rereads_placed fun _ _ => ?_
  simp only [Option.map_some, unplaced, same, same']

/-- No condition goes on at the end of a text. -/
theorem connectedRound_ended (start : Place) (left : Constraint) :
    Reads v (connected.round word connect item start left) [] [] (· = none) := .eatElse (by nofun) (reads_pure rfl)

theorem rereads_connected (inside : ¬Stops outer (.keyword word))
    (unplaced : ∀ left right span, (connect left right span).unplaced = connect left.unplaced right.unplaced none)
    (hitem : RereadsCondition outer v d item item') :
    RereadsCondition outer v d (connected word connect item) (connected word connect item') :=
  .place fun _ _ => hitem.loop fun _ _ same => rereads_connectedRound inside unplaced hitem same

end Connections

theorem rereads_conditionFor (hq : RereadsQuery v d query query') (n m : Nat) :
    RereadsCondition outer v (min d m) (conditionFor query n) (conditionFor query' m) := by
  induction n generalizing m with
  | zero => exact rereads_unexpected
  | succ n ih =>
    have read (m : Nat) : RereadsCondition outer v (min d (m + 1)) (conditionFor query (n + 1)) (conditionFor query' (m + 1)) := by
      refine rereads_connected (by nofun) (fun _ _ _ => by rw [Constraint.unplaced]) ?_
      refine rereads_connected (by nofun) (fun _ _ _ => by rw [Constraint.unplaced]) ?_
      refine .bounded (rereads_negationFor (hq.shorter (Nat.min_le_left d _)) (ih m) ?_ (conditionFor_fails m))
      omega
    cases m with
    | zero =>
      rw [Nat.min_zero]
      exact (read 0).vacuous
    | succ m => exact read m

theorem rereads_condition (hq : RereadsQuery v d query query') :
    RereadsCondition outer v d (Grammar.condition query) (Grammar.condition query') := .bounded (rereads_conditionFor hq)

end SkyQuery.Grammar
