import SkyQuery.Proofs.WellFormed.Values

/-!
# Conditions are well formed

`condition_yields`: the conditions that are read are well formed if the reader of subqueries yields
well-formed queries without `WITH`.
-/

namespace SkyQuery.Grammar

open Parse

variable {v : Version} {query : Parse Query}

/-- A well-formed condition that binds at least as tightly as `r`. -/
def Holds (v : Version) (r : Nat) (c : Constraint) : Prop := c.WellFormed v ∧ r ≤ c.rank

/-! ### Predicates -/

theorem eatOperator_yields (operators : List (Kind × ComparisonOp)) :
    Yields v (eatOperator operators) fun r => ∀ op ∈ r, op ∈ operators.map Prod.snd := by
  induction operators with
  | nil => exact yields_pure (by simp)
  | cons first others ih =>
    refine (yields_eat _).bind fun _ _ => .ite (fun _ => yields_pure (by simp)) fun _ => ?_
    exact ih.mono fun r hr op hop => List.mem_cons_of_mem _ (hr op hop)

theorem not_isPattern_of_mem_comparisons {op : ComparisonOp} (h : op ∈ comparisons.map Prod.snd) :
    op.isPattern = false ∧ op.ignoresCase = false := by
  revert op
  decide

theorem comparisonTail_yields {left : Operand} {op : ComparisonOp} (hleft : left.WellFormed v)
    (plain : op.isPattern = false ∧ op.ignoresCase = false) (start : Place) :
    Yields v (comparisonTail left op start) (Holds v 3) := by
  refine value_yields.bind fun right hright => .ite (fun same => ?_) fun _ => yields_failAt
  refine (yields_spanFrom start).bind fun _ _ => yields_pure ⟨⟨⟨?_, ?_⟩, hleft, hright⟩, Nat.le_refl _⟩
  · simp [plain.2]
  · simpa [plain.1] using same

theorem nullTail_yields {tested : Operand} (h : tested.WellFormed v) (start : Place) :
    Yields v (nullTail tested start) (Holds v 3) := by
  refine (yields_eat _).bind fun _ _ => (yields_expect _).bind fun _ _ =>
    .ite (fun column => ?_) fun _ => yields_failAt
  exact (yields_spanFrom start).bind fun _ _ => yields_pure ⟨⟨column, h⟩, Nat.le_refl _⟩

theorem betweenTail_yields {tested : Operand} (h : tested.WellFormed v) (negated : Bool)
    (start : Place) : Yields v (betweenTail tested negated start) (Holds v 3) := by
  refine value_yields.bind fun low hlow => (yields_expect _).bind fun _ _ => ?_
  refine value_yields.bind fun high hhigh => (yields_spanFrom start).bind fun _ _ => ?_
  exact yields_pure ⟨⟨h, hlow, hhigh⟩, Nat.le_refl _⟩

theorem patternTail_yields {matched : Operand} {op : ComparisonOp} (h : matched.WellFormed v)
    (pattern : op.isPattern = true) (since : op.ignoresCase → v = .v21) (start : Place) :
    Yields v (patternTail matched op start) (Holds v 3) := by
  refine value_yields.bind fun other hother => (yields_checkString matched).bind fun _ left =>
    (yields_checkString other).bind fun _ right => (yields_spanFrom start).bind fun _ _ => ?_
  refine yields_pure ⟨⟨⟨since, ?_⟩, h, hother⟩, Nat.le_refl _⟩
  rw [if_pos pattern]
  exact ⟨left, right⟩

theorem memberTail_yields (hq : Yields v query (Query.Nested v)) {tested : Operand}
    (h : tested.WellFormed v) (negated : Bool) (start : Place) :
    Yields v (memberTail query tested negated start) (Holds v 3) := by
  refine (yields_expect _).bind fun _ _ => (yields_sees _).bind fun _ _ =>
    .ite (fun _ => ?_) fun _ => ?_
  · refine hq.bind fun source hsource => (yields_expect _).bind fun _ _ =>
      (yields_spanFrom start).bind fun _ _ => ?_
    exact yields_pure ⟨⟨h, hsource⟩, Nat.le_refl _⟩
  · refine value_yields.sepBy.bind fun values hvalues => (yields_expect _).bind fun _ _ =>
      (yields_spanFrom start).bind fun _ _ => ?_
    exact yields_pure ⟨⟨hvalues.1, h, hvalues.2⟩, Nat.le_refl _⟩

theorem predicate_yields (hq : Yields v query (Query.Nested v)) :
    Yields v (predicate query) (Holds v 3) := by
  refine yields_place.bind fun start _ => value_yields.bind fun tested h => ?_
  refine (eatOperator_yields _).bind fun found hfound => ?_
  cases found with
  | some op => exact comparisonTail_yields h (not_isPattern_of_mem_comparisons (hfound op rfl)) start
  | none =>
    refine (yields_eat _).bind fun _ _ => .ite (fun _ => nullTail_yields h start) fun _ => ?_
    refine (yields_eat _).bind fun negated _ => ?_
    refine (yields_eat _).bind fun _ _ => .ite (fun _ => betweenTail_yields h negated start) fun _ => ?_
    refine (yields_eat _).bind fun _ _ => .ite (fun _ => ?_) fun _ => ?_
    · exact patternTail_yields h (by cases negated <;> rfl) (by cases negated <;> simp [ComparisonOp.ignoresCase]) start
    refine (yields_eat _).bind fun _ since => .ite (fun here => ?_) fun _ => ?_
    · have later : v = .v21 := by simpa [Keyword.availableIn] using since here .ilikeKw rfl
      exact patternTail_yields h (by cases negated <;> rfl) (fun _ => later) start
    refine (yields_eat _).bind fun _ _ => .ite (fun _ => ?_) fun _ => yields_unexpected
    exact memberTail_yields hq h negated start

/-! ### Conditions -/

variable {nested : Parse Constraint}

theorem grouped_yields (hc : Yields v nested (Constraint.WellFormed v)) :
    Yields v (grouped nested) (Holds v 3) := by
  refine yields_place.bind fun start _ => (yields_expect _).bind fun _ _ => ?_
  refine hc.bind fun inner hinner => (yields_expect _).bind fun _ _ =>
    (yields_spanFrom start).bind fun _ _ => yields_pure ⟨?_, Nat.le_refl _⟩
  exact hinner

theorem existsTail_yields (hq : Yields v query (Query.Nested v)) (start : Place) :
    Yields v (existsTail query start) (Holds v 3) := by
  refine (yields_expect _).bind fun _ _ => hq.bind fun source hsource => ?_
  refine (yields_expect _).bind fun _ _ => (yields_spanFrom start).bind fun _ _ =>
    yields_pure ⟨?_, Nat.le_refl _⟩
  exact hsource

theorem negationFor_yields (hq : Yields v query (Query.Nested v))
    (hc : Yields v nested (Constraint.WellFormed v)) (n : Nat) :
    Yields v (negationFor query nested n) (Holds v 2) := by
  have weaken {p : Parse Constraint} (h : Yields v p (Holds v 3)) : Yields v p (Holds v 2) :=
    h.mono fun c hc => ⟨hc.1, Nat.le_trans (by decide) hc.2⟩
  induction n with
  | zero => exact yields_unexpected
  | succ n ih =>
    refine yields_place.bind fun start _ => (yields_eat _).bind fun _ _ => .ite (fun _ => ?_) fun _ => ?_
    · refine ih.bind fun inner hinner => (yields_spanFrom start).bind fun _ _ =>
        yields_pure ⟨⟨hinner.2, hinner.1⟩, Nat.le_refl _⟩
    refine (yields_eat _).bind fun _ _ => .ite (fun _ => ?_) fun _ => ?_
    · exact weaken (existsTail_yields hq start)
    refine yields_current.bind fun _ _ => yields_second.bind fun _ _ => .ite (fun _ => ?_) fun _ => ?_
    · exact weaken ((grouped_yields hc).either (predicate_yields hq))
    · exact weaken (predicate_yields hq)

/-- Connected conditions, grouped to the left. -/
theorem connected_yields (word : Keyword) (connect : Constraint → Constraint → Option Span → Constraint)
    {item : Parse Constraint} {r : Nat} (hitem : Yields v item (Holds v (r + 1)))
    (hconnect : ∀ left right span, Holds v r left → Holds v (r + 1) right →
      Holds v r (connect left right span)) :
    Yields v (connected word connect item) (Holds v r) := by
  refine yields_place.bind fun start _ => hitem.bind fun left hleft => ?_
  refine .iterate ⟨hleft.1, Nat.le_of_succ_le hleft.2⟩ fun left hleft => ?_
  refine (yields_eat _).bind fun _ _ => .ite (fun _ => ?_) fun _ => yields_pure (by simp)
  refine hitem.bind fun right hright => (yields_spanFrom start).bind fun span _ => yields_pure ?_
  intro c hc
  cases hc
  exact hconnect left right span hleft hright

theorem conditionFor_yields (hq : Yields v query (Query.Nested v)) (n : Nat) :
    Yields v (conditionFor query n) (Constraint.WellFormed v) := by
  induction n with
  | zero => exact yields_unexpected
  | succ n ih =>
    have negations : Yields v (negation query (conditionFor query n)) (Holds v 2) :=
      .bounded (negationFor_yields hq ih)
    have conjunctions : Yields v (connected .andKw .and (negation query (conditionFor query n))) (Holds v 1) :=
      connected_yields _ _ negations fun _ _ _ hl hr => ⟨⟨hl.2, hr.2, hl.1, hr.1⟩, Nat.le_refl _⟩
    have disjunctions := connected_yields .orKw .or (r := 0) conjunctions
      fun _ _ _ hl hr => ⟨⟨hr.2, hl.1, hr.1⟩, Nat.le_refl _⟩
    exact disjunctions.mono fun c hc => hc.1

theorem condition_yields (hq : Yields v query (Query.Nested v)) :
    Yields v (condition query) (Constraint.WellFormed v) := .bounded (conditionFor_yields hq)

end SkyQuery.Grammar
