import SkyQuery.Proofs.Rereads.Values
import SkyQuery.Grammar.Condition

/-!
# Parentheses around values and conditions

A parenthesis opens a condition or a value. `conditionFor_fails`: where a value is read up to a closing
parenthesis no condition is read, so that at most one of the two readings succeeds.
-/

namespace SkyQuery.Grammar

open Parse

variable {v : Version} {outer : Bool} {query : Parse Query} {s t : State} {whole : List Word}

/-! ### How values start -/

/-- What arithmetic reads starts with an item, and is no more than it if no operator follows. -/
theorem arithmetic_first {first second : Kind × ArithOp} {item : Parse Operand} {o : Operand}
    (h : arithmetic first second item v s = .ok (o, t)) :
    ∃ o' t', item v s = .ok (o', t') ∧
      (operatorOf first second t'.current.word = none → ∃ expected, t = { t' with expected }) := by
  unfold arithmetic at h
  rw [place_bind] at h
  obtain ⟨left, r, hleft, h⟩ := bind_ok h
  refine ⟨left, r, hleft, fun none => ?_⟩
  obtain ⟨expected, seen⟩ := peeks_operator (v := v) first second r
  rw [none] at seen
  obtain ⟨found, u, hfound, h⟩ := bind_ok (show (_ >>= _ : Parse Operand) v r = .ok (o, t) from h)
  have round : arithmetic.round first second item s.current.start left v r = .ok (found, u) := hfound
  rw [arithmetic.round, bind_eq seen] at round
  cases round
  cases h
  exact ⟨expected, rfl⟩

/-- The kinds of the words with which a value goes on after its first primary. -/
def Kind.goesOn : Kind → Bool
  | .plus | .minus | .star | .slash | .concat => true
  | _ => false

theorem operatorOf_none {first second : Kind × ArithOp} {w : Word} (hfirst : w.1 ≠ first.1) (hsecond : w.1 ≠ second.1) :
    operatorOf first second w = none := by
  rw [operatorOf, if_neg (mt beq_iff_eq.1 hfirst), if_neg (mt beq_iff_eq.1 hsecond)]

/-- A value starts with a primary, perhaps after signs, and is no more than that if no operator follows. -/
theorem signed_of_value {o : Operand} (h : value v s = .ok (o, t)) :
    ∃ o' t', signed (primary (call (valueFor s.rest.length)) (valueFor s.rest.length)) v s = .ok (o', t') ∧
      (Kind.goesOn t'.current.kind = false → ∃ expected, t = { t' with expected }) := by
  change concatenation (primary (call (valueFor s.rest.length)) (valueFor s.rest.length)) v s = .ok (o, t) at h
  unfold concatenation at h
  rw [place_bind] at h
  obtain ⟨sum, r, hsum, h⟩ := bind_ok h
  obtain ⟨product, r', hproduct, afterProduct⟩ := arithmetic_first hsum
  obtain ⟨o', t', ho', afterSigned⟩ := arithmetic_first hproduct
  refine ⟨o', t', ho', fun ends => ?_⟩
  have other {k : Kind} (goesOn : Kind.goesOn k = true) : t'.current.kind ≠ k := by
    rintro rfl
    rw [ends] at goesOn
    cases goesOn
  obtain ⟨_, rfl⟩ := afterSigned (operatorOf_none (other rfl) (other rfl))
  obtain ⟨_, rfl⟩ := afterProduct (operatorOf_none (other rfl) (other rfl))
  change (if (t'.current.kind == .concat) = true then _ else _ : Parse Operand) v _ = _ at h
  rw [if_neg (mt beq_iff_eq.1 (other rfl))] at h
  cases h
  exact ⟨_, rfl⟩

/-- What `signed` reads is a primary if there is no sign. -/
theorem signed_cases {base : Parse Operand} {o : Operand} (h : signed base v s = .ok (o, t)) :
    s.current.kind = .minus ∨ s.current.kind = .plus ∨
      ∃ expected, base v { s with expected } = .ok (o, t) := by
  change signedFor base (s.rest.length + 1) v s = _ at h
  unfold signedFor at h
  rw [place_bind] at h
  rcases eat_ok h with ⟨minus, -⟩ | ⟨-, h⟩
  · exact .inl minus
  rcases eat_ok h with ⟨plus, -⟩ | ⟨-, h⟩
  · exact .inr (.inl plus)
  · exact .inr (.inr ⟨_, h⟩)

theorem value_opens {o : Operand} (h : value v s = .ok (o, t)) :
    s.current.kind.opensValue = true ∨ s.current.kind = .plus := by
  obtain ⟨o', t', h, -⟩ := signed_of_value h
  rcases signed_cases h with minus | plus | ⟨expected, h⟩
  · exact .inl (by rw [minus]; rfl)
  · exact .inr plus
  · have opens := primary_opens h
    rw [Kind.opensPrimary, Bool.and_eq_true] at opens
    exact .inl opens.1

/-- What starts with a parenthesis starts with a value in parentheses. -/
theorem value_enclosed {o : Operand} (h : value v s = .ok (o, t)) (paren : s.current.kind = .leftParen) :
    ∃ o' t', value v s.advance = .ok (o', t') ∧ t'.current.kind = .rightParen := by
  obtain ⟨o', t', h, -⟩ := signed_of_value h
  rcases signed_cases h with minus | plus | ⟨expected, h⟩
  · rw [paren] at minus
    cases minus
  · rw [paren] at plus
    cases plus
  unfold primary at h
  rw [place_bind, current_bind] at h
  simp only [paren, show Kind.leftParen.isNumber = false from rfl, Bool.false_eq_true, if_false, if_true,
    show (Kind.leftParen == Kind.string) = false from rfl, BEq.rfl] at h
  obtain ⟨_, r, hadvance, h⟩ := bind_ok h
  cases hadvance
  obtain ⟨inner, r, hinner, h⟩ := bind_ok h
  obtain ⟨close, -⟩ := expect_ok h
  refine ⟨inner, r, ?_, close⟩
  rw [State.advance_expecting] at hinner
  unfold value Parse.bounded
  cases hrest : s.rest with
  | nil =>
    rw [hrest] at hinner
    cases hinner
  | cons u others =>
    have bound : s.advance.bound = s.rest.length := by
      rw [State.advance, hrest]
      rfl
    rw [bound]
    exact hinner

/-! ### Values where a condition is tried -/

/-- From the words a value is read up to a closing parenthesis. -/
def ValueEnclosed (v : Version) (whole : List Word) : Prop :=
  ∀ s, s.Shows whole → ∃ o t us, value v s = .ok (o, t) ∧ t.Shows us ∧ nextKind us = .rightParen

theorem valueEnclosed_of_read {o : Operand} (hs : s.Shows whole) (h : value v s = .ok (o, t))
    (close : t.current.kind = .rightParen) : ValueEnclosed v whole := by
  intro r hr
  have enough : whole.length < whole.length + 1 := Nat.lt_succ_self _
  have rereads : RereadsValue false v (whole.length + 1) value value := rereads_value
  obtain ⟨ws, us, rfl, ht, -, again⟩ := rereads s whole o t hs h
  obtain ⟨o', t', ho', ht', -⟩ := again us .refl enough r hr
  exact ⟨o', t', us, ho', ht', ht.shows.kind.symm.trans close⟩

theorem ValueEnclosed.opens (h : ValueEnclosed v whole) (hs : s.Shows whole) :
    (nextKind whole).opensValue = true ∨ nextKind whole = .plus := by
  obtain ⟨o, t, us, ho, -⟩ := h s hs
  rw [← hs.kind]
  exact value_opens ho

theorem noOperator_of_kind {operators : List (Kind × ComparisonOp)} {rest : List Word}
    (other : ∀ entry ∈ operators, nextKind rest ≠ entry.1) :
    Reads v (eatOperator operators) [] rest (· = none) := by
  induction operators with
  | nil => exact reads_pure rfl
  | cons entry others ih =>
    obtain ⟨first, more⟩ := List.forall_mem_cons.1 other
    exact .eatElse first (ih more)

theorem predicate_fails (h : ValueEnclosed v whole) : Fails v (predicate query) whole := by
  intro s hs
  obtain ⟨o, t, us, ho, ht, close⟩ := h s hs
  have none : Reads v (eatOperator comparisons) [] us (· = none) := noOperator_of_kind (by rw [close]; decide)
  have other {k : Kind} (different : Kind.rightParen ≠ k) : nextKind us ≠ k := close ▸ different
  unfold predicate
  rw [place_bind, bind_eq ho]
  refine none.fails (fun found hfound => ?_) t ht
  subst hfound
  refine .eatElse (other (by intro same; cases same)) (.skip (other (by intro same; cases same)) ?_)
  refine .eatElse (other (by intro same; cases same)) (.eatElse (other (by intro same; cases same)) ?_)
  refine .eatElse (other (by intro same; cases same)) (.eatElse (other (by intro same; cases same)) ?_)
  exact fails_unexpected

section Groups

variable {condition : Parse Constraint}

/-- A group is not read where a value is. -/
theorem grouped_fails (hcondition : ∀ {ws}, ValueEnclosed v ws → Fails v condition ws) {o : Operand}
    (hs : s.Shows whole) (h : value v s = .ok (o, t)) : ∃ e, grouped condition v s = .error e := by
  cases hg : grouped condition v s with
  | error e => exact ⟨e, rfl⟩
  | ok r =>
    unfold grouped at hg
    rw [place_bind] at hg
    obtain ⟨paren, hg⟩ := expect_ok hg
    obtain ⟨inner, u, hinner, -⟩ := bind_ok hg
    obtain ⟨o', t', ho', close⟩ := value_enclosed h paren
    cases whole with
    | nil => exact absurd (paren.symm.trans hs.kind) (by intro same; cases same)
    | cons w whole =>
      obtain ⟨e, he⟩ := hcondition (valueEnclosed_of_read hs.advance ho' close) _ hs.advance
      rw [he] at hinner
      cases hinner

/-- A group is not read where a predicate is. -/
theorem grouped_fails_of_predicate (hcondition : ∀ {ws}, ValueEnclosed v ws → Fails v condition ws) {c : Constraint}
    (hs : s.Shows whole) (h : predicate query v s = .ok (c, t)) : ∃ e, grouped condition v s = .error e := by
  unfold predicate at h
  rw [place_bind] at h
  obtain ⟨o, r, ho, -⟩ := bind_ok h
  exact grouped_fails hcondition hs ho

theorem negationFor_fails (hcondition : ∀ {ws}, ValueEnclosed v ws → Fails v condition ws)
    (h : ValueEnclosed v whole) (m : Nat) : Fails v (negationFor query condition m) whole := by
  cases m with
  | zero => exact fails_unexpected
  | succ m =>
    intro s hs
    have opens := h.opens hs
    have other {word : Keyword} (plain : word.isFunction = false) : nextKind whole ≠ .keyword word := by
      rintro same
      rw [same] at opens
      rcases opens with opens | plus
      · rw [show Kind.opensValue (.keyword word) = word.isFunction from rfl, plain] at opens
        cases opens
      · cases plus
    refine Fails.place (fun start => .eatElse (other rfl) (.eatElse (other rfl) ?_)) s hs
    refine .current fun t _ => .second fun u => .ite (fun _ => ?_) fun _ => predicate_fails h
    refine .either (fun r hr => ?_) (predicate_fails h)
    obtain ⟨o, t, us, ho, -⟩ := h r hr
    exact grouped_fails hcondition hr ho

theorem connected_fails {word : Keyword} {connect : Constraint → Constraint → Option Span → Constraint}
    {item : Parse Constraint} (h : Fails v item whole) : Fails v (connected word connect item) whole :=
  .place fun _ => h.first

end Groups

/-- No condition is read where a value is read up to a closing parenthesis. -/
theorem conditionFor_fails (m : Nat) (h : ValueEnclosed v whole) : Fails v (conditionFor query m) whole := by
  induction m generalizing whole with
  | zero => exact fails_unexpected
  | succ m ih => exact connected_fails (connected_fails (.bounded (negationFor_fails ih h)))

end SkyQuery.Grammar
