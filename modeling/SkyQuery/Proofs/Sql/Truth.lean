import SkyQuery.Grammar.Entry
import SkyQuery.Proofs.Decimal.Compared
import SkyQuery.Proofs.Sql.Alike

/-!
# Comparisons that become predicates

With pgSphere a comparison of `CONTAINS` or `INTERSECTS` with a number is written as a predicate or as the
negation of one if the double for the number is zero or one (`comparison_ok_iff`). It then says the same
exactly if the number itself is zero or one (`comparison_truth_iff`).
-/

namespace SkyQuery

/-- Whether a comparison of two numbers holds; patterns are for texts only. -/
def ComparisonOp.Holds : ComparisonOp → ℚ → ℚ → Prop
  | .eq, a, b => a = b
  | .notEq, a, b => a ≠ b
  | .lt, a, b => a < b
  | .ltEq, a, b => a ≤ b
  | .gt, a, b => b < a
  | .gtEq, a, b => b ≤ a
  | .like, _, _ | .notLike, _, _ | .ilike, _, _ | .notIlike, _, _ => False

namespace Sql.PgSphere

open Decimal

/-- Whether the double for a number is the one or the zero that an outcome of a predicate stands for. -/
def IsNear : (outcome : Bool) → ℚ → Prop
  | true => IsNearOne
  | false => IsNearZero

/-- The text that a predicate holds, or that it does not. -/
def stated (holds : Bool) (predicate : String) : String := if holds then predicate else "NOT (" ++ predicate ++ ")"

variable {x : ℚ} {op : ComparisonOp} {holds : Bool} {value : Operand} {p : String}

/-! ### Truth -/

theorem not_isNear_both : ¬(IsNear true x ∧ IsNear false x) := by
  rintro ⟨⟨low, -⟩, zero⟩
  have small : (1 : ℚ) / 2 ^ 1075 ≤ 1 / 2 ^ 1 :=
    one_div_le_one_div_of_le (by positivity) (pow_le_pow_right₀ one_le_two (Nat.le_add_left 1 1074))
  have most : x ≤ 1 / 2 ^ 1 := (le_abs_self x).trans (zero.trans small)
  norm_num at low most
  linarith

/-- Of zero and one, a number that is near to an outcome can only be that outcome. -/
theorem IsNear.exact_iff (near : IsNear holds x) : x = holds.toNat ↔ x = 0 ∨ x = 1 := by
  have zero : IsNear false 0 := by
    refine (abs_zero).trans_le ?_
    positivity
  have one : IsNear true 1 := ⟨by norm_num, by norm_num⟩
  cases holds with
  | true =>
    rw [Bool.toNat_true, Nat.cast_one]
    refine ⟨.inr, fun exact => exact.resolve_left ?_⟩
    rintro rfl
    exact not_isNear_both ⟨near, zero⟩
  | false =>
    rw [Bool.toNat_false, Nat.cast_zero]
    refine ⟨.inl, fun exact => exact.resolve_right ?_⟩
    rintro rfl
    exact not_isNear_both ⟨one, near⟩

theorem eq_outcome_iff : (∀ b : Bool, b = holds ↔ ((b.toNat : ℚ) = x)) ↔ x = holds.toNat := by
  constructor
  · intro same
    exact ((same holds).1 rfl).symm
  · rintro rfl b
    cases b <;> cases holds <;> simp

theorem ne_outcome_iff : (∀ b : Bool, b = holds ↔ ((b.toNat : ℚ) ≠ x)) ↔ x = (!holds).toNat := by
  constructor
  · intro same
    by_contra other
    have := (same !holds).2 (Ne.symm other)
    cases holds <;> cases this
  · rintro rfl b
    cases b <;> cases holds <;> simp

/-- A comparison asks for an outcome if its number is near to that outcome, or to the other one. -/
theorem asked?_iff (number : value.rational? = some x) :
    asked? op value = some holds ↔ op = .eq ∧ IsNear holds x ∨ op = .notEq ∧ IsNear (!holds) x := by
  obtain ⟨negative, l, read, rfl⟩ := Operand.asNumber?_of_rational number
  have one : (ofParts negative l.bits == 1) = true ↔ IsNear true (l.signed negative) := Literal.beq_one
  have zero : (ofParts negative l.bits == 0) = true ↔ IsNear false (l.signed negative) := Literal.beq_zero
  have both := not_isNear_both (x := l.signed negative)
  generalize Literal.signed negative l = x at *
  unfold asked?
  rw [read]
  cases op with
  | eq | notEq =>
    dsimp only
    generalize (ofParts negative l.bits == 1) = isOne at *
    generalize (ofParts negative l.bits == 0) = isZero at *
    cases isOne <;> cases isZero <;> cases holds <;> simp_all
  | _ => simp

/-- What is asked for is what holds, for both outcomes, exactly if the number itself is zero or one. -/
theorem asked?_truth (number : value.rational? = some x) (asks : asked? op value = some holds) :
    (∀ b : Bool, b = holds ↔ op.Holds b.toNat x) ↔ x = 0 ∨ x = 1 := by
  rcases (asked?_iff number).1 asks with ⟨rfl, near⟩ | ⟨rfl, near⟩
  · exact eq_outcome_iff.trans near.exact_iff
  · exact ne_outcome_iff.trans near.exact_iff

/-! ### Texts -/

theorem length_stated : (stated holds p).length = p.length + if holds then 0 else 6 := by
  cases holds with
  | true => rfl
  | false =>
    have opening : "NOT (".length = 5 := rfl
    have closing : ")".length = 1 := rfl
    simp only [stated, Bool.false_eq_true, if_false, String.length_append, opening, closing]
    omega

theorem stated_inj {holds' : Bool} : stated holds p = stated holds' p ↔ holds = holds' := by
  refine ⟨fun same => ?_, fun same => by rw [same]⟩
  have lengths := congrArg String.length same
  rw [length_stated, length_stated] at lengths
  cases holds <;> cases holds' <;> first | rfl | simp at lengths

/-- What a comparison writes is longer than either of its sides. -/
theorem length_plain {operand : Operand → SqlText} {left right : Operand} {text : String}
    (h : plainComparison operand left op right = .ok text) :
    (∀ a, operand left = .ok a → a.length ≤ text.length) ∧ ∀ b, operand right = .ok b → b.length ≤ text.length := by
  unfold plainComparison at h
  cases onLeft : operand left with
  | error e =>
    rw [onLeft] at h
    cases h
  | ok a =>
    cases onRight : operand right with
    | error e =>
      rw [onLeft, onRight] at h
      cases h
    | ok b =>
      rw [onLeft, onRight] at h
      obtain rfl : a ++ " " ++ op.symbol ++ " " ++ b = text := Except.ok.inj h
      constructor
      · rintro _ ⟨⟩
        simp only [String.length_append]
        omega
      · rintro _ ⟨⟩
        simp only [String.length_append]
        omega

section Texts

variable {left right : Operand} {fn : GeometryFn} {sys : Option Operand} {args : List Operand} {span : Option Span}

/-- The predicate in the text of a call of a function that tells whether something holds. -/
theorem exists_predicate (tells : fn = .contains ∨ fn = .intersects)
    (written : pgSphere.operand (.geometry fn sys args span) = .ok ("CAST((" ++ p ++ ") AS INTEGER)")) :
    ∃ symbol name, predicateCall? (.geometry fn sys args span) = some (symbol, name, args) ∧
      predicate symbol name (args.map pgSphere.operand) = .ok p := by
  have telling (symbol : String) (written : geometry.holds fn sys args symbol (pgSphere.operands args) =
      .ok ("CAST((" ++ p ++ ") AS INTEGER)")) : predicate symbol (callText fn sys args) (args.map pgSphere.operand) = .ok p := by
    rw [geometry.holds, Dialect.operands_eq] at written
    cases inner : predicate symbol (callText fn sys args) (args.map pgSphere.operand) with
    | error e =>
      rw [inner] at written
      cases written
    | ok q =>
      rw [inner] at written
      have same : "CAST((" ++ q ++ ") AS INTEGER)" = "CAST((" ++ p ++ ") AS INTEGER)" := Except.ok.inj written
      have letters := congrArg String.toList same
      simp only [String.toList_append] at letters
      rw [String.toList_inj.1 (List.append_cancel_left (List.append_cancel_right letters))]
  rw [Dialect.operand] at written
  rcases tells with rfl | rfl
  · exact ⟨"@", _, rfl, telling "@" written⟩
  · exact ⟨"&&", _, rfl, telling "&&" written⟩

theorem Operand.predicateCall?_of_rational (number : value.rational? = some x) : predicateCall? value = none := by
  cases value with
  | geometry => cases number
  | _ => rfl

/-- A comparison of a call with a number is written as the predicate or as its negation exactly if it asks
for one of them. -/
theorem comparison_ok_iff (tells : fn = .contains ∨ fn = .intersects)
    (written : pgSphere.operand (.geometry fn sys args span) = .ok ("CAST((" ++ p ++ ") AS INTEGER)"))
    (number : value.rational? = some x)
    (sides : left = .geometry fn sys args span ∧ right = value ∨ left = value ∧ right = .geometry fn sys args span) :
    pgSphere.comparison pgSphere.operand left op right = .ok (stated holds p) ↔ asked? op value = some holds := by
  obtain ⟨symbol, name, found, inner⟩ := exists_predicate tells written
  have noCall := Operand.predicateCall?_of_rational number
  have chosen : pgSphere.comparison pgSphere.operand left op right =
      ((asked? op value).map fun holds => .ok (stated holds p)).getD (plainComparison pgSphere.operand left op right) := by
    change comparison pgSphere.operand left op right = _
    unfold comparison
    rcases sides with ⟨rfl, rfl⟩ | ⟨rfl, rfl⟩
    · rw [found]
      dsimp only
      cases asked? op right <;> simp only [inner] <;> rfl
    · rw [noCall, found]
      dsimp only [Option.map_some]
      cases asked? op left <;> simp only [inner] <;> rfl
  rw [chosen]
  cases asks : asked? op value with
  | some other => exact (Except.ok.injEq ..).to_iff.trans (stated_inj.trans (Option.some.injEq ..).to_iff.symm)
  | none =>
    refine iff_of_false (fun plain => ?_) nofun
    -- Written plainly, the comparison holds all of the call and is longer than what states the predicate.
    have wide : ("CAST((" ++ p ++ ") AS INTEGER)").length ≤ (stated holds p).length := by
      rcases sides with ⟨rfl, rfl⟩ | ⟨rfl, rfl⟩
      · exact (length_plain plain).1 _ written
      · exact (length_plain plain).2 _ written
    have opening : "CAST((".length = 6 := rfl
    have closing : ") AS INTEGER)".length = 13 := rfl
    rw [length_stated, String.length_append, String.length_append, opening, closing] at wide
    split at wide <;> omega

/-- The call is written as `CAST((p) AS INTEGER)`, and its comparison with a number as `p` or `NOT (p)` exactly
if it asks whether it is equal to a number near to zero or one. This is true for the same outcomes as the
comparison exactly if the number itself is zero or one. -/
theorem comparison_truth_iff (tells : fn = .contains ∨ fn = .intersects)
    (written : pgSphere.operand (.geometry fn sys args span) = .ok ("CAST((" ++ p ++ ") AS INTEGER)"))
    (number : value.rational? = some x)
    (sides : left = .geometry fn sys args span ∧ right = value ∨ left = value ∧ right = .geometry fn sys args span)
    (op : ComparisonOp) :
    ((∃ holds, pgSphere.comparison pgSphere.operand left op right = .ok (stated holds p)) ↔
      (op = .eq ∨ op = .notEq) ∧ (IsNearZero x ∨ IsNearOne x)) ∧
    ∀ holds, pgSphere.comparison pgSphere.operand left op right = .ok (stated holds p) →
      ((∀ b : Bool, b = holds ↔ op.Holds b.toNat x) ↔ x = 0 ∨ x = 1) := by
  simp only [comparison_ok_iff tells written number sides]
  refine ⟨?_, fun holds asks => asked?_truth number asks⟩
  simp only [asked?_iff number, Bool.exists_bool, Bool.not_false, Bool.not_true]
  change (op = .eq ∧ IsNearZero x ∨ op = .notEq ∧ IsNearOne x) ∨ (op = .eq ∧ IsNearOne x ∨ op = .notEq ∧ IsNearZero x) ↔ _
  tauto

/-- One with a sign before a sign, on the left. -/
theorem comparison_truth_iff_negated :
    let o : Operand := .geometry .contains none [.column { column := ⟨"p", false⟩ } none, .column { column := ⟨"q", false⟩ } none] none
    let value : Operand := .negative (.negative (.numeric "1.0" none) none) none
    pgSphere.comparison pgSphere.operand value .notEq o = .ok "NOT (p @ q)" ∧
      ∀ b : Bool, b = false ↔ ComparisonOp.notEq.Holds b.toNat 1 := by
  intro o value
  have spelled : rational? "1.0" = some (Literal.signed false ⟨10, -1⟩) := rational?_eq (by decide +kernel)
  have number : value.rational? = some 1 := by
    simp only [value, Operand.rational?, spelled, Option.map_some, neg_neg]
    norm_num [Literal.signed, Literal.value]
  have negation : pgSphere.comparison pgSphere.operand value .notEq o = .ok (stated false "p @ q") := by decide +kernel
  have truth := (comparison_truth_iff (.inl rfl) (by decide +kernel) number (.inr ⟨rfl, rfl⟩) .notEq).2 false negation
  exact ⟨negation, truth.2 (.inr rfl)⟩

/-- A number that is not one, though it is read as the double one. -/
theorem comparison_misjudged :
    let o : Operand := .geometry .contains none [.column { column := ⟨"p", false⟩ } none, .column { column := ⟨"q", false⟩ } none] none
    let value : Operand := .numeric "1.00000000000000000001" none
    let x : ℚ := 1 + 1 / 10 ^ 20
    pgSphere.operand o = .ok "CAST((p @ q) AS INTEGER)" ∧ value.rational? = some x ∧
      pgSphere.comparison pgSphere.operand o .eq value = .ok "p @ q" ∧
      ¬∀ b : Bool, b = true ↔ ComparisonOp.eq.Holds b.toNat x := by
  intro o value x
  have spelled : rational? "1.00000000000000000001" = some (Literal.signed false ⟨10 ^ 20 + 1, -20⟩) :=
    rational?_eq (by decide +kernel)
  have number : value.rational? = some x := by
    simp only [value, x, Operand.rational?, spelled]
    norm_num [Literal.signed, Literal.value]
  refine ⟨by decide +kernel, number, by decide +kernel, fun same => ?_⟩
  have one : ((Bool.toNat true : Nat) : ℚ) = x := (same true).1 rfl
  norm_num [x] at one

end Texts

end Sql.PgSphere

end SkyQuery
