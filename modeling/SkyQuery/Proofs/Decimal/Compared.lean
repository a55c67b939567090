import SkyQuery.Proofs.Decimal.Written
import SkyQuery.Tree.Number

/-!
# Numbers that are compared with zero and one

`rational?` is the number that a decimal text spells. It is read as a double, and that double is equal to
zero or to one exactly if no other double is nearer to the number (`Literal.beq_zero`, `Literal.beq_one`).
-/

namespace SkyQuery

namespace Decimal

/-! ### Signs -/

section Signs

open Float.Model.UnpackedFloat

variable {negative negative' : Bool} {bits bits' : Nat}

/-- The bits of a double with its sign. -/
def signedBits (negative : Bool) (bits : Nat) : UInt64 := UInt64.ofNat (if negative then pow2 63 + bits else bits)

theorem toNat_signedBits (h : bits ≤ infinityBits) :
    (signedBits negative bits).toNat = if negative then 2 ^ 63 + bits else bits := by
  have h : bits ≤ 2047 * 2 ^ 52 := h
  rw [signedBits, UInt64.toNat_ofNat']
  cases negative
  · exact Nat.mod_eq_of_lt (show bits < 2 ^ 64 by omega)
  · exact Nat.mod_eq_of_lt (show 2 ^ 63 + bits < 2 ^ 64 by omega)

theorem toNat_exponent (b : BitVec 64) : (@unpackExponent .binary64 b).toNat = b.toNat / 2 ^ 52 % 2 ^ 11 := by
  rw [unpackExponent_def]
  change b.toNat >>> 52 % 2 ^ 11 = _
  rw [Nat.shiftRight_eq_div_pow]

theorem toNat_mantissa (b : BitVec 64) : (@unpackMantissa .binary64 b).toNat = b.toNat % 2 ^ 52 := by
  rw [unpackMantissa_def]
  rfl

theorem toNat_sign (b : BitVec 64) : (@unpackSign .binary64 b).toNat = b.toNat / 2 ^ 63 % 2 := by
  rw [unpackSign_def]
  change b.toNat >>> 63 % 2 ^ 1 = _
  rw [Nat.shiftRight_eq_div_pow]

/-- Up to infinity all bits are those of a number. -/
theorem valid_signedBits (h : bits ≤ infinityBits) : Float.Model.Format.binary64.Valid (signedBits negative bits).toBitVec := by
  refine ⟨fun ones some => absurd (BitVec.eq_of_toNat_eq ?_) some⟩
  have ones := congrArg BitVec.toNat ones
  rw [toNat_exponent] at ones
  rw [toNat_mantissa]
  change (signedBits negative bits).toNat / 2 ^ 52 % 2 ^ 11 = 2047 at ones
  change (signedBits negative bits).toNat % 2 ^ 52 = 0
  rw [toNat_signedBits h] at ones ⊢
  have h : bits ≤ 2047 * 2 ^ 52 := h
  cases negative <;> simp only [Bool.false_eq_true, if_false, if_true] at ones ⊢ <;> omega

theorem toBits_ofParts (h : bits ≤ infinityBits) : (ofParts negative bits).toBits = signedBits negative bits :=
  UInt64.toBitVec_inj.1 (pack_unpack_of_valid (valid_signedBits h))

theorem ofParts_inj (h : bits ≤ infinityBits) (h' : bits' ≤ infinityBits) :
    ofParts negative bits = ofParts negative' bits' ↔ negative = negative' ∧ bits = bits' := by
  refine ⟨fun same => ?_, fun ⟨sign, number⟩ => by rw [sign, number]⟩
  have same := congrArg (fun x => x.toBits.toNat) same
  rw [toBits_ofParts h, toBits_ofParts h', toNat_signedBits h, toNat_signedBits h'] at same
  have h : bits ≤ 2047 * 2 ^ 52 := h
  have h' : bits' ≤ 2047 * 2 ^ 52 := h'
  cases negative <;> cases negative' <;> simp only [Bool.false_eq_true, if_false, if_true] at same <;>
    first | exact ⟨rfl, by omega⟩ | omega

theorem ofParts_ne_nan (h : bits ≤ infinityBits) : ofParts negative bits ≠ Float.nan := by
  intro same
  have same := congrArg (fun x => x.toBits.toNat) same
  have quiet : Float.nan.toBits.toNat = 2047 * 2 ^ 52 + 2 ^ 51 := by decide
  rw [toBits_ofParts h, toNat_signedBits h, quiet] at same
  have h : bits ≤ 2047 * 2 ^ 52 := h
  cases negative <;> simp only [Bool.false_eq_true, if_false, if_true] at same <;> omega

/-- A minus sign changes the sign and nothing else. -/
theorem unpack_signedBits_not (h : bits ≤ infinityBits) :
    unpack .binary64 (signedBits (!negative) bits).toBitVec = (unpack .binary64 (signedBits negative bits).toBitVec).neg := by
  have numbers (sign : Bool) : (signedBits sign bits).toBitVec.toNat = if sign then 2 ^ 63 + bits else bits :=
    toNat_signedBits h
  have small : bits ≤ 2047 * 2 ^ 52 := h
  have exponent : @unpackExponent .binary64 (signedBits (!negative) bits).toBitVec =
      @unpackExponent .binary64 (signedBits negative bits).toBitVec := by
    refine BitVec.eq_of_toNat_eq ?_
    rw [toNat_exponent, toNat_exponent, numbers, numbers]
    cases negative <;> simp only [Bool.not_true, Bool.not_false, Bool.false_eq_true, if_false, if_true] <;> omega
  have mantissa : @unpackMantissa .binary64 (signedBits (!negative) bits).toBitVec =
      @unpackMantissa .binary64 (signedBits negative bits).toBitVec := by
    refine BitVec.eq_of_toNat_eq ?_
    rw [toNat_mantissa, toNat_mantissa, numbers, numbers]
    cases negative <;> simp only [Bool.not_true, Bool.not_false, Bool.false_eq_true, if_false, if_true] <;> omega
  have sign (sign : Bool) : @unpackSign .binary64 (signedBits sign bits).toBitVec = BitVec.ofBool sign := by
    refine BitVec.eq_of_toNat_eq ?_
    rw [toNat_sign, numbers]
    cases sign <;> simp only [Bool.false_eq_true, if_false, if_true] <;> simp <;> omega
  have flipped : Sign.ofBitVec (BitVec.ofBool !negative) = -Sign.ofBitVec (BitVec.ofBool negative) := by
    cases negative <;> rfl
  unfold unpack
  simp only [exponent, mantissa, sign, flipped]
  repeat' split
  all_goals rfl

theorem neg_ofParts (h : bits ≤ infinityBits) : (ofParts negative bits).neg = ofParts (!negative) bits := by
  refine Float.toBits_inj.1 (UInt64.toBitVec_inj.1 ?_)
  have own : unpack .binary64 (ofParts negative bits).toBits.toBitVec =
      unpack .binary64 (signedBits negative bits).toBitVec := by rw [toBits_ofParts h]
  rw [toBits_ofParts h]
  change (unpack .binary64 (ofParts negative bits).toBits.toBitVec).neg.pack .binary64 = _
  rw [own, ← unpack_signedBits_not h, pack_unpack_of_valid (valid_signedBits h)]

/-! ### Zero and one -/

theorem ofParts_beq_zero (h : bits ≤ infinityBits) : (ofParts negative bits == 0) = true ↔ bits = 0 := by
  have plus : (0 : Float) = ofParts false 0 := rfl
  have minus : (-0 : Float) = ofParts true 0 := rfl
  have small : 0 ≤ infinityBits := Nat.zero_le _
  rw [Float.beq_iff_ne_nan_and_eq, minus, plus, ofParts_inj h small, ofParts_inj h small, ofParts_inj small small]
  have number : ofParts negative bits ≠ Float.nan := ofParts_ne_nan h
  have zero : ofParts false 0 ≠ Float.nan := ofParts_ne_nan small
  cases negative <;> simp [number, zero]

/-- The bits of one. -/
def oneBits : Nat := 1022 * pow2 52 + pow2 52

theorem ofParts_beq_one (h : bits ≤ infinityBits) : (ofParts negative bits == 1) = true ↔ negative = false ∧ bits = oneBits := by
  have one : (1 : Float) = ofParts false oneBits := rfl
  have fits : oneBits ≤ infinityBits := by decide
  have plus : (1 : Float) ≠ 0 := by decide
  have minus : (1 : Float) ≠ -0 := by decide
  have same : ofParts negative bits = ofParts false oneBits ↔ _ := ofParts_inj h fits
  rw [Float.beq_iff_ne_nan_and_eq, ← same, ← one]
  constructor
  · rintro ⟨-, -, same | ⟨-, zero⟩ | ⟨-, zero⟩⟩
    · exact same
    · exact absurd zero minus
    · exact absurd zero plus
  · intro same
    exact ⟨ofParts_ne_nan h, one ▸ ofParts_ne_nan fits, .inl same⟩

end Signs

/-! ### Decimal texts -/

theorem Literal.bits_le (l : Literal) : l.bits ≤ infinityBits := by
  unfold Literal.bits
  dsimp only
  repeat' split
  · exact Nat.zero_le _
  · exact Nat.le_refl _
  · exact Nat.zero_le _
  · exact Nat.min_le_left ..
  · exact Nat.min_le_left ..

theorem interval_one_contains {x : ℚ} : (interval (pow2 52) 1022).Contains x ↔ 1 - 1 / 2 ^ 54 ≤ x ∧ x ≤ 1 + 1 / 2 ^ 53 := by
  have scaled {u : ℚ} (positive : 0 < u) : (2 ^ 54 - 1) * u ≤ x * (2 ^ 54 * u) ∧ x * (2 ^ 54 * u) ≤ (2 ^ 54 + 2) * u ↔
      1 - 1 / 2 ^ 54 ≤ x ∧ x ≤ 1 + 1 / 2 ^ 53 := by
    rw [← mul_assoc, mul_le_mul_iff_left₀ positive, mul_le_mul_iff_left₀ positive]
    norm_num
    constructor
    · rintro ⟨least, most⟩
      exact ⟨by linarith, by linarith⟩
    · rintro ⟨least, most⟩
      exact ⟨by linarith, by linarith⟩
  have units : ((pow2 1076 : Nat) : ℚ) = 2 ^ 54 * (pow2 1022 : Nat) := by
    rw [cast_pow2, cast_pow2]
    exact pow_add 2 54 1022
  have low : (interval (pow2 52) 1022).low = (2 ^ 54 - 1) * pow2 1022 := congrArg (· * pow2 1022) (by decide)
  have high : (interval (pow2 52) 1022).high = (2 ^ 54 + 2) * pow2 1022 := congrArg (· * pow2 1022) (by decide)
  have closed : (interval (pow2 52) 1022).closed = true := rfl
  have below : ((2 ^ 54 - 1 : Nat) : ℚ) = 2 ^ 54 - 1 := by norm_num
  have above : ((2 ^ 54 + 2 : Nat) : ℚ) = 2 ^ 54 + 2 := by norm_num
  rw [Interval.Contains, if_pos closed, low, high, units, Nat.cast_mul, Nat.cast_mul, below, above]
  exact scaled (by exact_mod_cast pow2_pos 1022)

/-- The number that a sign and a decimal text stand for. -/
def Literal.signed (negative : Bool) (l : Literal) : ℚ := if negative then -l.value else l.value

/-- The number that a decimal text spells. -/
def rational? (text : String) : Option ℚ :=
  let (negative, cs) := cutSign text.toList
  (literal? cs).map (Literal.signed negative)

theorem rational?_eq {text : String} {l : Literal} (read : literal? (cutSign text.toList).2 = some l) :
    rational? text = some (l.signed (cutSign text.toList).1) :=
  congrArg (Option.map _) read

/-- So near to zero that no other double is as near. -/
def IsNearZero (x : ℚ) : Prop := |x| ≤ 1 / 2 ^ 1075

/-- So near to one that no other double is as near. -/
def IsNearOne (x : ℚ) : Prop := 1 - 1 / 2 ^ 54 ≤ x ∧ x ≤ 1 + 1 / 2 ^ 53

theorem Literal.beq_zero {negative : Bool} {l : Literal} :
    (ofParts negative l.bits == 0) = true ↔ IsNearZero (l.signed negative) := by
  have size : |l.signed negative| = l.value := by
    cases negative
    · exact abs_of_nonneg l.value_nonneg
    · exact (abs_neg _).trans (abs_of_nonneg l.value_nonneg)
  have bits : l.bits = 0 ↔ _ := Literal.bits_eq_iff fits_zero
  rw [ofParts_beq_zero l.bits_le, bits, interval_zero_contains, IsNearZero, size]
  exact and_iff_right l.value_nonneg

theorem fits_one : Fits (pow2 52) 1022 := ⟨by decide, by decide, by decide⟩

theorem Literal.beq_one {negative : Bool} {l : Literal} :
    (ofParts negative l.bits == 1) = true ↔ IsNearOne (l.signed negative) := by
  have bits : l.bits = oneBits ↔ _ := Literal.bits_eq_iff fits_one
  rw [ofParts_beq_one l.bits_le, bits, interval_one_contains]
  cases negative with
  | false => exact and_iff_right rfl
  | true =>
    refine iff_of_false (fun h => Bool.noConfusion h.1) fun near => ?_
    have negative : (1 : ℚ) - 1 / 2 ^ 54 ≤ -l.value := near.1
    have := l.value_nonneg
    norm_num at negative
    linarith

end Decimal

open Decimal

/-- The number that a numeric literal spells, perhaps negated. -/
def Operand.rational? : Operand → Option ℚ
  | .numeric text _ => Decimal.rational? text
  | .negative inner _ => inner.rational?.map Neg.neg
  | _ => none

/-- A literal is read as the double for its number. -/
theorem Operand.asNumber?_of_rational {o : Operand} {x : ℚ} (h : o.rational? = some x) :
    ∃ (negative : Bool) (l : Literal), o.asNumber? = some (ofParts negative l.bits) ∧ x = l.signed negative := by
  fun_induction Operand.rational? generalizing x with
  | case1 text span =>
    obtain ⟨l, found, rfl⟩ := Option.map_eq_some_iff.1 h
    refine ⟨(cutSign text.toList).1, l, ?_, rfl⟩
    have read : readDecimal text = some (ofParts (cutSign text.toList).1 l.bits) :=
      Option.map_eq_some_iff.2 ⟨l, found, rfl⟩
    rw [Operand.asNumber?, readReal, read]
  | case2 inner span ih =>
    obtain ⟨y, found, rfl⟩ := Option.map_eq_some_iff.1 h
    obtain ⟨negative, l, number, rfl⟩ := ih found
    refine ⟨!negative, l, ?_, ?_⟩
    · rw [Operand.asNumber?, number, Option.map_some, neg_ofParts l.bits_le]
    · cases negative
      · rfl
      · exact neg_neg l.value
  | case3 _ plain none => cases h

end SkyQuery
