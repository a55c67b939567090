import Mathlib
import SkyQuery.Decimal.Shortest

/-!
# The nearest double

The bits of a finite double, without its sign, are `shift · 2^52 + mantissa`, where its magnitude is
`mantissa · 2^shift` units (`parts_of_isFinite`). Every number in its interval is rounded to it
(`nearestBits_eq`).
-/

namespace SkyQuery.Decimal

/-! ### Bits -/

/-- The mantissas and shifts that finite doubles have. -/
structure Fits (mantissa shift : Nat) : Prop where
  mantissa_lt : mantissa < 2 ^ 53
  mantissa_ge : 0 < shift → 2 ^ 52 ≤ mantissa
  shift_le : shift ≤ 2045

theorem Magnitude.ofBits_finite {n : Nat} (h : n / pow2 52 < 2047) :
    ∃ m s, Magnitude.ofBits n = .finite m s ∧ n = s * pow2 52 + m ∧ Fits m s := by
  have whole : pow2 52 = 2 ^ 52 := rfl
  rw [whole] at h
  simp only [Magnitude.ofBits, whole]
  split
  · exact ⟨_, _, rfl, by omega, by omega, by omega, by omega⟩
  · exact ⟨_, _, rfl, by omega, by omega, by omega, by omega⟩

theorem exponent_lt_of_isFinite {x : Float} (h : x.isFinite = true) :
    x.toBits.toNat % pow2 63 / pow2 52 < 2047 := by
  by_contra large
  have ones : @Float.Model.UnpackedFloat.unpackExponent .binary64 x.toBits.toBitVec = -1#_ := by
    rw [Float.Model.UnpackedFloat.unpackExponent_def]
    refine BitVec.eq_of_toNat_eq ?_
    change x.toBits.toNat >>> 52 % 2 ^ 11 = 2047
    rw [Nat.shiftRight_eq_div_pow]
    simp only [pow2, Nat.pow_eq] at large
    omega
  have unpacked : (Float.Model.UnpackedFloat.unpack .binary64 x.toBits.toBitVec).isFinite = true := h
  unfold Float.Model.UnpackedFloat.unpack at unpacked
  dsimp only at unpacked
  rw [if_pos ones] at unpacked
  split at unpacked <;> cases unpacked

/-- A finite double is made of its sign, mantissa and shift. -/
theorem parts_of_isFinite {x : Float} (h : x.isFinite = true) :
    ∃ negative m s, parts x = (negative, .finite m s) ∧ Fits m s ∧
      ofParts negative (s * pow2 52 + m) = x := by
  obtain ⟨m, s, magnitude, bits, fits⟩ := Magnitude.ofBits_finite (exponent_lt_of_isFinite h)
  refine ⟨_, m, s, by rw [parts, magnitude], fits, ?_⟩
  have all : (if decide (pow2 63 ≤ x.toBits.toNat) = true then pow2 63 + x.toBits.toNat % pow2 63
      else x.toBits.toNat % pow2 63) = x.toBits.toNat := by
    have bound := x.toBits.toNat_lt
    simp only [pow2, Nat.pow_eq, decide_eq_true_eq]
    split <;> omega
  rw [← bits, ofParts, all, UInt64.ofNat_toNat, Float.ofBits_toBits]

/-! ### Rounding -/

theorem roundDiv_eq {num den m : Nat} (low : 2 * m * den ≤ 2 * num + den) (high : 2 * num ≤ (2 * m + 1) * den)
    (odd : m % 2 = 1 → 2 * m * den < 2 * num + den ∧ 2 * num < (2 * m + 1) * den) (pos : 0 < den) :
    roundDiv num den = m := by
  have division := Nat.div_add_mod num den
  have small := Nat.mod_lt num pos
  unfold roundDiv
  generalize num / den = q at *
  generalize num % den = r at *
  subst division
  -- the quotient is `m` or the number before it
  have below : q ≤ m := by
    by_contra above
    have more : den * (m + 1) ≤ den * q := Nat.mul_le_mul_left den (by omega)
    nlinarith
  have above : m ≤ q + 1 := by
    by_contra below
    have more : den * (q + 2) ≤ den * m := Nat.mul_le_mul_left den (by omega)
    nlinarith
  obtain rfl | rfl : m = q ∨ m = q + 1 := by omega
  · have half : 2 * r ≤ den := by nlinarith
    have strict : m % 2 = 1 → 2 * r < den := fun h => by nlinarith [odd h]
    dsimp only
    split
    · rfl
    · rw [if_neg (by omega)]
      omega
  · have half : den ≤ 2 * r := by nlinarith
    have strict : (q + 1) % 2 = 1 → den < 2 * r := fun h => by nlinarith [odd h]
    dsimp only
    rw [if_neg (by omega)]
    split
    · rfl
    · omega

/-- The numbers that an interval holds. -/
def Interval.Contains (i : Interval) (x : ℚ) : Prop :=
  if i.closed = true then (i.low : ℚ) ≤ x * pow2 1076 ∧ x * pow2 1076 ≤ i.high
  else (i.low : ℚ) < x * pow2 1076 ∧ x * pow2 1076 < i.high

theorem Interval.contains_div {i : Interval} {num den : Nat} (pos : 0 < den) :
    i.Contains (num / den) ↔
      if i.closed = true then i.low * den ≤ num * pow2 1076 ∧ num * pow2 1076 ≤ i.high * den
      else i.low * den < num * pow2 1076 ∧ num * pow2 1076 < i.high * den := by
  have positive : (0 : ℚ) < den := by exact_mod_cast pos
  rw [Contains, div_mul_eq_mul_div, le_div_iff₀ positive, div_le_iff₀ positive, lt_div_iff₀ positive,
    div_lt_iff₀ positive]
  norm_cast

theorem shift_zero {units den : Nat} (h : units < 2 ^ 53 * den) : (units / den).log2 - 52 = 0 := by
  by_cases zero : units / den = 0
  · rw [zero]
    rfl
  · have small : units / den < 2 ^ 53 := Nat.div_lt_of_lt_mul (by rwa [Nat.mul_comm])
    have := (Nat.log2_lt zero).2 small
    omega

theorem shift_eq {units den s : Nat} (pos : 0 < den) (low : 2 ^ (52 + s) * den ≤ units)
    (high : units < 2 ^ (53 + s) * den) : (units / den).log2 - 52 = s := by
  have least : 2 ^ (52 + s) ≤ units / den := (Nat.le_div_iff_mul_le pos).2 low
  have small : units / den < 2 ^ (53 + s) := Nat.div_lt_of_lt_mul (by rwa [Nat.mul_comm])
  have zero : units / den ≠ 0 := Nat.ne_of_gt (Nat.lt_of_lt_of_le (Nat.two_pow_pos _) least)
  rw [(Nat.log2_eq_iff zero).2 ⟨least, by rwa [Nat.add_right_comm]⟩]
  omega

theorem interval_low_mul (m s den : Nat) :
    (interval m s).low * den = (4 * m - if m = 2 ^ 52 ∧ 0 < s then 1 else 2) * (den * 2 ^ s) := by
  change (4 * m - if m = 2 ^ 52 ∧ 0 < s then 1 else 2) * 2 ^ s * den = _
  rw [Nat.mul_assoc, Nat.mul_comm (2 ^ s)]

theorem interval_high_mul (m s den : Nat) :
    (interval m s).high * den = (4 * m + 2) * (den * 2 ^ s) := by
  change (4 * m + 2) * 2 ^ s * den = _
  rw [Nat.mul_assoc, Nat.mul_comm (2 ^ s)]

/-- In the binade of the mantissa the numbers of the interval are rounded to it. -/
theorem round_same {m s units den : Nat} (pos : 0 < den) (shift : (units / den).log2 - 52 = s)
    (low : (interval m s).low * den ≤ 4 * units) (high : 4 * units ≤ (interval m s).high * den)
    (odd : m % 2 = 1 → (interval m s).low * den < 4 * units ∧ 4 * units < (interval m s).high * den) :
    roundDiv units (den * 2 ^ ((units / den).log2 - 52)) = m := by
  rw [interval_low_mul] at low odd
  rw [interval_high_mul] at high odd
  rw [shift]
  have positive : 0 < den * 2 ^ s := Nat.mul_pos pos (Nat.two_pow_pos s)
  generalize den * 2 ^ s = step at *
  have least : (4 * m - 2) * step ≤ (4 * m - if m = 2 ^ 52 ∧ 0 < s then 1 else 2) * step :=
    Nat.mul_le_mul_right step (by split <;> omega)
  have twice : 4 * m * step ≤ (4 * m - 2) * step + 2 * step := by
    rw [← Nat.add_mul]
    exact Nat.mul_le_mul_right step (by omega)
  refine roundDiv_eq (by nlinarith) (by nlinarith) (fun h => ?_) positive
  obtain ⟨above, below⟩ := odd h
  exact ⟨by nlinarith, by nlinarith⟩

/-- Below the binade of the mantissa, the numbers of the interval are so near to it that they are
rounded up to it. -/
theorem round_below {s units den : Nat} (pos : 0 < den) 
    (low : (interval (2 ^ 52) (s + 1)).low * den ≤ 4 * units) (below : units < 2 ^ 52 * (den * 2 ^ (s + 1))) :
    (units / den).log2 - 52 = s ∧ roundDiv units (den * 2 ^ s) = 2 ^ 53 := by
  have double : den * 2 ^ (s + 1) = 2 * (den * 2 ^ s) := by rw [Nat.pow_succ, ← Nat.mul_assoc, Nat.mul_comm]
  rw [interval_low_mul, if_pos ⟨rfl, Nat.succ_pos s⟩, double] at low
  rw [double] at below
  have positive : 0 < den * 2 ^ s := Nat.mul_pos pos (Nat.two_pow_pos s)
  constructor
  · apply shift_eq pos
    · rw [Nat.pow_add, Nat.mul_assoc, Nat.mul_comm (2 ^ s)]
      generalize den * 2 ^ s = step at *
      omega
    · rw [Nat.pow_add, Nat.mul_assoc, Nat.mul_comm (2 ^ s)]
      generalize den * 2 ^ s = step at *
      omega
  · generalize den * 2 ^ s = step at *
    exact roundDiv_eq (by omega) (by omega) (by omega) positive

/-- Numbers in the interval are in the binade of the mantissa, or in the one below if the mantissa is
the least of its binade. -/
theorem round_units {m s units den : Nat} (fits : Fits m s) (pos : 0 < den)
    (low : (interval m s).low * den ≤ 4 * units) (high : 4 * units ≤ (interval m s).high * den)
    (odd : m % 2 = 1 → (interval m s).low * den < 4 * units ∧ 4 * units < (interval m s).high * den) :
    ((units / den).log2 - 52) * 2 ^ 52 + roundDiv units (den * 2 ^ ((units / den).log2 - 52)) =
      s * 2 ^ 52 + m := by
  have positive : 0 < den * 2 ^ s := Nat.mul_pos pos (Nat.two_pow_pos s)
  have most : units < 2 ^ 53 * (den * 2 ^ s) := by
    have := fits.mantissa_lt
    have bound : (4 * m + 2) * (den * 2 ^ s) < 4 * 2 ^ 53 * (den * 2 ^ s) :=
      Nat.mul_lt_mul_of_pos_right (by omega) positive
    rw [interval_high_mul] at high
    omega
  by_cases same : (units / den).log2 - 52 = s
  · rw [round_same pos same low high odd, same]
  · cases s with
    | zero => exact absurd (shift_zero (by simpa using most)) same
    | succ s =>
      have normal := fits.mantissa_ge (Nat.succ_pos s)
      have below : units < 2 ^ 52 * (den * 2 ^ (s + 1)) := by
        by_contra above
        refine same (shift_eq pos ?_ ?_)
        · rw [Nat.pow_add, Nat.mul_assoc, Nat.mul_comm (2 ^ (s + 1))]
          omega
        · rwa [Nat.pow_add, Nat.mul_assoc, Nat.mul_comm (2 ^ (s + 1))]
      obtain rfl : m = 2 ^ 52 := by
        rw [interval_low_mul] at low
        by_contra other
        rw [if_neg (by omega)] at low
        have more : (4 * 2 ^ 52) * (den * 2 ^ (s + 1)) ≤ (4 * m - 2) * (den * 2 ^ (s + 1)) :=
          Nat.mul_le_mul_right _ (by omega)
        omega
      obtain ⟨shift, rounded⟩ := round_below pos low below
      rw [shift, rounded]
      ring

/-- Every number in the interval of a double is rounded to the double. -/
theorem nearestBits_eq {m s num den : Nat} (fits : Fits m s) (pos : 0 < den)
    (within : (interval m s).Contains (num / den)) : nearestBits num den = s * pow2 52 + m := by
  have scaled : num * pow2 1076 = 4 * (num * pow2 1074) := by
    rw [show pow2 1076 = 4 * pow2 1074 by decide +kernel, Nat.mul_left_comm]
  rw [Interval.contains_div pos, scaled] at within
  unfold nearestBits
  generalize num * pow2 1074 = units at *
  have parity : (interval m s).closed = true ↔ m % 2 = 0 := decide_eq_true_iff
  have rounded : ((units / den).log2 - 52) * 2 ^ 52 +
      roundDiv units (den * 2 ^ ((units / den).log2 - 52)) = s * 2 ^ 52 + m := by
    split at within
    · rename_i closed
      exact round_units fits pos within.1 within.2 fun h => absurd (parity.1 closed) (by omega)
    · exact round_units fits pos (Nat.le_of_lt within.1) (Nat.le_of_lt within.2) fun _ => within
  have small : s * 2 ^ 52 + m ≤ infinityBits := by
    have := fits.mantissa_lt
    have := fits.shift_le
    change s * 2 ^ 52 + m ≤ 2047 * 2 ^ 52
    omega
  change min infinityBits (((units / den).log2 - 52) * 2 ^ 52 +
    roundDiv units (den * 2 ^ ((units / den).log2 - 52))) = s * 2 ^ 52 + m
  rw [rounded, Nat.min_eq_right small]

end SkyQuery.Decimal
