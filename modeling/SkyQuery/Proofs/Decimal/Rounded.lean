import SkyQuery.Proofs.Decimal.Nearest

/-!
# What is rounded to a double

A number is rounded to a double exactly if it lies in its interval (`nearestBits_eq_iff`).
-/

namespace SkyQuery.Decimal

/-- What is rounded differs from the result by half at most, and by less if the result is odd. -/
theorem roundDiv_near {num den : Nat} (pos : 0 < den) :
    (2 * roundDiv num den * den ≤ 2 * num + den ∧ 2 * num ≤ (2 * roundDiv num den + 1) * den) ∧
      (roundDiv num den % 2 = 1 → 2 * roundDiv num den * den < 2 * num + den ∧ 2 * num < (2 * roundDiv num den + 1) * den) := by
  have division := Nat.div_add_mod num den
  have small := Nat.mod_lt num pos
  unfold roundDiv
  dsimp only
  generalize num / den = q at *
  generalize num % den = r at *
  subst division
  split
  · exact ⟨⟨by nlinarith, by nlinarith⟩, fun _ => ⟨by nlinarith, by nlinarith⟩⟩
  split
  · exact ⟨⟨by nlinarith, by nlinarith⟩, fun _ => ⟨by nlinarith, by nlinarith⟩⟩
  · have half : den = 2 * r := by omega
    subst half
    obtain even | odd : q % 2 = 0 ∨ q % 2 = 1 := by omega
    · rw [even, Nat.add_zero]
      exact ⟨⟨by nlinarith, by nlinarith⟩, fun h => by omega⟩
    · rw [odd]
      exact ⟨⟨by nlinarith, by nlinarith⟩, fun h => by omega⟩

/-- The shift is such that 53 bits are left, or fewer if nothing is shifted. -/
theorem shift_bounds {units den t : Nat} (pos : 0 < den) (shift : (units / den).log2 - 52 = t) :
    units < 2 ^ 53 * (den * 2 ^ t) ∧ (0 < t → 2 ^ 52 * (den * 2 ^ t) ≤ units) := by
  have scaled (n : Nat) : 2 ^ n * (den * 2 ^ t) = 2 ^ (n + t) * den := by
    rw [Nat.pow_add, Nat.mul_assoc, Nat.mul_comm den]
  rw [scaled, scaled]
  constructor
  · by_cases zero : units / den = 0
    · have below : units < den := (Nat.div_eq_zero_iff_lt pos).1 zero
      exact below.trans_le (Nat.le_mul_of_pos_left den (Nat.two_pow_pos _))
    · refine (Nat.div_lt_iff_lt_mul pos).1 ((Nat.log2_lt zero).1 ?_)
      omega
  · intro shifted
    refine (Nat.le_div_iff_mul_le pos).1 ((Nat.le_log2 ?_).1 ?_)
    · intro zero
      rw [zero] at shift
      exact absurd shift (by simp; omega)
    · omega

/-- What is rounded to the bits of a double lies in its interval. -/
theorem units_of_round {m s t units den : Nat} (fits : Fits m s) (pos : 0 < den) (shift : (units / den).log2 - 52 = t)
    (h : t * 2 ^ 52 + roundDiv units (den * 2 ^ t) = s * 2 ^ 52 + m) :
    ((interval m s).low * den ≤ 4 * units ∧ 4 * units ≤ (interval m s).high * den) ∧
      (m % 2 = 1 → (interval m s).low * den < 4 * units ∧ 4 * units < (interval m s).high * den) := by
  obtain ⟨below, above⟩ := shift_bounds pos shift
  have positive : 0 < den * 2 ^ t := Nat.mul_pos pos (Nat.two_pow_pos t)
  obtain ⟨⟨low, high⟩, odd⟩ := @roundDiv_near units _ positive
  rw [interval_low_mul, interval_high_mul]
  have most : roundDiv units (den * 2 ^ t) ≤ 2 ^ 53 := by
    by_contra more
    have : (2 ^ 53 + 1) * (den * 2 ^ t) ≤ roundDiv units (den * 2 ^ t) * (den * 2 ^ t) :=
      Nat.mul_le_mul_right _ (by omega)
    nlinarith
  have least : 0 < t → 2 ^ 52 ≤ roundDiv units (den * 2 ^ t) := by
    intro shifted
    by_contra less
    have : (roundDiv units (den * 2 ^ t) + 1) * (den * 2 ^ t) ≤ 2 ^ 52 * (den * 2 ^ t) :=
      Nat.mul_le_mul_right _ (by omega)
    have := above shifted
    nlinarith
  generalize roundDiv units (den * 2 ^ t) = r at *
  have bound := fits.mantissa_lt
  have normal := fits.mantissa_ge
  -- the mantissa is what is left after the shift, unless that is rounded up to 54 bits
  obtain ⟨rfl, rfl⟩ | ⟨rfl, rfl, rfl⟩ : (s = t ∧ m = r) ∨ (s = t + 1 ∧ m = 2 ^ 52 ∧ r = 2 ^ 53) := by omega
  · generalize den * 2 ^ s = step at *
    by_cases edge : m = 2 ^ 52 ∧ 0 < s
    · rw [if_pos edge]
      have := above edge.2
      obtain ⟨rfl, -⟩ := edge
      exact ⟨⟨by omega, by omega⟩, fun h => by omega⟩
    · rw [if_neg edge, Nat.sub_mul]
      refine ⟨⟨?_, by nlinarith⟩, fun h => ⟨?_, by nlinarith [odd h]⟩⟩
      · have : 4 * m * step ≤ 4 * units + 2 * step := by nlinarith
        omega
      · have : 4 * m * step < 4 * units + 2 * step := by nlinarith [odd h]
        have : 4 * step ≤ 4 * m * step := Nat.mul_le_mul_right step (by omega)
        omega
  · have double : den * 2 ^ (t + 1) = 2 * (den * 2 ^ t) := by rw [Nat.pow_succ, ← Nat.mul_assoc, Nat.mul_comm]
    rw [if_pos ⟨rfl, Nat.succ_pos t⟩, double]
    generalize den * 2 ^ t = step at *
    exact ⟨⟨by omega, by omega⟩, fun h => by omega⟩

/-- A number is rounded to a double exactly if it lies in its interval. -/
theorem nearestBits_eq_iff {m s num den : Nat} (fits : Fits m s) (pos : 0 < den) :
    nearestBits num den = s * pow2 52 + m ↔ (interval m s).Contains (num / den) := by
  refine ⟨fun h => ?_, nearestBits_eq fits pos⟩
  have scaled : num * pow2 1076 = 4 * (num * pow2 1074) := by
    rw [show pow2 1076 = 4 * pow2 1074 by decide +kernel, Nat.mul_left_comm]
  have small : s * 2 ^ 52 + m < infinityBits := by
    have := fits.mantissa_lt
    have := fits.shift_le
    change s * 2 ^ 52 + m < 2047 * 2 ^ 52
    omega
  rw [Interval.contains_div pos, scaled]
  unfold nearestBits at h
  generalize num * pow2 1074 = units at *
  have parity : (interval m s).closed = true ↔ m % 2 = 0 := decide_eq_true_iff
  have rounded : ((units / den).log2 - 52) * 2 ^ 52 + roundDiv units (den * 2 ^ ((units / den).log2 - 52)) =
      s * 2 ^ 52 + m := by
    change min infinityBits (((units / den).log2 - 52) * 2 ^ 52 +
      roundDiv units (den * 2 ^ ((units / den).log2 - 52))) = s * 2 ^ 52 + m at h
    omega
  obtain ⟨within, odd⟩ := units_of_round fits pos rfl rounded
  split
  · exact within
  · rename_i opened
    exact odd (by rw [parity] at opened; omega)

end SkyQuery.Decimal
