import SkyQuery.Decimal.Reader
import SkyQuery.Proofs.Decimal.Nearest
import SkyQuery.Proofs.Decimal.Spelling

/-!
# Shortest decimals read back

`shortest` finds a decimal in the interval of the double, whatever the double is (`shortest_contains`):
seventeen digits are always enough, since multiples of the power of ten of the seventeenth digit are
closer together than the ends of the interval.
-/

namespace SkyQuery.Decimal

/-! ### Digits -/

theorem digitsValue_append (cs ds : List Char) :
    digitsValue (cs ++ ds) = digitsValue cs * 10 ^ ds.length + digitsValue ds := by
  have both : digitsValue (cs ++ ds) = Nat.ofDigitChars 10 ds (digitsValue cs) := Nat.ofDigitChars_append 0
  rw [both, Nat.ofDigitChars_eq_ofDigitChars_zero, Nat.mul_comm]
  rfl

theorem digitsValue_zeros (n : Nat) : digitsValue (List.replicate n '0') = 0 :=
  Nat.ofDigitChars_replicate_zero

theorem digitsValue_toDigits (n : Nat) : digitsValue (Nat.toDigits 10 n) = n :=
  Nat.ofDigitChars_ten_toDigits

theorem allDigits_toDigits (n : Nat) : AllDigits (Nat.toDigits 10 n) :=
  List.all_eq_true.2 fun _ member => Nat.isDigit_of_mem_toDigits (by decide) (by decide) member

theorem lt_pow_length_toDigits (n : Nat) : n < 10 ^ (Nat.toDigits 10 n).length :=
  (Nat.length_toDigits_le_iff (by decide) Nat.length_toDigits_pos).1 le_rfl

theorem pow_length_toDigits_le {n : Nat} (pos : 0 < n) : 10 ^ ((Nat.toDigits 10 n).length - 1) ≤ n := by
  have some : 0 < (Nat.toDigits 10 n).length := Nat.length_toDigits_pos
  by_cases one : (Nat.toDigits 10 n).length = 1
  · rw [one]
    exact pos
  · by_contra less
    have := (Nat.length_toDigits_le_iff (by decide) (by omega)).2 (not_le.1 less)
    omega

theorem exists_stripZeros (cs : List Char) : ∃ n, cs = stripZeros cs ++ List.replicate n '0' := by
  have parts := List.takeWhile_append_dropWhile (p := (· == '0')) (l := cs.reverse)
  refine ⟨(cs.reverse.takeWhile (· == '0')).length, ?_⟩
  have zeros : cs.reverse.takeWhile (· == '0') = List.replicate (cs.reverse.takeWhile (· == '0')).length '0' :=
    List.eq_replicate_iff.2 ⟨rfl, fun c member => by simpa using List.mem_takeWhile_imp member⟩
  rw [stripZeros]
  conv_lhs => rw [← List.reverse_reverse cs, ← parts, List.reverse_append, zeros, List.reverse_replicate]

/-! ### Powers of ten -/

theorem zpow_split (power : Int) : (10 : ℚ) ^ power = 10 ^ power.toNat / 10 ^ (-power).toNat := by
  rw [← zpow_natCast, ← zpow_natCast, ← zpow_sub₀ (by norm_num)]
  congr 1
  omega

theorem zpow_neg_le {num den k : Nat} (pos : 0 < den) (h : den ≤ num * 10 ^ k) :
    (10 : ℚ) ^ (-(k : Int)) ≤ num / den := by
  have positive : (0 : ℚ) < den := by exact_mod_cast pos
  rw [zpow_neg, zpow_natCast, inv_eq_one_div, div_le_div_iff₀ (by positivity) positive, one_mul]
  exact_mod_cast h

theorem decimalExponent_le {num den : Nat} (numPos : 0 < num) (denPos : 0 < den) :
    (10 : ℚ) ^ decimalExponent num den ≤ num / den := by
  unfold decimalExponent
  split
  · rename_i whole
    have some : 0 < (Nat.toDigits 10 (num / den)).length := Nat.length_toDigits_pos
    have least := pow_length_toDigits_le (Nat.div_pos whole denPos)
    have exponent : ((Nat.toDigits 10 (num / den)).length : Int) - 1 =
        ((Nat.toDigits 10 (num / den)).length - 1 : Nat) := by omega
    rw [exponent, zpow_natCast]
    calc (10 : ℚ) ^ ((Nat.toDigits 10 (num / den)).length - 1) ≤ (num / den : Nat) := by exact_mod_cast least
      _ ≤ num / den := Nat.cast_div_le
  · have some : 0 < (Nat.toDigits 10 (den / num)).length := Nat.length_toDigits_pos
    dsimp only
    split
    · rename_i fewer
      have exponent : 1 - ((Nat.toDigits 10 (den / num)).length : Int) =
          -((Nat.toDigits 10 (den / num)).length - 1 : Nat) := by omega
      rw [exponent]
      exact zpow_neg_le denPos fewer
    · have more := (Nat.div_lt_iff_lt_mul numPos).1 (lt_pow_length_toDigits (den / num))
      rw [Nat.mul_comm] at more
      exact zpow_neg_le denPos (Nat.le_of_lt more)

/-! ### Multiples of a power of ten -/

theorem pow2_pos (n : Nat) : 0 < pow2 n := Nat.pow_pos (by decide)

theorem pow10_pos (n : Nat) : 0 < pow10 n := Nat.pow_pos (by decide)

theorem cast_pow10 (n : Nat) : ((pow10 n : Nat) : ℚ) = 10 ^ n := Nat.cast_pow 10 n

theorem mul_zpow_ten (d : Nat) (power : Int) :
    (d * 10 ^ power : ℚ) = (d * pow10 power.toNat : Nat) / (pow10 (-power).toNat : Nat) := by
  rw [zpow_split, mul_div_assoc', Nat.cast_mul, cast_pow10, cast_pow10]

theorem holds_iff {i : Interval} {power : Int} {d : Nat} :
    i.holds (pow2 1076 * pow10 power.toNat) (pow10 (-power).toNat) d = true ↔ i.Contains (d * 10 ^ power) := by
  rw [mul_zpow_ten, Interval.contains_div (pow10_pos _), Interval.holds, Nat.mul_assoc,
    Nat.mul_comm (pow2 1076)]
  split <;> simp only [Bool.and_eq_true, decide_eq_true_eq]

theorem Interval.onGrid_contains {i : Interval} {power : Int} {d : Nat} (h : i.onGrid power = some d) :
    i.Contains (d * 10 ^ power) := by
  rw [← holds_iff]
  unfold onGrid at h
  generalize pow2 1076 * pow10 power.toNat = unit at *
  generalize pow10 (-power).toNat = scale at *
  dsimp only at h
  split at h
  · split at h <;> cases h <;> assumption
  · cases h
    assumption
  · cases h
    assumption
  · cases h

/-- One of the two multiples beside a number in an interval is in it, if they are closer together than
its ends. -/
theorem Interval.exists_onGrid {i : Interval} {power : Int} (low : i.low < i.value) (high : i.value < i.high)
    (close : i.low + (10 : ℚ) ^ power * pow2 1076 < i.high) : ∃ d, i.onGrid power = some d := by
  unfold onGrid
  have units := pow2_pos 1076
  generalize pow2 1076 = u at *
  have scalePos := pow10_pos (-power).toNat
  have unitPos : 0 < u * pow10 power.toNat := Nat.mul_pos units (pow10_pos _)
  have close : i.low * pow10 (-power).toNat + u * pow10 power.toNat < i.high * pow10 (-power).toNat := by
    have positive : (0 : ℚ) < pow10 (-power).toNat := by exact_mod_cast scalePos
    have whole : (10 : ℚ) ^ power * pow10 (-power).toNat = pow10 power.toNat := by
      rw [zpow_split, cast_pow10, cast_pow10, div_mul_cancel₀ _ (by positivity)]
    have scaled := mul_lt_mul_of_pos_right close positive
    have split : ((i.low : ℚ) + 10 ^ power * u) * pow10 (-power).toNat =
        i.low * pow10 (-power).toNat + u * pow10 power.toNat := by
      rw [← whole]
      ring
    rw [split] at scaled
    exact_mod_cast scaled
  generalize u * pow10 power.toNat = unit at *
  generalize pow10 (-power).toNat = scale at *
  have low := Nat.mul_lt_mul_of_pos_right low scalePos
  have high := Nat.mul_lt_mul_of_pos_right high scalePos
  have division := Nat.div_add_mod (i.value * scale) unit
  have small := Nat.mod_lt (i.value * scale) unitPos
  have next : (i.value * scale / unit + 1) * unit = i.value * scale / unit * unit + unit := Nat.succ_mul _ _
  rw [Nat.mul_comm] at division
  have either : i.holds unit scale (i.value * scale / unit) = true ∨
      i.holds unit scale (i.value * scale / unit + 1) = true := by
    unfold holds
    rw [next]
    split <;> simp only [Bool.and_eq_true, decide_eq_true_eq] <;> omega
  dsimp only
  split
  · split <;> exact ⟨_, rfl⟩
  · exact ⟨_, rfl⟩
  · exact ⟨_, rfl⟩
  · rename_i below above
    rw [below, above] at either
    exact absurd either (by decide)

/-! ### Seventeen digits -/

theorem interval_value_pos {m s : Nat} (pos : 0 < m) : 0 < (interval m s).value :=
  Nat.mul_pos (Nat.mul_pos (by decide) pos) (pow2_pos s)

theorem interval_low_lt {m s : Nat} (pos : 0 < m) : (interval m s).low < (interval m s).value :=
  Nat.mul_lt_mul_of_pos_right (by split <;> omega) (pow2_pos s)

theorem interval_lt_high (m s : Nat) : (interval m s).value < (interval m s).high :=
  Nat.mul_lt_mul_of_pos_right (by omega) (pow2_pos s)

theorem interval_wide {m s : Nat} (fits : Fits m s) (pos : 0 < m) :
    (interval m s).low * 10 ^ 16 + (interval m s).value < (interval m s).high * 10 ^ 16 := by
  have less := fits.mantissa_lt
  have units := pow2_pos s
  have split : (4 * m - if m = pow2 52 ∧ 0 < s then 1 else 2) * 10 ^ 16 + 4 * m < (4 * m + 2) * 10 ^ 16 := by
    split
    · rename_i least
      have : m = 2 ^ 52 := least.1
      omega
    · omega
  have scaled := Nat.mul_lt_mul_of_pos_right split units
  simp only [interval]
  linarith

theorem exists_seventeenth {m s : Nat} (fits : Fits m s) (pos : 0 < m) :
    ∃ d, (interval m s).onGrid (decimalExponent (interval m s).value (pow2 1076) - 16) = some d := by
  have units := pow2_pos 1076
  have top := decimalExponent_le (interval_value_pos (s := s) pos) units
  have wide := interval_wide fits pos
  refine Interval.exists_onGrid (interval_low_lt pos) (interval_lt_high m s) ?_
  generalize decimalExponent (interval m s).value (pow2 1076) = exponent at *
  generalize pow2 1076 = u at *
  have step : (10 : ℚ) ^ (exponent - 16) * 10 ^ 16 = 10 ^ exponent := by
    rw [← zpow_natCast, ← zpow_add₀ (by norm_num)]
    norm_num
  have wide : ((interval m s).low : ℚ) * 10 ^ 16 + (interval m s).value < (interval m s).high * 10 ^ 16 := by
    exact_mod_cast wide
  rw [le_div_iff₀ (by exact_mod_cast units), ← step] at top
  linarith

theorem exists_shortest {m s : Nat} (fits : Fits m s) (pos : 0 < m) :
    ∃ (d : Nat) (power : Int), (interval m s).Contains (d * 10 ^ power) ∧
      shortest m s = ⟨stripZeros (Nat.toDigits 10 d), power + ((Nat.toDigits 10 d).length - 1 : Nat)⟩ := by
  unfold shortest
  dsimp only
  split
  · rename_i d power found
    obtain ⟨n, -, found⟩ := List.exists_of_findSome?_eq_some found
    obtain ⟨_, onGrid, ⟨⟩⟩ := Option.map_eq_some_iff.1 found
    exact ⟨d, _, Interval.onGrid_contains onGrid, rfl⟩
  · rename_i missing
    obtain ⟨d, onGrid⟩ := exists_seventeenth fits pos
    have none := List.findSome?_eq_none_iff.1 missing 16 (by decide)
    rw [Option.map_eq_none_iff] at none
    exact absurd (none.symm.trans onGrid) (by simp)

/-! ### The number that is written -/

namespace Digits

def value (d : Digits) : ℚ := digitsValue d.digits * 10 ^ (d.exponent + 1 - d.digits.length)

end Digits

theorem Interval.pos_of_contains {m s : Nat} {x : ℚ} (pos : 0 < m) (h : (interval m s).Contains x) : 0 < x := by
  have low : 0 < (interval m s).low := Nat.mul_pos (by split <;> omega) (pow2_pos s)
  have low : (0 : ℚ) < (interval m s).low := by exact_mod_cast low
  have units : (0 : ℚ) < pow2 1076 := by exact_mod_cast pow2_pos 1076
  have scaled : 0 < x * pow2 1076 := by
    unfold Interval.Contains at h
    split at h
    · exact low.trans_le h.1
    · exact low.trans h.1
  exact (mul_pos_iff_of_pos_right units).1 scaled

/-- The shortest decimal of a double is in its interval. -/
theorem shortest_contains {m s : Nat} (fits : Fits m s) (pos : 0 < m) :
    (interval m s).Contains (shortest m s).value ∧ AllDigits (shortest m s).digits ∧
      (shortest m s).digits ≠ [] := by
  obtain ⟨d, power, contains, shortest⟩ := exists_shortest fits pos
  obtain ⟨n, digits⟩ := exists_stripZeros (Nat.toDigits 10 d)
  have positive := Interval.pos_of_contains pos contains
  have whole : d = digitsValue (stripZeros (Nat.toDigits 10 d)) * 10 ^ n := by
    conv_lhs => rw [← digitsValue_toDigits d, digits, digitsValue_append, digitsValue_zeros, List.length_replicate]
    rfl
  have length : (Nat.toDigits 10 d).length = (stripZeros (Nat.toDigits 10 d)).length + n := by
    conv_lhs => rw [digits, List.length_append, List.length_replicate]
  have some : 0 < (Nat.toDigits 10 d).length := Nat.length_toDigits_pos
  rw [shortest]
  refine ⟨?_, ?_, ?_⟩
  · have value : Digits.value ⟨stripZeros (Nat.toDigits 10 d), power + ((Nat.toDigits 10 d).length - 1 : Nat)⟩ =
        d * 10 ^ power := by
      have exponent : power + ((Nat.toDigits 10 d).length - 1 : Nat) + 1 -
          (stripZeros (Nat.toDigits 10 d)).length = n + power := by omega
      rw [Digits.value, exponent, zpow_add₀ (by norm_num), zpow_natCast, ← mul_assoc]
      congr 1
      exact_mod_cast whole.symm
    rwa [value]
  · have all := allDigits_toDigits d
    rw [digits, AllDigits, List.all_append, Bool.and_eq_true] at all
    exact all.1
  · intro empty
    dsimp only at empty
    rw [empty] at whole
    obtain rfl : d = 0 := by simpa [digitsValue] using whole
    simp at positive

end SkyQuery.Decimal
