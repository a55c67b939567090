import SkyQuery.Proofs.Decimal.Rounded
import SkyQuery.Proofs.Decimal.Shortest

/-!
# Written doubles are read back

Every finite double is read back from its text in any format whose mark is one that exponents have
(`Format.readFinite_write`).
-/

namespace SkyQuery.Decimal

/-! ### Reading a number in the interval -/

namespace Literal

def value (l : Literal) : ℚ := l.digits * 10 ^ l.exponent

end Literal

theorem Interval.le_of_contains {i : Interval} {x : ℚ} (h : i.Contains x) :
    i.low ≤ x * pow2 1076 ∧ x * pow2 1076 ≤ i.high := by
  unfold Interval.Contains at h
  split at h
  · exact h
  · exact ⟨h.1.le, h.2.le⟩

theorem le_interval_low {m s : Nat} (pos : 0 < m) : 1 ≤ (interval m s).low :=
  Nat.mul_pos (by split <;> omega) (pow2_pos s)

theorem pow2_mono {a b : Nat} (h : a ≤ b) : pow2 a ≤ pow2 b := Nat.pow_le_pow_right (by decide) h

theorem interval_high_le {m s : Nat} (fits : Fits m s) : (interval m s).high ≤ pow2 2100 := by
  have := fits.mantissa_lt
  calc (4 * m + 2) * pow2 s ≤ pow2 55 * pow2 2045 :=
        Nat.mul_le_mul (by change _ ≤ 2 ^ 55; omega) (pow2_mono fits.shift_le)
    _ = pow2 2100 := by decide +kernel

theorem contains_bounds {m s : Nat} {x : ℚ} (fits : Fits m s) (pos : 0 < m) (h : (interval m s).Contains x) :
    (10 : ℚ) ^ (-(330 : Nat) : Int) ≤ x ∧ x ≤ (10 : ℚ) ^ ((309 : Nat) : Int) := by
  obtain ⟨low, high⟩ := Interval.le_of_contains h
  have positive := Interval.pos_of_contains pos h
  have least : (1 : ℚ) ≤ (interval m s).low := by exact_mod_cast le_interval_low pos
  have most : ((interval m s).high : ℚ) ≤ pow2 2100 := by exact_mod_cast interval_high_le fits
  have units : (0 : ℚ) < pow2 1076 := by exact_mod_cast pow2_pos 1076
  have small : (pow2 1076 : ℚ) ≤ pow10 330 := by exact_mod_cast show pow2 1076 ≤ pow10 330 by decide +kernel
  have great : (pow2 2100 : ℚ) ≤ pow10 309 * pow2 1076 := by
    exact_mod_cast show pow2 2100 ≤ pow10 309 * pow2 1076 by decide +kernel
  have tens : (0 : ℚ) < pow10 330 := by exact_mod_cast pow10_pos 330
  rw [zpow_neg, zpow_natCast, zpow_natCast, ← cast_pow10, ← cast_pow10]
  generalize pow2 1076 = u at *
  generalize pow10 330 = t at *
  constructor
  · rw [inv_le_iff_one_le_mul₀ tens]
    calc (1 : ℚ) ≤ x * u := least.trans low
      _ ≤ x * t := mul_le_mul_of_nonneg_left small positive.le
  · exact le_of_mul_le_mul_right (high.trans (most.trans great)) units

theorem Literal.pow_le_value {l : Literal} (pos : 0 < l.digits) :
    (10 : ℚ) ^ ((Nat.toDigits 10 l.digits).length + l.exponent - 1) ≤ l.value := by
  have some : 0 < (Nat.toDigits 10 l.digits).length := Nat.length_toDigits_pos
  have split : ((Nat.toDigits 10 l.digits).length + l.exponent - 1 : Int) =
      ((Nat.toDigits 10 l.digits).length - 1 : Nat) + l.exponent := by omega
  rw [split, zpow_add₀ (by norm_num), zpow_natCast]
  exact mul_le_mul_of_nonneg_right (by exact_mod_cast pow_length_toDigits_le pos) (by positivity)

theorem Literal.value_lt_pow (l : Literal) :
    l.value < (10 : ℚ) ^ ((Nat.toDigits 10 l.digits).length + l.exponent) := by
  rw [zpow_add₀ (by norm_num), zpow_natCast]
  exact mul_lt_mul_of_pos_right (by exact_mod_cast lt_pow_length_toDigits l.digits) (by positivity)

theorem cast_pow2 (n : Nat) : ((pow2 n : Nat) : ℚ) = 2 ^ n := Nat.cast_pow 2 n

theorem infinityBits_ne {m s : Nat} (fits : Fits m s) : infinityBits ≠ s * pow2 52 + m := by
  have := fits.mantissa_lt
  have := fits.shift_le
  change 2047 * 2 ^ 52 ≠ s * 2 ^ 52 + m
  omega

theorem fits_zero : Fits 0 0 := ⟨by decide, by decide, by decide⟩

/-- The bits of zero are those of no other double. -/
theorem Fits.eq_zero {m s : Nat} (fits : Fits m s) (zero : m = 0 ∨ s * pow2 52 + m = 0) : m = 0 ∧ s = 0 := by
  have normal := fits.mantissa_ge
  change m = 0 ∨ s * 2 ^ 52 + m = 0 at zero
  omega

theorem interval_zero_contains {x : ℚ} : (interval 0 0).Contains x ↔ 0 ≤ x ∧ x ≤ 1 / 2 ^ 1075 := by
  change ((0 : Nat) : ℚ) ≤ x * pow2 1076 ∧ x * pow2 1076 ≤ ((2 : Nat) : ℚ) ↔ _
  have double : ((pow2 1076 : Nat) : ℚ) = 2 * 2 ^ 1075 := (cast_pow2 1076).trans (pow_succ' 2 1075)
  have positive : (0 : ℚ) < 2 ^ 1075 := pow_pos two_pos 1075
  rw [double, Nat.cast_zero, Nat.cast_ofNat, le_div_iff₀ positive]
  generalize (2 : ℚ) ^ 1075 = u at *
  constructor
  · rintro ⟨low, high⟩
    exact ⟨nonneg_of_mul_nonneg_left low (by positivity), by linarith⟩
  · rintro ⟨low, high⟩
    exact ⟨by positivity, by linarith⟩

theorem interval_zero_contains_zero : (interval 0 0).Contains 0 :=
  interval_zero_contains.2 ⟨le_refl 0, by positivity⟩

theorem le_of_contains {m s : Nat} {x : ℚ} (fits : Fits m s) (h : (interval m s).Contains x) :
    x ≤ (10 : ℚ) ^ ((309 : Nat) : Int) := by
  obtain rfl | pos := Nat.eq_zero_or_pos m
  · obtain ⟨-, rfl⟩ := fits.eq_zero (.inl rfl)
    have small : (1 : ℚ) / 2 ^ 1075 ≤ 1 := div_le_one_of_le₀ (one_le_pow₀ one_le_two) (by positivity)
    have great : (1 : ℚ) ≤ 10 ^ ((309 : Nat) : Int) := by
      rw [zpow_natCast]
      exact one_le_pow₀ (by norm_num)
    exact (interval_zero_contains.1 h).2.trans (small.trans great)
  · exact (contains_bounds fits pos h).2

theorem Literal.value_nonneg (l : Literal) : 0 ≤ l.value := by
  unfold Literal.value
  positivity

/-- A decimal text that is too small for any other double is read as zero. -/
theorem Literal.value_le_of_small {l : Literal} (small : (Nat.toDigits 10 l.digits).length + l.exponent < -330) :
    l.value ≤ 1 / 2 ^ 1075 ∧ l.value < (10 : ℚ) ^ (-(330 : Nat) : Int) := by
  have below := l.value_lt_pow
  have tiny : (10 : ℚ) ^ ((Nat.toDigits 10 l.digits).length + l.exponent) ≤ (10 : ℚ) ^ (-(331 : Nat) : Int) :=
    zpow_le_zpow_right₀ (by norm_num) (by omega)
  have least : (10 : ℚ) ^ (-(331 : Nat) : Int) ≤ 1 / 2 ^ 1075 := by
    have powers : (2 : ℚ) ^ 1075 ≤ 10 ^ 331 := by
      rw [← cast_pow2, ← cast_pow10]
      exact_mod_cast show pow2 1075 ≤ pow10 331 by decide +kernel
    rw [zpow_neg, zpow_natCast, one_div]
    exact inv_anti₀ (by positivity) powers
  refine ⟨below.le.trans (tiny.trans least), below.trans_le (tiny.trans ?_)⟩
  exact zpow_le_zpow_right₀ (by norm_num) (by omega)

/-- A decimal text is read as the double in whose interval its value lies. -/
theorem Literal.bits_eq_iff {m s : Nat} {l : Literal} (fits : Fits m s) :
    l.bits = s * pow2 52 + m ↔ (interval m s).Contains l.value := by
  have scaled : l.value = (l.digits * pow10 l.exponent.toNat : Nat) / (pow10 (-l.exponent).toNat : Nat) :=
    mul_zpow_ten l.digits l.exponent
  have nearest : nearestBits (l.digits * pow10 l.exponent.toNat) (pow10 (-l.exponent).toNat) = s * pow2 52 + m ↔ _ :=
    nearestBits_eq_iff fits (pow10_pos (-l.exponent).toNat)
  rw [← scaled] at nearest
  unfold Literal.bits
  dsimp only
  -- Zero and the exponents far out of range are decided without a division: too large a value is in no
  -- interval, and too small a one only in that of zero.
  split
  · rename_i zero
    have value : l.value = 0 := by simp [Literal.value, zero]
    rw [value]
    constructor
    · intro none
      obtain ⟨rfl, rfl⟩ := fits.eq_zero (.inr none.symm)
      exact interval_zero_contains_zero
    · intro within
      obtain rfl | pos := Nat.eq_zero_or_pos m
      · obtain ⟨-, rfl⟩ := fits.eq_zero (.inl rfl)
        rfl
      · exact absurd (Interval.pos_of_contains pos within) (lt_irrefl 0)
  rename_i nonzero
  split
  · rename_i large
    refine iff_of_false (infinityBits_ne fits) fun within => ?_
    have great := (Literal.pow_le_value (Nat.pos_of_ne_zero nonzero)).trans (le_of_contains fits within)
    have := (zpow_le_zpow_iff_right₀ (by norm_num)).1 great
    omega
  split
  · rename_i small
    obtain ⟨most, below⟩ := Literal.value_le_of_small small
    constructor
    · intro none
      obtain ⟨rfl, rfl⟩ := fits.eq_zero (.inr none.symm)
      exact interval_zero_contains.2 ⟨l.value_nonneg, most⟩
    · intro within
      obtain rfl | pos := Nat.eq_zero_or_pos m
      · obtain ⟨-, rfl⟩ := fits.eq_zero (.inl rfl)
        rfl
      · exact absurd (contains_bounds fits pos within).1 (not_le.2 below)
  split
  · rename_i nonneg
    rwa [Int.toNat_of_nonpos (by omega : -l.exponent ≤ 0)] at nearest
  · rename_i neg
    rwa [Int.toNat_of_nonpos (by omega : l.exponent ≤ 0), show pow10 0 = 1 from rfl, Nat.mul_one] at nearest

/-! ### Texts -/

/-- The numbers that texts without a sign spell. -/
def Spells (cs : List Char) (x : ℚ) : Prop :=
  ∀ sign : Sign, ∃ s : Spelling, s.sign = sign ∧ s.text = sign.text ++ cs ∧ s.literal.value = x

theorem allDigits_zeros (n : Nat) : AllDigits (List.replicate n '0') :=
  List.all_eq_true.2 fun c member => by rw [List.eq_of_mem_replicate member]; rfl

theorem AllDigits.append {cs ds : List Char} (first : AllDigits cs) (second : AllDigits ds) :
    AllDigits (cs ++ ds) := by
  rw [AllDigits, List.all_append, first, second]
  rfl

theorem spells_point {whole fraction : List Char} {e : Option Exponent} (wholeDigits : AllDigits whole)
    (fractionDigits : AllDigits fraction) (nonempty : fraction ≠ []) :
    Spells (whole ++ '.' :: (fraction ++ (e.map Exponent.text).getD []))
      (digitsValue (whole ++ fraction) * 10 ^ ((e.map Exponent.value).getD 0 - fraction.length)) := by
  intro sign
  refine ⟨⟨sign, whole, some fraction, e, wholeDigits, fractionDigits, by simp [nonempty]⟩, rfl, ?_, rfl⟩
  simp [Spelling.text, Spelling.mantissa, Spelling.tail]

/-- What follows the point when the first `n` digits stand before it. -/
def fraction (digits : List Char) (n : Nat) : List Char :=
  if (digits.drop n).isEmpty then ['0'] else digits.drop n

theorem fraction_ne_nil (digits : List Char) (n : Nat) : fraction digits n ≠ [] := by
  unfold fraction
  split
  · exact List.cons_ne_nil _ _
  · rename_i some
    simpa using some

theorem AllDigits.fraction {digits : List Char} (all : AllDigits digits) (n : Nat) :
    AllDigits (Decimal.fraction digits n) := by
  unfold Decimal.fraction
  split
  · rfl
  · exact List.all_eq_true.2 fun c member => List.all_eq_true.1 all c (List.mem_of_mem_drop member)

theorem AllDigits.take {digits : List Char} (all : AllDigits digits) (n : Nat) : AllDigits (digits.take n) :=
  List.all_eq_true.2 fun c member => List.all_eq_true.1 all c (List.mem_of_mem_take member)

theorem digitsValue_fraction (digits : List Char) (n : Nat) :
    (digitsValue (digits.take n ++ List.replicate (n - digits.length) '0' ++ fraction digits n) : ℚ) *
        10 ^ (-((fraction digits n).length : Int)) =
      digitsValue digits * 10 ^ ((n : Int) - digits.length) := by
  unfold fraction
  by_cases all : digits.length ≤ n
  · rw [List.drop_eq_nil_of_le all, List.take_of_length_le all, List.isEmpty_nil, if_pos rfl, digitsValue_append, digitsValue_append,
      digitsValue_zeros, List.length_replicate]
    obtain ⟨k, rfl⟩ := Nat.exists_eq_add_of_le all
    have value : digitsValue ['0'] = 0 := rfl
    have exponent : ((digits.length + k : Nat) : Int) - digits.length = k := by omega
    rw [Nat.add_sub_cancel_left, value, exponent, zpow_natCast]
    push_cast
    norm_num
    ring
  · have some : ¬(digits.drop n).isEmpty = true := by simpa using all
    rw [if_neg some, Nat.sub_eq_zero_of_le (by omega), List.replicate_zero, List.append_nil,
      List.take_append_drop, List.length_drop]
    congr 2
    omega

theorem positional_spells {d : Digits} (all : AllDigits d.digits) (nonempty : d.digits ≠ []) :
    Spells (positional d).toList d.value := by
  unfold positional
  split
  · rename_i below
    have zeros := allDigits_zeros (-d.exponent - 1).toNat
    have spells := spells_point (e := none) (show AllDigits ['0'] from rfl) (zeros.append all)
      (List.append_ne_nil_of_right_ne_nil _ nonempty)
    have value : digitsValue (['0'] ++ (List.replicate (-d.exponent - 1).toNat '0' ++ d.digits)) =
        digitsValue d.digits := by
      rw [digitsValue_append, digitsValue_append, digitsValue_zeros]
      simp [digitsValue]
    have exponent : (0 : Int) - (List.replicate (-d.exponent - 1).toNat '0' ++ d.digits).length =
        d.exponent + 1 - d.digits.length := by
      rw [List.length_append, List.length_replicate]
      omega
    simp only [Option.map_none, Option.getD_none] at spells
    rw [value, exponent] at spells
    simpa [Digits.value] using spells
  · rename_i above
    have spells := spells_point (e := none)
      ((all.take (d.exponent.toNat + 1)).append (allDigits_zeros (d.exponent.toNat + 1 - d.digits.length)))
      (all.fraction (d.exponent.toNat + 1)) (fraction_ne_nil _ _)
    have exponent : ((d.exponent.toNat + 1 : Nat) : Int) - d.digits.length = d.exponent + 1 - d.digits.length := by
      omega
    simp only [Option.map_none, Option.getD_none, Int.zero_sub] at spells
    rw [digitsValue_fraction, exponent] at spells
    simpa [Digits.value, fraction] using spells

theorem exists_exponent {mark : Char} (isMark : mark = 'e' ∨ mark = 'E') (n : Int) :
    ∃ e : Exponent, e.text = mark :: (toString n).toList ∧ e.value = n := by
  have digits (k : Nat) : (toString k).toList = Nat.toDigits 10 k := by
    rw [Nat.toString_eq_ofList_toDigits, String.toList_ofList]
  cases n with
  | ofNat k =>
    exact ⟨⟨mark, .missing, Nat.toDigits 10 k, isMark, Nat.toDigits_ne_nil, allDigits_toDigits k⟩,
      congrArg (mark :: ·) (digits k).symm, congrArg Int.ofNat (digitsValue_toDigits k)⟩
  | negSucc k =>
    refine ⟨⟨mark, .minus, Nat.toDigits 10 (k + 1), isMark, Nat.toDigits_ne_nil, allDigits_toDigits (k + 1)⟩,
      ?_, ?_⟩
    · have text : toString (Int.negSucc k) = "-" ++ toString (k + 1) := rfl
      rw [text, String.toList_append, digits]
      rfl
    · change -((digitsValue (Nat.toDigits 10 (k + 1)) : Nat) : Int) = _
      rw [digitsValue_toDigits]
      rfl

theorem withExponent_spells {d : Digits} {mark : String} {c : Char} (isMark : c = 'e' ∨ c = 'E')
    (single : mark = String.ofList [c]) (all : AllDigits d.digits) (nonempty : d.digits ≠ []) :
    Spells (withExponent mark d).toList d.value := by
  obtain ⟨e, text, value⟩ := exists_exponent isMark d.exponent
  have spells := spells_point (e := some e) (all.take 1) (all.fraction 1) (fraction_ne_nil _ _)
  have some : 1 - d.digits.length = 0 := by
    have := List.length_pos_iff.2 nonempty
    omega
  have shifted := digitsValue_fraction d.digits 1
  rw [some, List.replicate_zero, List.append_nil] at shifted
  have scaled : (digitsValue (d.digits.take 1 ++ fraction d.digits 1) : ℚ) *
      10 ^ (d.exponent - (fraction d.digits 1).length) = d.value := by
    rw [sub_eq_add_neg, zpow_add₀ (by norm_num), mul_left_comm, shifted, Digits.value, mul_left_comm,
      ← zpow_add₀ (by norm_num), add_sub_assoc]
    rfl
  rw [Option.map_some, Option.map_some, Option.getD_some, Option.getD_some, value, scaled, text] at spells
  simpa [withExponent, fraction, single] using spells

/-! ### Doubles -/

theorem Spells.read {text : String} {r : ℚ} {bits : Nat} (h : Spells text.toList r)
    (nearest : ∀ l : Literal, l.value = r → l.bits = bits) (negative : Bool) :
    readDecimal ((if negative = true then "-" else "") ++ text) = some (ofParts negative bits) := by
  obtain ⟨sign, minus, written⟩ : ∃ sign : Sign, sign.isMinus = negative ∧
      (if negative = true then "-" else "").toList = sign.text := by
    cases negative
    · exact ⟨.missing, rfl, rfl⟩
    · exact ⟨.minus, rfl, rfl⟩
  obtain ⟨s, rfl, spelled, value⟩ := h sign
  rw [readDecimal_eq_some_iff]
  refine ⟨s, ?_, ?_⟩
  · rw [spelled, String.toList_append, written]
  · rw [Spelling.value, minus, nearest s.literal value]

/-- A finite double is read back from its text. -/
theorem Format.readFinite_write (f : Format) {c : Char} (isMark : c = 'e' ∨ c = 'E')
    (single : f.exponentMark = String.ofList [c]) {x : Float} (finite : x.isFinite = true) :
    readFinite (f.write x) = some x := by
  obtain ⟨negative, m, s, parts, fits, whole⟩ := parts_of_isFinite finite
  have read : readDecimal (f.write x) = some (ofParts negative (s * pow2 52 + m)) := by
    unfold Format.write
    rw [parts]
    dsimp only
    split
    · rename_i zero
      subst zero
      obtain ⟨-, rfl⟩ := fits.eq_zero (.inl rfl)
      have spells : Spells "0.0".toList 0 := by
        simpa [digitsValue] using @spells_point ['0'] ['0'] none rfl rfl (by decide)
      exact spells.read (fun l value => (Literal.bits_eq_iff fits).2 (value ▸ interval_zero_contains_zero)) negative
    · rename_i nonzero
      have pos : 0 < m := Nat.pos_of_ne_zero nonzero
      obtain ⟨contains, all, nonempty⟩ := shortest_contains fits pos
      have nearest (l : Literal) (value : l.value = (shortest m s).value) : l.bits = s * pow2 52 + m :=
        (Literal.bits_eq_iff fits).2 (value ▸ contains)
      by_cases near : f.least ≤ (shortest m s).exponent ∧ (shortest m s).exponent ≤ f.greatest
      · rw [if_pos near]
        exact (positional_spells all nonempty).read nearest negative
      · rw [if_neg near]
        exact (withExponent_spells isMark single all nonempty).read nearest negative
  rw [readFinite, read, whole]
  simp [finite]

end SkyQuery.Decimal
