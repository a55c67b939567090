import SkyQuery.Decimal.Reader

/-!
# Spellings of decimal numbers

```text
number   = [sign] mantissa [(e | E) [sign] digits]
mantissa = digits [. [digits]] | . digits
```

A `Spelling` is a text of this form, cut into its parts. `readDecimal` reads exactly these texts
(`readDecimal_eq_some_iff`).
-/

namespace SkyQuery.Decimal

def AllDigits (cs : List Char) : Prop := cs.all Char.isDigit = true

inductive Sign where
  | missing | plus | minus
  deriving DecidableEq, Repr

namespace Sign

def text : Sign → List Char
  | missing => []
  | plus => ['+']
  | minus => ['-']

def isMinus : Sign → Bool
  | minus => true
  | missing | plus => false

end Sign

structure Exponent where
  mark : Char
  sign : Sign
  digits : List Char
  isMark : mark = 'e' ∨ mark = 'E'
  nonempty : digits ≠ []
  allDigits : AllDigits digits

namespace Exponent

def text (e : Exponent) : List Char := e.mark :: (e.sign.text ++ e.digits)

def value (e : Exponent) : Int :=
  if e.sign.isMinus then -(digitsValue e.digits : Int) else digitsValue e.digits

end Exponent

/-- A decimal text in parts; `fraction` is what follows the point, if there is one. -/
structure Spelling where
  sign : Sign
  whole : List Char
  fraction : Option (List Char)
  exponent : Option Exponent
  wholeDigits : AllDigits whole
  fractionDigits : AllDigits (fraction.getD [])
  nonempty : whole ++ fraction.getD [] ≠ []

namespace Spelling

def mantissa (s : Spelling) : List Char := s.whole ++ (s.fraction.map ('.' :: ·)).getD []

def tail (s : Spelling) : List Char := (s.exponent.map Exponent.text).getD []

def text (s : Spelling) : List Char := s.sign.text ++ (s.mantissa ++ s.tail)

def literal (s : Spelling) : Literal where
  digits := digitsValue (s.whole ++ s.fraction.getD [])
  exponent := (s.exponent.map Exponent.value).getD 0 - (s.fraction.getD []).length

def value (s : Spelling) : Float := ofParts s.sign.isMinus s.literal.bits

end Spelling

/-! ### Signs and digits -/

theorem cutSign_text (s : Sign) {cs : List Char} (unsigned : ∀ c ∈ cs.head?, c ≠ '+' ∧ c ≠ '-') :
    cutSign (s.text ++ cs) = (s.isMinus, cs) := by
  cases s with
  | plus => rfl
  | minus => rfl
  | missing =>
    cases cs with
    | nil => rfl
    | cons c cs =>
      obtain ⟨noPlus, noMinus⟩ := unsigned c rfl
      change cutSign (c :: cs) = (false, c :: cs)
      unfold cutSign
      split <;> simp_all

theorem exists_sign (cs : List Char) :
    ∃ s : Sign, cs = s.text ++ (cutSign cs).2 ∧ (cutSign cs).1 = s.isMinus := by
  unfold cutSign
  split
  · exact ⟨.minus, rfl, rfl⟩
  · exact ⟨.plus, rfl, rfl⟩
  · exact ⟨.missing, rfl, rfl⟩

theorem digit_unsigned {c : Char} (h : c.isDigit = true) : c ≠ '+' ∧ c ≠ '-' := by
  constructor <;> rintro rfl <;> cases h

theorem AllDigits.unsigned {cs : List Char} (h : AllDigits cs) (nonempty : cs ≠ []) (rest : List Char) :
    ∀ c ∈ (cs ++ rest).head?, c ≠ '+' ∧ c ≠ '-' := by
  cases cs with
  | nil => exact absurd rfl nonempty
  | cons d ds =>
    simp only [AllDigits, List.all_cons, Bool.and_eq_true] at h
    intro c first
    cases first
    exact digit_unsigned h.1

theorem AllDigits.takeWhile {cs rest : List Char} (h : AllDigits cs)
    (ends : ∀ c ∈ rest.head?, c.isDigit = false) : (cs ++ rest).takeWhile Char.isDigit = cs := by
  rw [List.takeWhile_append_of_pos (List.all_eq_true.1 h)]
  cases rest with
  | nil => simp
  | cons c rest => rw [List.takeWhile_cons_of_neg (by simp [ends c rfl]), List.append_nil]

theorem AllDigits.dropWhile {cs rest : List Char} (h : AllDigits cs)
    (ends : ∀ c ∈ rest.head?, c.isDigit = false) : (cs ++ rest).dropWhile Char.isDigit = rest := by
  rw [List.dropWhile_append_of_pos (List.all_eq_true.1 h)]
  cases rest with
  | nil => rfl
  | cons c rest => rw [List.dropWhile_cons_of_neg (by simp [ends c rfl])]

theorem allDigits_takeWhile (cs : List Char) : AllDigits (cs.takeWhile Char.isDigit) :=
  List.all_takeWhile

/-! ### Exponents -/

theorem exponent?_text (e : Exponent) : exponent? e.text = some e.value := by
  obtain ⟨mark, sign, digits, isMark, nonempty, allDigits⟩ := e
  have unsigned := allDigits.unsigned nonempty []
  rw [List.append_nil] at unsigned
  rw [Exponent.text, exponent?, if_pos isMark, cutSign_text sign unsigned]
  have read : digits.all Char.isDigit = true := allDigits
  simp [nonempty, read, Exponent.value]

theorem exponent?_eq_some_iff {cs : List Char} {n : Int} :
    exponent? cs = some n ↔
      ∃ e : Option Exponent, cs = (e.map Exponent.text).getD [] ∧ n = (e.map Exponent.value).getD 0 := by
  constructor
  · intro h
    unfold exponent? at h
    split at h
    · cases h
      exact ⟨none, rfl, rfl⟩
    · rename_i c rest
      split at h
      · rename_i isMark
        obtain ⟨sign, split, minus⟩ := exists_sign rest
        dsimp only at h
        split at h
        · cases h
        · rename_i valid
          simp only [Bool.or_eq_true, List.isEmpty_iff, Bool.not_eq_true', not_or, Bool.not_eq_false] at valid
          refine ⟨some ⟨c, sign, (cutSign rest).2, isMark, valid.1, valid.2⟩, ?_, ?_⟩
          · simpa [Exponent.text] using split
          · simpa [Exponent.value, minus] using h.symm
      · cases h
  · rintro ⟨e, rfl, rfl⟩
    cases e with
    | none => rfl
    | some e => exact exponent?_text e

/-! ### Numbers -/

theorem tail_ends (s : Spelling) : ∀ c ∈ s.tail.head?, c.isDigit = false ∧ c ≠ '.' := by
  intro c first
  unfold Spelling.tail at first
  cases h : s.exponent with
  | none => simp [h] at first
  | some e =>
    have head : c = e.mark := by simpa [h, Exponent.text] using first.symm
    rcases e.isMark with mark | mark <;> rw [head, mark] <;> decide

theorem literal?_point {cs rest : List Char} (h : cs.dropWhile Char.isDigit = '.' :: rest) :
    literal? cs =
      let whole := cs.takeWhile Char.isDigit
      let fraction := rest.takeWhile Char.isDigit
      if whole ++ fraction = [] then none
      else (exponent? (rest.dropWhile Char.isDigit)).map fun n =>
        ⟨digitsValue (whole ++ fraction), n - fraction.length⟩ := by
  unfold literal?
  rw [h]
  dsimp only
  simp only [List.append_eq_nil_iff, Bool.and_eq_true, List.isEmpty_iff]

theorem literal?_noPoint {cs : List Char} (h : ∀ rest, cs.dropWhile Char.isDigit ≠ '.' :: rest) :
    literal? cs =
      let whole := cs.takeWhile Char.isDigit
      if whole = [] then none
      else (exponent? (cs.dropWhile Char.isDigit)).map fun n => ⟨digitsValue whole, n⟩ := by
  unfold literal?
  dsimp only
  split
  · exact absurd ‹_› (h _)
  · simp

theorem literal?_text (s : Spelling) : literal? (s.mantissa ++ s.tail) = some s.literal := by
  have ends := tail_ends s
  have noDigits : ∀ c ∈ s.tail.head?, c.isDigit = false := fun c first => (ends c first).1
  have exponent : exponent? s.tail = some ((s.exponent.map Exponent.value).getD 0) :=
    exponent?_eq_some_iff.2 ⟨s.exponent, rfl, rfl⟩
  cases fraction : s.fraction with
  | none =>
    have mantissa : s.mantissa = s.whole := by simp [Spelling.mantissa, fraction]
    have nonempty : s.whole ≠ [] := by simpa [fraction] using s.nonempty
    have rest := s.wholeDigits.dropWhile noDigits
    rw [mantissa, literal?_noPoint, s.wholeDigits.takeWhile noDigits, rest, exponent]
    · simp [nonempty, Spelling.literal, fraction]
    · intro after same
      rw [rest] at same
      exact (ends '.' (by rw [same]; rfl)).2 rfl
  | some digits =>
    have mantissa : s.mantissa ++ s.tail = s.whole ++ ('.' :: (digits ++ s.tail)) := by
      simp [Spelling.mantissa, fraction]
    have nonempty : s.whole ++ digits ≠ [] := by simpa [fraction] using s.nonempty
    have fractionDigits : AllDigits digits := by simpa [fraction] using s.fractionDigits
    have point : ∀ c ∈ ('.' :: (digits ++ s.tail)).head?, c.isDigit = false := by
      rintro c ⟨⟩
      decide
    rw [mantissa, literal?_point (s.wholeDigits.dropWhile point), s.wholeDigits.takeWhile point,
      fractionDigits.takeWhile noDigits, fractionDigits.dropWhile noDigits, exponent]
    simp [nonempty, Spelling.literal, fraction]

theorem exists_spelling {cs : List Char} {l : Literal} (h : literal? cs = some l) (sign : Sign) :
    ∃ s : Spelling, s.sign = sign ∧ s.mantissa ++ s.tail = cs ∧ s.literal = l := by
  have parts := List.takeWhile_append_dropWhile (p := Char.isDigit) (l := cs)
  by_cases point : ∃ rest, cs.dropWhile Char.isDigit = '.' :: rest
  · obtain ⟨rest, point⟩ := point
    rw [literal?_point point] at h
    dsimp only at h
    split at h
    · cases h
    rename_i nonempty
    obtain ⟨n, exponent, rfl⟩ := Option.map_eq_some_iff.1 h
    obtain ⟨e, tail, rfl⟩ := exponent?_eq_some_iff.1 exponent
    have fraction := List.takeWhile_append_dropWhile (p := Char.isDigit) (l := rest)
    refine ⟨⟨sign, cs.takeWhile Char.isDigit, some (rest.takeWhile Char.isDigit), e,
      allDigits_takeWhile cs, allDigits_takeWhile rest, nonempty⟩, rfl, ?_, rfl⟩
    rw [point, ← fraction, tail] at parts
    simpa [Spelling.mantissa, Spelling.tail] using parts
  · rw [literal?_noPoint (not_exists.1 point)] at h
    dsimp only at h
    split at h
    · cases h
    rename_i nonempty
    obtain ⟨n, exponent, rfl⟩ := Option.map_eq_some_iff.1 h
    obtain ⟨e, tail, rfl⟩ := exponent?_eq_some_iff.1 exponent
    refine ⟨⟨sign, cs.takeWhile Char.isDigit, none, e, allDigits_takeWhile cs, rfl, by simpa using nonempty⟩,
      rfl, ?_, by simp [Spelling.literal]⟩
    rw [tail] at parts
    simpa [Spelling.mantissa, Spelling.tail] using parts

/-- What a number begins with. -/
theorem exists_head (s : Spelling) :
    ∃ c cs, s.text = c :: cs ∧ (c = '+' ∨ c = '-' ∨ c = '.' ∨ c.isDigit = true) := by
  cases sign : s.sign with
  | plus => exact ⟨'+', s.mantissa ++ s.tail, by rw [Spelling.text, sign]; rfl, by simp⟩
  | minus => exact ⟨'-', s.mantissa ++ s.tail, by rw [Spelling.text, sign]; rfl, by simp⟩
  | missing =>
    cases whole : s.whole with
    | cons d ds =>
      have digit : d.isDigit = true := List.all_eq_true.1 s.wholeDigits d (by simp [whole])
      exact ⟨d, _, by simp [Spelling.text, Spelling.mantissa, sign, whole, Sign.text]; rfl, by simp [digit]⟩
    | nil =>
      cases fraction : s.fraction with
      | none => exact absurd (by simp [whole, fraction]) s.nonempty
      | some ds =>
        exact ⟨'.', _, by simp [Spelling.text, Spelling.mantissa, sign, whole, fraction, Sign.text]; rfl, by simp⟩

theorem mantissa_unsigned (s : Spelling) : ∀ c ∈ (s.mantissa ++ s.tail).head?, c ≠ '+' ∧ c ≠ '-' := by
  by_cases empty : s.whole = []
  · cases fraction : s.fraction with
    | none => exact absurd (by simp [empty, fraction]) s.nonempty
    | some digits =>
      intro c first
      have head : c = '.' := by simpa [Spelling.mantissa, empty, fraction] using first.symm
      subst head
      decide
  · rw [Spelling.mantissa, List.append_assoc]
    exact s.wholeDigits.unsigned empty _

theorem readDecimal_eq_some_iff {text : String} {x : Float} :
    readDecimal text = some x ↔ ∃ s : Spelling, s.text = text.toList ∧ s.value = x := by
  constructor
  · intro h
    obtain ⟨sign, split, minus⟩ := exists_sign text.toList
    have read : (literal? (cutSign text.toList).2).map (fun l => ofParts (cutSign text.toList).1 l.bits) =
        some x := h
    obtain ⟨l, found, rfl⟩ := Option.map_eq_some_iff.1 read
    obtain ⟨s, rfl, parts, rfl⟩ := exists_spelling found sign
    exact ⟨s, by rw [split, ← parts, Spelling.text], by rw [minus, Spelling.value]⟩
  · rintro ⟨s, same, rfl⟩
    rw [readDecimal, ← same, Spelling.text, cutSign_text s.sign (mantissa_unsigned s)]
    dsimp only
    rw [literal?_text, Option.map_some, Spelling.value]

/-- A word that spells a number which is not too great for a double. -/
structure Numeral where
  word : String
  value : Float
  spelled : ∃ s : Spelling, s.text = word.toList ∧ s.value = value
  finite : value.isFinite = true

theorem readFinite_eq_some_iff {word : String} {x : Float} :
    readFinite word = some x ↔ ∃ n : Numeral, n.word = word ∧ n.value = x := by
  rw [readFinite, Option.filter_eq_some_iff, readDecimal_eq_some_iff]
  constructor
  · rintro ⟨spelled, finite⟩
    exact ⟨⟨word, x, spelled, finite⟩, rfl, rfl⟩
  · rintro ⟨n, rfl, rfl⟩
    exact ⟨n.spelled, n.finite⟩

theorem Numeral.read (n : Numeral) : readFinite n.word = some n.value :=
  readFinite_eq_some_iff.2 ⟨n, rfl, rfl⟩

/-- A word spells one number at most. -/
theorem Numeral.eq_of_word {m n : Numeral} (h : m.word = n.word) : m = n := by
  have value : m.value = n.value := Option.some.inj (by rw [← m.read, ← n.read, h])
  cases m
  cases n
  cases h
  cases value
  rfl

end SkyQuery.Decimal
