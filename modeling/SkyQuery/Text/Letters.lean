/-!
# ASCII letters

Keywords and regular identifiers are ASCII words compared without regard to letter case; no other
letter has a case here.
-/

namespace SkyQuery.Text

def upper (s : String) : String := String.ofList (s.toList.map Char.toUpper)

def lower (s : String) : String := String.ofList (s.toList.map Char.toLower)

/-- Equality up to the case of ASCII letters. -/
def sameLetters (a b : String) : Bool := a.toList.map Char.toLower == b.toList.map Char.toLower

theorem sameLetters_refl (a : String) : sameLetters a a = true := by simp [sameLetters]

theorem sameLetters_comm (a b : String) : sameLetters a b = sameLetters b a := by
  simp only [sameLetters]
  exact Bool.eq_iff_iff.2 ⟨fun h => by simpa using (beq_iff_eq.1 h).symm,
    fun h => by simpa using (beq_iff_eq.1 h).symm⟩

def isLetter (c : Char) : Bool := c.isAlpha

/-- The characters that continue a regular identifier. -/
def isWordChar (c : Char) : Bool := c.isAlphanum || c == '_'

/-- A letter followed by letters, digits and underscores. -/
def isWord : List Char → Bool
  | [] => false
  | c :: rest => isLetter c && rest.all isWordChar

section WordChars

variable {c : Char}

theorem isWordChar_of_isAlpha (letter : c.isAlpha = true) : isWordChar c = true := by
  simp [isWordChar, Char.isAlphanum, letter]

theorem isWordChar_of_isDigit (digit : c.isDigit = true) : isWordChar c = true := by
  simp [isWordChar, Char.isAlphanum, digit]

theorem exists_of_isWord {word : List Char} (h : isWord word = true) :
    ∃ c cs, word = c :: cs ∧ isLetter c = true ∧ ∀ d ∈ cs, isWordChar d = true := by
  cases word with
  | nil => cases h
  | cons c cs =>
    rw [isWord, Bool.and_eq_true, List.all_eq_true] at h
    exact ⟨c, cs, rfl, h⟩

theorem isWordChar_of_isWord {word : List Char} (h : isWord word = true) : ∀ c ∈ word, isWordChar c = true := by
  obtain ⟨c, cs, rfl, letter, others⟩ := exists_of_isWord h
  exact List.forall_mem_cons.2 ⟨isWordChar_of_isAlpha letter, others⟩

end WordChars

/-- The text with each `quote` written twice. -/
def doubled (quote : Char) : List Char → List Char
  | [] => []
  | c :: rest => if c = quote then c :: c :: doubled quote rest else c :: doubled quote rest

/-- The text between two quotes, with the quotes inside it doubled. -/
def quoted (quote : Char) (s : String) : String :=
  String.ofList (quote :: (doubled quote s.toList ++ [quote]))

/-- The text with each pair of quotes written once, pairs being taken from the left. -/
def halved (quote : Char) : List Char → List Char
  | [] => []
  | [c] => [c]
  | c :: d :: rest =>
    if c = quote ∧ d = quote then c :: halved quote rest else c :: halved quote (d :: rest)

theorem halved_doubled (quote : Char) (cs : List Char) : halved quote (doubled quote cs) = cs := by
  induction cs with
  | nil => rfl
  | cons c rest ih =>
    by_cases h : c = quote
    · simp [doubled, halved, h, ih]
    · simp only [doubled, h, if_false]
      cases hd : doubled quote rest with
      | nil => rw [hd] at ih; simp [halved, ← ih]
      | cons d ds => rw [hd] at ih; simp [halved, h, ih]

/-- A text without quotes stays as it is. -/
theorem doubled_of_forall {quote : Char} {cs : List Char} (h : ∀ c ∈ cs, c ≠ quote) : doubled quote cs = cs := by
  induction cs with
  | nil => rfl
  | cons c rest ih =>
    obtain ⟨here, others⟩ := List.forall_mem_cons.1 h
    rw [doubled, if_neg here, ih others]

end SkyQuery.Text
