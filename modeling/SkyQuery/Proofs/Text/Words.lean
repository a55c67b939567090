import SkyQuery.Proofs.Region.Words

/-!
# Words between blanks

The words of a text hold no blanks and are not empty (`solid_of_mem_words`); words like that are found
again when spaces join them (`words_intercalate`). A text with no blanks at its ends is trimmed already
(`IsTrimmed.trim`).
-/

namespace SkyQuery.Text

/-- A text without blanks that is not empty. -/
def IsSolid (cs : List Char) : Prop := cs ≠ [] ∧ ∀ c ∈ cs, isBlank c = false

theorem solid_of_mem_cutWords {cs w : List Char} (member : w ∈ cutWords cs) : IsSolid w := by
  induction cs generalizing w with
  | nil => cases member
  | cons c rest ih =>
    cases blank : isBlank c with
    | true =>
      rw [Region.cutWords_blank blank] at member
      exact ih member
    | false =>
      have alone : IsSolid [c] := by simp [IsSolid, blank]
      cases rest with
      | nil =>
        rw [Region.cutWords_alone blank (by simp)] at member
        obtain rfl := List.mem_singleton.1 member
        exact alone
      | cons d rest =>
        cases next : isBlank d with
        | true =>
          rw [Region.cutWords_alone blank (by simpa using next)] at member
          rcases List.mem_cons.1 member with rfl | later
          · exact alone
          · exact ih later
        | false =>
          obtain ⟨v, ws, first⟩ := Region.cutWords_head next rest
          rw [Region.cutWords_word blank first next] at member
          rcases List.mem_cons.1 member with rfl | later
          · have tail : IsSolid (d :: v) := ih (by rw [first]; exact List.mem_cons_self)
            exact ⟨List.cons_ne_nil _ _, List.forall_mem_cons.2 ⟨blank, tail.2⟩⟩
          · exact ih (by rw [first]; exact List.mem_cons_of_mem _ later)

theorem solid_of_mem_words {text w : String} (member : w ∈ words text) : IsSolid w.toList := by
  obtain ⟨cs, found, rfl⟩ := List.mem_map.1 member
  rw [String.toList_ofList]
  exact solid_of_mem_cutWords found

/-- A word ends where the text does or before a blank. -/
theorem cutWords_append {w rest : List Char} (solid : IsSolid w) (ends : ∀ c ∈ rest.head?, isBlank c = true) :
    cutWords (w ++ rest) = w :: cutWords rest := by
  obtain ⟨nonempty, solid⟩ := solid
  induction w with
  | nil => exact absurd rfl nonempty
  | cons c w ih =>
    obtain ⟨here, others⟩ := List.forall_mem_cons.1 solid
    cases w with
    | nil => exact Region.cutWords_alone here ends
    | cons d w => exact Region.cutWords_word here (ih (List.cons_ne_nil d w) others) (others d List.mem_cons_self)

theorem words_intercalate {ws : List String} (solid : ∀ w ∈ ws, IsSolid w.toList) :
    words (String.intercalate " " ws) = ws := by
  suffices cut : cutWords (String.intercalate " " ws).toList = ws.map String.toList by
    rw [words, cut, List.map_map]
    simp
  induction ws with
  | nil => rfl
  | cons w ws ih =>
    obtain ⟨first, others⟩ := List.forall_mem_cons.1 solid
    cases ws with
    | nil =>
      have whole : cutWords (w.toList ++ []) = w.toList :: cutWords [] := cutWords_append first (by simp)
      rw [List.append_nil] at whole
      rw [String.intercalate_singleton, whole]
      rfl
    | cons x xs =>
      have spaced : (String.intercalate " " (w :: x :: xs)).toList =
          w.toList ++ ' ' :: (String.intercalate " " (x :: xs)).toList := by
        rw [String.intercalate_cons_cons]
        simp
      have blank : isBlank ' ' = true := by decide
      rw [spaced, cutWords_append first (by simp [blank]), Region.cutWords_blank blank, ih others]
      rfl

/-! ### Trimmed texts -/

section Trimmed

variable {c : Char} {cs : List Char}

theorem not_isBlank_of_range (low : 33 ≤ c.toNat) (high : c.toNat ≤ 126) : isBlank c = false := by
  simp only [isBlank, Bool.or_eq_false_iff, Bool.and_eq_false_iff, decide_eq_false_iff_not, beq_eq_false_iff_ne]
  omega

theorem range_of_isWordChar (word : isWordChar c = true) : 48 ≤ c.toNat ∧ c.toNat ≤ 122 := by
  unfold isWordChar Char.isAlphanum Char.isAlpha Char.isUpper Char.isLower Char.isDigit at word
  simp only [Bool.or_eq_true, Bool.and_eq_true, decide_eq_true_eq, ge_iff_le, UInt32.le_iff_toNat_le,
    beq_iff_eq] at word
  rcases word with ((upper | lower) | digit) | rfl
  · have upper : 65 ≤ c.toNat ∧ c.toNat ≤ 90 := upper
    omega
  · have lower : 97 ≤ c.toNat ∧ c.toNat ≤ 122 := lower
    omega
  · have digit : 48 ≤ c.toNat ∧ c.toNat ≤ 57 := digit
    omega
  · decide

theorem not_isBlank_of_isWordChar (word : isWordChar c = true) : isBlank c = false := by
  have range := range_of_isWordChar word
  exact not_isBlank_of_range (by omega) (by omega)

theorem trimLeft_solid (solid : isBlank c = false) : trimLeft (c :: cs) = c :: cs := by simp [trimLeft, solid]

/-- A run ends before the first character that does not go on with it. -/
theorem takeWhile_stops {p : Char → Bool} {w rest : List Char} (run : ∀ c ∈ w, p c = true)
    (stops : ∀ c ∈ rest.head?, p c = false) : (w ++ rest).takeWhile p = w ∧ (w ++ rest).dropWhile p = rest := by
  rw [List.takeWhile_append_of_pos run, List.dropWhile_append_of_pos run]
  cases rest with
  | nil => simp
  | cons c rest => simp [stops c rfl]

theorem trimLeft_blank (blank : isBlank c = true) : trimLeft (c :: cs) = trimLeft cs := by simp [trimLeft, blank]

theorem trimRight_solid (cs : List Char) (solid : isBlank c = false) : trimRight (cs ++ [c]) = cs ++ [c] := by
  rw [trimRight, List.reverse_concat, trimLeft_solid solid, List.reverse_cons, List.reverse_reverse]

/-- What starts with no blank still does when it was trimmed. -/
theorem exists_trimRight (solid : isBlank c = false) (cs : List Char) : ∃ ds, trimRight (c :: cs) = c :: ds := by
  have last : trimLeft (cs.reverse ++ [c]) = trimLeft cs.reverse ++ [c] := by
    unfold trimLeft
    rw [List.dropWhile_append]
    split
    · rename_i none
      rw [List.isEmpty_iff.1 none, List.dropWhile_cons_of_neg (by simp [solid])]
      rfl
    · rfl
  exact ⟨(trimLeft cs.reverse).reverse, by rw [trimRight, List.reverse_cons, last, List.reverse_concat]⟩

/-- A text with no blank at its ends. -/
structure IsTrimmed (cs : List Char) : Prop where
  first : ∀ c ∈ cs.head?, isBlank c = false
  last : ∀ c ∈ cs.getLast?, isBlank c = false

theorem IsTrimmed.left (h : IsTrimmed cs) : trimLeft cs = cs := by
  cases cs with
  | nil => rfl
  | cons c cs => exact trimLeft_solid (h.first c rfl)

theorem IsTrimmed.trim (h : IsTrimmed cs) : trimRight (trimLeft cs) = cs := by
  rw [h.left]
  rcases List.eq_nil_or_concat cs with rfl | ⟨front, c, rfl⟩
  · rfl
  · rw [List.concat_eq_append] at h ⊢
    exact trimRight_solid front (h.last c List.getLast?_concat)

theorem isTrimmed_of_solid (solid : ∀ c ∈ cs, isBlank c = false) : IsTrimmed cs :=
  ⟨fun c first => solid c (List.mem_of_mem_head? first), fun c last => solid c (List.mem_of_mem_getLast? last)⟩

/-- Whatever stands between two trimmed texts. -/
theorem IsTrimmed.around {front back : List Char} (first : IsTrimmed front) (nonempty : front ≠ []) (last : IsTrimmed back)
    (nonempty' : back ≠ []) (between : List Char) : IsTrimmed (front ++ (between ++ back)) := by
  constructor
  · intro c head
    rw [List.head?_append, Option.or_of_isSome (by simpa using nonempty)] at head
    exact first.first c head
  · intro c ending
    rw [← List.append_assoc, List.getLast?_append, Option.or_of_isSome (by simpa using nonempty')] at ending
    exact last.last c ending

theorem trim_of_solid (solid : ∀ c ∈ cs, isBlank c = false) : trim (String.ofList cs) = String.ofList cs := by
  rw [Text.trim, String.toList_ofList, (isTrimmed_of_solid solid).trim]

end Trimmed

end SkyQuery.Text
