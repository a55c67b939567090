import SkyQuery.Proofs.Region.RoundTrip
import SkyQuery.Proofs.Region.Unique

/-!
# Coordinate systems as they are written

A `Run` is a row of words in the order of a coordinate system, each of which may be missing. A text is
one run that keeps the rule for cartesian coordinates, or it is refused: because of the rule if the
longest run that it begins with breaks it, else because of a word after that run (`parse_meaning`).
-/

namespace SkyQuery.CoordSys

open Text Vocabulary Region

/-! ### Runs -/

/-- The words of a coordinate system, whether or not it keeps the rule for cartesian coordinates. -/
structure Run where
  frame : Option (Named Frame)
  refPos : Option (Named RefPos)
  flavor : Option (Named Flavor)

/-- The value of a part that may be missing. -/
def valueOf {α : Type} [Vocabulary α] (part : Option (Named α)) : α := (part.map Named.value).getD unstated

namespace Run

def words (r : Run) : List String := optionWords r.frame ++ (optionWords r.refPos ++ optionWords r.flavor)

/-- Cartesian coordinates with a frame or a reference position. -/
def IsFramedCartesian (r : Run) : Prop :=
  (valueOf r.flavor).isCartesian = true ∧ ¬(valueOf r.frame = .unknown ∧ valueOf r.refPos = .unknown)

instance (r : Run) : Decidable r.IsFramedCartesian :=
  inferInstanceAs (Decidable ((valueOf r.flavor).isCartesian = true ∧
    ¬(valueOf r.frame = .unknown ∧ valueOf r.refPos = .unknown)))

/-- The longest run that a list of words begins with. -/
structure IsLongest (r : Run) (ws : List String) : Prop where
  begins : r.words <+: ws
  length_le : ∀ other : Run, other.words <+: ws → other.words.length ≤ r.words.length

theorem no_letter_nil : ∀ w ∈ ([] : List String).head?, beginsWithLetter w = false := by simp

theorem eq_of_words {r r' : Run} (h : r.words = r'.words) : r = r' := by
  obtain ⟨frame, refPos, flavor⟩ := r
  obtain ⟨frame', refPos', flavor'⟩ := r'
  have whole : optionWords frame ++ (optionWords refPos ++ (optionWords flavor ++ [])) =
      optionWords frame' ++ (optionWords refPos' ++ (optionWords flavor' ++ [])) := by
    rw [List.append_nil, List.append_nil]
    exact h
  obtain ⟨noFrame, noRefPos, noFlavor⟩ := parts_end refPos flavor no_letter_nil
  obtain ⟨noFrame', noRefPos', noFlavor'⟩ := parts_end refPos' flavor' no_letter_nil
  obtain ⟨rfl, afterFrame⟩ := optionWords_unique noFrame noFrame' whole
  obtain ⟨rfl, afterRefPos⟩ := optionWords_unique noRefPos noRefPos' afterFrame
  obtain ⟨rfl, -⟩ := optionWords_unique noFlavor noFlavor' afterRefPos
  rfl

theorem IsLongest.unique {r r' : Run} {ws : List String} (h : r.IsLongest ws) (h' : r'.IsLongest ws) : r = r' := by
  have length : r.words.length = r'.words.length :=
    Nat.le_antisymm (h'.length_le r h.begins) (h.length_le r' h'.begins)
  exact eq_of_words ((List.prefix_of_prefix_length_le h.begins h'.begins (Nat.le_of_eq length)).eq_of_length length)

end Run

/-! ### Reading -/

section

variable {α : Type} [Vocabulary α] [LawfulVocabulary α]

/-- What the words begin with cannot be read otherwise, except that a name may be left unread where
nothing else is read either. -/
theorem cut_begins {part part' : Option (Named α)} {value : α} {ws rest tail : List String}
    (cut : cutWord ws = (value, rest)) (whole : ws = optionWords part ++ rest) (begins : optionWords part' ++ tail <+: ws)
    (others : ∀ w ∈ tail.head?, parse? (α := α) w = none) : part' = part ∧ tail <+: rest ∨ part' = none ∧ tail = [] := by
  cases part' with
  | some n =>
    obtain ⟨after, split⟩ := begins
    have read : cutWord ws = (n.value, tail ++ after) := by
      rw [← split]
      change cutWord (n.word :: (tail ++ after)) = _
      rw [cutWord, n.parse]
    obtain rfl : rest = tail ++ after := by
      rw [cut] at read
      exact congrArg Prod.snd read
    rw [whole, List.append_assoc] at split
    have word := List.append_cancel_right split
    cases part with
    | none => cases word
    | some m => exact .inl ⟨by rw [Named.eq_of_word (List.head_eq_of_cons_eq word)], List.prefix_append tail after⟩
  | none =>
    cases part with
    | none =>
      rw [whole] at begins
      exact .inl ⟨rfl, begins⟩
    | some m =>
      cases tail with
      | nil => exact .inr ⟨rfl, rfl⟩
      | cons w tail =>
        rw [whole] at begins
        obtain ⟨rfl, -⟩ := List.cons_prefix_cons.1 begins
        have missing := others m.word rfl
        rw [m.parse] at missing
        cases missing

theorem length_le_of_cut {part part' : Option (Named α)} {value : α} {ws rest tail : List String} {bound : ℕ}
    (cut : cutWord ws = (value, rest)) (whole : ws = optionWords part ++ rest) (begins : optionWords part' ++ tail <+: ws)
    (others : ∀ w ∈ tail.head?, parse? (α := α) w = none) (h : tail <+: rest → tail.length ≤ bound) :
    (optionWords part' ++ tail).length ≤ (optionWords part).length + bound := by
  rcases cut_begins cut whole begins others with ⟨rfl, tail⟩ | ⟨rfl, rfl⟩
  · rw [List.length_append]
    exact Nat.add_le_add_left (h tail) _
  · exact Nat.zero_le _

end

/-- The longest run that the words begin with is read, and tried by the rule. -/
theorem exists_longest (ws : List String) :
    ∃ (r : Run) (rest : List String), ws = r.words ++ rest ∧ r.IsLongest ws ∧
      ofWords ws = (ofParts (valueOf r.frame) (valueOf r.refPos) (valueOf r.flavor)).map fun c => (c, rest) := by
  obtain ⟨frame, afterFrame, cutFrame, frameWords⟩ := exists_cutWord (α := Frame) ws
  obtain ⟨refPos, afterRefPos, cutRefPos, refPosWords⟩ := exists_cutWord (α := RefPos) afterFrame
  obtain ⟨flavor, rest, cutFlavor, flavorWords⟩ := exists_cutWord (α := Flavor) afterRefPos
  have whole : ws = Run.words ⟨frame, refPos, flavor⟩ ++ rest := by
    rw [frameWords, refPosWords, flavorWords, Run.words, List.append_assoc, List.append_assoc]
  refine ⟨⟨frame, refPos, flavor⟩, rest, whole, ⟨whole ▸ List.prefix_append _ _, fun other begins => ?_⟩, ?_⟩
  -- From the last part to the first: no other run can be longer from there on.
  · obtain ⟨noFrame, noRefPos, -⟩ := parts_end other.refPos other.flavor Run.no_letter_nil
    rw [List.append_nil] at noFrame noRefPos
    have flavors (begins : optionWords other.flavor <+: afterRefPos) :
        (optionWords other.flavor).length ≤ (optionWords flavor).length := by
      have last : (optionWords other.flavor ++ []).length ≤ (optionWords flavor).length + 0 :=
        length_le_of_cut cutFlavor flavorWords (by rwa [List.append_nil]) (by simp) fun _ => Nat.le_refl 0
      rwa [List.append_nil] at last
    have refPositions (begins : optionWords other.refPos ++ optionWords other.flavor <+: afterFrame) :=
      length_le_of_cut cutRefPos refPosWords begins noRefPos flavors
    have frames := length_le_of_cut cutFrame frameWords begins noFrame refPositions
    simp only [Run.words, List.length_append] at frames ⊢
    exact frames
  · unfold ofWords
    rw [cutFrame]
    dsimp only
    rw [cutRefPos]
    dsimp only
    rw [cutFlavor]
    rfl

theorem parse_ok_iff {text : String} {c : CoordSys} :
    parse text = .ok c ↔ ∃ s : SysPhrase, Text.words text = s.words ∧ s.sys = c := by
  have whole : parse text = .ok c ↔ ofWords (Text.words text) = .ok (c, []) := by
    unfold parse
    cases read : ofWords (Text.words text) with
    | error e =>
      constructor
      · intro h
        cases h
      · intro h
        cases h
    | ok found =>
      obtain ⟨sys, rest⟩ := found
      cases rest with
      | nil =>
        constructor
        · rintro ⟨⟩
          rfl
        · rintro ⟨⟩
          rfl
      | cons w rest =>
        constructor
        · intro h
          cases h
        · intro h
          cases h
  rw [whole]
  constructor
  · intro read
    obtain ⟨s, words, sys⟩ := system_ok (show system (Text.words text) = .ok (c, []) from read)
    rw [List.append_nil] at words
    exact ⟨s, words, sys⟩
  · rintro ⟨s, words, rfl⟩
    have read := system_words s Run.no_letter_nil
    rw [List.append_nil, ← words] at read
    exact read

theorem parse_error_code {text : String} {e : Diagnostic} (failed : parse text = .error e) {r : Run}
    (longest : r.IsLongest (Text.words text)) :
    e.code = if r.IsFramedCartesian then .framedCartesian else .invalidCoordSys := by
  obtain ⟨run, rest, whole, isLongest, read⟩ := exists_longest (Text.words text)
  obtain rfl := isLongest.unique longest
  by_cases framed : run.IsFramedCartesian
  · rw [if_pos framed]
    have refused : ¬((valueOf run.flavor).isCartesian = true → valueOf run.frame = .unknown ∧ valueOf run.refPos = .unknown) :=
      fun keeps => framed.2 (keeps framed.1)
    unfold parse at failed
    rw [read, ofParts, dif_neg refused] at failed
    cases failed
    rfl
  · have keeps : (valueOf run.flavor).isCartesian = true → valueOf run.frame = .unknown ∧ valueOf run.refPos = .unknown :=
      fun cartesian => Classical.byContradiction fun other => framed ⟨cartesian, other⟩
    rw [if_neg framed]
    unfold parse at failed
    rw [read, ofParts, dif_pos keeps] at failed
    cases rest with
    | nil => cases failed
    | cons w rest =>
      cases failed
      rfl

/-! ### Written forms -/

theorem parse_render (c : CoordSys) : parse c.render = .ok c := by
  obtain ⟨s, sys, words⟩ := exists_statedWords c
  have stated {α : Type} [Vocabulary α] [LawfulVocabulary α] [DecidableEq α] (a : α) :
      ∀ w ∈ statedWord a, IsSolid w.toList := by
    unfold statedWord
    split
    · simp
    · simpa using solid_name a
  have solid : ∀ w ∈ c.statedWords, IsSolid w.toList := by
    simp only [statedWords, List.forall_mem_append]
    exact ⟨⟨stated c.frame, stated c.refPos⟩, stated c.flavor⟩
  exact parse_ok_iff.2 ⟨s, by rw [render, words_intercalate solid, words], sys⟩

theorem parse_renderFull (c : CoordSys) : parse c.renderFull = .ok c := by
  have named {α : Type} [Vocabulary α] (a : α) : sameLetters (name a) (name a) = true := sameLetters_refl (name a)
  have full : c.renderFull = String.intercalate " " [name c.frame, name c.refPos, name c.flavor] := by
    simp only [renderFull, fullText, String.intercalate_cons_cons, String.intercalate_singleton, String.append_assoc]
  have solid : ∀ w ∈ [name c.frame, name c.refPos, name c.flavor], IsSolid w.toList := by
    simp only [List.forall_mem_cons]
    exact ⟨solid_name c.frame, solid_name c.refPos, solid_name c.flavor, by simp⟩
  refine parse_ok_iff.2 ⟨⟨some ⟨_, c.frame, named c.frame⟩, some ⟨_, c.refPos, named c.refPos⟩,
    some ⟨_, c.flavor, named c.flavor⟩, c.unframed⟩, ?_, rfl⟩
  rw [full, words_intercalate solid]
  rfl

/-- A text is a coordinate system if and only if it is one run of words that keeps the rule for
cartesian coordinates. Of any other text the longest run that it begins with tells why it is refused. A
system is read back from its shortest and from its full text. -/
theorem parse_meaning (text : String) :
    (∀ c, parse text = .ok c ↔ ∃ s : SysPhrase, Text.words text = s.words ∧ s.sys = c) ∧
      (∃ r : Run, r.IsLongest (Text.words text) ∧ (∀ other : Run, other.IsLongest (Text.words text) → other = r) ∧
        ∀ e, parse text = .error e → e.code = if r.IsFramedCartesian then .framedCartesian else .invalidCoordSys) ∧
      ∀ c, parse c.render = .ok c ∧ parse c.renderFull = .ok c := by
  obtain ⟨run, -, -, longest, -⟩ := exists_longest (Text.words text)
  exact ⟨fun c => parse_ok_iff, ⟨run, longest, fun other h => h.unique longest, fun e failed => parse_error_code failed longest⟩,
    fun c => ⟨parse_render c, parse_renderFull c⟩⟩

/-- The rule comes before a word that is left over. -/
theorem parse_meaning_framed :
    ∃ e r, parse "Galactic lsr CARTESIAN2 FK4" = .error e ∧ e.code = .framedCartesian ∧
      Run.IsLongest r (Text.words "Galactic lsr CARTESIAN2 FK4") ∧ r.IsFramedCartesian := by
  have refused : (match parse "Galactic lsr CARTESIAN2 FK4" with
      | .ok _ => none
      | .error e => some e.code) = some .framedCartesian := by decide +kernel
  cases failed : parse "Galactic lsr CARTESIAN2 FK4" with
  | ok c =>
    rw [failed] at refused
    cases refused
  | error e =>
    rw [failed] at refused
    have framed : e.code = .framedCartesian := Option.some.inj refused
    obtain ⟨-, ⟨r, longest, -, code⟩, -⟩ := parse_meaning "Galactic lsr CARTESIAN2 FK4"
    have rule := code e failed
    rw [framed] at rule
    refine ⟨e, r, rfl, framed, longest, Classical.byContradiction fun keeps => ?_⟩
    rw [if_neg keeps] at rule
    cases rule

end SkyQuery.CoordSys
