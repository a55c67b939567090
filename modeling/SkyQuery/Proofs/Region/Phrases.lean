import SkyQuery.Proofs.Decimal.Spelling
import SkyQuery.Proofs.Region.Words

/-!
# Phrases

A `Phrase` is a region as it is written in the STC-S form, a `DaliPhrase` in the DALI form: the words
of a text in the places that the grammar has for them. A word that does not fit its place makes no
phrase. `Phrase.region` is what a phrase says.

The words of the grammar begin with a letter, numbers and parentheses do not; no word is in two
vocabularies. So a word tells which places it can stand in.
-/

namespace SkyQuery

open Text Vocabulary

/-! ### Vocabularies -/

theorem Text.sameLetters_trans {a b c : String} (ab : sameLetters a b = true) (bc : sameLetters b c = true) :
    sameLetters a c = true := by
  rw [sameLetters, beq_iff_eq] at *
  exact ab.trans bc

/-- The name a text begins with a letter, which does not depend on letter case. -/
def Text.beginsWithLetter (text : String) : Bool := (text.toList.head?.map fun c => c.toLower.isAlpha).getD false

theorem Text.beginsWithLetter_of_sameLetters {a b : String} (h : sameLetters a b = true) :
    beginsWithLetter a = beginsWithLetter b := by
  have heads := congrArg List.head? (eq_of_beq h)
  rw [List.head?_map, List.head?_map] at heads
  have letter (s : String) : beginsWithLetter s =
      ((s.toList.head?.map Char.toLower).map Char.isAlpha).getD false := by
    rw [Option.map_map]
    rfl
  rw [letter, letter, heads]

/-- A vocabulary that lists each of its values, no two of them under one name. -/
class LawfulVocabulary (α : Type) [Vocabulary α] : Prop where
  mem_all : ∀ a : α, a ∈ (all : List α)
  name_inj : ∀ a b : α, sameLetters (name a) (name b) = true → a = b
  name_letter : ∀ a : α, beginsWithLetter (name a) = true
  name_plain : ∀ a : α, ∀ c ∈ (name a).toList, Region.IsPlain c

instance : LawfulVocabulary Frame where
  mem_all a := by cases a <;> decide
  name_inj a b := by cases a <;> cases b <;> decide
  name_letter a := by cases a <;> decide
  name_plain a := Region.plain_of_all (by cases a <;> decide)

instance : LawfulVocabulary RefPos where
  mem_all a := by cases a <;> decide
  name_inj a b := by cases a <;> cases b <;> decide
  name_letter a := by cases a <;> decide
  name_plain a := Region.plain_of_all (by cases a <;> decide)

instance : LawfulVocabulary Flavor where
  mem_all a := by cases a <;> decide
  name_inj a b := by cases a <;> cases b <;> decide
  name_letter a := by cases a <;> decide
  name_plain a := Region.plain_of_all (by cases a <;> decide)

/-- A word that names a value, in any letter case. -/
structure Named (α : Type) [Vocabulary α] where
  word : String
  value : α
  named : sameLetters (name value) word = true

section

variable {α : Type} [Vocabulary α] [LawfulVocabulary α]

theorem Vocabulary.parse?_eq_some_iff {word : String} {a : α} :
    parse? word = some a ↔ sameLetters (name a) word = true := by
  constructor
  · exact fun h => List.find?_some (p := fun a => sameLetters (name a) word) h
  · intro named
    cases found : parse? (α := α) word with
    | none => exact absurd named (List.find?_eq_none.1 found a (LawfulVocabulary.mem_all a))
    | some b =>
      have other := List.find?_some (p := fun a => sameLetters (name a) word) found
      rw [sameLetters_comm] at named
      rw [LawfulVocabulary.name_inj b a (sameLetters_trans other named)]

theorem Named.parse (n : Named α) : parse? n.word = some n.value := parse?_eq_some_iff.2 n.named

theorem Named.eq_of_word {m n : Named α} (h : m.word = n.word) : m = n := by
  have value : m.value = n.value := Option.some.inj (by rw [← m.parse, ← n.parse, h])
  cases m
  cases n
  cases h
  cases value
  rfl

theorem Named.letter (n : Named α) : beginsWithLetter n.word = true := by
  rw [← beginsWithLetter_of_sameLetters n.named, LawfulVocabulary.name_letter]

theorem Vocabulary.parse?_eq_none {word : String} (h : beginsWithLetter word = false) : parse? (α := α) word = none := by
  cases found : parse? (α := α) word with
  | none => rfl
  | some a =>
    have letter := Named.letter ⟨word, a, parse?_eq_some_iff.1 found⟩
    rw [h] at letter
    cases letter

/-- A word of another vocabulary, where no name is in both. -/
theorem Named.other {β : Type} [Vocabulary β] (apart : ∀ (a : α) (b : β), sameLetters (name a) (name b) = false)
    (n : Named β) : parse? (α := α) n.word = none := by
  cases found : parse? (α := α) n.word with
  | none => rfl
  | some a =>
    have named := n.named
    rw [sameLetters_comm] at named
    have both := sameLetters_trans (parse?_eq_some_iff.1 found) named
    rw [apart] at both
    cases both

end

theorem frame_apart_refPos (a : Frame) (b : RefPos) : sameLetters (name a) (name b) = false := by
  cases a <;> cases b <;> decide

theorem frame_apart_flavor (a : Frame) (b : Flavor) : sameLetters (name a) (name b) = false := by
  cases a <;> cases b <;> decide

theorem refPos_apart_flavor (a : RefPos) (b : Flavor) : sameLetters (name a) (name b) = false := by
  cases a <;> cases b <;> decide

/-! ### Numbers and parentheses -/

theorem beginsWithLetter_numeral (n : Decimal.Numeral) : beginsWithLetter n.word = false := by
  obtain ⟨s, text, -⟩ := n.spelled
  obtain ⟨c, cs, head, c_eq⟩ := Decimal.exists_head s
  have begins : beginsWithLetter n.word = c.toLower.isAlpha := by
    rw [beginsWithLetter, ← text, head]
    rfl
  rw [begins]
  rcases c_eq with rfl | rfl | rfl | digit
  · decide
  · decide
  · decide
  · have small : c.toLower = c := by
      simp only [Char.isDigit, ge_iff_le, Bool.and_eq_true, decide_eq_true_eq, UInt32.le_iff_toNat_le,
        show ('9'.val).toNat = 57 from rfl] at digit
      refine dif_neg ?_
      simp only [ge_iff_le, UInt32.le_iff_toNat_le, show ('A'.val).toNat = 65 from rfl]
      omega
    rw [small]
    simp only [Char.isDigit, ge_iff_le, Bool.and_eq_true, decide_eq_true_eq, UInt32.le_iff_toNat_le,
      show ('9'.val).toNat = 57 from rfl] at digit
    unfold Char.isAlpha Char.isUpper Char.isLower
    simp only [ge_iff_le, Bool.or_eq_false_iff, Bool.and_eq_false_iff, decide_eq_false_iff_not,
      UInt32.le_iff_toNat_le, show ('A'.val).toNat = 65 from rfl, show ('a'.val).toNat = 97 from rfl]
    omega

theorem readFinite_eq_none {word : String} (h : beginsWithLetter word = true ∨ word = "(" ∨ word = ")") :
    Decimal.readFinite word = none := by
  rcases h with letter | rfl | rfl
  · cases read : Decimal.readFinite word with
    | none => rfl
    | some x =>
      obtain ⟨n, rfl, -⟩ := Decimal.readFinite_eq_some_iff.1 read
      rw [beginsWithLetter_numeral] at letter
      cases letter
  · decide
  · decide

/-! ### Kinds of regions -/

theorem RegionKind.word_inj (j k : RegionKind) (h : sameLetters j.word k.word = true) : j = k := by
  revert h
  cases j <;> cases k <;> decide

theorem RegionKind.word_letter (k : RegionKind) : beginsWithLetter k.word = true := by
  cases k <;> decide

theorem RegionKind.word_plain (k : RegionKind) : ∀ c ∈ k.word.toList, Region.IsPlain c :=
  Region.plain_of_all (by cases k <;> decide)

theorem RegionKind.ofWord?_eq_some_iff {word : String} {k : RegionKind} :
    RegionKind.ofWord? word = some k ↔ sameLetters k.word word = true := by
  constructor
  · exact fun h => List.find?_some (p := fun k : RegionKind => sameLetters k.word word) h
  · intro spelled
    cases found : RegionKind.ofWord? word with
    | none => exact absurd spelled (List.find?_eq_none.1 found k (by cases k <;> decide))
    | some j =>
      have other := List.find?_some (p := fun k : RegionKind => sameLetters k.word word) found
      rw [sameLetters_comm] at spelled
      rw [word_inj j k (sameLetters_trans other spelled)]

namespace Region

/-- The word of a kind of region, in any letter case. -/
structure KindWord (k : RegionKind) where
  word : String
  spelled : sameLetters k.word word = true

theorem KindWord.kind {k : RegionKind} (w : KindWord k) : RegionKind.ofWord? w.word = some k :=
  RegionKind.ofWord?_eq_some_iff.2 w.spelled

theorem KindWord.letter {k : RegionKind} (w : KindWord k) : beginsWithLetter w.word = true := by
  rw [← beginsWithLetter_of_sameLetters w.spelled, RegionKind.word_letter]

theorem ofWord?_eq_none {word : String} (h : beginsWithLetter word = false) : RegionKind.ofWord? word = none := by
  cases found : RegionKind.ofWord? word with
  | none => rfl
  | some k =>
    have letter := KindWord.letter ⟨word, RegionKind.ofWord?_eq_some_iff.1 found⟩
    rw [h] at letter
    cases letter

/-! ### Phrases -/

/-- A coordinate system as it is written. -/
structure SysPhrase where
  frame : Option (Named Frame)
  refPos : Option (Named RefPos)
  flavor : Option (Named Flavor)
  unframed : ((flavor.map Named.value).getD unstated).isCartesian = true →
    (frame.map Named.value).getD unstated = .unknown ∧ (refPos.map Named.value).getD unstated = .unknown

/-- The words of a part that may be missing. -/
def optionWords {α : Type} [Vocabulary α] (part : Option (Named α)) : List String := part.toList.map Named.word

namespace SysPhrase

def words (s : SysPhrase) : List String := optionWords s.frame ++ (optionWords s.refPos ++ optionWords s.flavor)

def sys (s : SysPhrase) : CoordSys where
  frame := (s.frame.map Named.value).getD unstated
  refPos := (s.refPos.map Named.value).getD unstated
  flavor := (s.flavor.map Named.value).getD unstated
  unframed := s.unframed

end SysPhrase

structure Pair where
  x : Decimal.Numeral
  y : Decimal.Numeral

namespace Pair

def words (p : Pair) : List String := [p.x.word, p.y.word]

def point (p : Pair) : Point := ⟨p.x.value, p.y.value⟩

end Pair

/-- A region in the STC-S form. -/
inductive Phrase where
  | position (kind : KindWord .position) (sys : SysPhrase) (point : Pair)
  | circle (kind : KindWord .circle) (sys : SysPhrase) (centre : Pair) (radius : Decimal.Numeral)
  | box (kind : KindWord .box) (sys : SysPhrase) (centre : Pair) (width height : Decimal.Numeral)
  | polygon (kind : KindWord .polygon) (sys : SysPhrase) (first second third : Pair) (others : List Pair)
  | combination (op : Combination) (kind : KindWord op.kind) (sys : SysPhrase) (first second : Phrase)
    (others : List Phrase)
  | not (kind : KindWord .not) (inner : Phrase)

/-- A region in the DALI form. -/
inductive DaliPhrase where
  | position (point : Pair)
  | circle (centre : Pair) (radius : Decimal.Numeral)
  | polygon (first second third : Pair) (others : List Pair)

mutual

def Phrase.words : Phrase → List String
  | .position kind sys point => kind.word :: (sys.words ++ point.words)
  | .circle kind sys centre radius => kind.word :: (sys.words ++ (centre.words ++ [radius.word]))
  | .box kind sys centre width height =>
    kind.word :: (sys.words ++ (centre.words ++ [width.word, height.word]))
  | .polygon kind sys first second third others =>
    kind.word :: (sys.words ++ (first :: second :: third :: others).flatMap Pair.words)
  | .combination _ kind sys first second others =>
    kind.word :: (sys.words ++ "(" :: (first.words ++ (second.words ++ (Phrase.allWords others ++ [")"]))))
  | .not kind inner => kind.word :: "(" :: (inner.words ++ [")"])

def Phrase.allWords : List Phrase → List String
  | [] => []
  | p :: rest => p.words ++ Phrase.allWords rest

end

mutual

def Phrase.region : Phrase → Region
  | .position _ sys point => .position sys.sys point.point
  | .circle _ sys centre radius => .circle sys.sys centre.point radius.value
  | .box _ sys centre width height => .box sys.sys centre.point width.value height.value
  | .polygon _ sys first second third others =>
    .polygon sys.sys first.point second.point third.point (others.map Pair.point)
  | .combination op _ sys first second others =>
    .combination op sys.sys first.region second.region (Phrase.allRegions others)
  | .not _ inner => .not inner.region

def Phrase.allRegions : List Phrase → List Region
  | [] => []
  | p :: rest => p.region :: Phrase.allRegions rest

end

namespace DaliPhrase

def words : DaliPhrase → List String
  | position point => point.words
  | circle centre radius => centre.words ++ [radius.word]
  | polygon first second third others => (first :: second :: third :: others).flatMap Pair.words

def region : DaliPhrase → Region
  | position point => .position .default point.point
  | circle centre radius => .circle .default centre.point radius.value
  | polygon first second third others =>
    .polygon .default first.point second.point third.point (others.map Pair.point)

end DaliPhrase

/-- How the words of a text make a region. -/
inductive Derivation where
  | stcs (phrase : Phrase)
  | dali (phrase : DaliPhrase)

namespace Derivation

def words : Derivation → List String
  | stcs phrase => phrase.words
  | dali phrase => phrase.words

def region : Derivation → Region
  | stcs phrase => phrase.region
  | dali phrase => phrase.region

end Derivation

end Region

end SkyQuery
