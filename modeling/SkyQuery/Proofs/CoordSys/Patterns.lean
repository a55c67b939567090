import SkyQuery.CoordSys.Policy
import SkyQuery.Proofs.Region.RoundTrip
import SkyQuery.Proofs.Text.Regex

/-!
# Patterns of coordinate systems

A `PatternPhrase` is a pattern as it is written: in each of its three places any value, a value or a
list of values. `compile` reads exactly these (`source?_phrase`, `exists_phrase`), and the expression
it makes of one writes the full texts of the systems that the phrase accepts (`writes_source`).
-/

namespace SkyQuery

open Text Vocabulary

/-- A lawful vocabulary of names that stand for themselves in regular expressions. -/
class LiteralVocabulary (α : Type) [Vocabulary α] : Prop extends LawfulVocabulary α where
  name_literal : ∀ a : α, ∀ c ∈ (name a).toList, Regex.IsLiteral c

instance : LiteralVocabulary Frame where
  name_literal a := Regex.literal_of_all (by cases a <;> decide)

instance : LiteralVocabulary RefPos where
  name_literal a := Regex.literal_of_all (by cases a <;> decide)

instance : LiteralVocabulary Flavor where
  name_literal a := Regex.literal_of_all (by cases a <;> decide)

namespace Pattern

/-! ### Bars -/

theorem cutBars_eq (cs : List Char) : cutBars cs = cs.splitOn '|' := by
  induction cs with
  | nil => rfl
  | cons c cs ih =>
    rw [List.splitOn, List.splitOnP_cons_eq_if_modifyHead, cutBars, ih]
    by_cases bar : c = '|'
    · rw [if_pos bar, if_pos (by simpa using bar), List.splitOn]
    · rw [if_neg bar, if_neg (by simpa using bar), List.splitOn]
      cases cut : cs.splitOnP (· == '|') with
      | nil => exact absurd cut (List.splitOnP_ne_nil _ _)
      | cons piece pieces => rfl

/-- Between bars stand characters of the text. -/
theorem mem_of_mem_cutBars {cs piece : List Char} {c : Char} (cut : piece ∈ cutBars cs) (member : c ∈ piece) : c ∈ cs := by
  induction cs generalizing piece with
  | nil =>
    obtain rfl := List.mem_singleton.1 cut
    exact member
  | cons d cs ih =>
    rw [cutBars] at cut
    split at cut
    · rcases List.mem_cons.1 cut with rfl | cut
      · cases member
      · exact List.mem_cons_of_mem d (ih cut member)
    · cases pieces : cutBars cs with
      | nil =>
        rw [pieces] at cut
        obtain rfl := List.mem_singleton.1 cut
        obtain rfl := List.mem_singleton.1 member
        exact List.mem_cons_self
      | cons first others =>
        rw [pieces] at cut ih
        rcases List.mem_cons.1 cut with rfl | cut
        · rcases List.mem_cons.1 member with rfl | member
          · exact List.mem_cons_self
          · exact List.mem_cons_of_mem d (ih List.mem_cons_self member)
        · exact List.mem_cons_of_mem d (ih (List.mem_cons_of_mem first cut) member)

theorem inParens?_eq_some_iff {cs inner : List Char} : inParens? cs = some inner ↔ cs = '(' :: (inner ++ [')']) := by
  constructor
  · intro found
    unfold inParens? at found
    split at found
    · rename_i rest
      split at found
      · rename_i reversed last
        have whole := congrArg List.reverse last
        rw [List.reverse_reverse, List.reverse_cons, Option.some.inj found] at whole
        rw [whole]
      · cases found
    · cases found
  · rintro rfl
    simp [inParens?]

/-! ### Parts -/

/-- A part of a pattern as it is written. -/
inductive PartPhrase (α : Type) [Vocabulary α] where
  | any
  | value (n : Named α)
  | list (first : Named α) (others : List (Named α))

namespace PartPhrase

variable {α : Type} [Vocabulary α]

def word : PartPhrase α → String
  | any => "*"
  | value n => n.word
  | list first others => "(" ++ String.intercalate "|" ((first :: others).map Named.word) ++ ")"

/-- Besides what it lists, a part accepts the value that stands where none is written. -/
def Accepts : PartPhrase α → α → Prop
  | any, _ => True
  | value n, a => a = unstated ∨ n.value = a
  | list first others, a => a = unstated ∨ ∃ n ∈ first :: others, n.value = a

/-- The values that a part accepts. -/
def accepted [DecidableEq α] : PartPhrase α → List α
  | any => all
  | value n => [unstated, n.value].eraseDups
  | list first others => (unstated :: (first :: others).map Named.value).eraseDups

theorem mem_accepted [DecidableEq α] [LawfulVocabulary α] {p : PartPhrase α} {a : α} : a ∈ p.accepted ↔ p.Accepts a := by
  cases p with
  | any => exact iff_of_true (LawfulVocabulary.mem_all a) trivial
  | value n =>
    rw [accepted, List.mem_eraseDups]
    simp [Accepts, eq_comm]
  | list first others =>
    rw [accepted, List.mem_eraseDups, List.mem_cons, List.mem_map]
    rfl

theorem accepts_unstated (p : PartPhrase α) : p.Accepts unstated := by
  cases p with
  | any => trivial
  | value n => exact .inl rfl
  | list first others => exact .inl rfl

theorem accepted_ne_nil [DecidableEq α] [LawfulVocabulary α] (p : PartPhrase α) : p.accepted ≠ [] := by
  exact List.ne_nil_of_mem (mem_accepted.2 p.accepts_unstated)

end PartPhrase

section

variable {α : Type} [Vocabulary α]

theorem mapM_words [LawfulVocabulary α] (ns : List (Named α)) :
    (ns.map Named.word).mapM (fun w => (parse? w : Option α)) = some (ns.map Named.value) := by
  induction ns with
  | nil => rfl
  | cons n ns ih =>
    rw [List.map_cons, List.mapM_cons, n.parse, ih]
    rfl

theorem exists_named [LawfulVocabulary α] {ws : List String} {values : List α}
    (read : ws.mapM (fun w => (parse? w : Option α)) = some values) : ∃ ns : List (Named α), ns.map Named.word = ws := by
  induction ws generalizing values with
  | nil => exact ⟨[], rfl⟩
  | cons w ws ih =>
    rw [List.mapM_cons] at read
    cases first : parse? (α := α) w with
    | none =>
      rw [first] at read
      cases read
    | some a =>
      cases others : ws.mapM (fun w => (parse? w : Option α)) with
      | none =>
        rw [first, others] at read
        cases read
      | some rest =>
        obtain ⟨ns, words⟩ := ih others
        exact ⟨⟨w, a, parse?_eq_some_iff.1 first⟩ :: ns, by rw [List.map_cons, words]⟩

theorem toLower_eq_bar {c : Char} (h : c.toLower = '|') : c = '|' := by
  by_cases upper : c.val ≥ 'A'.val ∧ c.val ≤ 'Z'.val
  · have range : 65 ≤ c.toNat ∧ c.toNat ≤ 90 := by simpa [ge_iff_le, UInt32.le_iff_toNat_le] using upper
    have lowered : (c.val + 32).toNat = 124 := by
      have same := congrArg (fun d : Char => d.val.toNat) h
      rwa [Char.toLower, dif_pos upper] at same
    have same : c.val.toNat = c.toNat := rfl
    rw [UInt32.toNat_add, show (32 : UInt32).toNat = 32 from rfl] at lowered
    omega
  · rwa [show c.toLower = c from dif_neg upper] at h

variable [LiteralVocabulary α]

theorem bar_notMem_word (n : Named α) : '|' ∉ n.word.toList := by
  intro member
  have lowered : '|' ∈ (name n.value).toList.map Char.toLower := by
    rw [eq_of_beq n.named]
    exact List.mem_map_of_mem member
  obtain ⟨c, found, bar⟩ := List.mem_map.1 lowered
  obtain rfl := toLower_eq_bar bar
  exact absurd (LiteralVocabulary.name_literal n.value '|' found) (by decide)

/-- A name stands neither for any value nor for a list. -/
theorem word_ne {n : Named α} {word : String} (sign : beginsWithLetter word = false) : n.word ≠ word := by
  intro same
  have letter := n.letter
  rw [same, sign] at letter
  cases letter

theorem trim_word (n : Named α) : trim n.word = n.word := by
  have trimmed := trim_of_solid (Region.solid_named n).2
  rwa [String.ofList_toList] at trimmed

theorem listedWords_value (n : Named α) : listedWords n.word = [n.word] := by
  have bare : inParens? n.word.toList = none := by
    cases found : inParens? n.word.toList with
    | none => rfl
    | some inner =>
      have letter := n.letter
      rw [beginsWithLetter, inParens?_eq_some_iff.1 found] at letter
      cases letter
  rw [listedWords, bare]

theorem listedWords_list (ns : List (Named α)) (nonempty : ns ≠ []) :
    listedWords ("(" ++ String.intercalate "|" (ns.map Named.word) ++ ")") = ns.map Named.word := by
  have inside : inParens? ("(" ++ String.intercalate "|" (ns.map Named.word) ++ ")").toList =
      some (String.intercalate "|" (ns.map Named.word)).toList := by
    rw [inParens?_eq_some_iff]
    simp [String.toList_append]
  have pieces : cutBars (String.intercalate "|" (ns.map Named.word)).toList = (ns.map Named.word).map String.toList := by
    rw [cutBars_eq, String.toList_intercalate]
    refine List.splitOn_intercalate '|' (fun piece member => ?_) (by simpa using nonempty)
    obtain ⟨w, found, rfl⟩ := List.mem_map.1 member
    obtain ⟨n, -, rfl⟩ := List.mem_map.1 found
    exact bar_notMem_word n
  rw [listedWords, inside]
  dsimp only
  rw [pieces, List.map_map, List.map_map]
  refine List.map_congr_left fun n _ => ?_
  rw [Function.comp_apply, Function.comp_apply, String.ofList_toList, trim_word]

section

variable [DecidableEq α]

theorem accepted?_word (p : PartPhrase α) : accepted? p.word = some p.accepted := by
  cases p with
  | any => rfl
  | value n =>
    have other : n.word ≠ "*" := word_ne (by decide)
    have read := mapM_words [n]
    rw [List.map_singleton] at read
    rw [PartPhrase.word, accepted?, if_neg other, listedWords_value, read]
    rfl
  | list first others =>
    have other : "(" ++ String.intercalate "|" ((first :: others).map Named.word) ++ ")" ≠ "*" := by
      intro same
      have heads := congrArg (fun s : String => s.toList.head?) same
      simp [String.toList_append] at heads
    rw [PartPhrase.word, accepted?, if_neg other, listedWords_list _ (List.cons_ne_nil first others), mapM_words]
    rfl

theorem exists_part {word : String} (solid : IsSolid word.toList) {values : List α} (read : accepted? word = some values) :
    ∃ p : PartPhrase α, p.word = word := by
  unfold accepted? at read
  split at read
  · rename_i any
    exact ⟨.any, any.symm⟩
  · obtain ⟨found, named, -⟩ := Option.map_eq_some_iff.1 read
    obtain ⟨ns, words⟩ := exists_named named
    unfold listedWords at words
    split at words
    · rename_i inner inside
      have whole := inParens?_eq_some_iff.1 inside
      -- There are no blanks in the word, so nothing was trimmed and the pieces make it up again.
      have pieces : ns.map Named.word = (cutBars inner).map String.ofList := by
        rw [words]
        refine List.map_congr_left fun piece cut => trim_of_solid fun c member => solid.2 c ?_
        rw [whole]
        simp [mem_of_mem_cutBars cut member]
      have joined : String.intercalate "|" (ns.map Named.word) = String.ofList inner := by
        have same : String.toList ∘ String.ofList = id := funext fun cs => String.toList_ofList
        rw [← String.toList_inj, String.toList_intercalate, pieces, List.map_map, same, List.map_id, cutBars_eq,
          String.toList_ofList (l := inner)]
        exact List.intercalate_splitOn '|'
      cases ns with
      | nil =>
        have empty := List.map_eq_nil_iff.1 pieces.symm
        rw [cutBars_eq] at empty
        exact absurd empty (List.splitOnP_ne_nil _ _)
      | cons first others =>
        refine ⟨.list first others, ?_⟩
        rw [PartPhrase.word, joined, ← String.toList_inj, whole]
        simp [String.toList_append]
    · cases ns with
      | nil => cases words
      | cons n ns => exact ⟨.value n, List.head_eq_of_cons_eq words⟩

theorem partSource?_word (p : PartPhrase α) : partSource? α p.word = some (group (p.accepted.map name)) := by
  rw [partSource?, accepted?_word]
  rfl

open Regex in
/-- The names of the values that a part accepts, in any letter case. -/
def PartPhrase.names (p : PartPhrase α) : Language Char := {t | ∃ a, p.Accepts a ∧ t ∈ spelled (name a).toList}

open Regex in
theorem writes_part (p : PartPhrase α) : Writes (group (p.accepted.map name)).toList p.names := by
  rw [group, PartPhrase.names]
  have names := writes_group p.accepted_ne_nil fun a _ =>
    writes_literal (LiteralVocabulary.name_literal (α := α) a)
  simpa only [PartPhrase.mem_accepted] using names

end

end

/-! ### Patterns of three parts -/

/-- A pattern as it is written. -/
structure PatternPhrase where
  frame : PartPhrase Frame
  refPos : PartPhrase RefPos
  flavor : PartPhrase Flavor

namespace PatternPhrase

def words (p : PatternPhrase) : List String := [p.frame.word, p.refPos.word, p.flavor.word]

/-- The systems that have an accepted value in each place. -/
def Accepts (p : PatternPhrase) (c : CoordSys) : Prop :=
  p.frame.Accepts c.frame ∧ p.refPos.Accepts c.refPos ∧ p.flavor.Accepts c.flavor

def source (p : PatternPhrase) : String :=
  "(?:" ++ group (p.frame.accepted.map name) ++ " " ++ group (p.refPos.accepted.map name) ++ " " ++
    group (p.flavor.accepted.map name) ++ ")"

end PatternPhrase

theorem source?_phrase {text : String} {p : PatternPhrase} (h : Text.words text = p.words) :
    source? text = some p.source := by
  rw [source?, h, PatternPhrase.words]
  dsimp only
  rw [partSource?_word, partSource?_word, partSource?_word]
  rfl

theorem exists_phrase {text source : String} (read : source? text = some source) :
    ∃ p : PatternPhrase, Text.words text = p.words := by
  have part {α : Type} [Vocabulary α] [LiteralVocabulary α] [DecidableEq α] {word source : String}
      (member : word ∈ Text.words text) (read : partSource? α word = some source) : ∃ p : PartPhrase α, p.word = word := by
    obtain ⟨values, found, -⟩ := Option.map_eq_some_iff.1 read
    exact exists_part (solid_of_mem_words member) found
  unfold source? at read
  split at read
  · rename_i frame refPos flavor three
    split at read
    · rename_i readFrame readRefPos readFlavor
      obtain ⟨f, rfl⟩ := part (by rw [three]; simp) readFrame
      obtain ⟨r, rfl⟩ := part (by rw [three]; simp) readRefPos
      obtain ⟨v, rfl⟩ := part (by rw [three]; simp) readFlavor
      exact ⟨⟨f, r, v⟩, three⟩
    · cases read
  · cases read

/-! ### Full texts -/

/-- A text in small letters. -/
def lowered (s : String) : String := String.ofList (s.toList.map Char.toLower)

theorem lowered_append (s t : String) : lowered (s ++ t) = lowered s ++ lowered t := by
  simp [lowered, String.toList_append]

theorem lowered_eq_iff {s t : String} : lowered s = lowered t ↔ sameLetters s t = true := by
  rw [lowered, lowered, String.ofList_inj, sameLetters, beq_iff_eq]

theorem solid_lowered_name {α : Type} [Vocabulary α] [LawfulVocabulary α] (a : α) : IsSolid (lowered (name a)).toList := by
  have letter := LawfulVocabulary.name_letter a
  rw [lowered, String.toList_ofList]
  constructor
  · intro empty
    rw [List.map_eq_nil_iff] at empty
    rw [beginsWithLetter, empty] at letter
    cases letter
  · intro c member
    obtain ⟨d, found, rfl⟩ := List.mem_map.1 member
    exact ((Region.isPlain_toLower d).2 (LawfulVocabulary.name_plain a d found)).1

theorem words_lowered_fullText (frame : Frame) (refPos : RefPos) (flavor : Flavor) :
    Text.words (lowered (CoordSys.fullText frame refPos flavor)) =
      [lowered (name frame), lowered (name refPos), lowered (name flavor)] := by
  have blank : lowered " " = " " := by decide
  have joined : lowered (CoordSys.fullText frame refPos flavor) =
      String.intercalate " " [lowered (name frame), lowered (name refPos), lowered (name flavor)] := by
    simp only [CoordSys.fullText, lowered_append, blank, String.intercalate_cons_cons, String.intercalate_singleton,
      String.append_assoc]
  rw [joined]
  refine words_intercalate ?_
  simp only [List.forall_mem_cons]
  exact ⟨solid_lowered_name frame, solid_lowered_name refPos, solid_lowered_name flavor, by simp⟩

/-- The full texts of two systems are different words, whatever the letter case. -/
theorem fullText_inj {f f' : Frame} {r r' : RefPos} {v v' : Flavor}
    (same : sameLetters (CoordSys.fullText f r v) (CoordSys.fullText f' r' v') = true) : f = f' ∧ r = r' ∧ v = v' := by
  have words := congrArg Text.words (lowered_eq_iff.2 same)
  rw [words_lowered_fullText, words_lowered_fullText] at words
  simp only [List.cons.injEq, and_true, lowered_eq_iff] at words
  obtain ⟨frame, refPos, flavor⟩ := words
  exact ⟨LawfulVocabulary.name_inj f f' frame, LawfulVocabulary.name_inj r r' refPos,
    LawfulVocabulary.name_inj v v' flavor⟩

open Regex in
/-- The full texts with an accepted value in each place, in any letter case. -/
def PatternPhrase.texts (p : PatternPhrase) : Language Char :=
  {t | ∃ c : Frame × RefPos × Flavor, (p.frame.Accepts c.1 ∧ p.refPos.Accepts c.2.1 ∧ p.flavor.Accepts c.2.2) ∧
    t ∈ spelled (CoordSys.fullText c.1 c.2.1 c.2.2).toList}

theorem PatternPhrase.renderFull_mem_texts {p : PatternPhrase} {c : CoordSys} :
    c.renderFull.toList ∈ p.texts ↔ p.Accepts c := by
  constructor
  · rintro ⟨⟨frame, refPos, flavor⟩, accepts, spelled⟩
    obtain ⟨rfl, rfl, rfl⟩ := fullText_inj (beq_iff_eq.2 spelled)
    exact accepts
  · exact fun accepts => ⟨(c.frame, c.refPos, c.flavor), accepts, rfl⟩

open Regex in
theorem spelled_fullText (frame : Frame) (refPos : RefPos) (flavor : Flavor) :
    spelled (CoordSys.fullText frame refPos flavor).toList = spelled (name frame).toList * spelled [' '] *
      spelled (name refPos).toList * spelled [' '] * spelled (name flavor).toList := by
  simp only [CoordSys.fullText, String.toList_append, spelled_append, show " ".toList = [' '] from rfl]

open Regex in
theorem PatternPhrase.texts_eq (p : PatternPhrase) :
    p.texts = p.frame.names * spelled [' '] * p.refPos.names * spelled [' '] * p.flavor.names := by
  ext t
  constructor
  · rintro ⟨⟨frame, refPos, flavor⟩, ⟨hf, hr, hv⟩, whole⟩
    rw [spelled_fullText] at whole
    obtain ⟨_, ⟨_, ⟨_, ⟨f, named, s, blank, rfl⟩, r, named', rfl⟩, s', blank', rfl⟩, v, named'', rfl⟩ := whole
    exact ⟨_, ⟨_, ⟨_, ⟨f, ⟨frame, hf, named⟩, s, blank, rfl⟩, r, ⟨refPos, hr, named'⟩, rfl⟩, s', blank', rfl⟩, v,
      ⟨flavor, hv, named''⟩, rfl⟩
  · rintro ⟨_, ⟨_, ⟨_, ⟨f, ⟨frame, hf, named⟩, s, blank, rfl⟩, r, ⟨refPos, hr, named'⟩, rfl⟩, s', blank', rfl⟩, v,
      ⟨flavor, hv, named''⟩, rfl⟩
    have whole := spelled_fullText frame refPos flavor
    exact ⟨(frame, refPos, flavor), ⟨hf, hr, hv⟩, whole ▸ ⟨_, ⟨_, ⟨_, ⟨f, named, s, blank, rfl⟩, r, named', rfl⟩, s', blank',
      rfl⟩, v, named'', rfl⟩⟩

open Regex in
theorem writes_source (p : PatternPhrase) : Writes p.source.toList p.texts := by
  have space : Writes " ".toList (spelled [' ']) := writes_char (by decide)
  have parts := ((((writes_part p.frame).append space).append (writes_part p.refPos)).append space).append
    (writes_part p.flavor)
  simp only [← String.toList_append, ← p.texts_eq] at parts
  have source : p.source = "(?:" ++ (group (p.frame.accepted.map name) ++ " " ++ group (p.refPos.accepted.map name) ++ " " ++
      group (p.flavor.accepted.map name)) ++ ")" := by
    simp only [PatternPhrase.source, String.append_assoc]
  rw [source]
  exact writes_only parts

theorem PartPhrase.accepts_congr {α : Type} [Vocabulary α] [DecidableEq α] [LiteralVocabulary α] {p q : PartPhrase α}
    (h : p.word = q.word) (a : α) : p.Accepts a ↔ q.Accepts a := by
  have same : accepted? p.word = some q.accepted := by rw [h, accepted?_word]
  rw [accepted?_word, Option.some_inj] at same
  rw [← mem_accepted, same, mem_accepted]

/-- Patterns of the same words accept the same systems. -/
theorem PatternPhrase.accepts_congr {p q : PatternPhrase} (h : p.words = q.words) (c : CoordSys) :
    p.Accepts c ↔ q.Accepts c := by
  simp only [words, List.cons.injEq, and_true] at h
  obtain ⟨frame, refPos, flavor⟩ := h
  exact and_congr (PartPhrase.accepts_congr frame c.frame)
    (and_congr (PartPhrase.accepts_congr refPos c.refPos) (PartPhrase.accepts_congr flavor c.flavor))

theorem PatternPhrase.accepts_default (p : PatternPhrase) : p.Accepts .default :=
  ⟨p.frame.accepts_unstated, p.refPos.accepts_unstated, p.flavor.accepts_unstated⟩

end Pattern

end SkyQuery
