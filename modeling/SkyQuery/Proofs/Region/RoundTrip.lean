import SkyQuery.Proofs.Decimal.Written
import SkyQuery.Proofs.Region.Derivations
import SkyQuery.Proofs.Text.Words

/-!
# Regions are read back

A region whose numbers are finite is read back from each of its written forms (`parse_written`). The
written forms are the words of a phrase, joined by spaces; the words of a phrase are words of a text.
-/

namespace SkyQuery

open Text Vocabulary

namespace Region

/-! ### The words of a phrase -/

theorem isPlain_of_range {c : Char} (low : 42 ≤ c.toNat) (high : c.toNat ≤ 126) : IsPlain c := by
  refine ⟨not_isBlank_of_range (by omega) high, ?_⟩
  rintro (rfl | rfl)
  · exact absurd low (by decide)
  · exact absurd low (by decide)

theorem isPlain_toLower (c : Char) : IsPlain c.toLower ↔ IsPlain c := by
  by_cases upper : c.val ≥ 'A'.val ∧ c.val ≤ 'Z'.val
  · have range : 65 ≤ c.toNat ∧ c.toNat ≤ 90 := by
      simpa [ge_iff_le, UInt32.le_iff_toNat_le] using upper
    have lowered : c.toLower.toNat = c.toNat + 32 := by
      unfold Char.toLower
      rw [dif_pos upper]
      change (c.val + 32).toNat = c.val.toNat + 32
      have same : c.val.toNat = c.toNat := rfl
      rw [UInt32.toNat_add, show (32 : UInt32).toNat = 32 from rfl]
      omega
    exact iff_of_true (isPlain_of_range (by omega) (by omega)) (isPlain_of_range (by omega) (by omega))
  · rw [show c.toLower = c from dif_neg upper]

theorem plain_of_sameLetters {a b : String} (same : sameLetters a b = true) (plain : ∀ c ∈ a.toList, IsPlain c) :
    ∀ c ∈ b.toList, IsPlain c := by
  intro c member
  have lowered : c.toLower ∈ a.toList.map Char.toLower := by
    rw [eq_of_beq same]
    exact List.mem_map_of_mem member
  obtain ⟨d, found, lower⟩ := List.mem_map.1 lowered
  rw [← isPlain_toLower, ← lower, isPlain_toLower]
  exact plain d found

theorem isWord_of_letter {w : String} (letter : beginsWithLetter w = true) (plain : ∀ c ∈ w.toList, IsPlain c) :
    IsWord w := by
  refine .inr ⟨?_, plain⟩
  intro empty
  simp [beginsWithLetter, empty] at letter

theorem isWord_named {α : Type} [Vocabulary α] [LawfulVocabulary α] (n : Named α) : IsWord n.word :=
  isWord_of_letter n.letter (plain_of_sameLetters n.named (LawfulVocabulary.name_plain n.value))

theorem solid_named {α : Type} [Vocabulary α] [LawfulVocabulary α] (n : Named α) : IsSolid n.word.toList := by
  constructor
  · intro empty
    have letter := n.letter
    simp [beginsWithLetter, empty] at letter
  · exact fun c member => (plain_of_sameLetters n.named (LawfulVocabulary.name_plain n.value) c member).1

theorem solid_name {α : Type} [Vocabulary α] [LawfulVocabulary α] (a : α) : IsSolid (name a).toList :=
  solid_named ⟨name a, a, sameLetters_refl (name a)⟩

theorem KindWord.isWord {k : RegionKind} (w : KindWord k) : IsWord w.word :=
  isWord_of_letter w.letter (plain_of_sameLetters w.spelled (RegionKind.word_plain k))

theorem isWord_paren {c : Char} (paren : IsParen c) : IsWord (String.ofList [c]) := .inl ⟨c, paren, rfl⟩

theorem plain_digits {cs : List Char} (digits : Decimal.AllDigits cs) : ∀ c ∈ cs, IsPlain c := by
  intro c member
  have digit := List.all_eq_true.1 digits c member
  have range : 48 ≤ c.toNat ∧ c.toNat ≤ 57 := by
    simpa [Char.isDigit, ge_iff_le, UInt32.le_iff_toNat_le] using digit
  exact isPlain_of_range (by omega) (by omega)

theorem plain_sign (s : Decimal.Sign) : ∀ c ∈ s.text, IsPlain c := by
  intro c member
  cases s with
  | missing => cases member
  | plus =>
    obtain rfl := List.mem_singleton.1 member
    decide
  | minus =>
    obtain rfl := List.mem_singleton.1 member
    decide

theorem plain_spelling (s : Decimal.Spelling) : ∀ c ∈ s.text, IsPlain c := by
  intro c member
  simp only [Decimal.Spelling.text, Decimal.Spelling.mantissa, Decimal.Spelling.tail, List.mem_append] at member
  rcases member with sign | (whole | fraction) | tail
  · exact plain_sign s.sign c sign
  · exact plain_digits s.wholeDigits c whole
  · have digits := s.fractionDigits
    cases present : s.fraction with
    | none => simp [present] at fraction
    | some cs =>
      rw [present] at fraction digits
      rcases List.mem_cons.1 fraction with rfl | member
      · decide
      · exact plain_digits digits c member
  · cases present : s.exponent with
    | none => simp [present] at tail
    | some e =>
      rw [present] at tail
      rcases List.mem_cons.1 tail with rfl | member
      · rcases e.isMark with mark | mark <;> rw [mark] <;> decide
      · rcases List.mem_append.1 member with sign | digit
        · exact plain_sign e.sign c sign
        · exact plain_digits e.allDigits c digit

theorem isWord_numeral (n : Decimal.Numeral) : IsWord n.word := by
  obtain ⟨s, text, -⟩ := n.spelled
  obtain ⟨c, cs, head, -⟩ := Decimal.exists_head s
  refine .inr ⟨?_, ?_⟩
  · rw [← text, head]
    exact List.cons_ne_nil c cs
  · rw [← text]
    exact plain_spelling s

theorem isWord_optionWords {α : Type} [Vocabulary α] [LawfulVocabulary α] (part : Option (Named α)) :
    ∀ w ∈ optionWords part, IsWord w := by
  cases part with
  | none => simp [optionWords]
  | some n => simpa [optionWords] using isWord_named n

theorem isWord_sys (s : SysPhrase) : ∀ w ∈ s.words, IsWord w := by
  simp only [SysPhrase.words, List.forall_mem_append]
  exact ⟨isWord_optionWords _, isWord_optionWords _, isWord_optionWords _⟩

theorem isWord_pair (p : Pair) : ∀ w ∈ p.words, IsWord w := by
  simp only [Pair.words, List.forall_mem_cons]
  exact ⟨isWord_numeral p.x, isWord_numeral p.y, by simp⟩

theorem isWord_pairs (ps : List Pair) : ∀ w ∈ ps.flatMap Pair.words, IsWord w := by
  intro w member
  obtain ⟨p, -, member⟩ := List.mem_flatMap.1 member
  exact isWord_pair p w member

mutual

theorem Phrase.isWord (p : Phrase) : ∀ w ∈ p.words, IsWord w := by
  cases p with
  | position kind sys point =>
    simp only [Phrase.words, List.forall_mem_cons, List.forall_mem_append]
    exact ⟨kind.isWord, isWord_sys sys, isWord_pair point⟩
  | circle kind sys centre radius =>
    simp only [Phrase.words, List.forall_mem_cons, List.forall_mem_append]
    exact ⟨kind.isWord, isWord_sys sys, isWord_pair centre, isWord_numeral radius, by simp⟩
  | box kind sys centre width height =>
    simp only [Phrase.words, List.forall_mem_cons, List.forall_mem_append]
    exact ⟨kind.isWord, isWord_sys sys, isWord_pair centre, isWord_numeral width, isWord_numeral height, by simp⟩
  | polygon kind sys first second third others =>
    simp only [Phrase.words, List.forall_mem_cons, List.forall_mem_append]
    exact ⟨kind.isWord, isWord_sys sys, isWord_pairs _⟩
  | combination op kind sys first second others =>
    simp only [Phrase.words, List.forall_mem_cons, List.forall_mem_append]
    exact ⟨kind.isWord, isWord_sys sys, isWord_paren (.inl rfl), first.isWord, second.isWord,
      isWord_all others, isWord_paren (.inr rfl), by simp⟩
  | not kind inner =>
    simp only [Phrase.words, List.forall_mem_cons, List.forall_mem_append]
    exact ⟨kind.isWord, isWord_paren (.inl rfl), inner.isWord, isWord_paren (.inr rfl), by simp⟩

theorem Phrase.isWord_all (ps : List Phrase) : ∀ w ∈ Phrase.allWords ps, IsWord w := by
  cases ps with
  | nil => simp [Phrase.allWords]
  | cons p rest =>
    simp only [Phrase.allWords, List.forall_mem_append]
    exact ⟨p.isWord, isWord_all rest⟩

end

theorem DaliPhrase.isWord (d : DaliPhrase) : ∀ w ∈ d.words, IsWord w := by
  cases d with
  | position point => exact isWord_pair point
  | circle centre radius =>
    simp only [DaliPhrase.words, List.forall_mem_append, List.forall_mem_cons]
    exact ⟨isWord_pair centre, isWord_numeral radius, by simp⟩
  | polygon first second third others => exact isWord_pairs _

/-! ### Written forms -/

/-- Words with a space before each. -/
def spaced : List String → String
  | [] => ""
  | w :: ws => " " ++ w ++ spaced ws

theorem spaced_append (vs ws : List String) : spaced (vs ++ ws) = spaced vs ++ spaced ws := by
  induction vs with
  | nil => simp [spaced]
  | cons v vs ih => simp only [List.cons_append, spaced, ih, String.append_assoc]

theorem space_intercalate {ws : List String} (nonempty : ws ≠ []) :
    " " ++ String.intercalate " " ws = spaced ws := by
  induction ws with
  | nil => exact absurd rfl nonempty
  | cons w ws ih =>
    cases ws with
    | nil => simp [spaced]
    | cons x xs =>
      rw [String.intercalate_cons_cons, spaced, ← ih (List.cons_ne_nil x xs)]
      simp only [String.append_assoc]

theorem cut_spaced {text : String} {ws : List String} (words : ∀ w ∈ ws, IsWord w) (nonempty : ws ≠ [])
    (h : " " ++ text = spaced ws) : cut text = ws := by
  rw [← space_intercalate nonempty] at h
  have same : text = String.intercalate " " ws := (String.append_right_inj " ").1 h
  rw [same, cut_intercalate words]

/-- The numbers of a region and of those it is made of are finite. -/
def IsFinite (r : Region) : Prop := ∀ part ∈ r.walk, ∀ x ∈ part.numbers, x.isFinite = true

/-- A number as it is written. -/
def numeral (x : Float) (finite : x.isFinite = true) : Decimal.Numeral where
  word := numberFormat.write x
  value := x
  spelled := by
    obtain ⟨n, word, value⟩ :=
      Decimal.readFinite_eq_some_iff.1 (numberFormat.readFinite_write (.inr rfl) rfl finite)
    rw [← word, ← value]
    exact n.spelled
  finite := finite

theorem exists_stated {α : Type} [Vocabulary α] [DecidableEq α] (a : α) :
    ∃ part : Option (Named α), (part.map Named.value).getD unstated = a ∧
      optionWords part = CoordSys.statedWord a := by
  unfold CoordSys.statedWord
  split
  · rename_i left
    exact ⟨none, left.symm, rfl⟩
  · exact ⟨some ⟨name a, a, sameLetters_refl (name a)⟩, rfl, rfl⟩

theorem stated_of_not_default {c : CoordSys} (h : ¬c.isDefault = true) : c.statedWords ≠ [] := by
  intro empty
  simp only [CoordSys.statedWords, CoordSys.statedWord, List.append_eq_nil_iff, ite_eq_left_iff,
    List.cons_ne_nil, imp_false, not_not] at empty
  obtain ⟨frame, refPos, flavor, unframed⟩ := c
  obtain ⟨⟨rfl, rfl⟩, rfl⟩ := empty
  exact h (beq_iff_eq.2 rfl)

/-- The words that may not be left out are those of a phrase. -/
theorem exists_statedWords (c : CoordSys) : ∃ s : SysPhrase, s.sys = c ∧ s.words = c.statedWords := by
  obtain ⟨frame, frameValue, frameWords⟩ := exists_stated c.frame
  obtain ⟨refPos, refPosValue, refPosWords⟩ := exists_stated c.refPos
  obtain ⟨flavor, flavorValue, flavorWords⟩ := exists_stated c.flavor
  refine ⟨⟨frame, refPos, flavor, ?_⟩, ?_, ?_⟩
  · rw [frameValue, refPosValue, flavorValue]
    exact c.unframed
  · simp only [SysPhrase.sys, frameValue, refPosValue, flavorValue]
  · simp only [SysPhrase.words, frameWords, refPosWords, flavorWords, CoordSys.statedWords, List.append_assoc]

theorem exists_sysPhrase (c : CoordSys) : ∃ s : SysPhrase, s.sys = c ∧ renderSys c = spaced s.words := by
  obtain ⟨s, sys, words⟩ := exists_statedWords c
  refine ⟨s, sys, ?_⟩
  rw [words, renderSys]
  split
  · rename_i standard
    rw [show c = CoordSys.default from eq_of_beq standard]
    rfl
  · rename_i other
    exact space_intercalate (stated_of_not_default other)

theorem exists_pair {p : Point} (xFinite : p.x.isFinite = true) (yFinite : p.y.isFinite = true) :
    ∃ q : Pair, q.point = p ∧ q.words = [p.x, p.y].map numberFormat.write :=
  ⟨⟨numeral p.x xFinite, numeral p.y yFinite⟩, rfl, rfl⟩

theorem exists_pairs_of_points {points : List Point}
    (finite : ∀ x ∈ points.flatMap (fun p => [p.x, p.y]), x.isFinite = true) :
    ∃ ps : List Pair, ps.map Pair.point = points ∧
      ps.flatMap Pair.words = (points.flatMap fun p => [p.x, p.y]).map numberFormat.write := by
  induction points with
  | nil => exact ⟨[], rfl, rfl⟩
  | cons p points ih =>
    simp only [List.flatMap_cons, List.forall_mem_append, List.forall_mem_cons] at finite
    obtain ⟨q, rfl, words⟩ := exists_pair finite.1.1 finite.1.2.1
    obtain ⟨qs, rfl, others⟩ := ih finite.2
    exact ⟨q :: qs, rfl, by rw [List.flatMap_cons, words, others, List.flatMap_cons, List.map_append]⟩

theorem exists_vertices {first second third : Point} {others : List Point}
    (finite : ∀ x ∈ (first :: second :: third :: others).flatMap (fun p => [p.x, p.y]), x.isFinite = true) :
    ∃ a b c ps, a.point = first ∧ b.point = second ∧ c.point = third ∧ ps.map Pair.point = others ∧
      (a :: b :: c :: ps).flatMap Pair.words =
        ((first :: second :: third :: others).flatMap fun p => [p.x, p.y]).map numberFormat.write := by
  obtain ⟨ps, all, words⟩ := exists_pairs_of_points finite
  obtain ⟨a, afterFirst, rfl, firstPoint, fromSecond⟩ := List.map_eq_cons_iff.1 all
  obtain ⟨b, afterSecond, rfl, secondPoint, fromThird⟩ := List.map_eq_cons_iff.1 fromSecond
  obtain ⟨c, rest, rfl, thirdPoint, points⟩ := List.map_eq_cons_iff.1 fromThird
  exact ⟨a, b, c, rest, firstPoint, secondPoint, thirdPoint, points, words⟩

theorem space_renderNumbers {xs : List Float} (nonempty : xs ≠ []) :
    " " ++ renderNumbers xs = spaced (xs.map numberFormat.write) :=
  space_intercalate (by simpa using nonempty)

theorem IsFinite.numbers {r : Region} (h : r.IsFinite) : ∀ x ∈ r.numbers, x.isFinite = true :=
  h r (by cases r <;> simp [walk])

theorem IsFinite.first {op : Combination} {sys : CoordSys} {first second : Region} {others : List Region}
    (h : (combination op sys first second others).IsFinite) : first.IsFinite :=
  fun part member => h part (by simp [walk, member])

theorem IsFinite.second {op : Combination} {sys : CoordSys} {first second : Region} {others : List Region}
    (h : (combination op sys first second others).IsFinite) : second.IsFinite :=
  fun part member => h part (by simp [walk, member])

theorem mem_walkAll {rs : List Region} {r part : Region} (member : r ∈ rs) (inside : part ∈ r.walk) :
    part ∈ walkAll rs := by
  induction rs with
  | nil => cases member
  | cons first rest ih =>
    rw [walkAll, List.mem_append]
    rcases List.mem_cons.1 member with rfl | member
    · exact .inl inside
    · exact .inr (ih member)

theorem IsFinite.others {op : Combination} {sys : CoordSys} {first second : Region} {others : List Region}
    (h : (combination op sys first second others).IsFinite) : ∀ r ∈ others, r.IsFinite :=
  fun r member part inside => h part (by simp [walk, mem_walkAll member inside])

theorem IsFinite.inner {r : Region} (h : (not r).IsFinite) : r.IsFinite :=
  fun part member => h part (by simp [walk, member])

/-- The word of a kind as it is written. -/
def kindWord (k : RegionKind) : KindWord k := ⟨k.word, sameLetters_refl k.word⟩

theorem spaced_shape (k : RegionKind) {sys : CoordSys} {s : SysPhrase} (system : renderSys sys = spaced s.words)
    {xs : List Float} (nonempty : xs ≠ []) :
    " " ++ (k.word ++ renderSys sys ++ " " ++ renderNumbers xs) =
      spaced (k.word :: (s.words ++ xs.map numberFormat.write)) := by
  rw [spaced, spaced_append, system, ← space_renderNumbers nonempty]
  simp only [String.append_assoc]

mutual

/-- A region is written in the words of a phrase. -/
theorem exists_phrase (r : Region) (finite : r.IsFinite) :
    ∃ p : Phrase, p.region = r ∧ " " ++ r.renderStcs = spaced p.words := by
  have numbers := finite.numbers
  cases r with
  | position sys point =>
    obtain ⟨s, system, written⟩ := exists_sysPhrase sys
    simp only [Region.numbers, points, List.flatMap_cons, List.flatMap_nil, List.append_nil,
      List.forall_mem_cons] at numbers
    obtain ⟨q, pair, words⟩ := exists_pair numbers.1 numbers.2.1
    refine ⟨.position (kindWord .position) s q, by rw [Phrase.region, system, pair], ?_⟩
    rw [renderStcs, Phrase.words, words]
    exact spaced_shape .position written (List.cons_ne_nil _ _)
  | circle sys centre radius =>
    obtain ⟨s, system, written⟩ := exists_sysPhrase sys
    simp only [Region.numbers, points, List.flatMap_cons, List.flatMap_nil, List.append_nil,
      List.forall_mem_append, List.forall_mem_cons] at numbers
    obtain ⟨q, pair, words⟩ := exists_pair numbers.1.1 numbers.1.2.1
    refine ⟨.circle (kindWord .circle) s q (numeral radius numbers.2.1), by rw [Phrase.region, system, pair]; rfl, ?_⟩
    rw [renderStcs, Phrase.words, words]
    exact spaced_shape .circle written (List.cons_ne_nil _ _)
  | box sys centre width height =>
    obtain ⟨s, system, written⟩ := exists_sysPhrase sys
    simp only [Region.numbers, points, List.flatMap_cons, List.flatMap_nil, List.append_nil,
      List.forall_mem_append, List.forall_mem_cons] at numbers
    obtain ⟨q, pair, words⟩ := exists_pair numbers.1.1 numbers.1.2.1
    refine ⟨.box (kindWord .box) s q (numeral width numbers.2.1) (numeral height numbers.2.2.1),
      by rw [Phrase.region, system, pair]; rfl, ?_⟩
    rw [renderStcs, Phrase.words, words]
    exact spaced_shape .box written (List.cons_ne_nil _ _)
  | polygon sys first second third others =>
    obtain ⟨s, system, written⟩ := exists_sysPhrase sys
    simp only [Region.numbers, points, List.append_nil] at numbers
    obtain ⟨a, b, c, ps, rfl, rfl, rfl, rfl, words⟩ := exists_vertices numbers
    refine ⟨.polygon (kindWord .polygon) s a b c ps, by rw [Phrase.region, system], ?_⟩
    rw [renderStcs, Phrase.words, words]
    simp only [Region.numbers, points, List.append_nil]
    exact spaced_shape .polygon written (List.cons_ne_nil _ _)
  | combination op sys first second others =>
    obtain ⟨s, system, written⟩ := exists_sysPhrase sys
    obtain ⟨p, rfl, firstText⟩ := exists_phrase first finite.first
    obtain ⟨q, rfl, secondText⟩ := exists_phrase second finite.second
    obtain ⟨ps, rfl, othersText⟩ := exists_phrases others finite.others
    refine ⟨.combination op (kindWord op.kind) s p q ps, by rw [Phrase.region, system], ?_⟩
    simp only [renderStcs, Phrase.words, spaced, spaced_append, ← firstText, ← secondText, othersText, written,
      String.append_assoc]
    rfl
  | not inner =>
    obtain ⟨p, rfl, innerText⟩ := exists_phrase inner finite.inner
    refine ⟨.not (kindWord .not) p, rfl, ?_⟩
    simp only [renderStcs, Phrase.words, spaced, spaced_append, ← innerText, String.append_assoc]
    rfl

theorem exists_phrases (rs : List Region) (finite : ∀ r ∈ rs, r.IsFinite) :
    ∃ ps : List Phrase, Phrase.allRegions ps = rs ∧ renderMembers rs = spaced (Phrase.allWords ps) := by
  cases rs with
  | nil => exact ⟨[], rfl, rfl⟩
  | cons r rest =>
    obtain ⟨p, rfl, first⟩ := exists_phrase r (finite r List.mem_cons_self)
    obtain ⟨ps, rfl, others⟩ := exists_phrases rest fun x member => finite x (List.mem_cons_of_mem _ member)
    exact ⟨p :: ps, rfl, by rw [renderMembers, first, others, Phrase.allWords, spaced_append]⟩

end

/-- A region that has a DALI form is written in the words of a DALI phrase. -/
theorem exists_daliPhrase {r : Region} {text : String} (finite : r.IsFinite) (h : r.renderDali? = some text) :
    ∃ d : DaliPhrase, d.region = r ∧ " " ++ text = spaced d.words := by
  have numbers := finite.numbers
  unfold renderDali? at h
  -- The form has no place for a coordinate system, so only regions of the standard one have it.
  split at h
  · split at h
    · rename_i sys point standard
      cases h
      obtain rfl : sys = .default := eq_of_beq standard
      simp only [Region.numbers, points, List.flatMap_cons, List.flatMap_nil, List.append_nil,
        List.forall_mem_cons] at numbers
      obtain ⟨q, rfl, words⟩ := exists_pair numbers.1 numbers.2.1
      refine ⟨.position q, rfl, ?_⟩
      refine (space_renderNumbers (List.cons_ne_nil _ _)).trans ?_
      rw [DaliPhrase.words, words]
      rfl
    · cases h
  · split at h
    · rename_i sys centre radius standard
      cases h
      obtain rfl : sys = .default := eq_of_beq standard
      simp only [Region.numbers, points, List.flatMap_cons, List.flatMap_nil, List.append_nil,
        List.forall_mem_append, List.forall_mem_cons] at numbers
      obtain ⟨q, rfl, words⟩ := exists_pair numbers.1.1 numbers.1.2.1
      refine ⟨.circle q (numeral radius numbers.2.1), rfl, ?_⟩
      refine (space_renderNumbers (List.cons_ne_nil _ _)).trans ?_
      rw [DaliPhrase.words, words]
      rfl
    · cases h
  · split at h
    · rename_i sys first second third others standard
      cases h
      obtain rfl : sys = .default := eq_of_beq standard
      simp only [Region.numbers, points, List.append_nil] at numbers
      obtain ⟨a, b, c, ps, rfl, rfl, rfl, rfl, words⟩ := exists_vertices numbers
      refine ⟨.polygon a b c ps, rfl, ?_⟩
      rw [DaliPhrase.words, words]
      simp only [Region.numbers, points, List.append_nil]
      exact space_renderNumbers (List.cons_ne_nil _ _)
    · cases h
  · cases h
  · cases h
  · cases h

/-! ### Reading back -/

theorem parse_renderStcs {r : Region} (finite : r.IsFinite) : parse r.renderStcs = .ok r := by
  obtain ⟨p, region, written⟩ := exists_phrase r finite
  obtain ⟨kind, ws, begins⟩ := p.exists_kind
  have words := cut_spaced p.isWord (by rw [begins]; exact List.cons_ne_nil _ _) written
  exact parse_ok_iff.2 ⟨.stcs p, words.symm, region⟩

theorem parse_renderDali {r : Region} {text : String} (finite : r.IsFinite) (h : r.renderDali? = some text) :
    parse text = .ok r := by
  obtain ⟨d, region, written⟩ := exists_daliPhrase finite h
  obtain ⟨n, ws, begins⟩ := d.exists_number
  have words := cut_spaced d.isWord (by rw [begins]; exact List.cons_ne_nil _ _) written
  exact parse_ok_iff.2 ⟨.dali d, words.symm, region⟩

/-- A region whose numbers are finite is read back from every form it is written in. -/
theorem parse_written {r : Region} (finite : r.IsFinite) :
    parse r.renderStcs = .ok r ∧ (∀ text, r.renderDali? = some text → parse text = .ok r) ∧
      parse r.render = .ok r := by
  refine ⟨parse_renderStcs finite, fun text => parse_renderDali finite, ?_⟩
  unfold render
  cases dali : r.renderDali? with
  | none => exact parse_renderStcs finite
  | some text => exact parse_renderDali finite dali

/-- The union of a negated circle and a position in the galactic frame. -/
def circleOrPosition : Region :=
  .combination .union .default
    (.not (.circle .default ⟨Float.ofBits 0x4024333333333333, Float.ofBits 0x8000000000000000⟩ (Float.ofBits 1)))
    (.position { frame := .galactic } ⟨Float.ofBits 0x7FEFFFFFFFFFFFFF, Float.ofBits 0x3FF0000000000000⟩) []

theorem parse_written_circleOrPosition :
    circleOrPosition.IsFinite ∧ parse circleOrPosition.renderStcs = .ok circleOrPosition := by
  have finite : circleOrPosition.IsFinite := by
    intro part member
    simp only [circleOrPosition, walk, walkAll, List.append_nil, List.cons_append, List.nil_append, List.mem_cons,
      List.not_mem_nil, or_false] at member
    rcases member with rfl | rfl | rfl | rfl <;> simp [numbers, points] <;> decide
  exact ⟨finite, (parse_written finite).1⟩

end Region

end SkyQuery
