import SkyQuery.Proofs.Region.Grammar

/-!
# Phrases are unique

Two phrases at the start of one text are the same phrase (`Phrase.unique`), as long as no number
follows either: the first word tells the kind, and each part ends where the next word cannot belong
to it.
-/

namespace SkyQuery.Region

open Text Vocabulary

theorem optionWords_unique {α : Type} [Vocabulary α] [LawfulVocabulary α] {a b : Option (Named α)}
    {rest rest' : List String} (ends : ∀ w ∈ rest.head?, parse? (α := α) w = none)
    (ends' : ∀ w ∈ rest'.head?, parse? (α := α) w = none) (h : optionWords a ++ rest = optionWords b ++ rest') :
    a = b ∧ rest = rest' := by
  have cut := cutWord_words a ends
  rw [h, cutWord_words b ends'] at cut
  obtain rfl : rest' = rest := congrArg Prod.snd cut
  refine ⟨?_, rfl⟩
  have words := List.append_cancel_right h
  cases a with
  | none =>
    cases b with
    | none => rfl
    | some n => cases words
  | some m =>
    cases b with
    | none => cases words
    | some n => rw [Named.eq_of_word (List.head_eq_of_cons_eq words)]

theorem SysPhrase.unique {s t : SysPhrase} {rest rest' : List String}
    (after : ∀ w ∈ rest.head?, beginsWithLetter w = false)
    (after' : ∀ w ∈ rest'.head?, beginsWithLetter w = false) (h : s.words ++ rest = t.words ++ rest') :
    s = t ∧ rest = rest' := by
  rw [words_append, words_append] at h
  obtain ⟨noFrame, noRefPos, noFlavor⟩ := s.ends after
  obtain ⟨noFrame', noRefPos', noFlavor'⟩ := t.ends after'
  obtain ⟨frame, afterFrame⟩ := optionWords_unique noFrame noFrame' h
  obtain ⟨refPos, afterRefPos⟩ := optionWords_unique noRefPos noRefPos' afterFrame
  obtain ⟨flavor, afterFlavor⟩ := optionWords_unique noFlavor noFlavor' afterRefPos
  cases s
  cases t
  cases frame
  cases refPos
  cases flavor
  exact ⟨rfl, afterFlavor⟩

theorem Pair.unique {p q : Pair} {rest rest' : List String} (h : p.words ++ rest = q.words ++ rest') :
    p = q ∧ rest = rest' := by
  obtain ⟨px, py⟩ := p
  obtain ⟨qx, qy⟩ := q
  simp only [words, List.cons_append, List.nil_append, List.cons.injEq] at h
  obtain ⟨x, y, rest⟩ := h
  rw [Decimal.Numeral.eq_of_word x, Decimal.Numeral.eq_of_word y]
  exact ⟨rfl, rest⟩

/-- Vertices end before a word that is no number. -/
theorem pairs_unique {ps qs : List Pair} {rest rest' : List String} (after : NoNumber rest)
    (after' : NoNumber rest') (h : ps.flatMap Pair.words ++ rest = qs.flatMap Pair.words ++ rest') :
    ps = qs ∧ rest = rest' := by
  induction ps generalizing qs with
  | nil =>
    cases qs with
    | nil => exact ⟨rfl, h⟩
    | cons q qs =>
      have number := q.x.read
      rw [after q.x.word (by rw [List.flatMap_nil, List.nil_append] at h; rw [h]; rfl)] at number
      cases number
  | cons p ps ih =>
    cases qs with
    | nil =>
      have number := p.x.read
      rw [after' p.x.word (by rw [List.flatMap_nil, List.nil_append] at h; rw [← h]; rfl)] at number
      cases number
    | cons q qs =>
      rw [List.flatMap_cons, List.flatMap_cons, List.append_assoc, List.append_assoc] at h
      obtain ⟨rfl, others⟩ := Pair.unique h
      obtain ⟨rfl, same⟩ := ih others
      exact ⟨rfl, same⟩

theorem KindWord.unique {k : RegionKind} {v w : KindWord k} (h : v.word = w.word) : v = w := by
  cases v
  cases w
  cases h
  rfl

/-- The first word tells the kind. -/
theorem Phrase.kind_eq {p q : Phrase} {rest rest' : List String} (h : p.words ++ rest = q.words ++ rest') :
    p.kind = q.kind := by
  obtain ⟨v, ws, words⟩ := p.exists_kind
  obtain ⟨w, ws', words'⟩ := q.exists_kind
  rw [words, words', List.cons_append, List.cons_append, List.cons.injEq] at h
  exact Option.some.inj (by rw [← v.kind, ← w.kind, h.1])

theorem Combination.kind_inj {op op' : Combination} (h : op.kind = op'.kind) : op = op' := by
  cases op <;> cases op' <;> first | rfl | cases h

mutual

/-- A text begins with one phrase at most that no number follows. -/
theorem Phrase.unique (p : Phrase) {q : Phrase} {rest rest' : List String} (after : NoNumber rest)
    (after' : NoNumber rest') (h : p.words ++ rest = q.words ++ rest') : p = q ∧ rest = rest' := by
  have kinds := Phrase.kind_eq h
  -- The first word fixes the shape. Then the parts are told apart from left to right: a coordinate system
  -- ends before what begins with no letter, and a number or a phrase is followed by no number.
  cases p with
  | position kind sys point =>
    cases q with
    | position kind' sys' point' =>
      simp only [words, List.cons_append, List.append_assoc, List.cons.injEq] at h
      obtain ⟨rfl, system⟩ := h.imp_left KindWord.unique
      obtain ⟨rfl, points⟩ := SysPhrase.unique (noLetter_numeral point.x _) (noLetter_numeral point'.x _) system
      obtain ⟨rfl, same⟩ := Pair.unique points
      exact ⟨rfl, same⟩
    | combination op => cases op <;> cases kinds
    | _ => cases kinds
  | circle kind sys centre radius =>
    cases q with
    | circle kind' sys' centre' radius' =>
      simp only [words, List.cons_append, List.append_assoc, List.cons.injEq] at h
      obtain ⟨rfl, system⟩ := h.imp_left KindWord.unique
      obtain ⟨rfl, numbers⟩ := SysPhrase.unique (noLetter_numeral centre.x _) (noLetter_numeral centre'.x _) system
      obtain ⟨rfl, lengths⟩ := Pair.unique numbers
      obtain ⟨rfl, same⟩ := (List.cons.inj lengths).imp_left Decimal.Numeral.eq_of_word
      exact ⟨rfl, same⟩
    | combination op => cases op <;> cases kinds
    | _ => cases kinds
  | box kind sys centre width height =>
    cases q with
    | box kind' sys' centre' width' height' =>
      simp only [words, List.cons_append, List.append_assoc, List.cons.injEq] at h
      obtain ⟨rfl, system⟩ := h.imp_left KindWord.unique
      obtain ⟨rfl, numbers⟩ := SysPhrase.unique (noLetter_numeral centre.x _) (noLetter_numeral centre'.x _) system
      obtain ⟨rfl, lengths⟩ := Pair.unique numbers
      obtain ⟨rfl, heights⟩ := (List.cons.inj lengths).imp_left Decimal.Numeral.eq_of_word
      obtain ⟨rfl, same⟩ := (List.cons.inj heights).imp_left Decimal.Numeral.eq_of_word
      exact ⟨rfl, same⟩
    | combination op => cases op <;> cases kinds
    | _ => cases kinds
  | polygon kind sys first second third others =>
    cases q with
    | polygon kind' sys' first' second' third' others' =>
      simp only [words, List.cons_append, List.append_assoc, List.cons.injEq] at h
      obtain ⟨rfl, system⟩ := h.imp_left KindWord.unique
      obtain ⟨rfl, vertices⟩ := SysPhrase.unique (noLetter_pairs first _ _) (noLetter_pairs first' _ _) system
      obtain ⟨all, same⟩ := pairs_unique after after' vertices
      obtain ⟨rfl, rfl, rfl, rfl⟩ := by simpa using all
      exact ⟨rfl, same⟩
    | combination op => cases op <;> cases kinds
    | _ => cases kinds
  | combination op kind sys first second others =>
    cases q with
    | combination op' kind' sys' first' second' others' =>
      obtain rfl := Combination.kind_inj kinds
      simp only [words, List.cons_append, List.append_assoc, List.cons.injEq, List.nil_append] at h
      obtain ⟨rfl, system⟩ := h.imp_left KindWord.unique
      obtain ⟨rfl, opened⟩ := SysPhrase.unique (noLetter_paren _) (noLetter_paren _) system
      obtain ⟨rfl, two⟩ := first.unique (second.noNumber _) (second'.noNumber _) (List.cons.inj opened).2
      obtain ⟨rfl, members⟩ := second.unique (noNumber_members others _) (noNumber_members others' _) two
      obtain ⟨rfl, same⟩ := Phrase.unique_members others members
      exact ⟨rfl, same⟩
    | _ => cases op <;> cases kinds
  | not kind inner =>
    cases q with
    | not kind' inner' =>
      simp only [words, List.cons_append, List.append_assoc, List.cons.injEq, List.nil_append] at h
      obtain ⟨rfl, -, opened⟩ := h.imp_left KindWord.unique
      obtain ⟨rfl, closed⟩ := inner.unique (noNumber_paren _) (noNumber_paren _) opened
      exact ⟨rfl, (List.cons.inj closed).2⟩
    | combination op => cases op <;> cases kinds
    | _ => cases kinds

theorem Phrase.unique_members (ps : List Phrase) {qs : List Phrase} {rest rest' : List String}
    (h : allWords ps ++ ")" :: rest = allWords qs ++ ")" :: rest') : ps = qs ∧ rest = rest' := by
  cases ps with
  | nil =>
    cases qs with
    | nil => exact ⟨rfl, (List.cons.inj h).2⟩
    | cons q qs =>
      simp only [allWords, List.append_assoc, List.nil_append] at h
      exact absurd h.symm (q.ne_paren _ _)
  | cons p ps =>
    cases qs with
    | nil =>
      simp only [allWords, List.append_assoc, List.nil_append] at h
      exact absurd h (p.ne_paren _ _)
    | cons q qs =>
      rw [allWords, allWords, List.append_assoc, List.append_assoc] at h
      obtain ⟨rfl, others⟩ := p.unique (noNumber_members ps _) (noNumber_members qs _) h
      obtain ⟨rfl, same⟩ := Phrase.unique_members ps others
      exact ⟨rfl, same⟩

end

end SkyQuery.Region
