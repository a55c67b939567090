import SkyQuery.Proofs.QuickFix.Mended
import SkyQuery.Proofs.Token.Visible

/-!
# A quick fix mends a text once

The quotes that a quick fix puts into a text merge with those around them and change where the tokens before
them end, but nothing is left to mend: a mended text is mended as itself (`mended_mended`), and so is the text
that a quick fix gives (`fix_fix`).
-/

namespace SkyQuery

namespace QuickFix

open Grammar Lexer

variable {v : Version} {c : Char} {rest cs ds : List Char}

/-! ### Where quotes are put -/

/-- The two texts are the same, or are so up to a quote that the second has before a word of the first. -/
def Bridges (cs ds : List Char) : Prop :=
  cs = ds ∨ ∃ x r d, cs = x ++ r ∧ ds = x ++ '"' :: d ∧ ∃ c ∈ r.head?, Text.isWordChar c = true

theorem Bridges.append (h : Bridges cs ds) (front : List Char) : Bridges (front ++ cs) (front ++ ds) := by
  rcases h with rfl | ⟨x, r, d, rfl, rfl, word⟩
  · exact .inl rfl
  · exact .inr ⟨front ++ x, r, d, (List.append_assoc ..).symm, (List.append_assoc ..).symm, word⟩

/-- The first token is the same where quotes were put behind it, if it is not itself between quotes. -/
theorem first_bridged (h : Bridges (rest.drop (first c rest).2) ds) (other : (first c rest).1 ≠ .quotedIdent) :
    first c (rest.take (first c rest).2 ++ ds) = first c rest := by
  rcases h with rfl | ⟨x, r, d, left, rfl, word⟩
  · rw [List.take_append_drop]
  obtain ⟨w, next, word⟩ := word
  have whole : rest = (rest.take (first c rest).2 ++ x) ++ r := by
    rw [List.append_assoc, ← left, List.take_append_drop]
  -- an open literal leaves no word behind it
  have shut : (first c rest).1 ≠ .openString ∧ (first c rest).1 ≠ .openIdent := by
    refine not_or.1 fun unclosed => ?_
    rw [first_open unclosed, List.drop_length] at left
    obtain ⟨-, rfl⟩ := List.append_eq_nil_iff.1 left.symm
    cases next
  have reach : (rest.take (first c rest).2).length = (first c rest).2 :=
    List.length_take_of_le (first_le c rest)
  have known : first c (rest.take (first c rest).2 ++ x) = first c rest := by
    have part : rest.take ((first c rest).2 + x.length) = rest.take (first c rest).2 ++ x := by
      rw [List.take_add, left, List.take_left]
    rw [← part, first_take shut (Nat.le_add_right ..)]
  rw [← List.append_assoc, first_breaks (breaks_quote d), known]
  · intro _ e quote
    obtain rfl := Option.some.inj quote
    decide
  · -- a comment ends before the end of its line, which is no word
    rw [known]
    intro comment
    left
    have line := first_comment comment
    rw [left] at line
    cases x with
    | nil =>
      obtain rfl := line w next
      cases word
    | cons e x => simp only [List.length_append, List.length_cons, reach]; omega
  · intro quoted
    rw [known] at quoted
    exact absurd quoted other
  · rwa [known]

/-! ### Quoted names -/

/-- A quote right after a quoted name takes in what it would begin. -/
theorem quotedLength_again {quote : Char} {w : List Char} (closed : quotedLength quote w = (w.length, true))
    (after : List Char) : quotedLength quote (w ++ quote :: after) =
      (w.length + (1 + (quotedLength quote after).1), (quotedLength quote after).2) := by
  fun_induction quotedLength quote w with
  | case1 => cases closed
  | case2 c =>
    have same : (c == quote) = true := (Prod.mk.inj closed).2
    rw [List.singleton_append, quotedLength, if_pos same, if_pos (beq_self_eq_true quote)]
    exact Prod.ext (by simp only [List.length_singleton]; omega) rfl
  | case3 c d rest hc hd tail ih =>
    obtain ⟨length, shut⟩ := Prod.mk.inj closed
    have more := ih (Prod.ext (by simpa [tail] using length) shut)
    rw [List.cons_append, List.cons_append, quotedLength, if_pos hc, if_pos hd, more]
    exact Prod.ext (by simp only [List.length_cons]; omega) rfl
  | case4 c d rest hc hd => simp at closed
  | case5 c d rest hc tail ih =>
    obtain ⟨length, shut⟩ := Prod.mk.inj closed
    have more := ih (Prod.ext (by simpa [tail] using length) shut)
    rw [List.cons_append] at more
    rw [List.cons_append, List.cons_append, quotedLength, if_neg hc, more]
    exact Prod.ext (by simp only [List.length_cons]; omega) rfl

theorem quotedLength_word {w : List Char} (word : ∀ c ∈ w, Text.isWordChar c = true) :
    quotedLength '"' (w ++ ['"']) = ((w ++ ['"']).length, true) := by
  have plain : ∀ c ∈ w, c ≠ '"' := by
    rintro c member rfl
    cases word _ member
  have closed : quotedLength '"' (Text.doubled '"' w ++ ['"']) = _ := quotedLength_doubled '"' w (by simp)
  rw [Text.doubled_of_forall plain] at closed
  rw [closed, List.length_append, List.length_singleton]

theorem mended_delimited (v : Version) (rest : List Char) : headKind ('"' :: rest) ≠ .leftParen ∧
    mended v ('"' :: rest) =
      '"' :: (rest.take (quotedLength '"' rest).1 ++ mended v (rest.drop (quotedLength '"' rest).1)) := by
  have found : first '"' rest =
      (if (quotedLength '"' rest).2 then .quotedIdent else .openIdent, (quotedLength '"' rest).1) := by
    simp [first, isSpace, Text.isLetter]
  have other : '"' ≠ '_' := by decide
  rw [headKind, mended, if_neg other, found]
  cases (quotedLength '"' rest).2 <;> simp [Kind.isTrivia, misused, settle, Kind.isKeyword]

/-- Quotes around a name merge with quotes right after it. -/
theorem mended_quoted {w : List Char} (closed : quotedLength '"' w = (w.length, true)) (again : mended v ds = ds) :
    mended v ('"' :: (w ++ ds)) = '"' :: (w ++ ds) := by
  rw [(mended_delimited v _).2]
  by_cases quote : ∃ e, ds = '"' :: e
  · obtain ⟨e, rfl⟩ := quote
    have others : mended v (e.drop (quotedLength '"' e).1) = e.drop (quotedLength '"' e).1 := by
      rw [(mended_delimited v e).2] at again
      exact List.append_cancel_left ((List.cons.inj again).2.trans (List.take_append_drop _ e).symm)
    rw [quotedLength_again closed, List.take_length_add_append, List.drop_length_add_append, Nat.add_comm 1,
      List.take_succ_cons, List.drop_succ_cons, others, List.append_assoc, List.cons_append, List.take_append_drop]
  · have apart : ∀ d ∈ ds.head?, d ≠ '"' := by
      rintro d next rfl
      exact quote ⟨ds.tail, List.eq_cons_of_mem_head? next⟩
    rw [quotedLength_append apart (by rw [closed]), closed, List.take_left, List.drop_left, again]

/-! ### Names -/

theorem isWordChar_of_startsPart (part : startsPart c rest = true) :
    ∀ d ∈ c :: rest.take (first c rest).2, Text.isWordChar d = true := by
  have form := first_matches c rest
  by_cases underscore : c = '_'
  · subst underscore
    rw [first_underscore, List.take_zero]
    exact List.forall_mem_singleton.2 rfl
  cases kind : (first c rest).1 with
  | ident | keyword =>
    rw [kind] at form
    exact Text.isWordChar_of_isWord form
  | integer =>
    rw [kind] at form
    exact fun d member => Text.isWordChar_of_isDigit (isDigit_of_isNumber form d member)
  | _ => simp [startsPart, underscore, kind, Kind.isKeyword] at part

theorem isWordChar_cutName (cs : List Char) : ∀ c ∈ (cutName cs).1, Text.isWordChar c = true := by
  fun_induction cutName cs with
  | case1 => simp
  | case2 c rest part others ih => exact List.forall_mem_append.2 ⟨isWordChar_of_startsPart part, ih⟩
  | case3 => simp

/-- Only words are misused. -/
theorem isWord_of_misused {next : Kind}
    (h : misused v (settle v (first c rest).1, String.ofList (c :: rest.take (first c rest).2)) next = true) :
    Text.isWord (c :: rest.take (first c rest).2) = true ∧ headKind (c :: rest) ≠ .leftParen := by
  have form := first_matches c rest
  rw [headKind]
  cases kind : (first c rest).1 with
  | ident | keyword =>
    rw [kind] at form
    exact ⟨form, by simp [Kind.isTrivia]⟩
  | _ => simp [misused, settle, kind, Kind.isKeyword] at h

theorem misused_congr {w : Word} {next next' : Kind} (same : next = .leftParen ↔ next' = .leftParen) :
    misused v w next = misused v w next' := by
  have parens : (next != .leftParen) = (next' != .leftParen) := by
    by_cases called : next = .leftParen
    · rw [called, same.1 called]
    · simp [bne, called, mt same.2 called]
  rw [misused, misused, parens]

/-! ### Mended texts -/

/-- What a quick fix made of a text: it is left as it is, and as far as the token before it can tell it begins
like the text did. -/
structure Mends (v : Version) (cs ds : List Char) : Prop where
  again : mended v ds = ds
  next : headKind ds = .leftParen ↔ headKind cs = .leftParen
  bridges : Bridges cs ds

theorem mends_quoted {w : List Char} (starts : ∃ c ∈ cs.head?, Text.isWordChar c = true)
    (plain : headKind cs ≠ .leftParen) (word : ∀ c ∈ w, Text.isWordChar c = true) (again : mended v ds = ds) :
    Mends v cs ('"' :: (w ++ '"' :: ds)) := by
  have same := mended_quoted (quotedLength_word word) again
  rw [List.append_assoc] at same
  exact ⟨same, iff_of_false (mended_delimited v _).1 plain, .inr ⟨[], cs, w ++ '"' :: ds, rfl, rfl, starts⟩⟩

theorem mended_mends (v : Version) (cs : List Char) : Mends v cs (mended v cs) := by
  fun_induction mended v cs with
  | case1 => exact ⟨by rw [mended], .rfl, .inl rfl⟩
  | case2 rest ih =>
    have kind : headKind ('_' :: rest) = .strayChar := by
      rw [headKind, first_underscore]
      rfl
    refine mends_quoted ⟨'_', rfl, by decide⟩ (by rw [kind]; decide) ?_ ih.again
    exact List.forall_mem_cons.2 ⟨by decide, isWordChar_cutName rest⟩
  | case3 c rest other text others quoted ih =>
    obtain ⟨word, plain⟩ := isWord_of_misused quoted
    have chars := Text.isWordChar_of_isWord word
    exact mends_quoted ⟨c, rfl, chars c List.mem_cons_self⟩ plain chars ih.again
  | case4 c rest other text others plain ih =>
    have bridges : Bridges (c :: rest) (text ++ mended v others) := cut_first c rest ▸ ih.bridges.append text
    have reach : (rest.take (first c rest).2).length = (first c rest).2 := List.length_take_of_le (first_le c rest)
    by_cases delimited : (first c rest).1 = .quotedIdent
    · obtain ⟨rfl, closed⟩ := first_quotedIdent delimited
      have alone : quotedLength '"' (rest.take (first '"' rest).2) = ((rest.take (first '"' rest).2).length, true) := by
        rw [quotedLength_take (by rw [closed]) (Nat.le_of_eq (by rw [closed])), closed, reach]
      exact ⟨mended_quoted alone ih.again, iff_of_false (mended_delimited v _).1 (mended_delimited v rest).1, bridges⟩
    · have found : first c (rest.take (first c rest).2 ++ mended v others) =
          ((first c rest).1, (rest.take (first c rest).2).length) := by
        rw [first_bridged ih.bridges delimited, reach]
      refine ⟨?_, ?_, bridges⟩
      · have same := mended_first (v := v) found other
        rw [misused_congr ih.next, if_neg plain, ih.again] at same
        exact same
      · have next := headKind_first found
        rw [List.cons_append, next, headKind]
        split
        · exact ih.next
        · rfl

/-! ### Look-alikes -/

theorem plain_plain {c d : Char} (h : plain c = some d) : plain d = some d := by
  have kept : d = c ∨ d ∈ ['\'', '"', ' ', '-'] := by
    unfold plain at h
    dsimp only at h
    split at h
    · exact .inr (by rw [← Option.some.inj h]; decide)
    split at h
    · exact .inr (by rw [← Option.some.inj h]; decide)
    split at h
    · exact .inr (by rw [← Option.some.inj h]; decide)
    split at h
    · exact .inr (by rw [← Option.some.inj h]; decide)
    split at h
    · cases h
    · exact .inl (Option.some.inj h).symm
  have unchanged : ∀ d ∈ ['\'', '"', ' ', '-'], plain d = some d := by
    simp only [List.forall_mem_cons]
    exact ⟨rfl, rfl, rfl, rfl, List.forall_mem_nil _⟩
  rcases kept with rfl | target
  · exact h
  · exact unchanged d target

theorem mem_mended {d : Char} (cs : List Char) (member : d ∈ mended v cs) : d ∈ cs ∨ d = '"' := by
  fun_induction mended v cs with
  | case1 => cases member
  | case2 rest ih =>
    rw [← cutName_append rest]
    simp only [List.mem_cons, List.mem_append] at member ⊢
    tauto
  | case3 c rest other text others quoted ih =>
    rw [← cut_first c rest]
    change d ∈ text ++ others ∨ d = '"'
    rw [List.mem_append]
    simp only [List.mem_cons, List.mem_append, text] at member ⊢
    tauto
  | case4 c rest other text others plain ih =>
    rw [← cut_first c rest]
    change d ∈ text ++ others ∨ d = '"'
    rw [List.mem_append] at member ⊢
    tauto

/-- A quick fix leaves what a quick fix gave as it is. -/
theorem fix_fix (v : Version) (text : String) : fix v (fix v text) = fix v text := by
  have plain : NoLookAlikes (String.ofList (mended v (replaceLookAlikes text).toList)) := by
    intro d member
    rw [String.toList_ofList] at member
    rcases mem_mended _ member with kept | rfl
    · rw [replaceLookAlikes, String.toList_ofList] at kept
      obtain ⟨c, -, found⟩ := List.mem_filterMap.1 kept
      exact plain_plain found
    · decide
  rw [fix_eq v (fix v text), fix_eq v text, replaceLookAlikes_eq plain, String.toList_ofList,
    (mended_mends v _).again]

end QuickFix

end SkyQuery
