import SkyQuery.Proofs.QuickFix.Quotes

/-!
# Quick fixes character by character

`mended` puts the quotes of a quick fix into a text without going through its tokens: each step takes the
first token of what is left, or a name that begins with an underscore (`cutName`). It is what
`quoteNames` writes (`join_quoteNames`), wherever the text stands.
-/

namespace SkyQuery

namespace QuickFix

open Grammar Lexer

variable {v : Version} {c : Char} {rest cs : List Char}

/-- The kind of the first token that is neither white space nor a comment, or of the end of the text. -/
def headKind : List Char → Kind
  | [] => .endOfText
  | c :: rest =>
    if (first c rest).1.isTrivia then headKind (rest.drop (first c rest).2) else (first c rest).1
termination_by cs => cs.length
decreasing_by simp only [List.length_drop, List.length_cons]; omega

/-- Whether the first token of a text can be part of a name that begins with an underscore. -/
def startsPart (c : Char) (rest : List Char) : Bool :=
  c == '_' || (first c rest).1 == .ident || (first c rest).1 == .integer || (first c rest).1.isKeyword

theorem cut_first (c : Char) (rest : List Char) :
    c :: rest.take (first c rest).2 ++ rest.drop (first c rest).2 = c :: rest := by
  rw [List.cons_append, List.take_append_drop]

/-- The tokens at the start of a text that are parts of such a name, and what is left. -/
def cutName : List Char → List Char × List Char
  | [] => ([], [])
  | c :: rest =>
    if startsPart c rest then
      let others := cutName (rest.drop (first c rest).2)
      (c :: rest.take (first c rest).2 ++ others.1, others.2)
    else ([], c :: rest)
termination_by cs => cs.length
decreasing_by simp only [List.length_drop, List.length_cons]; omega

theorem cutName_append (cs : List Char) : (cutName cs).1 ++ (cutName cs).2 = cs := by
  fun_induction cutName cs with
  | case1 => rfl
  | case2 c rest part others ih =>
    simp only [others]
    rw [List.append_assoc, ih, cut_first]
  | case3 => rfl

/-- A text with the quotes of a quick fix. -/
def mended (v : Version) : List Char → List Char
  | [] => []
  | c :: rest =>
    if c = '_' then '"' :: ('_' :: (cutName rest).1 ++ '"' :: mended v (cutName rest).2)
    else
      let text := c :: rest.take (first c rest).2
      let others := rest.drop (first c rest).2
      if misused v (settle v (first c rest).1, String.ofList text) (headKind others) then
        '"' :: (text ++ '"' :: mended v others)
      else text ++ mended v others
termination_by cs => cs.length
decreasing_by
  · have whole := congrArg List.length (cutName_append rest)
    rw [List.length_append] at whole
    rw [List.length_cons]
    omega
  · simp only [List.length_drop, List.length_cons]; omega
  · simp only [List.length_drop, List.length_cons]; omega

theorem mended_underscore (v : Version) (rest : List Char) :
    mended v ('_' :: rest) = '"' :: ('_' :: (cutName rest).1 ++ '"' :: mended v (cutName rest).2) := by
  rw [mended, if_pos rfl]

section First

variable {text after : List Char} {kind : Kind} (found : first c (text ++ after) = (kind, text.length))
include found

theorem headKind_first : headKind (c :: (text ++ after)) = if kind.isTrivia then headKind after else kind := by
  rw [headKind, found, List.drop_left]

theorem mended_first (other : c ≠ '_') : mended v (c :: (text ++ after)) =
    if misused v (settle v kind, String.ofList (c :: text)) (headKind after) then
      '"' :: (c :: text ++ '"' :: mended v after)
    else c :: text ++ mended v after := by
  rw [mended, if_neg other, found, List.take_left, List.drop_left]

theorem cutName_first (part : (kind == .ident || kind == .integer || kind.isKeyword) = true) :
    cutName (c :: (text ++ after)) = (c :: text ++ (cutName after).1, (cutName after).2) := by
  have starts : startsPart c (text ++ after) = true := by
    rw [startsPart, found, Bool.or_assoc, Bool.or_assoc, ← Bool.or_assoc (kind == .ident), part, Bool.or_true]
  rw [cutName, if_pos starts, found, List.take_left, List.drop_left]

end First

/-! ### What a quick fix writes -/

theorem first_underscore (rest : List Char) : first '_' rest = (.strayChar, 0) := by
  simp [first, isSpace, Text.isLetter, symbol]

theorem isUnderscore_first (c : Char) (rest : List Char) (p q : Place) :
    isUnderscore ⟨(first c rest).1, String.ofList (c :: rest.take (first c rest).2), p, q⟩ = (c == '_') := by
  by_cases underscore : c = '_'
  · subst underscore
    rw [first_underscore]
    rfl
  · have other : String.ofList (c :: rest.take (first c rest).2) ≠ "_" := by
      intro same
      have letters := congrArg String.toList same
      rw [String.toList_ofList] at letters
      exact underscore (List.cons.inj letters).1
    rw [isUnderscore, beq_eq_false_iff_ne.2 underscore]
    exact Bool.and_eq_false_iff.2 (.inr (beq_eq_false_iff_ne.2 other))

theorem isWordPart_first (p q : Place) :
    isWordPart ⟨(first c rest).1, String.ofList (c :: rest.take (first c rest).2), p, q⟩ = startsPart c rest := by
  rw [isWordPart, isUnderscore_first, startsPart]

theorem nextSignificant_lexFrom (p : Place) (cs : List Char) :
    ((nextSignificant (lexFrom p cs)).any fun next => next.kind == .leftParen) = (headKind cs == .leftParen) := by
  fun_induction lexFrom p cs with
  | case1 => simp [nextSignificant, headKind]
  | case2 p c rest kind n found text stop ih =>
    rw [headKind, found, nextSignificant]
    dsimp only
    split
    · rename_i trivia
      rw [List.find?_cons_of_neg (by simp [trivia])]
      exact ih
    · rename_i significant
      rw [List.find?_cons_of_pos (by simpa using significant)]
      rfl

theorem lexFrom_cutName (p : Place) (cs : List Char) :
    (String.join (((lexFrom p cs).takeWhile isWordPart).map Token.text)).toList = (cutName cs).1 ∧
      ∃ q, (lexFrom p cs).dropWhile isWordPart = lexFrom q (cutName cs).2 := by
  fun_induction cutName cs generalizing p with
  | case1 => exact ⟨by simp [lexFrom], p, by simp [lexFrom]⟩
  | case2 c rest part others ih =>
    obtain ⟨texts, q, left⟩ := ih (p.advanceAll (c :: rest.take (first c rest).2))
    rw [← isWordPart_first p (p.advanceAll (c :: rest.take (first c rest).2))] at part
    rw [lexFrom]
    dsimp only
    rw [List.takeWhile_cons_of_pos part, List.dropWhile_cons_of_pos part, List.map_cons, String.join_cons,
      String.toList_append, texts, String.toList_ofList]
    exact ⟨rfl, q, left⟩
  | case3 c rest part =>
    rw [← isWordPart_first p (p.advanceAll (c :: rest.take (first c rest).2))] at part
    refine ⟨?_, p, ?_⟩
    · rw [lexFrom]
      dsimp only
      rw [List.takeWhile_cons_of_neg part]
      rfl
    · conv_lhs => rw [lexFrom]
      conv_rhs => rw [lexFrom]
      exact List.dropWhile_cons_of_neg part

/-- The tokens of a text are written as the mended text. -/
theorem join_quoteNames (v : Version) (p : Place) (cs : List Char) :
    (String.join (quoteNames v (lexFrom p cs))).toList = mended v cs := by
  fun_induction mended v cs generalizing p with
  | case1 => simp [lexFrom, quoteNames]
  | case2 rest ih =>
    obtain ⟨texts, q, left⟩ := lexFrom_cutName (p.advanceAll ['_']) rest
    have underscore : isUnderscore ⟨.strayChar, String.ofList ['_'], p, p.advanceAll ['_']⟩ = true := rfl
    rw [lexFrom, first_underscore]
    dsimp only
    rw [List.take_zero, List.drop_zero, quoteNames, if_pos underscore, String.join_cons, String.toList_append, left, ih,
      enclose]
    simp [texts]
  | case3 c rest other text others quoted ih =>
    have word := isUnderscore_first c rest p (p.advanceAll text)
    rw [beq_eq_false_iff_ne.2 other] at word
    rw [lexFrom]
    dsimp only
    rw [quoteNames_cons word, needsQuotes_of_next (nextSignificant_lexFrom _ _), if_pos quoted, String.join_cons,
      String.toList_append, ih, enclose]
    simp [text, others]
  | case4 c rest other text others plain ih =>
    have word := isUnderscore_first c rest p (p.advanceAll text)
    rw [beq_eq_false_iff_ne.2 other] at word
    rw [lexFrom]
    dsimp only
    rw [quoteNames_cons word, needsQuotes_of_next (nextSignificant_lexFrom _ _), if_neg plain, String.join_cons,
      String.toList_append, ih, String.toList_ofList]

theorem fix_eq (v : Version) (text : String) :
    fix v text = String.ofList (mended v (replaceLookAlikes text).toList) := by
  rw [fix, ← join_quoteNames v .origin, String.ofList_toList, Lexer.lex]

end QuickFix

end SkyQuery
