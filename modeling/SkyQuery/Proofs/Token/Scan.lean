import SkyQuery.Proofs.Token.Lexed

/-!
# Words of a text

A `Word` is a token without its place, and `scan` lists the words that the grammar reads from a
text, or finds a fault. What a piece of text contributes is stated for the text that follows it:
`Opens` for a piece that ends by itself, `Spells` for one that must be followed by a separator.
-/

namespace SkyQuery

/-- A token without its place. -/
abbrev Word := Kind × String

def Token.word (t : Token) : Word := (t.kind, t.text)

namespace Grammar

/-- The words of some tokens, up to the first fault, which leaves none. -/
def wordsOf (v : Version) : List Token → Option (List Word)
  | [] => some []
  | t :: rest =>
    if t.kind.isTrivia then wordsOf v rest
    else if t.kind.isFault then none
    else (wordsOf v rest).map ((settle v t.kind, t.text) :: ·)

/-- The words of a text. -/
def scan (v : Version) (cs : List Char) : Option (List Word) :=
  wordsOf v (Lexer.lexFrom Place.origin cs)

variable {v : Version}

theorem wordsOf_lexFrom (p q : Place) (cs : List Char) :
    wordsOf v (Lexer.lexFrom p cs) = wordsOf v (Lexer.lexFrom q cs) := by
  fun_induction Lexer.lexFrom p cs generalizing q with
  | case1 => simp [Lexer.lexFrom]
  | case2 p c rest kind n hfirst text stop ih =>
    rw [Lexer.lexFrom, hfirst]
    simp only [wordsOf]
    rw [ih (q.advanceAll (c :: rest.take n))]

theorem scan_nil : scan v [] = some [] := by simp [scan, Lexer.lexFrom, wordsOf]

theorem scan_cons (c : Char) (rest : List Char) :
    scan v (c :: rest) = if (Lexer.first c rest).1.isTrivia then scan v (rest.drop (Lexer.first c rest).2)
      else if (Lexer.first c rest).1.isFault then none
      else (scan v (rest.drop (Lexer.first c rest).2)).map
        ((settle v (Lexer.first c rest).1, String.ofList (c :: rest.take (Lexer.first c rest).2)) :: ·) := by
  unfold scan
  rw [Lexer.lexFrom]
  simp only [wordsOf]
  rw [wordsOf_lexFrom _ Place.origin]

theorem ne_end_of_wordsOf {ts : List Token} {ws : List Word} (inside : ∀ t ∈ ts, t.kind ≠ .endOfText)
    (h : wordsOf v ts = some ws) : ∀ w ∈ ws, w.1 ≠ .endOfText := by
  induction ts generalizing ws with
  | nil =>
    cases h
    simp
  | cons t rest ih =>
    obtain ⟨first, inside⟩ := List.forall_mem_cons.1 inside
    unfold wordsOf at h
    split at h
    · exact ih inside h
    split at h
    · cases h
    obtain ⟨others, hothers, rfl⟩ := Option.map_eq_some_iff.1 h
    exact List.forall_mem_cons.2 ⟨settle_ne_end first, ih inside hothers⟩

/-- No word of a text is its end. -/
theorem ne_end_of_scan {cs : List Char} {ws : List Word} (h : scan v cs = some ws) : ∀ w ∈ ws, w.1 ≠ .endOfText :=
  ne_end_of_wordsOf (Lexer.lexFrom_ne_end Place.origin cs) h

/-- The tokens of a text have its words, and then the end. -/
theorem significant_words {p : Place} {ts : List Token} {ws : List Word} (h : wordsOf v ts = some ws) :
    ∃ us, Lexer.significant false p ts = .ok us ∧
      us.map (fun u => (settle v u.kind, u.text)) = ws ++ [(.endOfText, "")] := by
  induction ts generalizing p ws with
  | nil =>
    cases h
    exact ⟨_, rfl, by simp [Token.atEnd, settle, Kind.isKeyword]⟩
  | cons t rest ih =>
    unfold wordsOf at h
    unfold Lexer.significant
    split at h
    · rename_i trivia
      rw [if_pos trivia]
      exact ih h
    split at h
    · cases h
    · rename_i notTrivia notFault
      obtain ⟨vs, hvs, rfl⟩ := Option.map_eq_some_iff.1 h
      obtain ⟨us, hus, words⟩ := ih (p := t.stop) hvs
      rw [if_neg notTrivia, if_neg notFault, hus]
      exact ⟨t :: us, rfl, by simp [words]⟩

/-- A text whose words are known is cut into tokens that have these words. -/
theorem tokensFor_of_scan {text : String} {ws : List Word} (h : scan v text.toList = some ws) :
    ∃ tokens, tokensFor v text = .ok tokens ∧ tokens.map Token.word = ws ++ [(.endOfText, "")] := by
  obtain ⟨us, hus, words⟩ := significant_words (p := Place.origin) h
  refine ⟨_, by rw [tokensFor, Lexer.tokenize, Lexer.lex, hus]; rfl, ?_⟩
  rw [← words, List.map_map]
  refine List.map_congr_left fun u _ => ?_
  simp only [Function.comp_apply, Token.word, settle]
  split <;> rfl

/-! ### Pieces of text -/

/-- A piece of text that contributes the words `ws`, whatever follows it. -/
def Opens (v : Version) (text : String) (ws : List Word) : Prop :=
  ∀ after, scan v (text.toList ++ after) = (scan v after).map (ws ++ ·)

/-- A piece of text that contributes the words `ws` before a separator. -/
def Spells (v : Version) (text : String) (ws : List Word) : Prop :=
  ∀ after, Lexer.Separates after → scan v (text.toList ++ after) = (scan v after).map (ws ++ ·)

/-- A piece of text that separates what precedes it. -/
def Parts (text : String) : Prop := ∀ after, Lexer.Separates (text.toList ++ after)

variable {a b : String} {ws us : List Word}

theorem Opens.spells (h : Opens v a ws) : Spells v a ws := fun after _ => h after

theorem Opens.congr (h : Opens v a ws) (eq : ws = us) : Opens v a us := eq ▸ h

theorem Spells.congr (h : Spells v a ws) (eq : ws = us) : Spells v a us := eq ▸ h

theorem opens_empty : Opens v "" [] := fun after => by simp

theorem Opens.open (ha : Opens v a ws) (hb : Opens v b us) : Opens v (a ++ b) (ws ++ us) := by
  intro after
  rw [String.toList_append, List.append_assoc, ha, hb, Option.map_map]
  simp [Function.comp_def]

theorem Opens.spell (ha : Opens v a ws) (hb : Spells v b us) : Spells v (a ++ b) (ws ++ us) := by
  intro after sep
  rw [String.toList_append, List.append_assoc, ha, hb after sep, Option.map_map]
  simp [Function.comp_def]

/-- A separator goes on after a piece that must be followed by one. -/
theorem Spells.link (ha : Spells v a ws) (parts : Parts b) (hb : Opens v b us) :
    Opens v (a ++ b) (ws ++ us) := by
  intro after
  rw [String.toList_append, List.append_assoc, ha _ (parts after), hb, Option.map_map]
  simp [Function.comp_def]

theorem Spells.linkSpell (ha : Spells v a ws) (parts : Parts b) (hb : Spells v b us) :
    Spells v (a ++ b) (ws ++ us) := by
  intro after sep
  rw [String.toList_append, List.append_assoc, ha _ (parts after), hb after sep, Option.map_map]
  simp [Function.comp_def]

theorem Parts.append (h : Parts a) (b : String) : Parts (a ++ b) := by
  intro after
  rw [String.toList_append, List.append_assoc]
  exact h _

theorem parts_space : Parts " " := fun after => by simp [Lexer.Separates]

theorem parts_newline : Parts "\n" := fun after => by simp [Lexer.Separates]

theorem parts_open : Parts "(" := fun after => by simp [Lexer.Separates]

theorem parts_close : Parts ")" := fun after => by simp [Lexer.Separates]

theorem parts_comma : Parts "," := fun after => by simp [Lexer.Separates]

/-! ### Blanks and symbols -/

theorem scan_drop_run (cs : List Char) : scan v (cs.drop (Lexer.run Lexer.isSpace cs)) = scan v cs := by
  cases cs with
  | nil => rfl
  | cons c rest =>
    by_cases space : Lexer.isSpace c
    · have blank : Lexer.first c rest = (.blank, Lexer.run Lexer.isSpace rest) := by
        simp [Lexer.first, space]
      rw [scan_cons, blank]
      simp [Lexer.run, space, Kind.isTrivia]
    · simp [Lexer.run, space]

theorem scan_space {c : Char} (space : Lexer.isSpace c = true) (rest : List Char) :
    scan v (c :: rest) = scan v rest := by
  have blank : Lexer.first c rest = (.blank, Lexer.run Lexer.isSpace rest) := by
    simp [Lexer.first, space]
  rw [scan_cons, blank]
  exact scan_drop_run rest

theorem opens_space : Opens v " " [] := fun after => by
  simpa using scan_space (v := v) (c := ' ') rfl after

theorem opens_newline : Opens v "\n" [] := fun after => by
  simpa using scan_space (v := v) (c := '\n') rfl after

theorem scan_first {c : Char} {kind : Kind} (text after : List Char)
    (h : Lexer.first c (text ++ after) = (kind, text.length)) (seen : kind.isTrivia = false)
    (sound : kind.isFault = false) :
    scan v (c :: (text ++ after)) = (scan v after).map ((settle v kind, String.ofList (c :: text)) :: ·) := by
  rw [scan_cons, h]
  simp [seen, sound]

/-- The symbols that are tokens of their own, whatever follows. -/
def symbols : List (Char × Kind) :=
  [('(', .leftParen), (')', .rightParen), (',', .comma), ('*', .star), ('+', .plus), ('/', .slash),
    ('=', .eq)]

theorem first_symbol {c : Char} {kind : Kind} (h : (c, kind) ∈ symbols) (after : List Char) :
    Lexer.first c after = (kind, 0) := by
  simp only [symbols, List.mem_cons, Prod.mk.injEq, List.not_mem_nil, or_false] at h
  rcases h with ⟨rfl, rfl⟩ | ⟨rfl, rfl⟩ | ⟨rfl, rfl⟩ | ⟨rfl, rfl⟩ | ⟨rfl, rfl⟩ | ⟨rfl, rfl⟩ | ⟨rfl, rfl⟩ <;>
    rfl

theorem settle_of_not_keyword {kind : Kind} (h : kind.isKeyword = false) : settle v kind = kind := by
  simp [settle, h]

theorem symbols_plain : ∀ s ∈ symbols, s.2.isTrivia = false ∧ s.2.isFault = false ∧ s.2.isKeyword = false := by
  decide

theorem scan_symbol {c : Char} {kind : Kind} (h : (c, kind) ∈ symbols) (after : List Char) :
    scan v (c :: after) = (scan v after).map ((kind, c.toString) :: ·) := by
  obtain ⟨seen, sound, plain⟩ := symbols_plain _ h
  have := scan_first (v := v) [] after (first_symbol h after) seen sound
  rw [settle_of_not_keyword plain] at this
  exact this

theorem opens_symbol (c : Char) (kind : Kind) (h : (c, kind) ∈ symbols) :
    Opens v c.toString [(kind, c.toString)] := fun after => by
  have single : c.toString.toList = [c] := by simp [Char.toString]
  rw [single]
  exact scan_symbol h after

theorem first_minus {after : List Char} (h : after.head? ≠ some '-') : Lexer.first '-' after = (.minus, 0) := by
  simp [Lexer.first, Lexer.isSpace, h, Text.isLetter, Lexer.symbol]

theorem first_dot {after : List Char} (h : ∀ c ∈ after.head?, c.isDigit = false) :
    Lexer.first '.' after = (.dot, 0) := by
  cases after with
  | nil => rfl
  | cons c rest =>
    have := h c rfl
    simp [Lexer.first, Lexer.isSpace, Text.isLetter, this, Lexer.symbol]

theorem scan_minus {after : List Char} (h : after.head? ≠ some '-') :
    scan v ('-' :: after) = (scan v after).map ((.minus, "-") :: ·) := by
  have := scan_first (v := v) [] after (first_minus h) rfl rfl
  rw [settle_of_not_keyword rfl] at this
  exact this

theorem scan_dot {after : List Char} (h : ∀ c ∈ after.head?, c.isDigit = false) :
    scan v ('.' :: after) = (scan v after).map ((.dot, ".") :: ·) := by
  have := scan_first (v := v) [] after (first_dot h) rfl rfl
  rw [settle_of_not_keyword rfl] at this
  exact this

/-! ### Words -/

theorem first_word {c : Char} {rest after : List Char} (h : Text.isWord (c :: rest) = true)
    (ends : ∀ c ∈ after.head?, Text.isWordChar c = false) :
    Lexer.first c (rest ++ after) = (Lexer.wordKind (c :: rest), rest.length) := by
  simp only [Text.isWord, Bool.and_eq_true, List.all_eq_true] at h
  obtain ⟨letter, all⟩ := h
  have length : Lexer.run Text.isWordChar (rest ++ after) = rest.length := by
    rw [Lexer.run_append ends, Lexer.run_eq_length all]
  have space : Lexer.isSpace c = false := by
    simp only [Lexer.isSpace, Bool.or_eq_false_iff, beq_eq_false_iff_ne]
    refine ⟨⟨⟨⟨?_, ?_⟩, ?_⟩, ?_⟩, ?_⟩ <;> rintro rfl <;> exact absurd letter (by decide)
  have dash : (c == '-') = false := by
    rw [beq_eq_false_iff_ne]
    rintro rfl
    exact absurd letter (by decide)
  simp [Lexer.first, space, dash, letter, length]

theorem scan_word {word after : List Char} (h : Text.isWord word = true)
    (ends : ∀ c ∈ after.head?, Text.isWordChar c = false) :
    scan v (word ++ after) =
      (scan v after).map ((settle v (Lexer.wordKind word), String.ofList word) :: ·) := by
  cases word with
  | nil => cases h
  | cons c rest =>
    have plain : (Lexer.wordKind (c :: rest)).isTrivia = false ∧
        (Lexer.wordKind (c :: rest)).isFault = false := by
      unfold Lexer.wordKind
      split <;> exact ⟨rfl, rfl⟩
    exact scan_first rest after (first_word h ends) plain.1 plain.2

theorem not_isWordChar_of_separates {after : List Char} (h : Lexer.Separates after) :
    ∀ c ∈ after.head?, Text.isWordChar c = false := by
  intro c hc
  rcases h c hc with rfl | rfl | rfl | rfl | rfl <;> rfl

theorem spells_word {text : String} (h : Text.isWord text.toList = true) :
    Spells v text [(settle v (Lexer.wordKind text.toList), text)] := by
  intro after sep
  rw [scan_word h (not_isWordChar_of_separates sep), String.ofList_toList]
  rfl

end Grammar

/-! ### Keywords -/

theorem Keyword.mem_all (k : Keyword) : k ∈ Keyword.all := by
  cases k with
  | aggregate fn => cases fn <;> decide
  | math fn => cases fn <;> decide
  | geometry fn => cases fn <;> decide
  | _ => decide

theorem Keyword.ofWord?_text (k : Keyword) : Keyword.ofWord? k.text = some k := by
  have all : ∀ k ∈ Keyword.all, Keyword.ofWord? k.text = some k := by decide +kernel
  exact all k k.mem_all

theorem Keyword.isWord_text (k : Keyword) : Text.isWord k.text.toList = true := by
  have all : ∀ k ∈ Keyword.all, Text.isWord k.text.toList = true := by decide +kernel
  exact all k k.mem_all

/-- The words of the grammar are reserved in the versions that know them. -/
theorem Keyword.isReserved_text {v : Version} {k : Keyword} (h : k.availableIn v = true) :
    Reserved.isReserved v k.text = true := by
  have all : ∀ v ∈ [Version.v20, .v21], ∀ k ∈ Keyword.all, k.availableIn v = true →
      Reserved.isReserved v k.text = true := by decide +kernel
  exact all v (by cases v <;> decide) k k.mem_all h

/-- Before its version a word is free. -/
example : Reserved.isReserved .v20 Keyword.offsetKw.text = false ∧
    Reserved.isReserved .v21 Keyword.offsetKw.text = true := by decide +kernel

theorem Char.toUpper_toLower (c : Char) : c.toLower.toUpper = c.toUpper := by
  by_cases upper : c.val ≥ 'A'.val ∧ c.val ≤ 'Z'.val
  · have range : 65 ≤ c.val.toNat ∧ c.val.toNat ≤ 90 := by
      simpa [ge_iff_le, UInt32.le_iff_toNat_le] using upper
    have small : ¬('a'.val ≤ c.val ∧ c.val ≤ 'z'.val) := by
      simp only [UInt32.le_iff_toNat_le, show ('a'.val).toNat = 97 from rfl]
      omega
    have lowered : c.toLower.val.toNat = c.val.toNat + 32 := by
      unfold Char.toLower
      rw [dif_pos upper]
      change (c.val + 32).toNat = _
      rw [UInt32.toNat_add, show (32 : UInt32).toNat = 32 from rfl]
      omega
    have large : 'a'.val ≤ c.toLower.val ∧ c.toLower.val ≤ 'z'.val := by
      simp only [UInt32.le_iff_toNat_le, lowered, show ('a'.val).toNat = 97 from rfl,
        show ('z'.val).toNat = 122 from rfl]
      omega
    apply Char.ext
    apply UInt32.toNat_inj.1
    unfold Char.toUpper
    rw [dif_pos large, dif_neg small]
    change (c.toLower.val + 4294967264).toNat = _
    rw [UInt32.toNat_add, lowered, show (4294967264 : UInt32).toNat = 4294967264 from rfl]
    omega
  · have same : c.toLower = c := dif_neg upper
    rw [same]

theorem Text.upper_eq_of_sameLetters {a b : String} (h : Text.sameLetters a b = true) :
    Text.upper a = Text.upper b := by
  have lower : a.toList.map Char.toLower = b.toList.map Char.toLower := eq_of_beq h
  have upper (s : String) : s.toList.map Char.toUpper = (s.toList.map Char.toLower).map Char.toUpper := by
    rw [List.map_map]
    exact List.map_congr_left fun c _ => (Char.toUpper_toLower c).symm
  rw [Text.upper, Text.upper, upper a, upper b, lower]

theorem Reserved.isReserved_of_sameLetters {v : Version} {a b : String}
    (h : Text.sameLetters a b = true) : Reserved.isReserved v a = Reserved.isReserved v b := by
  simp only [Reserved.isReserved, Reserved.byLanguage, Reserved.bySql, Text.upper_eq_of_sameLetters h]

namespace Grammar

variable {v : Version}

/-- A keyword as a word of a text. -/
def keywordWord (k : Keyword) : Word := (.keyword k, k.text)

theorem settle_keyword {k : Keyword} (h : k.availableIn v = true) :
    settle v (.keyword k) = .keyword k := by
  simp [settle, Kind.isKeyword, Kind.availableIn, h]

theorem spells_keyword {k : Keyword} (h : k.availableIn v = true) : Spells v k.text [keywordWord k] := by
  have kind : Lexer.wordKind k.text.toList = .keyword k := by
    rw [Lexer.wordKind, String.ofList_toList, Keyword.ofWord?_text]
  have := spells_word (v := v) k.isWord_text
  rw [kind, settle_keyword h] at this
  exact this

/-- A word that is a regular identifier is read as a name. -/
theorem settle_wordKind_of_isRegular {word : String} (h : Reserved.isRegular v word = true) :
    settle v (Lexer.wordKind word.toList) = .ident := by
  simp only [Reserved.isRegular, Bool.and_eq_true, Bool.not_eq_true'] at h
  unfold Lexer.wordKind
  rw [String.ofList_toList]
  split
  · rename_i k hk
    have same : Text.sameLetters k.text word = true := by
      simpa using List.find?_some hk
    have missing : k.availableIn v = false := by
      cases available : k.availableIn v with
      | false => rfl
      | true =>
        have := Keyword.isReserved_text available
        rw [Reserved.isReserved_of_sameLetters same, h.2] at this
        cases this
    simp [settle, Kind.isKeyword, Kind.availableIn, missing]
  · rfl

/-! ### Names and literals -/

theorem scan_quoted (quote : Char) (kind : Kind) (inner after : List Char)
    (h : Lexer.first quote (Text.doubled quote inner ++ quote :: after) =
      (kind, (Text.doubled quote inner).length + 1))
    (seen : kind.isTrivia = false) (sound : kind.isFault = false) (plain : kind.isKeyword = false) :
    scan v (quote :: (Text.doubled quote inner ++ quote :: after)) =
      (scan v after).map ((kind, String.ofList (quote :: (Text.doubled quote inner ++ [quote]))) :: ·) := by
  have := scan_first (v := v) (c := quote) (Text.doubled quote inner ++ [quote]) after
    (by simpa using h) seen sound
  rw [settle_of_not_keyword plain] at this
  simpa using this

theorem first_string (inner : List Char) {after : List Char} (ends : ∀ c ∈ after.head?, c ≠ '\'') :
    Lexer.first '\'' (Text.doubled '\'' inner ++ '\'' :: after) = (.string, (Text.doubled '\'' inner).length + 1) := by
  simp [Lexer.first, Lexer.isSpace, Text.isLetter, Lexer.quotedLength_doubled _ _ ends]

theorem first_quotedIdent (inner : List Char) {after : List Char} (ends : ∀ c ∈ after.head?, c ≠ '"') :
    Lexer.first '"' (Text.doubled '"' inner ++ '"' :: after) = (.quotedIdent, (Text.doubled '"' inner).length + 1) := by
  simp [Lexer.first, Lexer.isSpace, Text.isLetter, Lexer.quotedLength_doubled _ _ ends]

theorem scan_string (value : String) {after : List Char} (ends : ∀ c ∈ after.head?, c ≠ '\'') :
    scan v ((Text.quoted '\'' value).toList ++ after) =
      (scan v after).map ((.string, Text.quoted '\'' value) :: ·) := by
  have := scan_quoted (v := v) '\'' .string value.toList after (first_string value.toList ends) rfl rfl rfl
  simpa [Text.quoted] using this

theorem scan_quotedIdent (name : String) {after : List Char} (ends : ∀ c ∈ after.head?, c ≠ '"') :
    scan v ((Text.quoted '"' name).toList ++ after) =
      (scan v after).map ((.quotedIdent, Text.quoted '"' name) :: ·) := by
  have := scan_quoted (v := v) '"' .quotedIdent name.toList after (first_quotedIdent name.toList ends) rfl rfl rfl
  simpa [Text.quoted] using this

theorem spells_string (value : String) :
    Spells v (Text.quoted '\'' value) [(.string, Text.quoted '\'' value)] := by
  intro after sep
  refine scan_string value fun c hc => ?_
  rcases sep c hc with rfl | rfl | rfl | rfl | rfl <;> decide

theorem isLetter_of_isDigit {c : Char} (h : c.isDigit = true) : Text.isLetter c = false := by
  simp only [Char.isDigit, ge_iff_le, Bool.and_eq_true, decide_eq_true_eq, UInt32.le_iff_toNat_le,
    show ('9'.val).toNat = 57 from rfl] at h
  unfold Text.isLetter Char.isAlpha Char.isUpper Char.isLower
  simp only [ge_iff_le, Bool.or_eq_false_iff, Bool.and_eq_false_iff, decide_eq_false_iff_not, UInt32.le_iff_toNat_le,
    show ('A'.val).toNat = 65 from rfl, show ('a'.val).toNat = 97 from rfl]
  omega

/-- What starts a number starts no other token. -/
theorem startsNumber_first {c : Char} {rest : List Char} (h : Lexer.startsNumber (c :: rest) = true) :
    Lexer.isSpace c = false ∧ (c == '-') = false ∧ Text.isLetter c = false ∧ (c == '"') = false ∧
      (c == '\'') = false := by
  have digit : c.isDigit = true ∨ c = '.' := by
    simp only [Lexer.startsNumber, Bool.or_eq_true, Bool.and_eq_true, beq_iff_eq] at h
    exact h.imp_right And.left
  rcases digit with digit | rfl
  · refine ⟨?_, ?_, isLetter_of_isDigit digit, ?_, ?_⟩
    · simp only [Lexer.isSpace, Bool.or_eq_false_iff, beq_eq_false_iff_ne]
      refine ⟨⟨⟨⟨?_, ?_⟩, ?_⟩, ?_⟩, ?_⟩ <;> rintro rfl <;> exact absurd digit (by decide)
    all_goals
      rw [beq_eq_false_iff_ne]
      rintro rfl
      exact absurd digit (by decide)
  · exact ⟨rfl, rfl, rfl, rfl, rfl⟩

theorem first_number {k : Kind} {c : Char} {rest after : List Char} (h : Lexer.IsNumber k (c :: rest))
    (sep : Lexer.Separates after) : Lexer.first c (rest ++ after) = (k, rest.length) := by
  have reach := h.append sep
  have starts := h.1
  obtain ⟨space, dash, letter, double, single⟩ := startsNumber_first starts
  have started : (c.isDigit || (c == '.' && ((rest ++ after).head?.map Char.isDigit).getD false)) = true := by
    cases rest with
    | nil =>
      have digit : c.isDigit = true := by simpa [Lexer.startsNumber] using starts
      rw [digit, Bool.true_or]
    | cons d tail => exact starts
  rw [List.cons_append] at reach
  unfold Lexer.first
  simp only [space, dash, letter, double, single, started, reach, Bool.false_and, Bool.false_eq_true,
    if_false, if_true, List.length_cons, Nat.add_sub_cancel]

theorem spells_number {k : Kind} {text : String} (h : Lexer.IsNumber k text.toList)
    (number : k.isNumber = true) : Spells v text [(k, text)] := by
  intro after sep
  rw [← String.ofList_toList (s := text)]
  generalize text.toList = cs at *
  cases cs with
  | nil => cases h.1
  | cons c rest =>
    have plain : k.isTrivia = false ∧ k.isFault = false ∧ k.isKeyword = false := by
      cases k <;> first | exact ⟨rfl, rfl, rfl⟩ | cases number
    have := scan_first (v := v) rest after (first_number h sep) plain.1 plain.2.1
    rw [settle_of_not_keyword plain.2.2] at this
    simpa using this

end Grammar

end SkyQuery
