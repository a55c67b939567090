import SkyQuery.Proofs.Text.Numbers
import SkyQuery.Proofs.Tree.Words

/-!
# The printer spells words

`Operand.spells`: what the printer writes for a well-formed expression is cut into the words of the
expression, before any separator. Names, literals and lists come first.
-/

namespace SkyQuery

open Grammar

variable {v : Version}

namespace Grammar

/-! ### Punctuation -/

/-- Texts are compared once, apart from the words they are cut into. -/
theorem Spells.as {b : String} (h : Spells v a ws) (text : b = a) : Spells v b ws := text ▸ h

theorem Opens.as {b : String} (h : Opens v a ws) (text : b = a) : Opens v b ws := text ▸ h

/-- A piece of text that ends what precedes it, and contributes the words `ws` whatever follows. -/
def Starts (v : Version) (text : String) (ws : List Word) : Prop := Parts text ∧ Opens v text ws

theorem Starts.as {b : String} (h : Starts v a ws) (text : b = a) : Starts v b ws := text ▸ h

theorem Starts.open {b : String} {us : List Word} (h : Starts v a ws) (hb : Opens v b us) :
    Starts v (a ++ b) (ws ++ us) := ⟨h.1.append b, h.2.open hb⟩

theorem Spells.start {b : String} {us : List Word} (h : Spells v a ws) (hb : Starts v b us) :
    Opens v (a ++ b) (ws ++ us) := h.link hb.1 hb.2

theorem starts_space : Starts v " " [] := ⟨parts_space, opens_space⟩

theorem starts_newline : Starts v "\n" [] := ⟨parts_newline, opens_newline⟩

theorem starts_open : Starts v "(" [openWord] := ⟨parts_open, opens_symbol '(' .leftParen (by decide)⟩

theorem starts_close : Starts v ")" [closeWord] := ⟨parts_close, opens_symbol ')' .rightParen (by decide)⟩

theorem starts_comma : Starts v ", " [commaWord] := by
  have comma : Starts v "," [commaWord] := ⟨parts_comma, opens_symbol ',' .comma (by decide)⟩
  exact (comma.open opens_space).as rfl

theorem starts_concat : Starts v " || " [(.concat, "||")] := by
  have bars : Opens v "||" [(.concat, "||")] := by
    intro after
    have := scan_first (v := v) (c := '|') ['|'] after rfl rfl rfl
    rw [settle_of_not_keyword rfl] at this
    exact this
  exact ((starts_space.open bars).open opens_space).as rfl

theorem opens_star : Opens v "*" [(.star, "*")] := opens_symbol '*' .star (by decide)

theorem Spells.space (h : Spells v a ws) : Opens v (a ++ " ") ws :=
  (h.start starts_space).congr (List.append_nil ws)

theorem Spells.newline (h : Spells v a ws) : Opens v (a ++ "\n") ws :=
  (h.start starts_newline).congr (List.append_nil ws)

theorem opens_keyword {k : Keyword} (h : k.availableIn v = true) :
    Opens v (k.text ++ " ") [keywordWord k] := (spells_keyword h).space

theorem starts_word {k : Keyword} (h : k.availableIn v = true) :
    Starts v (" " ++ (k.text ++ " ")) [keywordWord k] := starts_space.open (opens_keyword h)

theorem starts_line {k : Keyword} (h : k.availableIn v = true) :
    Starts v ("\n" ++ (k.text ++ " ")) [keywordWord k] := starts_newline.open (opens_keyword h)

theorem opens_textIf (condition : Bool) {text : String} {ws : List Word} (h : Opens v text ws) :
    Opens v (textIf condition text) (wordsIf condition ws) := by
  cases condition
  · exact opens_empty
  · exact h

theorem Spells.parens {text : String} {ws : List Word} (h : Spells v text ws) :
    Opens v ("(" ++ text ++ ")") (openWord :: (ws ++ [closeWord])) :=
  (starts_open.2.spell h).start starts_close

theorem Spells.call {name text : String} {word : Word} {ws : List Word} (hname : Spells v name [word])
    (h : Spells v text ws) : Opens v (name ++ "(" ++ text ++ ")") (callWords word ws) :=
  (((hname.start starts_open).spell h).start starts_close).congr (by simp [callWords])

/-! ### Lists -/

theorem joined_cons_cons (sep : Word) (ws us : List Word) (rest : List (List Word)) :
    joined sep (ws :: us :: rest) = ws ++ [sep] ++ joined sep (us :: rest) := by
  simp [joined]

theorem spells_joined {α : Type} {separator : String} {sep : Word} {text : α → String}
    {words : α → List Word} (hsep : Starts v separator [sep]) (as : List α)
    (h : ∀ a ∈ as, Spells v (text a) (words a)) :
    Spells v (joinWith separator (as.map text)) (joined sep (as.map words)) := by
  unfold joinWith
  induction as with
  | nil => exact opens_empty.spells
  | cons a rest ih =>
    obtain ⟨first, others⟩ := List.forall_mem_cons.1 h
    cases rest with
    | nil => simpa [joined] using first
    | cons b rest =>
      rw [List.map_cons, List.map_cons, String.intercalate_cons_cons, List.map_cons, List.map_cons,
        joined_cons_cons]
      exact (first.start hsep).spell (ih others)

theorem spells_commaList {α : Type} {text : α → String} {words : α → List Word} (as : List α)
    (h : ∀ a ∈ as, Spells v (text a) (words a)) :
    Spells v (commaList (as.map text)) (joined commaWord (as.map words)) :=
  spells_joined starts_comma as h

/-! ### Names -/

theorem scan_identifier {i : Identifier} (h : i.WellFormed v) {after : List Char}
    (ends : ∀ c ∈ after.head?, Text.isWordChar c = false ∧ c ≠ '"') :
    scan v (i.render.toList ++ after) = (scan v after).map (i.word :: ·) := by
  obtain ⟨name, delimited⟩ := i
  cases delimited with
  | true => exact scan_quotedIdent name fun c hc => (ends c hc).2
  | false =>
    have regular : Reserved.isRegular v name = true := h.resolve_left Bool.false_ne_true
    have word : Text.isWord name.toList = true := by
      simp only [Reserved.isRegular, Bool.and_eq_true] at regular
      exact regular.1
    have := scan_word (v := v) word fun c hc => (ends c hc).1
    rw [settle_wordKind_of_isRegular regular, String.ofList_toList] at this
    exact this

theorem spells_identifier {i : Identifier} (h : i.WellFormed v) : Spells v i.render [i.word] := by
  intro after sep
  refine scan_identifier h fun c hc => ⟨not_isWordChar_of_separates sep c hc, ?_⟩
  rcases sep c hc with rfl | rfl | rfl | rfl | rfl <;> decide

/-- A name starts with no digit, so that a point before it is a token of its own. -/
theorem identifier_head {i : Identifier} (h : i.WellFormed v) (after : List Char) :
    ∀ c ∈ (i.render.toList ++ after).head?, c.isDigit = false := by
  intro c hc
  obtain ⟨name, delimited⟩ := i
  cases delimited with
  | true =>
    simp [Identifier.render, Text.quoted] at hc
    subst hc
    rfl
  | false =>
    have regular : Reserved.isRegular v name = true := h.resolve_left Bool.false_ne_true
    simp only [Reserved.isRegular, Bool.and_eq_true] at regular
    have word := regular.1
    simp only [Identifier.render, Bool.false_eq_true, if_false] at hc
    cases hname : name.toList with
    | nil => rw [hname] at word; cases word
    | cons d rest =>
      rw [hname] at word hc
      simp only [List.cons_append, List.head?_cons, Option.mem_def, Option.some.injEq] at hc
      subst hc
      simp only [Text.isWord, Bool.and_eq_true] at word
      cases digit : d.isDigit with
      | false => rfl
      | true => rw [isLetter_of_isDigit digit] at word; cases word.1

/-- A name with its point before what starts with no digit. -/
theorem scan_qualifier {i : Identifier} (h : i.WellFormed v) {after : List Char}
    (starts : ∀ c ∈ after.head?, c.isDigit = false) :
    scan v (i.render.toList ++ '.' :: after) = (scan v after).map ([i.word, dotWord] ++ ·) := by
  rw [scan_identifier h fun c hc => by cases hc; exact ⟨rfl, by decide⟩, scan_dot starts, Option.map_map]
  rfl

theorem spells_dotted (parts : List Identifier) (h : ∀ i ∈ parts, i.WellFormed v) :
    Spells v (joinWith "." (parts.map Identifier.render)) (dottedWords parts) := by
  unfold joinWith dottedWords
  induction parts with
  | nil => exact opens_empty.spells
  | cons i rest ih =>
    obtain ⟨first, others⟩ := List.forall_mem_cons.1 h
    cases rest with
    | nil => simpa [joined] using spells_identifier first
    | cons j rest =>
      obtain ⟨second, _⟩ := List.forall_mem_cons.1 others
      rw [List.map_cons, List.map_cons, String.intercalate_cons_cons, List.map_cons, List.map_cons,
        joined_cons_cons]
      intro after sep
      have starts : ∀ c ∈ ((String.intercalate "." (j.render :: rest.map Identifier.render)).toList ++
          after).head?, c.isDigit = false := by
        cases rest with
        | nil => simpa using identifier_head second after
        | cons k rest =>
          rw [List.map_cons, String.intercalate_cons_cons, String.toList_append, String.toList_append,
            List.append_assoc, List.append_assoc]
          exact identifier_head second _
      rw [String.toList_append, String.toList_append, List.append_assoc, List.append_assoc,
        show ".".toList = ['.'] from rfl, List.singleton_append]
      have tail := ih others after sep
      rw [List.map_cons] at tail
      rw [scan_qualifier first starts, tail, Option.map_map]
      rfl

theorem tableName_render (t : TableName) (h : t.catalog.isSome → t.schema.isSome) :
    t.render = joinWith "." (t.parts.map Identifier.render) := by
  obtain ⟨catalog, schema, table⟩ := t
  cases catalog <;> cases schema <;>
    simp_all [TableName.render, TableName.renderPart, TableName.parts, joinWith, String.append_assoc]

theorem columnRef_render (c : ColumnRef) (h : ∀ t ∈ c.table, t.catalog.isSome → t.schema.isSome) :
    c.render = joinWith "." (c.parts.map Identifier.render) := by
  obtain ⟨table, column⟩ := c
  cases table with
  | none => simp [ColumnRef.render, ColumnRef.parts, joinWith]
  | some t =>
    have nonempty : t.parts.map Identifier.render ≠ [] := by simp [TableName.parts]
    simp only [ColumnRef.render, ColumnRef.parts, Option.map_some, Option.getD_some, List.map_append,
      List.map_cons, List.map_nil, tableName_render t (h t rfl), joinWith]
    rw [String.intercalate_append_of_ne_nil nonempty (by simp), String.intercalate_singleton]

theorem spells_tableName {t : TableName} (h : t.WellFormed v) : Spells v t.render (dottedWords t.parts) := by
  rw [tableName_render t h.2.2.2]
  exact spells_dotted _ h.parts

theorem spells_columnRef {c : ColumnRef} (h : c.WellFormed v) : Spells v c.render (dottedWords c.parts) := by
  rw [columnRef_render c fun t ht => (h.2 t ht).2.2.2]
  exact spells_dotted _ h.parts

/-! ### Numbers, types and signs -/

theorem isNumber_toString (n : Nat) : Lexer.IsNumber .integer (toString n).toList := by
  obtain ⟨nonempty, digits⟩ := Text.digits_toString n
  generalize (toString n).toList = cs at digits nonempty
  have whole : Lexer.run Char.isDigit cs = cs.length := Lexer.run_eq_length digits
  have mantissa : Lexer.mantissa cs = (.integer, cs.length) := by simp [Lexer.mantissa, whole]
  constructor
  · cases cs with
    | nil => exact absurd rfl nonempty
    | cons c rest => simp [Lexer.startsNumber, digits c List.mem_cons_self]
  · rw [Lexer.number_eq, mantissa]
    simp [Lexer.exponent]

theorem spells_nat (n : Nat) : Spells v (toString n) [numberWord n] :=
  spells_number (isNumber_toString n) rfl

theorem spells_plainWord {text : String} (word : Text.isWord text.toList = true)
    (plain : Lexer.wordKind text.toList = .ident) : Spells v text [plainWord text] := by
  have := spells_word (v := v) word
  rw [plain] at this
  exact this

/-- The words of type names are no keywords. -/
theorem spells_castType (target : CastType) : Spells v target.render target.words := by
  have plain : ∀ text ∈ ["SMALLINT", "INTEGER", "BIGINT", "REAL", "DOUBLE", "PRECISION", "TIMESTAMP",
      "CHAR", "VARCHAR"], Spells v text [plainWord text] := by
    intro text member
    refine spells_plainWord ?_ ?_
    · revert text
      decide
    · revert text
      decide +kernel
  have sized (text : String) (member : Spells v text [plainWord text]) (n : Nat) :
      Spells v (text ++ "(" ++ toString n ++ ")") [plainWord text, openWord, numberWord n, closeWord] :=
    (member.call (spells_nat n)).spells
  cases target with
  | char length =>
    cases length with
    | none => exact plain _ (by decide)
    | some n => exact sized "CHAR" (plain _ (by decide)) n
  | varChar length =>
    cases length with
    | none => exact plain _ (by decide)
    | some n => exact sized "VARCHAR" (plain _ (by decide)) n
  | doublePrecision =>
    exact ((plain "DOUBLE" (by decide)).space.spell (plain "PRECISION" (by decide))).as rfl
  | _ => exact plain _ (by decide)

theorem spells_minus : Spells v "-" [(.minus, "-")] := by
  intro after sep
  refine scan_minus fun h => ?_
  rcases sep '-' h with h | h | h | h | h <;> cases h

theorem spells_arithOp (op : ArithOp) : Spells v op.symbol [op.word] := by
  cases op with
  | add => exact (opens_symbol '+' .plus (by decide)).spells
  | sub => exact spells_minus
  | mul => exact opens_star.spells
  | div => exact (opens_symbol '/' .slash (by decide)).spells

theorem spells_negated {text : String} {ws : List Word} (h : Spells v text ws) :
    Spells v (negated text) ((.minus, "-") :: ws) := by
  unfold negated
  split
  · exact spells_minus.space.spell h
  · rename_i other
    intro after sep
    have apart : (text.toList ++ after).head? ≠ some '-' := by
      cases htext : text.toList with
      | nil =>
        intro head
        rcases sep '-' head with h | h | h | h | h <;> cases h
      | cons c rest =>
        rw [htext] at other
        intro head
        cases head
        exact other rest rfl
    rw [String.toList_append, List.append_assoc]
    change scan v ('-' :: (text.toList ++ after)) = _
    rw [scan_minus apart, h after sep, Option.map_map]
    rfl

theorem opens_distinct : Opens v "DISTINCT " [keywordWord .distinctKw] :=
  (opens_keyword (k := .distinctKw) rfl).as rfl

end Grammar

/-! ### Expressions -/

theorem Operand.spellsAll (os : List Operand) (h : ∀ o ∈ os, Spells v o.render o.words) :
    Spells v (commaList (Operand.renderAll os)) (joined commaWord (Operand.allWords os)) := by
  rw [renderAll_eq_map, allWords_eq_map]
  exact spells_commaList os h

theorem Operand.spells {o : Operand} (h : o.WellFormed v) : Spells v o.render o.words := by
  induction h with
  | @intro o rule parts ih =>
    -- Constructor by constructor, as the printer puts the texts of the parts together.
    cases o with
    | numeric text span =>
      obtain ⟨k, number, whole⟩ := rule
      simpa only [render, words, whole.2] using spells_number whole number
    | string value span => exact spells_string value
    | column ref span => exact spells_columnRef rule
    | negative inner span => exact spells_negated (ih inner List.mem_cons_self)
    | operation left op right span =>
      have hl := ih left (by simp [children])
      have hr := ih right (by simp [children])
      exact ((hl.space.spell (spells_arithOp op)).space.spell hr).congr (by simp [words])
    | concatenation parts span =>
      rw [render, words, renderAll_eq_map, allWords_eq_map]
      exact spells_joined starts_concat _ ih
    | wrapped inner span => exact (ih inner List.mem_cons_self).parens.spells
    | math fn args span => exact ((spells_keyword (k := .math fn) rfl).call (spellsAll _ ih)).spells
    | aggregate fn distinct arg span =>
      have name : Spells v fn.name [keywordWord (.aggregate fn)] := spells_keyword (k := .aggregate fn) rfl
      have quantifier := opens_textIf distinct (opens_distinct (v := v))
      cases arg with
      | none =>
        have := (name.call (quantifier.spell opens_star.spells)).spells
        simpa only [render, words, String.append_assoc] using this
      | some arg =>
        have := (name.call (quantifier.spell (ih arg List.mem_cons_self))).spells
        simpa only [render, words, String.append_assoc] using this
    | geometry fn sys args span =>
      have name : Spells v fn.name [keywordWord (.geometry fn)] := spells_keyword rule.1
      cases sys with
      | none => exact (name.call (spellsAll _ ih)).spells
      | some sys => exact (name.call (spellsAll (sys :: args) ih)).spells
    | lower value span =>
      obtain ⟨rfl, -⟩ := rule
      exact ((spells_keyword (k := .lowerKw) rfl).call (ih value List.mem_cons_self)).spells
    | upper value span =>
      obtain ⟨rfl, -⟩ := rule
      exact ((spells_keyword (k := .upperKw) rfl).call (ih value List.mem_cons_self)).spells
    | coalesce args span =>
      obtain ⟨rfl, -⟩ := rule
      exact ((spells_keyword (k := .coalesceKw) rfl).call (spellsAll _ ih)).spells
    | inUnit value unit span =>
      obtain ⟨rfl, -⟩ := rule
      have hv := ih value (by simp [children])
      have hu := ih unit (by simp [children])
      have inside := (hv.start starts_comma).spell hu
      have call : Spells .v21 ("IN_UNIT(" ++ (value.render ++ ", " ++ unit.render) ++ ")") _ :=
        ((spells_keyword (k := .inUnitKw) rfl).call inside).spells
      simpa only [render, words, String.append_assoc, List.append_assoc, List.singleton_append] using call
    | cast value target span =>
      obtain ⟨rfl, -⟩ := rule
      have hv := ih value List.mem_cons_self
      have as_ : Starts .v21 " AS " [keywordWord .asKw] := (starts_word (k := .asKw) rfl).as rfl
      have inside := (hv.start as_).spell (spells_castType target)
      have call : Spells .v21 ("CAST(" ++ (value.render ++ " AS " ++ target.render) ++ ")") _ :=
        ((spells_keyword (k := .castKw) rfl).call inside).spells
      simpa only [render, words, String.append_assoc, List.append_assoc, List.singleton_append] using call
    | userDefined name args span => exact ((spells_identifier rule.2).call (spellsAll _ ih)).spells

end SkyQuery
