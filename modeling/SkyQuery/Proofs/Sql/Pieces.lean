import SkyQuery.Proofs.RoundTrip.Spelling
import SkyQuery.Proofs.RoundTrip.Values
import SkyQuery.Proofs.Sql.Tidy
import SkyQuery.Proofs.Sql.Exact

/-!
# Tidy pieces of queries

Names, literals, types and lists are tidy texts, and what is written of tidy pieces by a function that
may fail (`Writes`) is tidy where it is written.
-/

namespace SkyQuery.Sql

open Lexer

variable {v : Version} {track : Bool} {a b : String} {qs rs : List Quote}

/-! ### Texts that may be missing -/

/-- Whatever `x` gives has the property `P`. -/
def Gives {α : Type} (x : Except Inexpressible α) (P : α → Prop) : Prop := ∀ a, x = .ok a → P a

/-- The text that `x` gives, if any, is tidy and quotes `qs`. -/
abbrev Writes (track : Bool) (x : SqlText) (qs : List Quote) : Prop := Gives x (Tidy track · 0 qs)

section Gives

variable {α β : Type} {x : Except Inexpressible α} {f : α → Except Inexpressible β} {P : α → Prop} {Q : β → Prop}

theorem gives_ok {a : α} (h : P a) : Gives (.ok a) P := by
  rintro b ⟨⟩
  exact h

theorem gives_unsupported {P : String → Prop} (what : String) : Gives (unsupported what) P := by
  rintro b ⟨⟩

theorem Gives.bind (h : Gives x P) (hf : ∀ a, P a → Gives (f a) Q) : Gives (x >>= f) Q := by
  cases x with
  | error e => rintro b ⟨⟩
  | ok a => exact hf a (h a rfl)

end Gives

theorem Writes.between {x : SqlText} (h : Writes track x qs) (l : String) (o : Nat) (r : String)
    (opens : isTidy l 0 o ∧ leads l) (closes : isTidy r o 0 ∧ parts r) :
    Writes track (do let text ← x; return l ++ text ++ r) qs :=
  h.bind fun _ tidy => gives_ok (tidy.between l o r opens closes)

/-! ### Single tokens -/

/-- The kinds that are safe and no parentheses. -/
def isPlain (k : Kind) : Bool := !k.isUnsafe && k != .leftParen && k != .rightParen

/-- A token before a tidy text. -/
theorem Tidy.token {k : Kind} {text : String} (hb : Tidy track b 0 qs)
    (seen : visible a.toList = (k, text) :: visible b.toList) (plain : isPlain k = true) :
    Tidy track a 0 ((Quote.ofWord? (k, text)).toList ++ qs) := by
  simp only [isPlain, Bool.and_eq_true, Bool.not_eq_true', bne_iff_ne, ne_eq] at plain
  obtain ⟨⟨safe, notOpen⟩, notClose⟩ := plain
  have through (ks : List Kind) : openAfter 0 (k :: ks) = openAfter 0 ks := by
    rw [openAfter, Kind.nest, if_neg notOpen, if_neg notClose, Option.bind_some]
  refine ⟨by simpa [seen, safe] using hb.safe, by simpa [seen, through] using hb.nests, fun tracked => ?_⟩
  rw [seen, ← hb.quotes tracked, List.filterMap_cons]
  cases Quote.ofWord? (k, text) <;> rfl

theorem tidy_token {k : Kind} {text : String} (seen : visible a.toList = [(k, text)]) (plain : isPlain k = true) :
    Tidy track a 0 (Quote.ofWord? (k, text)).toList := by
  have whole : Tidy track a 0 _ := tidy_empty.token (by simpa [visible_nil] using seen) plain
  rwa [List.append_nil] at whole

theorem tidy_string (value : String) : Tidy track (Text.quoted '\'' value) 0 [.string value] := by
  have seen : visible (Text.quoted '\'' value).toList = [(.string, Text.quoted '\'' value)] := by
    have alone := visible_first (Text.doubled '\'' value.toList ++ ['\'']) []
      (by simpa using @Grammar.first_string value.toList [] (by simp)) (by decide)
    simpa [Text.quoted, visible_nil] using alone
  have tidy : Tidy track (Text.quoted '\'' value) 0 _ := tidy_token seen rfl
  simpa [Quote.ofWord?, Grammar.unquote_quoted] using tidy

theorem tidy_number {k : Kind} {text : String} (number : k.isNumber = true) (whole : IsNumber k text.toList) :
    Tidy track text 0 [] := by
  have plain : isPlain k = true ∧ k ≠ .blank ∧ Quote.ofWord? (k, text) = none := by
    cases k <;> first | cases number; done | exact ⟨rfl, by simp, rfl⟩
  have seen : visible text.toList = [(k, text)] := by
    cases chars : text.toList with
    | nil =>
      rw [chars] at whole
      cases whole.1
    | cons c rest =>
      rw [chars] at whole
      have alone := visible_first rest [] (Grammar.first_number whole separates_nil) plain.2.1
      rwa [List.append_nil, visible_nil, ← chars, String.ofList_toList, chars] at alone
  have tidy : Tidy track text 0 _ := tidy_token seen plain.1
  simpa [plain.2.2] using tidy

theorem tidy_nat (n : Nat) : Tidy track (toString n) 0 [] := tidy_number rfl (Grammar.isNumber_toString n)

theorem tidy_castType (target : CastType) : Tidy track target.render 0 [] := by
  cases target with
  | char length =>
    cases length with
    | none => exact tidy_literal "CHAR" (by decide)
    | some n => exact (tidy_nat n).between "CHAR(" 1 ")" (by decide) (by decide)
  | varChar length =>
    cases length with
    | none => exact tidy_literal "VARCHAR" (by decide)
    | some n => exact (tidy_nat n).between "VARCHAR(" 1 ")" (by decide) (by decide)
  | _ => exact tidy_literal _ (by decide)

/-! ### Names -/

theorem wordKind_plain (word : List Char) :
    isPlain (wordKind word) = true ∧ wordKind word ≠ .blank ∧ ∀ text, Quote.ofWord? (wordKind word, text) = none := by
  unfold wordKind
  split <;> exact ⟨rfl, by simp, fun _ => rfl⟩

theorem visible_word {word after : List Char} (h : Text.isWord word = true)
    (ends : ∀ c ∈ after.head?, Text.isWordChar c = false) :
    visible (word ++ after) = (wordKind word, String.ofList word) :: visible after := by
  cases word with
  | nil => cases h
  | cons c rest => exact visible_first rest after (Grammar.first_word h ends) (wordKind_plain _).2.1

theorem tidy_word {text : String} (h : Text.isWord text.toList = true) : Tidy track text 0 [] := by
  obtain ⟨plain, -, none⟩ := wordKind_plain text.toList
  have alone : visible (text.toList ++ []) = _ := visible_word h (by simp)
  rw [List.append_nil, visible_nil, String.ofList_toList] at alone
  have tidy : Tidy track text 0 _ := tidy_token alone plain
  simpa [none] using tidy

/-- The kind of a name as a token. -/
def nameKind (i : Identifier) : Kind := if i.delimited then .quotedIdent else wordKind i.name.toList

theorem nameKind_plain (i : Identifier) : isPlain (nameKind i) = true := by
  unfold nameKind
  split
  · rfl
  · exact (wordKind_plain _).1

theorem quotes_of_name {i : Identifier} (h : i.WellFormed v) : (Quote.ofWord? (nameKind i, i.render)).toList = i.quotes := by
  have read := Grammar.Parse.ofText_render h
  unfold nameKind Identifier.quotes
  split
  · rw [Quote.ofWord?, read, Option.toList_some]
  · rw [(wordKind_plain _).2.2, Option.toList_none]

theorem visible_identifier {i : Identifier} (h : i.WellFormed v) {after : List Char}
    (ends : ∀ c ∈ after.head?, Text.isWordChar c = false ∧ c ≠ '"') :
    visible (i.render.toList ++ after) = (nameKind i, i.render) :: visible after := by
  obtain ⟨name, delimited⟩ := i
  cases delimited with
  | true =>
    have seen := visible_first (Text.doubled '"' name.toList ++ ['"']) after
      (by simpa using Grammar.first_quotedIdent name.toList fun c found => (ends c found).2) (by decide)
    simpa [Identifier.render, nameKind, Text.quoted] using seen
  | false =>
    have regular : Reserved.isRegular v name = true := h.resolve_left Bool.false_ne_true
    simp only [Reserved.isRegular, Bool.and_eq_true] at regular
    have seen := visible_word regular.1 fun c found => (ends c found).1
    simpa [Identifier.render, nameKind] using seen

theorem tidy_identifier {i : Identifier} (h : i.WellFormed v) : Tidy track i.render 0 i.quotes := by
  have alone : visible (i.render.toList ++ []) = _ := visible_identifier h (by simp)
  rw [List.append_nil, visible_nil] at alone
  rw [← quotes_of_name h]
  exact tidy_token alone (nameKind_plain i)

/-- A text behind names, each with a point. -/
def qualified (qualifiers : List Identifier) (last : String) : String :=
  qualifiers.foldr (fun i text => i.render ++ ("." ++ text)) last

theorem qualified_head {qualifiers : List Identifier} (h : ∀ i ∈ qualifiers, i.WellFormed v)
    (starts : ∀ c ∈ a.toList.head?, c.isDigit = false) :
    ∀ c ∈ (qualified qualifiers a).toList.head?, c.isDigit = false := by
  cases qualifiers with
  | nil => exact starts
  | cons i rest =>
    rw [qualified, List.foldr_cons, String.toList_append]
    exact Grammar.identifier_head (h i List.mem_cons_self) _

theorem tidy_qualified {qualifiers : List Identifier} (h : ∀ i ∈ qualifiers, i.WellFormed v)
    (ha : Tidy track a 0 qs) (starts : ∀ c ∈ a.toList.head?, c.isDigit = false) :
    Tidy track (qualified qualifiers a) 0 (qualifiers.flatMap Identifier.quotes ++ qs) := by
  induction qualifiers with
  | nil => exact ha
  | cons i rest ih =>
    obtain ⟨here, others⟩ := List.forall_mem_cons.1 h
    have point : Tidy track ("." ++ qualified rest a) 0 (rest.flatMap Identifier.quotes ++ qs) := by
      have seen : visible ("." ++ qualified rest a).toList = (.dot, ".") :: visible (qualified rest a).toList := by
        rw [String.toList_append]
        exact visible_first [] _ (Grammar.first_dot (qualified_head others starts)) (by decide)
      exact (ih others).token seen rfl
    have seen : visible (i.render ++ ("." ++ qualified rest a)).toList =
        (nameKind i, i.render) :: visible ("." ++ qualified rest a).toList := by
      rw [String.toList_append]
      refine visible_identifier here fun c found => ?_
      rw [String.toList_append] at found
      obtain rfl := Option.some.inj found
      decide
    have whole := point.token seen (nameKind_plain i)
    rw [quotes_of_name here, ← List.append_assoc] at whole
    exact whole

theorem identifier_head {i : Identifier} (h : i.WellFormed v) : ∀ c ∈ i.render.toList.head?, c.isDigit = false := by
  have head := Grammar.identifier_head h []
  rwa [List.append_nil] at head

theorem tidy_tableName {t : TableName} (h : t.WellFormed v) :
    Tidy track (qualified (t.catalog.toList ++ t.schema.toList) t.table.render) 0 t.quotes := by
  obtain ⟨table, schema, catalog, -⟩ := h
  have qualifiers : ∀ i ∈ t.catalog.toList ++ t.schema.toList, i.WellFormed v := by
    simpa [or_imp, forall_and] using ⟨catalog, schema⟩
  have tidy : Tidy track _ 0 _ := tidy_qualified qualifiers (tidy_identifier table) (identifier_head table)
  simpa [TableName.quotes, TableName.parts] using tidy

/-! ### Calls and signs -/

theorem Tidy.call {name : String} (hname : Tidy track name 0 qs) (ha : Tidy track a 0 rs) :
    Tidy track (name ++ "(" ++ a ++ ")") 0 (qs ++ rs) := ((hname.link "(" 1 (by decide)).text ha).close ")" 0 (by decide)

theorem tidy_negated (ha : Tidy track a 0 qs) : Tidy track (Dialect.negated a) 0 qs := by
  unfold Dialect.negated
  split
  · exact ha.between "-(" 1 ")" (by decide) (by decide)
  · rename_i other
    have alone : a.toList.head? ≠ some '-' := by
      intro found
      obtain ⟨rest, chars⟩ := List.head?_eq_some_iff.1 found
      exact other rest chars
    have seen : visible ("-" ++ a).toList = (.minus, "-") :: visible a.toList := by
      rw [String.toList_append]
      exact visible_first [] a.toList (Grammar.first_minus alone) (by decide)
    exact ha.token seen rfl

/-! ### Lists -/

section Lists

variable {α : Type} {l : List α} {f : α → SqlText} {g : α → List Quote} {texts : List String}

theorem tidy_joined {separator : String} (ready : ∀ {a qs}, Tidy track a 0 qs → Ready track (a ++ separator) 0 qs)
    (h : List.Forall₂ (fun a text => Tidy track text 0 (g a)) l texts) :
    Tidy track (joinWith separator texts) 0 (l.flatMap g) := by
  unfold joinWith
  induction h with
  | nil => exact tidy_empty
  | @cons a text l texts here others ih =>
    cases others with
    | nil =>
      rw [String.intercalate_singleton, List.flatMap_singleton]
      exact here
    | cons next others =>
      rw [String.intercalate_cons_cons, List.flatMap_cons]
      exact (ready here).text ih

theorem tidy_commaList (h : List.Forall₂ (fun a text => Tidy track text 0 (g a)) l texts) :
    Tidy track (commaList texts) 0 (l.flatMap g) := tidy_joined (fun tidy => tidy.link ", " 0 (by decide)) h

/-- What holds of each text that there is of some things holds of all their texts. -/
theorem gives_sequence {P : α → String → Prop} (h : ∀ a ∈ l, Gives (f a) (P a)) :
    Gives (Dialect.sequence (l.map f)) (List.Forall₂ P l) := by
  induction l with
  | nil => exact gives_ok .nil
  | cons a l ih =>
    obtain ⟨here, others⟩ := List.forall_mem_cons.1 h
    exact here.bind fun text first => (ih others).bind fun texts rest => gives_ok (.cons first rest)

theorem writes_commas (h : ∀ a ∈ l, Writes track (f a) (g a)) : Writes track (Dialect.commas (l.map f)) (l.flatMap g) := by
  rw [Dialect.commas]
  intro text written
  cases listed : Dialect.sequence (l.map f) with
  | error e =>
    rw [listed] at written
    cases written
  | ok texts =>
    rw [listed] at written
    obtain rfl := Except.ok.inj written
    exact tidy_commaList (gives_sequence h texts listed)

end Lists

end SkyQuery.Sql
