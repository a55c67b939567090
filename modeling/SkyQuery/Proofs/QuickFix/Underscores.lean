import SkyQuery.Proofs.QuickFix.Mended
import SkyQuery.Proofs.RoundTrip.Texts
import SkyQuery.Proofs.Text.Words

/-!
# Names that begin with an underscore

A quick fix puts such a name between quotes as a whole unless a number with an exponent is read in it, which
is no part of a name (`fix_underscore_iff`). Between quotes the name is read as that of a column.
-/

namespace SkyQuery

namespace QuickFix

open Grammar Lexer

variable {v : Version} {c d e : Char} {cs rest after : List Char}

/-- A word in which an E stands between two digits before any other letter. -/
inductive HasExponent : List Char → Prop where
  | here {d e d' : Char} {rest : List Char} (digit : d.isDigit = true) (letter : e = 'e' ∨ e = 'E')
    (digit' : d'.isDigit = true) : HasExponent (d :: e :: d' :: rest)
  | later {c : Char} {rest : List Char} (other : Text.isLetter c = false) (h : HasExponent rest) : HasExponent (c :: rest)

/-- An E and a digit, as they stand in a number after its digits. -/
def StartsExponent (cs : List Char) : Prop := ∃ e d rest, cs = e :: d :: rest ∧ (e = 'e' ∨ e = 'E') ∧ d.isDigit = true

theorem hasExponent_digits {digits : List Char} (nonempty : digits ≠ []) (all : ∀ d ∈ digits, d.isDigit = true) :
    HasExponent (digits ++ rest) ↔ StartsExponent rest ∨ HasExponent rest := by
  induction digits with
  | nil => exact absurd rfl nonempty
  | cons d digits ih =>
    obtain ⟨digit, all⟩ := List.forall_mem_cons.1 all
    have noLetter : Text.isLetter d = false := isLetter_of_isDigit digit
    cases digits with
    | nil =>
      rw [List.singleton_append]
      constructor
      · intro h
        cases h with
        | here _ letter digit' => exact .inl ⟨_, _, _, rfl, letter, digit'⟩
        | later _ h => exact .inr h
      · rintro (⟨e, d', others, rfl, letter, digit'⟩ | h)
        · exact .here digit letter digit'
        · exact .later noLetter h
    | cons d' digits =>
      have second := all d' List.mem_cons_self
      rw [← ih (List.cons_ne_nil _ _) all, List.cons_append]
      refine ⟨fun h => ?_, .later noLetter⟩
      generalize tail : d' :: digits ++ rest = others at h ⊢
      cases h with
      | here _ letter _ =>
        obtain ⟨rfl, -⟩ := List.cons.inj tail
        rcases letter with rfl | rfl <;> cases second
      | later _ h => exact h

/-! ### Word characters -/

section WordChars

variable (word : ∀ c ∈ cs, Text.isWordChar c = true)
include word

theorem sign_word (after : List Char) : sign (cs ++ ' ' :: after) = 0 := by
  cases cs with
  | nil => rfl
  | cons c cs =>
    have plus : c ≠ '+' := by
      rintro rfl
      cases word _ List.mem_cons_self
    have minus : c ≠ '-' := by
      rintro rfl
      cases word _ List.mem_cons_self
    simp [sign, plus, minus]

theorem exponent_word (after : List Char) : exponent (cs ++ ' ' :: after) ≠ 0 ↔ StartsExponent cs := by
  cases cs with
  | nil => simp [exponent, StartsExponent]
  | cons e cs =>
    have others := (List.forall_mem_cons.1 word).2
    have digits : exponentDigits (cs ++ ' ' :: after) = run Char.isDigit (cs ++ ' ' :: after) := by
      rw [exponentDigits, sign_word others, List.drop_zero]
    rw [List.cons_append, exponent_cons, sign_word others, digits]
    constructor
    · intro found
      split at found
      · rename_i letter
        cases cs with
        | nil => simp [run] at found
        | cons d cs =>
          refine ⟨e, d, cs, rfl, by simpa using letter, ?_⟩
          by_contra digit
          simp [run, digit] at found
      · exact absurd rfl found
    · rintro ⟨e', d, rest, eq, letter, digit⟩
      obtain ⟨rfl, rfl⟩ := List.cons.inj eq
      have letter : (e == 'e' || e == 'E') = true := by simpa using letter
      have some : run Char.isDigit (d :: rest ++ ' ' :: after) ≠ 0 := by simp [run, digit]
      rw [if_pos letter, if_neg some]
      omega

/-- Digits and what follows them in a word are a number, with an exponent if they go on with one. -/
theorem number_word {digits : List Char} (all : ∀ d ∈ digits, d.isDigit = true)
    (stops : ∀ d ∈ cs.head?, d.isDigit = false) (after : List Char) :
    number (digits ++ (cs ++ ' ' :: after)) = if exponent (cs ++ ' ' :: after) = 0 then (.integer, digits.length)
      else (.scientific, digits.length + exponent (cs ++ ' ' :: after)) := by
  have next : ∀ d ∈ (cs ++ ' ' :: after).head?, d.isDigit = false ∧ d ≠ '.' := by
    cases cs with
    | nil =>
      intro d space
      obtain rfl := Option.some.inj space
      decide
    | cons c cs =>
      intro d first
      obtain rfl := Option.some.inj first
      refine ⟨stops c rfl, ?_⟩
      rintro rfl
      cases word _ List.mem_cons_self
  have reach : run Char.isDigit (digits ++ (cs ++ ' ' :: after)) = digits.length := by
    rw [run_append fun d head => (next d head).1, run_eq_length all]
  have whole : mantissa (digits ++ (cs ++ ' ' :: after)) = (.integer, digits.length) := by
    unfold mantissa
    rw [reach, List.drop_left]
    split
    · rename_i point
      exact absurd rfl (next '.' (by rw [point]; rfl)).2
    · rfl
  rw [number_eq, whole, List.drop_left]

end WordChars

theorem first_of_isDigit (digit : c.isDigit = true) (rest : List Char) :
    first c rest = ((number (c :: rest)).1, (number (c :: rest)).2 - 1) := by
  have starts : startsNumber (c :: rest) = true := by simp [startsNumber, digit]
  obtain ⟨space, dash, letter, double, single⟩ := startsNumber_first starts
  simp [first, space, dash, letter, double, single, digit]

section Digits

variable {digits : List Char} (all : ∀ d ∈ c :: digits, d.isDigit = true) (word : ∀ c ∈ cs, Text.isWordChar c = true)
  (stops : ∀ d ∈ cs.head?, d.isDigit = false)
include all word stops

theorem cutName_exponent (more : StartsExponent cs) (after : List Char) :
    cutName (c :: (digits ++ (cs ++ ' ' :: after))) = ([], c :: (digits ++ (cs ++ ' ' :: after))) := by
  have digit := all c List.mem_cons_self
  have other : c ≠ '_' := by
    rintro rfl
    cases digit
  have literal := number_word word all stops after
  rw [if_neg ((exponent_word word after).2 more), List.cons_append] at literal
  have whole : startsPart c (digits ++ (cs ++ ' ' :: after)) = false := by
    simp [startsPart, first_of_isDigit digit, literal, other, Kind.isKeyword]
  rw [cutName, whole, if_neg Bool.false_ne_true]

theorem cutName_integer (alone : ¬StartsExponent cs) (after : List Char) :
    cutName (c :: (digits ++ (cs ++ ' ' :: after))) =
      (c :: digits ++ (cutName (cs ++ ' ' :: after)).1, (cutName (cs ++ ' ' :: after)).2) := by
  have digit := all c List.mem_cons_self
  have literal := number_word word all stops after
  rw [if_pos (not_ne_iff.1 (mt (exponent_word word after).1 alone)), List.cons_append] at literal
  have found : first c (digits ++ (cs ++ ' ' :: after)) = (.integer, digits.length) := by
    rw [first_of_isDigit digit, literal, List.length_cons, Nat.add_sub_cancel]
  exact cutName_first found rfl

end Digits

theorem cutName_space (after : List Char) : cutName (' ' :: after) = ([], ' ' :: after) := by
  have blank : startsPart ' ' after = false := by simp [startsPart, first, isSpace, Kind.isKeyword]
  rw [cutName, blank, if_neg Bool.false_ne_true]

theorem not_hasExponent_of_isLetter (letter : Text.isLetter c = true) : ¬HasExponent (c :: cs) := by
  intro h
  cases h with
  | here digit =>
    rw [isLetter_of_isDigit digit] at letter
    cases letter
  | later other =>
    rw [other] at letter
    cases letter

theorem hasExponent_underscore : HasExponent ('_' :: cs) ↔ HasExponent cs := by
  refine ⟨fun h => ?_, .later rfl⟩
  cases h with
  | here digit => cases digit
  | later _ h => exact h

/-- How much of a word is taken for parts of a name: all of it, or what stands before a number with an
exponent. -/
theorem cutName_word (word : ∀ c ∈ cs, Text.isWordChar c = true) (after : List Char) :
    ∃ a b, cs = a ++ b ∧ cutName (cs ++ ' ' :: after) = (a, b ++ ' ' :: after) ∧
      (¬HasExponent cs ∧ b = [] ∨ HasExponent cs ∧ ∃ d ∈ b.head?, d.isDigit = true) := by
  -- A number takes several characters at once, so the induction is on the length of the word.
  induction length : cs.length using Nat.strongRecOn generalizing cs with
  | _ n ih =>
    subst length
    cases cs with
    | nil => exact ⟨[], [], rfl, cutName_space after, .inl ⟨nofun, rfl⟩⟩
    | cons c cs =>
      obtain ⟨here, others⟩ := List.forall_mem_cons.1 word
      by_cases underscore : c = '_'
      · subst underscore
        obtain ⟨a, b, rfl, cut, parts⟩ := ih cs.length (Nat.lt_succ_self _) others rfl
        refine ⟨'_' :: a, b, rfl, ?_, by rwa [hasExponent_underscore]⟩
        rw [List.cons_append, cutName, if_pos (by rfl), first_underscore, List.take_zero, List.drop_zero, cut]
        rfl
      by_cases letter : Text.isLetter c = true
      · have name : Text.isWord (c :: cs) = true := by
          rw [Text.isWord, letter, Bool.true_and, List.all_eq_true]
          exact others
        have found : first c (cs ++ ' ' :: after) = (wordKind (c :: cs), cs.length) := first_word name (by simp; decide)
        refine ⟨c :: cs, [], (List.append_nil _).symm, ?_, .inl ⟨not_hasExponent_of_isLetter letter, rfl⟩⟩
        rw [List.cons_append, cutName_first found, cutName_space, List.append_nil, List.nil_append]
        unfold wordKind
        split <;> simp [Kind.isKeyword]
      have digit : c.isDigit = true := by
        have letter : c.isAlpha = false := Bool.eq_false_iff.2 letter
        simpa [Text.isWordChar, Char.isAlphanum, letter, underscore] using here
      obtain ⟨digits, rest, rfl, all, stops⟩ : ∃ digits rest, cs = digits ++ rest ∧
          (∀ d ∈ digits, d.isDigit = true) ∧ ∀ d ∈ rest.head?, d.isDigit = false :=
        ⟨cs.takeWhile Char.isDigit, cs.dropWhile Char.isDigit, List.takeWhile_append_dropWhile.symm,
          List.all_eq_true.1 List.all_takeWhile, drop_run (p := Char.isDigit) cs ▸ run_stops cs⟩
      have tail := (List.forall_mem_append.1 others).2
      have all : ∀ d ∈ c :: digits, d.isDigit = true := List.forall_mem_cons.2 ⟨digit, all⟩
      have started : HasExponent (c :: digits ++ rest) ↔ StartsExponent rest ∨ HasExponent rest :=
        hasExponent_digits (List.cons_ne_nil c digits) all
      rw [List.cons_append] at started
      -- Digits with an exponent behind them are one number with it, and no part of a name.
      by_cases more : StartsExponent rest
      · refine ⟨[], c :: (digits ++ rest), rfl, ?_, .inr ⟨started.2 (.inl more), c, rfl, digit⟩⟩
        rw [List.cons_append, List.append_assoc, cutName_exponent all tail stops more]
      · have shorter : rest.length < (c :: (digits ++ rest)).length := by
          simp only [List.length_cons, List.length_append]
          omega
        obtain ⟨a, b, rfl, cut, parts⟩ := ih rest.length shorter tail rfl
        refine ⟨c :: digits ++ a, b, by simp, ?_, ?_⟩
        · rw [List.cons_append, List.append_assoc, cutName_integer all tail stops more, cut]
        · rwa [started, or_iff_right more]

/-! ### The query -/

/-- The query for one column of a table. -/
def columnQuery (i : Identifier) : Query where
  withItems := []
  body := .select {
    clause := { distinct := false, top := none, items := [.expr (.column { column := i } none) none], span := none }
    source := [.table { table := ⟨"t", false⟩ } none none]
    filter := none
    groupBy := []
    having := none
    orderBy := []
    offset := none
    span := none }
  span := none

theorem isRegular_t (v : Version) : Reserved.isRegular v "t" = true := by cases v <;> decide +kernel

theorem wellFormed_columnQuery {i : Identifier} (h : i.WellFormed v) : (columnQuery i).WellFormed v := by
  have ref : ColumnRef.WellFormed v { column := i } := ⟨h, by nofun⟩
  have column : (Operand.column { column := i } none).WellFormed v := .intro ref (List.forall_mem_nil _)
  have clause : SelectClause.WellFormed v ⟨false, none, [.expr (.column { column := i } none) none], none⟩ :=
    ⟨by nofun, List.cons_ne_nil _ _, List.forall_mem_singleton.2 ⟨column, by nofun⟩⟩
  have table : TableName.WellFormed v { table := ⟨"t", false⟩ } := ⟨.inr (isRegular_t v), by nofun, by nofun, by nofun⟩
  exact ⟨by nofun, clause, List.cons_ne_nil _ _, ⟨⟨table, by nofun⟩, trivial⟩, trivial, by nofun, trivial, by nofun, by nofun⟩

theorem readQuery_column {i : Identifier} (h : i.WellFormed v) :
    ∃ q span, readQuery v ("SELECT " ++ i.render ++ " FROM t") = .ok q ∧
      q.resultClause.items = [.expr (.column { column := i } span) none] := by
  have name : Spells v "t" [(.ident, "t")] := spells_identifier (i := ⟨"t", false⟩) (.inr (isRegular_t v))
  have source : Starts v " FROM " [keywordWord .fromKw] := (starts_word (k := .fromKw) rfl).as rfl
  have select : Opens v "SELECT " [keywordWord .selectKw] := (opens_keyword (k := .selectKw) rfl).as rfl
  have spells : Spells v ("SELECT " ++ i.render ++ " FROM t") (columnQuery i).words := by
    have text : "SELECT " ++ i.render ++ " FROM t" = "SELECT " ++ i.render ++ " FROM " ++ "t" := by
      have joined : " FROM t" = " FROM " ++ "t" := rfl
      rw [joined, String.append_assoc, String.append_assoc, String.append_assoc]
    exact (((select.spell (spells_identifier h)).start source).spell name).as text
  obtain ⟨q, read, same⟩ := readWhole_reads spells (query_reads (wellFormed_columnQuery h) rfl)
  have items : q.resultClause.items.map SelectItem.unplaced = [.expr (.column { column := i } none) none] := by
    obtain ⟨withItems, body, span⟩ := q
    have shape : body.unplaced = (columnQuery i).body.unplaced := (Query.mk.inj same).2.1
    cases body with
    | set operation => cases shape
    | select query =>
      obtain ⟨clause, source, filter, groupBy, having, orderBy, offset, span'⟩ := query
      have same := (SelectQuery.mk.inj (QueryBody.select.inj shape)).1
      exact congrArg SelectClause.items same
  obtain ⟨span, items⟩ := SelectItem.column_of_unplaced items
  exact ⟨q, span, read, items⟩

/-! ### Names in a query -/

theorem plain_of_lt {c : Char} (ascii : c.toNat < 128) : plain c = some c := by
  unfold plain
  dsimp only
  rw [if_neg, if_neg, if_neg, if_neg, if_neg] <;> simp <;> omega

theorem mended_from (v : Version) : mended v (' ' :: "FROM t".toList) = ' ' :: "FROM t".toList := by
  cases v <;> decide +kernel

theorem mended_select (v : Version) (cs : List Char) : mended v ("SELECT ".toList ++ '_' :: cs) =
    "SELECT ".toList ++ '"' :: ('_' :: (cutName cs).1 ++ '"' :: mended v (cutName cs).2) := by
  have word : first 'S' ("ELECT".toList ++ ' ' :: '_' :: cs) = (.keyword .selectKw, "ELECT".toList.length) := by
    have found : first 'S' ("ELECT".toList ++ ' ' :: '_' :: cs) =
        (wordKind ('S' :: "ELECT".toList), "ELECT".toList.length) :=
      first_word (by decide) (by simp; decide)
    rw [found]
    decide +kernel
  have blank : first ' ' ('_' :: cs) = (.blank, 0) := by simp [first, isSpace, run]
  have after : mended v (' ' :: '_' :: cs) = ' ' :: mended v ('_' :: cs) := by
    have step : mended v (' ' :: ([] ++ '_' :: cs)) = _ := mended_first blank (by decide)
    rwa [if_neg (by simp [misused, settle, Kind.isKeyword])] at step
  have step := mended_first (v := v) word (by decide)
  rw [if_neg (by simp [misused, settle, Kind.isKeyword, Kind.availableIn, Keyword.availableIn, Keyword.isFunction]), after,
    mended_underscore] at step
  exact step

section Named

variable {w : String} (starts : w.toList = '_' :: cs) (word : ∀ c ∈ cs, Text.isWordChar c = true)
include starts word

theorem toList_fix (v : Version) : (fix v ("SELECT " ++ w ++ " FROM t")).toList =
    "SELECT ".toList ++ '"' :: ('_' :: (cutName (cs ++ ' ' :: "FROM t".toList)).1 ++
      '"' :: mended v (cutName (cs ++ ' ' :: "FROM t".toList)).2) := by
  have text : ("SELECT " ++ w ++ " FROM t").toList = "SELECT ".toList ++ '_' :: (cs ++ ' ' :: "FROM t".toList) := by
    rw [String.toList_append, String.toList_append, starts, List.append_assoc]
    rfl
  have plain : NoLookAlikes ("SELECT " ++ w ++ " FROM t") := by
    intro c member
    have ascii {cs : List Char} (all : cs.all (·.toNat < 128) = true) (inside : c ∈ cs) : plain c = some c :=
      plain_of_lt (of_decide_eq_true (List.all_eq_true.1 all c inside))
    rw [text, List.mem_append, List.mem_cons, List.mem_append] at member
    rcases member with front | rfl | inside | back
    · exact ascii (by decide) front
    · rfl
    · have := Text.range_of_isWordChar (word c inside)
      exact plain_of_lt (by omega)
    · exact ascii (by decide) back
  rw [fix_eq, replaceLookAlikes_eq plain, text, mended_select, String.toList_ofList]

theorem render_underscore : Identifier.render ⟨w, true⟩ = "\"" ++ w ++ "\"" := by
  have plain : ∀ c ∈ w.toList, c ≠ '"' := by
    rw [starts]
    rintro c member rfl
    rcases List.mem_cons.1 member with quote | member
    · cases quote
    · cases word _ member
  rw [Identifier.render, if_pos rfl, Text.quoted, Text.doubled_of_forall plain, ← String.toList_inj]
  simp

/-- A name that begins with an underscore is quoted as a whole exactly if no exponent is read in it; its
column is read from the quoted name. -/
theorem fix_underscore_iff (v : Version) :
    (fix v ("SELECT " ++ w ++ " FROM t") = "SELECT \"" ++ w ++ "\" FROM t" ↔ ¬HasExponent cs) ∧
      ∃ q span, readQuery v ("SELECT \"" ++ w ++ "\" FROM t") = .ok q ∧
        q.resultClause.items = [.expr (.column { column := ⟨w, true⟩ } span) none] := by
  constructor
  · have quoted : ("SELECT \"" ++ w ++ "\" FROM t").toList =
        "SELECT ".toList ++ '"' :: ('_' :: cs ++ '"' :: ' ' :: "FROM t".toList) := by
      rw [String.toList_append, String.toList_append, starts]
      simp
    obtain ⟨a, b, rfl, cut, parts⟩ := cutName_word word "FROM t".toList
    rw [← String.toList_inj, toList_fix starts word, quoted, cut]
    dsimp only
    rcases parts with ⟨whole, rfl⟩ | ⟨exponent, d, first, digit⟩
    · rw [List.append_nil] at whole ⊢
      rw [List.nil_append, mended_from]
      exact iff_of_true rfl whole
    · -- the quote would have to be the first digit of the number
      refine iff_of_false (fun same => ?_) (not_not.2 exponent)
      obtain ⟨b, rfl⟩ : ∃ e, b = d :: e := ⟨b.tail, List.eq_cons_of_mem_head? first⟩
      have same := (List.cons.inj (List.append_cancel_left same)).2
      simp only [List.cons_append, List.append_assoc] at same
      obtain ⟨quote, -⟩ := List.cons.inj (List.append_cancel_left (List.cons.inj same).2)
      rw [← quote] at digit
      cases digit
  · have text : "SELECT \"" ++ w ++ "\" FROM t" = "SELECT " ++ Identifier.render ⟨w, true⟩ ++ " FROM t" := by
      rw [render_underscore starts word, ← String.toList_inj]
      simp
    rw [text]
    exact readQuery_column (.inl rfl)

end Named

/-- A digit after the underscore does no harm by itself. -/
theorem fix_underscore_iff_digit : "_2mass_name".toList = '_' :: "2mass_name".toList ∧
    (∀ c ∈ "2mass_name".toList, Text.isWordChar c = true) ∧ ¬HasExponent "2mass_name".toList ∧
      fix .v21 ("SELECT " ++ "_2mass_name" ++ " FROM t") = "SELECT \"" ++ "_2mass_name" ++ "\" FROM t" := by
  have word : ∀ c ∈ "2mass_name".toList, Text.isWordChar c = true := List.all_eq_true.1 (by decide)
  have whole : ¬HasExponent "2mass_name".toList := by
    intro h
    cases h with
    | here _ letter => revert letter; decide
    | later _ h => exact not_hasExponent_of_isLetter (by decide) h
  exact ⟨rfl, word, whole, (fix_underscore_iff rfl word .v21).1.2 whole⟩

/-- Of this name only the underscore is put between quotes. -/
theorem fix_splits_exponent : "_1e5".toList = '_' :: "1e5".toList ∧
    (∀ c ∈ "1e5".toList, Text.isWordChar c = true) ∧
      fix .v21 ("SELECT " ++ "_1e5" ++ " FROM t") = "SELECT \"_\"1e5 FROM t" ∧
        fix .v21 ("SELECT " ++ "_1e5" ++ " FROM t") ≠ "SELECT \"" ++ "_1e5" ++ "\" FROM t" := by
  have fixed : fix .v21 ("SELECT " ++ "_1e5" ++ " FROM t") = "SELECT \"_\"1e5 FROM t" := by decide +kernel
  refine ⟨rfl, List.all_eq_true.1 (by decide), fixed, ?_⟩
  rw [fixed]
  decide

end QuickFix

end SkyQuery
