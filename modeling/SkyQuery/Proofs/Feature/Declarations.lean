import SkyQuery.Feature.FunctionDef
import SkyQuery.Proofs.Text.Numbers
import SkyQuery.Proofs.Text.Words

/-!
# Declarations and what they declare

A function can be declared if it and its parameters are named by words, if each parameter has a type and if
the lengths of types are below 2^32 (`FunctionDef.IsDeclared`). Its declaration is then read as the function
it was written for, and nothing else is ever read (`FunctionDef.isDeclared_iff`). The text of the parameters
may hold closing parentheses, those of types: no result can stand after them, so they end nothing.
-/

namespace SkyQuery

open Text

/-! ### Types -/

namespace DataType

/-- The name of a type, as it is written. -/
def word : DataType → String
  | .smallInt => "SMALLINT"
  | .integer => "INTEGER"
  | .bigInt => "BIGINT"
  | .real => "REAL"
  | .double => "DOUBLE"
  | .binary _ => "BINARY"
  | .varBinary _ => "VARBINARY"
  | .char _ => "CHAR"
  | .varChar _ => "VARCHAR"
  | .blob => "BLOB"
  | .clob => "CLOB"
  | .timestamp => "TIMESTAMP"
  | .point => "POINT"
  | .circle => "CIRCLE"
  | .polygon => "POLYGON"
  | .region => "REGION"
  | .unknown => "UNKNOWN"

def length : DataType → Option Nat
  | .binary n | .varBinary n | .char n | .varChar n => n
  | _ => none

/-- The length of the type, if it has one, is below 2^32. -/
def IsBounded (t : DataType) : Prop := ∀ n ∈ t.length, n < Nat.pow 2 32

theorem render_eq (t : DataType) : t.render = t.word ++ renderLength t.length := by
  cases t <;> simp [render, word, length, renderLength]

theorem letters_word (t : DataType) : t.word.toList ≠ [] ∧ ∀ c ∈ t.word.toList, c.isAlpha = true := by
  cases t <;> simp only [word] <;> exact ⟨by decide, List.all_eq_true.1 (by decide)⟩

theorem upper_word (t : DataType) : upper t.word = t.word := by
  cases t <;> simp only [word] <;> decide

theorem ofName_word (t : DataType) : ofName t.word t.length = t := by
  cases t <;> rfl

theorem length_ofName (name : String) (n : Option Nat) : (ofName name n).length = n ∨ (ofName name n).length = none := by
  unfold ofName
  split <;> simp [length]

/-! ### Lengths -/

/-- The length of a type is a number as in a cast. -/
theorem lengthOf_eq (digits : List Char) :
    lengthOf digits = Grammar.Parse.digitsBelow? (Nat.pow 2 32) (String.ofList digits) := by
  rw [Grammar.Parse.digitsBelow?, String.toList_ofList]
  rfl

theorem lengthOf_toString {n : Nat} (h : n < Nat.pow 2 32) : lengthOf (toString n).toList = some n := by
  rw [lengthOf_eq, String.ofList_toList, Grammar.Parse.digitsBelow?_toString h]

theorem lengthOf_lt {digits : List Char} {n : Nat} (h : lengthOf digits = some n) : n < Nat.pow 2 32 :=
  Grammar.Parse.digitsBelow?_lt ((lengthOf_eq digits).symm.trans h)

/-- What stands between the parentheses. -/
def lengthDigits (n : Option Nat) : List Char := (n.map fun n => (toString n).toList).getD []

theorem length_lengthDigits {n : Option Nat} (bounded : ∀ k ∈ n, k < Nat.pow 2 32) :
    (if (lengthDigits n).isEmpty then none else lengthOf (lengthDigits n)) = n := by
  cases n with
  | none => rfl
  | some n =>
    have nonempty : (toString n).toList.isEmpty ≠ true := fun empty => (Text.digits_toString n).1 (List.isEmpty_iff.1 empty)
    rw [lengthDigits, Option.map_some, Option.getD_some, if_neg nonempty, lengthOf_toString (bounded n rfl)]

theorem isNameLetter_of_isAlpha {c : Char} (h : c.isAlpha = true) : isNameLetter c = true := by
  simp [isNameLetter, h]

theorem digits?_paren (rest : List Char) : digits? ('(' :: rest) =
    if ((trimLeft rest).takeWhile Char.isDigit).isEmpty then none
    else if trimLeft ((trimLeft rest).dropWhile Char.isDigit) = [')'] then some ((trimLeft rest).takeWhile Char.isDigit)
    else none := by
  rw [digits?, trimLeft_solid (by decide)]
  rfl

theorem toList_renderLength (n : Nat) : (renderLength (some n)).toList = '(' :: ((toString n).toList ++ [')']) := by
  rw [renderLength, String.toList_append, String.toList_append, List.append_assoc]
  rfl

/-- The digits of a length are those between its parentheses; without a length there are none. -/
theorem digits?_renderLength (n : Option Nat) : digits? (renderLength n).toList = some (lengthDigits n) := by
  cases n with
  | none => rfl
  | some n =>
    obtain ⟨long, digits⟩ := Text.digits_toString n
    have all : ((toString n).toList ++ [')']).takeWhile Char.isDigit = (toString n).toList := by
      rw [List.takeWhile_append_of_pos digits]
      simp
    have after : ((toString n).toList ++ [')']).dropWhile Char.isDigit = [')'] := by
      rw [List.dropWhile_append_of_pos digits]
      rfl
    have solid : trimLeft ((toString n).toList ++ [')']) = (toString n).toList ++ [')'] := by
      obtain ⟨d, ds, first⟩ := List.exists_cons_of_ne_nil long
      have digit := digits d (first ▸ List.mem_cons_self)
      rw [first]
      exact trimLeft_solid (not_isBlank_of_isWordChar (isWordChar_of_isDigit digit))
    have nonempty : (toString n).toList.isEmpty ≠ true := fun empty => long (List.isEmpty_iff.1 empty)
    rw [toList_renderLength, digits?_paren, solid, all, after, if_neg nonempty, if_pos (by decide)]
    rfl

/-! ### Types are read back -/

variable {t : DataType}

/-- The characters of a type: letters, digits and the parentheses around a length. -/
theorem chars_render (t : DataType) : ∀ c ∈ t.render.toList, isWordChar c = true ∨ c = '(' ∨ c = ')' := by
  rw [render_eq, String.toList_append]
  intro c member
  rcases List.mem_append.1 member with name | length
  · exact .inl (isWordChar_of_isAlpha (t.letters_word.2 c name))
  cases known : t.length with
  | none =>
    rw [known] at length
    cases length
  | some n =>
    rw [known, toList_renderLength, List.mem_cons, List.mem_append, List.mem_singleton] at length
    rcases length with paren | digit | paren
    · exact .inr (.inl paren)
    · exact .inl (isWordChar_of_isDigit ((Text.digits_toString n).2 c digit))
    · exact .inr (.inr paren)

theorem solid_render (t : DataType) : IsSolid t.render.toList := by
  refine ⟨?_, fun c member => ?_⟩
  · rw [render_eq, String.toList_append]
    exact List.append_ne_nil_of_left_ne_nil t.letters_word.1 _
  · rcases t.chars_render c member with word | rfl | rfl
    · exact not_isBlank_of_isWordChar word
    · decide
    · decide

theorem trimmed_render (t : DataType) : IsTrimmed t.render.toList := isTrimmed_of_solid t.solid_render.2

/-- What is written for a type is read as it. -/
theorem parse?_render (bounded : t.IsBounded) : parse? t.render = some t := by
  obtain ⟨long, letters⟩ := t.letters_word
  have inName (c : Char) (member : c ∈ t.word.toList) : (isNameLetter c || c == ' ') = true := by
    rw [isNameLetter_of_isAlpha (letters c member), Bool.true_or]
  have stops : ∀ c ∈ (renderLength t.length).toList.head?, (isNameLetter c || c == ' ') = false := by
    cases t.length with
    | none => simp [renderLength]
    | some n =>
      rw [toList_renderLength]
      intro c paren
      obtain rfl := Option.some.inj paren
      decide
  obtain ⟨name, rest⟩ := takeWhile_stops inName stops
  have whole : (trim t.render).toList = t.word.toList ++ (renderLength t.length).toList := by
    rw [trim, String.toList_ofList, t.trimmed_render.trim, render_eq, String.toList_append]
  have solid : IsSolid t.word.toList :=
    ⟨long, fun c member => not_isBlank_of_isWordChar (isWordChar_of_isAlpha (letters c member))⟩
  have words : words t.word = [t.word] := by
    have alone : words (String.intercalate " " [t.word]) = [t.word] := words_intercalate (by simpa using solid)
    rwa [String.intercalate_singleton] at alone
  obtain ⟨c, cs, first⟩ := List.exists_cons_of_ne_nil long
  have starts : isNameLetter c = true := isNameLetter_of_isAlpha (letters c (first ▸ List.mem_cons_self))
  unfold parse?
  rw [whole]
  dsimp only
  rw [name, rest, digits?_renderLength, String.ofList_toList, words, first, List.cons_append]
  dsimp only
  rw [if_pos starts, Option.map_some, length_lengthDigits bounded, String.intercalate_singleton, upper_word, ofName_word]

/-- A type that was read has no length that is too large. -/
theorem isBounded_of_parse? {text : String} {t : DataType} (h : parse? text = some t) : t.IsBounded := by
  unfold parse? at h
  dsimp only at h
  split at h
  · cases h
  split at h
  · obtain ⟨digits, -, rfl⟩ := Option.map_eq_some_iff.1 h
    intro n length
    rcases length_ofName _ _ with same | none
    · rw [same] at length
      split at length
      · cases length
      · exact lengthOf_lt length
    · rw [none] at length
      cases length
  · cases h

theorem parse_eq_ok_iff {text : String} : parse text = .ok t ↔ parse? text = some t := by
  unfold parse
  cases parse? text <;> simp

end DataType

/-! ### Declared functions -/

/-- A word with a type. -/
structure Param.IsDeclared (p : Param) : Prop where
  name : isWord p.name.toList = true
  typed : ∃ t, p.type = some t ∧ t.IsBounded

/-- A function that a declaration can be written for. -/
structure FunctionDef.IsDeclared (d : FunctionDef) : Prop where
  name : isWord d.name.toList = true
  params : ∀ p ∈ d.params, p.IsDeclared
  returns : ∀ t ∈ d.returns, t.IsBounded
  plain : d.description = none

namespace FunctionDef

variable {name piece rest : List Char}

/-! ### Words -/

theorem isTrimmed_of_isWord (h : isWord name = true) : IsTrimmed name :=
  isTrimmed_of_solid fun c member => not_isBlank_of_isWordChar (isWordChar_of_isWord h c member)

theorem ne_nil_of_isWord (h : isWord name = true) : name ≠ [] := by
  rintro rfl
  cases h

theorem cutWord?_append (h : isWord name = true) (stops : ∀ c ∈ rest.head?, isWordChar c = false) :
    cutWord? (name ++ rest) = some (name, rest) := by
  obtain ⟨c, cs, rfl, letter, others⟩ := exists_of_isWord h
  obtain ⟨run, after⟩ := takeWhile_stops others stops
  rw [List.cons_append, cutWord?, if_pos letter, run, after]

theorem isWord_of_cutWord? {cs : List Char} (h : cutWord? cs = some (name, rest)) : isWord name = true := by
  cases cs with
  | nil => cases h
  | cons c cs =>
    rw [cutWord?] at h
    split at h
    · rename_i letter
      obtain ⟨rfl, -⟩ := Prod.mk.inj (Option.some.inj h)
      rw [isWord, letter, Bool.true_and, List.all_takeWhile]
    · cases h

/-! ### Results -/

/-- What is written after the parameters. -/
def resultText (returns : Option DataType) : List Char :=
  match returns with
  | some type => ' ' :: ("->".toList ++ (" ".toList ++ type.render.toList))
  | none => []

theorem resultText?_resultText (returns : Option DataType) :
    resultText? (resultText returns) = some (returns.map fun type => type.render.toList) := by
  cases returns with
  | none => rfl
  | some type =>
    have solid : ∀ c ∈ "->".toList, isBlank c = false := List.forall_mem_cons.2 ⟨rfl, List.forall_mem_singleton.2 rfl⟩
    have arrow : IsTrimmed ("->".toList ++ (" ".toList ++ type.render.toList)) :=
      .around (isTrimmed_of_solid solid) (by decide) type.trimmed_render type.solid_render.1 _
    obtain ⟨c, cs, first⟩ := List.exists_cons_of_ne_nil type.solid_render.1
    have after : trimLeft (' ' :: type.render.toList) = c :: cs := by
      rw [trimLeft_blank (by decide), type.trimmed_render.left, first]
    dsimp only [Option.map_some]
    have spelled : "->".toList ++ (" ".toList ++ type.render.toList) = '-' :: '>' :: ' ' :: type.render.toList := rfl
    rw [resultText, resultText?, trimLeft_blank (by decide), arrow.trim, spelled]
    simp only [after]
    rw [first]

/-- No result starts with a comma or a parenthesis. -/
theorem resultText?_none {c : Char} (h : c = ',' ∨ c = ')') : resultText? (c :: rest) = none := by
  have solid : isBlank c = false := by rcases h with rfl | rfl <;> decide
  obtain ⟨ds, eq⟩ := exists_trimRight solid rest
  rw [resultText?, trimLeft_solid solid, eq]
  rcases h with rfl | rfl <;> rfl

/-! ### The end of the parameters -/

/-- Nothing in a piece of the parameters ends them, if another parameter or the end follows. -/
def Passes (piece : List Char) : Prop := ∀ c rest, c = ',' ∨ c = ')' →
  cutParams? (piece ++ c :: rest) = (cutParams? (c :: rest)).map fun (params, result) => (piece ++ params, result)

theorem cutParams?_cons {c : Char} (h : c ≠ ')') :
    cutParams? (c :: rest) = (cutParams? rest).map fun (params, result) => (c :: params, result) := by
  rw [cutParams?]
  dsimp only
  rw [if_neg h]

theorem cutParams?_end {result : Option (List Char)} (h : resultText? rest = some result) :
    cutParams? (')' :: rest) = some ([], result) := by
  rw [cutParams?]
  dsimp only
  rw [if_pos rfl, h]

theorem passes_nil : Passes [] := fun _ _ _ => Option.map_id_fun.symm ▸ rfl

theorem Passes.cons {c : Char} (other : c ≠ ')') (h : Passes piece) : Passes (c :: piece) := by
  intro d rest next
  rw [List.cons_append, cutParams?_cons other, h d rest next, Option.map_map]
  rfl

theorem Passes.run {front : List Char} (h : Passes piece) (others : ∀ c ∈ front, c ≠ ')') : Passes (front ++ piece) := by
  induction front with
  | nil => exact h
  | cons c front ih =>
    obtain ⟨here, others⟩ := List.forall_mem_cons.1 others
    exact .cons here (ih others)

theorem Passes.append (h : Passes piece) {c : Char} (next : c = ',' ∨ c = ')') (more : Passes (c :: rest)) :
    Passes (piece ++ c :: rest) := by
  intro d after stops
  have both := more d after stops
  rw [List.cons_append] at both
  rw [List.append_assoc, List.cons_append, h c _ next, both, Option.map_map]
  congr 1
  funext ⟨params, result⟩
  exact Prod.ext (List.append_assoc ..).symm rfl

/-- The parenthesis of a type is followed by a comma or by the end. -/
theorem passes_paren : Passes [')'] := by
  intro c rest next
  rw [List.singleton_append, cutParams?]
  dsimp only
  rw [if_pos rfl, resultText?_none next]
  rfl

theorem ne_of_isWordChar {c d : Char} (h : isWordChar c = true) (other : isWordChar d = false) : c ≠ d := by
  rintro rfl
  rw [h] at other
  cases other

theorem passes_type (t : DataType) : Passes t.render.toList := by
  rw [DataType.render_eq, String.toList_append]
  refine .run ?_ fun c letter => ne_of_isWordChar (isWordChar_of_isAlpha (t.letters_word.2 c letter)) (by decide)
  cases t.length with
  | none => exact passes_nil
  | some n =>
    rw [DataType.toList_renderLength]
    refine .cons (by decide) (passes_paren.run fun c digit => ?_)
    exact ne_of_isWordChar (isWordChar_of_isDigit ((Text.digits_toString n).2 c digit)) (by decide)

/-! ### Parameters -/

section Params

variable {p : Param} {ps : List Param}

theorem toList_param (h : p.IsDeclared) : ∃ t, p.type = some t ∧ t.IsBounded ∧
    p.render.toList = p.name.toList ++ ' ' :: t.render.toList := by
  obtain ⟨t, type, bounded⟩ := h.typed
  refine ⟨t, type, bounded, ?_⟩
  rw [Param.render, type]
  dsimp only
  rw [String.toList_append, String.toList_append, List.append_assoc]
  rfl

theorem passes_param (h : p.IsDeclared) : Passes p.render.toList := by
  obtain ⟨t, -, -, text⟩ := toList_param h
  rw [text]
  exact (passes_type t).cons (by decide) |>.run fun c member =>
    ne_of_isWordChar (isWordChar_of_isWord h.name c member) (by decide)

theorem trimmed_param (h : p.IsDeclared) : IsTrimmed p.render.toList := by
  obtain ⟨t, -, -, text⟩ := toList_param h
  rw [text]
  exact .around (isTrimmed_of_isWord h.name) (ne_nil_of_isWord h.name) t.trimmed_render t.solid_render.1 [' ']

theorem param_ne_nil (h : p.IsDeclared) : p.render.toList ≠ [] := by
  obtain ⟨t, -, -, text⟩ := toList_param h
  rw [text]
  exact List.append_ne_nil_of_left_ne_nil (ne_nil_of_isWord h.name) _

/-- There are commas only between parameters. -/
theorem plain_param (h : p.IsDeclared) {front : List Char} (spaces : ∀ c ∈ front, c = ' ') :
    ∀ c ∈ front ++ p.render.toList, c ≠ ',' := by
  obtain ⟨t, -, -, text⟩ := toList_param h
  rw [text]
  intro c member
  rcases List.mem_append.1 member with space | param
  · rw [spaces c space]
    decide
  rcases List.mem_append.1 param with name | blank | ⟨_, type⟩
  · exact ne_of_isWordChar (isWordChar_of_isWord h.name c name) (by decide)
  · decide
  · rcases t.chars_render c type with word | rfl | rfl
    · exact ne_of_isWordChar word (by decide)
    · decide
    · decide

/-- A parameter is read with the spaces before it. -/
theorem readParam_render (h : p.IsDeclared) {front : List Char} (spaces : ∀ c ∈ front, c = ' ') :
    readParam (front ++ p.render.toList) = .ok p := by
  obtain ⟨t, type, bounded, text⟩ := toList_param h
  have trimmed : trimRight (trimLeft (front ++ p.render.toList)) = p.render.toList := by
    have left : trimLeft (front ++ p.render.toList) = trimLeft p.render.toList :=
      List.dropWhile_append_of_pos fun c member => by rw [spaces c member]; decide
    rw [left, (trimmed_param h).trim]
  have name : cutWord? p.render.toList = some (p.name.toList, ' ' :: t.render.toList) := by
    rw [text]
    exact cutWord?_append h.name (by simpa using (by decide : isWordChar ' ' = false))
  have after : trimLeft (' ' :: t.render.toList) = t.render.toList := by
    rw [trimLeft_blank (by decide), t.trimmed_render.left]
  have parts : readParam (front ++ p.render.toList) = do
      let type ← DataType.parse (String.ofList t.render.toList)
      return ⟨String.ofList p.name.toList, some type⟩ := by
    unfold readParam
    rw [trimmed]
    dsimp only
    rw [name]
    dsimp only
    rw [if_pos (by decide), after]
  rw [parts, String.ofList_toList, String.ofList_toList, DataType.parse_eq_ok_iff.2 (DataType.parse?_render bounded)]
  show Except.ok (Param.mk p.name (some t)) = .ok p
  rw [← type]

theorem cutCommas_append (plain : ∀ c ∈ piece, c ≠ ',') (ends : ∀ c ∈ rest.head?, c = ',') :
    cutCommas (piece ++ rest) = piece :: (cutCommas rest).tail := by
  induction piece with
  | nil =>
    cases rest with
    | nil => rfl
    | cons c rest =>
      obtain rfl := ends c rfl
      rfl
  | cons c piece ih =>
    obtain ⟨here, others⟩ := List.forall_mem_cons.1 plain
    rw [List.cons_append, cutCommas, if_neg here, ih others]

/-- The texts of all parameters. -/
def joined (ps : List Param) : List Char := (String.intercalate ", " (ps.map Param.render)).toList

theorem joined_cons (p q : Param) (ps : List Param) :
    joined (p :: q :: ps) = p.render.toList ++ ',' :: ' ' :: joined (q :: ps) := by
  rw [joined, List.map_cons, List.map_cons, String.intercalate_cons_cons, String.toList_append, String.toList_append,
    List.append_assoc]
  rfl

theorem joined_singleton (p : Param) : joined [p] = p.render.toList := by
  rw [joined, List.map_singleton, String.intercalate_singleton]

theorem passes_joined (h : ∀ p ∈ ps, p.IsDeclared) : Passes (joined ps) := by
  induction ps with
  | nil => exact passes_nil
  | cons p ps ih =>
    obtain ⟨here, others⟩ := List.forall_mem_cons.1 h
    cases ps with
    | nil => exact joined_singleton p ▸ passes_param here
    | cons q ps =>
      rw [joined_cons]
      exact (passes_param here).append (.inl rfl) (.cons (by decide) (.cons (by decide) (ih others)))

theorem joined_ne_nil {p : Param} (h : p.IsDeclared) : joined (p :: ps) ≠ [] := by
  cases ps with
  | nil => exact joined_singleton p ▸ param_ne_nil h
  | cons q ps =>
    rw [joined_cons]
    exact List.append_ne_nil_of_left_ne_nil (param_ne_nil h) _

theorem trimmed_joined (h : ∀ p ∈ ps, p.IsDeclared) : IsTrimmed (joined ps) := by
  induction ps with
  | nil => exact ⟨nofun, nofun⟩
  | cons p ps ih =>
    obtain ⟨here, others⟩ := List.forall_mem_cons.1 h
    cases ps with
    | nil => exact joined_singleton p ▸ trimmed_param here
    | cons q ps =>
      rw [joined_cons]
      exact .around (trimmed_param here) (param_ne_nil here) (ih others)
        (joined_ne_nil (others q List.mem_cons_self)) [',', ' ']

/-- What stands between the commas is read as the parameters, each with the space before it. -/
theorem mapM_readParam {p : Param} (h : ∀ q ∈ p :: ps, q.IsDeclared) {front : List Char} (spaces : ∀ c ∈ front, c = ' ') :
    (cutCommas (front ++ joined (p :: ps))).mapM readParam = .ok (p :: ps) := by
  induction ps generalizing p front with
  | nil =>
    have here := h p List.mem_cons_self
    have only : cutCommas (front ++ p.render.toList) = [front ++ p.render.toList] := by
      have cut : cutCommas (front ++ p.render.toList ++ []) = _ := cutCommas_append (plain_param here spaces) (by simp)
      simpa [cutCommas] using cut
    rw [joined_singleton, only, List.mapM_cons, readParam_render here spaces]
    rfl
  | cons q ps ih =>
    obtain ⟨here, others⟩ := List.forall_mem_cons.1 h
    have later : (cutCommas ([' '] ++ joined (q :: ps))).mapM readParam = .ok (q :: ps) := ih others (by simp)
    have pieces : cutCommas (front ++ joined (p :: q :: ps)) =
        (front ++ p.render.toList) :: cutCommas ([' '] ++ joined (q :: ps)) := by
      rw [joined_cons, ← List.append_assoc, cutCommas_append (plain_param here spaces) (by simp)]
      rfl
    rw [pieces, List.mapM_cons, readParam_render here spaces, later]
    rfl

theorem readParams_joined (h : ∀ p ∈ ps, p.IsDeclared) : readParams (joined ps) = .ok ps := by
  unfold readParams
  rw [(trimmed_joined h).trim]
  cases ps with
  | nil => rfl
  | cons p ps =>
    have nonempty : (joined (p :: ps)).isEmpty ≠ true := fun empty =>
      joined_ne_nil (h p List.mem_cons_self) (List.isEmpty_iff.1 empty)
    dsimp only
    rw [if_neg nonempty]
    have read : (cutCommas ([] ++ joined (p :: ps))).mapM readParam = .ok (p :: ps) := mapM_readParam h (by simp)
    exact read

end Params

/-! ### Declarations -/

variable {p : Param} {ps : List Param} {d : FunctionDef}

theorem toList_render (d : FunctionDef) :
    d.render.toList = d.name.toList ++ '(' :: (joined d.params ++ ')' :: resultText d.returns) := by
  simp only [render, joined, String.toList_append, List.append_assoc]
  cases d.returns <;> simp [resultText]

theorem cut?_render (h : d.IsDeclared) :
    cut? d.render.toList = some (d.name.toList, joined d.params, d.returns.map fun type => type.render.toList) := by
  have left : trimLeft d.render.toList = d.render.toList := by
    obtain ⟨c, cs, first, letter, -⟩ := exists_of_isWord h.name
    rw [toList_render, first]
    exact trimLeft_solid (not_isBlank_of_isWordChar (isWordChar_of_isAlpha letter))
  have params := passes_joined h.params ')' (resultText d.returns) (.inr rfl)
  rw [cutParams?_end (resultText?_resultText d.returns), Option.map_some] at params
  rw [cut?, left, toList_render, cutWord?_append h.name (by simpa using (by decide : isWordChar '(' = false))]
  dsimp only
  rw [trimLeft_solid (by decide)]
  show (cutParams? _).map _ = _
  rw [params, Option.map_some]
  dsimp only
  rw [List.append_nil]

theorem parse_render (h : d.IsDeclared) : parse d.render = .ok d := by
  obtain ⟨name, params, returns, description⟩ := d
  obtain rfl : description = none := h.plain
  rw [parse, cut?_render h]
  dsimp only
  rw [readParams_joined h.params, String.ofList_toList]
  cases returns with
  | none => rfl
  | some type =>
    dsimp only [Option.map_some]
    rw [String.ofList_toList, DataType.parse_eq_ok_iff.2 (DataType.parse?_render (h.returns type rfl))]
    rfl

/-! ### What is read was declared -/

theorem isDeclared_of_readParam {cs : List Char} (h : readParam cs = .ok p) : p.IsDeclared := by
  unfold readParam at h
  dsimp only at h
  split at h
  · rename_i name type parts
    obtain ⟨t, read, same⟩ := ok_of_bind h
    obtain rfl := Except.ok.inj same
    refine ⟨?_, t, rfl, DataType.isBounded_of_parse? (DataType.parse_eq_ok_iff.1 read)⟩
    split at parts
    · rename_i cut
      split at parts
      · split at parts
        · obtain ⟨rfl, rfl⟩ := Prod.mk.inj (Option.some.inj parts)
          rw [String.toList_ofList]
          exact isWord_of_cutWord? cut
        · cases parts
      · cases parts
    · cases parts
  · cases h

theorem isDeclared_of_mapM {pieces : List (List Char)} (h : pieces.mapM readParam = .ok ps) : ∀ p ∈ ps, p.IsDeclared := by
  induction pieces generalizing ps with
  | nil =>
    cases h
    simp
  | cons piece pieces ih =>
    rw [List.mapM_cons] at h
    obtain ⟨p, first, h⟩ := ok_of_bind h
    obtain ⟨qs, others, h⟩ := ok_of_bind h
    obtain rfl := Except.ok.inj h
    exact List.forall_mem_cons.2 ⟨isDeclared_of_readParam first, ih others⟩

theorem isWord_of_cut? {cs params : List Char} {result : Option (List Char)} (h : cut? cs = some (name, params, result)) :
    isWord name = true := by
  unfold cut? at h
  split at h
  · cases h
  · rename_i word
    split at h
    · obtain ⟨ends, -, same⟩ := Option.map_eq_some_iff.1 h
      obtain ⟨rfl, -⟩ := Prod.mk.inj same
      exact isWord_of_cutWord? word
    · cases h

theorem isDeclared_of_readParams {cs : List Char} (h : readParams cs = .ok ps) : ∀ p ∈ ps, p.IsDeclared := by
  unfold readParams at h
  dsimp only at h
  split at h
  · cases h
    simp
  · exact isDeclared_of_mapM h

theorem isDeclared_of_parse {text : String} (h : parse text = .ok d) : d.IsDeclared := by
  unfold parse at h
  split at h
  · cases h
  · rename_i name texts result cut
    obtain ⟨ps, params, h⟩ := ok_of_bind h
    have word : isWord (String.ofList name).toList = true := by
      rw [String.toList_ofList]
      exact isWord_of_cut? cut
    cases result with
    | none =>
      obtain rfl := Except.ok.inj h
      exact ⟨word, isDeclared_of_readParams params, by simp, rfl⟩
    | some text =>
      obtain ⟨returns, type, h⟩ := ok_of_bind h
      obtain ⟨t, read, rfl⟩ := ok_of_map type
      obtain rfl := Except.ok.inj h
      have bounded : t.IsBounded := DataType.isBounded_of_parse? (DataType.parse_eq_ok_iff.1 read)
      exact ⟨word, isDeclared_of_readParams params, by simpa using bounded, rfl⟩

/-- Exactly the declared functions are read from what is written for them, and no other is read from any text. -/
theorem isDeclared_iff (d : FunctionDef) :
    (d.IsDeclared ↔ parse d.render = .ok d) ∧ (d.IsDeclared ↔ ∃ text, parse text = .ok d) :=
  ⟨⟨parse_render, isDeclared_of_parse⟩, fun h => ⟨d.render, parse_render h⟩, fun ⟨_, h⟩ => isDeclared_of_parse h⟩

end FunctionDef

end SkyQuery
