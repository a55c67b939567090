import SkyQuery.Feature.DataType

/-!
# Declarations of functions

A user's own function is declared by its name, its parameters and perhaps the type of its result,
as in `distance_to(ra DOUBLE, dec DOUBLE) -> DOUBLE`.
-/

namespace SkyQuery

/-- A parameter; it has no type when only a call is known. -/
structure Param where
  name : String
  type : Option DataType
  deriving DecidableEq, Repr

def Param.render (p : Param) : String :=
  match p.type with
  | some type => p.name ++ " " ++ type.render
  | none => p.name

structure FunctionDef where
  name : String
  params : List Param
  returns : Option DataType := none
  description : Option String := none
  deriving DecidableEq, Repr

namespace FunctionDef

/-- The declaration that a call with `n` arguments asks for. -/
def ofCall (name : String) (n : Nat) : FunctionDef where
  name := name
  params := (List.range n).map fun i => ⟨"param" ++ toString (i + 1), none⟩

/-- Whether a call with `n` arguments is one of this function. -/
def answers (d : FunctionDef) (name : String) (n : Nat) : Bool :=
  Text.sameLetters d.name name && d.params.length == n

def isNumeric (d : FunctionDef) : Bool := (d.returns.map DataType.isNumeric).getD true

def isString (d : FunctionDef) : Bool := (d.returns.map DataType.isString).getD true

def isGeometry (d : FunctionDef) : Bool := (d.returns.map DataType.isGeometry).getD true

def render (d : FunctionDef) : String :=
  d.name ++ "(" ++ String.intercalate ", " (d.params.map Param.render) ++ ")" ++
    match d.returns with
    | some type => " -> " ++ type.render
    | none => ""

/-! ### Reading -/

/-- How a declaration is to be written. -/
def form : String :=
  "\"<regular_identifier>(<parameters>?) (-> <return_type>)?\", where <parameters>=" ++
    "\"(<regular_identifier> <type_name> (, <regular_identifier> <type_name>)*)\""

def fault {α : Type} (message : String) : Except Diagnostic α :=
  .error { code := .invalidDefinition, message }

/-- The word at the start of a text and what follows it. -/
def cutWord? : List Char → Option (List Char × List Char)
  | [] => none
  | c :: rest =>
    if Text.isLetter c then
      some (c :: rest.takeWhile Text.isWordChar, rest.dropWhile Text.isWordChar)
    else none

/-- What may stand after the parameters: nothing, or an arrow and the text of a type, which is the
result. -/
def resultText? (cs : List Char) : Option (Option (List Char)) :=
  match Text.trimRight (Text.trimLeft cs) with
  | [] => some none
  | '-' :: '>' :: rest =>
    match Text.trimLeft rest with
    | [] => none
    | type => some (some type)
  | _ => none

/-- Cuts a text at the first closing parenthesis after which only a result may stand. -/
def cutParams? : List Char → Option (List Char × Option (List Char))
  | [] => none
  | c :: rest =>
    let further := (cutParams? rest).map fun (params, result) => (c :: params, result)
    if c = ')' then
      match resultText? rest with
      | some result => some ([], result)
      | none => further
    else further

/-- The pieces between commas. -/
def cutCommas : List Char → List (List Char)
  | [] => [[]]
  | c :: rest =>
    if c = ',' then [] :: cutCommas rest
    else
      match cutCommas rest with
      | [] => [[c]]
      | piece :: pieces => (c :: piece) :: pieces

/-- Reads a name, blanks and a type. -/
def readParam (cs : List Char) : Except Diagnostic Param :=
  let plain := Text.trimRight (Text.trimLeft cs)
  let parts := match cutWord? plain with
    | some (name, rest) =>
      match rest with
      | c :: _ => if Text.isBlank c then some (name, Text.trimLeft rest) else none
      | [] => none
    | none => none
  match parts with
  | some (name, type) => do
    let type ← DataType.parse (String.ofList type)
    return ⟨String.ofList name, some type⟩
  | none =>
    fault ("Wrong parameter definition syntax: \"" ++ String.ofList plain ++
      "\"! Expected syntax: \"<regular_identifier> <type_name>\".")

/-- Reads the text between the parentheses. -/
def readParams (cs : List Char) : Except Diagnostic (List Param) :=
  let plain := Text.trimRight (Text.trimLeft cs)
  if plain.isEmpty then .ok [] else (cutCommas plain).mapM readParam

/-- The name, the text of the parameters and that of the result. -/
def cut? (cs : List Char) : Option (List Char × List Char × Option (List Char)) :=
  match cutWord? (Text.trimLeft cs) with
  | none => none
  | some (name, rest) =>
    match Text.trimLeft rest with
    | '(' :: rest => (cutParams? rest).map fun (params, result) => (name, params, result)
    | _ => none

/-- Reads a declaration. -/
def parse (text : String) : Except Diagnostic FunctionDef :=
  match cut? text.toList with
  | none =>
    fault ("Wrong function definition syntax: \"" ++ text ++ "\"! Expected syntax: " ++ form ++ ".")
  | some (name, params, result) => do
    let params ← readParams params
    let returns ← match result with
      | some type => (DataType.parse (String.ofList type)).map some
      | none => .ok none
    return { name := String.ofList name, params, returns }

end FunctionDef

end SkyQuery
