import SkyQuery.Diagnostic.Basic
import SkyQuery.Text.Blank
import SkyQuery.Text.Letters

/-!
# Types of parameters and results

The types that the declaration of a function can name. A name that is well formed but not known
stands for a type of which nothing is known, and which may be anything.
-/

namespace SkyQuery

inductive DataType where
  | smallInt | integer | bigInt | real | double
  | binary (length : Option Nat)
  | varBinary (length : Option Nat)
  | char (length : Option Nat)
  | varChar (length : Option Nat)
  | blob | clob | timestamp | point | circle | polygon | region | unknown
  deriving DecidableEq, Repr

namespace DataType

def isNumeric : DataType → Bool
  | .smallInt | .integer | .bigInt | .real | .double | .binary _ | .varBinary _ | .blob
  | .unknown => true
  | _ => false

def isString : DataType → Bool
  | .char _ | .varChar _ | .clob | .timestamp | .unknown => true
  | _ => false

def isGeometry : DataType → Bool
  | .point | .circle | .polygon | .region | .unknown => true
  | _ => false

/-- A length in parentheses. -/
def renderLength : Option Nat → String
  | some n => "(" ++ toString n ++ ")"
  | none => ""

def render : DataType → String
  | .smallInt => "SMALLINT"
  | .integer => "INTEGER"
  | .bigInt => "BIGINT"
  | .real => "REAL"
  | .double => "DOUBLE"
  | .binary n => "BINARY" ++ renderLength n
  | .varBinary n => "VARBINARY" ++ renderLength n
  | .char n => "CHAR" ++ renderLength n
  | .varChar n => "VARCHAR" ++ renderLength n
  | .blob => "BLOB"
  | .clob => "CLOB"
  | .timestamp => "TIMESTAMP"
  | .point => "POINT"
  | .circle => "CIRCLE"
  | .polygon => "POLYGON"
  | .region => "REGION"
  | .unknown => "UNKNOWN"

/-- The type with a name in upper case, its words one space apart. Only some types take a length. -/
def ofName (name : String) (length : Option Nat) : DataType :=
  match name with
  | "SMALLINT" => .smallInt
  | "INTEGER" | "INT" => .integer
  | "BIGINT" => .bigInt
  | "REAL" | "FLOAT" => .real
  | "DOUBLE" | "DOUBLE PRECISION" => .double
  | "BINARY" => .binary length
  | "VARBINARY" => .varBinary length
  | "CHAR" | "CHARACTER" => .char length
  | "VARCHAR" | "CHARACTER VARYING" | "STRING" => .varChar length
  | "BLOB" => .blob
  | "CLOB" => .clob
  | "TIMESTAMP" => .timestamp
  | "POINT" => .point
  | "CIRCLE" => .circle
  | "POLYGON" => .polygon
  | "REGION" => .region
  | _ => .unknown

/-- The letters of type names: those from A to Z and the two others that fold to one of them, the
long s and the Kelvin sign. -/
def isNameLetter (c : Char) : Bool := c.isAlpha || c == '\u017F' || c == '\u212A'

/-- The value of digits, if it is below 2^32. -/
def lengthOf (digits : List Char) : Option Nat :=
  let n := digits.foldl (fun n c => 10 * n + (c.toNat - '0'.toNat)) 0
  if n < Nat.pow 2 32 then some n else none

/-- The digits between the parentheses that end a type, if there are any; fails on any other
text. -/
def digits? (cs : List Char) : Option (List Char) :=
  match Text.trimLeft cs with
  | [] => some []
  | '(' :: rest =>
    let rest := Text.trimLeft rest
    let digits := rest.takeWhile Char.isDigit
    if digits.isEmpty then none
    else if Text.trimLeft (rest.dropWhile Char.isDigit) = [')'] then some digits
    else none
  | _ => none

/-- Reads a type such as `DOUBLE PRECISION` or `varchar ( 32 )`. -/
def parse? (text : String) : Option DataType :=
  let cs := (Text.trim text).toList
  match cs with
  | [] => none
  | c :: _ =>
    if isNameLetter c then
      let inName := fun c => isNameLetter c || c == ' '
      (digits? (cs.dropWhile inName)).map fun digits =>
        let name := Text.words (String.ofList (cs.takeWhile inName))
        ofName (Text.upper (String.intercalate " " name))
          (if digits.isEmpty then none else lengthOf digits)
    else none

/-- Reads a type, or says that a text is none. -/
def parse (text : String) : Except Diagnostic DataType :=
  match parse? text with
  | some t => .ok t
  | none =>
    .error { code := .invalidDefinition, message := "Wrong type declaration: \"" ++ text ++ "\"!" }

end DataType

end SkyQuery
