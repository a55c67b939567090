import SkyQuery.Text.Letters

/-!
# Names

Identifiers and the dotted names made of them. A regular identifier stands for its name in any
letter case, a delimited one, written between double quotes, for exactly its name.
-/

namespace SkyQuery

structure Identifier where
  /-- The name, without the quotes that delimit it. -/
  name : String
  delimited : Bool
  deriving DecidableEq, Repr

namespace Identifier

/-- The text between the first and the last character, when both are double quotes. -/
def unquoted? (text : List Char) : Option (List Char) :=
  match text with
  | '"' :: rest =>
    match rest.reverse with
    | '"' :: inner => some inner.reverse
    | _ => none
  | _ => none

/-- Reads an identifier as it is written in a text. -/
def ofText (text : String) : Identifier :=
  match unquoted? text.toList with
  | some inner => ⟨String.ofList (Text.halved '"' inner), true⟩
  | none => ⟨text, false⟩

def render (i : Identifier) : String := if i.delimited then Text.quoted '"' i.name else i.name

/-- Whether two identifiers stand for one name; letter case counts if either is delimited. -/
def denotes (a b : Identifier) : Bool :=
  if a.delimited || b.delimited then a.name == b.name else Text.sameLetters a.name b.name

/-- Whether an identifier stands for a plain name; letter case counts only for a delimited
identifier, and only if `exact`. -/
def denotesName (i : Identifier) (name : String) (exact : Bool) : Bool :=
  if i.delimited && exact then i.name == name else Text.sameLetters i.name name

end Identifier

/-- A table, perhaps qualified: `[[catalog.]schema.]table`. -/
structure TableName where
  catalog : Option Identifier := none
  schema : Option Identifier := none
  table : Identifier
  deriving DecidableEq, Repr

namespace TableName

/-- A name of one to three parts, the last one being the table. -/
def ofParts? : List Identifier → Option TableName
  | [table] => some { table }
  | [schema, table] => some { schema := some schema, table }
  | [catalog, schema, table] => some { catalog := some catalog, schema := some schema, table }
  | _ => none

/-- A part that the other name leaves out stands for anything. -/
def partDenotes : Option Identifier → Option Identifier → Bool
  | _, none => true
  | some mine, some theirs => mine.denotes theirs
  | none, some _ => false

/-- Whether `other`, which may be less qualified, stands for this table. -/
def denotedBy (mine other : TableName) : Bool :=
  mine.table.denotes other.table && partDenotes mine.schema other.schema &&
    partDenotes mine.catalog other.catalog

/-- An optional part with the point that follows it. -/
def renderPart : Option Identifier → String
  | some part => part.render ++ "."
  | none => ""

def render (t : TableName) : String :=
  renderPart t.catalog ++ renderPart t.schema ++ t.table.render

end TableName

/-- A column, perhaps qualified by its table. -/
structure ColumnRef where
  table : Option TableName := none
  column : Identifier
  deriving DecidableEq, Repr

namespace ColumnRef

/-- A reference of one to four parts, the last one being the column. -/
def ofParts? : List Identifier → Option ColumnRef
  | [column] => some { column }
  | [table, column] => some { table := some { table }, column }
  | [schema, table, column] => some { table := some { schema := some schema, table }, column }
  | [catalog, schema, table, column] =>
    some { table := some { catalog := some catalog, schema := some schema, table }, column }
  | _ => none

def render (c : ColumnRef) : String :=
  match c.table with
  | some table => table.render ++ "." ++ c.column.render
  | none => c.column.render

end ColumnRef

end SkyQuery
