import SkyQuery.Name

/-!
# Tables of a database

What a service publishes about its tables, and which of them a written name stands for. A part that
the written name leaves out stands for anything.
-/

namespace SkyQuery

structure Table where
  catalog : Option String
  schema : Option String
  name : String
  columns : List String
  deriving DecidableEq, Repr

namespace Table

/-- Whether a written part stands for a published one. -/
def partDenoted : Option Identifier → Option String → Bool
  | none, _ => true
  | some written, some actual => written.denotesName actual true
  | some _, none => false

/-- Whether a written name stands for the table. -/
def denotedBy (t : Table) (written : TableName) : Bool :=
  written.table.denotesName t.name true && partDenoted written.schema t.schema &&
    partDenoted written.catalog t.catalog

/-- The column for which an identifier stands. -/
def column? (t : Table) (name : Identifier) : Option String :=
  t.columns.find? fun column => name.denotesName column true

/-- The published name as a written one. -/
def toName (t : Table) : TableName where
  catalog := t.catalog.map fun name => ⟨name, false⟩
  schema := t.schema.map fun name => ⟨name, false⟩
  table := ⟨t.name, false⟩

/-- The tables for which a written name stands. -/
def named (tables : List Table) (written : TableName) : List Table :=
  tables.filter fun t => t.denotedBy written

end Table

end SkyQuery
