import SkyQuery.Diagnostic.Basic
import SkyQuery.Tree.Printer

/-!
# Dialects of SQL

`Dialect` is what a database does in its own way: names, limits on rows, geometry functions and
comparisons. `Dialect.query` writes a query in a dialect; what the dialect cannot express is an
error and never left out.
-/

namespace SkyQuery

/-- Why something has no form in a dialect. -/
inductive Inexpressible where
  | unsupported (what : String)
  | region (cause : Diagnostic)
  deriving DecidableEq, Repr

def Inexpressible.render : Inexpressible → String
  | .unsupported what => "Impossible to translate " ++ what ++ " into SQL!"
  | .region cause => "Impossible to translate a region: " ++ cause.render

namespace Sql

/-- A text of SQL, or why there is none. -/
abbrev SqlText : Type := Except Inexpressible String

def unsupported (what : String) : SqlText := .error (.unsupported what)

/-- What a database does in its own way. -/
structure Dialect where
  /-- A name as the database reads it. -/
  identifier : Identifier → String
  /-- The clauses that limit the number of rows and leave out the first ones. -/
  rows : (limit offset : Option Nat) → String
  /-- A geometry function, given its arguments and what each of them is in the dialect. -/
  geometry : GeometryFn → (sys : Option Operand) → (args : List Operand) →
    List SqlText → SqlText
  /-- A comparison, given what an operand is in the dialect. -/
  comparison : (Operand → SqlText) → Operand → ComparisonOp → Operand → SqlText

/-- `left op right` -/
def plainComparison (operand : Operand → SqlText) (left : Operand) (op : ComparisonOp)
    (right : Operand) : SqlText := do
  let l ← operand left
  let r ← operand right
  return l ++ " " ++ op.symbol ++ " " ++ r

/-- `LIMIT` and `OFFSET` -/
def limitOffset (limit offset : Option Nat) : String :=
  let clause (word : String) (n : Option Nat) : String :=
    match n with
    | some n => "\n" ++ word ++ " " ++ toString n
    | none => ""
  clause "LIMIT" limit ++ clause "OFFSET" offset

/-- The database PostgreSQL, which has no geometry functions of its own. -/
def postgres : Dialect where
  identifier := Identifier.render
  rows := limitOffset
  geometry fn _ _ _ := unsupported ("the geometrical function \"" ++ fn.name ++ "\"")
  comparison := plainComparison

namespace Dialect

variable (d : Dialect)

def names (l : List Identifier) : String := commaList (l.map d.identifier)

def tableName (t : TableName) : String :=
  joinWith "." ((t.catalog.toList ++ t.schema.toList ++ [t.table]).map d.identifier)

def column (c : ColumnRef) : String :=
  match c.table with
  | some table => d.tableName table ++ "." ++ d.identifier c.column
  | none => d.identifier c.column

def withAlias (text : String) : Option Identifier → String
  | some label => text ++ " AS " ++ d.identifier label
  | none => text

def sequence : List SqlText → Except Inexpressible (List String)
  | [] => .ok []
  | t :: rest => do
    let first ← t
    let others ← sequence rest
    return first :: others

def commas (l : List SqlText) : SqlText := (sequence l).map commaList

/-- A minus sign before a text; one before another minus sign would start a comment. -/
def negated (text : String) : String :=
  match text.toList with
  | '-' :: _ => "-(" ++ text ++ ")"
  | _ => "-" ++ text

/-- A mathematical function. Rounding to a number of digits needs a decimal number. -/
def math (fn : MathFn) (args : List SqlText) : SqlText := do
  let texts ← sequence args
  let all := commaList texts
  let rounded (name : String) : String :=
    match texts with
    | [value, digits] => name ++ "(CAST(" ++ value ++ " AS NUMERIC), " ++ digits ++ ")"
    | _ => name ++ "(" ++ all ++ ")"
  match fn with
  | .log => return "LN(" ++ all ++ ")"
  | .log10 => return "LOG(" ++ all ++ ")"
  | .rand => if texts.isEmpty then return "RANDOM()" else unsupported "RAND with a seed"
  | .round => return rounded "ROUND"
  | .truncate => return rounded "TRUNC"
  | fn => return fn.name ++ "(" ++ all ++ ")"

mutual

def operand : Operand → SqlText
  | .numeric text _ => .ok text
  | .string value _ => .ok (Text.quoted '\'' value)
  | .column ref _ => .ok (d.column ref)
  | .negative inner _ => do
    let text ← operand inner
    return negated text
  | .operation left op right _ => do
    let l ← operand left
    let r ← operand right
    return l ++ " " ++ op.symbol ++ " " ++ r
  | .concatenation parts _ => do
    let texts ← sequence (operands parts)
    return joinWith " || " texts
  | .wrapped inner _ => do
    let text ← operand inner
    return "(" ++ text ++ ")"
  | .math fn args _ => math fn (operands args)
  | .aggregate fn distinct (some arg) _ => do
    let text ← operand arg
    return fn.name ++ "(" ++ textIf distinct "DISTINCT " ++ text ++ ")"
  | .aggregate fn distinct none _ => .ok (fn.name ++ "(" ++ textIf distinct "DISTINCT " ++ "*)")
  | .geometry fn sys args _ => d.geometry fn sys args (operands args)
  | .lower value _ => do
    let text ← operand value
    return "LOWER(" ++ text ++ ")"
  | .upper value _ => do
    let text ← operand value
    return "UPPER(" ++ text ++ ")"
  | .coalesce args _ => do
    let texts ← commas (operands args)
    return "COALESCE(" ++ texts ++ ")"
  | .inUnit _ _ _ => unsupported "IN_UNIT"
  | .cast value target _ => do
    let text ← operand value
    return "CAST(" ++ text ++ " AS " ++ target.render ++ ")"
  | .userDefined name args _ => do
    let texts ← commas (operands args)
    return d.identifier name ++ "(" ++ texts ++ ")"

def operands : List Operand → List SqlText
  | [] => []
  | o :: rest => operand o :: operands rest

end

def selectItem : SelectItem → SqlText
  | .all _ => .ok "*"
  | .allOf table _ => .ok (d.tableName table ++ ".*")
  | .expr o label => do
    let text ← d.operand o
    return d.withAlias text label

def orderItem (o : OrderItem) : SqlText := do
  let text ← d.operand o.expr
  return text ++ textIf o.descending " DESC"

def orderBy (l : List OrderItem) : SqlText := do
  if l.isEmpty then return ""
  let texts ← commas (l.map d.orderItem)
  return "\nORDER BY " ++ texts

def groupBy (l : List Operand) : SqlText := do
  if l.isEmpty then return ""
  let texts ← commas (d.operands l)
  return "\nGROUP BY " ++ texts

mutual

def constraint : Constraint → SqlText
  | .comparison left op right _ => d.comparison d.operand left op right
  | .between value low high negated _ => do
    let v ← d.operand value
    let l ← d.operand low
    let h ← d.operand high
    return v ++ " " ++ textIf negated "NOT " ++ "BETWEEN " ++ l ++ " AND " ++ h
  | .inValues value values negated _ => do
    let list ← commas (d.operands values)
    let v ← d.operand value
    return v ++ " " ++ textIf negated "NOT " ++ "IN (" ++ list ++ ")"
  | .inQuery value source negated _ => do
    let list ← query source
    let v ← d.operand value
    return v ++ " " ++ textIf negated "NOT " ++ "IN (" ++ list ++ ")"
  | .isNull value negated _ => do
    let v ← d.operand value
    return v ++ " IS " ++ textIf negated "NOT " ++ "NULL"
  | .nonEmpty source _ => do
    let text ← query source
    return "EXISTS(" ++ text ++ ")"
  | .not inner _ => do
    let text ← constraint inner
    return "NOT " ++ text
  | .and left right _ => do
    let l ← constraint left
    let r ← constraint right
    return l ++ " AND " ++ r
  | .or left right _ => do
    let l ← constraint left
    let r ← constraint right
    return l ++ " OR " ++ r
  | .group inner _ => do
    let text ← constraint inner
    return "(" ++ text ++ ")"

def fromItem : FromItem → SqlText
  | .table name label _ => .ok (d.withAlias (d.tableName name) label)
  | .subquery source label _ => do
    let text ← query source
    return "(" ++ text ++ ") AS " ++ d.identifier label
  | .join left kind natural right condition _ => do
    let l ← fromItem left
    let r ← fromItem right
    let c ← joinCondition condition
    return l ++ " " ++ textIf natural "NATURAL " ++ kind.words ++ " " ++ r ++ c

def joinCondition : JoinCondition → SqlText
  | .unstated => .ok ""
  | .on condition => do
    let text ← constraint condition
    return " ON " ++ text
  | .sharing columns => .ok (" USING (" ++ d.names columns ++ ")")

def selectQuery : SelectQuery → SqlText
  | { clause, source, filter, groupBy, having, orderBy, offset, .. } => do
    let items ← commas (clause.items.map d.selectItem)
    let sources ← commas (fromItems source)
    let filterText ← match filter with
      | some condition => do
        let text ← constraint condition
        pure ("\nWHERE " ++ text)
      | none => pure ""
    let groups ← d.groupBy groupBy
    let havingText ← match having with
      | some condition => do
        let text ← constraint condition
        pure ("\nHAVING " ++ text)
      | none => pure ""
    let order ← d.orderBy orderBy
    return "SELECT " ++ textIf clause.distinct "DISTINCT " ++ items ++ "\nFROM " ++ sources ++
      filterText ++ groups ++ havingText ++ order ++
      d.rows clause.top (offset.map Offset.value)

def setOperation : SetOperation → SqlText
  | { left, op, all, right, orderBy, offset, .. } => do
    let l ← body left
    let r ← body right
    let order ← d.orderBy orderBy
    return "(" ++ l ++ ")\n" ++ op.word ++ textIf all " ALL" ++ "\n(" ++ r ++ ")" ++ order ++
      d.rows none (offset.map Offset.value)

def body : QueryBody → SqlText
  | .select q => selectQuery q
  | .set operation => setOperation operation

def withItem : WithItem → SqlText
  | { name, columns, query := source, .. } => do
    let text ← query source
    return d.identifier name ++
      (if columns.isEmpty then "" else "(" ++ d.names columns ++ ")") ++ " AS (" ++ text ++ ")"

def query : Query → SqlText
  | { withItems := items, body := inner, .. } => do
    let texts ← commas (withAll items)
    let text ← body inner
    return (if items.isEmpty then "" else "WITH " ++ texts ++ "\n") ++ text

def fromItems : List FromItem → List SqlText
  | [] => []
  | item :: rest => fromItem item :: fromItems rest

def withAll : List WithItem → List SqlText
  | [] => []
  | item :: rest => withItem item :: withAll rest

end

end Dialect

end Sql

end SkyQuery
