import SkyQuery.Tree.Basic

/-!
# Printer

The text of each node of a tree. It reads back as the same tree; optional words are written in one
way only, and clauses stand on lines of their own.
-/

namespace SkyQuery

/-- The texts with a separator between them. -/
def joinWith (separator : String) (parts : List String) : String :=
  String.intercalate separator parts

/-- The texts as a list of the language. -/
abbrev commaList (parts : List String) : String := joinWith ", " parts

/-- A text that stands only if a condition holds. -/
def textIf (condition : Bool) (text : String) : String := if condition then text else ""

def CastType.render : CastType → String
  | .smallInt => "SMALLINT"
  | .integer => "INTEGER"
  | .bigInt => "BIGINT"
  | .real => "REAL"
  | .doublePrecision => "DOUBLE PRECISION"
  | .timestamp => "TIMESTAMP"
  | .char none => "CHAR"
  | .char (some n) => "CHAR(" ++ toString n ++ ")"
  | .varChar none => "VARCHAR"
  | .varChar (some n) => "VARCHAR(" ++ toString n ++ ")"

/-- A minus sign before a text, kept apart from another one: two would start a comment. -/
def negated (text : String) : String :=
  match text.toList with
  | '-' :: _ => "- " ++ text
  | _ => "-" ++ text

mutual

def Operand.render : Operand → String
  | .numeric text _ => text
  | .string value _ => Text.quoted '\'' value
  | .column ref _ => ref.render
  | .negative inner _ => negated inner.render
  | .operation left op right _ => left.render ++ " " ++ op.symbol ++ " " ++ right.render
  | .concatenation parts _ => joinWith " || " (Operand.renderAll parts)
  | .wrapped inner _ => "(" ++ inner.render ++ ")"
  | .math fn args _ => fn.name ++ "(" ++ commaList (Operand.renderAll args) ++ ")"
  | .aggregate fn distinct arg _ =>
    fn.name ++ "(" ++ textIf distinct "DISTINCT " ++
      (match arg with
        | some arg => arg.render
        | none => "*") ++ ")"
  | .geometry fn (some coordSys) args _ =>
    fn.name ++ "(" ++ commaList (coordSys.render :: Operand.renderAll args) ++ ")"
  | .geometry fn none args _ => fn.name ++ "(" ++ commaList (Operand.renderAll args) ++ ")"
  | .lower value _ => "LOWER(" ++ value.render ++ ")"
  | .upper value _ => "UPPER(" ++ value.render ++ ")"
  | .coalesce args _ => "COALESCE(" ++ commaList (Operand.renderAll args) ++ ")"
  | .inUnit value unit _ => "IN_UNIT(" ++ value.render ++ ", " ++ unit.render ++ ")"
  | .cast value target _ => "CAST(" ++ value.render ++ " AS " ++ target.render ++ ")"
  | .userDefined name args _ => name.render ++ "(" ++ commaList (Operand.renderAll args) ++ ")"

def Operand.renderAll : List Operand → List String
  | [] => []
  | o :: rest => o.render :: Operand.renderAll rest

end

/-- An alias with the word that introduces it. -/
def renderAlias : Option Identifier → String
  | some label => " AS " ++ label.render
  | none => ""

def SelectItem.render : SelectItem → String
  | .all _ => "*"
  | .allOf table _ => table.render ++ ".*"
  | .expr operand label => operand.render ++ renderAlias label

def SelectClause.render (s : SelectClause) : String :=
  "SELECT " ++ textIf s.distinct "DISTINCT " ++
    (match s.top with
      | some n => "TOP " ++ toString n ++ " "
      | none => "") ++
    commaList (s.items.map SelectItem.render)

def OrderItem.render (o : OrderItem) : String := o.expr.render ++ textIf o.descending " DESC"

/-- The order and offset that end a query. -/
def renderTail (orderBy : List OrderItem) (offset : Option Offset) : String :=
  (if orderBy.isEmpty then "" else "\nORDER BY " ++ commaList (orderBy.map OrderItem.render)) ++
    (match offset with
      | some offset => "\nOFFSET " ++ toString offset.value
      | none => "")

mutual

def Constraint.render : Constraint → String
  | .comparison left op right _ => left.render ++ " " ++ op.symbol ++ " " ++ right.render
  | .between value low high negated _ =>
    value.render ++ " " ++ textIf negated "NOT " ++ "BETWEEN " ++ low.render ++ " AND " ++
      high.render
  | .inValues value values negated _ =>
    value.render ++ " " ++ textIf negated "NOT " ++ "IN (" ++
      commaList (Operand.renderAll values) ++ ")"
  | .inQuery value query negated _ =>
    value.render ++ " " ++ textIf negated "NOT " ++ "IN (" ++ query.render ++ ")"
  | .isNull value negated _ => value.render ++ " IS " ++ textIf negated "NOT " ++ "NULL"
  | .nonEmpty query _ => "EXISTS(" ++ query.render ++ ")"
  | .not inner _ => "NOT " ++ inner.render
  | .and left right _ => left.render ++ " AND " ++ right.render
  | .or left right _ => left.render ++ " OR " ++ right.render
  | .group inner _ => "(" ++ inner.render ++ ")"

def FromItem.render : FromItem → String
  | .table name label _ => name.render ++ renderAlias label
  | .subquery query label _ => "(" ++ query.render ++ ")" ++ renderAlias (some label)
  | .join left kind natural right condition _ =>
    left.render ++ " " ++ textIf natural "NATURAL " ++ kind.words ++ " " ++ right.render ++
      condition.render

def JoinCondition.render : JoinCondition → String
  | .unstated => ""
  | .on condition => " ON " ++ condition.render
  | .sharing columns => " USING (" ++ commaList (columns.map Identifier.render) ++ ")"

def SelectQuery.render : SelectQuery → String
  | { clause, source, filter, groupBy, having, orderBy, offset, .. } =>
    clause.render ++ "\nFROM " ++ commaList (FromItem.renderAll source) ++
      (match filter with
        | some condition => "\nWHERE " ++ condition.render
        | none => "") ++
      (if groupBy.isEmpty then "" else "\nGROUP BY " ++ commaList (Operand.renderAll groupBy)) ++
      (match having with
        | some condition => "\nHAVING " ++ condition.render
        | none => "") ++
      renderTail orderBy offset

def SetOperation.render : SetOperation → String
  | { left, op, all, right, orderBy, offset, .. } =>
    left.render ++ "\n" ++ op.word ++ textIf all " ALL" ++ "\n" ++ right.render ++
      renderTail orderBy offset

def QueryBody.render : QueryBody → String
  | .select query => query.render
  | .set operation => operation.render

def WithItem.render : WithItem → String
  | { name, columns, query, .. } =>
    name.render ++
      (if columns.isEmpty then "" else "(" ++ commaList (columns.map Identifier.render) ++ ")") ++
      " AS (" ++ query.render ++ ")"

def Query.render : Query → String
  | { withItems, body, .. } =>
    (if withItems.isEmpty then "" else "WITH " ++ commaList (WithItem.renderAll withItems) ++ "\n") ++
      body.render

def FromItem.renderAll : List FromItem → List String
  | [] => []
  | item :: rest => item.render :: FromItem.renderAll rest

def WithItem.renderAll : List WithItem → List String
  | [] => []
  | item :: rest => item.render :: WithItem.renderAll rest

end

end SkyQuery
