import SkyQuery.Builtin
import SkyQuery.Name
import SkyQuery.Source.Span

/-!
# Syntax trees

Value expressions (`Operand`), search conditions (`Constraint`), what queries read from (`FromItem`)
and queries. Each node that can stand alone in a text keeps the span it was read from; a node that
was built otherwise has none.
-/

namespace SkyQuery

inductive ArithOp where
  | add | sub | mul | div
  deriving DecidableEq, Repr

def ArithOp.symbol : ArithOp → String
  | .add => "+"
  | .sub => "-"
  | .mul => "*"
  | .div => "/"

/-- The types to which a value can be cast; texts may have a length. -/
inductive CastType where
  | smallInt | integer | bigInt | real | doublePrecision | timestamp
  | char (length : Option Nat)
  | varChar (length : Option Nat)
  deriving DecidableEq, Repr

def CastType.isNumeric : CastType → Bool
  | .smallInt | .integer | .bigInt | .real | .doublePrecision => true
  | .timestamp | .char _ | .varChar _ => false

inductive Operand where
  /-- An unsigned number, as it is written. -/
  | numeric (text : String) (span : Option Span)
  | string (value : String) (span : Option Span)
  | column (ref : ColumnRef) (span : Option Span)
  | negative (inner : Operand) (span : Option Span)
  | operation (left : Operand) (op : ArithOp) (right : Operand) (span : Option Span)
  | concatenation (parts : List Operand) (span : Option Span)
  | wrapped (inner : Operand) (span : Option Span)
  | math (fn : MathFn) (args : List Operand) (span : Option Span)
  /-- An aggregate; without argument it is over all columns. -/
  | aggregate (fn : AggregateFn) (distinct : Bool) (arg : Option Operand) (span : Option Span)
  /-- A geometry; shapes have their coordinate system apart from their coordinates. -/
  | geometry (fn : GeometryFn) (coordSys : Option Operand) (args : List Operand)
    (span : Option Span)
  | lower (value : Operand) (span : Option Span)
  | upper (value : Operand) (span : Option Span)
  | coalesce (args : List Operand) (span : Option Span)
  | inUnit (value unit : Operand) (span : Option Span)
  | cast (value : Operand) (target : CastType) (span : Option Span)
  | userDefined (name : Identifier) (args : List Operand) (span : Option Span)

inductive ComparisonOp where
  | eq | notEq | lt | ltEq | gt | gtEq | like | notLike | ilike | notIlike
  deriving DecidableEq, Repr

namespace ComparisonOp

def symbol : ComparisonOp → String
  | .eq => "="
  | .notEq => "!="
  | .lt => "<"
  | .ltEq => "<="
  | .gt => ">"
  | .gtEq => ">="
  | .like => "LIKE"
  | .notLike => "NOT LIKE"
  | .ilike => "ILIKE"
  | .notIlike => "NOT ILIKE"

/-- The operators that match a text with a pattern. -/
def isPattern : ComparisonOp → Bool
  | .like | .notLike | .ilike | .notIlike => true
  | _ => false

/-- The pattern operators for which letter case does not count. -/
def ignoresCase : ComparisonOp → Bool
  | .ilike | .notIlike => true
  | _ => false

end ComparisonOp

inductive JoinKind where
  | inner | leftOuter | rightOuter | fullOuter | cross
  deriving DecidableEq, Repr

def JoinKind.words : JoinKind → String
  | .inner => "INNER JOIN"
  | .leftOuter => "LEFT OUTER JOIN"
  | .rightOuter => "RIGHT OUTER JOIN"
  | .fullOuter => "FULL OUTER JOIN"
  | .cross => "CROSS JOIN"

inductive SetOperator where
  | union | intersect | except
  deriving DecidableEq, Repr

def SetOperator.word : SetOperator → String
  | .union => "UNION"
  | .intersect => "INTERSECT"
  | .except => "EXCEPT"

/-- One result column, or all those of a table or of the query. -/
inductive SelectItem where
  | all (span : Option Span)
  | allOf (table : TableName) (span : Option Span)
  | expr (operand : Operand) (label : Option Identifier)

structure SelectClause where
  distinct : Bool
  top : Option Nat
  items : List SelectItem
  span : Option Span

structure OrderItem where
  expr : Operand
  descending : Bool
  span : Option Span

/-- The number of rows to leave out. -/
structure Offset where
  value : Nat
  span : Option Span

mutual

inductive Constraint where
  | comparison (left : Operand) (op : ComparisonOp) (right : Operand) (span : Option Span)
  | between (value low high : Operand) (negated : Bool) (span : Option Span)
  | inValues (value : Operand) (values : List Operand) (negated : Bool) (span : Option Span)
  | inQuery (value : Operand) (query : Query) (negated : Bool) (span : Option Span)
  | isNull (value : Operand) (negated : Bool) (span : Option Span)
  /-- The query has at least one row. -/
  | nonEmpty (query : Query) (span : Option Span)
  | not (inner : Constraint) (span : Option Span)
  | and (left right : Constraint) (span : Option Span)
  | or (left right : Constraint) (span : Option Span)
  | group (inner : Constraint) (span : Option Span)

/-- What a query reads from. -/
inductive FromItem where
  | table (name : TableName) (label : Option Identifier) (span : Option Span)
  | subquery (query : Query) (label : Identifier) (span : Option Span)
  | join (left : FromItem) (kind : JoinKind) (natural : Bool) (right : FromItem)
    (condition : JoinCondition) (span : Option Span)

/-- How the rows of a join are matched. -/
inductive JoinCondition where
  | unstated
  | on (condition : Constraint)
  | sharing (columns : List Identifier)

structure SelectQuery where
  clause : SelectClause
  source : List FromItem
  filter : Option Constraint
  groupBy : List Operand
  having : Option Constraint
  orderBy : List OrderItem
  offset : Option Offset
  span : Option Span

/-- Two query bodies joined by a set operator; `all` keeps duplicated rows. -/
structure SetOperation where
  left : QueryBody
  op : SetOperator
  all : Bool
  right : QueryBody
  orderBy : List OrderItem
  offset : Option Offset
  span : Option Span

inductive QueryBody where
  | select (query : SelectQuery)
  | set (operation : SetOperation)

/-- A named query that the ones after it can read from. -/
structure WithItem where
  name : Identifier
  columns : List Identifier
  query : Query
  span : Option Span

structure Query where
  withItems : List WithItem
  body : QueryBody
  span : Option Span

end

namespace Operand

def span : Operand → Option Span
  | .numeric _ s | .string _ s | .column _ s | .negative _ s | .operation _ _ _ s
  | .concatenation _ s | .wrapped _ s | .math _ _ s | .aggregate _ _ _ s | .geometry _ _ _ s
  | .lower _ s | .upper _ s | .coalesce _ s | .inUnit _ _ s | .cast _ _ s
  | .userDefined _ _ s => s

def asString? : Operand → Option String
  | .string value _ => some value
  | _ => none

def asColumn? : Operand → Option ColumnRef
  | .column ref _ => some ref
  | _ => none

/-- The name of the function that is called, as a user wrote it if it is theirs. -/
def functionName? : Operand → Option String
  | .math fn .. => some fn.name
  | .aggregate fn .. => some fn.name
  | .geometry fn .. => some fn.name
  | .lower .. => some "LOWER"
  | .upper .. => some "UPPER"
  | .coalesce .. => some "COALESCE"
  | .inUnit .. => some "IN_UNIT"
  | .cast .. => some "CAST"
  | .userDefined name .. => some name.name
  | _ => none

/-- The direct parts of an expression, in the order of the text. -/
def children : Operand → List Operand
  | .numeric .. | .string .. | .column .. => []
  | .negative inner _ | .wrapped inner _ => [inner]
  | .operation left _ right _ => [left, right]
  | .concatenation parts _ => parts
  | .math _ args _ | .coalesce args _ | .userDefined _ args _ => args
  | .aggregate _ _ arg _ => arg.toList
  | .geometry _ coordSys args _ => coordSys.toList ++ args
  | .lower value _ | .upper value _ | .cast value _ _ => [value]
  | .inUnit value unit _ => [value, unit]

end Operand

namespace Constraint

def span : Constraint → Option Span
  | .comparison _ _ _ s | .between _ _ _ _ s | .inValues _ _ _ s | .inQuery _ _ _ s
  | .isNull _ _ s | .nonEmpty _ s | .not _ s | .and _ _ s | .or _ _ s | .group _ s => s

/-- The expressions of a condition that belong to none of its parts. -/
def operands : Constraint → List Operand
  | .comparison left _ right _ => [left, right]
  | .between value low high _ _ => [value, low, high]
  | .inValues value values _ _ => value :: values
  | .inQuery value _ _ _ | .isNull value _ _ => [value]
  | .nonEmpty .. | .not .. | .and .. | .or .. | .group .. => []

/-- The conditions of which a condition is made. -/
def children : Constraint → List Constraint
  | .not inner _ | .group inner _ => [inner]
  | .and left right _ | .or left right _ => [left, right]
  | _ => []

/-- The queries on which a condition depends directly. -/
def subqueries : Constraint → List Query
  | .nonEmpty query _ | .inQuery _ query _ _ => [query]
  | _ => []

end Constraint

namespace SelectItem

def span : SelectItem → Option Span
  | .all s | .allOf _ s => s
  | .expr operand _ => operand.span

end SelectItem

namespace FromItem

def span : FromItem → Option Span
  | .table _ _ s | .subquery _ _ s | .join _ _ _ _ _ s => s

/-- The name by which columns refer to an item. -/
def exposedName : FromItem → Option TableName
  | .table name label _ => some (match label with
    | some label => { table := label }
    | none => name)
  | .subquery _ label _ => some { table := label }
  | .join .. => none

/-- The tables and queries that an item joins, from left to right. -/
def leaves : FromItem → List FromItem
  | .join left _ _ right _ _ => left.leaves ++ right.leaves
  | leaf => [leaf]

end FromItem

namespace QueryBody

def span : QueryBody → Option Span
  | .select query => query.span
  | .set operation => operation.span

def firstSelect : QueryBody → SelectQuery
  | .select query => query
  | .set { left, .. } => left.firstSelect

end QueryBody

namespace Query

/-- The clause that names the result columns of a query. -/
def resultClause (q : Query) : SelectClause := q.body.firstSelect.clause

/-- The set operation of a query, when its body is one. -/
def setOperation? (q : Query) : Option SetOperation :=
  match q.body with
  | .set operation => some operation
  | .select _ => none

end Query

end SkyQuery
