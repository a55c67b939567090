import SkyQuery.Grammar.Entry

/-!
# Well-formed trees

What holds of every tree that is read from a text of some version, at every depth: names and
numbers are tokens, expressions nest by precedence and have the types and arities that their places
demand, and the clauses of a query stand where the grammar puts them. `Operand.rank` and its
fellows say how tightly a node binds; a node in parentheses binds tightest.
-/

namespace SkyQuery

open Grammar

/-! ### Names and numbers -/

/-- A name that is written between double quotes, or that can be written without them. -/
def Identifier.WellFormed (v : Version) (i : Identifier) : Prop :=
  i.delimited = true ∨ Reserved.isRegular v i.name = true

def TableName.WellFormed (v : Version) (t : TableName) : Prop :=
  t.table.WellFormed v ∧ (∀ i ∈ t.schema, i.WellFormed v) ∧ (∀ i ∈ t.catalog, i.WellFormed v) ∧
    (t.catalog.isSome → t.schema.isSome)

def ColumnRef.WellFormed (v : Version) (c : ColumnRef) : Prop :=
  c.column.WellFormed v ∧ ∀ t ∈ c.table, t.WellFormed v

/-- A text that starts with a digit, or with a point before a digit. -/
def Lexer.startsNumber : List Char → Bool
  | [] => false
  | c :: rest => c.isDigit || (c == '.' && (rest.head?.map Char.isDigit).getD false)

/-- A text that is one number, which is a token of the kind `k`. -/
def Lexer.IsNumber (k : Kind) (text : List Char) : Prop :=
  Lexer.startsNumber text = true ∧ Lexer.number text = (k, text.length)

/-! ### Expressions -/

def ArithOp.rank : ArithOp → Nat
  | .add | .sub => 1
  | .mul | .div => 2

/-- How tightly an expression binds. -/
def Operand.rank : Operand → Nat
  | .concatenation .. => 0
  | .operation _ op _ _ => op.rank
  | .negative .. => 3
  | _ => 4

def CastType.WellFormed : CastType → Prop
  | .char (some n) | .varChar (some n) => n < Nat.pow 2 32
  | _ => True

/-- The arguments that a form of a shape takes. -/
def Grammar.ShapeForm.Takes : ShapeForm → List Operand → Prop
  | .numbers, args => ∀ a ∈ args, a.isNumeric
  | .points, args => ∀ a ∈ args, a.isGeometry
  | .centred, args => (∀ a ∈ args.head?, a.isGeometry) ∧ ∀ a ∈ args.tail, a.isNumeric

/-- A shape has a coordinate system if its version demands one or if the arguments say so. -/
def ShapeRule (v : Version) (fn : GeometryFn) (sys : Option Operand) (args : List Operand) : Prop :=
  sys.isSome = (v == .v20 || startsWithCoordSys fn (sys.toList ++ args)) ∧
    (∀ s ∈ sys, s.isString) ∧
    ∃ form, shapeForm? v fn args.length ((args.head?.map isPointLike).getD false) = some form ∧
      form.Takes args

/-- The arguments of a geometry function that is not a shape. -/
def GeometryArgsRule (v : Version) (fn : GeometryFn) (args : List Operand) : Prop :=
  match fn with
  | .contains | .intersects => args.length = 2 ∧ ∀ a ∈ args, a.isGeometry
  | .distance =>
    (args.length = 2 ∧ ∀ a ∈ args, a.isGeometry) ∨
      (args.length = 4 ∧ v = .v21 ∧ ∀ a ∈ args, a.isNumeric)
  | .region => args.length = 1 ∧ ∀ a ∈ args, a.isString
  | _ => args.length = 1 ∧ ∀ a ∈ args, a.isGeometry

/-- What holds of an expression apart from what holds of its parts. -/
def Operand.Rule (v : Version) : Operand → Prop
  | .numeric text _ => ∃ k, k.isNumber ∧ Lexer.IsNumber k text.toList
  | .string .. | .wrapped .. => True
  | .column ref _ => ref.WellFormed v
  | .negative inner _ => inner.isNumeric ∧ 3 ≤ inner.rank
  | .operation left op right _ =>
    left.isNumeric ∧ right.isNumeric ∧ op.rank ≤ left.rank ∧ op.rank < right.rank
  | .concatenation parts _ => 2 ≤ parts.length ∧ ∀ p ∈ parts, p.isString ∧ 0 < p.rank
  | .math fn args _ =>
    fn.minArity ≤ args.length ∧ args.length ≤ fn.maxArity ∧ ∀ a ∈ args, a.isNumeric
  | .aggregate fn distinct none _ => fn = .count ∧ distinct = false
  | .aggregate fn _ (some arg) _ => fn = .avg ∨ fn = .sum → arg.isNumeric
  | .geometry fn sys args _ =>
    (Keyword.geometry fn).availableIn v ∧
      if fn.isShape then ShapeRule v fn sys args else sys = none ∧ GeometryArgsRule v fn args
  | .lower value _ | .upper value _ => v = .v21 ∧ value.isString
  | .coalesce args _ => v = .v21 ∧ args ≠ []
  | .inUnit value unit _ => v = .v21 ∧ value.isNumeric ∧ unit.isString
  | .cast _ target _ => v = .v21 ∧ target.WellFormed
  | .userDefined name _ _ => name.delimited = false ∧ name.WellFormed v

/-- The rule of expressions holds of an expression and, at every depth, of its parts. -/
inductive Operand.WellFormed (v : Version) : Operand → Prop
  | intro {o : Operand} (rule : o.Rule v) (parts : ∀ c ∈ o.children, Operand.WellFormed v c) :
    Operand.WellFormed v o

/-! ### Clauses without conditions -/

def SelectItem.WellFormed (v : Version) : SelectItem → Prop
  | .all _ => True
  | .allOf table _ => table.WellFormed v
  | .expr operand label => operand.WellFormed v ∧ ∀ i ∈ label, i.WellFormed v

def SelectClause.WellFormed (v : Version) (c : SelectClause) : Prop :=
  (∀ n ∈ c.top, n < Nat.pow 2 64) ∧ c.items ≠ [] ∧ ∀ item ∈ c.items, item.WellFormed v

/-- The first version orders by columns and by numbers of result columns only. -/
def OrderItem.WellFormed (v : Version) (o : OrderItem) : Prop :=
  o.expr.WellFormed v ∧
    (v = .v20 → o.expr.asColumn?.isSome ∨
      ∃ text span, o.expr = .numeric text span ∧ Lexer.IsNumber .integer text.toList)

/-- The first version groups by columns only. -/
def GroupItem.WellFormed (v : Version) (o : Operand) : Prop :=
  o.WellFormed v ∧ (v = .v20 → o.asColumn?.isSome)

def Offset.WellFormed (v : Version) (o : Offset) : Prop := v = .v21 ∧ o.value < Nat.pow 2 64

/-- What ends a query. -/
def TailRule (v : Version) (orderBy : List OrderItem) (offset : Option Offset) : Prop :=
  (∀ o ∈ orderBy, o.WellFormed v) ∧ ∀ o ∈ offset, o.WellFormed v

/-! ### Conditions and queries -/

/-- How tightly a condition binds. -/
def Constraint.rank : Constraint → Nat
  | .or .. => 0
  | .and .. => 1
  | .not .. => 2
  | _ => 3

/-- The types of the two sides of a comparison. -/
def ComparisonRule (v : Version) (left : Operand) (op : ComparisonOp) (right : Operand) : Prop :=
  (op.ignoresCase → v = .v21) ∧
    if op.isPattern then left.isString ∧ right.isString else comparable left right

def SetOperator.rank : SetOperator → Nat
  | .union | .except => 0
  | .intersect => 1

/-- How tightly a query body binds. -/
def QueryBody.rank : QueryBody → Nat
  | .select _ => 2
  | .set operation => operation.op.rank

/-- A body that has neither order nor offset of its own. -/
def QueryBody.Plain : QueryBody → Prop
  | .select query => query.orderBy = [] ∧ query.offset = none
  | .set operation => operation.orderBy = [] ∧ operation.offset = none

def FromItem.isJoin : FromItem → Bool
  | .join .. => true
  | _ => false

/-- A condition stands exactly at the joins that are neither natural nor cross joins. -/
def JoinRule (kind : JoinKind) (natural : Bool) (condition : JoinCondition) : Prop :=
  match condition with
  | .unstated => natural = true ∧ kind ≠ .cross ∨ natural = false ∧ kind = .cross
  | .on _ => natural = false ∧ kind ≠ .cross
  | .sharing columns => natural = false ∧ kind ≠ .cross ∧ columns ≠ []

mutual

def Constraint.WellFormed (v : Version) : Constraint → Prop
  | .comparison left op right _ =>
    ComparisonRule v left op right ∧ left.WellFormed v ∧ right.WellFormed v
  | .between value low high _ _ => value.WellFormed v ∧ low.WellFormed v ∧ high.WellFormed v
  | .inValues value values _ _ =>
    values ≠ [] ∧ value.WellFormed v ∧ ∀ o ∈ values, o.WellFormed v
  | .inQuery value query _ _ => value.WellFormed v ∧ query.Nested v
  | .isNull value _ _ => value.asColumn?.isSome ∧ value.WellFormed v
  | .nonEmpty query _ => query.Nested v
  | .not inner _ => 2 ≤ inner.rank ∧ inner.WellFormed v
  | .and left right _ => 1 ≤ left.rank ∧ 1 < right.rank ∧ left.WellFormed v ∧ right.WellFormed v
  | .or left right _ => 0 < right.rank ∧ left.WellFormed v ∧ right.WellFormed v
  | .group inner _ => inner.WellFormed v

def FromItem.WellFormed (v : Version) : FromItem → Prop
  | .table name label _ => name.WellFormed v ∧ ∀ i ∈ label, i.WellFormed v
  | .subquery query label _ => query.Nested v ∧ label.WellFormed v
  | .join left kind natural right condition _ =>
    JoinRule kind natural condition ∧ right.isJoin = false ∧ left.WellFormed v ∧
      right.WellFormed v ∧ condition.WellFormed v

def JoinCondition.WellFormed (v : Version) : JoinCondition → Prop
  | .unstated => True
  | .on condition => condition.WellFormed v
  | .sharing columns => ∀ i ∈ columns, i.WellFormed v

def SelectQuery.WellFormed (v : Version) : SelectQuery → Prop
  | { clause, source, filter, groupBy, having, orderBy, offset, .. } =>
    clause.WellFormed v ∧ source ≠ [] ∧ FromItem.AllWellFormed v source ∧
      Constraint.EachWellFormed v filter ∧ (∀ o ∈ groupBy, GroupItem.WellFormed v o) ∧
      Constraint.EachWellFormed v having ∧ TailRule v orderBy offset

/-- The sides of a set operation have no order and no offset, and nest by precedence. -/
def SetOperation.WellFormed (v : Version) : SetOperation → Prop
  | { left, op, right, orderBy, offset, .. } =>
    v = .v21 ∧ op.rank ≤ left.rank ∧ op.rank < right.rank ∧ left.Plain ∧ right.Plain ∧
      left.WellFormed v ∧ right.WellFormed v ∧ TailRule v orderBy offset

def QueryBody.WellFormed (v : Version) : QueryBody → Prop
  | .select query => query.WellFormed v
  | .set operation => operation.WellFormed v

/-- A well-formed query that names no other queries, as all do that stand in another query. -/
def Query.Nested (v : Version) : Query → Prop
  | { withItems, body, .. } => withItems = [] ∧ body.WellFormed v

def Constraint.EachWellFormed (v : Version) : Option Constraint → Prop
  | none => True
  | some condition => condition.WellFormed v

def FromItem.AllWellFormed (v : Version) : List FromItem → Prop
  | [] => True
  | item :: rest => item.WellFormed v ∧ FromItem.AllWellFormed v rest

end

def WithItem.WellFormed (v : Version) (item : WithItem) : Prop :=
  v = .v21 ∧ item.name.WellFormed v ∧ (∀ i ∈ item.columns, i.WellFormed v) ∧ item.query.Nested v

/-- A well-formed query; what stands after `WITH` is nested. -/
def Query.WellFormed (v : Version) (q : Query) : Prop :=
  (∀ item ∈ q.withItems, item.WellFormed v) ∧ q.body.WellFormed v

theorem Constraint.eachWellFormed_iff {v : Version} {condition : Option Constraint} :
    Constraint.EachWellFormed v condition ↔ ∀ c ∈ condition, c.WellFormed v := by
  cases condition <;> simp [Constraint.EachWellFormed]

theorem FromItem.allWellFormed_iff {v : Version} {items : List FromItem} :
    FromItem.AllWellFormed v items ↔ ∀ item ∈ items, item.WellFormed v := by
  induction items with
  | nil => simp [FromItem.AllWellFormed]
  | cons item rest ih => simp [FromItem.AllWellFormed, ih]

end SkyQuery
