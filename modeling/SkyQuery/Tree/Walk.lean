import SkyQuery.Grammar.Entry

/-!
# Walking trees

`nodes` lists what a tree is made of in the order of the text, each node before its parts; a set
operation stands between its two sides. Of the operands it lists the outermost ones, in which
`Operand.nodes` finds the others.
-/

namespace SkyQuery

inductive Node where
  /-- An operand that belongs to no other. -/
  | operand (operand : Operand)
  | constraint (constraint : Constraint)
  | withItem (item : WithItem)
  | setOperation (operation : SetOperation)
  | offset (offset : Offset)

mutual

/-- An operand and all that it is made of, each before its parts. -/
def Operand.nodes : Operand → List Operand
  | .numeric text s => [.numeric text s]
  | .string value s => [.string value s]
  | .column ref s => [.column ref s]
  | .negative inner s => .negative inner s :: inner.nodes
  | .operation left op right s => .operation left op right s :: (left.nodes ++ right.nodes)
  | .concatenation parts s => .concatenation parts s :: Operand.allNodes parts
  | .wrapped inner s => .wrapped inner s :: inner.nodes
  | .math fn args s => .math fn args s :: Operand.allNodes args
  | .aggregate fn distinct (some arg) s => .aggregate fn distinct (some arg) s :: arg.nodes
  | .aggregate fn distinct none s => [.aggregate fn distinct none s]
  | .geometry fn (some sys) args s =>
    .geometry fn (some sys) args s :: (sys.nodes ++ Operand.allNodes args)
  | .geometry fn none args s => .geometry fn none args s :: Operand.allNodes args
  | .lower value s => .lower value s :: value.nodes
  | .upper value s => .upper value s :: value.nodes
  | .coalesce args s => .coalesce args s :: Operand.allNodes args
  | .inUnit value unit s => .inUnit value unit s :: (value.nodes ++ unit.nodes)
  | .cast value target s => .cast value target s :: value.nodes
  | .userDefined name args s => .userDefined name args s :: Operand.allNodes args

def Operand.allNodes : List Operand → List Operand
  | [] => []
  | o :: rest => o.nodes ++ Operand.allNodes rest

end

def SelectItem.nodes : SelectItem → List Node
  | .all _ | .allOf _ _ => []
  | .expr operand _ => [.operand operand]

def SelectClause.nodes (c : SelectClause) : List Node := c.items.flatMap SelectItem.nodes

def tailNodes (orderBy : List OrderItem) (offset : Option Offset) : List Node :=
  orderBy.map (fun item => .operand item.expr) ++ offset.toList.map .offset

mutual

def Constraint.nodes : Constraint → List Node
  | .comparison left op right s =>
    [.constraint (.comparison left op right s), .operand left, .operand right]
  | .between value low high negated s =>
    [.constraint (.between value low high negated s), .operand value, .operand low, .operand high]
  | .inValues value values negated s =>
    .constraint (.inValues value values negated s) :: .operand value :: values.map .operand
  | .inQuery value query negated s =>
    .constraint (.inQuery value query negated s) :: .operand value :: query.nodes
  | .isNull value negated s => [.constraint (.isNull value negated s), .operand value]
  | .nonEmpty query s => .constraint (.nonEmpty query s) :: query.nodes
  | .not inner s => .constraint (.not inner s) :: inner.nodes
  | .and left right s => .constraint (.and left right s) :: (left.nodes ++ right.nodes)
  | .or left right s => .constraint (.or left right s) :: (left.nodes ++ right.nodes)
  | .group inner s => .constraint (.group inner s) :: inner.nodes

def FromItem.nodes : FromItem → List Node
  | .table .. => []
  | .subquery query _ _ => query.nodes
  | .join left _ _ right condition _ => left.nodes ++ right.nodes ++ condition.nodes

def JoinCondition.nodes : JoinCondition → List Node
  | .unstated | .sharing _ => []
  | .on condition => condition.nodes

def SelectQuery.nodes : SelectQuery → List Node
  | { clause, source, filter, groupBy, having, orderBy, offset, .. } =>
    clause.nodes ++ FromItem.allNodes source ++
      (match filter with
        | some condition => condition.nodes
        | none => []) ++
      groupBy.map .operand ++
      (match having with
        | some condition => condition.nodes
        | none => []) ++
      tailNodes orderBy offset

def SetOperation.nodes : SetOperation → List Node
  | { left, op, all, right, orderBy, offset, span } =>
    left.nodes ++ .setOperation { left, op, all, right, orderBy, offset, span } ::
      (right.nodes ++ tailNodes orderBy offset)

def QueryBody.nodes : QueryBody → List Node
  | .select query => query.nodes
  | .set operation => operation.nodes

def Query.nodes : Query → List Node
  | { withItems, body, .. } => WithItem.allNodes withItems ++ body.nodes

def FromItem.allNodes : List FromItem → List Node
  | [] => []
  | item :: rest => item.nodes ++ FromItem.allNodes rest

def WithItem.allNodes : List WithItem → List Node
  | [] => []
  | { name, columns, query, span } :: rest =>
    .withItem { name, columns, query, span } :: (query.nodes ++ WithItem.allNodes rest)

end

def Fragment.nodes : Fragment → List Node
  | .query q => q.nodes
  | .select clause => clause.nodes
  | .source items => FromItem.allNodes items
  | .filter condition => condition.nodes
  | .orderBy items => items.map fun item => .operand item.expr
  | .groupBy items => items.map .operand

/-- The operands of a node that belong to no other node. -/
def Node.operands : Node → List Operand
  | .operand o => o.nodes
  | _ => []

def Fragment.operands (f : Fragment) : List Operand := f.nodes.flatMap Node.operands

def Fragment.constraints (f : Fragment) : List Constraint :=
  f.nodes.filterMap fun
    | .constraint c => some c
    | _ => none

end SkyQuery
