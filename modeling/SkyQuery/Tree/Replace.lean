import SkyQuery.Tree.Walk

/-!
# Replacing operands

`replace` puts other operands into the place of some, as a function says; it does not look for more
inside an operand that it replaces. `replaceOperands` is the walk that does so one operand after the
other, and keeps on which operands the function was called.
-/

namespace SkyQuery

variable (f : Operand → Option Operand)

mutual

/-- The operand with its outermost replaceable parts replaced, itself first of all. -/
def Operand.replace (o : Operand) : Operand :=
  match f o with
  | some other => other
  | none =>
    match o with
    | .numeric text s => .numeric text s
    | .string value s => .string value s
    | .column ref s => .column ref s
    | .negative inner s => .negative (inner.replace) s
    | .operation left op right s => .operation left.replace op right.replace s
    | .concatenation parts s => .concatenation (Operand.replaceAll parts) s
    | .wrapped inner s => .wrapped inner.replace s
    | .math fn args s => .math fn (Operand.replaceAll args) s
    | .aggregate fn distinct (some arg) s => .aggregate fn distinct (some arg.replace) s
    | .aggregate fn distinct none s => .aggregate fn distinct none s
    | .geometry fn (some sys) args s =>
      .geometry fn (some sys.replace) (Operand.replaceAll args) s
    | .geometry fn none args s => .geometry fn none (Operand.replaceAll args) s
    | .lower value s => .lower value.replace s
    | .upper value s => .upper value.replace s
    | .coalesce args s => .coalesce (Operand.replaceAll args) s
    | .inUnit value unit s => .inUnit value.replace unit.replace s
    | .cast value target s => .cast value.replace target s
    | .userDefined name args s => .userDefined name (Operand.replaceAll args) s

def Operand.replaceAll : List Operand → List Operand
  | [] => []
  | o :: rest => o.replace :: Operand.replaceAll rest

end

def SelectItem.replace : SelectItem → SelectItem
  | .expr operand label => .expr (operand.replace f) label
  | item => item

def SelectClause.replace (c : SelectClause) : SelectClause :=
  { c with items := c.items.map (SelectItem.replace f) }

def OrderItem.replace (o : OrderItem) : OrderItem := { o with expr := o.expr.replace f }

mutual

def Constraint.replace : Constraint → Constraint
  | .comparison left op right s => .comparison (left.replace f) op (right.replace f) s
  | .between value low high negated s =>
    .between (value.replace f) (low.replace f) (high.replace f) negated s
  | .inValues value values negated s =>
    .inValues (value.replace f) (Operand.replaceAll f values) negated s
  | .inQuery value query negated s => .inQuery (value.replace f) query.replace negated s
  | .isNull value negated s => .isNull (value.replace f) negated s
  | .nonEmpty query s => .nonEmpty query.replace s
  | .not inner s => .not inner.replace s
  | .and left right s => .and left.replace right.replace s
  | .or left right s => .or left.replace right.replace s
  | .group inner s => .group inner.replace s

def FromItem.replace : FromItem → FromItem
  | .table name label s => .table name label s
  | .subquery query label s => .subquery query.replace label s
  | .join left kind natural right condition s =>
    .join left.replace kind natural right.replace condition.replace s

def JoinCondition.replace : JoinCondition → JoinCondition
  | .unstated => .unstated
  | .on condition => .on condition.replace
  | .sharing columns => .sharing columns

def SelectQuery.replace : SelectQuery → SelectQuery
  | { clause, source, filter, groupBy, having, orderBy, offset, span } =>
    { clause := clause.replace f
      source := FromItem.replaceAll source
      filter := match filter with
        | some condition => some condition.replace
        | none => none
      groupBy := Operand.replaceAll f groupBy
      having := match having with
        | some condition => some condition.replace
        | none => none
      orderBy := orderBy.map (OrderItem.replace f)
      offset, span }

def SetOperation.replace : SetOperation → SetOperation
  | { left, op, all, right, orderBy, offset, span } =>
    { left := left.replace
      op, all
      right := right.replace
      orderBy := orderBy.map (OrderItem.replace f)
      offset, span }

def QueryBody.replace : QueryBody → QueryBody
  | .select query => .select query.replace
  | .set operation => .set operation.replace

def Query.replace : Query → Query
  | { withItems, body, span } =>
    { withItems := WithItem.replaceAll withItems, body := body.replace, span }

def FromItem.replaceAll : List FromItem → List FromItem
  | [] => []
  | item :: rest => item.replace :: FromItem.replaceAll rest

def WithItem.replaceAll : List WithItem → List WithItem
  | [] => []
  | { name, columns, query, span } :: rest =>
    { name, columns, query := query.replace, span } :: WithItem.replaceAll rest

end

def Fragment.replace : Fragment → Fragment
  | .query q => .query (q.replace f)
  | .select clause => .select (clause.replace f)
  | .source items => .source (FromItem.replaceAll f items)
  | .filter condition => .filter (condition.replace f)
  | .orderBy items => .orderBy (items.map (OrderItem.replace f))
  | .groupBy items => .groupBy (Operand.replaceAll f items)

/-! ### The walk that replaces -/

/-- What a walk keeps: the operands on which the function was called, in order, and how many of them it
replaced. -/
structure Replacer where
  tried : List Operand := []
  count : Nat := 0

mutual

/-- Replaces the operand, or else what it can of its parts. -/
def Operand.visit (o : Operand) : StateM Replacer Operand := do
  modify fun r => { r with tried := r.tried ++ [o] }
  match f o with
  | some other =>
    modify fun r => { r with count := r.count + 1 }
    return other
  | none =>
    match o with
    | .numeric text s => return .numeric text s
    | .string value s => return .string value s
    | .column ref s => return .column ref s
    | .negative inner s => return .negative (← inner.visit) s
    | .operation left op right s => return .operation (← left.visit) op (← right.visit) s
    | .concatenation parts s => return .concatenation (← Operand.visitAll parts) s
    | .wrapped inner s => return .wrapped (← inner.visit) s
    | .math fn args s => return .math fn (← Operand.visitAll args) s
    | .aggregate fn distinct (some arg) s => return .aggregate fn distinct (some (← arg.visit)) s
    | .aggregate fn distinct none s => return .aggregate fn distinct none s
    | .geometry fn (some sys) args s =>
      return .geometry fn (some (← sys.visit)) (← Operand.visitAll args) s
    | .geometry fn none args s => return .geometry fn none (← Operand.visitAll args) s
    | .lower value s => return .lower (← value.visit) s
    | .upper value s => return .upper (← value.visit) s
    | .coalesce args s => return .coalesce (← Operand.visitAll args) s
    | .inUnit value unit s => return .inUnit (← value.visit) (← unit.visit) s
    | .cast value target s => return .cast (← value.visit) target s
    | .userDefined name args s => return .userDefined name (← Operand.visitAll args) s

def Operand.visitAll : List Operand → StateM Replacer (List Operand)
  | [] => return []
  | o :: rest => return (← o.visit) :: (← Operand.visitAll rest)

end

def SelectItem.visit : SelectItem → StateM Replacer SelectItem
  | .expr operand label => return .expr (← operand.visit f) label
  | item => return item

def SelectClause.visit (c : SelectClause) : StateM Replacer SelectClause :=
  return { c with items := ← c.items.mapM (SelectItem.visit f) }

def OrderItem.visit (o : OrderItem) : StateM Replacer OrderItem :=
  return { o with expr := ← o.expr.visit f }

mutual

/-- The operands of a condition come before the conditions and queries inside it. -/
def Constraint.visit : Constraint → StateM Replacer Constraint
  | .comparison left op right s => return .comparison (← left.visit f) op (← right.visit f) s
  | .between value low high negated s =>
    return .between (← value.visit f) (← low.visit f) (← high.visit f) negated s
  | .inValues value values negated s =>
    return .inValues (← value.visit f) (← Operand.visitAll f values) negated s
  | .inQuery value query negated s => return .inQuery (← value.visit f) (← query.visit) negated s
  | .isNull value negated s => return .isNull (← value.visit f) negated s
  | .nonEmpty query s => return .nonEmpty (← query.visit) s
  | .not inner s => return .not (← inner.visit) s
  | .and left right s => return .and (← left.visit) (← right.visit) s
  | .or left right s => return .or (← left.visit) (← right.visit) s
  | .group inner s => return .group (← inner.visit) s

def FromItem.visit : FromItem → StateM Replacer FromItem
  | .table name label s => return .table name label s
  | .subquery query label s => return .subquery (← query.visit) label s
  | .join left kind natural right condition s =>
    return .join (← left.visit) kind natural (← right.visit) (← condition.visit) s

def JoinCondition.visit : JoinCondition → StateM Replacer JoinCondition
  | .unstated => return .unstated
  | .on condition => return .on (← condition.visit)
  | .sharing columns => return .sharing columns

def SelectQuery.visit : SelectQuery → StateM Replacer SelectQuery
  | { clause, source, filter, groupBy, having, orderBy, offset, span } =>
    return {
      clause := ← clause.visit f
      source := ← FromItem.visitAll source
      filter := ← Constraint.visitEach filter
      groupBy := ← Operand.visitAll f groupBy
      having := ← Constraint.visitEach having
      orderBy := ← orderBy.mapM (OrderItem.visit f)
      offset, span }

def SetOperation.visit : SetOperation → StateM Replacer SetOperation
  | { left, op, all, right, orderBy, offset, span } =>
    return {
      left := ← left.visit
      op, all
      right := ← right.visit
      orderBy := ← orderBy.mapM (OrderItem.visit f)
      offset, span }

def QueryBody.visit : QueryBody → StateM Replacer QueryBody
  | .select query => return .select (← query.visit)
  | .set operation => return .set (← operation.visit)

def Query.visit : Query → StateM Replacer Query
  | { withItems, body, span } =>
    return { withItems := ← WithItem.visitAll withItems, body := ← body.visit, span }

def Constraint.visitEach : Option Constraint → StateM Replacer (Option Constraint)
  | none => return none
  | some condition => return some (← condition.visit)

def FromItem.visitAll : List FromItem → StateM Replacer (List FromItem)
  | [] => return []
  | item :: rest => return (← item.visit) :: (← FromItem.visitAll rest)

def WithItem.visitAll : List WithItem → StateM Replacer (List WithItem)
  | [] => return []
  | { name, columns, query, span } :: rest =>
    return { name, columns, query := ← query.visit, span } :: (← WithItem.visitAll rest)

end

def Fragment.visit : Fragment → StateM Replacer Fragment
  | .query q => return .query (← q.visit f)
  | .select clause => return .select (← clause.visit f)
  | .source items => return .source (← FromItem.visitAll f items)
  | .filter condition => return .filter (← condition.visit f)
  | .orderBy items => return .orderBy (← items.mapM (OrderItem.visit f))
  | .groupBy items => return .groupBy (← Operand.visitAll f items)

/-- The tree with its replaceable operands replaced, and what the walk through it kept. -/
def Fragment.replaceOperands (tree : Fragment) : Fragment × Replacer := (tree.visit f).run {}

/-- The number of operands that are replaced. -/
def Fragment.replacements (tree : Fragment) : Nat := (tree.replaceOperands f).2.count

end SkyQuery
