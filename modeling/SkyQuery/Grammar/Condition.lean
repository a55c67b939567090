import SkyQuery.Grammar.Call

/-!
# Search conditions

```text
condition = conjunct (OR conjunct)*
conjunct  = negation (AND negation)*
negation  = NOT negation | ( condition ) | EXISTS ( query ) | predicate
predicate = value (comparison value
                  | [NOT] BETWEEN value AND value
                  | [NOT] (LIKE | ILIKE) value
                  | [NOT] IN ( query | value (, value)* )
                  | IS [NOT] NULL)
```

A parenthesis opens a condition or a value; both are tried, the condition first.
-/

namespace SkyQuery.Grammar

open Parse

def comparisons : List (Kind × ComparisonOp) :=
  [(.eq, .eq), (.notEq, .notEq), (.lt, .lt), (.ltEq, .ltEq), (.gt, .gt), (.gtEq, .gtEq)]

/-- The first operator of a list that is next, which is read. -/
def eatOperator : List (Kind × ComparisonOp) → Parse (Option ComparisonOp)
  | [] => return none
  | (kind, op) :: others => do
    if ← eat kind then return some op else eatOperator others

/-- Whether two operands can have values of one type. -/
def comparable (a b : Operand) : Bool :=
  (a.isNumeric && b.isNumeric) || (a.isString && b.isString) || (a.isGeometry && b.isGeometry)

def comparisonTail (left : Operand) (op : ComparisonOp) (start : Place) : Parse Constraint := do
  let right ← value
  if comparable left right then return .comparison left op right (← spanFrom start)
  else
    failAt .incompatibleTypes ("Type mismatch! Impossible to compare \"" ++ left.render ++
      "\" and \"" ++ right.render ++ "\" with \"" ++ op.symbol ++ "\": incompatible types.")
      left.span

/-- `[NOT] NULL` -/
def nullTail (tested : Operand) (start : Place) : Parse Constraint := do
  let negated ← eat (.keyword .notKw)
  let _ ← expect (.keyword .nullKw)
  if tested.asColumn?.isSome then return .isNull tested negated (← spanFrom start)
  else
    failAt .incompatibleTypes ("Only a column can be tested against NULL, not \"" ++
      tested.render ++ "\"!") tested.span

/-- `value AND value` -/
def betweenTail (tested : Operand) (negated : Bool) (start : Place) : Parse Constraint := do
  let low ← value
  let _ ← expect (.keyword .andKw)
  let high ← value
  return .between tested low high negated (← spanFrom start)

def patternTail (matched : Operand) (op : ComparisonOp) (start : Place) : Parse Constraint := do
  let pattern ← value
  checkString matched
  checkString pattern
  return .comparison matched op pattern (← spanFrom start)

/-- `( query | value (, value)* )` -/
def memberTail (query : Parse Query) (tested : Operand) (negated : Bool) (start : Place) :
    Parse Constraint := do
  let _ ← expect .leftParen
  if ← sees (.keyword .selectKw) then
    let source ← query
    let _ ← expect .rightParen
    return .inQuery tested source negated (← spanFrom start)
  else
    let values ← commaSeparated value
    let _ ← expect .rightParen
    return .inValues tested values negated (← spanFrom start)

def predicate (query : Parse Query) : Parse Constraint := do
  let start ← place
  let tested ← value
  match ← eatOperator comparisons with
  | some op => comparisonTail tested op start
  | none =>
    if ← eat (.keyword .isKw) then nullTail tested start
    else
      let negated ← eat (.keyword .notKw)
      if ← eat (.keyword .betweenKw) then betweenTail tested negated start
      else if ← eat (.keyword .likeKw) then
        patternTail tested (if negated then .notLike else .like) start
      else if ← eat (.keyword .ilikeKw) then
        patternTail tested (if negated then .notIlike else .ilike) start
      else if ← eat (.keyword .inKw) then memberTail query tested negated start
      else unexpected

/-- `( condition )` -/
def grouped (condition : Parse Constraint) : Parse Constraint := do
  let start ← place
  let _ ← expect .leftParen
  let inner ← condition
  let _ ← expect .rightParen
  return .group inner (← spanFrom start)

/-- `EXISTS ( query )`, after its first word. -/
def existsTail (query : Parse Query) (start : Place) : Parse Constraint := do
  let _ ← expect .leftParen
  let source ← query
  let _ ← expect .rightParen
  return .nonEmpty source (← spanFrom start)

/-- A negation with at most `n` times `NOT`. -/
def negationFor (query : Parse Query) (condition : Parse Constraint) : Nat → Parse Constraint
  | 0 => unexpected
  | n + 1 => do
    let start ← place
    if ← eat (.keyword .notKw) then
      let inner ← negationFor query condition n
      return .not inner (← spanFrom start)
    else if ← eat (.keyword .existsKw) then existsTail query start
    else if (← current).kind == .leftParen && (← second).kind != .keyword .selectKw then
      either (grouped condition) (predicate query)
    else predicate query

def negation (query : Parse Query) (condition : Parse Constraint) : Parse Constraint :=
  bounded (negationFor query condition)

/-- `item (word item)*`, grouped to the left. -/
def connected (word : Keyword) (connect : Constraint → Constraint → Option Span → Constraint)
    (item : Parse Constraint) : Parse Constraint := do
  let start ← place
  let left ← item
  iterate (fun left => do
    if ← eat (.keyword word) then
      let right ← item
      return some (connect left right (← spanFrom start))
    else return none) left

/-- A condition with groups at most `n` deep. -/
def conditionFor (query : Parse Query) : Nat → Parse Constraint
  | 0 => unexpected
  | n + 1 => fun v s =>
    (connected .orKw .or <| connected .andKw .and <| negation query (conditionFor query n)) v s

/-- A search condition, with the reader of its subqueries. -/
def condition (query : Parse Query) : Parse Constraint := bounded (conditionFor query)

end SkyQuery.Grammar
