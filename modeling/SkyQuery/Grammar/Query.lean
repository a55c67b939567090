import SkyQuery.Grammar.From

/-!
# Queries

```text
query  = [WITH with_item (, with_item)*] body [ORDER BY ...] [OFFSET n]
body   = term ((UNION | EXCEPT) [ALL] term)*
term   = select (INTERSECT [ALL] select)*
select = SELECT [DISTINCT | ALL] [TOP n] items FROM ... [WHERE] [GROUP BY] [HAVING]
```

`WITH` stands only at the start of the whole text. Version 2.0 orders by columns and numbers of
result columns only, and groups by columns only.
-/

namespace SkyQuery.Grammar

open Parse

/-- A number of rows, below 2^64, for the clause that a word names. -/
def rowCount (word : String) : Parse Nat := do
  let start ← place
  let text := (← expect .integer).text
  match digitsBelow? (Nat.pow 2 64) text with
  | some n => return n
  | none =>
    failAt .invalidNumber ("Incorrect " ++ word ++ " value: \"" ++ text ++
      "\" is not a valid unsigned integer!") (← spanFrom start)

/-! ### The select clause -/

def eatTableStar : Parse (Option TableName) := fun v s =>
  if isIdentifier v s.current && s.second.kind == .dot then
    match dotted 2 v s with
    | .ok (parts, t) =>
      if t.current.kind == .dot && t.second.kind == .star then
        match TableName.ofParts? parts with
        | some table => .ok (some table, t.advance.advance)
        | none => .ok (none, s)
      else .ok (none, s)
    | .error e => .error e
  else .ok (none, s)

/-- `* | table.* | value [[AS] alias]` -/
def selectItem : Parse SelectItem := do
  let start ← place
  if ← eat .star then return .all (← spanFrom start)
  else
    match ← eatTableStar with
    | some table => return .allOf table (← spanFrom start)
    | none =>
      let operand ← value
      let label ← optionalAlias
      return .expr operand label

/-- `[DISTINCT | ALL]` -/
def distinctness : Parse Bool := do
  if ← eat (.keyword .distinctKw) then return true
  let _ ← eat (.keyword .allKw)
  return false

/-- `[TOP n]` -/
def topClause : Parse (Option Nat) := do
  if ← eat (.keyword .topKw) then return some (← rowCount "TOP") else return none

def selectClause : Parse SelectClause := do
  let start ← place
  let _ ← expect (.keyword .selectKw)
  let distinct ← distinctness
  let top ← topClause
  let items ← commaSeparated selectItem
  return { distinct, top, items, span := ← spanFrom start }

/-! ### Grouping, order and offset -/

/-- What rows are grouped by. -/
def groupItem : Parse Operand := do
  if (← version) == .v20 then columnRef else value

/-- `GROUP BY item (, item)*` -/
def groupByClause : Parse (List Operand) := do
  let _ ← expect (.keyword .groupKw)
  let _ ← expect (.keyword .byKw)
  commaSeparated groupItem

/-- What rows are ordered by. -/
def orderKey : Parse Operand := do
  if (← version) == .v20 then
    if ← sees .integer then
      let start ← place
      let text := (← advance).text
      return .numeric text (← spanFrom start)
    else columnRef
  else value

/-- `[ASC | DESC]` -/
def direction : Parse Bool := do
  if ← eat (.keyword .descKw) then return true
  let _ ← eat (.keyword .ascKw)
  return false

def orderItem : Parse OrderItem := do
  let start ← place
  let expr ← orderKey
  let descending ← direction
  return { expr, descending, span := ← spanFrom start }

/-- `ORDER BY item (, item)*` -/
def orderByClause : Parse (List OrderItem) := do
  let _ ← expect (.keyword .orderKw)
  let _ ← expect (.keyword .byKw)
  commaSeparated orderItem

/-- `[OFFSET n]` -/
def offsetClause : Parse (Option Offset) := do
  let start ← place
  if ← eat (.keyword .offsetKw) then
    let value ← rowCount "OFFSET"
    return some { value, span := ← spanFrom start }
  else return none

/-! ### Bodies -/

/-- A clause that stands only where its first word does, which the clause itself reads. -/
def optionalClause {α : Type} (word : Keyword) (clause : Parse (List α)) : Parse (List α) := do
  if ← sees (.keyword word) then clause else return []

/-- A word and the condition after it, if the word is next. -/
def optionalCondition (query : Parse Query) (word : Keyword) : Parse (Option Constraint) := do
  if ← eat (.keyword word) then return some (← condition query) else return none

def selectQuery (query : Parse Query) : Parse SelectQuery := do
  let start ← place
  let clause ← selectClause
  let source ← fromClause query
  let filter ← optionalCondition query .whereKw
  let groupBy ← optionalClause .groupKw groupByClause
  let having ← optionalCondition query .havingKw
  return { clause, source, filter, groupBy, having, orderBy := [], offset := none,
           span := ← spanFrom start }

/-- The first set operator of a list that is next, which is read. -/
def eatSetOperator : List (Keyword × SetOperator) → Parse (Option SetOperator)
  | [] => return none
  | (word, op) :: others => do
    if ← eat (.keyword word) then return some op else eatSetOperator others

/-- `item (operator [ALL] item)*`, grouped to the left. -/
def combined (operators : List (Keyword × SetOperator)) (item : Parse QueryBody) :
    Parse QueryBody := do
  let start ← place
  let left ← item
  iterate (fun left => do
    match ← eatSetOperator operators with
    | none => return none
    | some op =>
      let all ← eat (.keyword .allKw)
      let right ← item
      return some (.set { left, op, all, right, orderBy := [], offset := none,
                          span := ← spanFrom start })) left

def queryBody (query : Parse Query) : Parse QueryBody :=
  combined [(.unionKw, .union), (.exceptKw, .except)] <|
    combined [(.intersectKw, .intersect)] do
      return .select (← selectQuery query)

/-- A body with its order and offset, and the span of all three. -/
def finish (orderBy : List OrderItem) (offset : Option Offset) (span : Option Span) :
    QueryBody → QueryBody
  | .select query => .select { query with orderBy, offset, span }
  | .set operation => .set { operation with orderBy, offset, span }

/-- `body [ORDER BY ...] [OFFSET n]` -/
def orderedBody (query : Parse Query) : Parse QueryBody := do
  let start ← place
  let body ← queryBody query
  let orderBy ← optionalClause .orderKw orderByClause
  let offset ← offsetClause
  return finish orderBy offset (← spanFrom start) body

/-- A query without `WITH`, with subqueries at most `n` deep. -/
def subqueryFor : Nat → Parse Query
  | 0 => unexpected
  | n + 1 => fun v s =>
    (do
      let start ← place
      let body ← orderedBody (subqueryFor n)
      return { withItems := [], body, span := ← spanFrom start } : Parse Query) v s

def subquery : Parse Query := bounded subqueryFor

/-- `name [( name (, name)* )] AS ( query )` -/
def withItem : Parse WithItem := do
  let start ← place
  let name ← identifier
  let columns ← declaredColumns
  let _ ← expect (.keyword .asKw)
  let _ ← expect .leftParen
  let query ← subquery
  let _ ← expect .rightParen
  return { name, columns, query, span := ← spanFrom start }
where
  /-- `[( name (, name)* )]` -/
  declaredColumns : Parse (List Identifier) := do
    if ← eat .leftParen then
      let columns ← commaSeparated identifier
      let _ ← expect .rightParen
      return columns
    else return []

/-- `[WITH with_item (, with_item)*]` -/
def withClause : Parse (List WithItem) := do
  if ← eat (.keyword .withKw) then commaSeparated withItem else return []

def query : Parse Query := do
  let start ← place
  let withItems ← withClause
  let body ← orderedBody subquery
  return { withItems, body, span := ← spanFrom start }

end SkyQuery.Grammar
