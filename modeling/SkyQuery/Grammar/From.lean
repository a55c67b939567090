import SkyQuery.Grammar.Condition

/-!
# What queries read from

```text
from  = FROM item (, item)*
item  = table (join)*
join  = [NATURAL] [INNER | (LEFT | RIGHT | FULL) [OUTER]] JOIN table [ON condition | USING (names)]
      | CROSS JOIN table
table = name [[AS] alias] | ( query ) [AS] alias
```
-/

namespace SkyQuery.Grammar

open Parse

/-- `[[AS] alias]` -/
def optionalAlias : Parse (Option Identifier) := do
  if ← eat (.keyword .asKw) then return some (← identifier) else eatIdentifier

/-- `name [[AS] alias] | ( query ) [AS] alias` -/
def tableRef (query : Parse Query) : Parse FromItem := do
  let start ← place
  if ← eat .leftParen then
    let source ← query
    let _ ← expect .rightParen
    let _ ← eat (.keyword .asKw)
    let label ← identifier
    return .subquery source label (← spanFrom start)
  else
    match TableName.ofParts? (← dotted 2) with
    | some name =>
      let label ← optionalAlias
      return .table name label (← spanFrom start)
    | none => unexpected

/-- `(LEFT | RIGHT | FULL)`, if it is next. -/
def eatSide : Parse (Option JoinKind) := do
  if ← eat (.keyword .leftKw) then return some .leftOuter
  else if ← eat (.keyword .rightKw) then return some .rightOuter
  else if ← eat (.keyword .fullKw) then return some .fullOuter
  else return none

/-- `[INNER | (LEFT | RIGHT | FULL) [OUTER]] JOIN`, if a join is next. -/
def eatJoin : Parse (Option JoinKind) := do
  if ← eat (.keyword .innerKw) then
    let _ ← expect (.keyword .joinKw)
    return some .inner
  else if ← eat (.keyword .joinKw) then return some .inner
  else
    match ← eatSide with
    | none => return none
    | some side =>
      let _ ← eat (.keyword .outerKw)
      let _ ← expect (.keyword .joinKw)
      return some side

/-- `ON condition | USING ( name (, name)* )` -/
def joinCondition (query : Parse Query) : Parse JoinCondition := do
  if ← eat (.keyword .onKw) then return .on (← condition query)
  else if ← eat (.keyword .usingKw) then
    let _ ← expect .leftParen
    let columns ← commaSeparated identifier
    let _ ← expect .rightParen
    return .sharing columns
  else unexpected

/-- The next join of `left`, if there is one. -/
def joinTail (query : Parse Query) (start : Place) (left : FromItem) : Parse (Option FromItem) := do
  if ← eat (.keyword .crossKw) then
    let _ ← expect (.keyword .joinKw)
    let right ← tableRef query
    return some (.join left .cross false right .unstated (← spanFrom start))
  else
    let natural ← eat (.keyword .naturalKw)
    match ← eatJoin with
    | none => if natural then unexpected else return none
    | some kind =>
      let right ← tableRef query
      let condition ← if natural then pure .unstated else joinCondition query
      return some (.join left kind natural right condition (← spanFrom start))

def fromItem (query : Parse Query) : Parse FromItem := do
  let start ← place
  let left ← tableRef query
  iterate (joinTail query start) left

def fromClause (query : Parse Query) : Parse (List FromItem) := do
  let _ ← expect (.keyword .fromKw)
  commaSeparated (fromItem query)

end SkyQuery.Grammar
