import SkyQuery.Grammar.Parse

/-!
# Value expressions

```text
value          = additive (|| additive)*
additive       = multiplicative ((+ | -) multiplicative)*
multiplicative = signed ((* | /) signed)*
signed         = (- | +) signed | primary
primary        = number | string+ | ( value ) | call | column
```

Operands of arithmetic must be numeric and those of `||` strings; the readers check it as they go.
Each production takes the reader of nested values, which `value` supplies to any depth.
-/

namespace SkyQuery.Grammar

open Parse

/-- The value of a string literal, as it is written in a text. -/
def unquote (text : String) : String :=
  match text.toList with
  | '\'' :: rest =>
    match rest.reverse with
    | '\'' :: inner => String.ofList (Text.halved '\'' inner.reverse)
    | _ => text
  | _ => text

/-- `[[[catalog.]schema.]table.]column` -/
def columnRef : Parse Operand := do
  let start ← place
  match ColumnRef.ofParts? (← dotted 3) with
  | some ref => return .column ref (← spanFrom start)
  | none => unexpected

/-- The string literals in a row, which make one value; at most `n` of them. -/
def literalsFor : Nat → Parse String
  | 0 => pure ""
  | n + 1 => do
    if (← current).kind == .string then
      let text := (← advance).text
      return unquote text ++ (← literalsFor n)
    else return ""

def valueStarts : List String :=
  [Kind.integer, .decimal, .scientific, .string, .leftParen, .minus, .ident, .quotedIdent].map
    Kind.describe

/-- Whether a function call starts at the next token. -/
def seesCall : Parse Bool := fun v s =>
  .ok (s.current.kind.isFunction ||
    (s.current.kind == .ident && isIdentifier v s.current && s.second.kind == .leftParen), s)

/-- `number | string+ | ( value ) | call | column` -/
def primary (call value : Parse Operand) : Parse Operand := do
  let start ← place
  let next ← current
  if next.kind.isNumber then
    let _ ← advance
    return .numeric next.text (← spanFrom start)
  else if next.kind == .string then
    let text ← bounded literalsFor
    return .string text (← spanFrom start)
  else if next.kind == .leftParen then
    let _ ← advance
    let inner ← value
    let _ ← expect .rightParen
    return .wrapped inner (← spanFrom start)
  else if ← seesCall then call
  else if ← atIdentifier then columnRef
  else
    expecting valueStarts
    unexpected

/-- `(- | +) signed | primary`, with at most `n` signs. A plus sign leaves no trace. -/
def signedFor (base : Parse Operand) : Nat → Parse Operand
  | 0 => base
  | n + 1 => do
    let start ← place
    if ← eat .minus then
      let inner ← signedFor base n
      checkNumeric inner
      return .negative inner (← spanFrom start)
    else if ← eat .plus then
      let inner ← signedFor base n
      checkNumeric inner
      return inner
    else base

def signed (base : Parse Operand) : Parse Operand := bounded (signedFor base)

/-- `item (op item)*` for arithmetic operators of one precedence, grouped to the left. -/
def arithmetic (first second : Kind × ArithOp) (item : Parse Operand) : Parse Operand := do
  let start ← place
  let left ← item
  iterate (fun left => do
    match ← operator with
    | none => return none
    | some op =>
      let _ ← advance
      let right ← item
      checkNumeric left
      checkNumeric right
      return some (.operation left op right (← spanFrom start))) left
where
  operator : Parse (Option ArithOp) := do
    if ← sees first.1 then return some first.2
    else if ← sees second.1 then return some second.2
    else return none

/-- `multiplicative ((+ | -) multiplicative)*` over signed values. -/
def additive (base : Parse Operand) : Parse Operand :=
  arithmetic (.plus, .add) (.minus, .sub) <|
    arithmetic (.star, .mul) (.slash, .div) <|
      signed base

/-- `additive (|| additive)*` -/
def concatenation (base : Parse Operand) : Parse Operand := do
  let start ← place
  let first ← additive base
  if ← sees .concat then
    checkString first
    let others ← followers .concat do
      let part ← additive base
      checkString part
      return part
    return .concatenation (first :: others) (← spanFrom start)
  else return first

end SkyQuery.Grammar
