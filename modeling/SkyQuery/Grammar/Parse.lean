import SkyQuery.Token.Lexer
import SkyQuery.Token.Reserved
import SkyQuery.Tree.Printer
import SkyQuery.Tree.Types

/-!
# Reading tokens

`Parse α` reads an `α` from the tokens of a text. Each token that is looked for and not found stays
in the list of what was expected, until the next token is read; a failure lists them. Loops are
bounded by the number of tokens that are left, which every round of a loop makes smaller.
-/

namespace SkyQuery.Grammar

def isIdentifier (v : Version) (t : Token) : Bool :=
  match t.kind with
  | .quotedIdent => true
  | .ident => !Reserved.isReserved v t.text
  | _ => false

/-- What is left of a text. -/
structure State where
  /-- The next token; at the end of the text it is the last one. -/
  current : Token
  rest : List Token
  /-- Where the last token that was read ends. -/
  reached : Place
  /-- What was looked for in the place of the next token, the latest first. -/
  expected : List String

namespace State

/-- The state before the first of some tokens. -/
def ofTokens : List Token → State
  | [] => ⟨Token.atEnd Place.origin, [], Place.origin, []⟩
  | t :: rest => ⟨t, rest, t.start, []⟩

def second (s : State) : Token := s.rest.head?.getD s.current

/-- The state after the next token; the end of the text is never passed. -/
def advance (s : State) : State :=
  match s.rest with
  | [] => { s with expected := [] }
  | t :: rest => ⟨t, rest, s.current.stop, []⟩

/-- A bound on the number of tokens that can be read. -/
def bound (s : State) : Nat := s.rest.length + 1

/-- The complaint about the next token, with all that was expected instead. -/
def unexpected (v : Version) (s : State) : Diagnostic :=
  let expected := s.expected.reverse.eraseDups
  let expecting :=
    if expected.isEmpty then "" else " Was expecting one of: " ++ commaList expected
  match s.current.kind with
  | .endOfText =>
    { code := .unexpectedEnd, message := "Unexpected end of query!" ++ expecting,
      span := some s.current.span }
  | kind =>
    { code := .unexpectedToken,
      message := "Encountered \"" ++ s.current.text ++ "\"." ++ expecting,
      span := some s.current.span,
      hint := match kind with
        | .ident => Reserved.hint v s.current.text false
        | .keyword _ => Reserved.hint v s.current.text true
        | _ => none }

end State

/-- A reader of an `α`, for a version of the language. -/
def Parse (α : Type) : Type := Version → State → Except Diagnostic (α × State)

namespace Parse

instance : Monad Parse where
  pure a := fun _ s => .ok (a, s)
  bind p f := fun v s =>
    match p v s with
    | .ok (a, t) => f a v t
    | .error e => .error e

def unexpected {α : Type} : Parse α := fun v s => .error (s.unexpected v)

def version : Parse Version := fun v s => .ok (v, s)

def current : Parse Token := fun _ s => .ok (s.current, s)

def second : Parse Token := fun _ s => .ok (s.second, s)

def place : Parse Place := fun _ s => .ok (s.current.start, s)

/-- The span of what was read since `start`. -/
def spanFrom (start : Place) : Parse (Option Span) := fun _ s =>
  .ok (some (Span.between start s.reached), s)

/-- Notes descriptions of what would have been read, without looking. -/
def expecting (descriptions : List String) : Parse Unit := fun _ s =>
  .ok ((), { s with expected := descriptions.reverse ++ s.expected })

/-- Whether the next token is of a kind, which is noted as expected. -/
def sees (kind : Kind) : Parse Bool := fun _ s =>
  .ok (s.current.kind == kind, { s with expected := kind.describe :: s.expected })

def advance : Parse Token := fun _ s => .ok (s.current, s.advance)

def eat (kind : Kind) : Parse Bool := do
  if ← sees kind then
    let _ ← advance
    return true
  else return false

def expect (kind : Kind) : Parse Token := do
  if ← sees kind then advance else unexpected

/-- Whether the next token is a plain word, which is noted as expected under a description. -/
def seesWord (word description : String) : Parse Bool := fun _ s =>
  .ok (s.current.kind == .ident && Text.sameLetters s.current.text word,
    { s with expected := description :: s.expected })

/-- Whether the next token can be read as an identifier. -/
def atIdentifier : Parse Bool := fun v s => .ok (isIdentifier v s.current, s)

def eatIdentifier : Parse (Option Identifier) := do
  expecting [Kind.ident.describe, Kind.quotedIdent.describe]
  if ← atIdentifier then return some (Identifier.ofText (← advance).text) else return none

def identifier : Parse Identifier := do
  match ← eatIdentifier with
  | some name => return name
  | none => unexpected

/-- Runs a reader that is given a bound on the number of tokens it can read. -/
def bounded {α : Type} (p : Nat → Parse α) : Parse α := fun v s => p s.bound v s

/-- At most `n` rounds of `step`, which ends the loop by `none`. -/
def iterateFor {α : Type} (step : α → Parse (Option α)) : Nat → α → Parse α
  | 0, a => pure a
  | n + 1, a => do
    match ← step a with
    | some b => iterateFor step n b
    | none => pure a

/-- Rounds of `step`, each of which reads a token, until it gives `none`. -/
def iterate {α : Type} (step : α → Parse (Option α)) (a : α) : Parse α :=
  bounded fun n => iterateFor step n a

/-- The rest of a list whose items a separator precedes; at most `n` of them. -/
def followersFor {α : Type} (separator : Kind) (item : Parse α) : Nat → Parse (List α)
  | 0 => pure []
  | n + 1 => do
    if ← eat separator then
      let first ← item
      let others ← followersFor separator item n
      return first :: others
    else return []

def followers {α : Type} (separator : Kind) (item : Parse α) : Parse (List α) :=
  bounded (followersFor separator item)

/-- One item or more with a separator between them. -/
def sepBy {α : Type} (separator : Kind) (item : Parse α) : Parse (List α) := do
  let first ← item
  let others ← followers separator item
  return first :: others

def commaSeparated {α : Type} (item : Parse α) : Parse (List α) := sepBy .comma item

/-- At most `n` more parts of a dotted name. A point that no identifier follows is not read. -/
def dottedFor : Nat → Parse (List Identifier)
  | 0 => pure []
  | n + 1 => fun v s =>
    if s.current.kind == .dot && isIdentifier v s.second then
      (do
        let _ ← advance
        let part ← identifier
        let others ← dottedFor n
        return part :: others) v s
    else .ok ([], s)

/-- A dotted name of at most `n` parts after the first. -/
def dotted (n : Nat) : Parse (List Identifier) := do
  let first ← identifier
  let others ← dottedFor n
  return first :: others

/-- The first reader that succeeds, both starting at the same place. When both fail, the complaint
that lies further in the text is kept, the second one if neither does. -/
def either {α : Type} (p q : Parse α) : Parse α := fun v s =>
  match p v s with
  | .ok r => .ok r
  | .error e =>
    match q v s with
    | .ok r => .ok r
    | .error e' => .error (if later e e' then e else e')
where
  /-- Whether the first diagnostic begins after the second. -/
  later (a b : Diagnostic) : Bool :=
    match a.span, b.span with
    | some s, some t => Span.before t.first s.first
    | some _, none => true
    | none, _ => false

/-- Fails with a diagnostic placed at `span`, or at the next token when it has no place. -/
def failAt {α : Type} (code : Code) (message : String) (span : Option Span) : Parse α :=
  fun _ s => .error { code, message, span := span.orElse fun _ => some s.current.span }

/-- Fails because an operand is not of the type its place demands. -/
def mismatch {α : Type} (o : Operand) (demanded : String) (code : Code) : Parse α :=
  failAt code ("Type mismatch! A " ++ demanded ++ " value was expected instead of \"" ++ o.render ++
    "\".") o.span

def checkNumeric (o : Operand) : Parse Unit :=
  if o.isNumeric then pure () else mismatch o "numeric" .numericExpected

def checkString (o : Operand) : Parse Unit :=
  if o.isString then pure () else mismatch o "string" .stringExpected

def checkGeometry (o : Operand) : Parse Unit :=
  if o.isGeometry then pure () else mismatch o "geometry" .geometryExpected

def checkAll (check : Operand → Parse Unit) : List Operand → Parse Unit
  | [] => pure ()
  | o :: rest => do
    check o
    checkAll check rest

/-- The value of decimal digits, unless it is `limit` or more. -/
def digitsBelow? (limit : Nat) (text : String) : Option Nat :=
  let n := text.toList.foldl (fun n c => 10 * n + (c.toNat - '0'.toNat)) 0
  if n < limit then some n else none

end Parse

end SkyQuery.Grammar
