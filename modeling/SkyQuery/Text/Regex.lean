/-!
# Regular expressions

Expressions without repetition: characters, the two ends of a text, sequences and alternatives.
`parse?` reads the usual notation of them and `isMatch` looks for a match anywhere in a text. As
elsewhere, only ASCII letters have a case.
-/

namespace SkyQuery

inductive Regex where
  | empty
  /-- A character, in either letter case if `anyCase`. -/
  | char (c : Char) (anyCase : Bool)
  | textStart
  | textEnd
  | seq (first second : Regex)
  | either (first second : Regex)
  deriving DecidableEq, Repr

namespace Regex

/-! ### Matching -/

/-- A place in a text: whether the text starts there, and what is left of it. -/
structure Cursor where
  atStart : Bool
  rest : List Char
  deriving DecidableEq, Repr

/-- Whether a character of a text is the one that an expression asks for. -/
def sameChar (anyCase : Bool) (c d : Char) : Bool := c == d || anyCase && c.toLower == d.toLower

/-- The places where the matches end that begin at a place. -/
def ends : Regex → Cursor → List Cursor
  | empty, p => [p]
  | char c anyCase, p =>
    match p.rest with
    | [] => []
    | d :: rest => if sameChar anyCase c d then [⟨false, rest⟩] else []
  | textStart, p => if p.atStart then [p] else []
  | textEnd, p => if p.rest.isEmpty then [p] else []
  | seq first second, p => (first.ends p).flatMap second.ends
  | either first second, p => first.ends p ++ second.ends p

/-- Whether a match begins at the start of `rest` or later. -/
def isMatchFrom (e : Regex) (atStart : Bool) : List Char → Bool
  | [] => !(e.ends ⟨atStart, []⟩).isEmpty
  | c :: rest => !(e.ends ⟨atStart, c :: rest⟩).isEmpty || e.isMatchFrom false rest

/-- Whether there is a match anywhere in a text. -/
def isMatch (e : Regex) (text : String) : Bool := e.isMatchFrom true text.toList

/-! ### Notation -/

/-- A group of which the end has not been read: the alternatives before the last bar, and what
stands after it. -/
structure Group where
  before : Option Regex := none
  last : Regex := .empty
  anyCase : Bool := false

namespace Group

def add (g : Group) (e : Regex) : Group := { g with last := .seq g.last e }

def close (g : Group) : Regex :=
  match g.before with
  | some e => .either e g.last
  | none => g.last

def bar (g : Group) : Group := { g with before := some g.close, last := .empty }

/-- What a character stands for that opens and closes no group. -/
def sign (g : Group) (c : Char) : Regex :=
  if c = '^' then .textStart else if c = '$' then .textEnd else .char c g.anyCase

end Group

/-- The characters that stand for something which the expressions here have not. -/
def isReserved (c : Char) : Bool :=
  c == '\\' || c == '.' || c == '+' || c == '*' || c == '?' || c == '[' || c == '\x7b'

/-- Reads what is left of an expression inside a group, given the groups around it. -/
def readFrom : List Char → Group → List Group → Option Regex
  | [], g, outer => if outer.isEmpty then some g.close else none
  | c :: rest, g, outer =>
    if c = '(' then
      match rest with
      | '?' :: ':' :: inner => readFrom inner { anyCase := g.anyCase } (g :: outer)
      | '?' :: 'i' :: ':' :: inner => readFrom inner { anyCase := true } (g :: outer)
      | _ => none
    else if c = ')' then
      match outer with
      | next :: others => readFrom rest (next.add g.close) others
      | [] => none
    else if c = '|' then readFrom rest g.bar outer
    else if isReserved c then none
    else readFrom rest (g.add (g.sign c)) outer

/-- Reads an expression. -/
def parse? (text : String) : Option Regex := readFrom text.toList {} []

end Regex

end SkyQuery
