import SkyQuery.CoordSys.Basic
import SkyQuery.Text.Regex

/-!
# Allowed coordinate systems

A policy is a list of patterns `frame refpos flavor`; each part of a pattern is a value, a list of
values such as `(FK4|FK5)`, or `*` for any value. The value that stands where none is written is
accepted by every part. The patterns are compiled to one regular expression, in which the full text
of an allowed system is a match; a policy without patterns allows the default system only.
-/

namespace SkyQuery

/-! ### Patterns -/

namespace Pattern

open Vocabulary

section Part

variable {α : Type} [Vocabulary α] [DecidableEq α]

/-- The pieces between bars. -/
def cutBars : List Char → List (List Char)
  | [] => [[]]
  | c :: rest =>
    if c = '|' then [] :: cutBars rest
    else
      match cutBars rest with
      | [] => [[c]]
      | piece :: pieces => (c :: piece) :: pieces

/-- The text between parentheses, when it stands between a pair of them. -/
def inParens? : List Char → Option (List Char)
  | '(' :: rest =>
    match rest.reverse with
    | ')' :: inner => some inner.reverse
    | _ => none
  | _ => none

/-- The words that a part lists. -/
def listedWords (word : String) : List String :=
  match inParens? word.toList with
  | some inner => (cutBars inner).map fun piece => Text.trim (String.ofList piece)
  | none => [word]

/-- The values that a part accepts, none of them twice. -/
def accepted? (word : String) : Option (List α) :=
  if word = "*" then some all
  else
    ((listedWords word).mapM fun w => (parse? w : Option α)).map fun values =>
      (unstated :: values).eraseDups

/-- Alternatives in a group of their own. -/
def group (alternatives : List String) : String := "(?:" ++ String.intercalate "|" alternatives ++ ")"

/-- The expression for a part: the names of the values that it accepts. -/
def partSource? (α : Type) [Vocabulary α] [DecidableEq α] (word : String) : Option String :=
  (accepted? (α := α) word).map fun values => group (values.map name)

end Part

/-- The expression for a pattern of three words. -/
def source? (text : String) : Option String :=
  match Text.words text with
  | [frame, refPos, flavor] =>
    match partSource? Frame frame, partSource? RefPos refPos, partSource? Flavor flavor with
    | some frame, some refPos, some flavor =>
      some ("(?:" ++ frame ++ " " ++ refPos ++ " " ++ flavor ++ ")")
    | _, _, _ => none
  | _ => none

/-- The expression for a pattern, unless the text is none. -/
def compile (text : String) : Except Diagnostic String :=
  match source? text with
  | some source => .ok source
  | none =>
    .error
      { code := .invalidPattern
        message := "Incorrect allowed coordinate system pattern: \"" ++ text ++
          "\"! Expected syntax: \"\x7bframe\x7d \x7brefpos\x7d \x7bflavor\x7d\", where each part is a " ++
          "value, a list of values between parentheses separated by \"|\", or \"*\"." }

end Pattern

/-! ### Policies -/

/-- A list of patterns, with the expression for all of them if there are any. -/
structure Policy where
  texts : List String
  regex : Option Regex
  deriving DecidableEq, Repr

namespace Policy

/-- The expression for a whole text that is a match of one of `alternatives`. -/
def wholeSource (alternatives : List String) : String :=
  "^(?i:" ++ String.intercalate "|" alternatives ++ ")$"

/-- Reads the patterns of a policy. -/
def parse (patterns : List String) : Except Diagnostic Policy := do
  let texts := patterns.map Text.trim
  if texts.isEmpty then return ⟨texts, none⟩
  let source := wholeSource (← texts.mapM Pattern.compile)
  match Regex.parse? source with
  | some regex => return ⟨texts, some regex⟩
  | none =>
    throw
      { code := .invalidPattern
        message := "Invalid allowed coordinate systems: " ++ source }

/-- Whether a coordinate system is allowed. -/
def allows (p : Policy) (c : CoordSys) : Bool :=
  match p.regex with
  | some regex => regex.isMatch c.renderFull
  | none => c.isDefault

/-- What messages say about the systems that are allowed. -/
def allowedText (p : Policy) : String :=
  if p.texts.isEmpty then "No coordinate system is allowed!"
  else "Allowed coordinate systems are: " ++ String.intercalate ", " p.texts

/-- Refuses a coordinate system, given as it was written, that is not allowed. -/
def check (p : Policy) (written : String) (c : CoordSys) : Except Diagnostic Unit :=
  if p.allows c then .ok ()
  else
    .error
      { code := .forbiddenCoordSys
        message := "Coordinate system \"" ++ written ++ "\" (= \"" ++ c.renderFull ++
          "\") not allowed in this implementation. " ++ p.allowedText }

end Policy

end SkyQuery
