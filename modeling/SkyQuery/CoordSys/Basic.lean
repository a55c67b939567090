import SkyQuery.CoordSys.Vocabulary
import SkyQuery.Diagnostic.Basic
import SkyQuery.Text.Blank

/-!
# Coordinate systems

A coordinate system is written `[frame] [refpos] [flavor]`. Cartesian coordinates have neither a
frame nor a reference position, so a system with both cannot be built.
-/

namespace SkyQuery

structure CoordSys where
  frame : Frame := .unknown
  refPos : RefPos := .unknown
  flavor : Flavor := .spherical2
  unframed : flavor.isCartesian = true → frame = .unknown ∧ refPos = .unknown := by decide
  deriving DecidableEq, Repr

namespace CoordSys

open Vocabulary

/-- The system that stands where none is written. -/
def default : CoordSys := {}

instance : Inhabited CoordSys := ⟨default⟩

def isDefault (c : CoordSys) : Bool := c == default

def fullText (frame : Frame) (refPos : RefPos) (flavor : Flavor) : String :=
  name frame ++ " " ++ name refPos ++ " " ++ name flavor

def renderFull (c : CoordSys) : String := fullText c.frame c.refPos c.flavor

/-- A word, unless it may be left out. -/
def statedWord {α : Type} [Vocabulary α] [DecidableEq α] (a : α) : List String :=
  if a = unstated then [] else [name a]

/-- The words that may not be left out. -/
def statedWords (c : CoordSys) : List String :=
  statedWord c.frame ++ statedWord c.refPos ++ statedWord c.flavor

/-- The shortest text: empty for the default system. -/
def render (c : CoordSys) : String := String.intercalate " " c.statedWords

def form : String :=
  "[" ++ alternatives Frame ++ "] [" ++ alternatives RefPos ++ "] [" ++ alternatives Flavor ++ "]"

/-- The system of three parts, unless it is cartesian with a frame or reference position. -/
def ofParts (frame : Frame) (refPos : RefPos) (flavor : Flavor) : Except Diagnostic CoordSys :=
  if h : flavor.isCartesian = true → frame = .unknown ∧ refPos = .unknown then
    .ok ⟨frame, refPos, flavor, h⟩
  else
    .error
      { code := .framedCartesian
        message := "Invalid coordinate system \"" ++ fullText frame refPos flavor ++
          "\": a cartesian flavor MUST have an UNKNOWNFRAME and UNKNOWNREFPOS!" }

/-- The value that the first of some words names, and the words after it; if it names none, the
value that stands where none is written. -/
def cutWord {α : Type} [Vocabulary α] : List String → α × List String
  | [] => (unstated, [])
  | word :: rest =>
    match parse? word with
    | some a => (a, rest)
    | none => (unstated, word :: rest)

/-- Reads as many of the first words as belong to a coordinate system. -/
def ofWords (words : List String) : Except Diagnostic (CoordSys × List String) :=
  let (frame, words) := cutWord words
  let (refPos, words) := cutWord words
  let (flavor, words) := cutWord words
  (ofParts frame refPos flavor).map fun c => (c, words)

/-- Reads a coordinate system; a blank text is the default one. -/
def parse (text : String) : Except Diagnostic CoordSys := do
  match ← ofWords (Text.words text) with
  | (c, []) => return c
  | (_, word :: _) =>
    throw
      { code := .invalidCoordSys
        message := "Incorrect syntax: \"" ++ word ++ "\" was unexpected! Expected syntax: \"" ++
          form ++ "\" ; an empty string is also allowed and will be interpreted as \"" ++
          default.renderFull ++ "\"." }

end CoordSys

end SkyQuery
