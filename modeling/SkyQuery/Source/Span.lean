/-!
# Places and spans of a text

A `Place` is where a character stands: its byte offset, line and column. A `Span` is what is
reported: two line and column pairs, the second one exclusive.

Lines and columns are natural numbers here and have no greatest one. A text of `n` bytes has none above
`n + 1`, so those of all texts of fewer than `2 ^ 32 - 1` bytes are the 32-bit ones that a `LineIndex`
finds (`LineIndex.span?_eq`).
-/

namespace SkyQuery

/-- A place in a text; lines and columns count from one, a column counts characters. -/
structure Place where
  offset : Nat
  line : Nat
  column : Nat
  deriving DecidableEq, Repr

namespace Place

def origin : Place := ⟨0, 1, 1⟩

def advance (p : Place) (c : Char) : Place :=
  if c = '\n' then ⟨p.offset + c.utf8Size, p.line + 1, 1⟩
  else ⟨p.offset + c.utf8Size, p.line, p.column + 1⟩

def advanceAll (p : Place) (cs : List Char) : Place := cs.foldl advance p

end Place

/-- A span of a text, from its first place to the place after its last character. -/
structure Span where
  beginLine : Nat
  beginColumn : Nat
  endLine : Nat
  endColumn : Nat
  deriving DecidableEq, Repr

namespace Span

def between (first last : Place) : Span := ⟨first.line, first.column, last.line, last.column⟩

def point (line column : Nat) : Span := ⟨line, column, line, column⟩

/-- The order of lines and then columns. -/
def before (a b : Nat × Nat) : Bool := a.1 < b.1 || (a.1 == b.1 && a.2 < b.2)

theorem before_iff {a b : Nat × Nat} : before a b = true ↔ a.1 < b.1 ∨ a.1 = b.1 ∧ a.2 < b.2 := by
  simp only [before, Bool.or_eq_true, Bool.and_eq_true, decide_eq_true_eq, beq_iff_eq]

def first (s : Span) : Nat × Nat := (s.beginLine, s.beginColumn)

def last (s : Span) : Nat × Nat := (s.endLine, s.endColumn)

/-- The smallest span that covers both. -/
def cover (a b : Span) : Span :=
  let first := if before b.first a.first then b.first else a.first
  let last := if before a.last b.last then b.last else a.last
  ⟨first.1, first.2, last.1, last.2⟩

/-- The smallest span that covers those that are known. -/
def merge : Option Span → Option Span → Option Span
  | some a, some b => some (a.cover b)
  | a, none => a
  | none, b => b

/-- The order of spans: by where they begin, then by where they end. -/
def precedes (a b : Span) : Bool :=
  before a.first b.first || (a.first == b.first && before a.last b.last)

def render (s : Span) : String :=
  "[l." ++ toString s.beginLine ++ " c." ++ toString s.beginColumn ++ " - l." ++
    toString s.endLine ++ " c." ++ toString s.endColumn ++ "]"

end Span

end SkyQuery
