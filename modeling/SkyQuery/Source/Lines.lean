import SkyQuery.Source.Span

/-!
# Lines and columns of byte offsets

`lineColumn` finds the line and column of a byte offset of a text. An offset beyond the text stands
for its end; one inside a character has no column of its own and is reported in the first.
-/

namespace SkyQuery.Lines

/-- The line and column of `offset` in a text that starts at the place `p`. -/
def locate (offset : Nat) (p : Place) : List Char → Nat × Nat
  | [] => (p.line, p.column)
  | c :: rest =>
    if offset ≤ p.offset then (p.line, p.column)
    else if offset < p.offset + c.utf8Size then (p.line, 1)
    else locate offset (p.advance c) rest

/-- The line and column of a byte offset. -/
def lineColumn (text : String) (offset : Nat) : Nat × Nat :=
  locate offset Place.origin text.toList

/-- The span of a range of byte offsets. -/
def span (text : String) (start stop : Nat) : Span :=
  let first := lineColumn text start
  let last := lineColumn text stop
  ⟨first.1, first.2, last.1, last.2⟩

end SkyQuery.Lines
