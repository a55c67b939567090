import SkyQuery.Source.Span

/-!
# Line indices

A `LineIndex` holds the byte offsets at which the lines of a text start, so that the lines and columns of many
offsets are found without reading the text from its start for each of them. Offsets, lines and columns have 32 bits.
-/

namespace SkyQuery

/-- A text with the byte offsets at which its lines start, in increasing order. -/
structure LineIndex where
  text : String
  starts : Array UInt32

namespace LineIndex

/-- The offsets right after the line feeds of characters that start at `offset`. -/
def breaks (offset : Nat) : List Char → List Nat
  | [] => []
  | c :: rest =>
    if c = '\n' then (offset + 1) :: breaks (offset + c.utf8Size) rest
    else breaks (offset + c.utf8Size) rest

/-- The offsets at which the lines of a text start. -/
def lineStarts (text : String) : List Nat := 0 :: breaks 0 text.toList

def ofText (text : String) : LineIndex := ⟨text, ((lineStarts text).map UInt32.ofNat).toArray⟩

/-- What a search among increasing offsets finds: the index of the offset, or that of the first greater one. -/
inductive Searched where
  | found (index : Nat)
  | missing (next : Nat)
  deriving DecidableEq, Repr

/-- Searches `x` among the increasing `offsets`, from the index `low` up to the index `high`. -/
def search (offsets : Array UInt32) (x : UInt32) (low high : Nat) (inside : high ≤ offsets.size) : Searched :=
  if more : low < high then
    let middle := low + (high - low) / 2
    have : middle < offsets.size := by omega
    if offsets[middle] = x then .found middle
    else if offsets[middle] < x then search offsets x (middle + 1) high inside
    else search offsets x low middle (by omega)
  else .missing low
termination_by high - low

/-- The index of the line that holds an offset, if some line starts there or before. -/
def line? (index : LineIndex) (offset : UInt32) : Option Nat :=
  match search index.starts offset 0 index.starts.size (Nat.le_refl _) with
  | .found line => some line
  | .missing 0 => none
  | .missing (next + 1) => some next

/-- The number of characters between two byte offsets, if they are in order and none is inside a character. -/
def length? (text : String) (start stop : Nat) : Option Nat := do
  let first ← text.pos? ⟨start⟩
  let last ← text.pos? ⟨stop⟩
  let piece ← text.slice? first last
  return piece.copy.length

/-- The line that holds a byte offset and the characters of it that come before, both counted from zero. An offset
beyond the text stands for its end; one inside a character has no characters before it. -/
def counts? (index : LineIndex) (offset : UInt32) : Option (Nat × Nat) := do
  let line ← index.line? offset
  let start ← index.starts[line]?
  let stop := min offset.toNat index.text.utf8ByteSize
  return (line, (length? index.text start.toNat stop).getD 0)

/-- The 32-bit count from one of what is counted from zero. The addition is checked: it fails where the sum would be
zero again. -/
def fromOne? (count : Nat) : Option UInt32 :=
  let n := UInt32.ofNat count
  if n + 1 = 0 then none else some (n + 1)

/-- The line and column of a byte offset, both counted from one. -/
def lineColumn? (index : LineIndex) (offset : UInt32) : Option (UInt32 × UInt32) := do
  let (line, before) ← index.counts? offset
  let first ← fromOne? line
  let second ← fromOne? before
  return (first, second)

/-- The span of a range of byte offsets. -/
def span? (index : LineIndex) (start stop : UInt32) : Option Span := do
  let first ← index.lineColumn? start
  let last ← index.lineColumn? stop
  return ⟨first.1.toNat, first.2.toNat, last.1.toNat, last.2.toNat⟩

end LineIndex

end SkyQuery
