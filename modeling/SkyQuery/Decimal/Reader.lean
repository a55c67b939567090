import SkyQuery.Decimal.Binary64
import SkyQuery.Text.Letters

/-!
# Reading decimal numbers

A decimal text is a sign, digits with a point among them, and an exponent of ten; sign and exponent
may be missing. It is read as the double nearest to it. `readReal` reads the names of infinity and
of what is no number as well.
-/

namespace SkyQuery.Decimal

/-- A decimal text: `digits · 10^exponent`. -/
structure Literal where
  digits : Nat
  exponent : Int
  deriving DecidableEq, Repr

def digitsValue (cs : List Char) : Nat :=
  cs.foldl (fun n c => 10 * n + (c.toNat - '0'.toNat)) 0

/-- The sign at the start of a text, if any, and the rest. -/
def cutSign : List Char → Bool × List Char
  | '-' :: rest => (true, rest)
  | '+' :: rest => (false, rest)
  | cs => (false, cs)

/-- The exponent that is all of a text, zero when the text is empty. -/
def exponent? : List Char → Option Int
  | [] => some 0
  | c :: rest =>
    if c = 'e' ∨ c = 'E' then
      let (negative, digits) := cutSign rest
      if digits.isEmpty || !digits.all Char.isDigit then none
      else
        let n : Int := digitsValue digits
        some (if negative then -n else n)
    else none

def literal? (cs : List Char) : Option Literal :=
  let whole := cs.takeWhile Char.isDigit
  let (fraction, rest) := match cs.dropWhile Char.isDigit with
    | '.' :: rest => (rest.takeWhile Char.isDigit, rest.dropWhile Char.isDigit)
    | rest => ([], rest)
  if whole.isEmpty && fraction.isEmpty then none
  else
    (exponent? rest).map fun exponent =>
      ⟨digitsValue (whole ++ fraction), exponent - fraction.length⟩

/-- The bits of the double nearest to a decimal text. Texts beyond the range of doubles are settled
by their size alone. -/
def Literal.bits (l : Literal) : Nat :=
  if l.digits = 0 then 0
  else
    let size : Int := (Nat.toDigits 10 l.digits).length + l.exponent
    if 310 < size then infinityBits
    else if size < -330 then 0
    else if 0 ≤ l.exponent then nearestBits (l.digits * pow10 l.exponent.toNat) 1
    else nearestBits l.digits (pow10 (-l.exponent).toNat)

/-- Reads a decimal text; the result may be infinite. -/
def readDecimal (text : String) : Option Float :=
  let (negative, cs) := cutSign text.toList
  (literal? cs).map fun l => ofParts negative l.bits

def readFinite (text : String) : Option Float := (readDecimal text).filter Float.isFinite

/-- Reads a decimal text or the name of a double that has no decimal text. -/
def readReal (text : String) : Option Float :=
  match readDecimal text with
  | some x => some x
  | none =>
    let (negative, cs) := cutSign text.toList
    let name := String.ofList cs
    if Text.sameLetters name "inf" || Text.sameLetters name "infinity" then
      some (ofParts negative infinityBits)
    else if Text.sameLetters name "nan" then some notANumber
    else none

end SkyQuery.Decimal
