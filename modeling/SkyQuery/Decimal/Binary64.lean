/-!
# Doubles as exact numbers

Every finite double is a whole number of units of 2^-1074. `parts` gives its sign and the mantissa
and shift of that number; `nearest` goes the other way and rounds a quotient to the nearest double,
ties to the even one.
-/

namespace SkyQuery.Decimal

abbrev pow2 (n : Nat) : Nat := Nat.pow 2 n

abbrev pow10 (n : Nat) : Nat := Nat.pow 10 n

/-- What a double is without its sign. -/
inductive Magnitude where
  /-- `mantissa · 2^shift` units of 2^-1074. -/
  | finite (mantissa shift : Nat)
  | infinite
  | nan
  deriving DecidableEq, Repr

/-- The magnitude whose bits, without the sign, are `n`. -/
def Magnitude.ofBits (n : Nat) : Magnitude :=
  let biased := n / pow2 52
  let fraction := n % pow2 52
  if biased = 0 then .finite fraction 0
  else if biased < 2047 then .finite (pow2 52 + fraction) (biased - 1)
  else if fraction = 0 then .infinite
  else .nan

/-- Whether a double is negative, which zeros can be too, and its magnitude. -/
def parts (x : Float) : Bool × Magnitude :=
  let n := x.toBits.toNat
  (pow2 63 ≤ n, Magnitude.ofBits (n % pow2 63))

def infinityBits : Nat := 2047 * pow2 52

/-- The double with a sign and a magnitude. -/
def ofParts (negative : Bool) (bits : Nat) : Float :=
  Float.ofBits (UInt64.ofNat (if negative then pow2 63 + bits else bits))

def notANumber : Float := Float.ofBits 0x7ff8000000000000

/-- The whole number nearest to `num / den`, of two the even one. -/
def roundDiv (num den : Nat) : Nat :=
  let quotient := num / den
  let twice := 2 * (num % den)
  if twice < den then quotient
  else if den < twice then quotient + 1
  else quotient + quotient % 2

/-- The bits of the double nearest to `num / den`, infinity if it is too great for any other. -/
def nearestBits (num den : Nat) : Nat :=
  let units := num * pow2 1074
  let shift := (units / den).log2 - 52
  min infinityBits (shift * pow2 52 + roundDiv units (den * pow2 shift))

end SkyQuery.Decimal
