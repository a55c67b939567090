import SkyQuery.Decimal.Binary64

/-!
# Shortest decimals

`shortest` finds the decimal with the fewest digits that reads back as a given double, and of those
the nearest to it; of two that are as near, the greater. It works on whole numbers only: a decimal
`d · 10^p` reads back if it lies between the midpoints to the two neighbours of the double, which
themselves count when its mantissa is even.
-/

namespace SkyQuery.Decimal

/-- Digits and the power of ten of the first of them: `d₀.d₁d₂… · 10^exponent`. -/
structure Digits where
  digits : List Char
  exponent : Int
  deriving DecidableEq, Repr

/-- A double and its midpoints to its neighbours, all times 2^1076. -/
structure Interval where
  value : Nat
  low : Nat
  high : Nat
  /-- Whether the midpoints belong to the double. -/
  closed : Bool
  deriving DecidableEq, Repr

/-- The interval of `mantissa · 2^shift` units. The neighbour below the least mantissa of a binade
is nearer than the one above. -/
def interval (mantissa shift : Nat) : Interval where
  value := 4 * mantissa * pow2 shift
  low := (4 * mantissa - if mantissa = pow2 52 ∧ 0 < shift then 1 else 2) * pow2 shift
  high := (4 * mantissa + 2) * pow2 shift
  closed := mantissa % 2 = 0

/-- Whether `d · unit` reads back, the interval being multiplied by `scale`. -/
def Interval.holds (i : Interval) (unit scale d : Nat) : Bool :=
  if i.closed then i.low * scale ≤ d * unit && d * unit ≤ i.high * scale
  else i.low * scale < d * unit && d * unit < i.high * scale

/-- Of the multiples of `10^power` beside the double, the nearer of those that read back. -/
def Interval.onGrid (i : Interval) (power : Int) : Option Nat :=
  let unit := pow2 1076 * pow10 power.toNat
  let scale := pow10 (-power).toNat
  let below := i.value * scale / unit
  match i.holds unit scale below, i.holds unit scale (below + 1) with
  | true, true =>
    if 2 * (i.value * scale - below * unit) < unit then some below else some (below + 1)
  | true, false => some below
  | false, true => some (below + 1)
  | false, false => none

/-- The number of digits of the whole part of `num / den`, less one; below one, minus the number of
zeros before the first digit that is none, the one before the point counted. -/
def decimalExponent (num den : Nat) : Int :=
  if den ≤ num then (Nat.toDigits 10 (num / den)).length - 1
  else
    let zeros := (Nat.toDigits 10 (den / num)).length
    if den ≤ num * pow10 (zeros - 1) then 1 - zeros else -zeros

/-- The digits without the zeros at their end. -/
def stripZeros (cs : List Char) : List Char := (cs.reverse.dropWhile (· == '0')).reverse

/-- The shortest decimal for `mantissa · 2^shift` units, which must not be zero. -/
def shortest (mantissa shift : Nat) : Digits :=
  let i := interval mantissa shift
  let top := decimalExponent i.value (pow2 1076)
  let found := (List.range 17).findSome? fun n : Nat =>
    (i.onGrid (top - n)).map fun d => (d, top - (n : Int))
  match found with
  | some (d, power) =>
    let cs := Nat.toDigits 10 d
    ⟨stripZeros cs, power + (cs.length - 1 : Nat)⟩
  | none => ⟨[], 0⟩

/-! ### Written forms -/

/-- How doubles are written: positionally while the exponent of the first digit lies between
`least` and `greatest`, and always with a point. -/
structure Format where
  least : Int
  greatest : Int
  exponentMark : String
  nan : String
  infinity : String

/-- The digits with the point after the place of the units. -/
def positional (d : Digits) : String :=
  if d.exponent < 0 then
    String.ofList (['0', '.'] ++ List.replicate (-d.exponent - 1).toNat '0' ++ d.digits)
  else
    let n := d.exponent.toNat + 1
    let whole := d.digits.take n ++ List.replicate (n - d.digits.length) '0'
    let fraction := d.digits.drop n
    String.ofList (whole ++ ['.'] ++ if fraction.isEmpty then ['0'] else fraction)

/-- The digits with the point after the first of them, and the exponent. -/
def withExponent (mark : String) (d : Digits) : String :=
  let fraction := d.digits.drop 1
  String.ofList (d.digits.take 1 ++ ['.'] ++ if fraction.isEmpty then ['0'] else fraction) ++
    mark ++ toString d.exponent

/-- A double in a format. -/
def Format.write (f : Format) (x : Float) : String :=
  let (negative, magnitude) := parts x
  let sign := if negative then "-" else ""
  match magnitude with
  | .nan => f.nan
  | .infinite => sign ++ f.infinity
  | .finite mantissa shift =>
    if mantissa = 0 then sign ++ "0.0"
    else
      let d := shortest mantissa shift
      sign ++ if f.least ≤ d.exponent ∧ d.exponent ≤ f.greatest then positional d
        else withExponent f.exponentMark d

end SkyQuery.Decimal
