import SkyQuery.Region.Reader
import SkyQuery.Tree.Number
import SkyQuery.Tree.Printer

/-!
# Regions of a tree

The region that a geometry function describes, when its coordinate system is a string literal and
its numbers are numeric literals. The centre of a circle or box and the vertices of a polygon may be
points; the system of the first of them then stands for one that is missing.
-/

namespace SkyQuery

/-- The coordinate system that a string literal holds. -/
def CoordSys.ofOperand (o : Operand) : Except Diagnostic CoordSys :=
  match o.asString? with
  | some text => (CoordSys.parse text).mapError (·.orAt o.span)
  | none =>
    .error
      { code := .nonLiteralCoordSys
        message := "A coordinate system must be a string literal: \"" ++ o.render ++ "\" is not!"
        span := o.span }

namespace Region

/-- The coordinate system of a call, the default one when it has none. -/
def sysOf : Option Operand → Except Diagnostic CoordSys
  | some o => CoordSys.ofOperand o
  | none => .ok .default

def nonNumeric {α : Type} (o : Operand) : Except Diagnostic α :=
  .error
    { code := .nonNumericArgument
      message := "Can not convert into STC-S a non numeric argument: \"" ++ o.render ++ "\"!"
      span := o.span }

def numberOf (o : Operand) : Except Diagnostic Float :=
  match o.asNumber? with
  | some x => .ok x
  | none => nonNumeric o

/-- Fails because fewer than `expected` numbers are given. -/
def tooFew {α : Type} (expected given : Nat) : Except Diagnostic α :=
  .error
    { code := .invalidRegion
      message := toString expected ++ " numeric parameters were expected, not " ++
        toString given ++ "!" }

/-- The first of some arguments as a length. -/
def oneNumber : List Operand → Except Diagnostic Float
  | a :: _ => numberOf a
  | args => tooFew 1 args.length

/-- The first two of some arguments as numbers. -/
def twoNumbers : List Operand → Except Diagnostic Point
  | a :: b :: _ => do
    let x ← numberOf a
    let y ← numberOf b
    return ⟨x, y⟩
  | args => tooFew 2 args.length

/-- The coordinate system and arguments of a point, which may stand in parentheses. -/
def asPoint? : Operand → Option (Option Operand × List Operand)
  | .wrapped inner _ => asPoint? inner
  | .geometry .point sys args _ => some (sys, args)
  | _ => none

def pointOf (sys : Option Operand) (args : List Operand) : Except Diagnostic (CoordSys × Point) := do
  let sys ← sysOf sys
  let p ← twoNumbers args
  return (sys, p)

/-- The coordinate system, the centre and the lengths of a circle or box. -/
def centreOf (sys : Option Operand) (args : List Operand) :
    Except Diagnostic (CoordSys × Point × List Operand) :=
  match args.head?.bind asPoint? with
  | some (pointSys, coordinates) => do
    let (inner, p) ← pointOf pointSys coordinates
    let sys ← match sys with
      | some o => CoordSys.ofOperand o
      | none => .ok inner
    return (sys, p, args.drop 1)
  | none => do
    let sys ← sysOf sys
    let p ← twoNumbers args
    return (sys, p, args.drop 2)

/-- Points that must all be literal. -/
def verticesOf : List Operand → Except Diagnostic (List (CoordSys × Point))
  | [] => .ok []
  | o :: rest =>
    match asPoint? o with
    | none => nonNumeric o
    | some (sys, args) => do
      let p ← pointOf sys args
      let others ← verticesOf rest
      return p :: others

/-- Coordinates two by two. -/
def coordinatesOf : List Operand → Except Diagnostic (List Point)
  | [] => .ok []
  | [_] =>
    .error
      { code := .invalidRegion, message := "A polygon needs an even number of coordinates!" }
  | a :: b :: rest => do
    let p ← twoNumbers [a, b]
    let others ← coordinatesOf rest
    return p :: others

def polygonOfArgs (sys : Option Operand) (args : List Operand) : Except Diagnostic Region := do
  let own ← sysOf sys
  if (args.head?.bind asPoint?).isSome then
    let vertices ← verticesOf args
    let first := (vertices.head?.map (·.1)).getD own
    polygonOf (if sys.isSome then own else first) (vertices.map (·.2))
  else if args.length % 2 != 0 then
    .error
      { code := .invalidRegion, message := "A polygon needs an even number of coordinates!" }
  else
    let vertices ← coordinatesOf args
    polygonOf own vertices

/-- The region that a string literal holds. -/
def ofLiteral : List Operand → Except Diagnostic Region
  | [arg] =>
    match arg.asString? with
    | none =>
      .error
        { code := .nonStringArgument
          message := "Can not convert into STC-S a non string argument: \"" ++ arg.render ++ "\"!"
          span := arg.span }
    | some text =>
      (parse text).mapError fun cause =>
        { code := .unsupportedSerialization
          message := "Unsupported region serialization!"
          span := arg.span
          hint := some cause.message }
  | _ =>
    .error
      { code := .invalidRegion, message := "A REGION function needs exactly one parameter!" }

/-- The region that a call of a geometry function describes. -/
def ofCall (fn : GeometryFn) (sys : Option Operand) (args : List Operand) :
    Except Diagnostic Region :=
  match fn with
  | .point => do
    let (sys, p) ← pointOf sys args
    return .position sys p
  | .circle => do
    let (sys, p, lengths) ← centreOf sys args
    let radius ← oneNumber lengths
    return .circle sys p radius
  | .box => do
    let (sys, p, lengths) ← centreOf sys args
    let size ← twoNumbers lengths
    return .box sys p size.x size.y
  | .polygon => polygonOfArgs sys args
  | .region => ofLiteral args
  | _ => .error { code := .notAShape, message := "Unknown region type!" }

/-- The region that an operand describes, which may stand in parentheses. -/
def ofOperand : Operand → Except Diagnostic Region
  | .wrapped inner _ => ofOperand inner
  | .geometry fn sys args span => (ofCall fn sys args).mapError (·.orAt span)
  | o => .error { code := .notAShape, message := "Unknown region type!", span := o.span }

end Region

end SkyQuery
