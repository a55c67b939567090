import SkyQuery.Grammar.Value

/-!
# Function calls

The number of arguments of a call and their types are checked as soon as it is read. Shapes take a
coordinate system before their coordinates: always in version 2.0; in version 2.1 where the first
argument can only be a string, or where the number of arguments leaves no other choice.
-/

namespace SkyQuery.Grammar

open Parse

/-- `( [value (, value)*] )` -/
def arguments (value : Parse Operand) : Parse (List Operand) := do
  let _ ← expect .leftParen
  if ← eat .rightParen then return []
  let args ← commaSeparated value
  let _ ← expect .rightParen
  return args

/-- Fails on a call, begun at `start`, that has the wrong number of arguments. -/
def wrongArity {α : Type} (name expected : String) (given : Nat) (start : Place) : Parse α := do
  failAt .wrongArity ("Wrong number of parameters for the function \"" ++ name ++ "\": " ++
    expected ++ " expected, " ++ toString given ++ " given!") (← spanFrom start)

def arityText (fn : MathFn) : String :=
  if fn.minArity = fn.maxArity then toString fn.minArity
  else toString fn.minArity ++ " to " ++ toString fn.maxArity

def mathCall (value : Parse Operand) (fn : MathFn) (start : Place) : Parse Operand := do
  let args ← arguments value
  if args.length < fn.minArity || fn.maxArity < args.length then
    wrongArity fn.name (arityText fn) args.length start
  else
    checkAll checkNumeric args
    return .math fn args (← spanFrom start)

/-- `COUNT([DISTINCT | ALL] * | value)`, `AVG|MAX|MIN|SUM([DISTINCT | ALL] value)` -/
def aggregateCall (value : Parse Operand) (fn : AggregateFn) (start : Place) : Parse Operand := do
  let _ ← expect .leftParen
  let distinct ← quantifier
  let arg ← argument distinct
  let _ ← expect .rightParen
  return .aggregate fn distinct arg (← spanFrom start)
where
  /-- `[DISTINCT | ALL]` -/
  quantifier : Parse Bool := do
    if ← eat (.keyword .distinctKw) then return true
    let _ ← eat (.keyword .allKw)
    return false
  /-- `* | value` -/
  argument (distinct : Bool) : Parse (Option Operand) := do
    if fn == .count && !distinct then
      if ← eat .star then return none
    let arg ← value
    if fn == .avg || fn == .sum then checkNumeric arg
    return some arg

/-- `[( length )]` -/
def typeLength : Parse (Option Nat) := do
  if ← eat .leftParen then
    let start ← place
    let text := (← expect .integer).text
    match digitsBelow? (Nat.pow 2 32) text with
    | some n =>
      let _ ← expect .rightParen
      return some n
    | none =>
      failAt .invalidNumber ("Incorrect type length: \"" ++ text ++ "\"!") (← spanFrom start)
  else return none

def eatWord (word : String) (description : String) : Parse Bool := do
  if ← seesWord word description then
    let _ ← advance
    return true
  else return false

def castType : Parse CastType := do
  if ← eatWord "SMALLINT" "\"SMALLINT\"" then return .smallInt
  else if ← eatWord "INTEGER" "\"INTEGER\"" then return .integer
  else if ← eatWord "BIGINT" "\"BIGINT\"" then return .bigInt
  else if ← eatWord "REAL" "\"REAL\"" then return .real
  else if ← eatWord "DOUBLE" "\"DOUBLE PRECISION\"" then
    if ← eatWord "PRECISION" "\"PRECISION\"" then return .doublePrecision else unexpected
  else if ← eatWord "CHAR" "\"CHAR\"" then return .char (← typeLength)
  else if ← eatWord "VARCHAR" "\"VARCHAR\"" then return .varChar (← typeLength)
  else if ← eatWord "TIMESTAMP" "\"TIMESTAMP\"" then return .timestamp
  else unexpected

/-- `CAST(value AS type)` -/
def castCall (value : Parse Operand) (start : Place) : Parse Operand := do
  let _ ← expect .leftParen
  let arg ← value
  let _ ← expect (.keyword .asKw)
  let target ← castType
  let _ ← expect .rightParen
  return .cast arg target (← spanFrom start)

/-! ### Shapes -/

/-- Expressions that can only be strings; a column may be anything. -/
def isStringOnly : Operand → Bool
  | .string .. | .concatenation .. | .lower .. | .upper .. => true
  | .wrapped inner _ => isStringOnly inner
  | .geometry fn .. => fn == .coordsys
  | _ => false

/-- Expressions that can only be geometries. -/
def isPointLike : Operand → Bool
  | .wrapped inner _ => isPointLike inner
  | .geometry fn .. => fn.isGeometry
  | _ => false

/-- Whether the arguments of a shape in version 2.1 start with its coordinate system. -/
def startsWithCoordSys (fn : GeometryFn) : List Operand → Bool
  | [] => false
  | first :: others =>
    let n := others.length + 1
    let pointSecond := (others.head?.map isPointLike).getD false
    isStringOnly first ||
      match fn with
      | .point => n == 3
      | .circle => n == 4 || (n == 3 && pointSecond)
      | .box => n == 5 || (n == 4 && pointSecond)
      | .polygon => if pointSecond then !isPointLike first else n ≥ 7 && n % 2 == 1
      | _ => false

/-- The number of arguments of a shape, as messages give it. -/
def shapeArityText (fn : GeometryFn) : Version → String
  | .v20 =>
    match fn with
    | .point => "3"
    | .circle => "4"
    | .box => "5"
    | _ => "an odd number (at least 7)"
  | .v21 =>
    match fn with
    | .point => "2 (or 3 with a coordinate system)"
    | .circle => "2 or 3 (or one more with a coordinate system)"
    | .box => "3 or 4 (or one more with a coordinate system)"
    | _ => "at least 3 points or 6 coordinates (or one more with a coordinate system)"

/-- How the arguments of a shape are to be read. -/
inductive ShapeForm where
  /-- All are coordinates or lengths. -/
  | numbers
  /-- The first is a point, the others are lengths. -/
  | centred
  /-- All are points. -/
  | points
  deriving DecidableEq, Repr

/-- The form of a shape with `n` arguments after its coordinate system; `pointFirst` tells that the
first of them can only be a geometry. Version 2.0 knows numbers only. -/
def shapeForm? (v : Version) (fn : GeometryFn) (n : Nat) (pointFirst : Bool) : Option ShapeForm :=
  let pointFirst := v == .v21 && pointFirst
  match fn with
  | .point => if n = 2 then some .numbers else none
  | .circle =>
    if n = 3 && !pointFirst then some .numbers
    else if n = 2 && v == .v21 then some .centred
    else none
  | .box =>
    if n = 4 && !pointFirst then some .numbers
    else if n = 3 && v == .v21 then some .centred
    else none
  | .polygon =>
    if pointFirst then (if n ≥ 3 then some .points else none)
    else if n ≥ 6 && n % 2 == 0 then some .numbers
    else if 3 ≤ n && n < 6 && v == .v21 then some .points
    else none
  | _ => none

def checkShape : ShapeForm → List Operand → Parse Unit
  | .numbers, args => checkAll checkNumeric args
  | .points, args => checkAll checkGeometry args
  | .centred, [] => pure ()
  | .centred, centre :: lengths => do
    checkGeometry centre
    checkAll checkNumeric lengths

/-- A shape with its arguments, in either version. -/
def shape (fn : GeometryFn) (args : List Operand) (start : Place) : Parse Operand := do
  let v ← version
  let given := args.length
  let fits (coordSys : Option Operand) (args : List Operand) : Parse Operand := do
    let pointFirst := (args.head?.map isPointLike).getD false
    match shapeForm? v fn args.length pointFirst with
    | some form =>
      checkShape form args
      return .geometry fn coordSys args (← spanFrom start)
    | none => wrongArity fn.name (shapeArityText fn v) given start
  if v == .v20 || startsWithCoordSys fn args then
    match args with
    | [] => wrongArity fn.name (shapeArityText fn v) given start
    | coordSys :: coordinates =>
      checkString coordSys
      fits (some coordSys) coordinates
  else fits none args

/-! ### Calls -/

/-- Checks the arguments of a geometry function that is not a shape. -/
def checkGeometryArgs (fn : GeometryFn) (args : List Operand) (start : Place) : Parse Unit := do
  let n := args.length
  match fn with
  | .contains | .intersects =>
    if n = 2 then checkAll checkGeometry args else wrongArity fn.name "2" n start
  | .distance =>
    let v ← version
    if n = 2 then checkAll checkGeometry args
    else if n = 4 && v == .v21 then checkAll checkNumeric args
    else wrongArity fn.name (if v == .v20 then "2" else "2 or 4") n start
  | .region => if n = 1 then checkAll checkString args else wrongArity fn.name "1" n start
  | _ => if n = 1 then checkAll checkGeometry args else wrongArity fn.name "1" n start

def geometryCall (value : Parse Operand) (fn : GeometryFn) (start : Place) : Parse Operand := do
  let args ← arguments value
  if fn.isShape then shape fn args start
  else
    checkGeometryArgs fn args start
    return .geometry fn none args (← spanFrom start)

/-- The argument of a function of one string. -/
def stringArgument (value : Parse Operand) (name : String) (start : Place) : Parse Operand := do
  match ← arguments value with
  | [arg] =>
    checkString arg
    return arg
  | args => wrongArity name "1" args.length start

def inUnitCall (value : Parse Operand) (start : Place) : Parse Operand := do
  match ← arguments value with
  | [arg, unit] =>
    checkNumeric arg
    checkString unit
    return .inUnit arg unit (← spanFrom start)
  | args => wrongArity "IN_UNIT" "2" args.length start

def coalesceCall (value : Parse Operand) (start : Place) : Parse Operand := do
  match ← arguments value with
  | [] => wrongArity "COALESCE" "at least 1" 0 start
  | args => return .coalesce args (← spanFrom start)

/-- A call of any function, with the reader of its arguments. -/
def call (value : Parse Operand) : Parse Operand := do
  let start ← place
  let name ← advance
  match name.kind with
  | .keyword (.aggregate fn) => aggregateCall value fn start
  | .keyword (.math fn) => mathCall value fn start
  | .keyword (.geometry fn) => geometryCall value fn start
  | .keyword .lowerKw => return .lower (← stringArgument value "LOWER" start) (← spanFrom start)
  | .keyword .upperKw => return .upper (← stringArgument value "UPPER" start) (← spanFrom start)
  | .keyword .coalesceKw => coalesceCall value start
  | .keyword .inUnitKw => inUnitCall value start
  | .keyword .castKw => castCall value start
  | _ =>
    let args ← arguments value
    return .userDefined (Identifier.ofText name.text) args (← spanFrom start)

/-- A value that is nested at most `n` deep. -/
def valueFor : Nat → Parse Operand
  | 0 => unexpected
  | n + 1 => fun v s => concatenation (primary (call (valueFor n)) (valueFor n)) v s

def value : Parse Operand := bounded valueFor

end SkyQuery.Grammar
