/-!
# Built-in functions

The mathematical, aggregate and geometry functions of the language, with their names and arities.
-/

namespace SkyQuery

inductive MathFn where
  | abs | ceiling | degrees | exp | floor | log | log10 | mod | pi | power | radians | rand
  | round | sqrt | truncate | acos | asin | atan | atan2 | cos | cot | sin | tan
  deriving DecidableEq, Repr

namespace MathFn

def all : List MathFn :=
  [.abs, .ceiling, .degrees, .exp, .floor, .log, .log10, .mod, .pi, .power, .radians, .rand,
    .round, .sqrt, .truncate, .acos, .asin, .atan, .atan2, .cos, .cot, .sin, .tan]

def name : MathFn → String
  | .abs => "ABS"
  | .ceiling => "CEILING"
  | .degrees => "DEGREES"
  | .exp => "EXP"
  | .floor => "FLOOR"
  | .log => "LOG"
  | .log10 => "LOG10"
  | .mod => "MOD"
  | .pi => "PI"
  | .power => "POWER"
  | .radians => "RADIANS"
  | .rand => "RAND"
  | .round => "ROUND"
  | .sqrt => "SQRT"
  | .truncate => "TRUNCATE"
  | .acos => "ACOS"
  | .asin => "ASIN"
  | .atan => "ATAN"
  | .atan2 => "ATAN2"
  | .cos => "COS"
  | .cot => "COT"
  | .sin => "SIN"
  | .tan => "TAN"

def minArity : MathFn → Nat
  | .pi | .rand => 0
  | .mod | .power | .atan2 => 2
  | _ => 1

def maxArity : MathFn → Nat
  | .pi => 0
  | .round | .truncate | .mod | .power | .atan2 => 2
  | _ => 1

end MathFn

inductive AggregateFn where
  | count | avg | max | min | sum
  deriving DecidableEq, Repr

namespace AggregateFn

def all : List AggregateFn := [.count, .avg, .max, .min, .sum]

def name : AggregateFn → String
  | .count => "COUNT"
  | .avg => "AVG"
  | .max => "MAX"
  | .min => "MIN"
  | .sum => "SUM"

end AggregateFn

inductive GeometryFn where
  | area | box | centroid | circle | contains | coord1 | coord2 | coordsys | distance
  | intersects | point | polygon | region
  deriving DecidableEq, Repr

namespace GeometryFn

def all : List GeometryFn :=
  [.area, .box, .centroid, .circle, .contains, .coord1, .coord2, .coordsys, .distance,
    .intersects, .point, .polygon, .region]

def name : GeometryFn → String
  | .area => "AREA"
  | .box => "BOX"
  | .centroid => "CENTROID"
  | .circle => "CIRCLE"
  | .contains => "CONTAINS"
  | .coord1 => "COORD1"
  | .coord2 => "COORD2"
  | .coordsys => "COORDSYS"
  | .distance => "DISTANCE"
  | .intersects => "INTERSECTS"
  | .point => "POINT"
  | .polygon => "POLYGON"
  | .region => "REGION"

/-- Shapes are made of coordinates in a coordinate system. -/
def isShape : GeometryFn → Bool
  | .point | .circle | .box | .polygon => true
  | _ => false

/-- The functions whose value is a geometry. -/
def isGeometry : GeometryFn → Bool
  | .region | .centroid => true
  | fn => fn.isShape

/-- The functions whose value is a number. -/
def isNumeric : GeometryFn → Bool
  | .area | .coord1 | .coord2 | .distance | .contains | .intersects => true
  | _ => false

end GeometryFn

end SkyQuery
