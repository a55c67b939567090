import SkyQuery.Region.OfOperand
import SkyQuery.Sql.Dialect

/-!
# Geometry in PostgreSQL

The extension pgSphere gives PostgreSQL geometry functions on the sphere. It reckons in radians and
knows no coordinate systems: angles are turned from degrees on the way in and back on the way out.
-/

namespace SkyQuery.Sql.PgSphere

/-- The call of a geometry function as it is written in a query. -/
def callText (fn : GeometryFn) (sys : Option Operand) (args : List Operand) : String :=
  (Operand.geometry fn sys args none).render

/-- `x, y` as a point -/
def point (x y : SqlText) : SqlText := do
  let x ← x
  let y ← y
  return "spoint(RADIANS(" ++ x ++ "), RADIANS(" ++ y ++ "))"

def circle (centre radius : SqlText) : SqlText := do
  let centre ← centre
  let radius ← radius
  return "scircle(" ++ centre ++ ", RADIANS(" ++ radius ++ "))"

/-- A box given by the coordinates of its centre. -/
def boxAround (x y width height : SqlText) : SqlText := do
  let x ← x
  let y ← y
  let w ← width
  let h ← height
  let corner (sign : String) : String :=
    "spoint(RADIANS((" ++ x ++ ") " ++ sign ++ " (" ++ w ++ ") / 2), RADIANS((" ++ y ++ ") " ++
      sign ++ " (" ++ h ++ ") / 2))"
  return "sbox(" ++ corner "-" ++ ", " ++ corner "+" ++ ")"

/-- A box given by its centre as a point. -/
def boxAt (centre width height : SqlText) : SqlText := do
  let c ← centre
  let w ← width
  let h ← height
  let corner (sign : String) : String :=
    "spoint(long(" ++ c ++ ") " ++ sign ++ " RADIANS(" ++ w ++ ") / 2, lat(" ++ c ++ ") " ++ sign ++
      " RADIANS(" ++ h ++ ") / 2)"
  return "sbox(" ++ corner "-" ++ ", " ++ corner "+" ++ ")"

def polygon (vertices : List SqlText) : SqlText := do
  let texts ← Dialect.sequence vertices
  return "spoly('\x7b' || " ++ joinWith " || ',' || " texts ++ " || '\x7d')"

def isGeometryCall : Operand → Bool
  | .geometry .. => true
  | _ => false

/-- Whether the arguments of a polygon are coordinates and not points. -/
def isCoordinateList (args : List Operand) : Bool :=
  args.length ≥ 6 && args.length % 2 == 0 && args.all fun o => !isGeometryCall o

/-- Coordinates two by two as points. -/
def pairUp : List SqlText → List SqlText
  | x :: y :: rest => point x y :: pairUp rest
  | _ => []

/-- The operator of a function that tells whether something holds of two geometries. -/
def predicateSymbol? : GeometryFn → Option String
  | .contains => some "@"
  | .intersects => some "&&"
  | _ => none

/-- `a symbol b` -/
def predicate (symbol call : String) : List SqlText → SqlText
  | [a, b] => do
    let a ← a
    let b ← b
    return a ++ " " ++ symbol ++ " " ++ b
  | _ => unsupported call

/-! ### Regions -/

def degrees (p : Point) : String :=
  "(" ++ Region.numberFormat.write p.x ++ "d," ++ Region.numberFormat.write p.y ++ "d)"

def region : Region → SqlText
  | .position _ p => .ok ("spoint '" ++ degrees p ++ "'")
  | .circle _ p radius =>
    .ok ("scircle '<" ++ degrees p ++ "," ++ Region.numberFormat.write radius ++ "d>'")
  | .box _ p width height =>
    let dx := width / 2
    let dy := height / 2
    .ok ("sbox '(" ++ degrees ⟨p.x - dx, p.y - dy⟩ ++ "," ++ degrees ⟨p.x + dx, p.y + dy⟩ ++ ")'")
  | .polygon _ first second third others =>
    .ok ("spoly '\x7b" ++ joinWith "," ((first :: second :: third :: others).map degrees) ++ "\x7d'")
  | r => unsupported ("a " ++ r.kind.word ++ " region")

/-- The region that a string literal holds. -/
def regionLiteral (arg : Operand) : SqlText :=
  match arg.asString? with
  | none => unsupported "a REGION whose argument is not a string literal"
  | some text =>
    match Region.parse text with
    | .ok r => region r
    | .error e => .error (.region e)

/-! ### Functions -/

def geometry (fn : GeometryFn) (sys : Option Operand) (args : List Operand)
    (texts : List SqlText) : SqlText :=
  match fn, texts with
  | .point, [x, y] => point x y
  | .circle, [centre, radius] => circle centre radius
  | .circle, [x, y, radius] => circle (point x y) radius
  | .box, [x, y, width, height] => boxAround x y width height
  | .box, [centre, width, height] => boxAt centre width height
  | .polygon, texts => polygon (if isCoordinateList args then pairUp texts else texts)
  | .contains, texts => holds "@" texts
  | .intersects, texts => holds "&&" texts
  | .distance, [a, b] => distance a b
  | .distance, [x, y, x', y'] => distance (point x y) (point x' y')
  | .area, [shape] => do return "DEGREES(DEGREES(area(" ++ (← shape) ++ ")))"
  | .centroid, [shape] => do return "center(" ++ (← shape) ++ ")"
  | .coord1, [p] => do return "DEGREES(long(" ++ (← p) ++ "))"
  | .coord2, [p] => do return "DEGREES(lat(" ++ (← p) ++ "))"
  | .region, [_] =>
    match args with
    | [arg] => regionLiteral arg
    | _ => unsupported (callText fn sys args)
  | _, _ => unsupported (callText fn sys args)
where
  /-- Whether something holds of two geometries, as a number. -/
  holds (symbol : String) (texts : List SqlText) : SqlText := do
    return "CAST((" ++ (← predicate symbol (callText fn sys args) texts) ++ ") AS INTEGER)"
  distance (a b : SqlText) : SqlText := do
    let a ← a
    let b ← b
    return "DEGREES(" ++ a ++ " <-> " ++ b ++ ")"

/-- What a call tells of two geometries: the operator for it, the call as it is written, and its
arguments. -/
def predicateCall? : Operand → Option (String × String × List Operand)
  | .geometry fn sys args _ =>
    (predicateSymbol? fn).map fun symbol => (symbol, callText fn sys args, args)
  | _ => none

/-- Whether a comparison with a number asks that something holds, or that it does not; a comparison
of another kind asks neither. -/
def asked? (op : ComparisonOp) (value : Operand) : Option Bool :=
  match op, value.asNumber? with
  | .eq, some n => if n == 1 then some true else if n == 0 then some false else none
  | .notEq, some n => if n == 1 then some false else if n == 0 then some true else none
  | _, _ => none

/-- A comparison of a predicate with one or zero becomes the predicate, for which there are
indexes. -/
def comparison (operand : Operand → SqlText) (left : Operand) (op : ComparisonOp)
    (right : Operand) : SqlText :=
  let found := match predicateCall? left with
    | some call => some (call, right)
    | none => (predicateCall? right).map fun call => (call, left)
  match found with
  | none => plainComparison operand left op right
  | some ((symbol, call, args), value) =>
    match asked? op value with
    | none => plainComparison operand left op right
    | some holds => do
      let text ← predicate symbol call (args.map operand)
      return if holds then text else "NOT (" ++ text ++ ")"

end PgSphere

/-- PostgreSQL with the extension pgSphere. -/
def pgSphere : Dialect := { postgres with geometry := PgSphere.geometry, comparison := PgSphere.comparison }

end SkyQuery.Sql
