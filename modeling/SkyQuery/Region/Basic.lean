import SkyQuery.CoordSys.Basic
import SkyQuery.Decimal.Shortest
import SkyQuery.Feature.Basic

/-!
# Regions

Positions, shapes and combinations of regions. A polygon has three vertices at least and a union or
intersection two members at least, as their constructors demand. A region has two written forms:
STC-S, which all have, and DALI, which only simple shapes in the default coordinate system have.
-/

namespace SkyQuery

structure Point where
  x : Float
  y : Float
  deriving DecidableEq, Repr

inductive Combination where
  | union | intersection
  deriving DecidableEq, Repr

inductive Region where
  | position (sys : CoordSys) (point : Point)
  | circle (sys : CoordSys) (centre : Point) (radius : Float)
  | box (sys : CoordSys) (centre : Point) (width height : Float)
  | polygon (sys : CoordSys) (first second third : Point) (others : List Point)
  | combination (op : Combination) (sys : CoordSys) (first second : Region) (others : List Region)
  | not (inner : Region)

inductive RegionKind where
  | position | circle | box | polygon | union | intersection | not
  deriving DecidableEq, Repr

namespace RegionKind

def all : List RegionKind :=
  [.position, .circle, .box, .polygon, .union, .intersection, .not]

def word : RegionKind → String
  | .position => "POSITION"
  | .circle => "CIRCLE"
  | .box => "BOX"
  | .polygon => "POLYGON"
  | .union => "UNION"
  | .intersection => "INTERSECTION"
  | .not => "NOT"

def ofWord? (text : String) : Option RegionKind := all.find? fun k => Text.sameLetters k.word text

def form : RegionKind → String
  | .position => "POSITION <coordsys> <coordPair>"
  | .circle => "CIRCLE <coordsys> <coordPair> <radius>"
  | .box => "BOX <coordsys> <coordPair> <width> <height>"
  | .polygon => "POLYGON <coordsys> <coordPair> <coordPair> <coordPair> [<coordPair> ...]"
  | .union => "UNION <coordsys> ( <region> <region> [<region> ...] )"
  | .intersection => "INTERSECTION <coordsys> ( <region> <region> [<region> ...] )"
  | .not => "NOT ( <region> )"

/-- The geometry function that a region of the kind needs; combinations need only their members. -/
def function? : RegionKind → Option String
  | .position => some "POINT"
  | .circle => some "CIRCLE"
  | .box => some "BOX"
  | .polygon => some "POLYGON"
  | .union | .intersection | .not => none

def feature? (k : RegionKind) : Option Feature := k.function?.map (Feature.standard .geometry)

end RegionKind

def Combination.kind : Combination → RegionKind
  | .union => .union
  | .intersection => .intersection

namespace Region

def polygonOf (sys : CoordSys) : List Point → Except Diagnostic Region
  | first :: second :: third :: others => .ok (.polygon sys first second third others)
  | vertices =>
    .error
      { code := .invalidRegion
        message := "A polygon must have at least 3 vertices, not " ++ toString vertices.length ++
          "!" }

def combinationOf (op : Combination) (sys : CoordSys) : List Region → Except Diagnostic Region
  | first :: second :: others => .ok (.combination op sys first second others)
  | regions =>
    .error
      { code := .invalidRegion
        message := "A " ++ op.kind.word ++ " must contain at least 2 regions, not " ++
          toString regions.length ++ "!" }

/-! ### Parts -/

def kind : Region → RegionKind
  | .position .. => .position
  | .circle .. => .circle
  | .box .. => .box
  | .polygon .. => .polygon
  | .combination op .. => op.kind
  | .not _ => .not

/-- The coordinate system, which a negation leaves to what it negates. -/
def sys? : Region → Option CoordSys
  | .position sys .. | .circle sys .. | .box sys .. | .polygon sys .. | .combination _ sys .. =>
    some sys
  | .not _ => none

def points : Region → List Point
  | .position _ p | .circle _ p _ | .box _ p _ _ => [p]
  | .polygon _ first second third others => first :: second :: third :: others
  | .combination .. | .not _ => []

def radius : Region → Float
  | .circle _ _ radius => radius
  | _ => Decimal.notANumber

def width : Region → Float
  | .box _ _ width _ => width
  | _ => Decimal.notANumber

def height : Region → Float
  | .box _ _ _ height => height
  | _ => Decimal.notANumber

def members : Region → List Region
  | .combination _ _ first second others => first :: second :: others
  | .not inner => [inner]
  | _ => []

mutual

/-- A region and all those it is made of, each before its members. -/
def walk : Region → List Region
  | .combination op sys first second others =>
    .combination op sys first second others :: (first.walk ++ second.walk ++ walkAll others)
  | .not inner => .not inner :: inner.walk
  | shape => [shape]

def walkAll : List Region → List Region
  | [] => []
  | r :: rest => r.walk ++ walkAll rest

end

/-! ### Equality -/

/-- Equality of lengths: those that do not apply are equal. -/
def sameLength (a b : Float) : Bool := a == b || (a.isNaN && b.isNaN)

def samePoint (p q : Point) : Bool := p.x == q.x && p.y == q.y

def samePoints : List Point → List Point → Bool
  | [], [] => true
  | p :: ps, q :: qs => samePoint p q && samePoints ps qs
  | _, _ => false

mutual

/-- Equality of regions: numbers are compared as numbers. -/
def same : Region → Region → Bool
  | .position sys p, .position sys' p' => sys == sys' && samePoint p p'
  | .circle sys p r, .circle sys' p' r' => sys == sys' && samePoint p p' && sameLength r r'
  | .box sys p w h, .box sys' p' w' h' =>
    sys == sys' && samePoint p p' && sameLength w w' && sameLength h h'
  | .polygon sys a b c ps, .polygon sys' a' b' c' ps' =>
    sys == sys' && samePoints (a :: b :: c :: ps) (a' :: b' :: c' :: ps')
  | .combination op sys a b rs, .combination op' sys' a' b' rs' =>
    op == op' && sys == sys' && a.same a' && b.same b' && sameAll rs rs'
  | .not r, .not r' => r.same r'
  | _, _ => false

def sameAll : List Region → List Region → Bool
  | [], [] => true
  | r :: rs, r' :: rs' => r.same r' && sameAll rs rs'
  | _, _ => false

end

/-! ### Written forms -/

/-- Numbers are positional from a thousandth up to ten million. -/
def numberFormat : Decimal.Format where
  least := -3
  greatest := 6
  exponentMark := "E"
  nan := "NaN"
  infinity := "Infinity"

/-- Coordinates and lengths, in the order in which they are written. -/
def numbers (r : Region) : List Float :=
  r.points.flatMap (fun p => [p.x, p.y]) ++
    match r with
    | .circle _ _ radius => [radius]
    | .box _ _ width height => [width, height]
    | _ => []

def renderNumbers (numbers : List Float) : String :=
  String.intercalate " " (numbers.map numberFormat.write)

/-- The words of a coordinate system that may not be left out, each after a space. -/
def renderSys (sys : CoordSys) : String :=
  if sys.isDefault then "" else " " ++ sys.render

mutual

def renderStcs : Region → String
  | .combination op sys first second others =>
    op.kind.word ++ renderSys sys ++ " ( " ++ first.renderStcs ++ " " ++ second.renderStcs ++
      renderMembers others ++ " )"
  | .not inner => RegionKind.not.word ++ " ( " ++ inner.renderStcs ++ " )"
  | .position sys p =>
    RegionKind.position.word ++ renderSys sys ++ " " ++ renderNumbers (position sys p).numbers
  | .circle sys p r =>
    RegionKind.circle.word ++ renderSys sys ++ " " ++ renderNumbers (circle sys p r).numbers
  | .box sys p w h =>
    RegionKind.box.word ++ renderSys sys ++ " " ++ renderNumbers (box sys p w h).numbers
  | .polygon sys a b c ps =>
    RegionKind.polygon.word ++ renderSys sys ++ " " ++ renderNumbers (polygon sys a b c ps).numbers

def renderMembers : List Region → String
  | [] => ""
  | r :: rest => " " ++ r.renderStcs ++ renderMembers rest

end

/-- The DALI form, which positions, circles and polygons in the default system have. -/
def renderDali? (r : Region) : Option String :=
  match r with
  | .position sys _ | .circle sys _ _ | .polygon sys .. =>
    if sys.isDefault then some (renderNumbers r.numbers) else none
  | .box .. | .combination .. | .not _ => none

/-- The shorter of the forms that a region has. -/
def render (r : Region) : String := r.renderDali?.getD r.renderStcs

end Region

end SkyQuery
