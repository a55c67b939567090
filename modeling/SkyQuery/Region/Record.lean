import SkyQuery.Region.OfOperand

/-!
# Region records

A region as it is stored, in seven fields that all kinds share. A record can hold fields that do not go together;
the constructors fill those that a kind has and leave the others empty, and the readers of texts and the calls of
geometry functions go through the constructors. A coordinate system is stored as its three parts. A call takes the
first point of a record by its index, so besides a refusal it could end out of bounds.
-/

namespace SkyQuery

open Vocabulary

/-! ### Coordinate systems -/

/-- The parts of a coordinate system, as they are stored. -/
structure SysRecord where
  frame : Frame := unstated
  refPos : RefPos := unstated
  flavor : Flavor := unstated
  deriving DecidableEq, Repr

namespace SysRecord

def isDefault (c : SysRecord) : Bool := c.frame == unstated && c.refPos == unstated && c.flavor == unstated

def renderFull (c : SysRecord) : String := CoordSys.fullText c.frame c.refPos c.flavor

def render (c : SysRecord) : String :=
  String.intercalate " "
    (CoordSys.statedWord c.frame ++ CoordSys.statedWord c.refPos ++ CoordSys.statedWord c.flavor)

/-- The record of three parts, which a cartesian flavor restricts. -/
def new (frame : Frame) (refPos : RefPos) (flavor : Flavor) : Except Diagnostic SysRecord :=
  if flavor.isCartesian && (frame != unstated || refPos != unstated) then
    .error
      { code := .framedCartesian
        message := "Invalid coordinate system \"" ++ CoordSys.fullText frame refPos flavor ++
          "\": a cartesian flavor MUST have an UNKNOWNFRAME and UNKNOWNREFPOS!" }
  else .ok { frame, refPos, flavor }

/-- Reads as many of the first words as belong to a coordinate system. -/
def ofWords (words : List String) : Except Diagnostic (SysRecord × List String) :=
  let (frame, words) := CoordSys.cutWord words
  let (refPos, words) := CoordSys.cutWord words
  let (flavor, words) := CoordSys.cutWord words
  (new frame refPos flavor).map fun c => (c, words)

def parse (text : String) : Except Diagnostic SysRecord := do
  match ← ofWords (Text.words text) with
  | (c, []) => return c
  | (_, word :: _) =>
    throw
      { code := .invalidCoordSys
        message := "Incorrect syntax: \"" ++ word ++ "\" was unexpected! Expected syntax: \"" ++
          CoordSys.form ++ "\" ; an empty string is also allowed and will be interpreted as \"" ++
          renderFull {} ++ "\"." }

/-- The coordinate system that a string literal holds. -/
def ofOperand (o : Operand) : Except Diagnostic SysRecord :=
  match o.asString? with
  | some text => (parse text).mapError (·.orAt o.span)
  | none =>
    .error
      { code := .nonLiteralCoordSys
        message := "A coordinate system must be a string literal: \"" ++ o.render ++ "\" is not!"
        span := o.span }

end SysRecord

/-! ### Regions -/

/-- A region as it is stored. -/
structure RegionRecord where
  kind : RegionKind
  sys : Option SysRecord
  points : List Point
  radius : Float
  width : Float
  height : Float
  regions : List RegionRecord

namespace RegionRecord

/-- A record that has a coordinate system and points, and nothing else. -/
def shape (kind : RegionKind) (sys : SysRecord) (points : List Point) : RegionRecord where
  kind
  sys := some sys
  points
  radius := Decimal.notANumber
  width := Decimal.notANumber
  height := Decimal.notANumber
  regions := []

def position (sys : SysRecord) (p : Point) : RegionRecord := shape .position sys [p]

def circle (sys : SysRecord) (centre : Point) (radius : Float) : RegionRecord :=
  { shape .circle sys [centre] with radius }

def box (sys : SysRecord) (centre : Point) (width height : Float) : RegionRecord :=
  { shape .box sys [centre] with width, height }

def polygonOf (sys : SysRecord) (vertices : List Point) : Except Diagnostic RegionRecord :=
  if vertices.length < 3 then
    .error
      { code := .invalidRegion
        message := "A polygon must have at least 3 vertices, not " ++ toString vertices.length ++
          "!" }
  else .ok (shape .polygon sys vertices)

def combinationOf (op : Combination) (sys : SysRecord) (regions : List RegionRecord) :
    Except Diagnostic RegionRecord :=
  if regions.length < 2 then
    .error
      { code := .invalidRegion
        message := "A " ++ op.kind.word ++ " must contain at least 2 regions, not " ++
          toString regions.length ++ "!" }
  else .ok { shape op.kind sys [] with regions }

def negation (region : RegionRecord) : RegionRecord where
  kind := .not
  sys := none
  points := []
  radius := Decimal.notANumber
  width := Decimal.notANumber
  height := Decimal.notANumber
  regions := [region]

mutual

/-- A record and all those it is made of, each before its own. -/
def walk : RegionRecord → List RegionRecord
  | r@⟨_, _, _, _, _, _, regions⟩ => r :: walkAll regions

def walkAll : List RegionRecord → List RegionRecord
  | [] => []
  | r :: rest => r.walk ++ walkAll rest

end

mutual

/-- Equality of records, field by field: numbers are compared as numbers, and lengths that are none are equal. -/
def same : RegionRecord → RegionRecord → Bool
  | ⟨kind, sys, points, radius, width, height, regions⟩, ⟨kind', sys', points', radius', width', height', regions'⟩ =>
    kind == kind' && sys == sys' && Region.samePoints points points' && Region.sameLength radius radius' &&
      Region.sameLength width width' && Region.sameLength height height' && sameAll regions regions'

def sameAll : List RegionRecord → List RegionRecord → Bool
  | [], [] => true
  | r :: rs, r' :: rs' => r.same r' && sameAll rs rs'
  | _, _ => false

end

/-! ### Written forms -/

def numbers (r : RegionRecord) : List Float :=
  r.points.flatMap (fun p => [p.x, p.y]) ++
    match r.kind with
    | .circle => [r.radius]
    | .box => [r.width, r.height]
    | _ => []

/-- The words of a coordinate system that may not be left out, each after a space. -/
def renderSys : Option SysRecord → String
  | some sys => if sys.isDefault then "" else " " ++ sys.render
  | none => ""

mutual

def renderStcs : RegionRecord → String
  | r@⟨kind, sys, _, _, _, _, regions⟩ =>
    kind.word ++ renderSys sys ++
      match kind with
      | .union | .intersection | .not => " (" ++ renderMembers regions ++ " )"
      | _ => " " ++ Region.renderNumbers r.numbers

def renderMembers : List RegionRecord → String
  | [] => ""
  | r :: rest => " " ++ r.renderStcs ++ renderMembers rest

end

/-- The DALI form, which positions, circles and polygons have unless their coordinate system must be stated. -/
def renderDali? (r : RegionRecord) : Option String :=
  let simple := r.kind == .position || r.kind == .circle || r.kind == .polygon
  if simple && r.sys.all (·.isDefault) then some (Region.renderNumbers r.numbers) else none

/-- The shorter of the forms that a record has. -/
def render (r : RegionRecord) : String := r.renderDali?.getD r.renderStcs

/-! ### Reading -/

open Region (Reader)

/-- What a constructor makes in the middle of a text, if it makes something. -/
def made (r : Except Diagnostic RegionRecord) : Reader RegionRecord := fun words => r.map fun r => (r, words)

def system : Reader SysRecord := fun words => SysRecord.ofWords words

/-- Reads `( region region region* )` into a combination. -/
def combinationBody (region : Reader RegionRecord) (op : Combination) : Reader RegionRecord := do
  let sys ← system
  Region.paren op.kind "("
  let first ← region
  let second ← region
  let others ← Region.bounded (Region.membersFor region)
  Region.paren op.kind ")"
  made (combinationOf op sys (first :: second :: others))

/-- Reads what follows the word of a kind, with the reader of members. -/
def body (region : Reader RegionRecord) : RegionKind → Reader RegionRecord
  | .position => do
    let sys ← system
    let p ← Region.pair .position
    return position sys p
  | .circle => do
    let sys ← system
    let p ← Region.pair .circle
    let radius ← Region.length .circle
    return circle sys p radius
  | .box => do
    let sys ← system
    let p ← Region.pair .box
    let width ← Region.length .box
    let height ← Region.length .box
    return box sys p width height
  | .polygon => do
    let sys ← system
    let first ← Region.pair .polygon
    let second ← Region.pair .polygon
    let third ← Region.pair .polygon
    let others ← Region.bounded (Region.pairsFor .polygon)
    made (polygonOf sys (first :: second :: third :: others))
  | .union => combinationBody region .union
  | .intersection => combinationBody region .intersection
  | .not => do
    Region.paren .not "("
    let inner ← region
    Region.paren .not ")"
    return negation inner

/-- Reads a region nested at most `n` deep. -/
def stcsFor : Nat → Reader RegionRecord
  | 0 => Region.fault "Unexpected End Of Expression! A region was expected."
  | n + 1 => do
    match ← get with
    | [] => Region.fault "Unexpected End Of Expression! A region was expected."
    | word :: rest =>
      match RegionKind.ofWord? word with
      | some k =>
        set rest
        body (stcsFor n) k
      | none =>
        Region.fault ("Incorrect syntax: \"" ++ word ++ "\" was unexpected! A region (POSITION, CIRCLE, " ++
          "BOX, POLYGON, UNION, INTERSECTION or NOT) was expected.")

/-- Reads the STC-S form, to the last word. -/
def stcs : Reader RegionRecord := do
  let r ← fun words => stcsFor (words.length + 1) words
  match ← get with
  | [] => return r
  | word :: _ =>
    Region.fault ("Incorrect syntax: \"" ++ word ++ "\" was unexpected after the region \"" ++
      r.renderStcs ++ "\"!")

/-- Reads the DALI form, whose shape the count of numbers tells. -/
def readDali (words : List String) : Except Diagnostic RegionRecord :=
  if words.isEmpty then
    .error { code := .invalidDali, message := "Missing DALI expression to parse!" }
  else
    match words.mapM Decimal.readFinite with
    | some [x, y] => .ok (position {} ⟨x, y⟩)
    | some [x, y, radius] => .ok (circle {} ⟨x, y⟩ radius)
    | some numbers =>
      if numbers.length ≥ 6 && numbers.length % 2 == 0 then polygonOf {} (Region.pairUp numbers)
      else incorrect
    | none => incorrect
where
  incorrect : Except Diagnostic RegionRecord :=
    .error { code := .invalidDali, message := "Incorrect DALI region!" }

def parse (text : String) : Except Diagnostic RegionRecord :=
  let words := Region.cut text
  if (words.head?.bind RegionKind.ofWord?).isSome then (stcs words).map (·.1)
  else readDali words

/-! ### Calls -/

/-- Why a call gives no record: it is refused, or a point is taken that is not there. -/
inductive Fault where
  | refused (cause : Diagnostic)
  | outOfBounds
  deriving DecidableEq, Repr

/-- The fault, with its refusal placed at `span` unless it has a place already. -/
def Fault.orAt (f : Fault) (span : Option Span) : Fault :=
  match f with
  | .refused cause => .refused (cause.orAt span)
  | .outOfBounds => .outOfBounds

/-- What fails by refusals alone. -/
def refuse {α : Type} (x : Except Diagnostic α) : Except Fault α := x.mapError .refused

/-- The first point of a record, taken by its index. -/
def firstPoint (r : RegionRecord) : Except Fault Point :=
  match r.points[0]? with
  | some p => .ok p
  | none => .error .outOfBounds

/-- The coordinate system of a call, the default one when it has none. -/
def sysOf : Option Operand → Except Diagnostic SysRecord
  | some o => SysRecord.ofOperand o
  | none => .ok {}

/-- The region of a call of a point. -/
def ofPoint (sys : Option Operand) (args : List Operand) : Except Diagnostic RegionRecord := do
  let sys ← sysOf sys
  let p ← Region.twoNumbers args
  return position sys p

/-- The coordinate system, the centre and the lengths of a circle or box. -/
def centreOf (sys : Option Operand) (args : List Operand) : Except Fault (SysRecord × Point × List Operand) :=
  match args.head?.bind Region.asPoint? with
  | some (pointSys, coordinates) => do
    let point ← refuse (ofPoint pointSys coordinates)
    let sys ← match sys with
      | some o => refuse (SysRecord.ofOperand o)
      | none => .ok (point.sys.getD {})
    let p ← point.firstPoint
    return (sys, p, args.drop 1)
  | none => do
    let sys ← refuse (sysOf sys)
    let p ← refuse (Region.twoNumbers args)
    return (sys, p, args.drop 2)

/-- Collects vertices from points that must all be literal. The first of them gives the coordinate system, unless the
call has `own` one. -/
def verticesOf (own : Bool) (sys : SysRecord) (vertices : List Point) :
    List Operand → Except Fault (SysRecord × List Point)
  | [] => .ok (sys, vertices)
  | o :: rest =>
    match Region.asPoint? o with
    | none => refuse (Region.nonNumeric o)
    | some (pointSys, coordinates) => do
      let point ← refuse (ofPoint pointSys coordinates)
      let sys := if !own && vertices.isEmpty then point.sys.getD {} else sys
      let p ← point.firstPoint
      verticesOf own sys (vertices ++ [p]) rest

def polygonOfArgs (sys : Option Operand) (args : List Operand) : Except Fault RegionRecord := do
  let stated ← refuse (sysOf sys)
  if (args.head?.bind Region.asPoint?).isSome then
    let (sys, vertices) ← verticesOf sys.isSome stated [] args
    refuse (polygonOf sys vertices)
  else if args.length % 2 != 0 then
    .error (.refused
      { code := .invalidRegion, message := "A polygon needs an even number of coordinates!" })
  else
    let vertices ← refuse (Region.coordinatesOf args)
    refuse (polygonOf stated vertices)

/-- The region that a string literal holds. -/
def ofLiteral : List Operand → Except Diagnostic RegionRecord
  | [arg] =>
    match arg.asString? with
    | none =>
      .error
        { code := .nonStringArgument
          message := "Can not convert into STC-S a non string argument: \"" ++ arg.render ++ "\"!"
          span := arg.span }
    | some text =>
      (parse text).mapError fun cause =>
        { code := .unsupportedSerialization
          message := "Unsupported region serialization!"
          span := arg.span
          hint := some cause.message }
  | _ =>
    .error
      { code := .invalidRegion, message := "A REGION function needs exactly one parameter!" }

/-- The region that a call of a geometry function describes. -/
def ofCall (fn : GeometryFn) (sys : Option Operand) (args : List Operand) : Except Fault RegionRecord :=
  match fn with
  | .point => refuse (ofPoint sys args)
  | .circle => do
    let (sys, p, lengths) ← centreOf sys args
    let radius ← refuse (Region.oneNumber lengths)
    return circle sys p radius
  | .box => do
    let (sys, p, lengths) ← centreOf sys args
    let size ← refuse (Region.twoNumbers lengths)
    return box sys p size.x size.y
  | .polygon => polygonOfArgs sys args
  | .region => refuse (ofLiteral args)
  | _ => .error (.refused { code := .notAShape, message := "Unknown region type!" })

/-- The region that an operand describes, which may stand in parentheses. -/
def ofOperand : Operand → Except Fault RegionRecord
  | .wrapped inner _ => ofOperand inner
  | .geometry fn sys args span => (ofCall fn sys args).mapError (·.orAt span)
  | o => .error (.refused { code := .notAShape, message := "Unknown region type!", span := o.span })

end RegionRecord

end SkyQuery
