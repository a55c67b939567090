import SkyQuery.CoordSys.Policy
import SkyQuery.Tree.Walk

/-!
# Coordinate systems of a query

The coordinate system of a shape must be well formed and allowed, where it is a string literal. Any
other expression is left to the database.
-/

namespace SkyQuery

/-- The coordinate system that an operand states as a literal, with the place of the literal. -/
def Operand.literalSys? : Operand → Option (String × Option Span)
  | .geometry _ (some sys) _ _ => sys.asString?.map fun text => (text, sys.span)
  | _ => none

namespace Check

/-- Refuses the text of a coordinate system that is not well formed or not allowed. -/
def allowed (policy : Option Policy) (text : String) : Except Diagnostic Unit := do
  let sys ← CoordSys.parse text
  match policy with
  | some policy => policy.check text sys
  | none => return ()

/-- The fault of the text of a coordinate system, if it has one. -/
def sysFault? (policy : Option Policy) (text : String) (span : Option Span) : Option Diagnostic :=
  match allowed policy text with
  | .ok () => none
  | .error e => some (e.orAt span)

/-- The faults of the coordinate systems of a tree; without policy all are allowed. -/
def coordSystems (tree : Fragment) (policy : Option Policy) : Report :=
  (tree.operands.filterMap Operand.literalSys?).filterMap fun use => sysFault? policy use.1 use.2

end Check

end SkyQuery
