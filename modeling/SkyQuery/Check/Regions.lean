import SkyQuery.Check.Features
import SkyQuery.CoordSys.Policy
import SkyQuery.Region.OfOperand

/-!
# Regions of a query

The argument of `REGION` must be a string literal that holds a region; its shapes must be supported
and its coordinate systems allowed, down to the members of combinations.
-/

namespace SkyQuery

/-- Whether an operand is a call of `REGION`. -/
def Operand.isRegionCall : Operand → Bool
  | .geometry .region _ _ _ => true
  | _ => false

namespace Check

/-- The fault of a shape that is not supported. -/
def shapeFault? (supported : FeatureSet) (span : Option Span) (r : Region) : Option Diagnostic :=
  match r.kind.feature? with
  | none => none
  | some f =>
    if supported.supports f then none
    else
      some
        { code := .unsupportedShape
          message := "Unsupported STC-S region type: \"" ++ r.kind.word ++ "\"!"
          span
          hint := some (unsupported f span).message }

/-- The fault of a coordinate system that is not allowed. -/
def regionSysFault? (policy : Option Policy) (span : Option Span) (r : Region) :
    Option Diagnostic :=
  match policy, r.sys? with
  | some policy, some sys =>
    match policy.check sys.render sys with
    | .ok () => none
    | .error e => some (e.orAt span)
  | _, _ => none

/-- The faults of a region and its members, in the place of the call that holds it. -/
def region (supported : FeatureSet) (policy : Option Policy) (span : Option Span) (r : Region) :
    Report :=
  r.walk.flatMap fun part =>
    (shapeFault? supported span part).toList ++ (regionSysFault? policy span part).toList

/-- The faults of a call of `REGION`. -/
def regionCall (supported : FeatureSet) (policy : Option Policy) (call : Operand) : Report :=
  match Region.ofOperand call with
  | .ok r => region supported policy call.span r
  | .error e => [e.orAt call.span]

/-- The faults of the regions of a tree. -/
def regions (tree : Fragment) (supported : FeatureSet) (policy : Option Policy) : Report :=
  (tree.operands.filter Operand.isRegionCall).flatMap (regionCall supported policy)

end Check

end SkyQuery
