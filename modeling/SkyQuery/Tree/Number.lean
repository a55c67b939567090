import SkyQuery.Decimal.Reader
import SkyQuery.Tree.Basic

/-!
# Numbers of a tree

The value of a numeric literal, with any number of minus signs before it.
-/

namespace SkyQuery

/-- The value of a numeric literal, perhaps negated. -/
def Operand.asNumber? : Operand → Option Float
  | .numeric text _ => Decimal.readReal text
  | .negative inner _ => inner.asNumber?.map Float.neg
  | _ => none

end SkyQuery
