import SkyQuery.Text.Blank
import SkyQuery.Text.Letters

/-!
# Versions of the language

The two versions of ADQL whose grammar is known, the older one being the default.
-/

namespace SkyQuery

inductive Version where
  | v20
  | v21
  deriving DecidableEq, Repr, Inhabited

namespace Version

def name : Version → String
  | .v20 => "v2.0"
  | .v21 => "v2.1"

/-- Reads `2.0`, `v2.0`, `2_0`, `V2_1` and the like. -/
def parse? (text : String) : Option Version :=
  let plain := (Text.lower (Text.trim text)).toList.map fun c => if c = '_' then '.' else c
  match plain.dropWhile (· == 'v') with
  | ['2', '.', '0'] => some .v20
  | ['2', '.', '1'] => some .v21
  | _ => none

/-- The complaint about a text that names no version. -/
def unknown (text : String) : String := "Unknown ADQL version: \"" ++ text ++ "\"!"

end Version

end SkyQuery
