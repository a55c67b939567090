import SkyQuery.Text.Letters

/-!
# Words of coordinate systems

The reference frames, reference positions and flavors that coordinate systems are made of. Each is
written as one word, in any letter case, and each has a value for when it is left out.
-/

namespace SkyQuery

/-- A finite vocabulary, with the value that stands where none is written. -/
class Vocabulary (α : Type) where
  all : List α
  name : α → String
  unstated : α

namespace Vocabulary

variable {α : Type} [Vocabulary α]

/-- The value that a word names. -/
def parse? (word : String) : Option α := (all (α := α)).find? fun a => Text.sameLetters (name a) word

/-- All names, as messages list them. -/
def alternatives (α : Type) [Vocabulary α] : String :=
  "(" ++ String.intercalate "|" ((all (α := α)).map name) ++ ")"

end Vocabulary

/-- Reference frames. -/
inductive Frame where
  | ecliptic | fk4 | fk5 | j2000 | galactic | icrs | unknown
  deriving DecidableEq, Repr

/-- Reference positions. -/
inductive RefPos where
  | barycenter | geocenter | heliocenter | lsr | topocenter | relocatable | unknown
  deriving DecidableEq, Repr

/-- Flavors of coordinates. -/
inductive Flavor where
  | cartesian2 | cartesian3 | spherical2
  deriving DecidableEq, Repr

instance : Vocabulary Frame where
  all := [.ecliptic, .fk4, .fk5, .j2000, .galactic, .icrs, .unknown]
  name
    | .ecliptic => "ECLIPTIC"
    | .fk4 => "FK4"
    | .fk5 => "FK5"
    | .j2000 => "J2000"
    | .galactic => "GALACTIC"
    | .icrs => "ICRS"
    | .unknown => "UNKNOWNFRAME"
  unstated := .unknown

instance : Vocabulary RefPos where
  all := [.barycenter, .geocenter, .heliocenter, .lsr, .topocenter, .relocatable, .unknown]
  name
    | .barycenter => "BARYCENTER"
    | .geocenter => "GEOCENTER"
    | .heliocenter => "HELIOCENTER"
    | .lsr => "LSR"
    | .topocenter => "TOPOCENTER"
    | .relocatable => "RELOCATABLE"
    | .unknown => "UNKNOWNREFPOS"
  unstated := .unknown

instance : Vocabulary Flavor where
  all := [.cartesian2, .cartesian3, .spherical2]
  name
    | .cartesian2 => "CARTESIAN2"
    | .cartesian3 => "CARTESIAN3"
    | .spherical2 => "SPHERICAL2"
  unstated := .spherical2

def Flavor.isCartesian : Flavor → Bool
  | .cartesian2 | .cartesian3 => true
  | .spherical2 => false

end SkyQuery
