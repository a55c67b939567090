import SkyQuery.Text.Blank
import SkyQuery.Text.Letters

/-!
# Categories of optional features

Services declare the optional constructs that they support by category; each category has an
identifier in the registry.
-/

namespace SkyQuery

/-- Categories of optional constructs. -/
inductive Category where
  | strings | sets | commonTables | conditionals | offset | geometry | types | units | functions
  deriving DecidableEq, Repr

namespace Category

def all : List Category :=
  [.strings, .sets, .commonTables, .conditionals, .offset, .geometry, .types, .units, .functions]

theorem mem_all (c : Category) : c ∈ all := by cases c <;> decide

/-- What precedes the fragment of an identifier. -/
def registry : String := "ivo://ivoa.net/std/TAPRegExt#"

/-- The fragment of an identifier that tells the category. -/
def fragment : Category → String
  | .strings => "features-adql-string"
  | .sets => "features-adql-sets"
  | .commonTables => "features-adql-common-table"
  | .conditionals => "features-adql-conditional"
  | .offset => "features-adql-offset"
  | .geometry => "features-adql-geo"
  | .types => "features-adql-type"
  | .units => "features-adql-unit"
  | .functions => "features-udf"

/-- The whole identifier of a category. -/
def ivoid (c : Category) : String := registry ++ c.fragment

/-- Reads an identifier or its fragment, in any letter case. -/
def parse? (text : String) : Option Category :=
  let plain := (Text.trim text).toList
  let n := registry.toList.length
  let start := String.ofList (plain.take n)
  let last := String.ofList (if Text.sameLetters start registry then plain.drop n else plain)
  all.find? fun c => Text.sameLetters c.fragment last

/-- The complaint about a text that names no category. -/
def unknown (text : String) : String := "Unknown language feature type: \"" ++ text ++ "\"!"

end Category

end SkyQuery
