import SkyQuery.Feature.Category
import SkyQuery.Feature.FunctionDef

/-!
# Optional features

A feature is a construct that a service may or may not support: one of the language, known by its
category and form, or a function of the users, known by its name and number of parameters.
-/

namespace SkyQuery

/-- A construct that a service may or may not support. -/
inductive Feature where
  | construct (category : Option Category) (form : String) (optional : Bool)
    (description : Option String)
  | function (definition : FunctionDef)
  deriving DecidableEq, Repr

namespace Feature

def standard (category : Category) (form : String) : Feature :=
  .construct (some category) form true none

/-- The feature that a call of a user's function needs. -/
def ofCall (name : String) (n : Nat) : Feature := .function (FunctionDef.ofCall name n)

def category : Feature → Option Category
  | .construct category .. => category
  | .function _ => some .functions

def form : Feature → String
  | .construct _ form .. => form
  | .function definition => definition.render

def isOptional : Feature → Bool
  | .construct _ _ optional _ => optional
  | .function _ => true

def description : Feature → Option String
  | .construct _ _ _ description => description
  | .function definition => definition.description

def definition? : Feature → Option FunctionDef
  | .construct .. => none
  | .function definition => some definition

/-- Whether the feature is of the category of functions. -/
def isFunction (f : Feature) : Bool := f.category == some .functions

/-- The identifier of the category and the form. -/
def id (f : Feature) : String :=
  match f.category with
  | some category => category.ivoid ++ "!" ++ f.form
  | none => f.form

/-- Whether two features are one: functions by name and number of parameters, others by their
identifier. -/
def same : Feature → Feature → Bool
  | .function d, .function e =>
    Text.sameLetters d.name e.name && d.params.length == e.params.length
  | .function _, .construct .. | .construct .., .function _ => false
  | a, b => a.id == b.id

end Feature

end SkyQuery
