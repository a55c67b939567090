import SkyQuery.Feature.Catalogue

/-!
# Sets of features

A `FeatureSet` holds the features that a service supports, grouped by category in the order in which
the categories were first used; in a group the features stand in the order in which they were added.
One flag stands for all functions at once.
-/

namespace SkyQuery

structure FeatureSet where
  groups : List (Category × List Feature) := []
  /-- Whether any function is supported, declared or not. -/
  anyFunction : Bool := false
  deriving DecidableEq, Repr

namespace FeatureSet

def empty : FeatureSet := {}

/-- The features of a category, if the category has a group. -/
def group? (s : FeatureSet) (c : Category) : Option (List Feature) :=
  (s.groups.find? fun g => g.1 == c).map (·.2)

def ofCategory (s : FeatureSet) (c : Category) : List Feature := (s.group? c).getD []

/-- The set with another group for a category. -/
def withGroup (s : FeatureSet) (c : Category) (features : List Feature) : FeatureSet :=
  if s.groups.any fun g => g.1 == c then
    { s with groups := s.groups.map fun g => if g.1 == c then (c, features) else g }
  else { s with groups := s.groups ++ [(c, features)] }

/-- Whether a list has a feature that is the same as `f`. -/
def holds (features : List Feature) (f : Feature) : Bool := features.any fun g => g.same f

/-- The category under which a feature is kept; only optional features are. -/
def keptUnder (f : Feature) : Option Category := if f.isOptional then f.category else none

def supports (s : FeatureSet) (f : Feature) : Bool :=
  match f.category with
  | none => false
  | some c => (c == .functions && s.anyFunction) || holds (s.ofCategory c) f

/-- Adds a feature, and tells whether it was new. -/
def add (s : FeatureSet) (f : Feature) : FeatureSet × Bool :=
  match keptUnder f with
  | none => (s, false)
  | some c =>
    let features := s.ofCategory c
    if holds features f then (s, false) else (s.withGroup c (features ++ [f]), true)

/-- Removes a feature, and tells whether it was there. -/
def remove (s : FeatureSet) (f : Feature) : FeatureSet × Bool :=
  match keptUnder f with
  | none => (s, false)
  | some c =>
    let features := s.ofCategory c
    if holds features f then
      (s.withGroup c (features.filter fun g => !g.same f), true)
    else (s, false)

def addAll (s : FeatureSet) (features : List Feature) : FeatureSet :=
  features.foldl (fun s f => (s.add f).1) s

def allowAnyFunction (s : FeatureSet) (allowed : Bool) : FeatureSet :=
  { s with anyFunction := allowed }

/-- Adds the whole catalogue and allows any function. -/
def addCatalogue (s : FeatureSet) : FeatureSet :=
  (s.addAll Catalogue.features).allowAnyFunction true

/-- Adds the features of a category; for functions, allows any of them. -/
def addCategory (s : FeatureSet) (c : Category) : FeatureSet :=
  if c == .functions then s.allowAnyFunction true else s.addAll (Catalogue.ofCategory c)

/-- Removes the features of a category. For functions, no longer allows any of them, but keeps those
that were added. -/
def removeCategory (s : FeatureSet) (c : Category) : FeatureSet :=
  if c == .functions then s.allowAnyFunction false
  else if (s.group? c).isSome then s.withGroup c []
  else s

def full : FeatureSet := empty.addCatalogue

/-- The whole catalogue, but no function. -/
def default : FeatureSet := full.allowAnyFunction false

/-- The features that were added and not removed since. -/
def supported (s : FeatureSet) : List Feature := s.groups.flatMap (·.2)

/-- The features of the catalogue that are not supported. -/
def unsupported (s : FeatureSet) : List Feature :=
  Catalogue.features.filter fun f => !s.supports f

/-- Whether two lists without repetition hold the same features, in any order. -/
def sameFeatures (a b : List Feature) : Bool := a.length == b.length && a.all (holds b)

/-- Whether two sets have the same groups in any order, and the same flag. A group without features
counts. -/
def same (a b : FeatureSet) : Bool :=
  a.anyFunction == b.anyFunction && a.groups.length == b.groups.length &&
    a.groups.all fun g =>
      match b.group? g.1 with
      | some features => sameFeatures g.2 features
      | none => false

end FeatureSet

end SkyQuery
