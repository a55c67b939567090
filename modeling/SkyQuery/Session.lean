import SkyQuery.Check.CoordSystems
import SkyQuery.Check.Regions

/-!
# Sessions

A `Session` reads queries for one service: it knows the version of the language, the features and
coordinate systems that the service supports, and perhaps a check of its own for whole queries. The
faults that its passes find are reported together, in the order of the text.
-/

namespace SkyQuery

structure Config where
  version : Version := .v20
  features : FeatureSet := .default
  /-- Patterns of the coordinate systems that are allowed; without them all are. -/
  allowedSystems : Option (List String) := none
  /-- Whether functions need not be declared. -/
  anyFunction : Bool := false
  /-- Whether `REGION` takes any string expression, which is then not checked. -/
  extendedRegions : Bool := false
  deriving DecidableEq, Repr

/-- A configuration with its policy read, and a check that runs on queries without other faults. -/
structure Session where
  config : Config
  policy : Option Policy
  checker : Option (Query → Report) := none

namespace Session

/-- Reads the patterns of a configuration, if it has any. -/
def readPolicy : Option (List String) → Except Diagnostic (Option Policy)
  | some patterns => (Policy.parse patterns).map some
  | none => .ok none

def new (config : Config) : Except Diagnostic Session := do
  let policy ← readPolicy config.allowedSystems
  return { config, policy }

theorem new_ok_iff {config : Config} {s : Session} :
    new config = .ok s ↔
      readPolicy config.allowedSystems = .ok s.policy ∧ s.config = config ∧ s.checker = none := by
  obtain ⟨config', policy, checker⟩ := s
  unfold new
  cases readPolicy config.allowedSystems with
  | error e => simp [Bind.bind, Except.bind]
  | ok read =>
    simp only [Bind.bind, Except.bind, Pure.pure, Except.pure, Except.ok.injEq, mk.injEq]
    exact ⟨fun ⟨c, p, k⟩ => ⟨p, c.symm, k.symm⟩, fun ⟨p, c, k⟩ => ⟨c.symm, p, k.symm⟩⟩

def setVersion (s : Session) (version : Version) : Session :=
  { s with config := { s.config with version } }

def setFeatures (s : Session) (features : FeatureSet) : Session :=
  { s with config := { s.config with features } }

/-- Replaces the allowed coordinate systems; a pattern that cannot be read changes nothing. -/
def setAllowedSystems (s : Session) (patterns : Option (List String)) :
    Except Diagnostic Session := do
  let policy ← readPolicy patterns
  return { s with policy, config := { s.config with allowedSystems := patterns } }

def setAnyFunction (s : Session) (anyFunction : Bool) : Session :=
  { s with config := { s.config with anyFunction } }

def setExtendedRegions (s : Session) (extendedRegions : Bool) : Session :=
  { s with config := { s.config with extendedRegions } }

def setChecker (s : Session) (checker : Option (Query → Report)) : Session := { s with checker }

def checksRegions (s : Session) : Bool :=
  !s.config.extendedRegions && s.config.features.supports (.standard .geometry "REGION")

/-- The faults of a tree, in the order of the text. -/
def faults (s : Session) (tree : Fragment) : Report :=
  Diagnostic.sort <|
    Check.features tree s.config.features s.config.anyFunction ++
      Check.coordSystems tree s.policy ++
      if s.checksRegions then Check.regions tree s.config.features s.policy else []

def check (s : Session) (tree : Fragment) : Except Report Unit := (s.faults tree).toExcept

/-- What the session's own check says about a tree, which it only looks at if it is a query. -/
def ownFaults (s : Session) (tree : Fragment) : Report :=
  match s.checker, tree with
  | some checker, .query q => checker q
  | _, _ => []

/-- Reads a text and refuses it if it has faults. -/
def read (s : Session) (entry : Entry) (text : String) : Except Refusal Fragment := do
  let tree ← (entry.read s.config.version text).mapError .unreadable
  (s.check tree).mapError .invalid
  (s.ownFaults tree).toExcept.mapError .invalid
  return tree

end Session

end SkyQuery
