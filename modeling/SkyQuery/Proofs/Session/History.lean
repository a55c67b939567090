import SkyQuery.Session

/-!
# The history of a session

A session keeps its policy beside the patterns that it was read from. Whatever is done to a session,
and whether that succeeds or not, the policy stays the one of its patterns, so that the session reads
every text as a new one with its configuration would (`read_run`).
-/

namespace SkyQuery.Session

/-- The calls that change a session. -/
inductive Change where
  | version (version : Version)
  | features (features : FeatureSet)
  /-- Edits the features where they are. -/
  | editFeatures (edit : FeatureSet → FeatureSet)
  | allowedSystems (patterns : Option (List String))
  | anyFunction (allowed : Bool)
  | extendedRegions (allowed : Bool)
  | checker (own : Option (Query → Report))

/-- Works on the session in place: what was assigned before a failure stays assigned. -/
def Change.perform : Change → ExceptT Diagnostic (StateM Session) Unit
  | version v => modify fun s => s.setVersion v
  | features fs => modify fun s => s.setFeatures fs
  | editFeatures edit => modify fun s => s.setFeatures (edit s.config.features)
  | allowedSystems patterns => do
    let policy ← MonadExcept.ofExcept (readPolicy patterns)
    modify fun s => { s with policy }
    modify fun s => { s with config := { s.config with allowedSystems := patterns } }
  | anyFunction allowed => modify fun s => s.setAnyFunction allowed
  | extendedRegions allowed => modify fun s => s.setExtendedRegions allowed
  | checker own => modify fun s => s.setChecker own

/-- What a change answers, and the session after it. -/
def change (s : Session) (c : Change) : Except Diagnostic Unit × Session := c.perform.run s

/-- The session after a list of changes; one that fails does not keep the others from being made. -/
def run (s : Session) (changes : List Change) : Session := changes.foldl (fun s c => (s.change c).2) s

/-- Whether the policy is the one of the patterns. -/
def Current (s : Session) : Prop := readPolicy s.config.allowedSystems = .ok s.policy

variable {s t : Session}

/-! ### One change -/

/-- Done in place or not, a replacement of the patterns has one effect. -/
theorem change_allowedSystems (patterns : Option (List String)) :
    s.change (.allowedSystems patterns) =
      match s.setAllowedSystems patterns with
      | .ok t => (.ok (), t)
      | .error e => (.error e, s) := by
  unfold setAllowedSystems
  cases read : readPolicy patterns <;>
    simp [change, Change.perform, read, MonadExcept.ofExcept] <;> rfl

theorem setAllowedSystems_ok_iff {patterns : Option (List String)} :
    s.setAllowedSystems patterns = .ok t ↔
      ∃ policy, readPolicy patterns = .ok policy ∧
        t = { s with policy, config := { s.config with allowedSystems := patterns } } := by
  unfold setAllowedSystems
  cases readPolicy patterns <;> simp [Bind.bind, Except.bind, Pure.pure, Except.pure, eq_comm]

/-- A change that fails changes nothing. -/
theorem change_error {c : Change} {e : Diagnostic} (failed : (s.change c).1 = .error e) :
    (s.change c).2 = s := by
  cases c with
  | allowedSystems patterns =>
    rw [change_allowedSystems] at failed ⊢
    cases set : s.setAllowedSystems patterns with
    | ok t => simp [set] at failed
    | error e => rfl
  | version | features | editFeatures | anyFunction | extendedRegions | checker => cases failed

theorem Current.change (h : s.Current) (c : Change) : (s.change c).2.Current := by
  cases c with
  | allowedSystems patterns =>
    rw [change_allowedSystems]
    cases set : s.setAllowedSystems patterns with
    | error e => exact h
    | ok t =>
      obtain ⟨policy, read, rfl⟩ := setAllowedSystems_ok_iff.1 set
      exact read
  -- The other changes touch neither the patterns nor the policy.
  | version | features | editFeatures | anyFunction | extendedRegions | checker => exact h

/-- Only its own change sets the check of a session. -/
theorem change_checker {c : Change} (other : ∀ own, c ≠ .checker own) : (s.change c).2.checker = s.checker := by
  cases c with
  | allowedSystems patterns =>
    rw [change_allowedSystems]
    cases set : s.setAllowedSystems patterns with
    | error e => rfl
    | ok t =>
      obtain ⟨policy, -, rfl⟩ := setAllowedSystems_ok_iff.1 set
      rfl
  | checker own => exact absurd rfl (other own)
  | version | features | editFeatures | anyFunction | extendedRegions => rfl

/-! ### Any number of changes -/

theorem Current.run (h : s.Current) (changes : List Change) : (s.run changes).Current := by
  induction changes generalizing s with
  | nil => exact h
  | cons c rest ih => exact ih (h.change c)

/-- A session with the policy of its patterns is what its configuration and its checker make it. -/
theorem Current.new_config (h : s.Current) :
    new s.config = .ok (s.setChecker none) ∧ (s.setChecker none).setChecker s.checker = s :=
  ⟨new_ok_iff.2 ⟨h, rfl, rfl⟩, rfl⟩

theorem new_current {config : Config} (built : new config = .ok s) : s.Current := by
  obtain ⟨read, rfl, -⟩ := new_ok_iff.1 built
  exact read

/-- After any changes the policy is the one of the patterns, a replacement of the patterns that fails
does nothing, and a new session with the same configuration and checker reads and checks alike. -/
theorem read_run {config : Config} (built : new config = .ok s) (changes : List Change) :
    let t := s.run changes
    readPolicy t.config.allowedSystems = .ok t.policy ∧
      (∀ patterns e, readPolicy patterns = .error e → t.change (.allowedSystems patterns) = (.error e, t)) ∧
      ∃ fresh, new t.config = .ok fresh ∧
        (∀ entry text, (fresh.setChecker t.checker).read entry text = t.read entry text) ∧
        ∀ tree, (fresh.setChecker t.checker).check tree = t.check tree := by
  intro t
  have current : t.Current := (new_current built).run changes
  obtain ⟨again, same⟩ := current.new_config
  refine ⟨current, fun patterns e unreadable => ?_, _, again, fun entry text => by rw [same], fun tree => by rw [same]⟩
  have failed : (t.change (.allowedSystems patterns)).1 = .error e := by
    rw [change_allowedSystems, setAllowedSystems, unreadable]
    rfl
  exact Prod.ext failed (change_error failed)

/-- The second replacement of the patterns fails. -/
theorem read_run_patterns :
    let changes : List Change :=
      [.allowedSystems (some ["ICRS * *"]), .version .v21, .allowedSystems (some ["ICRS"]), .anyFunction true]
    ∃ s fresh, new {} = .ok s ∧ (s.run changes).config.allowedSystems = some ["ICRS * *"] ∧
      new (s.run changes).config = .ok fresh ∧
      ∀ entry text, (fresh.setChecker none).read entry text = (s.run changes).read entry text := by
  intro changes
  have built : new {} = .ok { config := {}, policy := none } := rfl
  obtain ⟨-, -, fresh, again, reads, -⟩ := read_run built changes
  have unchecked : (Session.run { config := {}, policy := none } changes).checker = none := by
    simp [changes, Session.run, change_checker]
  exact ⟨_, fresh, built, by decide +kernel, again, fun entry text => by rw [← reads entry text, unchecked]⟩

end SkyQuery.Session
