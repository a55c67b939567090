import SkyQuery.Proofs.Check.Rules

/-!
# Permissive sessions

A session that supports more features and allows more coordinate systems accepts at least the same
texts and reads the same trees from them (`read_of_permits`). Support of `REGION` alone makes a
session check more: it is then that the arguments of `REGION` are looked at.
-/

namespace SkyQuery

/-- Whether `t` permits all that `s` permits. -/
structure Session.Permits (s t : Session) : Prop where
  version : s.config.version = t.config.version
  features : ∀ f, s.config.features.supports f = true → t.config.features.supports f = true
  anyFunction : s.config.anyFunction = true → t.config.anyFunction = true
  extendedRegions : s.config.extendedRegions = true → t.config.extendedRegions = true
  /-- Without policy every coordinate system is allowed. -/
  systems : ∀ sys, (s.policy.all fun p => p.allows sys) = true → (t.policy.all fun p => p.allows sys) = true

namespace Check

variable {tree : Fragment} {supported : FeatureSet} {policy : Option Policy}

/-! ### When a pass finds no fault -/

theorem features_eq_nil_iff {anyFunction : Bool} :
    features tree supported anyFunction = [] ↔
      ∀ use ∈ tree.uses, admits supported anyFunction use.1 = true := by
  simp [features]

theorem policy_check_ok_iff {p : Policy} {sys : CoordSys} (written : String) :
    p.check written sys = .ok () ↔ p.allows sys = true := by
  unfold Policy.check
  split <;> simp_all

theorem allowed_ok_iff {text : String} :
    allowed policy text = .ok () ↔
      ∃ sys, CoordSys.parse text = .ok sys ∧ (policy.all fun p => p.allows sys) = true := by
  unfold allowed
  cases CoordSys.parse text with
  | error e => simp [Bind.bind, Except.bind]
  | ok sys =>
    cases policy with
    | none => simp [Bind.bind, Except.bind, Pure.pure, Except.pure]
    | some p => simp [Bind.bind, Except.bind, policy_check_ok_iff]

theorem sysFault_eq_none_iff {text : String} {span : Option Span} :
    sysFault? policy text span = none ↔ allowed policy text = .ok () := by
  unfold sysFault?
  split <;> simp_all

theorem coordSystems_eq_nil_iff :
    coordSystems tree policy = [] ↔
      ∀ use ∈ tree.operands.filterMap Operand.literalSys?, allowed policy use.1 = .ok () := by
  simp only [coordSystems, List.filterMap_eq_nil_iff, sysFault_eq_none_iff]

theorem shapeFault_eq_none_iff {span : Option Span} {r : Region} :
    shapeFault? supported span r = none ↔ r.kind.feature?.all supported.supports = true := by
  unfold shapeFault?
  split <;> simp_all

theorem regionSysFault_eq_none_iff {span : Option Span} {r : Region} :
    regionSysFault? policy span r = none ↔
      (r.sys?.all fun sys => policy.all fun p => p.allows sys) = true := by
  unfold regionSysFault?
  cases policy with
  | none => cases r.sys? <;> simp
  | some p =>
    cases r.sys? with
    | none => simp
    | some sys =>
      simp only [Option.all_some, ← policy_check_ok_iff sys.render]
      split <;> simp_all

theorem region_eq_nil_iff {span : Option Span} {r : Region} :
    region supported policy span r = [] ↔
      ∀ part ∈ r.walk, part.kind.feature?.all supported.supports = true ∧
        (part.sys?.all fun sys => policy.all fun p => p.allows sys) = true := by
  simp only [region, List.flatMap_eq_nil_iff, List.append_eq_nil_iff, Option.toList_eq_nil_iff,
    shapeFault_eq_none_iff, regionSysFault_eq_none_iff]

theorem regionCall_eq_nil_iff {call : Operand} :
    regionCall supported policy call = [] ↔
      ∃ r, Region.ofOperand call = .ok r ∧ region supported policy call.span r = [] := by
  unfold regionCall
  split <;> simp_all

end Check

/-! ### One pass in two sessions -/

namespace Session

variable {s t : Session} {tree : Fragment}

theorem Permits.admits (h : s.Permits t) {f : Feature}
    (admitted : Check.admits s.config.features s.config.anyFunction f = true) :
    Check.admits t.config.features t.config.anyFunction f = true := by
  simp only [Check.admits, Bool.or_eq_true, Bool.and_eq_true] at admitted ⊢
  exact admitted.imp (fun ⟨any, function⟩ => ⟨h.anyFunction any, function⟩) (h.features f)

theorem Permits.allowed (h : s.Permits t) {text : String}
    (allowed : Check.allowed s.policy text = .ok ()) : Check.allowed t.policy text = .ok () := by
  obtain ⟨sys, read, allows⟩ := Check.allowed_ok_iff.1 allowed
  exact Check.allowed_ok_iff.2 ⟨sys, read, h.systems sys allows⟩

theorem Permits.region (h : s.Permits t) {span : Option Span} {r : Region}
    (none : Check.region s.config.features s.policy span r = []) :
    Check.region t.config.features t.policy span r = [] := by
  rw [Check.region_eq_nil_iff] at none ⊢
  intro part member
  obtain ⟨shape, system⟩ := none part member
  constructor
  · rw [Option.all_eq_true_iff_get] at shape ⊢
    exact fun given => h.features _ (shape given)
  · rw [Option.all_eq_true_iff_get] at system ⊢
    exact fun given => h.systems _ (system given)

theorem Permits.regionCall (h : s.Permits t) {call : Operand}
    (none : Check.regionCall s.config.features s.policy call = []) :
    Check.regionCall t.config.features t.policy call = [] := by
  obtain ⟨r, read, none⟩ := Check.regionCall_eq_nil_iff.1 none
  exact Check.regionCall_eq_nil_iff.2 ⟨r, read, h.region none⟩

/-- Each call in a tree is one use of a feature. -/
theorem use_of_operand {o : Operand} {f : Feature} (member : o ∈ tree.operands) (needs : o.feature? = some f) :
    (f, o.span) ∈ tree.uses := by
  obtain ⟨node, visited, member⟩ := List.mem_flatMap.1 member
  refine List.mem_flatMap.2 ⟨node, visited, ?_⟩
  cases node with
  | operand outer => exact List.mem_flatMap.2 ⟨o, member, by simp [useOf, needs]⟩
  | _ => cases member

theorem faults_eq_nil_iff :
    s.faults tree = [] ↔
      Check.features tree s.config.features s.config.anyFunction = [] ∧
        Check.coordSystems tree s.policy = [] ∧
        (s.checksRegions = true → Check.regions tree s.config.features s.policy = []) := by
  rw [faults, Diagnostic.sort, ← List.length_eq_zero_iff, List.length_mergeSort, List.length_eq_zero_iff]
  cases s.checksRegions <;> simp

/-- A session that does not check regions either takes any argument of `REGION` or accepts none of
its calls. -/
theorem no_regionCall (unsupported : s.config.features.supports (.standard .geometry "REGION") = false)
    (admitted : ∀ use ∈ tree.uses, Check.admits s.config.features s.config.anyFunction use.1 = true) :
    tree.operands.filter Operand.isRegionCall = [] := by
  rw [List.filter_eq_nil_iff]
  intro call member isCall
  have needs : call.feature? = some (.standard .geometry "REGION") := by
    unfold Operand.isRegionCall at isCall
    split at isCall
    · rfl
    · cases isCall
  have used := admitted _ (use_of_operand member needs)
  rw [Check.admits, unsupported] at used
  simp [Feature.isFunction, Feature.standard, Feature.category] at used

theorem Permits.regions (h : s.Permits t) (checks : t.checksRegions = true)
    (admitted : ∀ use ∈ tree.uses, Check.admits s.config.features s.config.anyFunction use.1 = true)
    (none : s.checksRegions = true → Check.regions tree s.config.features s.policy = []) :
    Check.regions tree t.config.features t.policy = [] := by
  simp only [checksRegions, Bool.and_eq_true, Bool.not_eq_true'] at checks none
  have literalOnly : s.config.extendedRegions = false := by
    rw [← Bool.not_eq_true]
    exact fun extended => by simp [h.extendedRegions extended] at checks
  unfold Check.regions at none ⊢
  cases supports : s.config.features.supports (.standard .geometry "REGION") with
  | false => rw [no_regionCall supports admitted, List.flatMap_nil]
  | true =>
    have none := none ⟨literalOnly, supports⟩
    rw [List.flatMap_eq_nil_iff] at none ⊢
    exact fun call member => h.regionCall (none call member)

theorem Permits.faults (h : s.Permits t) (none : s.faults tree = []) : t.faults tree = [] := by
  obtain ⟨features, systems, regions⟩ := faults_eq_nil_iff.1 none
  have admitted := Check.features_eq_nil_iff.1 features
  refine faults_eq_nil_iff.2 ⟨?_, ?_, fun checks => h.regions checks admitted regions⟩
  · exact Check.features_eq_nil_iff.2 fun use member => h.admits (admitted use member)
  · have allowed := Check.coordSystems_eq_nil_iff.1 systems
    exact Check.coordSystems_eq_nil_iff.2 fun use member => h.allowed (allowed use member)

/-! ### Reading -/

/-- Without a check of its own a session accepts what it can read and finds no fault in. -/
theorem read_ok_iff (plain : s.checker = none) {entry : Entry} {text : String} :
    s.read entry text = .ok tree ↔
      entry.read s.config.version text = .ok tree ∧ s.faults tree = [] := by
  have unchecked (found : Fragment) : s.ownFaults found = [] := by
    unfold ownFaults
    rw [plain]
  rw [← complaints_eq, ← check_ok_iff]
  unfold read
  cases entry.read s.config.version text with
  | error e => simp [Except.mapError, Bind.bind, Except.bind]
  | ok found =>
    simp only [unchecked, Except.mapError, Bind.bind, Except.bind, Except.ok.injEq, Report.toExcept,
      List.isEmpty_nil, if_true, Pure.pure, Except.pure]
    cases checked : s.check found with
    | ok u =>
      simp only [Except.ok.injEq]
      exact ⟨fun same => ⟨same, same ▸ checked⟩, And.left⟩
    | error report =>
      simp only [reduceCtorEq, false_iff, not_and]
      rintro rfl accepted
      rw [accepted] at checked
      cases checked

/-- What a configuration accepts every more permissive one accepts, with the same tree. -/
theorem read_of_permits {c d : Config} (hs : new c = .ok s) (ht : new d = .ok t) (h : s.Permits t)
    {entry : Entry} {text : String} (accepted : s.read entry text = .ok tree) :
    t.read entry text = .ok tree := by
  obtain ⟨-, -, plain⟩ := new_ok_iff.1 hs
  obtain ⟨-, -, plain'⟩ := new_ok_iff.1 ht
  obtain ⟨read, none⟩ := (read_ok_iff plain).1 accepted
  rw [h.version] at read
  exact (read_ok_iff plain').2 ⟨read, h.faults none⟩

/-- The second session checks regions and the first one does not. -/
theorem read_of_permits_region :
    let c : Config :=
      { features := { groups := [(.geometry, [.standard .geometry "POINT"])] }, allowedSystems := some ["ICRS * *"] }
    let d : Config :=
      { features := { groups := [(.geometry, [.standard .geometry "POINT", .standard .geometry "REGION"])] } }
    ∃ s t tree, new c = .ok s ∧ new d = .ok t ∧
      s.read .query "SELECT POINT('ICRS', 1, 2) FROM t" = .ok tree ∧
      t.read .query "SELECT POINT('ICRS', 1, 2) FROM t" = .ok tree := by
  intro c d
  have built : ((new c).toOption.bind fun s =>
      (s.read .query "SELECT POINT('ICRS', 1, 2) FROM t").toOption).isSome = true := by decide +kernel
  obtain ⟨tree, built⟩ := Option.isSome_iff_exists.1 built
  obtain ⟨s, hs, accepted⟩ := Option.bind_eq_some_iff.1 built
  rw [toOption_eq_some_iff] at hs accepted
  have ht : new d = .ok { config := d, policy := none } := rfl
  have config : s.config = c := (new_ok_iff.1 hs).2.1
  have permits : s.Permits { config := d, policy := none } := by
    refine ⟨by rw [config], ?_, by simp [config, c], by simp [config, c], by simp⟩
    intro f supported
    rw [config] at supported
    unfold FeatureSet.supports at supported ⊢
    cases category : f.category with
    | none => simp [category] at supported
    | some group =>
      cases group <;>
        simp_all [c, d, FeatureSet.ofCategory, FeatureSet.group?, FeatureSet.holds]
  exact ⟨s, _, tree, hs, ht, accepted, read_of_permits hs ht permits accepted⟩

end Session

end SkyQuery
