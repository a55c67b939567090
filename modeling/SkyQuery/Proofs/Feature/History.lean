import SkyQuery.Proofs.Feature.Kept

/-!
# The history of a set of features

Whatever calls made a set from the empty one, it supports a feature if the last call that concerned
the class of the feature added it, and any function if the last call that moved the flag set it
(`FeatureSet.supports_run`).
-/

namespace SkyQuery.FeatureSet

/-- The calls that change a set. -/
inductive Change where
  | add (f : Feature)
  | remove (f : Feature)
  | addCatalogue
  | removeAll
  | addCategory (c : Category)
  | removeCategory (c : Category)
  | allowAnyFunction (allowed : Bool)

def change (s : FeatureSet) : Change → FeatureSet
  | .add f => (s.add f).1
  | .remove f => (s.remove f).1
  | .addCatalogue => s.addCatalogue
  | .removeAll => empty
  | .addCategory c => s.addCategory c
  | .removeCategory c => s.removeCategory c
  | .allowAnyFunction allowed => s.allowAnyFunction allowed

def run (s : FeatureSet) (changes : List Change) : FeatureSet := changes.foldl change s

/-- Whether an addition or a removal of `g` concerns the class of `f`. -/
def concerns (g f : Feature) : Prop := (keptUnder g).isSome = true ∧ g.classOf = f.classOf

instance (g f : Feature) : Decidable (concerns g f) := inferInstanceAs (Decidable (_ ∧ _))

namespace Change

/-- Whether a call puts the class of `f` in or out, if it concerns it. -/
def puts (f : Feature) : Change → Option Bool
  | add g => if concerns g f then some true else none
  | remove g => if concerns g f then some false else none
  | addCatalogue => if ∃ g ∈ Catalogue.features, g.classOf = f.classOf then some true else none
  | removeAll => some false
  | addCategory c => if ∃ g ∈ Catalogue.ofCategory c, g.classOf = f.classOf then some true else none
  | removeCategory c => if c ≠ .functions ∧ f.category = some c then some false else none
  | allowAnyFunction _ => none

/-- Where a call puts the flag, if it moves it. -/
def flag : Change → Option Bool
  | addCatalogue | addCategory .functions => some true
  | removeAll | removeCategory .functions => some false
  | allowAnyFunction allowed => some allowed
  | _ => none

end Change

variable {s : FeatureSet} {f g : Feature} {c : Category} {fs : List Feature}

/-! ### What one call does -/

/-- Whether the class of a feature is in, be any function supported or not. -/
def stores (s : FeatureSet) (f : Feature) : Prop := ∃ c, f.category = some c ∧ holds (s.ofCategory c) f = true

theorem supports_iff :
    s.supports f = true ↔ f.category.isSome = true ∧ (f.isFunction = true ∧ s.anyFunction = true ∨ s.stores f) := by
  unfold supports stores Feature.isFunction
  cases f.category <;> simp

theorem stores_withGroup :
    (s.withGroup c fs).stores f ↔ if f.category = some c then holds fs f = true else s.stores f := by
  unfold stores
  simp only [ofCategory_withGroup]
  split
  next here => simp [here]
  next other =>
    refine exists_congr fun d => and_congr_right fun category => ?_
    have different : c ≠ d := by
      rintro rfl
      exact other category
    rw [if_neg different]

theorem stores_allowAnyFunction {allowed : Bool} : (s.allowAnyFunction allowed).stores f ↔ s.stores f := Iff.rfl

theorem stores_iff (category : f.category = some c) : s.stores f ↔ ∃ g ∈ s.ofCategory c, g.classOf = f.classOf := by
  simp [stores, category, holds_iff]

theorem category_of_concerns (typed : f.category.isSome = true) (kept : keptUnder g = some c)
    (one : g.classOf = f.classOf) : f.category = some c := by
  obtain ⟨d, category⟩ := Option.isSome_iff_exists.1 typed
  rw [category, Feature.category_of_class (keptUnder_iff.1 kept).2 category one]

theorem stores_add (typed : f.category.isSome = true) : (s.add g).1.stores f ↔ concerns g f ∨ s.stores f := by
  unfold add concerns
  cases kept : keptUnder g with
  | none => simp
  | some c =>
    simp only [Option.isSome_some, true_and]
    have here := category_of_concerns typed kept
    split
    next held =>
      refine (or_iff_right_of_imp fun one => ?_).symm
      rw [stores_iff (here one), ← one]
      exact holds_iff.1 held
    next =>
      rw [stores_withGroup]
      split
      next same =>
        rw [stores_iff same, holds_iff]
        simp [or_and_right, exists_or, or_comm]
      next other => exact (or_iff_right fun one => other (here one)).symm

theorem stores_remove (typed : f.category.isSome = true) : (s.remove g).1.stores f ↔ ¬ concerns g f ∧ s.stores f := by
  unfold remove concerns
  cases kept : keptUnder g with
  | none => simp
  | some c =>
    simp only [Option.isSome_some, true_and]
    have here := category_of_concerns typed kept
    split
    next held =>
      rw [stores_withGroup]
      split
      next same =>
        -- What remains in the group is of another class than `g`.
        rw [stores_iff same, holds_iff]
        simp only [List.mem_filter, Bool.not_eq_true', ← Bool.not_eq_true, Feature.same_iff]
        constructor
        · rintro ⟨h, ⟨member, other⟩, one⟩
          exact ⟨fun both => other (one.trans both.symm), h, member, one⟩
        · rintro ⟨other, h, member, one⟩
          exact ⟨h, ⟨member, fun both => other (both.symm.trans one)⟩, one⟩
      next other => exact (and_iff_right fun one => other (here one)).symm
    next absent =>
      refine (and_iff_right_of_imp fun stored one => absent ?_).symm
      rw [stores_iff (here one), ← one] at stored
      exact holds_iff.2 stored

theorem stores_addAll (typed : f.category.isSome = true) (kept : ∀ g ∈ fs, (keptUnder g).isSome = true) :
    (s.addAll fs).stores f ↔ (∃ g ∈ fs, g.classOf = f.classOf) ∨ s.stores f := by
  induction fs generalizing s with
  | nil => simp [addAll]
  | cons g rest ih =>
    have first : concerns g f ↔ g.classOf = f.classOf := and_iff_right (kept g List.mem_cons_self)
    rw [addAll, List.foldl_cons, ← addAll, ih fun h member => kept h (List.mem_cons_of_mem g member),
      stores_add typed, first]
    simp [or_assoc, or_left_comm]

theorem catalogue_kept : ∀ g ∈ Catalogue.features, (keptUnder g).isSome = true := by decide +kernel

theorem stores_addCategory (typed : f.category.isSome = true) :
    (s.addCategory c).stores f ↔ (∃ g ∈ Catalogue.ofCategory c, g.classOf = f.classOf) ∨ s.stores f := by
  unfold addCategory
  split
  next functions =>
    have none : Catalogue.ofCategory c = [] := by rw [beq_iff_eq.1 functions]; rfl
    simp only [none, List.not_mem_nil, false_and, exists_false, false_or, stores_allowAnyFunction]
  next => exact stores_addAll typed fun g member => catalogue_kept g (List.mem_filter.1 member).1

theorem stores_removeCategory :
    (s.removeCategory c).stores f ↔ ¬ (c ≠ .functions ∧ f.category = some c) ∧ s.stores f := by
  unfold removeCategory
  split
  next functions => 
    simp only [beq_iff_eq.1 functions, ne_eq, not_true, false_and, not_false_iff, true_and, stores_allowAnyFunction]
  next others =>
    have others : c ≠ .functions := fun same => others (beq_iff_eq.2 same)
    split
    next =>
      rw [stores_withGroup]
      by_cases here : f.category = some c <;> simp [here, others, holds]
    next absent =>
      refine (and_iff_right_of_imp fun stored both => absent ?_).symm
      obtain ⟨g, member, -⟩ := (stores_iff both.2).1 stored
      unfold ofCategory at member
      cases found : s.group? c <;> simp_all

/-- One call puts in or out what it says, and leaves the rest. -/
theorem stores_change (typed : f.category.isSome = true) (call : Change) :
    (s.change call).stores f ↔ call.puts f = some true ∨ call.puts f = none ∧ s.stores f := by
  cases call with
  | add g =>
    rw [change, stores_add typed, Change.puts]
    split <;> simp [*]
  | remove g =>
    rw [change, stores_remove typed, Change.puts]
    split <;> simp [*]
  | addCatalogue =>
    rw [change, addCatalogue, stores_allowAnyFunction, stores_addAll typed catalogue_kept, Change.puts]
    split <;> simp [*]
  | removeAll => simp [change, Change.puts, stores, ofCategory, group?, empty, holds]
  | addCategory c =>
    rw [change, stores_addCategory typed, Change.puts]
    split <;> simp [*]
  | removeCategory c =>
    rw [change, stores_removeCategory, Change.puts]
    split <;> simp [*]
  | allowAnyFunction allowed => simp [change, Change.puts, stores_allowAnyFunction]

theorem anyFunction_add : (s.add g).1.anyFunction = s.anyFunction := by
  unfold add
  split
  · rfl
  · dsimp only
    split
    · rfl
    · exact anyFunction_withGroup

theorem anyFunction_remove : (s.remove g).1.anyFunction = s.anyFunction := by
  unfold remove
  split
  · rfl
  · dsimp only
    split
    · exact anyFunction_withGroup
    · rfl

theorem anyFunction_addAll : (s.addAll fs).anyFunction = s.anyFunction := by
  induction fs generalizing s with
  | nil => rfl
  | cons f rest ih => rw [addAll, List.foldl_cons, ← addAll, ih, anyFunction_add]

theorem anyFunction_addCategory :
    (s.addCategory c).anyFunction = (c == .functions || s.anyFunction) := by
  unfold addCategory
  split
  next functions => simp [functions, allowAnyFunction]
  next others => simp [others, anyFunction_addAll]

theorem anyFunction_removeCategory :
    (s.removeCategory c).anyFunction = (c != .functions && s.anyFunction) := by
  unfold removeCategory
  split
  next functions => simp_all [allowAnyFunction]
  next others =>
    split <;> simp_all

/-- One call moves the flag where it says, or leaves it. -/
theorem anyFunction_change (call : Change) :
    (s.change call).anyFunction = true ↔ call.flag = some true ∨ call.flag = none ∧ s.anyFunction = true := by
  cases call with
  | add g => simp [change, Change.flag, anyFunction_add]
  | remove g => simp [change, Change.flag, anyFunction_remove]
  | addCatalogue => simp [change, Change.flag, addCatalogue, allowAnyFunction]
  | removeAll => simp [change, Change.flag, empty]
  | addCategory c => cases c <;> simp [change, Change.flag, anyFunction_addCategory]
  | removeCategory c => cases c <;> simp [change, Change.flag, anyFunction_removeCategory]
  | allowAnyFunction allowed => simp [change, Change.flag, allowAnyFunction]

theorem Kept.change (h : s.Kept) (call : Change) : (s.change call).Kept := by
  cases call with
  | add g => exact h.add g
  | remove g => exact h.remove g
  | addCatalogue => exact h.addCatalogue
  | removeAll => exact kept_empty
  | addCategory c => exact h.addCategory c
  | removeCategory c => exact h.removeCategory c
  | allowAnyFunction allowed => exact h.allowAnyFunction allowed

/-! ### Any number of calls -/

/-- A state that each call moves where it says or leaves is where the last call put it. -/
theorem last_of_steps (holds : FeatureSet → Prop) {put : Change → Option Bool}
    (step : ∀ {s} call, holds (s.change call) ↔ put call = some true ∨ put call = none ∧ holds s) (calls : List Change) :
    holds (s.run calls) ↔
      (calls.filterMap put).getLast? = some true ∨ (calls.filterMap put).getLast? = none ∧ holds s := by
  induction calls generalizing s with
  | nil => simp [run]
  | cons call rest ih =>
    rw [run, List.foldl_cons, ← run, ih, step, List.filterMap_cons]
    cases put call with
    | none => simp
    | some value =>
      rw [List.getLast?_cons]
      cases (rest.filterMap put).getLast? <;> simp

theorem Kept.run (h : s.Kept) (calls : List Change) : (s.run calls).Kept := by
  induction calls generalizing s with
  | nil => exact h
  | cons call rest ih => exact ih (h.change call)

/-- A feature is supported if it is a function and the last call that moved the flag set it, or if
the last call that concerned its class put it in. What is kept is optional, stands under its category
and is of a class of its own; additions and removals say whether they changed it. -/
theorem supports_run (calls : List Change) :
    let s := empty.run calls
    (∀ f, s.supports f = true ↔
      f.category.isSome = true ∧
        (f.isFunction = true ∧ (calls.filterMap Change.flag).getLast? = some true ∨
          (calls.filterMap (Change.puts f)).getLast? = some true)) ∧
      (∀ group ∈ s.groups, ∀ f ∈ group.2, f.isOptional = true ∧ f.category = some group.1) ∧
      (s.supported.Pairwise fun f g => f.classOf ≠ g.classOf) ∧
      ∀ f, ((s.add f).2 = true ↔ ¬ (s.add f).1.Alike s) ∧ ((s.remove f).2 = true ↔ ¬ (s.remove f).1.Alike s) := by
  intro s
  have kept : s.Kept := kept_empty.run calls
  refine ⟨fun f => ?_, fun group member f stored => keptUnder_iff.1 (kept.kept group member f stored),
    kept.supported_once, fun f => ⟨kept.added_iff, kept.removed_iff⟩⟩
  have none : ¬ empty.stores f := by simp [stores, ofCategory, group?, empty, holds]
  have down : ¬ empty.anyFunction = true := by decide
  have flag : s.anyFunction = true ↔ (calls.filterMap Change.flag).getLast? = some true :=
    (last_of_steps (fun s => s.anyFunction = true) anyFunction_change calls).trans (or_iff_left fun h => down h.2)
  rw [supports_iff, flag]
  refine and_congr_right fun typed => or_congr_right ?_
  exact (last_of_steps (fun s => s.stores f) (stores_change typed) calls).trans (or_iff_left fun h => none h.2)

end SkyQuery.FeatureSet
