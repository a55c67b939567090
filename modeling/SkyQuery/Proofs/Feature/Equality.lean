import Mathlib.Data.List.Perm.Subperm
import SkyQuery.Proofs.Feature.History

/-!
# Equality of sets of features

Two sets are equal if they have the same flag, store the same features and have groups for the same
categories (`FeatureSet.Kept.same_iff`). A group stays when its last feature is removed, so that the removal
of a feature undoes its addition only in a category that had a group before (`FeatureSet.same_run`).
-/

namespace SkyQuery.FeatureSet

/-- Whether there is a group for a category, be it without features. -/
def HasGroup (s : FeatureSet) (c : Category) : Prop := (s.group? c).isSome = true

instance (s : FeatureSet) (c : Category) : Decidable (s.HasGroup c) := inferInstanceAs (Decidable (_ = _))

/-- Whether a call makes or removes the group of a category, if it does either. -/
def Change.opens (c : Category) : Change → Option Bool
  | add g => if keptUnder g = some c then some true else none
  | remove _ => none
  | addCatalogue => if ∃ g ∈ Catalogue.features, keptUnder g = some c then some true else none
  | removeAll => some false
  | addCategory d => if ∃ g ∈ Catalogue.ofCategory d, keptUnder g = some c then some true else none
  | removeCategory _ => none
  | allowAnyFunction _ => none

variable {s t : FeatureSet} {f g : Feature} {c d : Category} {fs gs : List Feature}

/-! ### Which categories have groups -/

theorem hasGroup_withGroup : (s.withGroup c fs).HasGroup d ↔ c = d ∨ s.HasGroup d := by
  unfold HasGroup
  rw [group?_withGroup]
  split <;> simp [*]

theorem hasGroup_of_holds (held : holds (s.ofCategory c) f = true) : s.HasGroup c := by
  obtain ⟨g, member, -⟩ := holds_iff.1 held
  unfold HasGroup
  unfold ofCategory at member
  cases found : s.group? c <;> simp_all

theorem hasGroup_add : (s.add g).1.HasGroup c ↔ keptUnder g = some c ∨ s.HasGroup c := by
  unfold add
  cases kept : keptUnder g with
  | none => simp
  | some d =>
    dsimp only
    split
    next held =>
      refine (or_iff_right_of_imp fun same => ?_).symm
      exact Option.some.inj same ▸ hasGroup_of_holds held
    next => rw [hasGroup_withGroup, Option.some_inj]

theorem hasGroup_remove : (s.remove g).1.HasGroup c ↔ s.HasGroup c := by
  unfold remove
  cases keptUnder g with
  | none => rfl
  | some d =>
    dsimp only
    split
    next held =>
      rw [hasGroup_withGroup]
      refine or_iff_right_of_imp ?_
      rintro rfl
      exact hasGroup_of_holds held
    next => rfl

theorem hasGroup_addAll : (s.addAll fs).HasGroup c ↔ (∃ g ∈ fs, keptUnder g = some c) ∨ s.HasGroup c := by
  induction fs generalizing s with
  | nil => simp [addAll]
  | cons g rest ih =>
    rw [addAll, List.foldl_cons, ← addAll, ih, hasGroup_add]
    simp [or_assoc, or_left_comm]

theorem hasGroup_allowAnyFunction {allowed : Bool} : (s.allowAnyFunction allowed).HasGroup c ↔ s.HasGroup c := Iff.rfl

theorem hasGroup_addCategory :
    (s.addCategory d).HasGroup c ↔ (∃ g ∈ Catalogue.ofCategory d, keptUnder g = some c) ∨ s.HasGroup c := by
  unfold addCategory
  split
  next functions =>
    have none : Catalogue.ofCategory d = [] := by rw [beq_iff_eq.1 functions]; rfl
    simp only [none, List.not_mem_nil, false_and, exists_false, false_or, hasGroup_allowAnyFunction]
  next => exact hasGroup_addAll

theorem hasGroup_removeCategory : (s.removeCategory d).HasGroup c ↔ s.HasGroup c := by
  unfold removeCategory
  split
  next => rfl
  next =>
    split
    next there =>
      rw [hasGroup_withGroup]
      refine or_iff_right_of_imp ?_
      rintro rfl
      exact there
    next => rfl

/-- One call makes or removes the groups that it says, and leaves the rest. -/
theorem hasGroup_change (call : Change) :
    (s.change call).HasGroup c ↔ call.opens c = some true ∨ call.opens c = none ∧ s.HasGroup c := by
  cases call with
  | add g =>
    rw [change, hasGroup_add, Change.opens]
    split <;> simp [*]
  | remove g => simp [change, Change.opens, hasGroup_remove]
  | addCatalogue =>
    rw [change, addCatalogue, hasGroup_allowAnyFunction, hasGroup_addAll, Change.opens]
    split <;> simp [*]
  | removeAll => simp [change, Change.opens, HasGroup, group?, empty]
  | addCategory d =>
    rw [change, hasGroup_addCategory, Change.opens]
    split <;> simp [*]
  | removeCategory d => simp [change, Change.opens, hasGroup_removeCategory]
  | allowAnyFunction allowed => simp [change, Change.opens, hasGroup_allowAnyFunction]

/-! ### When sets are equal -/

/-- Lists with one feature of each class are compared by the classes they hold. -/
theorem sameFeatures_iff (onceF : fs.Pairwise fun f h => f.classOf ≠ h.classOf)
    (onceG : gs.Pairwise fun f h => f.classOf ≠ h.classOf) :
    sameFeatures fs gs = true ↔ ∀ f, holds fs f = true ↔ holds gs f = true := by
  have nodupF : (fs.map Feature.classOf).Nodup := List.pairwise_map.2 onceF
  have nodupG : (gs.map Feature.classOf).Nodup := List.pairwise_map.2 onceG
  have held (hs : List Feature) (f : Feature) : holds hs f = true ↔ f.classOf ∈ hs.map Feature.classOf := by
    rw [holds_iff, List.mem_map]
  simp only [sameFeatures, Bool.and_eq_true, beq_iff_eq, List.all_eq_true, held]
  constructor
  · rintro ⟨length, all⟩ f
    have within : fs.map Feature.classOf ⊆ gs.map Feature.classOf := by
      intro one member
      obtain ⟨g, stored, rfl⟩ := List.mem_map.1 member
      exact all g stored
    have perm := (nodupF.subperm within).perm_of_length_le (by simp [length])
    exact perm.mem_iff
  · intro same
    have one (k : Feature.Class) : k ∈ fs.map Feature.classOf ↔ k ∈ gs.map Feature.classOf := by
      constructor <;> intro member <;> obtain ⟨g, -, rfl⟩ := List.mem_map.1 member
      · exact (same g).1 member
      · exact (same g).2 member
    have perm := (List.perm_ext_iff_of_nodup nodupF nodupG).2 one
    exact ⟨by simpa using perm.length_eq, fun g stored => (same g).1 (List.mem_map_of_mem stored)⟩

theorem mem_keys : c ∈ s.groups.map (·.1) ↔ s.HasGroup c := by
  unfold HasGroup group?
  simp [List.find?_isSome]

/-- Sets are compared category by category. -/
theorem Kept.same_iff_groups (hs : s.Kept) (ht : t.Kept) :
    s.same t = true ↔ s.anyFunction = t.anyFunction ∧
      ∀ c, (s.HasGroup c ↔ t.HasGroup c) ∧ sameFeatures (s.ofCategory c) (t.ofCategory c) = true := by
  simp only [FeatureSet.same, Bool.and_eq_true, beq_iff_eq, List.all_eq_true, and_assoc]
  refine and_congr_right fun _ => ?_
  constructor
  · rintro ⟨length, all⟩
    have found (c : Category) (there : s.HasGroup c) : t.HasGroup c ∧ sameFeatures (s.ofCategory c) (t.ofCategory c) = true := by
      obtain ⟨fs, group⟩ := Option.isSome_iff_exists.1 there
      have same := all _ (mem_of_group? group)
      unfold HasGroup FeatureSet.ofCategory
      cases other : t.group? c <;> simp_all
    -- As many groups, each of which is in the other set: neither set has more.
    have perm : (s.groups.map (·.1)).Perm (t.groups.map (·.1)) := by
      refine (hs.groups.subperm fun c member => ?_).perm_of_length_le (by simp [length])
      exact mem_keys.2 (found c (mem_keys.1 member)).1
    intro c
    have both : s.HasGroup c ↔ t.HasGroup c := by rw [← mem_keys, ← mem_keys, perm.mem_iff]
    refine ⟨both, ?_⟩
    by_cases there : s.HasGroup c
    · exact (found c there).2
    · have none := mt both.2 there
      unfold HasGroup at there none
      simp only [Bool.not_eq_true, Option.isSome_eq_false_iff, Option.isNone_iff_eq_none] at there none
      simp [FeatureSet.ofCategory, there, none, sameFeatures]
  · intro each
    have perm : (s.groups.map (·.1)).Perm (t.groups.map (·.1)) :=
      (List.perm_ext_iff_of_nodup hs.groups ht.groups).2 fun c => by rw [mem_keys, mem_keys, (each c).1]
    refine ⟨by simpa using perm.length_eq, fun g member => ?_⟩
    obtain ⟨c, fs⟩ := g
    obtain ⟨gs, other⟩ := Option.isSome_iff_exists.1 ((each c).1.1 (mem_keys.1 (List.mem_map_of_mem member)))
    have same := (each c).2
    rw [hs.ofCategory_of_mem member, FeatureSet.ofCategory, other] at same
    dsimp only
    rw [other]
    exact same

/-- What a category holds is told by what is stored. -/
theorem Kept.holds_iff_stores (hs : s.Kept) (ht : t.Kept) :
    (∀ c f, holds (s.ofCategory c) f = true ↔ holds (t.ofCategory c) f = true) ↔ ∀ f, s.stores f ↔ t.stores f := by
  constructor
  · exact fun each f => exists_congr fun c => and_congr_right fun _ => each c f
  · intro each c
    have step {s t : FeatureSet} (hs : s.Kept) (stored : ∀ f, s.stores f → t.stores f) (f : Feature)
        (held : holds (s.ofCategory c) f = true) : holds (t.ofCategory c) f = true := by
      obtain ⟨g, member, one⟩ := holds_iff.1 held
      have category := (keptUnder_iff.1 (hs.ofCategory.1 g member)).2
      obtain ⟨h, other, one'⟩ := (stores_iff category).1 (stored g ((stores_iff category).2 ⟨g, member, rfl⟩))
      exact holds_iff.2 ⟨h, other, one'.trans one⟩
    exact fun f => ⟨step hs (fun f => (each f).1) f, step ht (fun f => (each f).2) f⟩

/-- Sets are equal if they have the same flag, store the same features and have the same groups. -/
theorem Kept.same_iff (hs : s.Kept) (ht : t.Kept) :
    s.same t = true ↔ s.anyFunction = t.anyFunction ∧ (∀ f, s.stores f ↔ t.stores f) ∧
      ∀ c, s.HasGroup c ↔ t.HasGroup c := by
  rw [hs.same_iff_groups ht, ← hs.holds_iff_stores ht]
  simp only [sameFeatures_iff hs.ofCategory.2 ht.ofCategory.2, forall_and]
  exact and_congr_right fun _ => and_comm

/-! ### Removals after additions -/

theorem classOf_ne_of_not_stores (typed : f.category.isSome = true) (absent : ¬ s.stores f) (stored : s.stores g) :
    g.classOf ≠ f.classOf := by
  obtain ⟨c, category⟩ := Option.isSome_iff_exists.1 typed
  rintro one
  obtain ⟨d, categoryG, held⟩ := stored
  obtain rfl := Feature.category_of_class categoryG category one
  exact absent ⟨_, category, by rwa [holds_iff, ← one, ← holds_iff]⟩

/-- A feature that was new is gone again after its removal, and nothing else is. -/
theorem Kept.remove_add (h : s.Kept) (new : (s.add f).2 = true) :
    ((s.add f).1.remove f).2 = true ∧
      (((s.add f).1.remove f).1.same s = true ↔ ∃ c, keptUnder f = some c ∧ s.HasGroup c) := by
  cases kept : keptUnder f with
  | none => simp [FeatureSet.add, kept] at new
  | some c =>
    have category := (keptUnder_iff.1 kept).2
    have typed : f.category.isSome = true := by rw [category]; rfl
    have concerned : concerns f f := ⟨by rw [kept]; rfl, rfl⟩
    have absent : ¬ s.stores f := by
      rintro ⟨d, categoryD, held⟩
      obtain rfl := Option.some.inj (category.symm.trans categoryD)
      simp [FeatureSet.add, kept, held] at new
    have there : (s.add f).1.stores f := (stores_add typed).2 (.inl concerned)
    have held : holds ((s.add f).1.ofCategory c) f = true := holds_iff.2 ((stores_iff category).1 there)
    refine ⟨by simp [FeatureSet.remove, kept, held], ?_⟩
    rw [((h.add f).remove f).same_iff h]
    have flag : ((s.add f).1.remove f).1.anyFunction = s.anyFunction := by rw [anyFunction_remove, anyFunction_add]
    have stored (g : Feature) : ((s.add f).1.remove f).1.stores g ↔ s.stores g := by
      cases typedG : g.category with
      | none => simp [stores, typedG]
      | some d =>
        have typedG : g.category.isSome = true := by rw [typedG]; rfl
        rw [stores_remove typedG, stores_add typedG]
        constructor
        · rintro ⟨other, one | stored⟩
          · exact absurd one other
          · exact stored
        · intro stored
          exact ⟨fun one => classOf_ne_of_not_stores typed absent stored one.2.symm, .inr stored⟩
    -- Adding makes a group for the category where there is none, and removing leaves it there without features.
    have groups : (∀ d, ((s.add f).1.remove f).1.HasGroup d ↔ s.HasGroup d) ↔ s.HasGroup c := by
      simp only [hasGroup_remove, hasGroup_add, kept, Option.some_inj]
      refine ⟨fun each => (each c).1 (.inl rfl), fun there d => or_iff_right_of_imp ?_⟩
      rintro rfl
      exact there
    simp [flag, stored, groups]

/-- Sets that were made by any calls are equal exactly if they have the same flag, store the same features
and have groups for the same categories; a category has a group if a feature of it was added since all was
removed. A feature that was new is removed again, and the set is then equal to the one before exactly if the
category had a group already. -/
theorem same_run (calls calls' : List Change) (f : Feature) :
    let s := empty.run calls
    let t := empty.run calls'
    (s.same t = true ↔ s.anyFunction = t.anyFunction ∧ (∀ g, s.stores g ↔ t.stores g) ∧
        ∀ c, s.HasGroup c ↔ t.HasGroup c) ∧
      (∀ c, s.HasGroup c ↔ (calls.filterMap (Change.opens c)).getLast? = some true) ∧
      ((s.add f).2 = true → ((s.add f).1.remove f).2 = true ∧
        (((s.add f).1.remove f).1.same s = true ↔ ∃ c, keptUnder f = some c ∧ s.HasGroup c)) := by
  intro s t
  have hs : s.Kept := kept_empty.run calls
  have ht : t.Kept := kept_empty.run calls'
  refine ⟨hs.same_iff ht, fun c => ?_, hs.remove_add⟩
  have none : ¬ empty.HasGroup c := by simp [HasGroup, group?, empty]
  exact (last_of_steps (fun s => s.HasGroup c) hasGroup_change calls).trans (or_iff_left fun h => none h.2)

/-- The removal of `BOX` undoes its addition to a set that had `POINT` once. -/
theorem same_run_box :
    let s := empty.run [.add (.standard .geometry "POINT"), .remove (.standard .geometry "POINT")]
    let box := Feature.standard .geometry "BOX"
    (s.add box).2 = true ∧ ((s.add box).1.remove box).2 = true ∧ ((s.add box).1.remove box).1.same s = true := by
  have new : ((empty.run [.add (.standard .geometry "POINT"), .remove (.standard .geometry "POINT")]).add
      (.standard .geometry "BOX")).2 = true := by decide
  have undone := (same_run [.add (.standard .geometry "POINT"), .remove (.standard .geometry "POINT")] []
    (.standard .geometry "BOX")).2.2 new
  exact ⟨new, undone.1, undone.2.2 ⟨.geometry, by decide, by decide⟩⟩

/-- The removal of `POINT` does not undo its addition to the empty set: the flag and the features are the
same as before, but the two sets are not equal. -/
theorem same_run_leftover :
    let s := empty.run []
    let point := Feature.standard .geometry "POINT"
    (s.add point).2 = true ∧ ((s.add point).1.remove point).2 = true ∧
      ((s.add point).1.remove point).1.same s = false ∧
      ((s.add point).1.remove point).1.anyFunction = s.anyFunction ∧
      ((s.add point).1.remove point).1.supported = s.supported := by decide

end SkyQuery.FeatureSet
