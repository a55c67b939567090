import Mathlib.Data.List.Nodup
import SkyQuery.Feature.FeatureSet

/-!
# What a set of features keeps

Features are told apart by their class (`Feature.same_iff`). A set keeps optional features only, each
in the group of its category and one of each class (`FeatureSet.Kept`); what it does to a group it
does to no other, and an addition or a removal says truly whether it changed anything
(`FeatureSet.Kept.added_iff`, `FeatureSet.Kept.removed_iff`).
-/

namespace SkyQuery

namespace Category

theorem fragment_injective {c d : Category} (h : c.fragment = d.fragment) : c = d := by
  cases c <;> cases d <;> first | rfl | simp [fragment] at h

theorem takeWhile_fragment (c : Category) (rest : List Char) :
    (c.fragment.toList ++ '!' :: rest).takeWhile (· != '!') = c.fragment.toList := by
  have plain : c.fragment.toList.all (· != '!') = true := by cases c <;> rfl
  rw [List.takeWhile_append_of_pos (List.all_eq_true.1 plain)]
  simp

theorem ivoid_cut {c d : Category} {a b : String} (h : c.ivoid ++ "!" ++ a = d.ivoid ++ "!" ++ b) : c = d := by
  have chars := congrArg String.toList h
  simp only [ivoid, String.toList_append, List.append_assoc, List.append_cancel_left_eq] at chars
  have fragments := congrArg (List.takeWhile (· != '!')) chars
  exact fragment_injective (String.toList_injective
    (((takeWhile_fragment c a.toList).symm.trans fragments).trans (takeWhile_fragment d b.toList)))

end Category

namespace Feature

/-- What features are told apart by. -/
inductive Class where
  /-- The name in lower case and the number of parameters. -/
  | function (name : String) (params : Nat)
  | construct (id : String)
  deriving DecidableEq

/-- The class of a feature: functions that differ in letter case or in types only are one. -/
def classOf : Feature → Class
  | .function d => .function (Text.lower d.name) d.params.length
  | f => .construct f.id

variable {f g : Feature}

theorem same_iff : f.same g = true ↔ f.classOf = g.classOf := by
  cases f <;> cases g <;>
    simp [same, classOf, Text.sameLetters, Text.lower, String.ofList_inj]

/-- The class tells the category. -/
theorem category_of_class {c d : Category} (hf : f.category = some c) (hg : g.category = some d)
    (one : f.classOf = g.classOf) : c = d := by
  cases f with
  | function => cases g with
    | function => cases hf; cases hg; rfl
    | construct => cases one
  | construct => cases g with
    | function => cases one
    | construct =>
      simp only [category] at hf hg
      subst hf hg
      simp only [classOf, id, category, Class.construct.injEq] at one
      exact Category.ivoid_cut one

end Feature

namespace FeatureSet

variable {s : FeatureSet} {f g : Feature} {c d : Category} {fs : List Feature}

/-! ### Groups -/

theorem holds_iff : holds fs f = true ↔ ∃ g ∈ fs, g.classOf = f.classOf := by
  simp [holds, Feature.same_iff]

theorem keptUnder_iff : keptUnder f = some c ↔ f.isOptional = true ∧ f.category = some c := by
  simp [keptUnder]

theorem group?_withGroup : (s.withGroup c fs).group? d = if c = d then some fs else s.group? d := by
  unfold withGroup group?
  split
  next present =>
    -- Each group stands where it stood, under its category.
    have keys : ((fun g : Category × List Feature => g.1 == d) ∘ fun g => if g.1 == c then (c, fs) else g) =
        fun g => g.1 == d := by
      funext g
      by_cases here : g.1 = c <;> simp [here]
    rw [List.find?_map, keys]
    cases found : s.groups.find? fun g => g.1 == d with
    | none =>
      obtain ⟨g, member, key⟩ := List.any_eq_true.1 present
      have other : c ≠ d := by
        rintro rfl
        exact List.find?_eq_none.1 found g member key
      simp [other]
    | some g =>
      have key : g.1 = d := by simpa using List.find?_some found
      by_cases asked : c = d
      · simp [key, asked]
      · simp [key, asked, Ne.symm asked]
  next absent =>
    rw [List.find?_append]
    by_cases asked : c = d
    · subst asked
      have none : s.groups.find? (fun g => g.1 == c) = none :=
        List.find?_eq_none.2 fun g member here => absent (List.any_eq_true.2 ⟨g, member, here⟩)
      simp [none]
    · simp [asked]

theorem ofCategory_withGroup : (s.withGroup c fs).ofCategory d = if c = d then fs else s.ofCategory d := by
  rw [ofCategory, group?_withGroup]
  split <;> rfl

@[simp] theorem anyFunction_withGroup : (s.withGroup c fs).anyFunction = s.anyFunction := by
  unfold withGroup
  split <;> rfl

/-! ### The invariant -/

/-- Features are kept in the groups of their categories, one of each class and optional ones only. -/
structure Kept (s : FeatureSet) : Prop where
  groups : (s.groups.map (·.1)).Nodup
  kept : ∀ g ∈ s.groups, ∀ f ∈ g.2, keptUnder f = some g.1
  once : ∀ g ∈ s.groups, g.2.Pairwise fun f h => f.classOf ≠ h.classOf

theorem kept_empty : empty.Kept := by constructor <;> simp [empty]

theorem mem_of_group? (found : s.group? c = some fs) : (c, fs) ∈ s.groups := by
  obtain ⟨g, first, rfl⟩ := Option.map_eq_some_iff.1 found
  have key : g.1 = c := by simpa using List.find?_some first
  exact key ▸ List.mem_of_find?_eq_some first

theorem Kept.ofCategory_of_mem (h : s.Kept) (member : (c, fs) ∈ s.groups) : s.ofCategory c = fs := by
  unfold FeatureSet.ofCategory
  cases found : s.group? c with
  | none =>
    have none := List.find?_eq_none.1 (Option.map_eq_none_iff.1 found) _ member
    simp at none
  | some other =>
    have same := List.inj_on_of_nodup_map h.groups (mem_of_group? found) member rfl
    simpa using same

theorem Kept.ofCategory (h : s.Kept) :
    (∀ f ∈ s.ofCategory c, keptUnder f = some c) ∧
      (s.ofCategory c).Pairwise fun f g => f.classOf ≠ g.classOf := by
  unfold FeatureSet.ofCategory
  cases found : s.group? c with
  | none => simp
  | some fs => exact ⟨h.kept _ (mem_of_group? found), h.once _ (mem_of_group? found)⟩

/-- A group can be replaced by features of its category, one of each class. -/
theorem Kept.withGroup (h : s.Kept) (kept : ∀ f ∈ fs, keptUnder f = some c)
    (once : fs.Pairwise fun f g => f.classOf ≠ g.classOf) : (s.withGroup c fs).Kept := by
  -- The group is put in place of the old one, or after all others.
  have new (g : Category × List Feature) (member : g ∈ (s.withGroup c fs).groups) : g = (c, fs) ∨ g ∈ s.groups := by
    unfold FeatureSet.withGroup at member
    split at member
    · obtain ⟨old, here, rfl⟩ := List.mem_map.1 member
      split
      · exact .inl rfl
      · exact .inr here
    · exact (List.mem_append.1 member).symm.imp_left List.mem_singleton.1
  constructor
  · have keys := h.groups
    unfold FeatureSet.withGroup
    split
    next present =>
      have same : ((·.1) ∘ fun g : Category × List Feature => if g.1 == c then (c, fs) else g) = (·.1) := by
        funext g
        by_cases here : g.1 = c <;> simp [here]
      rw [List.map_map, same]
      exact keys
    next absent =>
      have fresh : c ∉ s.groups.map (·.1) := by simpa using absent
      rw [List.map_append]
      refine List.nodup_append.2 ⟨keys, List.nodup_singleton c, ?_⟩
      rintro a old b new rfl
      rw [List.mem_singleton.1 new] at old
      exact fresh old
  · intro g member
    obtain rfl | old := new g member
    · exact kept
    · exact h.kept g old
  · intro g member
    obtain rfl | old := new g member
    · exact once
    · exact h.once g old

theorem Kept.mem_supported (h : s.Kept) : f ∈ s.supported ↔ ∃ c, f ∈ s.ofCategory c := by
  constructor
  · intro member
    obtain ⟨⟨c, fs⟩, group, member⟩ := List.mem_flatMap.1 member
    exact ⟨c, (h.ofCategory_of_mem group).symm ▸ member⟩
  · rintro ⟨c, member⟩
    unfold FeatureSet.ofCategory at member
    cases found : s.group? c with
    | none => simp [found] at member
    | some fs =>
      rw [found] at member
      exact List.mem_flatMap.2 ⟨_, mem_of_group? found, member⟩

theorem Kept.supported_once (h : s.Kept) : s.supported.Pairwise fun f g => f.classOf ≠ g.classOf := by
  refine List.pairwise_flatMap.2 ⟨h.once, ?_⟩
  refine (List.pairwise_map.1 h.groups).imp_of_mem fun {a b} ha hb other f hf g hg one => other ?_
  have keptF := keptUnder_iff.1 (h.kept a ha f hf)
  have keptG := keptUnder_iff.1 (h.kept b hb g hg)
  exact Feature.category_of_class keptF.2 keptG.2 one

/-! ### Additions and removals -/

theorem Kept.add (h : s.Kept) (f : Feature) : (s.add f).1.Kept := by
  unfold FeatureSet.add
  split
  · exact h
  next c kept =>
    dsimp only
    split
    · exact h
    next absent =>
      rw [holds_iff] at absent
      refine h.withGroup (fun g member => ?_) (List.pairwise_append.2 ⟨h.ofCategory.2, List.pairwise_singleton _ f, ?_⟩)
      · obtain old | new := List.mem_append.1 member
        · exact h.ofCategory.1 g old
        · exact List.mem_singleton.1 new ▸ kept
      · intro g old f' new one
        rw [List.mem_singleton.1 new] at one
        exact absent ⟨g, old, one⟩

theorem Kept.remove (h : s.Kept) (f : Feature) : (s.remove f).1.Kept := by
  unfold FeatureSet.remove
  split
  · exact h
  · dsimp only
    split
    · exact h.withGroup (fun g member => h.ofCategory.1 g ((List.mem_filter.1 member).1)) (h.ofCategory.2.filter _)
    · exact h

theorem Kept.addAll (h : s.Kept) (fs : List Feature) : (s.addAll fs).Kept := by
  induction fs generalizing s with
  | nil => exact h
  | cons f rest ih => exact ih (h.add f)

theorem Kept.allowAnyFunction (h : s.Kept) (allowed : Bool) : (s.allowAnyFunction allowed).Kept :=
  ⟨h.groups, h.kept, h.once⟩

theorem Kept.addCatalogue (h : s.Kept) : s.addCatalogue.Kept := by
  unfold FeatureSet.addCatalogue
  exact (h.addAll _).allowAnyFunction true

theorem Kept.addCategory (h : s.Kept) (c : Category) : (s.addCategory c).Kept := by
  unfold FeatureSet.addCategory
  split
  · exact h.allowAnyFunction true
  · exact h.addAll _

theorem Kept.removeCategory (h : s.Kept) (c : Category) : (s.removeCategory c).Kept := by
  unfold FeatureSet.removeCategory
  split
  · exact h.allowAnyFunction false
  · split
    · exact h.withGroup (by simp) List.Pairwise.nil
    · exact h

/-- Whether two sets keep the same features. -/
def Alike (s t : FeatureSet) : Prop := ∀ f, f ∈ s.supported ↔ f ∈ t.supported

/-- An addition says whether it changed what is kept. -/
theorem Kept.added_iff (h : s.Kept) : (s.add f).2 = true ↔ ¬ (s.add f).1.Alike s := by
  have kept := h.add f
  cases category : keptUnder f with
  | none => simp [FeatureSet.add, category, Alike]
  | some c =>
    cases held : holds (s.ofCategory c) f with
    | true => simp [FeatureSet.add, category, held, Alike]
    | false =>
      simp only [FeatureSet.add, category, held, Bool.false_eq_true, if_false, true_iff] at kept ⊢
      intro alike
      have new : f ∈ (s.withGroup c (s.ofCategory c ++ [f])).supported :=
        kept.mem_supported.2 ⟨c, by simp [ofCategory_withGroup]⟩
      obtain ⟨d, old⟩ := h.mem_supported.1 ((alike f).1 new)
      have same : c = d := Option.some.inj (category.symm.trans (h.ofCategory.1 f old))
      have absent := mt holds_iff.2 (Bool.eq_false_iff.1 held)
      exact absent ⟨f, same ▸ old, rfl⟩

/-- A removal says whether it changed what is kept. -/
theorem Kept.removed_iff (h : s.Kept) : (s.remove f).2 = true ↔ ¬ (s.remove f).1.Alike s := by
  have kept := h.remove f
  cases category : keptUnder f with
  | none => simp [FeatureSet.remove, category, Alike]
  | some c =>
    cases held : holds (s.ofCategory c) f with
    | false => simp [FeatureSet.remove, category, held, Alike]
    | true =>
      simp only [FeatureSet.remove, category, held, if_true, true_iff] at kept ⊢
      intro alike
      obtain ⟨g, old, one⟩ := holds_iff.1 held
      obtain ⟨d, new⟩ := kept.mem_supported.1 ((alike g).2 (h.mem_supported.2 ⟨c, old⟩))
      have same : c = d := Option.some.inj ((h.ofCategory.1 g old).symm.trans (kept.ofCategory.1 g new))
      rw [ofCategory_withGroup, if_pos same] at new
      have other := (List.mem_filter.1 new).2
      rw [Feature.same_iff.2 one] at other
      cases other

end FeatureSet

end SkyQuery
