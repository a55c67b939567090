import Mathlib
import SkyQuery.Proofs.Check.Rules
import SkyQuery.Proofs.Region.Unique

/-!
# Equality of regions

Two regions are equal when all that they are made of is (`same_iff`). Numbers are compared as numbers, so
the two zeros are equal and a coordinate that is no number is not equal to itself, while lengths that do
not apply are equal. Equality is symmetric and transitive, and reflexive on the regions whose coordinates
are numbers (`same_numbered`).
-/

namespace SkyQuery

namespace Region

/-! ### Numbers -/

theorem notANumber_eq : Decimal.notANumber = Float.nan := by decide

theorem isNaN_iff {x : Float} : x.isNaN = true ↔ x = Float.nan := by
  rw [Float.isNaN_eq_decide_eq_nan, decide_eq_true_eq]

theorem beq_self_iff {x : Float} : (x == x) = true ↔ x.isNaN = false := by
  rw [Float.beq_self_iff, ← Bool.not_eq_true, isNaN_iff]

theorem beq_symm {x y : Float} (h : (x == y) = true) : (y == x) = true := by
  rw [Float.beq_iff_ne_nan_and_eq] at h ⊢
  obtain ⟨hx, hy, same | ⟨zero, minus⟩ | ⟨minus, zero⟩⟩ := h
  · exact ⟨hy, hx, .inl same.symm⟩
  · exact ⟨hy, hx, .inr (.inr ⟨minus, zero⟩)⟩
  · exact ⟨hy, hx, .inr (.inl ⟨zero, minus⟩)⟩

/-- All zeros are equal to each other, and other numbers only to themselves. -/
theorem beq_trans {x y z : Float} (h : (x == y) = true) (h' : (y == z) = true) : (x == z) = true := by
  rw [Float.beq_iff_ne_nan_and_eq] at h h' ⊢
  obtain ⟨hx, -, hxy⟩ := h
  obtain ⟨-, hz, hyz⟩ := h'
  refine ⟨hx, hz, ?_⟩
  rcases hxy with rfl | ⟨rfl, rfl⟩ | ⟨rfl, rfl⟩
  · exact hyz
  · rcases hyz with rfl | ⟨-, rfl⟩ | ⟨-, rfl⟩
    · exact .inr (.inl ⟨rfl, rfl⟩)
    · exact .inr (.inl ⟨rfl, rfl⟩)
    · exact .inl rfl
  · rcases hyz with rfl | ⟨-, rfl⟩ | ⟨-, rfl⟩
    · exact .inr (.inr ⟨rfl, rfl⟩)
    · exact .inl rfl
    · exact .inr (.inr ⟨rfl, rfl⟩)

theorem sameLength_iff {a b : Float} :
    sameLength a b = true ↔ (a == b) = true ∨ a.isNaN = true ∧ b.isNaN = true := by
  rw [sameLength, Bool.or_eq_true, Bool.and_eq_true]

theorem sameLength_refl (a : Float) : sameLength a a = true := by
  rw [sameLength_iff, beq_self_iff]
  cases a.isNaN <;> simp

theorem sameLength_symm {a b : Float} (h : sameLength a b = true) : sameLength b a = true := by
  rw [sameLength_iff] at h ⊢
  exact h.imp beq_symm And.symm

theorem sameLength_trans {a b c : Float} (h : sameLength a b = true) (h' : sameLength b c = true) :
    sameLength a c = true := by
  rw [sameLength_iff] at h h' ⊢
  have number {x y : Float} (equal : (x == y) = true) : y.isNaN = false := by
    rw [← beq_self_iff]
    exact beq_trans (beq_symm equal) equal
  rcases h with h | ⟨ha, hb⟩
  · rcases h' with h' | ⟨hb, -⟩
    · exact .inl (beq_trans h h')
    · rw [number h] at hb
      cases hb
  · rcases h' with h' | ⟨-, hc⟩
    · rw [number (beq_symm h')] at hb
      cases hb
    · exact .inr ⟨ha, hc⟩

theorem samePoint_iff {p q : Point} : samePoint p q = true ↔ (p.x == q.x) = true ∧ (p.y == q.y) = true := by
  rw [samePoint, Bool.and_eq_true]

/-! ### Lists -/

theorem samePoints_iff {ps qs : List Point} :
    samePoints ps qs = true ↔ List.Forall₂ (fun p q => samePoint p q = true) ps qs := by
  induction ps generalizing qs with
  | nil => cases qs <;> simp [samePoints]
  | cons p ps ih =>
    cases qs with
    | nil => simp [samePoints]
    | cons q qs => rw [samePoints, Bool.and_eq_true, ih, List.forall₂_cons]

theorem sameAll_iff {rs rs' : List Region} :
    sameAll rs rs' = true ↔ List.Forall₂ (fun r r' => same r r' = true) rs rs' := by
  induction rs generalizing rs' with
  | nil => cases rs' <;> simp [sameAll]
  | cons r rs ih =>
    cases rs' with
    | nil => simp [sameAll]
    | cons r' rs' => rw [sameAll, Bool.and_eq_true, ih, List.forall₂_cons]

/-- Lists whose members are related one by one, the relation being transitive from the members of the first. -/
theorem forall₂_trans {α : Type} {R : α → α → Prop} {as bs cs : List α}
    (trans : ∀ a ∈ as, ∀ b c, R a b → R b c → R a c) (h : List.Forall₂ R as bs) (h' : List.Forall₂ R bs cs) :
    List.Forall₂ R as cs := by
  induction h generalizing cs with
  | nil => exact h'
  | cons head _ ih =>
    cases h' with
    | cons head' tail' =>
      have rest := ih (fun a member => trans a (List.mem_cons_of_mem _ member)) tail'
      exact .cons (trans _ List.mem_cons_self _ _ head head') rest

theorem forall₂_symm {α : Type} {R : α → α → Prop} {as bs : List α} (symm : ∀ a ∈ as, ∀ b, R a b → R b a)
    (h : List.Forall₂ R as bs) : List.Forall₂ R bs as := by
  have both : List.Forall₂ (fun a b => (∀ b, R a b → R b a) ∧ R a b) as bs :=
    (List.forall₂_and_left as bs).2 ⟨symm, h⟩
  have turned : List.Forall₂ (flip R) as bs := both.imp fun a b related => related.1 b related.2
  exact turned.flip

/-! ### Regions -/

/-- What holds of a region if it holds of its members holds of all regions. -/
theorem byMembers {P : Region → Prop} (step : ∀ r, (∀ m ∈ r.members, P m) → P r) (r : Region) : P r :=
  (wellFounded_of_shrinks sizeOf_lt_of_mem_members).induction r step

/-- Regions are equal when they are of one kind and agree in all that regions are made of. -/
theorem same_iff {a b : Region} :
    a.same b = true ↔
      a.kind = b.kind ∧ a.sys? = b.sys? ∧
        List.Forall₂ (fun p q => samePoint p q = true) a.points b.points ∧
        sameLength a.radius b.radius = true ∧ sameLength a.width b.width = true ∧
        sameLength a.height b.height = true ∧
        List.Forall₂ (fun r r' => same r r' = true) a.members b.members := by
  have ops (op op' : Combination) : op.kind = op'.kind ↔ op = op' :=
    ⟨Combination.kind_inj, congrArg Combination.kind⟩
  cases a <;> cases b <;>
    simp [same, kind, sys?, points, radius, width, height, members, sameLength_refl, samePoints_iff,
      sameAll_iff, and_assoc, ops]

/-- The coordinates of a region and of those it is made of are numbers. -/
def IsNumbered (r : Region) : Prop :=
  ∀ part ∈ r.walk, ∀ p ∈ part.points, p.x.isNaN = false ∧ p.y.isNaN = false

theorem isNumbered_iff {r : Region} :
    r.IsNumbered ↔ (∀ p ∈ r.points, p.x.isNaN = false ∧ p.y.isNaN = false) ∧ ∀ m ∈ r.members, m.IsNumbered := by
  unfold IsNumbered
  rw [walk_eq, List.forall_mem_append, List.forall_mem_singleton, List.forall_mem_flatMap]

theorem same_self_iff (r : Region) : r.same r = true ↔ r.IsNumbered := by
  induction r using byMembers with
  | step r ih =>
    have coordinates (p : Point) : samePoint p p = true ↔ p.x.isNaN = false ∧ p.y.isNaN = false := by
      rw [samePoint_iff, beq_self_iff, beq_self_iff]
    have nested : (∀ m ∈ r.members, same m m = true) ↔ ∀ m ∈ r.members, m.IsNumbered :=
      forall₂_congr ih
    rw [same_iff, isNumbered_iff, List.forall₂_same, List.forall₂_same, nested]
    simp only [coordinates, sameLength_refl, true_and]

theorem same_symm (a b : Region) (h : a.same b = true) : b.same a = true := by
  induction a using byMembers generalizing b with
  | step a ih =>
    rw [same_iff] at h ⊢
    obtain ⟨kinds, systems, points, radii, widths, heights, members⟩ := h
    have turned (p q : Point) (h : samePoint p q = true) : samePoint q p = true := by
      rw [samePoint_iff] at h ⊢
      exact ⟨beq_symm h.1, beq_symm h.2⟩
    exact ⟨kinds.symm, systems.symm, forall₂_symm (fun p _ q => turned p q) points, sameLength_symm radii,
      sameLength_symm widths, sameLength_symm heights, forall₂_symm ih members⟩

theorem same_trans (a b c : Region) (h : a.same b = true) (h' : b.same c = true) : a.same c = true := by
  induction a using byMembers generalizing b c with
  | step a ih =>
    rw [same_iff] at h h' ⊢
    obtain ⟨kinds, systems, points, radii, widths, heights, members⟩ := h
    obtain ⟨kinds', systems', points', radii', widths', heights', members'⟩ := h'
    have joined (p q s : Point) (h : samePoint p q = true) (h' : samePoint q s = true) : samePoint p s = true := by
      rw [samePoint_iff] at h h' ⊢
      exact ⟨beq_trans h.1 h'.1, beq_trans h.2 h'.2⟩
    exact ⟨kinds.trans kinds', systems.trans systems', forall₂_trans (fun p _ => joined p) points points',
      sameLength_trans radii radii', sameLength_trans widths widths', sameLength_trans heights heights',
      forall₂_trans ih members members'⟩

/-- Equality of regions is symmetric and transitive, and a region equals itself exactly if its coordinates
are numbers, at any depth; its lengths need not be. -/
theorem same_numbered (a b c : Region) :
    (a.same a = true ↔ a.IsNumbered) ∧
      (a.same b = true → b.same a = true) ∧
      (a.same b = true → b.same c = true → a.same c = true) :=
  ⟨same_self_iff a, same_symm a b, same_trans a b c⟩

theorem same_numbered_zeros :
    let zero : Float := Float.ofBits 0
    let minus : Float := Float.ofBits 0x8000000000000000
    let a := Region.not (.circle .default ⟨zero, minus⟩ Decimal.notANumber)
    let b := Region.not (.circle .default ⟨minus, zero⟩ Decimal.notANumber)
    let c := Region.not (.circle .default ⟨zero, zero⟩ Decimal.notANumber)
    a.same b = true ∧ b.same c = true ∧ b.same a = true ∧ a.same c = true ∧ a.IsNumbered := by
  intro zero minus a b c
  have ab : a.same b = true := by decide +kernel
  have bc : b.same c = true := by decide +kernel
  obtain ⟨numbered, symm, trans⟩ := same_numbered a b c
  have ba := symm ab
  have aa : a.same a = true := (same_numbered a b a).2.2 ab ba
  exact ⟨ab, bc, ba, trans ab bc, numbered.1 aa⟩

/-- A position of which a coordinate is no number does not equal itself. -/
theorem same_noNumber : ¬∀ r : Region, r.same r = true := by
  intro refl
  have self := refl (.position .default ⟨Decimal.notANumber, Float.ofBits 0x3FF0000000000000⟩)
  exact absurd self (by decide +kernel)

end Region

end SkyQuery
