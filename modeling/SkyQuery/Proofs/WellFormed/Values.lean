import SkyQuery.Proofs.WellFormed.Calls

/-!
# Values are well formed

Each level of the grammar of values yields expressions that bind at least as tightly as the level
demands. `value_yields` is the main statement.
-/

namespace SkyQuery.Grammar

open Parse

variable {v : Version}

/-- A well-formed expression that binds at least as tightly as `r`. -/
def Binds (v : Version) (r : Nat) (o : Operand) : Prop := o.WellFormed v ∧ r ≤ o.rank

theorem Binds.mono {r r' : Nat} {o : Operand} (h : Binds v r o) (le : r' ≤ r) : Binds v r' o :=
  ⟨h.1, Nat.le_trans le h.2⟩

/-! ### Columns and literals -/

theorem columnRef_wellFormed {parts : List Identifier} {ref : ColumnRef}
    (h : ColumnRef.ofParts? parts = some ref) (hparts : ∀ i ∈ parts, i.WellFormed v) :
    ref.WellFormed v := by
  unfold ColumnRef.ofParts? at h
  split at h <;> cases h <;>
    simp_all [ColumnRef.WellFormed, TableName.WellFormed]

theorem columnRef_yields :
    Yields v columnRef fun o => Binds v 4 o ∧ o.asColumn?.isSome := by
  refine yields_place.bind fun start _ => (yields_dotted 3).bind fun parts hparts => ?_
  cases h : ColumnRef.ofParts? parts with
  | none =>
    simp only
    exact yields_unexpected
  | some ref =>
    simp only
    refine (yields_spanFrom start).bind fun _ _ => yields_pure ⟨⟨.intro ?_ ?_, Nat.le_refl _⟩, rfl⟩
    · exact columnRef_wellFormed h hparts.2
    · simp [Operand.children]

theorem literalsFor_yields (n : Nat) : Yields v (literalsFor n) fun _ => True := by
  induction n with
  | zero => exact yields_pure trivial
  | succ n ih =>
    refine yields_current.bind fun _ _ => .ite (fun _ => ?_) fun _ => yields_pure trivial
    exact yields_advance.bind fun _ _ => ih.bind fun _ _ => yields_pure trivial

theorem leaf_wellFormed {o : Operand} (rule : o.Rule v) (leaf : o.children = []) :
    o.WellFormed v := .intro rule (by simp [leaf])

/-! ### Primaries -/

theorem primary_yields {value : Parse Operand} (hv : Yields v value (Operand.WellFormed v)) :
    Yields v (primary (call value) value) (Binds v 4) := by
  intro s o t hs h
  unfold primary at h
  rw [place_bind, current_bind] at h
  split at h
  · rename_i number
    refine (yields_advance.bind fun _ _ => (yields_spanFrom _).bind fun _ _ =>
      yields_pure ⟨leaf_wellFormed ?_ rfl, Nat.le_refl _⟩) _ _ _ hs h
    exact ⟨_, number, hs.current.isNumber number⟩
  split at h
  · exact ((Yields.bounded literalsFor_yields).bind fun _ _ => (yields_spanFrom _).bind fun _ _ =>
      yields_pure ⟨leaf_wellFormed trivial rfl, Nat.le_refl _⟩) _ _ _ hs h
  split at h
  · refine (yields_advance.bind fun _ _ => hv.bind fun inner hinner =>
      (yields_expect _).bind fun _ _ => (yields_spanFrom _).bind fun _ _ =>
        yields_pure ⟨.intro trivial ?_, Nat.le_refl _⟩) _ _ _ hs h
    simpa [Operand.children] using hinner
  · obtain ⟨starts, r, hstarts, h⟩ := bind_ok h
    cases hstarts
    split at h
    · rename_i here
      have called : StartsCall v s.current := by
        simp only [Bool.or_eq_true, Bool.and_eq_true, beq_iff_eq] at here
        exact here.imp_right And.left
      exact (call_yields hv hs called h).imp_right fun ho => ⟨ho.1, Nat.le_of_eq ho.2.symm⟩
    · rw [atIdentifier_bind] at h
      split at h
      · exact (columnRef_yields _ _ _ hs h).imp_right And.left
      · exact ((yields_expecting _).bind fun _ _ => yields_unexpected) _ _ _ hs h

/-! ### Operators -/

variable {base : Parse Operand}

theorem signedFor_yields (hbase : Yields v base (Binds v 4)) (n : Nat) :
    Yields v (signedFor base n) (Binds v 3) := by
  induction n with
  | zero => exact hbase.mono fun o ho => ho.mono (by decide)
  | succ n ih =>
    refine yields_place.bind fun start _ => (yields_eat _).bind fun _ _ => .ite (fun _ => ?_) fun _ => ?_
    · refine ih.bind fun inner hinner => (yields_checkNumeric inner).bind fun _ numeric =>
        (yields_spanFrom start).bind fun _ _ => yields_pure ⟨.intro ⟨numeric, hinner.2⟩ ?_, Nat.le_refl _⟩
      simpa [Operand.children] using hinner.1
    refine (yields_eat _).bind fun _ _ => .ite (fun _ => ?_) fun _ => ?_
    · exact ih.bind fun inner hinner => (yields_checkNumeric inner).bind fun _ _ => yields_pure hinner
    · exact hbase.mono fun o ho => ho.mono (by decide)

theorem operator_yields (first second : Kind × ArithOp) :
    Yields v (arithmetic.operator first second) fun r => ∀ op ∈ r, op = first.2 ∨ op = second.2 := by
  refine (yields_sees _).bind fun _ _ => .ite (fun _ => yields_pure (by simp)) fun _ => ?_
  exact (yields_sees _).bind fun _ _ => .ite (fun _ => yields_pure (by simp)) fun _ =>
    yields_pure (by simp)

/-- Operators of rank `r` between expressions that bind tighter, grouped to the left. -/
theorem arithmetic_yields (first second : Kind × ArithOp) {item : Parse Operand} {r : Nat}
    (hfirst : first.2.rank = r) (hsecond : second.2.rank = r) (hitem : Yields v item (Binds v (r + 1))) :
    Yields v (arithmetic first second item) (Binds v r) := by
  refine yields_place.bind fun start _ => hitem.bind fun left hleft => ?_
  refine .iterate (hleft.mono (Nat.le_succ r)) fun left hleft => ?_
  refine (operator_yields first second).bind fun found hfound => ?_
  cases found with
  | none => exact yields_pure (by simp)
  | some op =>
    have rank : op.rank = r := by
      rcases hfound op rfl with rfl | rfl
      · exact hfirst
      · exact hsecond
    refine yields_advance.bind fun _ _ => hitem.bind fun right hright =>
      (yields_checkNumeric left).bind fun _ leftNumeric =>
        (yields_checkNumeric right).bind fun _ rightNumeric =>
          (yields_spanFrom start).bind fun span _ => yields_pure fun o ho => ?_
    cases ho
    refine ⟨.intro ⟨leftNumeric, rightNumeric, ?_, ?_⟩ ?_, Nat.le_of_eq rank.symm⟩
    · rw [rank]; exact hleft.2
    · rw [rank]; exact hright.2
    · simpa [Operand.children] using ⟨hleft.1, hright.1⟩

theorem additive_yields (hbase : Yields v base (Binds v 4)) :
    Yields v (additive base) (Binds v 1) := by
  have hsigned : Yields v (signed base) (Binds v 3) := .bounded (signedFor_yields hbase)
  have products := arithmetic_yields (.star, .mul) (.slash, .div) rfl rfl hsigned
  exact arithmetic_yields _ _ rfl rfl products

theorem concatenation_yields (hbase : Yields v base (Binds v 4)) :
    Yields v (concatenation base) (Operand.WellFormed v) := by
  have part := additive_yields hbase
  refine yields_place.bind fun start _ => part.bind fun first hfirst => ?_
  intro s o t hs h
  obtain ⟨more, r, hmore, h⟩ := bind_ok h
  cases hmore
  split at h
  · rename_i here
    obtain ⟨_, r, hstring, h⟩ := bind_ok h
    obtain ⟨rfl, string⟩ := checkString_ok hstring
    obtain ⟨others, r, hothers, h⟩ := bind_ok h
    have nonempty := followers_ne_nil (by exact eq_of_beq here) hothers
    have parts : Yields v (do
        let part ← additive base
        checkString part
        return part) fun o => Binds v 1 o ∧ o.isString :=
      part.bind fun o ho => (yields_checkString o).bind fun _ string => yields_pure ⟨ho, string⟩
    obtain ⟨hr, all⟩ := parts.followers _ _ _ (State.Lexed.expecting hs) hothers
    cases h
    have all : ∀ o ∈ first :: others, Binds v 1 o ∧ o.isString :=
      List.forall_mem_cons.2 ⟨⟨hfirst, string⟩, all⟩
    refine ⟨hr, .intro ⟨?_, fun o ho => ⟨(all o ho).2, (all o ho).1.2⟩⟩ fun o ho => (all o ho).1.1⟩
    have := List.length_pos_iff.2 nonempty
    simp only [List.length_cons]
    omega
  · cases h
    exact ⟨hs, hfirst.1⟩

theorem valueFor_yields (n : Nat) : Yields v (valueFor n) (Operand.WellFormed v) := by
  induction n with
  | zero => exact yields_unexpected
  | succ n ih => exact concatenation_yields (primary_yields ih)

theorem value_yields : Yields v value (Operand.WellFormed v) := .bounded valueFor_yields

end SkyQuery.Grammar
