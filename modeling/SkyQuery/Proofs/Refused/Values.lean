import SkyQuery.Proofs.Located.Values
import SkyQuery.Proofs.Refused.Steps

/-!
# What is wrong with values

`blames_value`: where no value can be read, the complaint is about some tokens of the text. A call with a
wrong number of arguments is blamed as far as it was read, an operand of a wrong type where it stands.
-/

namespace SkyQuery.Grammar

open Parse

variable {v : Version} {tokens : List Token} {i j k : Nat} {α : Type} {o : Operand} {os : List Operand}

/-! ### Checks -/

theorem blames_checkNumeric (range : IsRange tokens o.span) : Blames v tokens k (checkNumeric o) :=
  .ite (fun _ => blames_pure ()) fun _ => blames_failAt rfl range

theorem blames_checkString (range : IsRange tokens o.span) : Blames v tokens k (checkString o) :=
  .ite (fun _ => blames_pure ()) fun _ => blames_failAt rfl range

theorem blames_checkGeometry (range : IsRange tokens o.span) : Blames v tokens k (checkGeometry o) :=
  .ite (fun _ => blames_pure ()) fun _ => blames_failAt rfl range

theorem blames_checkAll {check : Operand → Parse Unit} (looks : ∀ o, Looks v (check o))
    (h : ∀ o k, IsRange tokens o.span → Blames v tokens k (check o)) (ranges : ∀ o ∈ os, IsRange tokens o.span) (k : Nat) :
    Blames v tokens k (checkAll check os) := by
  induction os generalizing k with
  | nil => exact blames_pure ()
  | cons o os ih =>
    obtain ⟨range, ranges⟩ := List.forall_mem_cons.1 ranges
    exact (h o k range).step (looks o).moves fun j _ _ => ih ranges j

theorem blames_numbers (ranges : ∀ o ∈ os, IsRange tokens o.span) (k : Nat) : Blames v tokens k (checkAll checkNumeric os) :=
  blames_checkAll looks_checkNumeric (fun _ _ => blames_checkNumeric) ranges k

theorem blames_geometries (ranges : ∀ o ∈ os, IsRange tokens o.span) (k : Nat) :
    Blames v tokens k (checkAll checkGeometry os) :=
  blames_checkAll looks_checkGeometry (fun _ _ => blames_checkGeometry) ranges k

theorem blames_checkShape (form : ShapeForm) (ranges : ∀ o ∈ os, IsRange tokens o.span) (k : Nat) :
    Blames v tokens k (checkShape form os) := by
  cases form with
  | numbers => exact blames_numbers ranges k
  | points => exact blames_geometries ranges k
  | centred =>
    cases os with
    | nil => exact blames_pure ()
    | cons centre lengths =>
      obtain ⟨range, ranges⟩ := List.forall_mem_cons.1 ranges
      exact (blames_checkGeometry range).step (looks_checkGeometry centre).moves fun j _ _ => blames_numbers ranges j

/-- A call of which something was read is blamed that far. -/
theorem blames_wrongArity {name expected : String} {given : Nat} (ik : i < k) :
    Blames v tokens k (wrongArity name expected given (startOf tokens i) : Parse α) :=
  blames_failSince rfl ik

theorem blames_checkGeometryArgs (fn : GeometryFn) (ranges : ∀ o ∈ os, IsRange tokens o.span) (ik : i < k) :
    Blames v tokens k (checkGeometryArgs fn os (startOf tokens i)) := by
  unfold checkGeometryArgs
  cases fn with
  | contains | intersects => exact .ite (fun _ => blames_geometries ranges k) fun _ => blames_wrongArity ik
  | distance =>
    refine .version fun _ => .ite (fun _ => blames_geometries ranges k) fun _ => ?_
    exact .ite (fun _ => blames_numbers ranges k) fun _ => blames_wrongArity ik
  | region =>
    refine .ite (fun _ => ?_) fun _ => blames_wrongArity ik
    exact blames_checkAll looks_checkString (fun _ _ => blames_checkString) ranges k
  | _ => exact .ite (fun _ => blames_geometries ranges k) fun _ => blames_wrongArity ik

/-! ### Calls -/

section Calls

variable {n : Nat} (h : ∀ k, Blames v tokens k (valueFor n))

theorem ends_arguments (n k : Nat) :
    Ends v tokens k (arguments (valueFor n)) fun j args => k < j ∧ ∀ a ∈ args, IsRange tokens a.span :=
  (rereads_arguments (rereads_valueFor n 0)).passes.and
    ((arguments_located (valueFor_located n) k).mono fun _ _ _ found a ha => isRange_of_within (found a ha))

theorem moves_valueFor (n : Nat) : Moves v (valueFor n) := (rereads_valueFor n 0).moves

include h

theorem blames_arguments (k : Nat) : Blames v tokens k (arguments (valueFor n)) := by
  refine .expect (by nofun) fun a _ _ => .eatIf (fun _ _ => blames_pure []) fun b _ => ?_
  refine (blames_sepBy (moves_valueFor n) h b).step ((rereads_valueFor n 0).sepBy (by nofun)).moves fun c args _ => ?_
  exact .expect (by nofun) fun _ _ _ => blames_pure args

theorem blames_mathCall (fn : MathFn) (ik : i ≤ k) : Blames v tokens k (mathCall (valueFor n) fn (startOf tokens i)) := by
  refine (blames_arguments h k).bind (ends_arguments n k) fun j args _ ⟨kj, ranges⟩ => ?_
  refine .ite (fun _ => blames_wrongArity (Nat.lt_of_le_of_lt ik kj)) fun _ => ?_
  exact (blames_numbers ranges j).placed

theorem blames_argument (fn : AggregateFn) (distinct : Bool) (k : Nat) :
    Blames v tokens k (aggregateCall.argument (valueFor n) fn distinct) := by
  have given (k : Nat) : Blames v tokens k (do
      let arg ← valueFor n
      if fn == .avg || fn == .sum then checkNumeric arg
      return some arg) := by
    refine (h k).bind (valueFor_located n k) fun j arg _ harg => .ite (fun _ => ?_) fun _ => blames_pure (some arg)
    exact (blames_checkNumeric (isRange_of_within harg)).map
  unfold aggregateCall.argument
  exact .ite (fun _ => .eatIf (fun _ _ => blames_pure none) fun j _ => given j) fun _ => given k

theorem blames_aggregateCall (fn : AggregateFn) (start : Place) (k : Nat) :
    Blames v tokens k (aggregateCall (valueFor n) fn start) := by
  refine .expect (by nofun) fun a _ _ => Blames.step ?_ rereads_quantifier.moves fun b distinct _ => ?_
  · exact .eatIf (fun _ _ => blames_pure true) fun _ _ => (blames_eat _).map
  refine (blames_argument h fn distinct b).step (rereads_argument (rereads_valueFor n 0) fn distinct).moves fun c arg _ => ?_
  exact .expect (by nofun) fun _ _ _ => blames_placed

omit h in
theorem blames_typeLength (k : Nat) : Blames v tokens k typeLength := by
  refine .eatIf (fun a _ => .place (.expect (by nofun) fun j t aj => ?_)) fun _ _ => blames_pure none
  dsimp only
  cases digitsBelow? (Nat.pow 2 32) t.text with
  | some size => exact .expect (by nofun) fun _ _ _ => blames_pure (some size)
  | none => exact blames_failSince rfl aj

omit h in
theorem Blames.eatWordIf {word description : String} {q r : Parse α} (hit : ∀ k, Blames v tokens k q)
    (miss : ∀ k, Blames v tokens k r) (k : Nat) :
    Blames v tokens k (eatWord word description >>= fun eaten => if eaten then q else r) := by
  have looks : Looks v (seesWord word description) := fun s a t h => by cases h; exact ⟨_, rfl⟩
  rw [eatWord, take_bind]
  refine .look (fun _ _ he => by cases he) looks fun _ => .ite (fun _ => ?_) fun _ => ?_
  · exact .advance fun j _ _ => .ite (fun _ => hit j) fun _ => miss j
  · exact .ite (fun _ => hit k) fun _ => miss k

omit h in
theorem blames_castType (k : Nat) : Blames v tokens k castType := by
  have type (t : CastType) (k : Nat) : Blames v tokens k (pure t) := blames_pure t
  have sized (make : Option Nat → CastType) (k : Nat) : Blames v tokens k (do return make (← typeLength)) :=
    (blames_typeLength k).map
  refine .eatWordIf (type _) (.eatWordIf (type _) (.eatWordIf (type _) (.eatWordIf (type _) ?_))) k
  refine .eatWordIf (.eatWordIf (type _) fun _ => blames_unexpected) (.eatWordIf (sized .char) ?_)
  exact .eatWordIf (sized .varChar) (.eatWordIf (type _) fun _ => blames_unexpected)

theorem blames_castCall (start : Place) (k : Nat) : Blames v tokens k (castCall (valueFor n) start) := by
  refine .expect (by nofun) fun a _ _ => (h a).step (moves_valueFor n) fun b arg _ => .expect (by nofun) fun c _ _ => ?_
  refine (blames_castType c).step rereads_castType.moves fun d target _ => ?_
  exact .expect (by nofun) fun _ _ _ => blames_placed

omit h in
theorem blames_shape {fn : GeometryFn} (ranges : ∀ o ∈ os, IsRange tokens o.span) (ik : i < k) :
    Blames v tokens k (shape fn os (startOf tokens i)) := by
  have fits (sys : Option Operand) (coordinates : List Operand) (k : Nat) (ik : i < k)
      (ranges : ∀ o ∈ coordinates, IsRange tokens o.span) :
      Blames v tokens k (fittedShape v fn sys coordinates os.length (startOf tokens i)) := by
    unfold fittedShape
    cases shapeForm? v fn coordinates.length ((coordinates.head?.map isPointLike).getD false) with
    | none => exact blames_wrongArity ik
    | some form => exact (blames_checkShape form ranges k).placed
  change Blames v tokens k (if v == .v20 || startsWithCoordSys fn os then _ else fittedShape v fn none os _ _ : Parse Operand)
  refine .ite (fun _ => ?_) fun _ => fits none os k ik ranges
  cases os with
  | nil => exact blames_wrongArity ik
  | cons sys coordinates =>
    obtain ⟨range, ranges⟩ := List.forall_mem_cons.1 ranges
    refine (blames_checkString range).step (looks_checkString sys).moves fun j _ kj => ?_
    exact fits (some sys) coordinates j (Nat.lt_of_lt_of_le ik kj) ranges

theorem blames_geometryCall (fn : GeometryFn) (ik : i ≤ k) :
    Blames v tokens k (geometryCall (valueFor n) fn (startOf tokens i)) := by
  refine (blames_arguments h k).bind (ends_arguments n k) fun j args _ ⟨kj, ranges⟩ => ?_
  have ij : i < j := Nat.lt_of_le_of_lt ik kj
  refine .ite (fun _ => blames_shape ranges ij) fun _ => ?_
  exact (blames_checkGeometryArgs fn ranges ij).placed

theorem blames_stringArgument (name : String) (ik : i ≤ k) :
    Blames v tokens k (stringArgument (valueFor n) name (startOf tokens i)) := by
  refine (blames_arguments h k).bind (ends_arguments n k) fun j args _ hargs => ?_
  obtain ⟨kj, ranges⟩ := hargs
  split
  · rename_i arg
    exact (blames_checkString (ranges arg List.mem_cons_self)).map
  · exact blames_wrongArity (Nat.lt_of_le_of_lt ik kj)

theorem blames_inUnitCall (ik : i ≤ k) : Blames v tokens k (inUnitCall (valueFor n) (startOf tokens i)) := by
  refine (blames_arguments h k).bind (ends_arguments n k) fun j args _ hargs => ?_
  obtain ⟨kj, ranges⟩ := hargs
  split
  · rename_i arg unit
    obtain ⟨first, others⟩ := List.forall_mem_cons.1 ranges
    refine (blames_checkNumeric first).step (looks_checkNumeric arg).moves fun l _ _ => ?_
    exact (blames_checkString (others unit List.mem_cons_self)).placed
  · exact blames_wrongArity (Nat.lt_of_le_of_lt ik kj)

theorem blames_coalesceCall (ik : i ≤ k) : Blames v tokens k (coalesceCall (valueFor n) (startOf tokens i)) := by
  refine (blames_arguments h k).bind (ends_arguments n k) fun j args _ hargs => ?_
  have kj := hargs.1
  split
  · exact blames_wrongArity (Nat.lt_of_le_of_lt ik kj)
  · exact blames_placed

theorem blames_call (k : Nat) : Blames v tokens k (call (valueFor n)) := by
  refine .place (.advance fun j name kj => ?_)
  split
  · exact blames_aggregateCall h _ _ j
  · exact blames_mathCall h _ kj
  · exact blames_geometryCall h _ kj
  · exact (blames_stringArgument h "LOWER" kj).placed
  · exact (blames_stringArgument h "UPPER" kj).placed
  · exact blames_coalesceCall h kj
  · exact blames_inUnitCall h kj
  · exact blames_castCall h _ j
  · exact (blames_arguments h j).placed

end Calls

/-! ### Primaries -/

theorem blames_columnRef (k : Nat) : Blames v tokens k columnRef := by
  refine .place ((blames_dotted 3 k).step (rereads_dotted 3).moves fun j parts _ => ?_)
  cases ColumnRef.ofParts? parts with
  | none => exact blames_unexpected
  | some ref => exact blames_placed

theorem blames_literalsFor (n k : Nat) : Blames v tokens k (literalsFor n) := by
  induction n generalizing k with
  | zero => exact blames_pure ""
  | succ n ih =>
    refine .current fun _ => .ite (fun _ => .advance fun j t _ => ?_) fun _ => blames_pure ""
    exact (ih j).map

section Values

variable {n : Nat} (h : ∀ k, Blames v tokens k (valueFor n))

include h

theorem blames_primary (k : Nat) : Blames v tokens k (primaryFor n) := by
  refine .place (.current fun next => .ite (fun _ => .advance fun _ _ _ => blames_placed) fun _ => ?_)
  refine .ite (fun _ => ?_) fun _ => .ite (fun _ => .advance fun a _ _ => ?_) fun _ => ?_
  · exact Blames.placed (.bounded fun m => blames_literalsFor m k)
  · exact (h a).step (moves_valueFor n) fun b inner _ => .expect (by nofun) fun _ _ _ => blames_placed
  refine .seesCall fun _ => .ite (fun _ => blames_call h k) fun _ => .atIdentifier fun _ => ?_
  exact .ite (fun _ => blames_columnRef k) fun _ => .expecting blames_unexpected

theorem blames_signedFor (m k : Nat) : Blames v tokens k (signedFor (primaryFor n) m) := by
  induction m generalizing k with
  | zero => exact blames_primary h k
  | succ m ih =>
    have signed (j : Nat) {rest : Operand → Parse Operand} (never : ∀ o s e, rest o v s ≠ .error e) :
        Blames v tokens j (do
          let inner ← signedFor (primaryFor n) m
          checkNumeric inner
          rest inner) := by
      refine (ih j).bind (signedFor_located n (valueFor_located n) m j) fun l inner _ hinner => ?_
      exact (blames_checkNumeric (isRange_of_within hinner)).finish fun _ => never inner
    refine .place (.eatIf (fun j _ => signed j fun _ _ _ he => by cases he) fun j _ => ?_)
    exact .eatIf (fun l _ => signed l fun _ _ _ he => by cases he) fun l _ => blames_primary h l

omit h in
/-- What stands to the left of an operator was read as a whole, and so far. -/
theorem blames_arithmetic {first second : Kind × ArithOp} {item : Parse Operand}
    (located : Locates v tokens .operand item) (hitem : ∀ k, Blames v tokens k item) (k : Nat) :
    Blames v tokens k (arithmetic first second item) := by
  have operator (k : Nat) : Blames v tokens k (arithmetic.operator first second) :=
    .sees fun _ => .ite (fun _ => blames_pure _) fun _ => .sees fun _ => .ite (fun _ => blames_pure _) fun _ => blames_pure none
  have item (k : Nat) : Ends v tokens k item fun j o => k < j ∧ IsRange tokens o.span :=
    (located k).mono fun _ _ _ ho => ⟨lt_of_within ho, isRange_of_within ho⟩
  refine .place ((hitem k).bind (item k) fun a left _ hleft => ?_)
  refine .iterate (Q := fun j o => k < j ∧ IsRange tokens o.span) hleft (fun j left _ hleft => ?_) fun j left _ hleft => ?_
  · refine (moves_operator first second).bind fun b found jb => ?_
    cases found with
    | none => exact ends_pure (by simp)
    | some op =>
      refine moves_advance.bind fun c _ bc => (item c).inside.bind fun d right cd hright => ?_
      refine (looks_checkNumeric left).bind fun _ => (looks_checkNumeric right).bind fun _ => .spanFrom (ends_pure fun o made => ?_)
      obtain rfl := Option.some.inj made
      have kd : k < d := by omega
      exact ⟨kd, isRange_of_lt kd hright.1⟩
  · refine (operator j).step (moves_operator first second) fun b found _ => ?_
    cases found with
    | none => exact blames_pure none
    | some op =>
      refine .advance fun c _ _ => (hitem c).bind (item c) fun d right _ hright => ?_
      refine (blames_checkNumeric hleft.2).step (looks_checkNumeric left).moves fun l _ _ => ?_
      exact (blames_checkNumeric hright.2).placed

theorem blames_additive (k : Nat) : Blames v tokens k (additive (primaryFor n)) := by
  have signs (k : Nat) : Blames v tokens k (signed (primaryFor n)) := .bounded fun m => blames_signedFor h m k
  exact blames_arithmetic (product_located (valueFor_located n))
    (blames_arithmetic (signed_located (valueFor_located n)) signs) k

theorem blames_concatenation (k : Nat) : Blames v tokens k (concatenation (primaryFor n)) := by
  have located {tokens : List Token} : Locates v tokens .operand (additive (primaryFor n)) :=
    additive_located (valueFor_located n)
  have part (k : Nat) : Blames v tokens k (do
      let part ← additive (primaryFor n)
      checkString part
      return part) :=
    (blames_additive h k).bind (located k) fun j o _ ho => (blames_checkString (isRange_of_within ho)).map
  have moves : Moves v (do
      let part ← additive (primaryFor n)
      checkString part
      return part) := by
    refine (moves_of_ends fun _ => located).seq fun o => ?_
    exact (looks_checkString o).moves.seq fun _ => (looks_pure o).moves
  refine .place ((blames_additive h k).bind (located k) fun j first _ hfirst => .sees fun _ => ?_)
  refine .ite (fun _ => ?_) fun _ => blames_pure first
  refine (blames_checkString (isRange_of_within hfirst)).step (looks_checkString first).moves fun l _ _ => ?_
  exact (blames_followers moves part l).placed

end Values

theorem blames_valueFor (n k : Nat) : Blames v tokens k (valueFor n) := by
  induction n generalizing k with
  | zero => exact blames_unexpected
  | succ n ih => exact blames_concatenation ih k

theorem blames_value (k : Nat) : Blames v tokens k Grammar.value := .bounded fun n => blames_valueFor n k

end SkyQuery.Grammar
