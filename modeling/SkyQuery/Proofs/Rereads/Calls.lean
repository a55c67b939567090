import SkyQuery.Proofs.Grammar.Rereads

/-!
# Calls are read again

Each reader of a call rereads what it reads, if the reader of its arguments does.
-/

namespace SkyQuery.Grammar

open Parse

variable {v : Version} {outer : Bool} {d : Nat} {value value' : Parse Operand} {start start' : Place}

/-- `value'` reads again what `value` reads, at other places, if it is given fewer than `d` words. -/
abbrev RereadsValue (outer : Bool) (v : Version) (d : Nat) (value value' : Parse Operand) : Prop :=
  Rereads outer v [] d (fun _ => True) value value' Operand.unplaced

theorem rereads_wrongArity {α β : Type} {name expected : String} {given : Nat} {taken : List Word} {K : α → Prop}
    {p' : Parse α} {view : α → β} : Rereads outer v taken d K (wrongArity name expected given start) p' view :=
  rereads_fail fun _ _ _ h => by cases h

/-- What a reader ends with: the span of all that was read. -/
theorem rereads_placed {α β : Type} {make make' : Option Span → α} {view : α → β}
    (same : ∀ span span', view (make' span') = view (make span)) :
    Rereads outer v [] d (fun _ => False) (do return make (← spanFrom start)) (do return make' (← spanFrom start')) view :=
  .spanFrom fun span span' => rereads_pure (same span span') id

theorem rereads_arguments (hv : RereadsValue outer v d value value') :
    Rereads outer v [] d (fun _ => True) (arguments value) (arguments value') (List.map Operand.unplaced) := by
  refine .expect (by nofun) (fun _ _ _ _ => .eat (by nofun) ?_ ?_ (Nat.le_succ d)) (Nat.le_succ d)
  · exact rereads_pure rfl id
  · refine (hv.sepBy (by nofun)).any.bind fun args args' same => ?_
    exact .expect (by nofun) (fun _ _ _ _ => rereads_pure same id) (Nat.le_succ d)

theorem rereads_mathCall (hv : RereadsValue outer v d value value') (fn : MathFn) :
    RereadsValue outer v d (mathCall value fn start) (mathCall value' fn start') := by
  refine (rereads_arguments hv).first (fun args args' same => ?_) (Nat.le_succ d)
  have same : Operand.SameAll args' args := same
  rw [same.length]
  refine .ite (fun _ => rereads_wrongArity) fun _ => ?_
  refine (rereads_checkAll (fun _ _ => rereads_checkNumeric) same).bindSame fun _ => rereads_placed fun _ _ => ?_
  exact congrArg (Operand.math fn · none) same.allUnplaced

theorem rereads_quantifier :
    Rereads outer v [] d (fun _ => False) aggregateCall.quantifier aggregateCall.quantifier id :=
  .eatIf (by nofun) (rereads_pure rfl id) (.eat (by nofun) (rereads_pure rfl id) (rereads_pure rfl id) (Nat.le_succ d))

theorem rereads_argument (hv : RereadsValue outer v d value value') (fn : AggregateFn) (distinct : Bool) :
    Rereads outer v [] d (fun _ => False) (aggregateCall.argument value fn distinct)
      (aggregateCall.argument value' fn distinct) (Option.map Operand.unplaced) := by
  have given : Rereads outer v [] d (fun _ => False) (do
      let arg ← value
      if fn == .avg || fn == .sum then checkNumeric arg
      return some arg) (do
      let arg ← value'
      if fn == .avg || fn == .sum then checkNumeric arg
      return some arg) (Option.map Operand.unplaced) := by
    refine hv.any.bind fun arg arg' same => ?_
    have found : Rereads outer v [] d (fun _ => False) (return some arg) (return some arg') (Option.map Operand.unplaced) :=
      rereads_pure (congrArg some same) id
    exact .ite (fun _ => (rereads_checkNumeric same).bindSame fun _ => found) fun _ => found
  unfold aggregateCall.argument
  refine .ite (fun _ => ?_) fun _ => given
  exact .eatIf (by nofun) (rereads_pure rfl id) given

theorem unplaced_aggregate {fn : AggregateFn} {distinct : Bool} {arg arg' : Option Operand} {span span' : Option Span}
    (same : arg'.map Operand.unplaced = arg.map Operand.unplaced) :
    (Operand.aggregate fn distinct arg' span').unplaced = (Operand.aggregate fn distinct arg span).unplaced := by
  cases arg <;> cases arg' <;> simp_all [Operand.unplaced]

theorem rereads_aggregateCall (hv : RereadsValue outer v d value value') (fn : AggregateFn) :
    RereadsValue outer v d (aggregateCall value fn start) (aggregateCall value' fn start') := by
  refine .expect (by nofun) (fun _ _ _ _ => rereads_quantifier.bindSame fun distinct => ?_) (Nat.le_succ d)
  refine (rereads_argument hv fn distinct).bind fun arg arg' same => ?_
  refine .expect (by nofun) (fun _ _ _ _ => rereads_placed fun _ _ => unplaced_aggregate same) (Nat.le_succ d)

theorem rereads_typeLength : Rereads outer v [] d (fun _ => False) typeLength typeLength id := by
  refine .eatIf (by nofun) (.place fun start start' => ?_) (rereads_pure rfl id)
  refine .expect (by nofun) (fun t t' _ word => ?_) (Nat.le_succ d)
  rw [show t'.text = t.text from congrArg Prod.snd word]
  dsimp only
  cases digitsBelow? (Nat.pow 2 32) t.text with
  | some n => exact .expect (by nofun) (fun _ _ _ _ => rereads_pure rfl id) (Nat.le_succ d)
  | none => exact .spanFrom fun _ _ => rereads_failAt

theorem Parse.Rereads.eatWordIf {α β : Type} {word description : String} {p p' q q' : Parse α} {K : α → Prop}
    {view : α → β} (hit : Rereads outer v [] d (fun _ => False) p p' view) (miss : Rereads outer v [] d K q q' view) :
    Rereads outer v [] d K (eatWord word description >>= fun eaten => if eaten then p else q)
      (eatWord word description >>= fun eaten => if eaten then p' else q') view := by
  rw [eatWord, take_bind, take_bind]
  refine .peek (peeks_seesWord word description) blind_seesWord (fun w here => ?_) miss
  rw [show _ = true from Bool.ne_false_iff.1 here]
  exact .advance (fun _ _ _ _ => hit) (Nat.le_succ d)

theorem rereads_castType : Rereads outer v [] d (fun _ => False) castType castType id := by
  have type (t : CastType) : Rereads outer v [] d (fun _ => False) (pure t) (pure t) id := rereads_pure rfl id
  refine .eatWordIf (type _) (.eatWordIf (type _) (.eatWordIf (type _) (.eatWordIf (type _) ?_)))
  refine .eatWordIf (.eatWordIf (type _) rereads_unexpected) (.eatWordIf ?_ (.eatWordIf ?_ ?_))
  · exact rereads_typeLength.bindSame fun _ => type _
  · exact rereads_typeLength.bindSame fun _ => type _
  · exact .eatWordIf (type _) rereads_unexpected

theorem rereads_castCall (hv : RereadsValue outer v d value value') :
    RereadsValue outer v d (castCall value start) (castCall value' start') := by
  refine .expect (by nofun) (fun _ _ _ _ => hv.any.bind fun arg arg' same => ?_) (Nat.le_succ d)
  refine .expect (by nofun) (fun _ _ _ _ => rereads_castType.bindSame fun target => ?_) (Nat.le_succ d)
  refine .expect (by nofun) (fun _ _ _ _ => rereads_placed fun _ _ => ?_) (Nat.le_succ d)
  exact congrArg (Operand.cast · target none) same

theorem rereads_checkShape (form : ShapeForm) {args args' : List Operand} (same : Operand.SameAll args' args) :
    Rereads outer v [] d (fun _ => False) (checkShape form args) (checkShape form args') id := by
  cases form with
  | numbers => exact rereads_checkAll (fun _ _ => rereads_checkNumeric) same
  | points => exact rereads_checkAll (fun _ _ => rereads_checkGeometry) same
  | centred =>
    cases args with
    | nil =>
      obtain rfl : args' = [] := List.map_eq_nil_iff.1 same
      exact rereads_pure rfl id
    | cons centre lengths =>
      cases args' with
      | nil => cases same
      | cons centre' lengths' =>
        obtain ⟨first, rest⟩ := same.of_cons
        exact (rereads_checkGeometry first).bindSame fun _ => rereads_checkAll (fun _ _ => rereads_checkNumeric) rest

theorem rereads_fittedShape (fn : GeometryFn) {sys sys' : Option Operand} {args args' : List Operand} (given : Nat)
    (sameSys : sys'.map Operand.unplaced = sys.map Operand.unplaced) (same : Operand.SameAll args' args) :
    Rereads outer v [] d (fun _ => False) (fittedShape v fn sys args given start) (fittedShape v fn sys' args' given start')
      Operand.unplaced := by
  unfold fittedShape
  rw [same.length, same.pointFirst]
  cases shapeForm? v fn args.length ((args.head?.map isPointLike).getD false) with
  | none => exact rereads_wrongArity
  | some form =>
    refine (rereads_checkShape form same).bindSame fun _ => rereads_placed fun _ _ => ?_
    cases sys <;> cases sys' <;> simp_all [Operand.unplaced, same.allUnplaced]

theorem rereads_shape (fn : GeometryFn) {args args' : List Operand} (same : Operand.SameAll args' args) :
    Rereads outer v [] d (fun _ => False) (shape fn args start) (shape fn args' start') Operand.unplaced := by
  refine .version ?_
  have fits {sys sys' : Option Operand} {coordinates coordinates' : List Operand}
      (sameSys : sys'.map Operand.unplaced = sys.map Operand.unplaced)
      (sameCoordinates : Operand.SameAll coordinates' coordinates) :
      Rereads outer v [] d (fun _ => False) (fittedShape v fn sys coordinates args.length start)
        (fittedShape v fn sys' coordinates' args.length start') Operand.unplaced :=
    rereads_fittedShape fn args.length sameSys sameCoordinates
  rw [same.startsWithCoordSys fn, same.length]
  refine .ite (fun _ => ?_) fun _ => fits rfl same
  cases args with
  | nil => exact rereads_wrongArity
  | cons sys coordinates =>
    cases args' with
    | nil => cases same
    | cons sys' coordinates' =>
      obtain ⟨first, rest⟩ := same.of_cons
      exact (rereads_checkString first).bindSame fun _ => fits (congrArg some first) rest

theorem rereads_checkGeometryArgs (fn : GeometryFn) {args args' : List Operand} (same : Operand.SameAll args' args) :
    Rereads outer v [] d (fun _ => False) (checkGeometryArgs fn args start) (checkGeometryArgs fn args' start') id := by
  have points : Rereads outer v [] d (fun _ => False) (checkAll checkGeometry args) (checkAll checkGeometry args') id :=
    rereads_checkAll (fun _ _ => rereads_checkGeometry) same
  have numbers : Rereads outer v [] d (fun _ => False) (checkAll checkNumeric args) (checkAll checkNumeric args') id :=
    rereads_checkAll (fun _ _ => rereads_checkNumeric) same
  have strings : Rereads outer v [] d (fun _ => False) (checkAll checkString args) (checkAll checkString args') id :=
    rereads_checkAll (fun _ _ => rereads_checkString) same
  unfold checkGeometryArgs
  rw [same.length]
  cases fn with
  | contains | intersects => exact .ite (fun _ => points) fun _ => rereads_wrongArity
  | distance =>
    refine .version (.ite (fun _ => points) fun _ => ?_)
    exact .ite (fun _ => numbers) fun _ => rereads_wrongArity
  | region => exact .ite (fun _ => strings) fun _ => rereads_wrongArity
  | _ => exact .ite (fun _ => points) fun _ => rereads_wrongArity

theorem rereads_geometryCall (hv : RereadsValue outer v d value value') (fn : GeometryFn) :
    RereadsValue outer v d (geometryCall value fn start) (geometryCall value' fn start') := by
  refine (rereads_arguments hv).first (fun args args' same => ?_) (Nat.le_succ d)
  refine .ite (fun _ => rereads_shape fn same) fun _ => ?_
  refine (rereads_checkGeometryArgs fn same).bindSame fun _ => rereads_placed fun _ _ => ?_
  exact congrArg (Operand.geometry fn none · none) (Operand.SameAll.allUnplaced same)

theorem rereads_stringArgument (hv : RereadsValue outer v d value value') (name : String) :
    RereadsValue outer v d (stringArgument value name start) (stringArgument value' name start') := by
  refine (rereads_arguments hv).first (fun args args' same => ?_) (Nat.le_succ d)
  have lengths : args'.length = args.length := Operand.SameAll.length same
  match args, args' with
  | [arg], [arg'] =>
    obtain ⟨first, -⟩ := Operand.SameAll.of_cons same
    exact (rereads_checkString first).bindSame fun _ => rereads_pure first id
  | [], _ | _ :: _ :: _, _ => exact rereads_wrongArity
  | [_], [] | [_], _ :: _ :: _ => cases lengths

theorem rereads_inUnitCall (hv : RereadsValue outer v d value value') :
    RereadsValue outer v d (inUnitCall value start) (inUnitCall value' start') := by
  refine (rereads_arguments hv).first (fun args args' same => ?_) (Nat.le_succ d)
  have lengths : args'.length = args.length := Operand.SameAll.length same
  match args, args' with
  | [arg, unit], [arg', unit'] =>
    obtain ⟨first, others⟩ := Operand.SameAll.of_cons same
    obtain ⟨second, -⟩ := others.of_cons
    refine (rereads_checkNumeric first).bindSame fun _ => (rereads_checkString second).bindSame fun _ => ?_
    refine rereads_placed fun _ _ => ?_
    simp only [Operand.unplaced, first.eq, second.eq]
  | [], _ | [_], _ | _ :: _ :: _ :: _, _ => exact rereads_wrongArity
  | [_, _], [] | [_, _], [_] | [_, _], _ :: _ :: _ :: _ => cases lengths

theorem rereads_coalesceCall (hv : RereadsValue outer v d value value') :
    RereadsValue outer v d (coalesceCall value start) (coalesceCall value' start') := by
  refine (rereads_arguments hv).first (fun args args' same => ?_) (Nat.le_succ d)
  match args, args' with
  | [], _ => exact rereads_wrongArity
  | _ :: _, [] => cases same
  | arg :: others, arg' :: others' =>
    exact rereads_placed fun _ _ => congrArg (Operand.coalesce · none) (Operand.SameAll.allUnplaced same)

/-- A call takes words after its first one. -/
theorem rereads_call (hv : RereadsValue outer v d value value') (w : Word) :
    Rereads outer v [w] (d + 1) (fun _ => True) (call value) (call value') Operand.unplaced := by
  refine .place fun start start' => .advance (fun t t' ht ht' => ?_) (Nat.le_refl _)
  have word : t'.word = t.word := ht'.trans ht.symm
  have called : RereadsValue outer v d (do
      let args ← arguments value
      return .userDefined (Identifier.ofText t.text) args (← spanFrom start)) (do
      let args ← arguments value'
      return .userDefined (Identifier.ofText t'.text) args (← spanFrom start')) := by
    rw [show t'.text = t.text from congrArg Prod.snd word]
    refine (rereads_arguments hv).first (fun args args' same => rereads_placed fun _ _ => ?_) (Nat.le_succ d)
    exact congrArg (Operand.userDefined _ · none) (Operand.SameAll.allUnplaced same)
  have string {make : Operand → Option Span → Operand} (name : String)
      (unplaced : ∀ o span, (make o span).unplaced = make o.unplaced none) : RereadsValue outer v d (do
      return make (← stringArgument value name start) (← spanFrom start)) (do
      return make (← stringArgument value' name start') (← spanFrom start')) := by
    refine (rereads_stringArgument hv name).first (fun arg arg' same => rereads_placed fun _ _ => ?_) (Nat.le_succ d)
    rw [unplaced, unplaced, same]
  rw [show t'.kind = t.kind from congrArg Prod.fst word]
  generalize t.kind = kind
  cases kind with
  | keyword word =>
    cases word with
    | aggregate fn => exact rereads_aggregateCall hv fn
    | math fn => exact rereads_mathCall hv fn
    | geometry fn => exact rereads_geometryCall hv fn
    | lowerKw => exact string "LOWER" fun _ _ => rfl
    | upperKw => exact string "UPPER" fun _ _ => rfl
    | coalesceKw => exact rereads_coalesceCall hv
    | inUnitKw => exact rereads_inUnitCall hv
    | castKw => exact rereads_castCall hv
    | _ => exact called
  | _ => exact called

end SkyQuery.Grammar
