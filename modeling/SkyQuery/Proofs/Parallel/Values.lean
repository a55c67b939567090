import SkyQuery.Proofs.Parallel.Steps
import SkyQuery.Proofs.Rereads.Values

/-!
# Values that are read alike

`parallel_value`: of two texts with the same words at other places both have the same value next, or both
have none for the same reason. The checks of types look at no place, and they point to an operand that
begins at matching places.
-/

namespace SkyQuery.Grammar

open Parse Matching

variable {m : Matching} {v : Version} {value : Parse Operand} {start start' : Place} {os os' : List Operand}

/-- Both texts have the same value, at matching places, or none. -/
abbrev ParallelValue (m : Matching) (v : Version) (p p' : Parse Operand) : Prop := Parallel m v m.Operands p p'

/-! ### Arguments -/

theorem parallel_wrongArity {α β : Type} {Q : α → β → Prop} {name expected : String} {given : Nat}
    (hstart : m.starts start start') :
    Parallel m v Q (wrongArity name expected given start : Parse α) (wrongArity name expected given start' : Parse β) :=
  .spanFrom hstart fun _ _ spans => parallel_failAt spans

theorem parallel_arguments (hv : ParallelValue m v value value) :
    Parallel m v (List.Forall₂ m.Operands) (arguments value) (arguments value) := by
  refine .expect fun _ _ _ => .eatIf (parallel_pure .nil) ?_
  exact (hv.sepBy .comma).bind fun args args' same => .expect fun _ _ _ => parallel_pure same

theorem parallel_numbers (h : List.Forall₂ m.Operands os os') :
    Parallel m v Eq (checkAll checkNumeric os) (checkAll checkNumeric os') :=
  parallel_checkAll (fun _ _ => parallel_checkNumeric) h

theorem parallel_geometries (h : List.Forall₂ m.Operands os os') :
    Parallel m v Eq (checkAll checkGeometry os) (checkAll checkGeometry os') :=
  parallel_checkAll (fun _ _ => parallel_checkGeometry) h

/-! ### Shapes -/

theorem parallel_checkShape (form : ShapeForm) (h : List.Forall₂ m.Operands os os') :
    Parallel m v Eq (checkShape form os) (checkShape form os') := by
  cases form with
  | numbers => exact parallel_numbers h
  | points => exact parallel_geometries h
  | centred =>
    cases h with
    | nil => exact parallel_pure rfl
    | cons centre lengths => exact (parallel_checkGeometry centre).step fun _ => parallel_numbers lengths

theorem parallel_fittedShape (fn : GeometryFn) {sys sys' : Option Operand} (given : Nat) (hstart : m.starts start start')
    (sameSys : sys'.map Operand.unplaced = sys.map Operand.unplaced) (h : List.Forall₂ m.Operands os os') :
    ParallelValue m v (fittedShape v fn sys os given start) (fittedShape v fn sys' os' given start') := by
  have same : Operand.SameAll os' os := Operands.all h
  unfold fittedShape
  rw [same.length, same.pointFirst]
  cases shapeForm? v fn os.length ((os.head?.map isPointLike).getD false) with
  | none => exact parallel_wrongArity hstart
  | some form =>
    refine (parallel_checkShape form h).step fun _ => .placed hstart fun _ _ spans => ⟨?_, spans⟩
    cases sys <;> cases sys' <;> simp_all [Operand.Same, Operand.unplaced, same.allUnplaced]

theorem parallel_shape (fn : GeometryFn) (hstart : m.starts start start') (h : List.Forall₂ m.Operands os os') :
    ParallelValue m v (shape fn os start) (shape fn os' start') := by
  refine .version ?_
  have fits {sys sys' : Option Operand} {coordinates coordinates' : List Operand}
      (sameSys : sys'.map Operand.unplaced = sys.map Operand.unplaced)
      (hcoordinates : List.Forall₂ m.Operands coordinates coordinates') :
      ParallelValue m v (fittedShape v fn sys coordinates os.length start)
        (fittedShape v fn sys' coordinates' os.length start') :=
    parallel_fittedShape fn os.length hstart sameSys hcoordinates
  have same : Operand.SameAll os' os := Operands.all h
  rw [same.startsWithCoordSys fn, same.length]
  refine .choice ?_ (fits rfl h)
  cases h with
  | nil => exact parallel_wrongArity hstart
  | cons sys coordinates =>
    exact (parallel_checkString sys).step fun _ => fits (congrArg some sys.same.eq) coordinates

/-! ### Calls -/

section Calls

variable (hv : ParallelValue m v value value)

include hv

theorem parallel_mathCall (fn : MathFn) (hstart : m.starts start start') :
    ParallelValue m v (mathCall value fn start) (mathCall value fn start') := by
  refine (parallel_arguments hv).bind fun args args' h => ?_
  have same : Operand.SameAll args' args := Operands.all h
  rw [same.length]
  refine .choice (parallel_wrongArity hstart) ((parallel_numbers h).step fun _ => ?_)
  exact .placed hstart fun _ _ spans => ⟨congrArg (Operand.math fn · none) same.allUnplaced, spans⟩

omit hv in
theorem parallel_quantifier : Parallel m v Eq aggregateCall.quantifier aggregateCall.quantifier :=
  .eatIf (parallel_pure rfl) ((parallel_eat _).step fun _ => parallel_pure rfl)

theorem parallel_argument (fn : AggregateFn) (distinct : Bool) :
    Parallel m v (Alike (Option.map Operand.unplaced)) (aggregateCall.argument value fn distinct)
      (aggregateCall.argument value fn distinct) := by
  have given : Parallel m v (Alike (Option.map Operand.unplaced)) (do
      let arg ← value
      if fn == .avg || fn == .sum then checkNumeric arg
      return some arg) (do
      let arg ← value
      if fn == .avg || fn == .sum then checkNumeric arg
      return some arg) := by
    refine hv.bind fun arg arg' h => ?_
    have found : Parallel m v (Alike (Option.map Operand.unplaced)) (return some arg) (return some arg') :=
      parallel_pure (congrArg some h.same)
    exact .choice ((parallel_checkNumeric h).step fun _ => found) found
  unfold aggregateCall.argument
  exact .choice (.eatIf (parallel_pure rfl) given) given

theorem parallel_aggregateCall (fn : AggregateFn) (hstart : m.starts start start') :
    ParallelValue m v (aggregateCall value fn start) (aggregateCall value fn start') := by
  refine .expect fun _ _ _ => parallel_quantifier.step fun distinct => ?_
  refine (parallel_argument hv fn distinct).bind fun arg arg' same => .expect fun _ _ _ => ?_
  exact .placed hstart fun _ _ spans => ⟨unplaced_aggregate same, spans⟩

omit hv in
theorem parallel_typeLength : Parallel m v Eq typeLength typeLength := by
  refine .eatIf (.place fun start start' hstart => .expect fun t t' ht => ?_) (parallel_pure rfl)
  rw [ht.text]
  dsimp only
  cases digitsBelow? (Nat.pow 2 32) t.text with
  | some size => exact .expect fun _ _ _ => parallel_pure rfl
  | none => exact .spanFrom hstart fun _ _ spans => parallel_failAt spans

omit hv in
theorem Parse.Parallel.eatWordIf {word description : String} {q r : Parse CastType} (hit : Parallel m v Eq q q)
    (miss : Parallel m v Eq r r) :
    Parallel m v Eq (eatWord word description >>= fun eaten => if eaten then q else r)
      (eatWord word description >>= fun eaten => if eaten then q else r) := by
  refine Parallel.step ?_ fun _ => .choice hit miss
  refine (parallel_seesWord word description).step fun _ => .choice ?_ (parallel_pure rfl)
  exact .advance fun _ _ _ => parallel_pure rfl

omit hv in
theorem parallel_castType : Parallel m v Eq castType castType := by
  have type (t : CastType) : Parallel m v Eq (pure t) (pure t) := parallel_pure rfl
  have sized (make : Option Nat → CastType) :
      Parallel m v Eq (do return make (← typeLength)) (do return make (← typeLength)) :=
    parallel_typeLength.step fun _ => parallel_pure rfl
  refine .eatWordIf (type _) (.eatWordIf (type _) (.eatWordIf (type _) (.eatWordIf (type _) ?_)))
  refine .eatWordIf (.eatWordIf (type _) parallel_unexpected) (.eatWordIf (sized .char) ?_)
  exact .eatWordIf (sized .varChar) (.eatWordIf (type _) parallel_unexpected)

theorem parallel_castCall (hstart : m.starts start start') :
    ParallelValue m v (castCall value start) (castCall value start') := by
  refine .expect fun _ _ _ => hv.bind fun arg arg' h => .expect fun _ _ _ => ?_
  refine parallel_castType.step fun target => .expect fun _ _ _ => ?_
  exact .placed hstart fun _ _ spans => ⟨congrArg (Operand.cast · target none) h.same, spans⟩

omit hv in
theorem parallel_checkGeometryArgs (fn : GeometryFn) (hstart : m.starts start start')
    (h : List.Forall₂ m.Operands os os') :
    Parallel m v Eq (checkGeometryArgs fn os start) (checkGeometryArgs fn os' start') := by
  have strings : Parallel m v Eq (checkAll checkString os) (checkAll checkString os') :=
    parallel_checkAll (fun _ _ => parallel_checkString) h
  unfold checkGeometryArgs
  rw [(Operands.all h).length]
  cases fn with
  | contains | intersects => exact .choice (parallel_geometries h) (parallel_wrongArity hstart)
  | distance =>
    refine .version (.choice (parallel_geometries h) ?_)
    exact .choice (parallel_numbers h) (parallel_wrongArity hstart)
  | region => exact .choice strings (parallel_wrongArity hstart)
  | _ => exact .choice (parallel_geometries h) (parallel_wrongArity hstart)

theorem parallel_geometryCall (fn : GeometryFn) (hstart : m.starts start start') :
    ParallelValue m v (geometryCall value fn start) (geometryCall value fn start') := by
  refine (parallel_arguments hv).bind fun args args' h => .choice (parallel_shape fn hstart h) ?_
  refine (parallel_checkGeometryArgs fn hstart h).step fun _ => .placed hstart fun _ _ spans => ⟨?_, spans⟩
  exact congrArg (Operand.geometry fn none · none) (Operands.all h).allUnplaced

theorem parallel_stringArgument (name : String) (hstart : m.starts start start') :
    ParallelValue m v (stringArgument value name start) (stringArgument value name start') := by
  refine (parallel_arguments hv).bind fun args args' h => ?_
  have length : args'.length = args.length := (Operands.all h).length
  match args, args', h with
  | [arg], [arg'], .cons first .nil => exact (parallel_checkString first).step fun _ => parallel_pure first
  | [], [], .nil => exact parallel_wrongArity hstart
  | _ :: _ :: _, _ :: _ :: _, .cons _ (.cons _ _) =>
    dsimp only
    rw [length]
    exact parallel_wrongArity hstart

theorem parallel_inUnitCall (hstart : m.starts start start') :
    ParallelValue m v (inUnitCall value start) (inUnitCall value start') := by
  refine (parallel_arguments hv).bind fun args args' h => ?_
  have length : args'.length = args.length := (Operands.all h).length
  match args, args', h with
  | [arg, unit], [arg', unit'], .cons first (.cons second .nil) =>
    refine (parallel_checkNumeric first).step fun _ => (parallel_checkString second).step fun _ => ?_
    refine .placed hstart fun _ _ spans => ⟨?_, spans⟩
    simp only [Operand.Same, Operand.unplaced, first.same.eq, second.same.eq]
  | [], [], .nil | [_], [_], .cons _ .nil => exact parallel_wrongArity hstart
  | _ :: _ :: _ :: _, _ :: _ :: _ :: _, .cons _ (.cons _ (.cons _ _)) =>
    dsimp only
    rw [length]
    exact parallel_wrongArity hstart

theorem parallel_coalesceCall (hstart : m.starts start start') :
    ParallelValue m v (coalesceCall value start) (coalesceCall value start') := by
  refine (parallel_arguments hv).bind fun args args' h => ?_
  have same : Operand.SameAll args' args := Operands.all h
  cases h with
  | nil => exact parallel_wrongArity hstart
  | cons => exact .placed hstart fun _ _ spans => ⟨congrArg (Operand.coalesce · none) same.allUnplaced, spans⟩

theorem parallel_call : ParallelValue m v (call value) (call value) := by
  refine .place fun start start' hstart => .advance fun t t' ht => ?_
  rw [ht.kind, ht.text]
  split
  · exact parallel_aggregateCall hv _ hstart
  · exact parallel_mathCall hv _ hstart
  · exact parallel_geometryCall hv _ hstart
  · refine (parallel_stringArgument hv "LOWER" hstart).bind fun o o' h => ?_
    exact .placed hstart fun _ _ spans => ⟨congrArg (Operand.lower · none) h.same, spans⟩
  · refine (parallel_stringArgument hv "UPPER" hstart).bind fun o o' h => ?_
    exact .placed hstart fun _ _ spans => ⟨congrArg (Operand.upper · none) h.same, spans⟩
  · exact parallel_coalesceCall hv hstart
  · exact parallel_inUnitCall hv hstart
  · exact parallel_castCall hv hstart
  · refine (parallel_arguments hv).bind fun args args' h => .placed hstart fun _ _ spans => ⟨?_, spans⟩
    exact congrArg (Operand.userDefined _ · none) (Operands.all h).allUnplaced

end Calls

/-! ### Primaries -/

theorem parallel_columnRef : ParallelValue m v columnRef columnRef := by
  refine .place fun start start' hstart => (parallel_dotted 3).step fun parts => ?_
  cases ColumnRef.ofParts? parts with
  | none => exact parallel_unexpected
  | some ref => exact .placed hstart fun _ _ spans => ⟨rfl, spans⟩

theorem parallel_literalsFor (n : Nat) : Parallel m v Eq (literalsFor n) (literalsFor n) := by
  induction n with
  | zero => exact parallel_pure rfl
  | succ n ih =>
    refine .current fun t t' ht => ?_
    rw [ht.kind]
    refine .choice (.advance fun u u' hu => ?_) (parallel_pure rfl)
    rw [hu.text]
    exact ih.step fun _ => parallel_pure rfl

theorem parallel_seesCall : Parallel m v Eq seesCall seesCall :=
  fun _ _ hs => .read (by rw [hs.current.kind, hs.second.kind, Matching.Tokens.isIdentifier hs.current]) hs

theorem parallel_primary (hv : ParallelValue m v value value) :
    ParallelValue m v (primary (call value) value) (primary (call value) value) := by
  refine .place fun start start' hstart => .current fun next next' hnext => ?_
  rw [hnext.kind, hnext.text]
  refine .choice (.advance fun _ _ _ => .placed hstart fun _ _ spans => ⟨rfl, spans⟩) (.choice ?_ (.choice ?_ ?_))
  · exact (Parallel.bounded parallel_literalsFor).step fun text => .placed hstart fun _ _ spans => ⟨rfl, spans⟩
  · refine .advance fun _ _ _ => hv.bind fun inner inner' h => .expect fun _ _ _ => ?_
    exact .placed hstart fun _ _ spans => ⟨congrArg (Operand.wrapped · none) h.same, spans⟩
  · refine parallel_seesCall.step fun _ => .choice (parallel_call hv) (parallel_atIdentifier.step fun _ => ?_)
    exact .choice parallel_columnRef ((parallel_expecting _).step fun _ => parallel_unexpected)

/-! ### Operators -/

section Operators

variable {base : Parse Operand} (hbase : ParallelValue m v base base)

include hbase

theorem parallel_signedFor (n : Nat) : ParallelValue m v (signedFor base n) (signedFor base n) := by
  induction n with
  | zero => exact hbase
  | succ n ih =>
    refine .place fun start start' hstart => .eatIf ?_ (.eatIf ?_ hbase)
    · refine ih.bind fun inner inner' h => (parallel_checkNumeric h).step fun _ => ?_
      exact .placed hstart fun _ _ spans => ⟨congrArg (Operand.negative · none) h.same, spans⟩
    · exact ih.bind fun inner inner' h => (parallel_checkNumeric h).step fun _ => parallel_pure h

omit hbase in
theorem parallel_arithmetic (first second : Kind × ArithOp) {item : Parse Operand} (hitem : ParallelValue m v item item) :
    ParallelValue m v (arithmetic first second item) (arithmetic first second item) := by
  have operator : Parallel m v Eq (arithmetic.operator first second) (arithmetic.operator first second) :=
    .seesIf (parallel_pure rfl) (.seesIf (parallel_pure rfl) (parallel_pure rfl))
  refine .place fun start start' hstart => hitem.bind fun left left' hleft => .iterate hleft fun left left' hleft => ?_
  refine operator.step fun found => ?_
  cases found with
  | none => exact parallel_pure .none
  | some op =>
    refine .advance fun _ _ _ => hitem.bind fun right right' hright => ?_
    refine (parallel_checkNumeric hleft).step fun _ => (parallel_checkNumeric hright).step fun _ => ?_
    refine .placed hstart fun _ _ spans => .some ⟨?_, spans⟩
    simp only [Operand.Same, Operand.unplaced, hleft.same.eq, hright.same.eq]

theorem parallel_additive : ParallelValue m v (additive base) (additive base) :=
  parallel_arithmetic _ _ (parallel_arithmetic _ _ (.bounded (parallel_signedFor hbase)))

theorem parallel_concatenation : ParallelValue m v (concatenation base) (concatenation base) := by
  have part : ParallelValue m v (do
      let part ← additive base
      checkString part
      return part) (do
      let part ← additive base
      checkString part
      return part) :=
    (parallel_additive hbase).bind fun o o' h => (parallel_checkString h).step fun _ => parallel_pure h
  refine .place fun start start' hstart => (parallel_additive hbase).bind fun first first' hfirst => ?_
  refine .seesIf ?_ (parallel_pure hfirst)
  refine (parallel_checkString hfirst).step fun _ => (part.followers .concat).bind fun others others' hothers => ?_
  refine .placed hstart fun _ _ spans => ⟨?_, spans⟩
  exact congrArg (Operand.concatenation · none) (Operands.all (.cons hfirst hothers)).allUnplaced

end Operators

theorem parallel_valueFor (n : Nat) : ParallelValue m v (valueFor n) (valueFor n) := by
  induction n with
  | zero => exact parallel_unexpected
  | succ n ih => exact parallel_concatenation (parallel_primary ih)

theorem parallel_value : ParallelValue m v Grammar.value Grammar.value := .bounded parallel_valueFor

end SkyQuery.Grammar
