import SkyQuery.Proofs.Grammar.Yields
import SkyQuery.Proofs.Text.Numbers

/-!
# Calls are well formed

Each reader of a call yields a well-formed call if the reader of its arguments yields well-formed
values. `call_yields` is the main statement.
-/

namespace SkyQuery.Grammar

open Parse

variable {v : Version} {value : Parse Operand}

/-- A well-formed call, which binds as tightly as an expression in parentheses. -/
def IsCall (v : Version) (o : Operand) : Prop := o.WellFormed v ∧ o.rank = 4

theorem yields_wrongArity {α : Type} {name expected : String} {given : Nat} {start : Place}
    {P : α → Prop} : Yields v (wrongArity name expected given start : Parse α) P :=
  (yields_spanFrom start).bind fun _ _ => yields_failAt

theorem arguments_yields {P : Operand → Prop} (hv : Yields v value P) :
    Yields v (arguments value) fun args => ∀ a ∈ args, P a := by
  refine (yields_expect _).bind fun _ _ => (yields_eat _).bind fun _ _ =>
    .ite (fun _ => yields_pure (by simp)) fun _ => ?_
  refine hv.sepBy.bind fun args hargs => (yields_expect _).bind fun _ _ => yields_pure ?_
  exact hargs.2

theorem mathCall_yields (hv : Yields v value (Operand.WellFormed v)) (fn : MathFn) (start : Place) :
    Yields v (mathCall value fn start) (IsCall v) := by
  refine (arguments_yields hv).bind fun args hargs => .ite (fun _ => yields_wrongArity) fun arity => ?_
  refine (yields_checkAll yields_checkNumeric args).bind fun _ numeric =>
    (yields_spanFrom start).bind fun _ _ => yields_pure ?_
  simp only [Bool.or_eq_true, decide_eq_true_eq, not_or, Nat.not_lt] at arity
  exact ⟨.intro ⟨arity.1, arity.2, numeric⟩ hargs, rfl⟩

theorem quantifier_yields : Yields v aggregateCall.quantifier fun _ => True := by
  refine (yields_eat _).bind fun _ _ => .ite (fun _ => yields_pure trivial) fun _ => ?_
  exact (yields_eat _).bind fun _ _ => yields_pure trivial

/-- What an aggregate takes: nothing for a count of all rows, a number for a mean or a sum. -/
def TakesArgument (v : Version) (fn : AggregateFn) (distinct : Bool) : Option Operand → Prop
  | none => fn = .count ∧ distinct = false
  | some arg => (fn = .avg ∨ fn = .sum → arg.isNumeric) ∧ arg.WellFormed v

theorem argument_yields (hv : Yields v value (Operand.WellFormed v)) (fn : AggregateFn)
    (distinct : Bool) :
    Yields v (aggregateCall.argument value fn distinct) (TakesArgument v fn distinct) := by
  have someValue : Yields v (do
      let arg ← value
      if fn == .avg || fn == .sum then checkNumeric arg
      return some arg) (TakesArgument v fn distinct) := by
    refine hv.bind fun arg harg => ?_
    refine .ite (fun _ => ?_) fun other => yields_pure ⟨fun sum => ?_, harg⟩
    · exact (yields_checkNumeric arg).bind fun _ numeric => yields_pure ⟨fun _ => numeric, harg⟩
    · exact absurd (by simpa using sum) other
  refine .ite (fun count => ?_) fun _ => someValue
  refine (yields_eat _).bind fun _ _ => .ite (fun _ => yields_pure ?_) fun _ => someValue
  simpa [TakesArgument] using count

theorem aggregateCall_yields (hv : Yields v value (Operand.WellFormed v)) (fn : AggregateFn)
    (start : Place) : Yields v (aggregateCall value fn start) (IsCall v) := by
  refine (yields_expect _).bind fun _ _ => quantifier_yields.bind fun distinct _ => ?_
  refine (argument_yields hv fn distinct).bind fun arg harg => (yields_expect _).bind fun _ _ =>
    (yields_spanFrom start).bind fun _ _ => yields_pure ⟨?_, rfl⟩
  cases arg with
  | none => exact .intro harg (by simp [Operand.children])
  | some arg =>
    refine .intro harg.1 fun c hc => ?_
    obtain rfl := List.mem_singleton.1 hc
    exact harg.2

theorem typeLength_yields : Yields v typeLength fun r => ∀ n ∈ r, n < Nat.pow 2 32 := by
  refine (yields_eat _).bind fun _ _ => .ite (fun _ => ?_) fun _ => yields_pure (by simp)
  refine yields_place.bind fun start _ => (yields_expect _).bind fun t _ => ?_
  cases h : digitsBelow? (Nat.pow 2 32) t.text with
  | none =>
    simp only [h]
    exact (yields_spanFrom start).bind fun _ _ => yields_failAt
  | some n =>
    simp only [h]
    refine (yields_expect _).bind fun _ _ => yields_pure fun m hm => ?_
    cases hm
    exact digitsBelow?_lt h

theorem eatWord_yields (word description : String) : Yields v (eatWord word description) fun _ => True := by
  refine (yields_seesWord _ _).bind fun _ _ => .ite (fun _ => ?_) fun _ => yields_pure trivial
  exact yields_advance.bind fun _ _ => yields_pure trivial

theorem castType_yields : Yields v castType CastType.WellFormed := by
  have length (make : Option Nat → CastType)
      (hmake : ∀ r : Option Nat, (∀ n ∈ r, n < Nat.pow 2 32) → (make r).WellFormed) :
      Yields v (do return make (← typeLength)) CastType.WellFormed :=
    typeLength_yields.bind fun r hr => yields_pure (hmake r hr)
  refine (eatWord_yields _ _).bind fun _ _ => .ite (fun _ => yields_pure trivial) fun _ => ?_
  refine (eatWord_yields _ _).bind fun _ _ => .ite (fun _ => yields_pure trivial) fun _ => ?_
  refine (eatWord_yields _ _).bind fun _ _ => .ite (fun _ => yields_pure trivial) fun _ => ?_
  refine (eatWord_yields _ _).bind fun _ _ => .ite (fun _ => yields_pure trivial) fun _ => ?_
  refine (eatWord_yields _ _).bind fun _ _ => .ite (fun _ => ?_) fun _ => ?_
  · exact (eatWord_yields _ _).bind fun _ _ => .ite (fun _ => yields_pure trivial) fun _ =>
      yields_unexpected
  refine (eatWord_yields _ _).bind fun _ _ => .ite (fun _ => ?_) fun _ => ?_
  · refine length .char fun r hr => ?_
    cases r with
    | none => trivial
    | some n => exact hr n rfl
  refine (eatWord_yields _ _).bind fun _ _ => .ite (fun _ => ?_) fun _ => ?_
  · refine length .varChar fun r hr => ?_
    cases r with
    | none => trivial
    | some n => exact hr n rfl
  exact (eatWord_yields _ _).bind fun _ _ => .ite (fun _ => yields_pure trivial) fun _ =>
    yields_unexpected

theorem castCall_yields (later : v = .v21) (hv : Yields v value (Operand.WellFormed v))
    (start : Place) : Yields v (castCall value start) (IsCall v) := by
  refine (yields_expect _).bind fun _ _ => hv.bind fun arg harg => (yields_expect _).bind fun _ _ => ?_
  refine castType_yields.bind fun target htarget => (yields_expect _).bind fun _ _ =>
    (yields_spanFrom start).bind fun _ _ => yields_pure ⟨.intro ⟨later, htarget⟩ ?_, rfl⟩
  simpa [Operand.children] using harg

/-! ### Geometry -/

theorem checkShape_yields (form : ShapeForm) (args : List Operand) :
    Yields v (checkShape form args) fun _ => form.Takes args := by
  cases form with
  | numbers => exact yields_checkAll yields_checkNumeric args
  | points => exact yields_checkAll yields_checkGeometry args
  | centred =>
    cases args with
    | nil => exact yields_pure ⟨by simp, by simp⟩
    | cons centre lengths =>
      refine (yields_checkGeometry centre).bind fun _ hcentre =>
        (yields_checkAll yields_checkNumeric lengths).mono fun _ hlengths => ⟨?_, hlengths⟩
      simpa using hcentre

theorem shape_yields {fn : GeometryFn} {args : List Operand} (start : Place)
    (available : (Keyword.geometry fn).availableIn v) (isShape : fn.isShape)
    (hargs : ∀ a ∈ args, a.WellFormed v) : Yields v (shape fn args start) (IsCall v) := by
  have fits (sys : Option Operand) (coordinates : List Operand)
      (hsys : sys.isSome = (v == .v20 || startsWithCoordSys fn (sys.toList ++ coordinates)))
      (string : ∀ s ∈ sys, s.isString) (hparts : ∀ a ∈ sys.toList ++ coordinates, a.WellFormed v) :
      Yields v (fittedShape v fn sys coordinates args.length start) (IsCall v) := by
    unfold fittedShape
    split
    · rename_i form hform
      refine (checkShape_yields form coordinates).bind fun _ takes =>
        (yields_spanFrom start).bind fun _ _ => yields_pure ⟨.intro ⟨available, ?_⟩ hparts, rfl⟩
      rw [if_pos isShape]
      exact ⟨hsys, string, form, hform, takes⟩
    · exact yields_wrongArity
  refine yields_version.bind fun u hu => ?_
  subst hu
  refine .ite (fun withSys => ?_) fun withoutSys => fits none args ?_ (by simp) hargs
  · cases args with
    | nil => exact yields_wrongArity
    | cons sys coordinates =>
      refine (yields_checkString sys).bind fun _ string => fits (some sys) coordinates ?_ ?_ hargs
      · simpa using withSys
      · simpa using string
  · simpa using withoutSys

theorem checkGeometryArgs_yields (fn : GeometryFn) (args : List Operand) (start : Place) :
    Yields v (checkGeometryArgs fn args start) fun _ => GeometryArgsRule v fn args := by
  have only (n : Nat) (text : String) {check : Operand → Parse Unit} {P : Operand → Prop}
      (h : ∀ o, Yields v (check o) fun _ => P o) :
      Yields v (if args.length = n then checkAll check args
        else wrongArity fn.name text args.length start)
        fun _ => args.length = n ∧ ∀ a ∈ args, P a :=
    .ite (fun length => (yields_checkAll h args).mono fun _ all => ⟨length, all⟩)
      fun _ => yields_wrongArity
  cases fn with
  | contains | intersects => exact only 2 "2" yields_checkGeometry
  | region => exact only 1 "1" yields_checkString
  | distance =>
    refine yields_version.bind fun u hu => ?_
    subst hu
    refine .ite (fun two => ?_) fun _ => .ite (fun four => ?_) fun _ => yields_wrongArity
    · exact (yields_checkAll yields_checkGeometry args).mono fun _ all => .inl ⟨two, all⟩
    · simp only [Bool.and_eq_true, decide_eq_true_eq, beq_iff_eq] at four
      exact (yields_checkAll yields_checkNumeric args).mono fun _ all => .inr ⟨four.1, four.2, all⟩
  | _ => exact only 1 "1" yields_checkGeometry

theorem geometryCall_yields {fn : GeometryFn} (hv : Yields v value (Operand.WellFormed v))
    (available : (Keyword.geometry fn).availableIn v) (start : Place) :
    Yields v (geometryCall value fn start) (IsCall v) := by
  refine (arguments_yields hv).bind fun args hargs => .ite (fun isShape => ?_) fun notShape => ?_
  · exact shape_yields start available isShape hargs
  · refine (checkGeometryArgs_yields fn args start).bind fun _ rule =>
      (yields_spanFrom start).bind fun _ _ => yields_pure ⟨.intro ⟨available, ?_⟩ hargs, rfl⟩
    rw [if_neg notShape]
    exact ⟨rfl, rule⟩

/-! ### Other functions -/

theorem stringArgument_yields (hv : Yields v value (Operand.WellFormed v)) (name : String)
    (start : Place) :
    Yields v (stringArgument value name start) fun o => o.isString ∧ o.WellFormed v := by
  refine (arguments_yields hv).bind fun args hargs => ?_
  split
  · rename_i arg
    exact (yields_checkString arg).bind fun _ string => yields_pure ⟨string, hargs arg (by simp)⟩
  · exact yields_wrongArity

theorem inUnitCall_yields (later : v = .v21) (hv : Yields v value (Operand.WellFormed v))
    (start : Place) : Yields v (inUnitCall value start) (IsCall v) := by
  refine (arguments_yields hv).bind fun args hargs => ?_
  split
  · rename_i arg unit
    refine (yields_checkNumeric arg).bind fun _ numeric => (yields_checkString unit).bind fun _ string =>
      (yields_spanFrom start).bind fun _ _ => yields_pure ?_
    exact ⟨.intro ⟨later, numeric, string⟩ hargs, rfl⟩
  · exact yields_wrongArity

theorem coalesceCall_yields (later : v = .v21) (hv : Yields v value (Operand.WellFormed v))
    (start : Place) : Yields v (coalesceCall value start) (IsCall v) := by
  refine (arguments_yields hv).bind fun args hargs => ?_
  split
  · exact yields_wrongArity
  · rename_i nonempty
    exact (yields_spanFrom start).bind fun _ _ => yields_pure ⟨.intro ⟨later, nonempty⟩ hargs, rfl⟩

theorem stringCall_yields (hv : Yields v value (Operand.WellFormed v)) {name : String}
    {start : Place} {make : Operand → Option Span → Operand}
    (hmake : ∀ o span, o.isString → o.WellFormed v → IsCall v (make o span)) :
    Yields v (do return make (← stringArgument value name start) (← spanFrom start)) (IsCall v) :=
  (stringArgument_yields hv name start).bind fun o ho => (yields_spanFrom start).bind fun span _ =>
    yields_pure (hmake o span ho.1 ho.2)

/-- Whether a call starts at a token, which is known to be followed by a parenthesis if it is a
plain name. -/
def StartsCall (v : Version) (t : Token) : Prop :=
  t.kind.isFunction ∨ t.kind = .ident ∧ isIdentifier v t

theorem userCall_yields {t : Token} (ht : t.Lexed v) (name : t.kind = .ident ∧ isIdentifier v t)
    (hv : Yields v value (Operand.WellFormed v)) (start : Place) :
    Yields v (do
      let args ← arguments value
      return .userDefined (Identifier.ofText t.text) args (← spanFrom start)) (IsCall v) := by
  refine (arguments_yields hv).bind fun args hargs => (yields_spanFrom start).bind fun _ _ =>
    yields_pure ⟨.intro ⟨?_, wellFormed_ofText ht name.2⟩ hargs, rfl⟩
  exact ofText_delimited (ht.word name.1)

theorem call_yields (hv : Yields v value (Operand.WellFormed v)) {s t : State} {o : Operand}
    (hs : s.Lexed v) (starts : StartsCall v s.current) (h : call value v s = .ok (o, t)) :
    t.Lexed v ∧ IsCall v o := by
  unfold call at h
  rw [place_bind] at h
  obtain ⟨name, r, hname, h⟩ := bind_ok h
  cases hname
  -- The name of a function that only version 2.1 has is a keyword there, and nowhere else.
  have later {word : Keyword} (kind : s.current.kind = .keyword word)
      (since : word.availableIn v = (v == .v21)) : v = .v21 := by
    simpa [since] using hs.current.available kind
  refine (?_ : Yields v _ (IsCall v)) _ _ _ hs.advance h
  split
  · exact aggregateCall_yields hv _ _
  · exact mathCall_yields hv _ _
  · rename_i kind
    exact geometryCall_yields hv (hs.current.available kind) _
  · rename_i kind
    refine stringCall_yields hv fun o span string ho => ?_
    exact ⟨.intro ⟨later kind rfl, string⟩ (by simpa [Operand.children] using ho), rfl⟩
  · rename_i kind
    refine stringCall_yields hv fun o span string ho => ?_
    exact ⟨.intro ⟨later kind rfl, string⟩ (by simpa [Operand.children] using ho), rfl⟩
  · rename_i kind
    exact coalesceCall_yields (later kind rfl) hv _
  · rename_i kind
    exact inUnitCall_yields (later kind rfl) hv _
  · rename_i kind
    exact castCall_yields (later kind rfl) hv _
  · rename_i other
    rcases starts with function | name
    · exfalso
      cases kind : s.current.kind with
      | keyword word => cases word <;> simp_all [Kind.isFunction, Keyword.isFunction]
      | _ => simp [kind, Kind.isFunction] at function
    · exact userCall_yields hs.current name hv _

end SkyQuery.Grammar
