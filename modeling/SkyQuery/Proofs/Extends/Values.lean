import SkyQuery.Proofs.Extends.Steps
import SkyQuery.Proofs.Rereads.Parentheses

/-!
# Values that both versions read

`carries_value`: a value of version 2.0 is read as the same value in version 2.1. The shapes are where
the versions differ: version 2.1 guesses from the arguments whether the first of them is a coordinate
system, and guesses right for all calls that version 2.0 accepts.
-/

namespace SkyQuery.Grammar

open Parse

variable {held held' : List Kind} {value : Parse Operand} {s s' : State} {start : Place}

/-! ### Shapes -/

theorem isNumeric_of_isPointLike {o : Operand} (h : isPointLike o = true) : o.isNumeric = false := by
  fun_induction isPointLike o with
  | case1 inner _ ih => exact ih h
  | case2 fn => cases fn <;> first | rfl | cases h
  | case3 => cases h

/-- Version 2.0 has numbers only in its shapes, and as many as version 2.1 takes for numbers. -/
theorem shapeForm?_v20 {fn : GeometryFn} {n : Nat} {pointFirst : Bool} {form : ShapeForm}
    (h : shapeForm? .v20 fn n pointFirst = some form) :
    form = .numbers ∧ shapeForm? .v21 fn n false = some .numbers := by
  unfold shapeForm? at h ⊢
  cases fn <;> simp only at h ⊢ <;> grind

/-- Where version 2.0 accepts a shape, version 2.1 takes the first argument for the coordinate system. -/
theorem startsWithCoordSys_of_v20 {fn : GeometryFn} {sys : Operand} {coordinates : List Operand} {pointFirst : Bool}
    {form : ShapeForm} (h : shapeForm? .v20 fn coordinates.length pointFirst = some form)
    (noPoint : (coordinates.head?.map isPointLike).getD false = false) :
    startsWithCoordSys fn (sys :: coordinates) = true := by
  unfold shapeForm? at h
  simp only [startsWithCoordSys, noPoint]
  cases fn <;> simp only at h ⊢ <;> grind

/-- Operands that were found to be numbers. -/
theorem numeric_of_checkAll {v : Version} {os : List Operand} {u : Unit} {t : State}
    (h : checkAll checkNumeric os v s = .ok (u, t)) : ∀ o ∈ os, o.isNumeric = true := by
  induction os generalizing s with
  | nil => exact fun _ member => absurd member List.not_mem_nil
  | cons o others ih =>
    obtain ⟨_, r, hfirst, h⟩ := bind_ok h
    refine List.forall_mem_cons.2 ⟨?_, ih h⟩
    unfold checkNumeric at hfirst
    split at hfirst
    · assumption
    · cases hfirst

theorem noPoint_of_numeric {os : List Operand} (h : ∀ o ∈ os, o.isNumeric = true) :
    (os.head?.map isPointLike).getD false = false := by
  cases os with
  | nil => rfl
  | cons o others =>
    refine Bool.eq_false_iff.2 fun point => ?_
    have numeric := h o List.mem_cons_self
    rw [isNumeric_of_isPointLike point] at numeric
    cases numeric

theorem carries_wrongArity {α : Type} {name expected : String} {given : Nat} :
    Carries held held' (wrongArity name expected given start : Parse α) := .spanFrom fun _ => carries_failAt

/-- A shape whose coordinate system is told apart. -/
theorem shape_withSys {v : Version} {fn : GeometryFn} {sys : Operand} {coordinates : List Operand}
    (withSys : (v == .v20 || startsWithCoordSys fn (sys :: coordinates)) = true) :
    shape fn (sys :: coordinates) start v s = (do
      checkString sys
      fittedShape v fn (some sys) coordinates (coordinates.length + 1) start : Parse Operand) v s := by
  change (if (v == .v20 || startsWithCoordSys fn (sys :: coordinates)) = true then _ else _ : Parse Operand) v s = _
  rw [if_pos withSys]
  rfl

theorem fittedShape_numbers {v : Version} {fn : GeometryFn} {sys : Option Operand} {coordinates : List Operand}
    {given : Nat}
    (h : shapeForm? v fn coordinates.length ((coordinates.head?.map isPointLike).getD false) = some .numbers) :
    fittedShape v fn sys coordinates given start = (do
      checkAll checkNumeric coordinates
      return .geometry fn sys coordinates (← spanFrom start)) := by
  unfold fittedShape
  rw [h]
  rfl

/-- Every shape of version 2.0 is the same shape in version 2.1. -/
theorem carries_shape (fn : GeometryFn) (args : List Operand) : Carries [] [] (shape fn args start) := by
  refine carries_of_agrees fun {s s'} hs o t h => ?_
  cases args with
  | nil => exact absurd h fun h => by cases h
  | cons sys coordinates =>
    rw [shape_withSys rfl] at h
    cases hform : shapeForm? .v20 fn coordinates.length ((coordinates.head?.map isPointLike).getD false) with
    | none =>
      obtain ⟨_, r, -, hfits⟩ := bind_ok h
      rw [fittedShape, hform] at hfits
      cases hfits
    | some form =>
      obtain ⟨rfl, later⟩ := shapeForm?_v20 hform
      rw [fittedShape_numbers hform] at h
      -- That the coordinates are numbers is what makes version 2.1 count the arguments.
      obtain ⟨_, r, -, hfits⟩ := bind_ok h
      obtain ⟨_, _, hcheck, -⟩ := bind_ok hfits
      have noPoint := noPoint_of_numeric (numeric_of_checkAll hcheck)
      rw [shape_withSys (v := .v21) (startsWithCoordSys_of_v20 hform noPoint),
        fittedShape_numbers (by rw [noPoint]; exact later)]
      have checked : Carries [] [] (do
          checkString sys
          checkAll checkNumeric coordinates
          return Operand.geometry fn (some sys) coordinates (← spanFrom start)) :=
        (carries_checkString sys).bind fun _ => (carries_checkAll carries_checkNumeric coordinates).bind fun _ =>
          carries_placed
      exact checked.agrees hs o t h

/-! ### Calls -/

theorem carries_arguments (hv : Carries [] [] value) : Carries [] [] (arguments value) := by
  refine .expect (by decide) fun _ => .eat (by decide) carries_pure ?_
  exact (hv.sepBy (by decide)).bind fun _ => .expect (by decide) fun _ => carries_pure

theorem carries_mathCall (hv : Carries [] [] value) (fn : MathFn) : Carries [] [] (mathCall value fn start) := by
  refine (carries_arguments hv).bind fun args => .ite (fun _ => carries_wrongArity) fun _ => ?_
  exact (carries_checkAll carries_checkNumeric args).bind fun _ => carries_placed

theorem carries_quantifier : Carries [] [] aggregateCall.quantifier :=
  .eat (by decide) carries_pure (.eat (by decide) carries_pure carries_pure)

theorem carries_argument (hv : Carries [] [] value) (fn : AggregateFn) (distinct : Bool) :
    Carries [] [] (aggregateCall.argument value fn distinct) := by
  have given : Carries [] [] (do
      let arg ← value
      if fn == .avg || fn == .sum then checkNumeric arg
      return some arg) :=
    hv.bind fun arg => .ite (fun _ => (carries_checkNumeric arg).bind fun _ => carries_pure) fun _ => carries_pure
  exact .ite (fun _ => .eat (by decide) carries_pure given) fun _ => given

theorem carries_aggregateCall (hv : Carries [] [] value) (fn : AggregateFn) :
    Carries [] [] (aggregateCall value fn start) := by
  refine .expect (by decide) fun _ => carries_quantifier.bind fun distinct => ?_
  exact (carries_argument hv fn distinct).bind fun _ => .expect (by decide) fun _ => carries_placed

theorem checkGeometryArgs_distance {v : Version} {args : List Operand} :
    checkGeometryArgs .distance args start v s = (
      if args.length = 2 then checkAll checkGeometry args
      else if args.length = 4 && v == .v21 then checkAll checkNumeric args
      else wrongArity "DISTANCE" (if v == .v20 then "2" else "2 or 4") args.length start : Parse Unit) v s := rfl

theorem carries_checkGeometryArgs (fn : GeometryFn) (args : List Operand) :
    Carries [] [] (checkGeometryArgs fn args start) := by
  have only (n : Nat) (text : String) {check : Operand → Parse Unit} (h : ∀ o, Carries [] [] (check o)) :
      Carries [] [] (if args.length = n then checkAll check args else wrongArity fn.name text args.length start) :=
    .ite (fun _ => carries_checkAll h args) fun _ => carries_wrongArity
  cases fn with
  | contains | intersects => exact only 2 "2" carries_checkGeometry
  | region => exact only 1 "1" carries_checkString
  | distance =>
    refine carries_of_agrees fun {s s'} hs u t h => ?_
    rw [checkGeometryArgs_distance] at h ⊢
    by_cases two : args.length = 2
    · rw [if_pos two] at h ⊢
      exact (carries_checkAll carries_checkGeometry args).agrees hs u t h
    · rw [if_neg two, show (Version.v20 == .v21) = false from rfl, Bool.and_false, if_neg Bool.false_ne_true] at h
      cases h
  | _ => exact only 1 "1" carries_checkGeometry

theorem carries_geometryCall (hv : Carries [] [] value) (fn : GeometryFn) :
    Carries [] [] (geometryCall value fn start) := by
  refine (carries_arguments hv).bind fun args => .ite (fun _ => carries_shape fn args) fun _ => ?_
  exact (carries_checkGeometryArgs fn args).bind fun _ => carries_placed

/-- The functions that version 2.0 calls are called alike in version 2.1. -/
theorem agrees_call (hv : Carries [] [] value) (hs : s.Becomes s') (same : s'.current = s.current) :
    Agrees [] (call value) s s' := by
  refine .place hs fun start => .advance hs same ?_
  have known := hs.current.known
  have later {k : Keyword} (here : s.current.kind = .keyword k) (new : k.availableIn .v20 = false) : False := by
    rw [here] at known
    exact Bool.false_ne_true (new.symm.trans known)
  split
  · exact carries_aggregateCall hv _
  · exact carries_mathCall hv _
  · exact carries_geometryCall hv _
  · exact (later ‹_› rfl).elim
  · exact (later ‹_› rfl).elim
  · exact (later ‹_› rfl).elim
  · exact (later ‹_› rfl).elim
  · exact (later ‹_› rfl).elim
  · exact (carries_arguments hv).bind fun _ => carries_placed

/-! ### Primaries -/

theorem carries_columnRef : Carries [] [] columnRef := by
  refine .place fun start => (carries_dotted 3).bind fun parts => ?_
  cases ColumnRef.ofParts? parts with
  | none => exact carries_unexpected
  | some ref => exact carries_placed

theorem carries_literalsFor (n : Nat) : Carries [] [] (literalsFor n) := by
  induction n with
  | zero => exact carries_pure
  | succ n ih =>
    refine carries_of_agrees fun {s s'} hs text t h => ?_
    unfold literalsFor at h ⊢
    rw [current_bind] at h ⊢
    rw [hs.current.beq_kind rfl (by decide)]
    refine Agrees.ite (fun string => ?_) (fun _ => carries_pure.agrees hs) text t h
    have same : s'.current = s.current := hs.current.eq fun word => by rw [word] at string; cases string
    exact .advance hs same (ih.bind fun _ => carries_pure)

/-- A word that is only reserved starts no value. -/
theorem primary_word {call : Parse Operand} {t : State} {o : Operand} (word : s.current.kind = .ident)
    (reserved : isIdentifier .v20 s.current = false) : primary call value .v20 s ≠ .ok (o, t) := by
  intro h
  have called : seesCall .v20 s = .ok (false, s) := by
    rw [seesCall, reserved, Bool.and_false, Bool.false_and, Bool.or_false, word]
    rfl
  rw [primary, place_bind, current_bind, word, if_neg (by decide), if_neg (by decide), if_neg (by decide),
    bind_eq called, if_neg Bool.false_ne_true, atIdentifier_bind, reserved, if_neg Bool.false_ne_true] at h
  cases h

theorem Parse.Agrees.seesCall {α : Type} {p q : Parse α} (hs : s.Becomes s') (same : s'.current = s.current)
    (hp : Agrees held p s s') (hq : Agrees held q s s') :
    Agrees held (seesCall >>= fun called => if called then p else q) s s' := by
  intro a t h
  have called : Grammar.seesCall .v21 s' = .ok (s.current.kind.isFunction ||
      (s.current.kind == .ident && isIdentifier .v20 s.current && s.second.kind == .leftParen), s') := by
    rw [Grammar.seesCall, hs.current.name, hs.second.beq_kind rfl (by decide), same]
  rw [bind_eq (by rfl : Grammar.seesCall .v20 s = _)] at h
  rw [bind_eq called]
  exact Agrees.ite (fun _ => hp) (fun _ => hq) a t h

theorem carries_primary (hv : Carries [] [] value) : Carries [] [] (primary (call value) value) := by
  refine carries_of_agrees fun {s s'} hs => ?_
  -- A word that is only reserved may be a function of version 2.1, but starts nothing in version 2.0.
  by_cases free : s.current.kind = .ident → isIdentifier .v20 s.current = true
  · have same : s'.current = s.current := hs.current.eq free
    refine .place hs fun start => .current same ?_
    refine .ite (fun _ => ?_) fun _ => .ite (fun _ => ?_) fun _ => .ite (fun _ => ?_) fun _ => ?_
    · exact .advance hs same carries_placed
    · exact ((Carries.bounded carries_literalsFor).bind fun _ => carries_placed).agrees hs
    · exact .advance hs same (hv.bind fun _ => .expect (by decide) fun _ => carries_placed)
    · refine .seesCall hs same (agrees_call hv hs same) (.atIdentifier hs (fun _ => carries_columnRef.agrees hs) ?_)
      exact (Carries.expecting (carries_unexpected : Carries [] _ _)).agrees hs
  · obtain ⟨word, reserved⟩ := Classical.not_imp.1 free
    exact fun o t h => absurd h (primary_word word (Bool.eq_false_iff.2 reserved))

/-! ### Operators -/

variable {base : Parse Operand}

theorem carries_signedFor (hbase : Carries [] [] base) (n : Nat) : Carries [] [] (signedFor base n) := by
  induction n with
  | zero => exact hbase
  | succ n ih =>
    refine .place fun start => .eat (by decide) ?_ (.eat (by decide) ?_ hbase)
    · exact ih.bind fun inner => (carries_checkNumeric inner).bind fun _ => carries_placed
    · exact ih.bind fun inner => (carries_checkNumeric inner).bind fun _ => carries_pure

section Arithmetic

variable {first second : Kind × ArithOp} {item : Parse Operand}

theorem carries_round (hitem : Carries [] [] item) (hfirst : Common [] first.1) (hsecond : Common [] second.1)
    (left : Operand) : Carries [] [] (arithmetic.round first second item start left) := by
  refine carries_of_agrees fun {s s'} hs found t h => ?_
  obtain ⟨expected, seen⟩ := peeks_operator (v := .v20) first second s
  obtain ⟨expected', seen'⟩ := peeks_operator (v := .v21) first second s'
  have op : operatorOf first second s'.current.word = operatorOf first second s.current.word := by
    unfold operatorOf Token.word
    rw [hs.current.beq_kind hfirst.1 hfirst.2.1, hs.current.beq_kind hsecond.1 hsecond.2.1]
  rw [arithmetic.round, bind_eq seen] at h
  rw [arithmetic.round, bind_eq seen', op]
  have hs' := hs.expecting expected expected'
  cases found? : operatorOf first second s.current.word with
  | none =>
    rw [found?] at h
    exact carries_pure.agrees hs' found t h
  | some op =>
    rw [found?] at h
    have same : s'.current = s.current := hs.current.eq fun word => ?_
    · refine Agrees.advance hs' same ?_ found t h
      refine hitem.bind fun right => (carries_checkNumeric left).bind fun _ => ?_
      exact (carries_checkNumeric right).bind fun _ => carries_placed
    · rw [operatorOf_none (fun here => hfirst.2.1 (here.symm.trans word))
        (fun here => hsecond.2.1 (here.symm.trans word))] at found?
      cases found?

theorem carries_arithmetic (hitem : Carries [] [] item) (hfirst : Common [] first.1) (hsecond : Common [] second.1) :
    Carries [] [] (arithmetic first second item) :=
  .place fun _ => hitem.bind fun left => .iterate (carries_round hitem hfirst hsecond) left

end Arithmetic

theorem carries_additive (hbase : Carries [] [] base) : Carries [] [] (additive base) :=
  carries_arithmetic (carries_arithmetic (.bounded (carries_signedFor hbase)) (by decide) (by decide))
    (by decide) (by decide)

theorem carries_concatenation (hbase : Carries [] [] base) : Carries [] [] (concatenation base) := by
  have part : Carries [] [] (do
      let part ← additive base
      checkString part
      return part) :=
    (carries_additive hbase).bind fun part => (carries_checkString part).bind fun _ => carries_pure
  refine .place fun start => (carries_additive hbase).bind fun first => .sees (by decide) ?_ carries_pure
  exact (carries_checkString first).bind fun _ => (part.followers (by decide)).bind fun _ => carries_placed

theorem carries_valueFor (n : Nat) : Carries [] [] (valueFor n) := by
  induction n with
  | zero => exact carries_unexpected
  | succ n ih => exact carries_concatenation (carries_primary ih)

/-- A value of version 2.0 is read as the same value in version 2.1. -/
theorem carries_value : Carries [] [] Grammar.value := .bounded carries_valueFor

/-! ### Values that are a primary -/

variable {v : Version} {t : State} {o : Operand}

theorem arithmetic_alone {first second : Kind × ArithOp} {item : Parse Operand} (h : item v s = .ok (o, t))
    (ends : operatorOf first second t.current.word = none) :
    ∃ expected, arithmetic first second item v s = .ok (o, { t with expected }) := by
  obtain ⟨expected, seen⟩ := peeks_operator (v := v) first second t
  refine ⟨expected, ?_⟩
  rw [ends] at seen
  rw [arithmetic, place_bind, bind_eq h]
  change iterateFor (arithmetic.round first second item s.current.start) (t.rest.length + 1) o v t = _
  rw [iterateFor, bind_eq (show arithmetic.round first second item s.current.start o v t = .ok (none, _) by
    rw [arithmetic.round, bind_eq seen]; rfl)]
  rfl

theorem other_of_ends {k k' : Kind} (ends : Kind.goesOn k = false) (goesOn : Kind.goesOn k' = true) : k ≠ k' := by
  rintro rfl
  rw [goesOn] at ends
  cases ends

theorem additive_alone (h : signed base v s = .ok (o, t)) (ends : Kind.goesOn t.current.kind = false) :
    ∃ expected, additive base v s = .ok (o, { t with expected }) := by
  have other {k : Kind} (goesOn : Kind.goesOn k = true) : t.current.kind ≠ k := other_of_ends ends goesOn
  obtain ⟨expected, product⟩ : ∃ expected, arithmetic (.star, .mul) (.slash, .div) (signed base) v s =
      .ok (o, { t with expected }) := arithmetic_alone h (operatorOf_none (other rfl) (other rfl))
  exact arithmetic_alone (t := { t with expected }) product (operatorOf_none (other rfl) (other rfl))

theorem concatenation_alone (h : signed base v s = .ok (o, t)) (ends : Kind.goesOn t.current.kind = false) :
    ∃ expected, concatenation base v s = .ok (o, { t with expected }) := by
  obtain ⟨expected, sum⟩ := additive_alone h ends
  refine ⟨Kind.concat.describe :: expected, ?_⟩
  rw [concatenation, place_bind, bind_eq sum]
  change (if (t.current.kind == .concat) = true then _ else _ : Parse Operand) v _ = _
  rw [if_neg (mt beq_iff_eq.1 (other_of_ends ends rfl))]
  rfl

theorem eatElse_miss {α : Type} {kind : Kind} {p q : Parse α} (miss : s.current.kind ≠ kind) :
    (eat kind >>= fun eaten => if eaten then p else q) v s =
      q v { s with expected := kind.describe :: s.expected } := bind_eq (eat_miss miss)

theorem signed_unsigned (base : Parse Operand) (opens : Kind.opensPrimary s.current.kind = true) :
    ∃ expected, signed base v s = base v { s with expected } := by
  have noSign {k : Kind} (sign : Kind.opensPrimary k = false) : s.current.kind ≠ k := by
    rintro rfl
    rw [opens] at sign
    cases sign
  refine ⟨Kind.plus.describe :: Kind.minus.describe :: s.expected, ?_⟩
  change signedFor base (s.rest.length + 1) v s = _
  rw [signedFor, place_bind, eatElse_miss (noSign rfl), eatElse_miss]
  exact noSign rfl

/-- A primary that no sign precedes and no operator follows is all of a value. -/
theorem value_alone {P : State → Prop} (opens : Kind.opensPrimary s.current.kind = true)
    (read : ∀ expected, ∃ t,
      primary (call (valueFor s.rest.length)) (valueFor s.rest.length) v { s with expected } = .ok (o, t) ∧
        Kind.goesOn t.current.kind = false ∧ ∀ expected, P { t with expected }) :
    ∃ t, Grammar.value v s = .ok (o, t) ∧ P t := by
  obtain ⟨expected, unsigned⟩ :=
    signed_unsigned (v := v) (primary (call (valueFor s.rest.length)) (valueFor s.rest.length)) opens
  obtain ⟨t, primary, ends, hP⟩ := read expected
  obtain ⟨_, whole⟩ := concatenation_alone (unsigned.trans primary) ends
  exact ⟨_, whole, hP _⟩

end SkyQuery.Grammar
