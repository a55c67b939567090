import SkyQuery.Proofs.Ordered.Rows

/-!
# The order of values

`value_ordered`: the values in a value that is read stand in the order in which the value lists them.
-/

namespace SkyQuery.Grammar

open Parse

variable {v : Version} {tokens : List Token} {i j k : Nat} {value : Parse Operand}

/-- Begun at the token `i`, the reader reads an expression with its span from there. -/
abbrev BeginsOperand (v : Version) (tokens : List Token) (i k : Nat) (p : Parse Operand) : Prop :=
  Ends v tokens k p fun j o => InRow tokens i j [.operand o]

/-- The reader reads one expression. -/
abbrev OrderedOperand (v : Version) (tokens : List Token) (p : Parse Operand) : Prop :=
  Ordered v tokens (fun o => [.operand o]) p

theorem begins_operand {make : Option Span → Operand} {os : List Operand} (here : ∀ span, (make span).span = span)
    (parts : ∀ span, (make span).children = os) (h : InRow tokens i k (os.map .operand)) :
    BeginsOperand v tokens i k (do return make (← spanFrom (startOf tokens i))) :=
  ends_part .operand here (fun span => congrArg (List.map Part.operand) (parts span)) h

/-! ### Calls -/

section Calls

variable {start : Place} (hv : OrderedOperand v tokens value)

include hv

theorem arguments_ordered : Ordered v tokens (fun args => args.map .operand) (arguments value) := by
  refine fun k => (moves_expect _).bind fun a _ ka => (moves_eat _).bind fun b _ ab => ?_
  refine .ite (fun _ => ends_pure (.nil (by omega))) fun _ => ?_
  refine (hv.sepBy_single b).bind fun c args bc hargs => (moves_expect _).bind fun j _ cj => ends_pure ?_
  exact hargs.widen (by omega) cj

theorem mathCall_ordered (fn : MathFn) (ik : i ≤ k) : BeginsOperand v tokens i k (mathCall value fn (startOf tokens i)) := by
  refine (arguments_ordered hv k).bind fun a args ka hargs => .ite (fun _ => ends_wrongArity) fun _ => ?_
  refine (looks_checkAll looks_checkNumeric args).moves.bind fun j _ aj => ?_
  exact begins_operand (fun _ => rfl) (fun _ => rfl) (hargs.widen ik aj)

theorem argument_ordered (fn : AggregateFn) (distinct : Bool) :
    Ordered v tokens (fun arg => arg.toList.map .operand) (aggregateCall.argument value fn distinct) := by
  have given : Ordered v tokens (fun arg => arg.toList.map .operand) (do
      let arg ← value
      if fn == .avg || fn == .sum then checkNumeric arg
      return some arg) := by
    refine fun k => (hv k).bind fun a arg ka harg => .ite (fun _ => ?_) fun _ => ends_pure harg
    exact (looks_checkNumeric arg).moves.bind fun j _ aj => ends_pure (harg.later aj)
  unfold aggregateCall.argument
  refine fun k => .ite (fun _ => (moves_eat _).bind fun a _ ka => ?_) fun _ => given k
  exact .ite (fun _ => ends_pure (.nil ka)) fun _ => (given a).mono fun j arg _ h => h.earlier ka

theorem aggregateCall_ordered (fn : AggregateFn) (ik : i ≤ k) :
    BeginsOperand v tokens i k (aggregateCall value fn (startOf tokens i)) := by
  refine (moves_expect _).bind fun a _ ka => rereads_quantifier.moves.bind fun b distinct ab => ?_
  refine (argument_ordered hv fn distinct b).bind fun c arg bc harg => (moves_expect _).bind fun j _ cj => ?_
  exact begins_operand (fun _ => rfl) (fun _ => rfl) (harg.widen (by omega) cj)

theorem castCall_ordered (ik : i ≤ k) : BeginsOperand v tokens i k (castCall value (startOf tokens i)) := by
  refine (moves_expect _).bind fun a _ ka => (hv a).bind fun b arg ab harg => (moves_expect _).bind fun c _ bc => ?_
  refine rereads_castType.moves.bind fun d target cd => (moves_expect _).bind fun j _ dj => ?_
  exact begins_operand (fun _ => rfl) (fun _ => rfl) (harg.widen (by omega) (by omega))

omit hv in
theorem shape_ordered {fn : GeometryFn} {args : List Operand} (hargs : InRow tokens i k (args.map .operand)) :
    BeginsOperand v tokens i k (shape fn args (startOf tokens i)) := by
  have fits (sys : Option Operand) (coordinates : List Operand) (k : Nat)
      (parts : InRow tokens i k ((sys.toList ++ coordinates).map .operand)) :
      BeginsOperand v tokens i k (fittedShape v fn sys coordinates args.length (startOf tokens i)) := by
    unfold fittedShape
    cases shapeForm? v fn coordinates.length ((coordinates.head?.map isPointLike).getD false) with
    | none => exact ends_wrongArity
    | some form =>
      refine (looks_checkShape form coordinates).moves.bind fun j _ kj => ?_
      exact begins_operand (fun _ => rfl) (fun _ => rfl) (parts.later kj)
  change Ends v tokens k (if v == .v20 || startsWithCoordSys fn args then _ else fittedShape v fn none args _ _ : Parse Operand) _
  refine .ite (fun _ => ?_) fun _ => fits none args k hargs
  cases args with
  | nil => exact ends_wrongArity
  | cons sys coordinates =>
    exact (looks_checkString sys).moves.bind fun j _ kj => fits (some sys) coordinates j (hargs.later kj)

theorem geometryCall_ordered (fn : GeometryFn) (ik : i ≤ k) :
    BeginsOperand v tokens i k (geometryCall value fn (startOf tokens i)) := by
  refine (arguments_ordered hv k).bind fun a args ka hargs => ?_
  have hargs := hargs.earlier ik
  refine .ite (fun _ => shape_ordered hargs) fun _ => (looks_checkGeometryArgs fn args _).moves.bind fun j _ aj => ?_
  exact begins_operand (fun _ => rfl) (fun _ => rfl) (hargs.later aj)

theorem stringArgument_ordered (name : String) : OrderedOperand v tokens (stringArgument value name start) := by
  refine fun k => (arguments_ordered hv k).bind fun a args ka hargs => ?_
  split
  · rename_i arg
    exact (looks_checkString arg).moves.bind fun j _ aj => ends_pure (hargs.later aj)
  · exact ends_wrongArity

theorem inUnitCall_ordered (ik : i ≤ k) : BeginsOperand v tokens i k (inUnitCall value (startOf tokens i)) := by
  refine (arguments_ordered hv k).bind fun a args ka hargs => ?_
  split
  · rename_i arg unit
    refine (looks_checkNumeric arg).moves.bind fun b _ ab => (looks_checkString unit).moves.bind fun j _ bj => ?_
    exact begins_operand (fun _ => rfl) (fun _ => rfl) (hargs.widen ik (Nat.le_trans ab bj))
  · exact ends_wrongArity

theorem coalesceCall_ordered (ik : i ≤ k) : BeginsOperand v tokens i k (coalesceCall value (startOf tokens i)) := by
  refine (arguments_ordered hv k).bind fun j args kj hargs => ?_
  split
  · exact ends_wrongArity
  · exact begins_operand (fun _ => rfl) (fun _ => rfl) (hargs.earlier ik)

theorem call_ordered (k : Nat) : BeginsOperand v tokens k k (call value) := by
  have string (name : String) (j : Nat) (kj : k ≤ j) {make : Operand → Option Span → Operand}
      (here : ∀ o span, (make o span).span = span) (alone : ∀ o span, (make o span).children = [o]) :
      BeginsOperand v tokens k j (do
        return make (← stringArgument value name (startOf tokens k)) (← spanFrom (startOf tokens k))) := by
    refine (stringArgument_ordered hv name j).bind fun l o jl ho => ?_
    exact begins_operand (here o) (alone o) (ho.earlier kj)
  refine .place (moves_advance.bind fun j name kj => ?_)
  split
  · exact aggregateCall_ordered hv _ kj
  · exact mathCall_ordered hv _ kj
  · exact geometryCall_ordered hv _ kj
  · exact string "LOWER" j kj (fun _ _ => rfl) fun _ _ => rfl
  · exact string "UPPER" j kj (fun _ _ => rfl) fun _ _ => rfl
  · exact coalesceCall_ordered hv kj
  · exact inUnitCall_ordered hv kj
  · exact castCall_ordered hv kj
  · refine (arguments_ordered hv j).bind fun l args jl hargs => ?_
    exact begins_operand (fun _ => rfl) (fun _ => rfl) (hargs.earlier kj)

end Calls

/-! ### Values -/

theorem columnRef_ordered : OrderedOperand v tokens columnRef := by
  refine fun k => .place ((rereads_dotted 3).moves.bind fun j parts kj => ?_)
  cases ColumnRef.ofParts? parts with
  | none => exact ends_unexpected
  | some ref => exact begins_operand (fun _ => rfl) (fun _ => rfl) (.nil kj)

theorem primary_ordered (hv : OrderedOperand v tokens value) : OrderedOperand v tokens (primary (call value) value) := by
  refine fun k => .place (looks_current.bind fun next => .ite (fun _ => ?_) fun _ => .ite (fun _ => ?_) fun _ => ?_)
  · exact moves_advance.bind fun j _ kj => begins_operand (fun _ => rfl) (fun _ => rfl) (.nil kj)
  · exact moves_literals.bind fun j _ kj => begins_operand (fun _ => rfl) (fun _ => rfl) (.nil kj)
  refine .ite (fun _ => ?_) fun _ => looks_seesCall.bind fun called => .ite (fun _ => call_ordered hv k) fun _ => ?_
  · refine moves_advance.bind fun a _ ka => (hv a).bind fun b inner ab hinner => (moves_expect _).bind fun j _ bj => ?_
    exact begins_operand (fun _ => rfl) (fun _ => rfl) (hinner.widen ka bj)
  refine looks_atIdentifier.bind fun named => .ite (fun _ => columnRef_ordered k) fun _ => ?_
  exact (looks_expecting _).bind fun _ => ends_unexpected

section Levels

variable {base item : Parse Operand}

theorem signedFor_ordered (hbase : OrderedOperand v tokens base) (n : Nat) : OrderedOperand v tokens (signedFor base n) := by
  induction n with
  | zero => exact hbase
  | succ n ih =>
    refine fun k => .place ((moves_eat _).bind fun a _ ka => .ite (fun _ => ?_) fun _ => (moves_eat _).bind fun b _ ab => ?_)
    · refine (ih a).bind fun b inner ab hinner => (looks_checkNumeric inner).moves.bind fun j _ bj => ?_
      exact begins_operand (fun _ => rfl) (fun _ => rfl) (hinner.widen ka bj)
    refine .ite (fun _ => ?_) fun _ => ?_
    · refine (ih b).bind fun c inner bc hinner => (looks_checkNumeric inner).moves.bind fun j _ cj => ends_pure ?_
      exact hinner.widen (Nat.le_trans ka ab) cj
    · exact (hbase b).mono fun j o _ h => h.earlier (Nat.le_trans ka ab)

/-- Each round of operators puts what was read before it first. -/
theorem arithmetic_ordered (first second : Kind × ArithOp) (hitem : OrderedOperand v tokens item) :
    OrderedOperand v tokens (arithmetic first second item) := by
  refine fun k => .place ((hitem k).bind fun a left ka hleft => .iterate hleft (fun j left aj hleft => ?_) fun _ _ _ jl h => ?_)
  · refine (moves_operator first second).bind fun b found jb => ?_
    cases found with
    | none => exact ends_pure (by simp)
    | some op =>
      refine moves_advance.bind fun c _ bc => (hitem c).bind fun d right cd hright => ?_
      refine (looks_checkNumeric left).moves.bind fun e _ de => (looks_checkNumeric right).moves.bind fun l _ el => ?_
      refine .spanFrom (ends_pure fun o made => ?_)
      obtain rfl := Option.some.inj made
      exact .single rfl ((hleft.append hright (by omega)).later (by omega))
  · exact h.later jl

theorem concatenation_ordered (hadditive : OrderedOperand v tokens (additive base)) :
    OrderedOperand v tokens (concatenation base) := by
  have part : OrderedOperand v tokens (do
      let part ← additive base
      checkString part
      return part) := by
    refine fun k => (hadditive k).bind fun a o ka ho => (looks_checkString o).moves.bind fun j _ aj => ends_pure ?_
    exact ho.later aj
  refine fun k => .place ((hadditive k).bind fun a first ka hfirst => (looks_sees _).bind fun _ => .ite (fun _ => ?_) fun _ => ?_)
  · refine (looks_checkString first).moves.bind fun b _ ab => (part.followers_single b).bind fun j others bj hothers => ?_
    exact .spanFrom (ends_pure (.single rfl (hfirst.append hothers ab)))
  · exact ends_pure hfirst

end Levels

theorem valueFor_ordered (n : Nat) : OrderedOperand v tokens (valueFor n) := by
  induction n with
  | zero => exact fun _ => ends_unexpected
  | succ n ih =>
    have hsigned : OrderedOperand v tokens (signed (primaryFor n)) :=
      fun k => .bounded fun m => signedFor_ordered (primary_ordered ih) m k
    exact concatenation_ordered (arithmetic_ordered _ _ (arithmetic_ordered _ _ hsigned))

theorem value_ordered : OrderedOperand v tokens Grammar.value := fun k => .bounded fun n => valueFor_ordered n k

end SkyQuery.Grammar
