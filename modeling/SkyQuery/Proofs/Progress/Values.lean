import SkyQuery.Proofs.Progress.Steps
import SkyQuery.Proofs.Refused.Values

/-!
# What values call

Each production of values with the readers that it calls as parameters: `agree_call` and the lemmas before
it tell which of them it calls where it starts, and which only after a further token. `descends_value`
and `descends_signed` are the equations of the two that call themselves.
-/

namespace SkyQuery.Grammar

open Parse

variable {v : Version} {tokens : List Token} {j k : Nat} {α : Type} {value value' item item' base base' : Parse Operand}

/-! ### Calls -/

section Calls

variable (h : Later v tokens k value value')

include h

theorem agree_arguments : Agree v tokens k (arguments value) (arguments value') := by
  refine .expect (by nofun) fun a _ ka => .eatIf (by nofun) (fun _ _ => agree_pure []) ?_
  refine ((h.onward ka).sepBy (by nofun)).bind fun b args _ => ?_
  exact .expect (by nofun) fun _ _ _ => agree_pure args

theorem agree_mathCall (fn : MathFn) (start : Place) :
    Agree v tokens k (mathCall value fn start) (mathCall value' fn start) := by
  refine (agree_arguments h).bind fun j args _ => .ite (fun _ => looks_wrongArity.agree) fun _ => ?_
  exact .look (looks_checkAll looks_checkNumeric args) fun _ => agree_placed

theorem agree_geometryCall (fn : GeometryFn) (start : Place) :
    Agree v tokens k (geometryCall value fn start) (geometryCall value' fn start) := by
  refine (agree_arguments h).bind fun j args _ => .ite (fun _ => ?_) fun _ => ?_
  · have reads : Rereads false v [] 0 (fun _ => False) (shape fn args start) (shape fn args start) Operand.unplaced :=
      rereads_shape fn rfl
    exact reads.moves.agree
  · exact .look (looks_checkGeometryArgs fn args start) fun _ => agree_placed

theorem agree_stringArgument (name : String) (start : Place) :
    Agree v tokens k (stringArgument value name start) (stringArgument value' name start) := by
  refine (agree_arguments h).bind fun j args _ => ?_
  split
  · exact .look (looks_checkString _) fun _ => agree_pure _
  · exact looks_wrongArity.agree

theorem agree_inUnitCall (start : Place) : Agree v tokens k (inUnitCall value start) (inUnitCall value' start) := by
  refine (agree_arguments h).bind fun j args _ => ?_
  split
  · exact .look (looks_checkNumeric _) fun _ => .look (looks_checkString _) fun _ => agree_placed
  · exact looks_wrongArity.agree

theorem agree_coalesceCall (start : Place) : Agree v tokens k (coalesceCall value start) (coalesceCall value' start) := by
  refine (agree_arguments h).bind fun j args _ => ?_
  split
  · exact looks_wrongArity.agree
  · exact agree_placed

theorem agree_aggregateCall (fn : AggregateFn) (start : Place) :
    Agree v tokens k (aggregateCall value fn start) (aggregateCall value' fn start) := by
  have given (distinct : Bool) {j : Nat} (kj : k < j) : Agree v tokens j (do
      let arg ← value
      if fn == .avg || fn == .sum then checkNumeric arg
      return some arg) (do
      let arg ← value'
      if fn == .avg || fn == .sum then checkNumeric arg
      return some arg) := by
    refine (h j kj).bind fun l arg _ => .ite (fun _ => ?_) fun _ => agree_pure (some arg)
    exact .look (looks_checkNumeric arg) fun _ => agree_pure (some arg)
  refine .expect (by nofun) fun a _ ka => .step rereads_quantifier.moves fun b distinct ab => Agree.bind ?_ fun c arg _ => ?_
  · unfold aggregateCall.argument
    have kb : k < b := Nat.lt_of_lt_of_le ka ab
    refine .ite (fun _ => .eatIf (by nofun) (fun _ _ => agree_pure none) ?_) fun _ => given distinct kb
    exact given distinct kb
  · exact .expect (by nofun) fun _ _ _ => agree_placed

theorem agree_castCall (start : Place) : Agree v tokens k (castCall value start) (castCall value' start) := by
  refine .expect (by nofun) fun a _ ka => (h a ka).bind fun b arg _ => .expect (by nofun) fun c _ _ => ?_
  exact .step rereads_castType.moves fun d target _ => .expect (by nofun) fun _ _ _ => agree_placed

/-- A call reads values after its name. -/
theorem agree_call : Agree v tokens k (call value) (call value') := by
  refine .place fun start => .step moves_advance fun j name kj => ?_
  have h := h.mono kj
  split
  · exact agree_aggregateCall h _ start
  · exact agree_mathCall h _ start
  · exact agree_geometryCall h _ start
  · exact (agree_stringArgument h "LOWER" start).placed
  · exact (agree_stringArgument h "UPPER" start).placed
  · exact agree_coalesceCall h start
  · exact agree_inUnitCall h start
  · exact agree_castCall h start
  · exact (agree_arguments h).placed

end Calls

/-! ### Names and literals -/

/-- One more part of a dotted name of at most so many, with the reader of those after it. -/
def dotted.once (more : Nat → Parse (List Identifier)) : Nat → Parse (List Identifier)
  | 0 => pure []
  | n + 1 => fun v s =>
    if s.current.kind == .dot && isIdentifier v s.second then
      (do
        let _ ← advance
        let part ← identifier
        let others ← more n
        return part :: others) v s
    else .ok ([], s)

theorem descends_dotted : Descends v tokens (fun _ => 0) dotted.once dottedFor := by
  refine ⟨fun k n q q' h => ?_, fun k n => ?_⟩
  · cases n with
    | zero => exact agree_pure []
    | succ n =>
      have more : Agree v tokens k (do
          let _ ← advance
          let part ← identifier
          let others ← q n
          return part :: others) (do
          let _ ← advance
          let part ← identifier
          let others ← q' n
          return part :: others) := by
        refine .step moves_advance fun a _ ka => rereads_identifier.moves.agree.after rereads_identifier.passes fun b _ _ ab => ?_
        exact (h b n (.inl (Nat.lt_of_le_of_lt ka ab))).map
      refine ⟨fun s hs => if_congr Iff.rfl (more.same s hs) rfl, fun s a t hs ha => ?_⟩
      simp only [dotted.once] at ha
      split at ha
      · exact more.ends s a t hs ha
      · cases ha
        exact ⟨k, Nat.le_refl k, hs, trivial⟩
  · rw [show dotted.once dottedFor n = dottedFor n by cases n <;> rfl]
    exact (rereads_dottedFor n).moves.agree

/-- One more of the literals in a row, with the reader of those after it. -/
def literals.once (more : Parse String) : Parse String := do
  if (← current).kind == .string then
    let text := (← advance).text
    return unquote text ++ (← more)
  else return ""

theorem descends_literals :
    Descends v tokens (fun _ => 0) (fun more (_ : Unit) => literals.once (more ())) fun _ => bounded literalsFor := by
  refine descends_bounded (fun n _ => literalsFor n) (fun _ _ => rfl) fun k _ q q' h => ?_
  refine .current fun next here => .ite (fun string => ?_) fun _ => agree_pure ""
  have inside (s : State) (hs : s.At tokens k) : s.current.kind ≠ .endOfText := by
    rw [here s hs, eq_of_beq string]
    nofun
  exact .advance inside fun j _ kj => (h () j kj).map

/-! ### Primaries and signs -/

/-- A primary calls what reads calls, and values after a parenthesis. -/
theorem agree_primary {call call' : Parse Operand} (hcall : Agree v tokens k call call') (h : Later v tokens k value value') :
    Agree v tokens k (primary call value) (primary call' value') := by
  refine .place fun start => .current fun next here => .ite (fun _ => ?_) fun _ => ?_
  · exact .step moves_advance fun _ _ _ => agree_placed
  refine .ite (fun _ => .step moves_literals fun _ _ _ => agree_placed) fun _ => .ite (fun paren => ?_) fun _ => ?_
  · have inside (s : State) (hs : s.At tokens k) : s.current.kind ≠ .endOfText := by
      rw [here s hs, eq_of_beq paren]
      nofun
    refine .advance inside fun a _ ka => (h a ka).bind fun b inner _ => ?_
    exact .expect (by nofun) fun _ _ _ => agree_placed
  refine .look looks_seesCall fun _ => .ite (fun _ => hcall) fun _ => .look looks_atIdentifier fun _ => ?_
  exact .ite (fun _ => rereads_columnRef.moves.agree) fun _ => .look (looks_expecting _) fun _ => agree_unexpected

/-- `(- | +) unary | primary` -/
def unaryOf (primary unary : Parse Operand) : Parse Operand := do
  let start ← place
  if ← eat .minus then
    let inner ← unary
    checkNumeric inner
    return .negative inner (← spanFrom start)
  else if ← eat .plus then
    let inner ← unary
    checkNumeric inner
    return inner
  else primary

theorem agree_unaryOf (hbase : Agree v tokens k base base') (h : Later v tokens k item item') :
    Agree v tokens k (unaryOf base item) (unaryOf base' item') := by
  refine .place fun start => .eatIf (by nofun) (fun j kj => (h j kj).bind fun l inner _ => ?_) ?_
  · exact .look (looks_checkNumeric inner) fun _ => agree_placed
  refine .eatIf (by nofun) (fun j kj => (h j kj).bind fun l inner _ => ?_) hbase
  exact .look (looks_checkNumeric inner) fun _ => agree_pure inner

/-- A sign calls what it stands before after itself. -/
theorem descends_signed (moves : Moves v base) :
    Descends v tokens (fun _ => 0) (fun unary (_ : Unit) => unaryOf base (unary ())) fun _ => signed base :=
  descends_bounded (fun n _ => signedFor base n) (fun _ _ => rfl) fun _ _ _ _ h => agree_unaryOf moves.agree (h ())

theorem Onward.signed (h : Onward v tokens k base base') : Onward v tokens k (signed base) (signed base') := by
  refine fun j kj => .bounded fun n => ?_
  induction n generalizing j with
  | zero => exact h j kj
  | succ n ih => exact agree_unaryOf (h j kj) fun l jl => ih l (Nat.le_trans kj (Nat.le_of_lt jl))

/-! ### Arithmetic -/

section Arithmetic

variable {first second : Kind × ArithOp}

theorem ends_operator (hfirst : first.1 ≠ .endOfText) (hsecond : second.1 ≠ .endOfText) :
    Ends v tokens k (arithmetic.operator first second) fun j found => j = k ∧ (found.isSome = true →
      ∀ s : State, s.At tokens k → s.current.kind ≠ .endOfText) := by
  intro s found t hs h
  obtain ⟨expected, seen⟩ := peeks_operator (v := v) first second s
  obtain ⟨rfl, rfl⟩ := Prod.mk.inj (Except.ok.inj (h.symm.trans seen))
  refine ⟨k, Nat.le_refl k, hs.expecting, rfl, fun some s' hs' ended => ?_⟩
  have ended : s.current.word.1 = .endOfText := by
    rw [hs.current_eq hs']
    exact ended
  rw [operatorOf, ended, beq_false_of_ne hfirst.symm, beq_false_of_ne hsecond.symm] at some
  cases some

theorem agree_round (hfirst : first.1 ≠ .endOfText) (hsecond : second.1 ≠ .endOfText) (h : Later v tokens k item item')
    (start : Place) (left : Operand) :
    Agree v tokens k (arithmetic.round first second item start left) (arithmetic.round first second item' start left) := by
  refine (moves_operator first second).agree.after (ends_operator hfirst hsecond) ?_
  rintro j found - ⟨rfl, inside⟩
  cases found with
  | none => exact agree_pure none
  | some op =>
    refine .advance (inside rfl) fun a _ ja => (h a ja).bind fun b right _ => ?_
    exact .look (looks_checkNumeric left) fun _ => .look (looks_checkNumeric right) fun _ => agree_placed

theorem Onward.arithmetic (hfirst : first.1 ≠ .endOfText) (hsecond : second.1 ≠ .endOfText) (h : Onward v tokens k item item') :
    Onward v tokens k (arithmetic first second item) (arithmetic first second item') := by
  refine fun j kj => .place fun start => (h j kj).bind fun l left jl => .iterate (fun left m lm => ?_) left
  exact agree_round hfirst hsecond (h.mono (Nat.le_trans kj (Nat.le_trans jl lm))).later start left

theorem Onward.additive (h : Onward v tokens k base base') : Onward v tokens k (additive base) (additive base') :=
  (h.signed.arithmetic (by nofun) (by nofun)).arithmetic (by nofun) (by nofun)

end Arithmetic

/-! ### Concatenations -/

/-- A further part, which is a string. -/
def concatenation.part (item : Parse Operand) : Parse Operand := do
  let part ← item
  checkString part
  return part

/-- `item (|| item)*` -/
def concatenationOf (item : Parse Operand) : Parse Operand := do
  let start ← place
  let first ← item
  if ← sees .concat then
    checkString first
    let others ← followers .concat (concatenation.part item)
    return .concatenation (first :: others) (← spanFrom start)
  else return first

theorem agree_part (h : Agree v tokens k item item') : Agree v tokens k (concatenation.part item) (concatenation.part item') :=
  h.bind fun _ part _ => .look (looks_checkString part) fun _ => agree_pure part

theorem Onward.concatenation (h : Onward v tokens k item item') :
    Onward v tokens k (concatenationOf item) (concatenationOf item') := by
  refine fun j kj => .place fun start => (h j kj).bind fun l first jl => .look (looks_sees _) fun _ => .ite (fun _ => ?_) fun _ => ?_
  · have parts : Later v tokens l (concatenation.part item) (concatenation.part item') :=
      fun m lm => agree_part (h m (Nat.le_trans kj (Nat.le_trans jl (Nat.le_of_lt lm))))
    exact .look (looks_checkString first) fun _ => (parts.followers (by nofun)).placed
  · exact agree_pure first

/-! ### Values -/

/-- A value calls values after a name or a parenthesis. -/
theorem descends_value : Descends v tokens (fun _ => 0)
    (fun value (_ : Unit) => concatenationOf (additive (primary (call (value ())) (value ())))) fun _ => Grammar.value := by
  refine descends_bounded (fun n _ => valueFor n) (fun _ _ => rfl) fun k _ q q' h => ?_
  have primaries : Onward v tokens k (primary (call (q ())) (q ())) (primary (call (q' ())) (q' ())) :=
    fun j kj => agree_primary (agree_call ((h ()).mono kj)) ((h ()).mono kj)
  exact primaries.additive.concatenation.here

end SkyQuery.Grammar
