import SkyQuery.Proofs.Progress.Values
import SkyQuery.Proofs.Refused.Conditions

/-!
# What conditions call

A predicate calls values where it starts and queries after a parenthesis; a negation tries a group, which
calls a condition after its parenthesis, before a predicate. `descends_negation` and `descends_condition`
are the equations of the two that call themselves.
-/

namespace SkyQuery.Grammar

open Parse

variable {v : Version} {tokens : List Token} {j k : Nat} {value value' : Parse Operand} {query query' : Parse Query}
  {nested nested' item item' : Parse Constraint} {start : Place}

/-! ### Predicates -/

/-- What follows a comparison operator. -/
def comparisonTailOf (value : Parse Operand) (left : Operand) (op : ComparisonOp) (start : Place) : Parse Constraint := do
  let right ← value
  if comparable left right then return .comparison left op right (← spanFrom start)
  else
    failAt .incompatibleTypes ("Type mismatch! Impossible to compare \"" ++ left.render ++
      "\" and \"" ++ right.render ++ "\" with \"" ++ op.symbol ++ "\": incompatible types.")
      left.span

/-- `value AND value` -/
def betweenTailOf (value : Parse Operand) (tested : Operand) (negated : Bool) (start : Place) : Parse Constraint := do
  let low ← value
  let _ ← expect (.keyword .andKw)
  let high ← value
  return .between tested low high negated (← spanFrom start)

/-- What follows `LIKE` and `ILIKE`. -/
def patternTailOf (value : Parse Operand) (matched : Operand) (op : ComparisonOp) (start : Place) : Parse Constraint := do
  let pattern ← value
  checkString matched
  checkString pattern
  return .comparison matched op pattern (← spanFrom start)

/-- `( query | value (, value)* )` -/
def memberTailOf (value : Parse Operand) (query : Parse Query) (tested : Operand) (negated : Bool) (start : Place) :
    Parse Constraint := do
  let _ ← expect .leftParen
  if ← sees (.keyword .selectKw) then
    let source ← query
    let _ ← expect .rightParen
    return .inQuery tested source negated (← spanFrom start)
  else
    let values ← commaSeparated value
    let _ ← expect .rightParen
    return .inValues tested values negated (← spanFrom start)

/-- A predicate, with the readers of its values and of its queries. -/
def predicateOf (value : Parse Operand) (query : Parse Query) : Parse Constraint := do
  let start ← place
  let tested ← value
  match ← eatOperator comparisons with
  | some op => comparisonTailOf value tested op start
  | none =>
    if ← eat (.keyword .isKw) then nullTail tested start
    else
      let negated ← eat (.keyword .notKw)
      if ← eat (.keyword .betweenKw) then betweenTailOf value tested negated start
      else if ← eat (.keyword .likeKw) then
        patternTailOf value tested (if negated then .notLike else .like) start
      else if ← eat (.keyword .ilikeKw) then
        patternTailOf value tested (if negated then .notIlike else .ilike) start
      else if ← eat (.keyword .inKw) then memberTailOf value query tested negated start
      else unexpected

theorem predicate_eq (query : Parse Query) : predicate query = predicateOf Grammar.value query := rfl

theorem moves_nullTail (tested : Operand) : Moves v (nullTail tested start) := by
  have reads : RereadsCondition false v 0 (nullTail tested start) (nullTail tested start) := rereads_nullTail rfl
  exact reads.moves

section Predicates

variable (hv : Onward v tokens k value value')

include hv

theorem agree_comparisonTailOf (left : Operand) (op : ComparisonOp) :
    Agree v tokens k (comparisonTailOf value left op start) (comparisonTailOf value' left op start) :=
  hv.here.bind fun _ _ _ => .ite (fun _ => agree_placed) fun _ => looks_failAt.agree

theorem agree_betweenTailOf (tested : Operand) (negated : Bool) :
    Agree v tokens k (betweenTailOf value tested negated start) (betweenTailOf value' tested negated start) := by
  refine hv.here.bind fun a low ka => .expect (by nofun) fun b _ ab => ?_
  exact (hv b (Nat.le_trans ka (Nat.le_of_lt ab))).placed

theorem agree_patternTailOf (matched : Operand) (op : ComparisonOp) :
    Agree v tokens k (patternTailOf value matched op start) (patternTailOf value' matched op start) := by
  refine hv.here.bind fun a pattern _ => .look (looks_checkString matched) fun _ => ?_
  exact .look (looks_checkString pattern) fun _ => agree_placed

variable (hq : Later v tokens k query query')

include hq

theorem agree_memberTailOf (tested : Operand) (negated : Bool) :
    Agree v tokens k (memberTailOf value query tested negated start) (memberTailOf value' query' tested negated start) := by
  refine .expect (by nofun) fun a _ ka => .look (looks_sees _) fun _ => .ite (fun _ => ?_) fun _ => ?_
  · exact (hq a ka).bind fun b source _ => .expect (by nofun) fun _ _ _ => agree_placed
  · refine ((hv.mono (Nat.le_of_lt ka)).sepBy (by nofun)).bind fun b values _ => ?_
    exact .expect (by nofun) fun _ _ _ => agree_placed

theorem agree_predicateOf : Agree v tokens k (predicateOf value query) (predicateOf value' query') := by
  refine .place fun start => hv.here.bind fun a tested ka => .step (rereads_eatOperator comparisons_inside).moves fun b op ab => ?_
  have kb := Nat.le_trans ka ab
  cases op with
  | some op => exact agree_comparisonTailOf (hv.mono kb) tested op
  | none =>
    refine .eatIf (by nofun) (fun _ _ => (moves_nullTail tested).agree) (.step (moves_eat _) fun c negated bc => ?_)
    have kc := Nat.le_trans kb bc
    have later {j : Nat} (cj : c < j) := Nat.le_trans kc (Nat.le_of_lt cj)
    refine .eatIf (by nofun) (fun j cj => agree_betweenTailOf (hv.mono (later cj)) tested negated) ?_
    refine .eatIf (by nofun) (fun j cj => agree_patternTailOf (hv.mono (later cj)) tested _) ?_
    refine .eatIf (by nofun) (fun j cj => agree_patternTailOf (hv.mono (later cj)) tested _) ?_
    exact .eatIf (by nofun) (fun j cj => agree_memberTailOf (hv.mono (later cj)) (hq.mono (later cj)) tested negated) agree_unexpected

end Predicates

/-! ### Groups and negations -/

theorem agree_grouped (h : Later v tokens k nested nested') : Agree v tokens k (grouped nested) (grouped nested') := by
  refine .place fun start => .expect (by nofun) fun a _ ka => (h a ka).bind fun b inner _ => ?_
  exact .expect (by nofun) fun _ _ _ => agree_placed

theorem agree_existsTail (hq : Later v tokens k query query') :
    Agree v tokens k (existsTail query start) (existsTail query' start) :=
  .expect (by nofun) fun a _ ka => (hq a ka).bind fun _ _ _ => .expect (by nofun) fun _ _ _ => agree_placed

/-- `NOT negation | EXISTS ( query ) | group | predicate` -/
def negationOf (query : Parse Query) (negation group predicate : Parse Constraint) : Parse Constraint := do
  let start ← place
  if ← eat (.keyword .notKw) then
    let inner ← negation
    return .not inner (← spanFrom start)
  else if ← eat (.keyword .existsKw) then existsTail query start
  else if (← current).kind == .leftParen && (← second).kind != .keyword .selectKw then
    either group predicate
  else predicate

theorem agree_negationOf {group group' predicate predicate' : Parse Constraint} (hq : Later v tokens k query query')
    (hn : Later v tokens k nested nested') (hg : Agree v tokens k group group') (hp : Agree v tokens k predicate predicate') :
    Agree v tokens k (negationOf query nested group predicate) (negationOf query' nested' group' predicate') := by
  refine .place fun start => .eatIf (by nofun) (fun a ka => (hn a ka).placed) ?_
  refine .eatIf (by nofun) (fun a ka => agree_existsTail (hq.mono (Nat.le_of_lt ka))) ?_
  exact .look looks_current fun _ => .look looks_second fun _ => .ite (fun _ => hg.either hp) fun _ => hp

/-- A negation calls itself after `NOT`. -/
theorem descends_negation (hq : Moves v query) (hg : Moves v (grouped nested)) (hp : Moves v (predicate query)) :
    Descends v tokens (fun _ => 0) (fun negation (_ : Unit) => negationOf query (negation ()) (grouped nested) (predicate query))
      fun _ => negation query nested :=
  descends_bounded (fun n _ => negationFor query nested n) (fun _ _ => rfl) fun _ _ _ _ h =>
    agree_negationOf hq.onward.later (h ()) hg.agree hp.agree

theorem Later.negation (hq : Later v tokens k query query') (hc : Later v tokens k nested nested') :
    Onward v tokens k (negation query nested) (negation query' nested') := by
  refine fun j kj => .bounded fun n => ?_
  induction n generalizing j with
  | zero => exact agree_unexpected
  | succ n ih =>
    have hq := hq.mono kj
    refine agree_negationOf hq (fun l jl => ih l (Nat.le_trans kj (Nat.le_of_lt jl))) (agree_grouped (hc.mono kj)) ?_
    rw [predicate_eq, predicate_eq]
    exact agree_predicateOf rereads_value.moves.onward hq

/-! ### Connections -/

section Connections

variable {word : Keyword} {connect : Constraint → Constraint → Option Span → Constraint}

theorem agree_connectedRound (h : Later v tokens k item item') (start : Place) (left : Constraint) :
    Agree v tokens k (connected.round word connect item start left) (connected.round word connect item' start left) :=
  .eatIf (by nofun) (fun j kj => (h j kj).placed) (agree_pure none)

theorem Onward.connected (h : Onward v tokens k item item') :
    Onward v tokens k (connected word connect item) (connected word connect item') := by
  refine fun j kj => .place fun start => (h j kj).bind fun l left jl => .iterate (fun left m lm => ?_) left
  exact agree_connectedRound (h.mono (Nat.le_trans kj (Nat.le_trans jl lm))).later start left

end Connections

/-- A condition calls itself after the parenthesis of a group. -/
theorem descends_condition (hq : Moves v query) : Descends v tokens (fun _ => 0)
    (fun condition (_ : Unit) => connected .orKw .or (connected .andKw .and (negation query (condition ()))))
    fun _ => condition query :=
  descends_bounded (fun n _ => conditionFor query n) (fun _ _ => rfl) fun _ _ _ _ h =>
    (hq.onward.later.negation (h ())).connected.connected.here

theorem Later.condition (hq : Later v tokens k query query') : Onward v tokens k (condition query) (condition query') := by
  refine fun j kj => .bounded fun n => ?_
  induction n generalizing j with
  | zero => exact agree_unexpected
  | succ n ih =>
    have hc : Later v tokens j (conditionFor query n) (conditionFor query' n) := fun l jl => ih l (Nat.le_trans kj (Nat.le_of_lt jl))
    exact ((hq.mono kj).negation hc).connected.connected.here

end SkyQuery.Grammar
