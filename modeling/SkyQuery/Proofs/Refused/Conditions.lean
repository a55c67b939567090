import SkyQuery.Proofs.Located.Conditions
import SkyQuery.Proofs.Refused.Values

/-!
# What is wrong with conditions

`blames_condition`: where no condition can be read, the complaint is about some tokens of the text, if this
holds of the queries in it. Where a parenthesis is neither that of a group nor that of a value, either
complaint may be kept.
-/

namespace SkyQuery.Grammar

open Parse

variable {v : Version} {tokens : List Token} {k : Nat} {query : Parse Query} {start : Place}

/-! ### Predicates -/

theorem blames_eatOperator (operators : List (Kind × ComparisonOp)) (k : Nat) : Blames v tokens k (eatOperator operators) := by
  induction operators generalizing k with
  | nil => exact blames_pure none
  | cons first others ih => exact .eatIf (fun _ _ => blames_pure (some first.2)) fun j _ => ih j

section Tails

variable {left : Operand} (range : IsRange tokens left.span)

include range

theorem blames_comparisonTail (op : ComparisonOp) (k : Nat) : Blames v tokens k (comparisonTail left op start) :=
  (blames_value k).step rereads_value.moves fun _ _ _ => .ite (fun _ => blames_placed) fun _ => blames_failAt rfl range

theorem blames_nullTail (k : Nat) : Blames v tokens k (nullTail left start) :=
  .eat fun _ _ _ => .expect (by nofun) fun _ _ _ => .ite (fun _ => blames_placed) fun _ => blames_failAt rfl range

theorem blames_patternTail (op : ComparisonOp) (k : Nat) : Blames v tokens k (patternTail left op start) := by
  refine (blames_value k).bind (value_located k) fun j pattern _ hpattern => ?_
  refine (blames_checkString range).step (looks_checkString left).moves fun l _ _ => ?_
  exact (blames_checkString (isRange_of_within hpattern)).placed

omit range

theorem blames_betweenTail (negated : Bool) (k : Nat) : Blames v tokens k (betweenTail left negated start) := by
  refine (blames_value k).step rereads_value.moves fun a low _ => .expect (by nofun) fun b _ _ => ?_
  exact (blames_value b).placed

variable (again : ∀ d, RereadsQuery v d query subquery) (hq : ∀ k, Blames v tokens k query)

include again hq

theorem blames_memberTail (negated : Bool) (k : Nat) : Blames v tokens k (memberTail query left negated start) := by
  refine .expect (by nofun) fun a _ _ => .sees fun _ => .ite (fun _ => ?_) fun _ => ?_
  · exact (hq a).step (again 0).moves fun b source _ => .expect (by nofun) fun _ _ _ => blames_placed
  · refine (blames_sepBy rereads_value.moves blames_value a).step (rereads_value.sepBy (by nofun)).moves fun b values _ => ?_
    exact .expect (by nofun) fun _ _ _ => blames_placed

theorem blames_predicate (k : Nat) : Blames v tokens k (predicate query) := by
  refine .place ((blames_value k).bind (value_located k) fun a tested _ found => ?_)
  have range := isRange_of_within found
  refine (blames_eatOperator comparisons a).step (rereads_eatOperator comparisons_inside).moves fun b op _ => ?_
  cases op with
  | some op => exact blames_comparisonTail range op b
  | none =>
    refine .eatIf (fun j _ => blames_nullTail range j) fun c _ => .eat fun d negated _ => ?_
    refine .eatIf (fun j _ => blames_betweenTail negated j) fun e _ => ?_
    refine .eatIf (fun j _ => blames_patternTail range _ j) fun e _ => ?_
    refine .eatIf (fun j _ => blames_patternTail range _ j) fun e _ => ?_
    exact .eatIf (fun j _ => blames_memberTail again hq negated j) fun _ _ => blames_unexpected

theorem blames_existsTail (k : Nat) : Blames v tokens k (existsTail query start) :=
  .expect (by nofun) fun a _ _ => (hq a).step (again 0).moves fun _ _ _ => .expect (by nofun) fun _ _ _ => blames_placed

end Tails

/-! ### Groups -/

theorem blames_grouped {nested : Parse Constraint} (moves : Moves v nested) (h : ∀ k, Blames v tokens k nested) (k : Nat) :
    Blames v tokens k (grouped nested) := by
  refine .place (.expect (by nofun) fun a _ _ => (h a).step moves fun b inner _ => ?_)
  exact .expect (by nofun) fun _ _ _ => blames_placed

section Conditions

variable {item : Parse Constraint} {word : Keyword} {connect : Constraint → Constraint → Option Span → Constraint}

theorem moves_connectedRound (moves : Moves v item) (start : Place) (left : Constraint) :
    Moves v (connected.round word connect item start left) := by
  unfold connected.round
  refine fun _ _ => .eatIf (fun _ _ => moves.bind fun _ _ _ => ?_) (ends_pure trivial)
  exact (looks_spanFrom start).bind fun _ => ends_pure trivial

theorem moves_connected (moves : Moves v item) : Moves v (connected word connect item) :=
  looks_place.moves.seq fun start => moves.seq (moves_iterate (moves_connectedRound moves start))

theorem blames_connected (moves : Moves v item) (h : ∀ k, Blames v tokens k item) (k : Nat) :
    Blames v tokens k (connected word connect item) := by
  refine .place ((h k).step moves fun j left _ => .rounds (moves_connectedRound moves _) (fun l left => ?_) left)
  exact .eatIf (fun a _ => (h a).placed) fun _ _ => blames_pure none

variable (again : ∀ d, RereadsQuery v d query subquery) (hq : ∀ k, Blames v tokens k query)

include again hq

theorem blames_negationsFor {n : Nat} (hc : ∀ k, Blames v tokens k (conditionFor query n)) (m k : Nat) :
    Blames v tokens k (negationsFor query n m) := by
  induction m generalizing k with
  | zero => exact blames_unexpected
  | succ m ih =>
    refine .place (.eatIf (fun a _ => (ih a).placed) fun a _ => .eatIf (fun b _ => blames_existsTail again hq b) fun b _ => ?_)
    refine .current fun _ => .second fun _ => .ite (fun _ => ?_) fun _ => blames_predicate again hq b
    exact (blames_grouped (rereads_conditionFor (again 0) n 0).moves hc b).either (blames_predicate again hq b)

theorem blames_conditionFor (n k : Nat) : Blames v tokens k (conditionFor query n) := by
  induction n generalizing k with
  | zero => exact blames_unexpected
  | succ n ih =>
    have negations (k : Nat) : Blames v tokens k (negation query (conditionFor query n)) :=
      .bounded fun m => blames_negationsFor again hq ih m k
    have moves : Moves v (negation query (conditionFor query n)) := by
      refine fun _ _ => .bounded fun m => ?_
      exact (rereads_negationsFor again n m 0 0).moves _ _
    exact blames_connected (moves_connected moves) (blames_connected moves negations) k

theorem blames_condition (k : Nat) : Blames v tokens k (condition query) := .bounded fun n => blames_conditionFor again hq n k

end Conditions

end SkyQuery.Grammar
