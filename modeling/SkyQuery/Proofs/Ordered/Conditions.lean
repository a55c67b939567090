import SkyQuery.Proofs.Ordered.Values

/-!
# The order of conditions

`condition_ordered`: what is in a condition that is read stands in the order in which the condition lists it,
if this holds of the queries in it.
-/

namespace SkyQuery.Grammar

open Parse

variable {v : Version} {tokens : List Token} {i j k : Nat} {query : Parse Query}

/-- Begun at the token `i`, the reader reads a condition with its span from there. -/
abbrev BeginsCondition (v : Version) (tokens : List Token) (i k : Nat) (p : Parse Constraint) : Prop :=
  Ends v tokens k p fun j c => InRow tokens i j [.constraint c]

/-- The reader reads one condition. -/
abbrev OrderedCondition (v : Version) (tokens : List Token) (p : Parse Constraint) : Prop :=
  Ordered v tokens (fun c => [.constraint c]) p

/-- The reader reads one query. -/
abbrev OrderedQuery (v : Version) (tokens : List Token) (p : Parse Query) : Prop :=
  Ordered v tokens (fun q => [.query q]) p

theorem begins_condition {make : Option Span → Constraint} {ps : List Part} (here : ∀ span, (make span).span = span)
    (parts : ∀ span, (Part.constraint (make span)).children = ps) (h : InRow tokens i k ps) :
    BeginsCondition v tokens i k (do return make (← spanFrom (startOf tokens i))) :=
  ends_part .constraint here parts h

/-! ### Predicates -/

section Tails

variable {left : Operand} (hleft : InRow tokens i k [.operand left])

include hleft

theorem nullTail_ordered : BeginsCondition v tokens i k (nullTail left (startOf tokens i)) := by
  refine (moves_eat _).bind fun a negated ka => (moves_expect _).bind fun j _ aj => .ite (fun _ => ?_) fun _ => ends_failAt
  exact begins_condition (fun _ => rfl) (fun _ => rfl) (hleft.later (Nat.le_trans ka aj))

theorem comparisonTail_ordered (op : ComparisonOp) :
    BeginsCondition v tokens i k (comparisonTail left op (startOf tokens i)) := by
  refine (value_ordered k).bind fun j right kj hright => .ite (fun _ => ?_) fun _ => ends_failAt
  exact begins_condition (fun _ => rfl) (fun _ => rfl) (hleft.append hright (Nat.le_refl k))

theorem betweenTail_ordered (negated : Bool) :
    BeginsCondition v tokens i k (betweenTail left negated (startOf tokens i)) := by
  refine (value_ordered k).bind fun a low ka hlow => (moves_expect _).bind fun b _ ab => ?_
  refine (value_ordered b).bind fun j high bj hhigh => ?_
  exact begins_condition (fun _ => rfl) (fun _ => rfl) ((hleft.append hlow (Nat.le_refl k)).append hhigh ab)

theorem patternTail_ordered (op : ComparisonOp) :
    BeginsCondition v tokens i k (patternTail left op (startOf tokens i)) := by
  refine (value_ordered k).bind fun a pattern ka hpattern => (looks_checkString left).moves.bind fun b _ ab => ?_
  refine (looks_checkString pattern).moves.bind fun j _ bj => ?_
  have both := (hleft.append hpattern (Nat.le_refl k)).later (Nat.le_trans ab bj)
  exact begins_condition (fun _ => rfl) (fun _ => rfl) both

theorem memberTail_ordered (hq : OrderedQuery v tokens query) (negated : Bool) :
    BeginsCondition v tokens i k (memberTail query left negated (startOf tokens i)) := by
  refine (moves_expect _).bind fun a _ ka => (looks_sees _).bind fun _ => .ite (fun _ => ?_) fun _ => ?_
  · refine (hq a).bind fun b source ab hsource => (moves_expect _).bind fun j _ bj => ?_
    exact begins_condition (fun _ => rfl) (fun _ => rfl) ((hleft.append hsource ka).later bj)
  · refine (value_ordered.sepBy_single a).bind fun b values ab hvalues => (moves_expect _).bind fun j _ bj => ?_
    have parts (span : Option Span) : (Part.constraint (.inValues left values negated span)).children =
        [.operand left] ++ values.map .operand := by
      simp [Part.children, Constraint.operands, Constraint.children, Constraint.subqueries]
    exact begins_condition (fun _ => rfl) parts ((hleft.append hvalues ka).later bj)

end Tails

theorem predicate_ordered (hq : OrderedQuery v tokens query) : OrderedCondition v tokens (predicate query) := by
  refine fun k => .place ((value_ordered k).bind fun a tested ka h => ?_)
  refine (rereads_eatOperator comparisons_inside).moves.bind fun b found ab => ?_
  have h {l : Nat} (bl : b ≤ l) : InRow tokens k l [.operand tested] := h.later (Nat.le_trans ab bl)
  cases found with
  | some op => exact comparisonTail_ordered (h (Nat.le_refl b)) op
  | none =>
    refine .eatIf (fun j bj => nullTail_ordered (h bj)) ((moves_eat _).bind fun c negated bc => ?_)
    refine .eatIf (fun j cj => betweenTail_ordered (h (Nat.le_trans bc cj)) negated) ?_
    refine .eatIf (fun j cj => patternTail_ordered (h (Nat.le_trans bc cj)) _) ?_
    refine .eatIf (fun j cj => patternTail_ordered (h (Nat.le_trans bc cj)) _) ?_
    exact .eatIf (fun j cj => memberTail_ordered (h (Nat.le_trans bc cj)) hq negated) ends_unexpected

/-! ### Conditions -/

theorem grouped_ordered {nested : Parse Constraint} (hc : OrderedCondition v tokens nested) :
    OrderedCondition v tokens (grouped nested) := by
  refine fun k => .place ((moves_expect _).bind fun a _ ka => (hc a).bind fun b inner ab hinner => ?_)
  refine (moves_expect _).bind fun j _ bj => ?_
  exact begins_condition (fun _ => rfl) (fun _ => rfl) (hinner.widen ka bj)

theorem existsTail_ordered (hq : OrderedQuery v tokens query) (ik : i ≤ k) :
    BeginsCondition v tokens i k (existsTail query (startOf tokens i)) := by
  refine (moves_expect _).bind fun a _ ka => (hq a).bind fun b source ab hsource => (moves_expect _).bind fun j _ bj => ?_
  exact begins_condition (fun _ => rfl) (fun _ => rfl) (hsource.widen (Nat.le_trans ik ka) bj)

/-- Each round puts the conditions that were connected before it first. -/
theorem connected_ordered {word : Keyword} {connect : Constraint → Constraint → Option Span → Constraint}
    {item : Parse Constraint} (here : ∀ left right span, (connect left right span).span = span)
    (parts : ∀ left right span, (Part.constraint (connect left right span)).children = [.constraint left, .constraint right])
    (hitem : OrderedCondition v tokens item) : OrderedCondition v tokens (connected word connect item) := by
  refine fun k => .place ((hitem k).bind fun a left ka hleft => .iterate hleft (fun j left aj hleft => ?_) fun _ _ _ jl h => ?_)
  · refine (moves_eat _).bind fun b _ jb => .ite (fun _ => ?_) fun _ => ends_pure (by simp)
    refine (hitem b).bind fun l right bl hright => .spanFrom (ends_pure fun c made => ?_)
    obtain rfl := Option.some.inj made
    refine .single (here left right _) ?_
    rw [parts]
    exact hleft.append hright jb
  · exact h.later jl

section Nested

variable (hq : OrderedQuery v tokens query)

include hq

theorem negationFor_ordered {nested : Parse Constraint} (hc : OrderedCondition v tokens nested) (n : Nat) :
    OrderedCondition v tokens (negationFor query nested n) := by
  induction n with
  | zero => exact fun _ => ends_unexpected
  | succ n ih =>
    refine fun k => .place (.eatIf (fun a ka => ?_) (.eatIf (fun a ka => existsTail_ordered hq ka) ?_))
    · refine (ih a).bind fun j inner aj hinner => ?_
      exact begins_condition (fun _ => rfl) (fun _ => rfl) (hinner.earlier ka)
    · refine looks_current.bind fun _ => looks_second.bind fun _ => ?_
      exact .ite (fun _ => (grouped_ordered hc k).either (predicate_ordered hq k)) fun _ => predicate_ordered hq k

theorem conditionFor_ordered (n : Nat) : OrderedCondition v tokens (conditionFor query n) := by
  induction n with
  | zero => exact fun _ => ends_unexpected
  | succ n ih =>
    have negations : OrderedCondition v tokens (negation query (conditionFor query n)) :=
      fun k => .bounded fun m => negationFor_ordered hq ih m k
    have conjunctions : OrderedCondition v tokens (connected .andKw .and (negation query (conditionFor query n))) :=
      connected_ordered (fun _ _ _ => rfl) (fun _ _ _ => rfl) negations
    exact connected_ordered (fun _ _ _ => rfl) (fun _ _ _ => rfl) conjunctions

theorem condition_ordered : OrderedCondition v tokens (condition query) :=
  fun k => .bounded fun n => conditionFor_ordered hq n k

end Nested

end SkyQuery.Grammar
