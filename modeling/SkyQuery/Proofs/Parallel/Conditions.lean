import SkyQuery.Proofs.Parallel.Values
import SkyQuery.Proofs.Rereads.Conditions

/-!
# Conditions that are read alike

`parallel_condition`: of two texts with the same words at other places both have the same condition next, or
both have none for the same reason, if that holds of their subqueries. Where a parenthesis starts neither a
group nor a predicate, the complaint that lies further is the same one in both texts.
-/

namespace SkyQuery.Grammar

open Parse Matching

variable {m : Matching} {v : Version} {query : Parse Query} {start start' : Place}

/-- Both texts have the same query, up to places, or none. -/
abbrev ParallelQuery (m : Matching) (v : Version) (p p' : Parse Query) : Prop :=
  Parallel m v (Alike Query.unplaced) p p'

/-- Both texts have the same condition, up to places, or none. -/
abbrev ParallelCondition (m : Matching) (v : Version) (p p' : Parse Constraint) : Prop :=
  Parallel m v (Alike Constraint.unplaced) p p'

/-! ### Predicates -/

theorem parallel_eatOperator (operators : List (Kind × ComparisonOp)) :
    Parallel m v Eq (eatOperator operators) (eatOperator operators) := by
  induction operators with
  | nil => exact parallel_pure rfl
  | cons entry others ih => exact .eatIf (parallel_pure rfl) ih

section Tails

variable {left left' : Operand} (h : m.Operands left left') (hstart : m.starts start start')

include h hstart

theorem parallel_comparisonTail (op : ComparisonOp) :
    ParallelCondition m v (comparisonTail left op start) (comparisonTail left' op start') := by
  refine parallel_value.bind fun right right' hright => ?_
  rw [comparable_same h.same hright.same, h.render, hright.render]
  refine .choice (.placed hstart fun _ _ _ => ?_) (parallel_failAt h.span)
  simp only [Alike, Constraint.unplaced, h.same.eq, hright.same.eq]

theorem parallel_nullTail : ParallelCondition m v (nullTail left start) (nullTail left' start') := by
  refine (parallel_eat _).step fun negated => .expect fun _ _ _ => ?_
  rw [h.same.asColumn?, h.render]
  refine .choice (.placed hstart fun _ _ _ => ?_) (parallel_failAt h.span)
  simp only [Alike, Constraint.unplaced, h.same.eq]

theorem parallel_betweenTail (negated : Bool) :
    ParallelCondition m v (betweenTail left negated start) (betweenTail left' negated start') := by
  refine parallel_value.bind fun low low' hlow => .expect fun _ _ _ => ?_
  refine parallel_value.bind fun high high' hhigh => .placed hstart fun _ _ _ => ?_
  simp only [Alike, Constraint.unplaced, h.same.eq, hlow.same.eq, hhigh.same.eq]

theorem parallel_patternTail (op : ComparisonOp) :
    ParallelCondition m v (patternTail left op start) (patternTail left' op start') := by
  refine parallel_value.bind fun pattern pattern' hpattern => ?_
  refine (parallel_checkString h).step fun _ => (parallel_checkString hpattern).step fun _ => ?_
  refine .placed hstart fun _ _ _ => ?_
  simp only [Alike, Constraint.unplaced, h.same.eq, hpattern.same.eq]

theorem parallel_memberTail (hquery : ParallelQuery m v query query) (negated : Bool) :
    ParallelCondition m v (memberTail query left negated start) (memberTail query left' negated start') := by
  refine .expect fun _ _ _ => .seesIf ?_ ?_
  · refine hquery.bind fun source source' same => .expect fun _ _ _ => .placed hstart fun _ _ _ => ?_
    simp only [Alike, Constraint.unplaced, h.same.eq, same.eq]
  · refine (parallel_value.sepBy .comma).bind fun values values' hvalues => .expect fun _ _ _ => ?_
    have same : values'.map Operand.unplaced = values.map Operand.unplaced := Operands.all hvalues
    refine .placed hstart fun _ _ _ => ?_
    simp only [Alike, Constraint.unplaced, h.same.eq, same]

end Tails

theorem parallel_predicate (hquery : ParallelQuery m v query query) :
    ParallelCondition m v (predicate query) (predicate query) := by
  refine .place fun start start' hstart => parallel_value.bind fun tested tested' h => ?_
  refine (parallel_eatOperator comparisons).step fun found => ?_
  cases found with
  | some op => exact parallel_comparisonTail h hstart op
  | none =>
    refine .eatIf (parallel_nullTail h hstart) ((parallel_eat _).step fun negated => ?_)
    refine .eatIf (parallel_betweenTail h hstart negated) (.eatIf (parallel_patternTail h hstart _) ?_)
    refine .eatIf (parallel_patternTail h hstart _) (.eatIf ?_ parallel_unexpected)
    exact parallel_memberTail h hstart hquery negated

/-! ### Groups and connectives -/

section Groups

variable {condition : Parse Constraint}

theorem parallel_grouped (hcondition : ParallelCondition m v condition condition) :
    ParallelCondition m v (grouped condition) (grouped condition) := by
  refine .place fun start start' hstart => .expect fun _ _ _ => hcondition.bind fun inner inner' same => ?_
  exact .expect fun _ _ _ => .placed hstart fun _ _ _ => congrArg (Constraint.group · none) same

theorem parallel_existsTail (hquery : ParallelQuery m v query query) (hstart : m.starts start start') :
    ParallelCondition m v (existsTail query start) (existsTail query start') := by
  refine .expect fun _ _ _ => hquery.bind fun source source' same => .expect fun _ _ _ => ?_
  exact .placed hstart fun _ _ _ => congrArg (Constraint.nonEmpty · none) same

theorem parallel_negationFor (hquery : ParallelQuery m v query query)
    (hcondition : ParallelCondition m v condition condition) (n : Nat) :
    ParallelCondition m v (negationFor query condition n) (negationFor query condition n) := by
  induction n with
  | zero => exact parallel_unexpected
  | succ n ih =>
    refine .place fun start start' hstart => .eatIf ?_ (.eatIf (parallel_existsTail hquery hstart) ?_)
    · exact ih.bind fun inner inner' same => .placed hstart fun _ _ _ => congrArg (Constraint.not · none) same
    · refine .current fun t t' ht => .second fun u u' hu => ?_
      rw [ht.kind, hu.kind]
      exact .choice (.either (parallel_grouped hcondition) (parallel_predicate hquery)) (parallel_predicate hquery)

theorem parallel_connected {word : Keyword} {connect : Constraint → Constraint → Option Span → Constraint}
    (joins : ∀ {a a' b b' span span'}, Alike Constraint.unplaced a a' → Alike Constraint.unplaced b b' →
      Alike Constraint.unplaced (connect a b span) (connect a' b' span'))
    {item : Parse Constraint} (hitem : ParallelCondition m v item item) :
    ParallelCondition m v (connected word connect item) (connected word connect item) := by
  refine .place fun start start' hstart => hitem.bind fun left left' hleft => .iterate hleft fun left left' hleft => ?_
  refine .eatIf (hitem.bind fun right right' hright => ?_) (parallel_pure .none)
  exact .placed hstart fun _ _ _ => .some (joins hleft hright)

end Groups

theorem parallel_conditionFor (hquery : ParallelQuery m v query query) (n : Nat) :
    ParallelCondition m v (conditionFor query n) (conditionFor query n) := by
  induction n with
  | zero => exact parallel_unexpected
  | succ n ih =>
    have item : ParallelCondition m v (negation query (conditionFor query n)) (negation query (conditionFor query n)) :=
      .bounded (parallel_negationFor hquery ih)
    refine parallel_connected (fun a b => ?_) (parallel_connected (fun a b => ?_) item)
    · simp only [Alike, Constraint.unplaced, a.eq, b.eq]
    · simp only [Alike, Constraint.unplaced, a.eq, b.eq]

theorem parallel_condition (hquery : ParallelQuery m v query query) :
    ParallelCondition m v (condition query) (condition query) := .bounded (parallel_conditionFor hquery)

end SkyQuery.Grammar
