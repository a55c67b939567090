import SkyQuery.Proofs.Parallel.Conditions
import SkyQuery.Proofs.Rereads.Queries

/-!
# Queries that are read alike

`parallel_query`: two texts with the same words at other places are read as the same query up to places, or
refused for the same reason; and so is each clause.
-/

namespace SkyQuery.Grammar

open Parse Matching

variable {m : Matching} {v : Version} {query : Parse Query} {start start' : Place}

/-! ### What queries read from -/

section From

theorem parallel_optionalAlias : Parallel m v Eq optionalAlias optionalAlias :=
  .eatIf (parallel_identifier.step fun _ => parallel_pure rfl) parallel_eatIdentifier

theorem parallel_eatSide : Parallel m v Eq eatSide eatSide :=
  .eatIf (parallel_pure rfl) (.eatIf (parallel_pure rfl) (.eatIf (parallel_pure rfl) (parallel_pure rfl)))

theorem parallel_eatJoin : Parallel m v Eq eatJoin eatJoin := by
  refine .eatIf (.expect fun _ _ _ => parallel_pure rfl) (.eatIf (parallel_pure rfl) ?_)
  refine parallel_eatSide.step fun found => ?_
  cases found with
  | none => exact parallel_pure rfl
  | some side => exact (parallel_eat _).step fun _ => .expect fun _ _ _ => parallel_pure rfl

/-- Both texts have the same source of rows, up to places, or none. -/
abbrev ParallelItem (m : Matching) (v : Version) (p p' : Parse FromItem) : Prop :=
  Parallel m v (Alike FromItem.unplaced) p p'

variable (hquery : ParallelQuery m v query query)

include hquery

theorem parallel_tableRef : ParallelItem m v (tableRef query) (tableRef query) := by
  refine .place fun start start' hstart => .eatIf ?_ ((parallel_dotted 2).step fun parts => ?_)
  · refine hquery.bind fun source source' same => .expect fun _ _ _ => (parallel_eat _).step fun _ => ?_
    refine parallel_identifier.step fun label => .placed hstart fun _ _ _ => ?_
    exact congrArg (FromItem.subquery · label none) same
  · cases TableName.ofParts? parts with
    | none => exact parallel_unexpected
    | some name => exact parallel_optionalAlias.step fun label => .placed hstart fun _ _ _ => rfl

theorem parallel_joinCondition :
    Parallel m v (Alike JoinCondition.unplaced) (joinCondition query) (joinCondition query) := by
  refine .eatIf ((parallel_condition hquery).bind fun c c' same => ?_) (.eatIf ?_ parallel_unexpected)
  · exact parallel_pure (congrArg JoinCondition.on same)
  · refine .expect fun _ _ _ => (parallel_identifier.sepBy .comma).sameList.step fun columns => ?_
    exact .expect fun _ _ _ => parallel_pure rfl

theorem parallel_joinTail (hstart : m.starts start start') {left left' : FromItem}
    (hleft : Alike FromItem.unplaced left left') :
    Parallel m v (Option.Rel (Alike FromItem.unplaced)) (joinTail query start left) (joinTail query start' left') := by
  refine .eatIf (.expect fun _ _ _ => (parallel_tableRef hquery).bind fun right right' hright => ?_) ?_
  · refine .placed hstart fun _ _ _ => .some ?_
    simp only [Alike, FromItem.unplaced, hleft.eq, hright.eq]
  · refine (parallel_eat _).step fun natural => parallel_eatJoin.step fun found => ?_
    cases found with
    | none => exact .choice parallel_unexpected (parallel_pure .none)
    | some kind =>
      refine (parallel_tableRef hquery).bind fun right right' hright => ?_
      have joined (c c' : JoinCondition) (hcondition : Alike JoinCondition.unplaced c c') :
          Parallel m v (Option.Rel (Alike FromItem.unplaced))
            (do return some (.join left kind natural right c (← spanFrom start)))
            (do return some (.join left' kind natural right' c' (← spanFrom start'))) := by
        refine .placed hstart fun _ _ _ => .some ?_
        simp only [Alike, FromItem.unplaced, hleft.eq, hright.eq, hcondition.eq]
      exact .choice (joined _ _ rfl) ((parallel_joinCondition hquery).bind joined)

theorem parallel_fromItem : ParallelItem m v (fromItem query) (fromItem query) :=
  .place fun _ _ hstart => (parallel_tableRef hquery).bind fun _ _ hleft =>
    .iterate hleft fun _ _ hleft => parallel_joinTail hquery hstart hleft

theorem parallel_fromClause : Parallel m v (Alike (List.map FromItem.unplaced)) (fromClause query) (fromClause query) :=
  .expect fun _ _ _ => ((parallel_fromItem hquery).sepBy .comma).listView

end From

/-! ### The select clause -/

theorem parallel_rowCount (word : String) : Parallel m v Eq (rowCount word) (rowCount word) := by
  refine .place fun start start' hstart => .expect fun t t' ht => ?_
  rw [ht.text]
  dsimp only
  cases digitsBelow? (Nat.pow 2 64) t.text with
  | some n => exact parallel_pure rfl
  | none => exact .spanFrom hstart fun _ _ spans => parallel_failAt spans

theorem parallel_eatTableStar : Parallel m v Eq eatTableStar eatTableStar := by
  intro s s' hs
  unfold eatTableStar
  rw [Matching.Tokens.isIdentifier hs.current, hs.second.kind]
  split
  · have ends := parallel_dotted (m := m) (v := v) 2 s s' hs
    generalize dotted 2 v s = r, dotted 2 v s' = r' at ends ⊢
    cases ends with
    | refused complaint => exact .refused complaint
    | @read parts parts' t t' found left =>
      obtain rfl : parts = parts' := found
      dsimp only
      rw [left.current.kind, left.second.kind]
      split
      · cases TableName.ofParts? parts with
        | none => exact .read rfl hs
        | some table => exact .read rfl left.advance.advance
      · exact .read rfl hs
  · exact .read rfl hs

theorem parallel_selectItem : Parallel m v (Alike SelectItem.unplaced) selectItem selectItem := by
  refine .place fun start start' hstart => .eatIf (.placed hstart fun _ _ _ => rfl) ?_
  refine parallel_eatTableStar.step fun found => ?_
  cases found with
  | some table => exact .placed hstart fun _ _ _ => rfl
  | none =>
    refine parallel_value.bind fun o o' h => parallel_optionalAlias.step fun label => parallel_pure ?_
    exact congrArg (SelectItem.expr · label) h.same

theorem parallel_distinctness : Parallel m v Eq distinctness distinctness :=
  .eatIf (parallel_pure rfl) ((parallel_eat _).step fun _ => parallel_pure rfl)

theorem parallel_topClause : Parallel m v Eq topClause topClause :=
  .eatIf ((parallel_rowCount "TOP").step fun _ => parallel_pure rfl) (parallel_pure rfl)

theorem parallel_selectClause : Parallel m v (Alike SelectClause.unplaced) selectClause selectClause := by
  refine .place fun start start' hstart => .expect fun _ _ _ => parallel_distinctness.step fun distinct => ?_
  refine parallel_topClause.step fun top => (parallel_selectItem.sepBy .comma).listView.bind fun items items' same => ?_
  refine .placed hstart fun _ _ _ => ?_
  simp only [Alike, SelectClause.unplaced, same.eq]

/-! ### Grouping, order and offset -/

theorem parallel_groupItem : ParallelValue m v groupItem groupItem :=
  .version (.choice parallel_columnRef parallel_value)

theorem Parse.Parallel.operands {p p' : Parse (List Operand)} (h : Parallel m v (List.Forall₂ m.Operands) p p') :
    Parallel m v (Alike (List.map Operand.unplaced)) p p' := h.mono fun _ _ => Operands.all

theorem parallel_groupByClause : Parallel m v (Alike (List.map Operand.unplaced)) groupByClause groupByClause :=
  .expect fun _ _ _ => .expect fun _ _ _ => (parallel_groupItem.sepBy .comma).operands

theorem parallel_orderKey : ParallelValue m v orderKey orderKey := by
  refine .version (.choice (.seesIf ?_ parallel_columnRef) parallel_value)
  refine .place fun start start' hstart => .advance fun t t' ht => ?_
  rw [ht.text]
  exact .placed hstart fun _ _ spans => ⟨rfl, spans⟩

theorem parallel_direction : Parallel m v Eq direction direction :=
  .eatIf (parallel_pure rfl) ((parallel_eat _).step fun _ => parallel_pure rfl)

theorem parallel_orderItem : Parallel m v (Alike OrderItem.unplaced) orderItem orderItem := by
  refine .place fun start start' hstart => parallel_orderKey.bind fun o o' h => ?_
  refine parallel_direction.step fun descending => ?_
  exact .placed hstart fun _ _ _ => congrArg (OrderItem.mk · descending none) h.same

theorem parallel_orderByClause : Parallel m v (Alike (List.map OrderItem.unplaced)) orderByClause orderByClause :=
  .expect fun _ _ _ => .expect fun _ _ _ => (parallel_orderItem.sepBy .comma).listView

theorem parallel_offsetClause : Parallel m v (Alike (Option.map Offset.unplaced)) offsetClause offsetClause := by
  refine .place fun start start' hstart => .eatIf ((parallel_rowCount "OFFSET").step fun value => ?_) (parallel_pure rfl)
  exact .placed hstart fun _ _ _ => rfl

/-! ### Bodies -/

theorem parallel_optionalClause {α β : Type} {view : α → β} (word : Keyword) {clause : Parse (List α)}
    (h : Parallel m v (Alike (List.map view)) clause clause) :
    Parallel m v (Alike (List.map view)) (optionalClause word clause) (optionalClause word clause) :=
  .seesIf h (parallel_pure rfl)

/-- Both texts have the same body of a query, up to places, or none. -/
abbrev ParallelBody (m : Matching) (v : Version) (p p' : Parse QueryBody) : Prop :=
  Parallel m v (Alike QueryBody.unplaced) p p'

theorem parallel_eatSetOperator (operators : List (Keyword × SetOperator)) :
    Parallel m v Eq (eatSetOperator operators) (eatSetOperator operators) := by
  induction operators with
  | nil => exact parallel_pure rfl
  | cons entry others ih => exact .eatIf (parallel_pure rfl) ih

theorem parallel_combined (operators : List (Keyword × SetOperator)) {item : Parse QueryBody}
    (hitem : ParallelBody m v item item) : ParallelBody m v (combined operators item) (combined operators item) := by
  refine .place fun start start' hstart => hitem.bind fun left left' hleft => .iterate hleft fun left left' hleft => ?_
  refine (parallel_eatSetOperator operators).step fun found => ?_
  cases found with
  | none => exact parallel_pure .none
  | some op =>
    refine (parallel_eat _).step fun all => hitem.bind fun right right' hright => .placed hstart fun _ _ _ => .some ?_
    simp only [Alike, QueryBody.unplaced, SetOperation.unplaced, hleft.eq, hright.eq]

section Bodies

variable (hquery : ParallelQuery m v query query)

include hquery

theorem parallel_optionalCondition (word : Keyword) :
    Parallel m v (Alike Constraint.eachUnplaced) (optionalCondition query word) (optionalCondition query word) := by
  refine .eatIf ((parallel_condition hquery).bind fun c c' same => ?_) (parallel_pure rfl)
  exact parallel_pure (congrArg some same)

theorem parallel_selectQuery : Parallel m v (Alike SelectQuery.unplaced) (selectQuery query) (selectQuery query) := by
  refine .place fun start start' hstart => parallel_selectClause.bind fun clause clause' hclause => ?_
  refine (parallel_fromClause hquery).bind fun source source' hsource => ?_
  refine (parallel_optionalCondition hquery .whereKw).bind fun filter filter' hfilter => ?_
  refine (parallel_optionalClause .groupKw parallel_groupByClause).bind fun groupBy groupBy' hgroupBy => ?_
  refine (parallel_optionalCondition hquery .havingKw).bind fun having having' hhaving => .placed hstart fun _ _ _ => ?_
  simp only [Alike, SelectQuery.unplaced, FromItem.allUnplaced_eq_map, hclause.eq, hsource.eq, hfilter.eq, hgroupBy.eq,
    hhaving.eq]

theorem parallel_queryBody : ParallelBody m v (queryBody query) (queryBody query) := by
  refine parallel_combined _ (parallel_combined _ ((parallel_selectQuery hquery).bind fun q q' same => ?_))
  exact parallel_pure (congrArg QueryBody.select same)

theorem parallel_orderedBody : ParallelBody m v (orderedBody query) (orderedBody query) := by
  refine .place fun start start' hstart => (parallel_queryBody hquery).bind fun body body' hbody => ?_
  refine (parallel_optionalClause .orderKw parallel_orderByClause).bind fun orderBy orderBy' horder => ?_
  refine parallel_offsetClause.bind fun offset offset' hoffset => .placed hstart fun _ _ _ => ?_
  exact finish_unplaced hbody horder hoffset

end Bodies

/-! ### Whole queries -/

theorem parallel_subqueryFor (n : Nat) : ParallelQuery m v (subqueryFor n) (subqueryFor n) := by
  induction n with
  | zero => exact parallel_unexpected
  | succ n ih =>
    have read : ParallelQuery m v (do
        let start ← place
        let body ← orderedBody (subqueryFor n)
        return { withItems := [], body, span := ← spanFrom start }) (do
        let start ← place
        let body ← orderedBody (subqueryFor n)
        return { withItems := [], body, span := ← spanFrom start }) := by
      refine .place fun start start' hstart => (parallel_orderedBody ih).bind fun body body' same => ?_
      refine .placed hstart fun _ _ _ => ?_
      simp only [Alike, Query.unplaced, same.eq]
    exact read

theorem parallel_subquery : ParallelQuery m v subquery subquery := .bounded parallel_subqueryFor

theorem parallel_withItem : Parallel m v (Alike WithItem.unplaced) withItem withItem := by
  have columns : Parallel m v Eq withItem.declaredColumns withItem.declaredColumns := by
    refine .eatIf ?_ (parallel_pure rfl)
    exact (parallel_identifier.sepBy .comma).sameList.step fun _ => .expect fun _ _ _ => parallel_pure rfl
  refine .place fun start start' hstart => parallel_identifier.step fun name => columns.step fun columns => ?_
  refine .expect fun _ _ _ => .expect fun _ _ _ => parallel_subquery.bind fun q q' same => .expect fun _ _ _ => ?_
  refine .placed hstart fun _ _ _ => ?_
  simp only [Alike, WithItem.unplaced, same.eq]

theorem parallel_withClause : Parallel m v (Alike (List.map WithItem.unplaced)) withClause withClause :=
  .eatIf (parallel_withItem.sepBy .comma).listView (parallel_pure rfl)

theorem parallel_query : ParallelQuery m v Grammar.query Grammar.query := by
  refine .place fun start start' hstart => parallel_withClause.bind fun items items' hitems => ?_
  refine (parallel_orderedBody parallel_subquery).bind fun body body' hbody => .placed hstart fun _ _ _ => ?_
  simp only [Alike, Query.unplaced, WithItem.allUnplaced_eq_map, hitems.eq, hbody.eq]

end SkyQuery.Grammar
