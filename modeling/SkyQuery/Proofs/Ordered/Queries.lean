import SkyQuery.Proofs.Ordered.Conditions

/-!
# The order of queries

`query_ordered`: all that is in a query that is read stands in the order in which the query lists it: named
queries before the body, the sides of a set operation one after the other, and sources before the conditions
of their joins.
-/

namespace SkyQuery.Grammar

open Parse

variable {v : Version} {tokens : List Token} {i j k : Nat} {query : Parse Query}

/-! ### Sources -/

section Sources

variable (hq : OrderedQuery v tokens query)

include hq

theorem tableRef_ordered : Ordered v tokens (fun item => [.fromItem item]) (tableRef query) := by
  refine fun k => .place (.eatIf (fun a ka => ?_) ?_)
  · refine (hq a).bind fun b source ab hsource => (moves_expect _).bind fun c _ bc => (moves_eat _).bind fun d _ cd => ?_
    refine rereads_identifier.moves.bind fun j label dj => ?_
    exact ends_part .fromItem (fun _ => rfl) (fun _ => rfl) (hsource.widen ka (by omega))
  · refine (rereads_dotted 2).moves.bind fun a parts ka => ?_
    cases TableName.ofParts? parts with
    | none => exact ends_unexpected
    | some name =>
      refine rereads_optionalAlias.moves.bind fun j label aj => ?_
      exact ends_part .fromItem (fun _ => rfl) (fun _ => rfl) (.nil (Nat.le_trans ka aj))

theorem joinCondition_ordered :
    Ordered v tokens (fun c => c.constraint?.toList.map .constraint) (joinCondition query) := by
  refine fun k => .eatIf (fun a ka => ?_) (.eatIf (fun a ka => ?_) ends_unexpected)
  · exact (condition_ordered hq a).bind fun j c aj hc => ends_pure (hc.earlier ka)
  · refine (moves_expect _).bind fun b _ ab => (rereads_identifier.sepBy (by nofun)).moves.bind fun c names bc => ?_
    exact (moves_expect _).bind fun j _ cj => ends_pure (.nil (by omega))

theorem joinTail_ordered {left : FromItem} (h : InRow tokens i k [.fromItem left]) :
    Ends v tokens k (joinTail query (startOf tokens i) left) fun j r => ∀ item ∈ r, InRow tokens i j [.fromItem item] := by
  have joined {l : Nat} {right : FromItem} (kind : JoinKind) (natural : Bool) (condition : JoinCondition)
      (parts : InRow tokens i l ([.fromItem left, .fromItem right] ++ condition.constraint?.toList.map .constraint)) :
      Ends v tokens l (do return some (FromItem.join left kind natural right condition (← spanFrom (startOf tokens i))))
        fun l r => ∀ item ∈ r, InRow tokens i l [.fromItem item] := by
    refine .spanFrom (ends_pure fun item made => ?_)
    obtain rfl := Option.some.inj made
    exact .single rfl parts
  refine .eatIf (fun a ka => ?_) ((moves_eat _).bind fun a natural ka => ?_)
  · refine (moves_expect _).bind fun b _ ab => (tableRef_ordered hq b).bind fun l right bl hright => ?_
    exact joined .cross false .unstated (h.append hright (Nat.le_trans ka ab))
  · refine rereads_eatJoin.moves.bind fun b found ab => ?_
    cases found with
    | none => exact .ite (fun _ => ends_unexpected) fun _ => ends_pure (by simp)
    | some kind =>
      refine (tableRef_ordered hq b).bind fun c right bc hright => ?_
      have both := h.append hright (Nat.le_trans ka ab)
      cases natural with
      | true => exact joined kind true .unstated both
      | false =>
        refine (joinCondition_ordered hq c).bind fun l condition cl hcondition => ?_
        exact joined kind false condition (both.append hcondition (Nat.le_refl c))

theorem fromClause_ordered : Ordered v tokens (fun items => items.map .fromItem) (fromClause query) := by
  have item : Ordered v tokens (fun item => [.fromItem item]) (fromItem query) := by
    refine fun k => .place ((tableRef_ordered hq k).bind fun a left ka hleft => ?_)
    exact .iterate hleft (fun j left aj h => joinTail_ordered hq h) fun j j' item jj' h => h.later jj'
  refine fun k => (moves_expect _).bind fun a _ ka => ?_
  exact (item.sepBy_single a).mono fun j items aj h => h.earlier ka

end Sources

/-! ### Clauses -/

theorem selectItem_ordered : Ordered v tokens (fun item => item.operand?.toList.map .operand) selectItem := by
  refine fun k => .place (.eatIf (fun a ka => .spanFrom (ends_pure (.nil ka))) ?_)
  refine rereads_eatTableStar.moves.bind fun a found ka => ?_
  cases found with
  | some table => exact .spanFrom (ends_pure (.nil ka))
  | none =>
    refine (value_ordered a).bind fun b operand ab h => rereads_optionalAlias.moves.bind fun j label bj => ends_pure ?_
    exact h.widen ka bj

theorem selectClause_ordered :
    Ordered v tokens (fun c => (c.items.filterMap SelectItem.operand?).map .operand) selectClause := by
  refine fun k => .place ((moves_expect _).bind fun a _ ka => rereads_distinctness.moves.bind fun b distinct ab => ?_)
  refine rereads_topClause.moves.bind fun c top bc => (selectItem_ordered.sepBy c).bind fun j items cj h => ?_
  have all : InRow tokens k j ((items.filterMap SelectItem.operand?).map .operand) := by
    rw [List.filterMap_eq_flatMap_toList, List.map_flatMap]
    exact h.earlier (by omega)
  exact .spanFrom (ends_pure all)

theorem groupByClause_ordered : Ordered v tokens (fun os => os.map .operand) groupByClause := by
  have item : OrderedOperand v tokens groupItem :=
    fun k => looks_version.bind fun _ => .ite (fun _ => columnRef_ordered k) fun _ => value_ordered k
  refine fun k => (moves_expect _).bind fun a _ ka => (moves_expect _).bind fun b _ ab => ?_
  exact (item.sepBy_single b).mono fun j os bj h => h.earlier (Nat.le_trans ka ab)

theorem orderKey_ordered : OrderedOperand v tokens orderKey := by
  refine fun k => looks_version.bind fun _ => .ite (fun _ => ?_) fun _ => value_ordered k
  refine (looks_sees _).bind fun _ => .ite (fun _ => .place ?_) fun _ => columnRef_ordered k
  exact moves_advance.bind fun j _ kj => begins_operand (fun _ => rfl) (fun _ => rfl) (.nil kj)

theorem orderByClause_ordered :
    Ordered v tokens (fun items => items.map fun item => .operand item.expr) orderByClause := by
  have item : Ordered v tokens (fun item => [.operand item.expr]) orderItem := by
    refine fun k => .place ((orderKey_ordered k).bind fun a expr ka h => rereads_direction.moves.bind fun j _ aj => ?_)
    exact .spanFrom (ends_pure (h.later aj))
  refine fun k => (moves_expect _).bind fun a _ ka => (moves_expect _).bind fun b _ ab => ?_
  exact (item.sepBy_single b).mono fun j items bj h => h.earlier (Nat.le_trans ka ab)

theorem offsetClause_ordered : Ordered v tokens (fun r => r.toList.map .offset) offsetClause := by
  refine fun k => .place (.eatIf (fun a ka => ?_) (ends_pure (.nil (Nat.le_refl k))))
  refine (rereads_rowCount "OFFSET").moves.bind fun j value aj => .spanFrom (ends_pure ?_)
  exact .single rfl (.nil (Nat.le_trans ka aj))

theorem optionalClause_ordered {α : Type} {part : α → Part} {word : Keyword} {clause : Parse (List α)}
    (h : Ordered v tokens (fun as => as.map part) clause) :
    Ordered v tokens (fun as => as.map part) (optionalClause word clause) :=
  fun k => (looks_sees _).bind fun _ => .ite (fun _ => h k) fun _ => ends_pure (.nil (Nat.le_refl k))

/-! ### Bodies -/

section Bodies

variable (hq : OrderedQuery v tokens query)

include hq

theorem optionalCondition_ordered (word : Keyword) :
    Ordered v tokens (fun r => r.toList.map .constraint) (optionalCondition query word) :=
  fun k => .eatIf (fun a ka => (condition_ordered hq a).bind fun _ _ _ hc => ends_pure (hc.earlier ka))
    (ends_pure (.nil (Nat.le_refl k)))

theorem selectQuery_ordered : Ordered v tokens (fun q => [.select q]) (selectQuery query) := by
  refine fun k => .place ((selectClause_ordered k).bind fun a clause ka hclause => ?_)
  refine (fromClause_ordered hq a).bind fun b source ab hsource => ?_
  refine (optionalCondition_ordered hq .whereKw b).bind fun c filter bc hfilter => ?_
  refine (optionalClause_ordered groupByClause_ordered c).bind fun d groupBy cd hgroupBy => ?_
  refine (optionalCondition_ordered hq .havingKw d).bind fun j having dj hhaving => .spanFrom (ends_pure ?_)
  have selected := (hclause.append hsource (Nat.le_refl a)).append hfilter (Nat.le_refl b)
  have grouped := (selected.append hgroupBy (Nat.le_refl c)).append hhaving (Nat.le_refl d)
  exact .single rfl (grouped.append (.nil (Nat.le_refl j)) (Nat.le_refl j))

omit hq in
theorem combined_ordered (operators : List (Keyword × SetOperator)) {item : Parse QueryBody}
    (hitem : Ordered v tokens (fun b => [b.part]) item) :
    Ordered v tokens (fun b => [b.part]) (combined operators item) := by
  refine fun k => .place ((hitem k).bind fun a left ka hleft => .iterate hleft (fun j left aj h => ?_) fun _ _ _ jl h => ?_)
  · refine (rereads_eatSetOperator operators).moves.bind fun b found jb => ?_
    cases found with
    | none => exact ends_pure (by simp)
    | some op =>
      refine (moves_eat _).bind fun c all bc => (hitem c).bind fun l right cl hright => .spanFrom (ends_pure fun o made => ?_)
      obtain rfl := Option.some.inj made
      exact .single rfl (h.append hright (Nat.le_trans jb bc))
  · exact h.later jl

omit hq in
/-- What ends a query stands after all else in its body. -/
theorem finish_ordered {orderBy : List OrderItem} {offset : Option Offset} {body : QueryBody}
    (h : InRow tokens i k [body.part]) (tail : InRow tokens k j (tailParts orderBy offset)) :
    InRow tokens i j [(finish orderBy offset (some (spanOf tokens i j)) body).part] := by
  cases body with
  | select q => exact .single rfl (h.parts.start.append tail (Nat.le_refl k))
  | set o => exact .single rfl (h.parts.start.append tail (Nat.le_refl k))

theorem orderedBody_ordered : Ordered v tokens (fun b : QueryBody => [b.part]) (orderedBody query) := by
  have single : Ordered v tokens (fun b : QueryBody => [b.part]) (do return .select (← selectQuery query)) :=
    fun k => (selectQuery_ordered hq k).bind fun j q kj h => ends_pure h
  have body : Ordered v tokens (fun b : QueryBody => [b.part]) (queryBody query) := combined_ordered _ (combined_ordered _ single)
  refine fun k => .place ((body k).bind fun a body ka hbody => ?_)
  refine (optionalClause_ordered orderByClause_ordered a).bind fun b orderBy ab horder => ?_
  refine (offsetClause_ordered b).bind fun j offset bj hoffset => .spanFrom (ends_pure ?_)
  exact finish_ordered hbody (horder.append hoffset (Nat.le_refl b))

end Bodies

/-! ### Queries -/

theorem subqueryFor_ordered (n : Nat) : OrderedQuery v tokens (subqueryFor n) := by
  induction n with
  | zero => exact fun _ => ends_unexpected
  | succ n ih =>
    intro k
    have read : Ends v tokens k (do
        let start ← place
        let body ← orderedBody (subqueryFor n)
        return { withItems := [], body, span := ← spanFrom start }) fun j q => InRow tokens k j [.query q] := by
      refine .place ((orderedBody_ordered ih k).bind fun j body kj hbody => ?_)
      exact .spanFrom (ends_pure (.single rfl hbody))
    exact read

theorem subquery_ordered : OrderedQuery v tokens subquery := fun k => .bounded fun n => subqueryFor_ordered n k

theorem withItem_ordered : Ordered v tokens (fun item => [.withItem item]) withItem := by
  refine fun k => .place (rereads_identifier.moves.bind fun a name ka => moves_declaredColumns.bind fun b columns ab => ?_)
  refine (moves_expect _).bind fun c _ bc => (moves_expect _).bind fun d _ cd => ?_
  refine (subquery_ordered d).bind fun e query de hquery => (moves_expect _).bind fun j _ ej => ?_
  exact ends_part .withItem (fun _ => rfl) (fun _ => rfl) (hquery.widen (by omega) ej)

theorem withClause_ordered : Ordered v tokens (fun items => items.map .withItem) withClause :=
  fun k => .eatIf (fun a ka => (withItem_ordered.sepBy_single a).mono fun _ _ _ h => h.earlier ka)
    (ends_pure (.nil (Nat.le_refl k)))

theorem query_ordered : OrderedQuery v tokens Grammar.query := by
  refine fun k => .place ((withClause_ordered k).bind fun a items ka hitems => ?_)
  refine (orderedBody_ordered subquery_ordered a).bind fun j body aj hbody => ?_
  exact .spanFrom (ends_pure (.single rfl (hitems.append hbody (Nat.le_refl a))))

end SkyQuery.Grammar
