import SkyQuery.Proofs.Located.Queries
import SkyQuery.Proofs.Refused.Conditions

/-!
# What is wrong with queries

`blames_query`: where no query can be read, the complaint is about some tokens of the text. Each clause has
a lemma of its own, since a text may be that of a clause.
-/

namespace SkyQuery.Grammar

open Parse

variable {v : Version} {tokens : List Token} {k : Nat} {query : Parse Query}

/-! ### Sources -/

theorem blames_names (k : Nat) : Blames v tokens k (commaSeparated identifier) :=
  blames_sepBy rereads_identifier.moves blames_identifier k

theorem moves_names : Moves v (commaSeparated identifier) := (rereads_identifier.sepBy (by nofun)).moves

theorem blames_optionalAlias (k : Nat) : Blames v tokens k optionalAlias :=
  .eatIf (fun j _ => (blames_identifier j).map) fun j _ => blames_eatIdentifier j

theorem blames_eatSide (k : Nat) : Blames v tokens k eatSide :=
  .eatIf (fun _ _ => blames_pure _) fun _ _ => .eatIf (fun _ _ => blames_pure _) fun _ _ =>
    .eatIf (fun _ _ => blames_pure _) fun _ _ => blames_pure none

theorem blames_eatJoin (k : Nat) : Blames v tokens k eatJoin := by
  refine .eatIf (fun _ _ => .expect (by nofun) fun _ _ _ => blames_pure _) fun a _ => ?_
  refine .eatIf (fun _ _ => blames_pure _) fun b _ => (blames_eatSide b).step rereads_eatSide.moves fun c side _ => ?_
  cases side with
  | none => exact blames_pure none
  | some side => exact .eat fun _ _ _ => .expect (by nofun) fun _ _ _ => blames_pure _

section Sources

variable (again : ∀ d, RereadsQuery v d query subquery) (hq : ∀ k, Blames v tokens k query)

include again hq

theorem blames_tableRef (k : Nat) : Blames v tokens k (tableRef query) := by
  refine .place (.eatIf (fun a _ => (hq a).step (again 0).moves fun b source _ => ?_) fun a _ => ?_)
  · exact .expect (by nofun) fun c _ _ => .eat fun d _ _ => (blames_identifier d).placed
  · refine (blames_dotted 2 a).step (rereads_dotted 2).moves fun b parts _ => ?_
    cases TableName.ofParts? parts with
    | none => exact blames_unexpected
    | some name => exact (blames_optionalAlias b).placed

theorem blames_joinCondition (k : Nat) : Blames v tokens k (joinCondition query) := by
  refine .eatIf (fun a _ => (blames_condition again hq a).map) fun a _ => .eatIf (fun b _ => ?_) fun _ _ => blames_unexpected
  refine .expect (by nofun) fun c _ _ => (blames_names c).step moves_names fun d names _ => ?_
  exact .expect (by nofun) fun _ _ _ => blames_pure _

theorem blames_joinTail (start : Place) (left : FromItem) (k : Nat) : Blames v tokens k (joinTail query start left) := by
  refine .eatIf (fun a _ => .expect (by nofun) fun b _ _ => (blames_tableRef again hq b).placed) fun a _ => ?_
  refine .eat fun b natural _ => (blames_eatJoin b).step rereads_eatJoin.moves fun c found _ => ?_
  cases found with
  | none => exact .ite (fun _ => blames_unexpected) fun _ => blames_pure none
  | some kind =>
    refine (blames_tableRef again hq c).step (rereads_tableRef (again 0)).moves fun d right _ => ?_
    dsimp only
    exact .ite (fun _ => (blames_pure JoinCondition.unstated).placed) fun _ => (blames_joinCondition again hq d).placed

theorem blames_fromItem (k : Nat) : Blames v tokens k (fromItem query) := by
  have round (left : FromItem) : Rereads false v [] 0 (·.isSome = true) (joinTail query (startOf tokens k) left)
      (joinTail subquery .origin left) (Option.map FromItem.unplaced) := rereads_joinTail (again 0) rfl
  refine .place ((blames_tableRef again hq k).step (rereads_tableRef (again 0)).moves fun j left _ => ?_)
  exact .rounds (fun left => (round left).moves) (fun l left => blames_joinTail again hq _ left l) left

theorem blames_fromClause (k : Nat) : Blames v tokens k (fromClause query) :=
  .expect (by nofun) fun j _ _ => blames_sepBy (rereads_fromItem (again 0)).moves (blames_fromItem again hq) j

end Sources

/-! ### Clauses -/

theorem blames_rowCount (word : String) (k : Nat) : Blames v tokens k (rowCount word) := by
  refine .place (.expect (by nofun) fun j t kj => ?_)
  dsimp only
  cases digitsBelow? (Nat.pow 2 64) t.text with
  | some n => exact blames_pure n
  | none => exact blames_failSince rfl kj

theorem blames_eatTableStar (k : Nat) : Blames v tokens k eatTableStar := by
  intro s e hs he
  unfold eatTableStar at he
  split at he
  · split at he
    · split at he
      · split at he <;> cases he
      · cases he
    · rename_i hparts
      cases he
      exact blames_dotted 2 k s e hs hparts
  · cases he

theorem blames_selectItem (k : Nat) : Blames v tokens k selectItem := by
  refine .place (.eatIf (fun _ _ => blames_placed) fun a _ => ?_)
  refine (blames_eatTableStar a).step rereads_eatTableStar.moves fun b found _ => ?_
  cases found with
  | some table => exact blames_placed
  | none => exact (blames_value b).step rereads_value.moves fun c operand _ => (blames_optionalAlias c).map

theorem blames_distinctness (k : Nat) : Blames v tokens k distinctness :=
  .eatIf (fun _ _ => blames_pure true) fun _ _ => (blames_eat _).map

theorem blames_topClause (k : Nat) : Blames v tokens k topClause :=
  .eatIf (fun j _ => (blames_rowCount "TOP" j).map) fun _ _ => blames_pure none

theorem blames_selectClause (k : Nat) : Blames v tokens k selectClause := by
  refine .place (.expect (by nofun) fun a _ _ => (blames_distinctness a).step rereads_distinctness.moves fun b distinct _ => ?_)
  refine (blames_topClause b).step rereads_topClause.moves fun c top _ => ?_
  exact (blames_sepBy rereads_selectItem.moves blames_selectItem c).placed

theorem blames_groupItem (k : Nat) : Blames v tokens k groupItem :=
  .version fun _ => .ite (fun _ => blames_columnRef k) fun _ => blames_value k

theorem blames_groupByClause (k : Nat) : Blames v tokens k groupByClause :=
  .expect (by nofun) fun _ _ _ => .expect (by nofun) fun j _ _ => blames_sepBy rereads_groupItem.moves blames_groupItem j

theorem blames_orderKey (k : Nat) : Blames v tokens k orderKey := by
  refine .version fun _ => .ite (fun _ => .sees fun _ => .ite (fun _ => ?_) fun _ => blames_columnRef k) fun _ => blames_value k
  exact .place (.advance fun _ _ _ => blames_placed)

theorem blames_direction (k : Nat) : Blames v tokens k direction :=
  .eatIf (fun _ _ => blames_pure true) fun _ _ => (blames_eat _).map

theorem blames_orderItem (k : Nat) : Blames v tokens k orderItem :=
  .place ((blames_orderKey k).step rereads_orderKey.moves fun j _ _ => (blames_direction j).placed)

theorem blames_orderByClause (k : Nat) : Blames v tokens k orderByClause :=
  .expect (by nofun) fun _ _ _ => .expect (by nofun) fun j _ _ => blames_sepBy rereads_orderItem.moves blames_orderItem j

theorem blames_offsetClause (k : Nat) : Blames v tokens k offsetClause :=
  .place (.eatIf (fun j _ => (blames_rowCount "OFFSET" j).placed) fun _ _ => blames_pure none)

theorem blames_optionalClause {α : Type} {word : Keyword} {clause : Parse (List α)} (h : Blames v tokens k clause) :
    Blames v tokens k (optionalClause word clause) := .sees fun _ => .ite (fun _ => h) fun _ => blames_pure []

/-! ### Bodies -/

theorem blames_eatSetOperator (operators : List (Keyword × SetOperator)) (k : Nat) :
    Blames v tokens k (eatSetOperator operators) := by
  induction operators generalizing k with
  | nil => exact blames_pure none
  | cons first others ih => exact .eatIf (fun _ _ => blames_pure (some first.2)) fun j _ => ih j

theorem blames_combined (operators : List (Keyword × SetOperator)) {item : Parse QueryBody} (moves : Moves v item)
    (h : ∀ k, Blames v tokens k item) (k : Nat) : Blames v tokens k (combined operators item) := by
  refine .place ((h k).step moves fun j left _ => .rounds (fun left => ?_) (fun l left => ?_) left)
  · refine (rereads_eatSetOperator operators).moves.seq fun found => ?_
    cases found with
    | none => exact (looks_pure none).moves
    | some op =>
      refine (moves_eat _).seq fun all => moves.seq fun right => (looks_spanFrom _).moves.seq fun _ => ?_
      exact (looks_pure _).moves
  · refine (blames_eatSetOperator operators l).step (rereads_eatSetOperator operators).moves fun a found _ => ?_
    cases found with
    | none => exact blames_pure none
    | some op => exact .eat fun b all _ => (h b).placed

section Bodies

variable (again : ∀ d, RereadsQuery v d query subquery) (hq : ∀ k, Blames v tokens k query)

include again hq

theorem blames_optionalCondition (word : Keyword) (k : Nat) : Blames v tokens k (optionalCondition query word) :=
  .eatIf (fun j _ => (blames_condition again hq j).map) fun _ _ => blames_pure none

theorem blames_selectQuery (k : Nat) : Blames v tokens k (selectQuery query) := by
  refine .place ((blames_selectClause k).step rereads_selectClause.moves fun a clause _ => ?_)
  refine (blames_fromClause again hq a).step (rereads_fromClause (again 0)).moves fun b source _ => ?_
  refine (blames_optionalCondition again hq .whereKw b).step (rereads_optionalCondition (again 0) _).moves fun c filter _ => ?_
  refine (blames_optionalClause (blames_groupByClause c)).step (rereads_optionalClause _ rereads_groupByClause).moves
    fun d groupBy _ => ?_
  exact (blames_optionalCondition again hq .havingKw d).placed

theorem blames_queryBody (k : Nat) : Blames v tokens k (queryBody query) := by
  have single : RereadsBody v 0 (do return .select (← selectQuery query)) (do return .select (← selectQuery subquery)) :=
    (rereads_selectQuery (again 0) (Nat.zero_le 1)).first (fun q q' same => rereads_pure (congrArg QueryBody.select same) id)
      (Nat.zero_le 1)
  refine blames_combined _ (rereads_combined _ single).moves (blames_combined _ single.moves fun k => ?_) k
  exact (blames_selectQuery again hq k).map

theorem blames_orderedBody (k : Nat) : Blames v tokens k (orderedBody query) := by
  refine .place ((blames_queryBody again hq k).step (rereads_queryBody (again 0) (Nat.zero_le 1)).moves fun a body _ => ?_)
  refine (blames_optionalClause (blames_orderByClause a)).step (rereads_optionalClause _ rereads_orderByClause).moves
    fun b orderBy _ => ?_
  exact (blames_offsetClause b).placed

end Bodies

/-! ### Queries -/

theorem blames_subqueryFor (n k : Nat) : Blames v tokens k (subqueryFor n) := by
  induction n generalizing k with
  | zero => exact blames_unexpected
  | succ n ih => exact .place (blames_orderedBody (fun _ => rereads_subqueryAt n) ih k).placed

theorem blames_subquery (k : Nat) : Blames v tokens k subquery := .bounded fun n => blames_subqueryFor n k

theorem blames_withItem (k : Nat) : Blames v tokens k withItem := by
  have columns (k : Nat) : Blames v tokens k withItem.declaredColumns := by
    refine .eatIf (fun a _ => (blames_names a).step moves_names fun b names _ => ?_) fun _ _ => blames_pure []
    exact .expect (by nofun) fun _ _ _ => blames_pure names
  refine .place ((blames_identifier k).step rereads_identifier.moves fun a name _ => ?_)
  refine (columns a).step moves_declaredColumns fun b names _ => .expect (by nofun) fun c _ _ => .expect (by nofun) fun d _ _ => ?_
  exact (blames_subquery d).step rereads_subquery.moves fun e query _ => .expect (by nofun) fun _ _ _ => blames_placed

theorem blames_withClause (k : Nat) : Blames v tokens k withClause := by
  have moves : Moves v withItem := moves_of_ends fun _ => withItem_located
  exact .eatIf (fun a _ => blames_sepBy moves blames_withItem a) fun _ _ => blames_pure []

theorem blames_query (k : Nat) : Blames v tokens k Grammar.query := by
  refine .place ((blames_withClause k).bind (withClause_located k) fun a items _ _ => ?_)
  exact (blames_orderedBody (fun _ => rereads_subquery) blames_subquery a).placed

end SkyQuery.Grammar
