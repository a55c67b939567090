import SkyQuery.Proofs.Progress.Conditions
import SkyQuery.Proofs.Refused.Queries
import SkyQuery.Proofs.RoundTrip.Queries

/-!
# What queries call

A table calls a query after a parenthesis, and only a join calls further tables and conditions, after its
words. `descends_subquery` is the equation of queries, which call themselves inside their clauses.
-/

namespace SkyQuery.Grammar

open Parse

variable {v : Version} {tokens : List Token} {j k : Nat} {α : Type} {value value' : Parse Operand} {query query' : Parse Query}
  {condition condition' : Parse Constraint} {table table' : Parse FromItem} {start : Place}

/-! ### Sources -/

/-- `ON condition | USING ( name (, name)* )` -/
def joinConditionOf (condition : Parse Constraint) : Parse JoinCondition := do
  if ← eat (.keyword .onKw) then return .on (← condition)
  else if ← eat (.keyword .usingKw) then
    let _ ← expect .leftParen
    let columns ← commaSeparated identifier
    let _ ← expect .rightParen
    return .sharing columns
  else unexpected

/-- A further join of `left`. -/
def joinTailOf (table : Parse FromItem) (condition : Parse Constraint) (start : Place) (left : FromItem) :
    Parse (Option FromItem) := do
  if ← eat (.keyword .crossKw) then
    let _ ← expect (.keyword .joinKw)
    let right ← table
    return some (.join left .cross false right .unstated (← spanFrom start))
  else
    let natural ← eat (.keyword .naturalKw)
    match ← eatJoin with
    | none => if natural then unexpected else return none
    | some kind =>
      let right ← table
      let condition ← if natural then pure .unstated else joinConditionOf condition
      return some (.join left kind natural right condition (← spanFrom start))

/-- `table (join)*` -/
def fromItemOf (table : Parse FromItem) (condition : Parse Constraint) : Parse FromItem := do
  let start ← place
  let left ← table
  iterate (joinTailOf table condition start) left

/-- `FROM item (, item)*` -/
def fromClauseOf (item : Parse FromItem) : Parse (List FromItem) := do
  let _ ← expect (.keyword .fromKw)
  commaSeparated item

theorem agree_joinConditionOf (h : Later v tokens k condition condition') :
    Agree v tokens k (joinConditionOf condition) (joinConditionOf condition') := by
  refine .eatIf (by nofun) (fun a ka => (h a ka).map) (.eatIf (by nofun) (fun b _ => ?_) agree_unexpected)
  refine .expect (by nofun) fun c _ _ => .step moves_names fun d names _ => ?_
  exact .expect (by nofun) fun _ _ _ => agree_pure _

theorem agree_tableRef (hq : Later v tokens k query query') : Agree v tokens k (tableRef query) (tableRef query') := by
  refine .place fun start => .eatIf (by nofun) (fun a ka => (hq a ka).bind fun b source _ => ?_) ?_
  · refine .expect (by nofun) fun c _ _ => .step (moves_eat _) fun d _ _ => ?_
    exact .step rereads_identifier.moves fun _ _ _ => agree_placed
  · refine .step (rereads_dotted 2).moves fun b parts _ => ?_
    cases TableName.ofParts? parts with
    | none => exact agree_unexpected
    | some name => exact .step rereads_optionalAlias.moves fun _ _ _ => agree_placed

theorem agree_joinTailOf (ht : Later v tokens k table table') (hc : Later v tokens k condition condition') (start : Place)
    (left : FromItem) : Agree v tokens k (joinTailOf table condition start left) (joinTailOf table' condition' start left) := by
  refine .eatIf (by nofun) (fun a ka => .expect (by nofun) fun b _ ab => (ht b (Nat.lt_trans ka ab)).placed) ?_
  refine .step (moves_eat _) fun b natural kb => rereads_eatJoin.moves.agree.after rereads_eatJoin.takes fun c found _ taken => ?_
  cases found with
  | none => exact .ite (fun _ => agree_unexpected) fun _ => agree_pure none
  | some kind =>
    have kc := Nat.lt_of_le_of_lt kb (taken rfl)
    refine (ht c kc).bind fun d right cd => ?_
    dsimp only
    refine .ite (fun _ => (agree_pure JoinCondition.unstated).placed) fun _ => ?_
    exact (agree_joinConditionOf (hc.mono (Nat.le_trans (Nat.le_of_lt kc) cd))).placed

theorem Onward.fromItemOf (ht : Onward v tokens k table table') (hc : Later v tokens k condition condition') :
    Onward v tokens k (fromItemOf table condition) (fromItemOf table' condition') := by
  refine fun j kj => .place fun start => (ht j kj).bind fun l left jl => .iterate (fun left m lm => ?_) left
  have km := Nat.le_trans kj (Nat.le_trans jl lm)
  exact agree_joinTailOf (ht.mono km).later (hc.mono km) start left

theorem agree_fromClauseOf {item item' : Parse FromItem} (h : Later v tokens k item item') :
    Agree v tokens k (fromClauseOf item) (fromClauseOf item') :=
  .expect (by nofun) fun _ _ kj => (h.onward kj).sepBy (by nofun)

/-! ### Clauses -/

/-- `* | table.* | value [[AS] alias]` -/
def selectItemOf (value : Parse Operand) : Parse SelectItem := do
  let start ← place
  if ← eat .star then return .all (← spanFrom start)
  else
    match ← eatTableStar with
    | some table => return .allOf table (← spanFrom start)
    | none =>
      let operand ← value
      let label ← optionalAlias
      return .expr operand label

/-- `SELECT [DISTINCT | ALL] [TOP n] item (, item)*` -/
def selectClauseOf (item : Parse SelectItem) : Parse SelectClause := do
  let start ← place
  let _ ← expect (.keyword .selectKw)
  let distinct ← distinctness
  let top ← topClause
  let items ← commaSeparated item
  return { distinct, top, items, span := ← spanFrom start }

/-- What rows are grouped by. -/
def groupItemOf (value : Parse Operand) : Parse Operand := do
  if (← version) == .v20 then columnRef else value

/-- `GROUP BY item (, item)*` -/
def groupByClauseOf (value : Parse Operand) : Parse (List Operand) := do
  let _ ← expect (.keyword .groupKw)
  let _ ← expect (.keyword .byKw)
  commaSeparated (groupItemOf value)

/-- What rows are ordered by, and in which direction. -/
def orderItemOf (value : Parse Operand) : Parse OrderItem := do
  let start ← place
  let expr ← orderKeyOf
  let descending ← direction
  return { expr, descending, span := ← spanFrom start }
where
  /-- A column or the number of one in version 2.0, any value otherwise. -/
  orderKeyOf : Parse Operand := do
    if (← version) == .v20 then
      if ← sees .integer then
        let start ← place
        let text := (← advance).text
        return .numeric text (← spanFrom start)
      else columnRef
    else value

/-- `ORDER BY item (, item)*` -/
def orderByClauseOf (value : Parse Operand) : Parse (List OrderItem) := do
  let _ ← expect (.keyword .orderKw)
  let _ ← expect (.keyword .byKw)
  commaSeparated (orderItemOf value)

theorem Onward.selectItemOf (h : Onward v tokens k value value') :
    Onward v tokens k (selectItemOf value) (selectItemOf value') := by
  refine fun j kj => .place fun start => .eatIf (by nofun) (fun _ _ => agree_placed) ?_
  refine .step rereads_eatTableStar.moves fun b found jb => ?_
  cases found with
  | some table => exact agree_placed
  | none => exact (h b (Nat.le_trans kj jb)).bind fun _ _ _ => .step rereads_optionalAlias.moves fun _ _ _ => agree_pure _

theorem agree_selectClauseOf {item item' : Parse SelectItem} (h : Later v tokens k item item') :
    Agree v tokens k (selectClauseOf item) (selectClauseOf item') := by
  refine .place fun start => .expect (by nofun) fun a _ ka => .step rereads_distinctness.moves fun b distinct ab => ?_
  refine .step rereads_topClause.moves fun c top bc => ?_
  exact ((h.onward (Nat.lt_of_lt_of_le ka (Nat.le_trans ab bc))).sepBy (by nofun)).placed

theorem Onward.groupItemOf (h : Onward v tokens k value value') : Onward v tokens k (groupItemOf value) (groupItemOf value') :=
  fun j kj => .look looks_version fun _ => .ite (fun _ => rereads_columnRef.moves.agree) fun _ => h j kj

theorem agree_groupByClauseOf (h : Later v tokens k value value') :
    Agree v tokens k (groupByClauseOf value) (groupByClauseOf value') :=
  .expect (by nofun) fun _ _ ka => .expect (by nofun) fun _ _ ab => (h.onward (Nat.lt_trans ka ab)).groupItemOf.sepBy (by nofun)

theorem Onward.orderItemOf (h : Onward v tokens k value value') : Onward v tokens k (orderItemOf value) (orderItemOf value') := by
  refine fun j kj => .place fun start => Agree.bind ?_ fun l expr _ => .step rereads_direction.moves fun _ _ _ => agree_placed
  refine .look looks_version fun _ => .ite (fun _ => ?_) fun _ => h j kj
  refine .look (looks_sees _) fun _ => .ite (fun _ => ?_) fun _ => rereads_columnRef.moves.agree
  exact .place fun _ => .step moves_advance fun _ _ _ => agree_placed

theorem agree_orderByClauseOf (h : Later v tokens k value value') :
    Agree v tokens k (orderByClauseOf value) (orderByClauseOf value') :=
  .expect (by nofun) fun _ _ ka => .expect (by nofun) fun _ _ ab => (h.onward (Nat.lt_trans ka ab)).orderItemOf.sepBy (by nofun)

/-! ### Bodies -/

/-- A word and the condition after it, if the word is next. -/
def optionalConditionOf (condition : Parse Constraint) (word : Keyword) : Parse (Option Constraint) := do
  if ← eat (.keyword word) then return some (← condition) else return none

/-- A query of one `SELECT`, with the readers of its clauses and conditions. -/
def selectQueryOf (clause : Parse SelectClause) (source : Parse (List FromItem)) (condition : Parse Constraint)
    (groupBy : Parse (List Operand)) : Parse SelectQuery := do
  let start ← place
  let clause ← clause
  let source ← source
  let filter ← optionalConditionOf condition .whereKw
  let groupBy ← optionalClause .groupKw groupBy
  let having ← optionalConditionOf condition .havingKw
  return { clause, source, filter, groupBy, having, orderBy := [], offset := none,
           span := ← spanFrom start }

/-- `body [ORDER BY ...] [OFFSET n]` -/
def orderedBodyOf (body : Parse QueryBody) (orderBy : Parse (List OrderItem)) : Parse QueryBody := do
  let start ← place
  let body ← body
  let orderBy ← optionalClause .orderKw orderBy
  let offset ← offsetClause
  return finish orderBy offset (← spanFrom start) body

theorem agree_optionalConditionOf (h : Later v tokens k condition condition') (word : Keyword) :
    Agree v tokens k (optionalConditionOf condition word) (optionalConditionOf condition' word) :=
  .eatIf (by nofun) (fun j kj => (h j kj).map) (agree_pure none)

theorem agree_optionalClause {word : Keyword} {clause clause' : Parse (List α)} (h : Agree v tokens k clause clause') :
    Agree v tokens k (optionalClause word clause) (optionalClause word clause') :=
  .look (looks_sees _) fun _ => .ite (fun _ => h) fun _ => agree_pure []

theorem agree_selectQueryOf {clause clause' : Parse SelectClause} {source source' : Parse (List FromItem)}
    {groupBy groupBy' : Parse (List Operand)} (hs : Agree v tokens k clause clause') (hf : Onward v tokens k source source')
    (hc : Later v tokens k condition condition') (hg : Onward v tokens k groupBy groupBy') :
    Agree v tokens k (selectQueryOf clause source condition groupBy) (selectQueryOf clause' source' condition' groupBy') := by
  refine .place fun start => hs.bind fun a _ ka => (hf a ka).bind fun b _ ab => ?_
  have kb := Nat.le_trans ka ab
  refine (agree_optionalConditionOf (hc.mono kb) _).bind fun c _ bc => ?_
  have kc := Nat.le_trans kb bc
  refine (agree_optionalClause (hg c kc)).bind fun d _ cd => ?_
  exact (agree_optionalConditionOf (hc.mono (Nat.le_trans kc cd)) _).placed

theorem agree_combinedRound {operators : List (Keyword × SetOperator)} {item item' : Parse QueryBody}
    (h : Later v tokens k item item') (start : Place) (left : QueryBody) :
    Agree v tokens k (combined.round operators item start left) (combined.round operators item' start left) := by
  have reads := rereads_eatSetOperator (v := v) (d := 0) operators
  refine reads.moves.agree.after reads.takes fun a found _ taken => ?_
  cases found with
  | none => exact agree_pure none
  | some op => exact .step (moves_eat _) fun b all ab => (h b (Nat.lt_of_lt_of_le (taken rfl) ab)).placed

theorem Onward.combined {operators : List (Keyword × SetOperator)} {item item' : Parse QueryBody}
    (h : Onward v tokens k item item') : Onward v tokens k (combined operators item) (combined operators item') := by
  refine fun j kj => .place fun start => (h j kj).bind fun l left jl => .iterate (fun left m lm => ?_) left
  exact agree_combinedRound (h.mono (Nat.le_trans kj (Nat.le_trans jl lm))).later start left

theorem agree_orderedBodyOf {body body' : Parse QueryBody} {orderBy orderBy' : Parse (List OrderItem)}
    (hb : Agree v tokens k body body') (ho : Onward v tokens k orderBy orderBy') :
    Agree v tokens k (orderedBodyOf body orderBy) (orderedBodyOf body' orderBy') := by
  refine .place fun start => hb.bind fun a body ka => (agree_optionalClause (ho a ka)).bind fun b orderBy _ => ?_
  exact .step rereads_offsetClause.moves fun _ _ _ => agree_placed

/-! ### Queries -/

/-- `name [( name (, name)* )] AS ( query )` -/
def withItemOf (query : Parse Query) : Parse WithItem := do
  let start ← place
  let name ← identifier
  let columns ← withItem.declaredColumns
  let _ ← expect (.keyword .asKw)
  let _ ← expect .leftParen
  let query ← query
  let _ ← expect .rightParen
  return { name, columns, query, span := ← spanFrom start }

/-- `[WITH with_item (, with_item)*]`, at the top level only. -/
def withClauseOf (topLevel : Bool) (withItem : Parse WithItem) : Parse (List WithItem) :=
  if topLevel then do
    if ← eat (.keyword .withKw) then commaSeparated withItem else return []
  else pure []

/-- A query, with the readers of its parts. -/
def queryOf (topLevel : Bool) (withItem : Parse WithItem) (body : Parse QueryBody) (orderBy : Parse (List OrderItem)) :
    Parse Query := do
  let start ← place
  let withItems ← withClauseOf topLevel withItem
  let body ← orderedBodyOf body orderBy
  return { withItems, body, span := ← spanFrom start }

theorem agree_withItemOf (h : Later v tokens k query query') : Agree v tokens k (withItemOf query) (withItemOf query') := by
  refine .place fun start => .step rereads_identifier.moves fun a _ ka => .step moves_declaredColumns fun b _ ab => ?_
  refine .expect (by nofun) fun c _ bc => .expect (by nofun) fun d _ cd => (h d (by omega)).bind fun _ _ _ => ?_
  exact .expect (by nofun) fun _ _ _ => agree_placed

theorem agree_queryOf {topLevel : Bool} {item item' : Parse WithItem} {body body' : Parse QueryBody}
    {orderBy orderBy' : Parse (List OrderItem)} (hw : Later v tokens k item item') (hb : Onward v tokens k body body')
    (ho : Onward v tokens k orderBy orderBy') :
    Agree v tokens k (queryOf topLevel item body orderBy) (queryOf topLevel item' body' orderBy') := by
  refine .place fun start => Agree.bind (.ite (fun _ => ?_) fun _ => agree_pure []) fun a _ ka => ?_
  · exact .eatIf (by nofun) (fun j kj => (hw.onward kj).sepBy (by nofun)) (agree_pure [])
  · exact (agree_orderedBodyOf (hb a ka) (ho.mono ka)).placed

theorem Later.queryBody (hq : Later v tokens k query query') : Onward v tokens k (queryBody query) (queryBody query') := by
  have conditions := hq.condition
  have tables : Onward v tokens k (tableRef query) (tableRef query') := fun j kj => agree_tableRef (hq.mono kj)
  have items : Onward v tokens k (fromItem query) (fromItem query') := tables.fromItemOf conditions.later
  have sources : Onward v tokens k (fromClause query) (fromClause query') := fun j kj => agree_fromClauseOf (items.mono kj).later
  have selects : Onward v tokens k (do return QueryBody.select (← selectQuery query)) (do return .select (← selectQuery query')) := by
    refine fun j kj => Agree.map (agree_selectQueryOf ?_ (sources.mono kj) (conditions.mono kj).later ?_)
    · exact rereads_selectClause.moves.agree
    · exact rereads_groupByClause.moves.onward
  exact selects.combined.combined

/-- A query calls queries inside its clauses. -/
theorem descends_subquery : Descends v tokens (fun _ => 0)
    (fun query (_ : Unit) => queryOf false withItem (queryBody (query ())) orderByClause) fun _ => subquery := by
  refine descends_bounded (fun n _ => subqueryFor n) (fun _ _ => rfl) fun k _ q q' h => ?_
  have items : Moves v withItem := moves_of_ends fun _ => withItem_located
  exact agree_queryOf items.onward.later (h ()).queryBody rereads_orderByClause.moves.onward

end SkyQuery.Grammar
