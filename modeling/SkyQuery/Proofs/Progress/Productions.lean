import SkyQuery.Proofs.Progress.Queries

/-!
# Productions

The productions of the grammar as one family of readers that call each other. `descends_read`: a call comes
after a further token or is one of a lower production. `descends_loop`: a round of a loop comes after a
further token. `read_passes`: every production reads a token at least.
-/

namespace SkyQuery.Grammar

open Parse

/-- The productions of the grammar. -/
inductive Production where
  | query (topLevel : Bool) | withItem | setExpression | intersection | selectQuery
  | selectClause | selectItem | groupBy | orderBy
  | fromClause | fromItem | tableRef
  | condition | conjunction | negation | group | predicate
  | value | sum | product | unary | primary | call | arguments
  | chain (n : Nat)

/-- What a production reads. -/
abbrev Production.Result : Production → Type
  | query _ => Query
  | withItem => WithItem
  | setExpression | intersection => QueryBody
  | selectQuery => SelectQuery
  | selectClause => SelectClause
  | selectItem => SelectItem
  | groupBy => List Operand
  | orderBy => List OrderItem
  | fromClause => List FromItem
  | fromItem | tableRef => FromItem
  | condition | conjunction | negation | group | predicate => Constraint
  | value | sum | product | unary | primary | call => Operand
  | arguments => List Operand
  | chain _ => List Identifier

/-- The reader of a production. -/
def Production.read : ∀ p : Production, Parse p.Result
  | query true => Grammar.query
  | query false => subquery
  | withItem => Grammar.withItem
  | setExpression => queryBody subquery
  | intersection => combined [(.intersectKw, .intersect)] (do return .select (← Grammar.selectQuery subquery))
  | selectQuery => Grammar.selectQuery subquery
  | selectClause => Grammar.selectClause
  | selectItem => Grammar.selectItem
  | groupBy => groupByClause
  | orderBy => orderByClause
  | fromClause => Grammar.fromClause subquery
  | fromItem => Grammar.fromItem subquery
  | tableRef => Grammar.tableRef subquery
  | condition => Grammar.condition subquery
  | conjunction => connected .andKw .and (Grammar.negation subquery (Grammar.condition subquery))
  | negation => Grammar.negation subquery (Grammar.condition subquery)
  | group => grouped (Grammar.condition subquery)
  | predicate => Grammar.predicate subquery
  | value => Grammar.value
  | sum => additive (Grammar.primary (Grammar.call Grammar.value) Grammar.value)
  | product => arithmetic (.star, .mul) (.slash, .div) (signed (Grammar.primary (Grammar.call Grammar.value) Grammar.value))
  | unary => signed (Grammar.primary (Grammar.call Grammar.value) Grammar.value)
  | primary => Grammar.primary (Grammar.call Grammar.value) Grammar.value
  | call => Grammar.call Grammar.value
  | arguments => Grammar.arguments Grammar.value
  | chain n => dotted n

/-- A production, in which `q` reads the productions that it calls. -/
def Production.body (q : ∀ p : Production, Parse p.Result) : ∀ p : Production, Parse p.Result
  | query topLevel => queryOf topLevel (q withItem) (q setExpression) (q orderBy)
  | withItem => withItemOf (q (query false))
  | setExpression => combined [(.unionKw, .union), (.exceptKw, .except)] (q intersection)
  | intersection => combined [(.intersectKw, .intersect)] (do return .select (← q selectQuery))
  | selectQuery => selectQueryOf (q selectClause) (q fromClause) (q condition) (q groupBy)
  | selectClause => selectClauseOf (q selectItem)
  | selectItem => selectItemOf (q value)
  | groupBy => groupByClauseOf (q value)
  | orderBy => orderByClauseOf (q value)
  | fromClause => fromClauseOf (q fromItem)
  | fromItem => fromItemOf (q tableRef) (q condition)
  | tableRef => Grammar.tableRef (q (query false))
  | condition => connected .orKw .or (q conjunction)
  | conjunction => connected .andKw .and (q negation)
  | negation => negationOf (q (query false)) (q negation) (q group) (q predicate)
  | group => grouped (q condition)
  | predicate => predicateOf (q value) (q (query false))
  | value => concatenationOf (q sum)
  | sum => arithmetic (.plus, .add) (.minus, .sub) (q product)
  | product => arithmetic (.star, .mul) (.slash, .div) (q unary)
  | unary => unaryOf (q primary) (q unary)
  | primary => Grammar.primary (q call) (q value)
  | call => Grammar.call (q value)
  | arguments => Grammar.arguments (q value)
  | chain n => dotted n

/-- The level of a production, which is above those of the productions that it may call where it starts. -/
def Production.level : Production → Nat
  | withItem | selectClause | groupBy | orderBy | fromClause | tableRef | group | call | arguments | chain _ => 0
  | selectQuery | fromItem | primary => 1
  | intersection | unary => 2
  | setExpression | product => 3
  | query _ | sum => 4
  | value => 5
  | selectItem | predicate => 6
  | negation => 7
  | conjunction => 8
  | condition => 9

/-- The number of levels. -/
def Production.levels : Nat := 10

variable {v : Version} {tokens : List Token} {k : Nat}

theorem Production.level_lt (p : Production) : p.level < levels := by
  cases p <;> simp [level, levels]

/-! ### Calls -/

theorem body_calls (p : Production) {q q' : ∀ p : Production, Parse p.Result}
    (h : ∀ j (p' : Production), k < j ∨ j = k ∧ p'.level < p.level → Agree v tokens j (q p') (q' p')) :
    Agree v tokens k (p.body q) (p.body q') := by
  have later (p' : Production) : Later v tokens k (q p') (q' p') := fun j kj => h j p' (.inl kj)
  have onward (p' : Production) (lower : p'.level < p.level) : Onward v tokens k (q p') (q' p') := by
    intro j kj
    rcases Nat.lt_or_eq_of_le kj with kj | rfl
    · exact later p' j kj
    · exact h k p' (.inr ⟨rfl, lower⟩)
  -- Each production calls where it starts only what has a lower level.
  cases p with
  | query topLevel => exact agree_queryOf (later _) (onward _ (by simp [Production.level])) (onward _ (by simp [Production.level]))
  | withItem => exact agree_withItemOf (later _)
  | setExpression => exact (onward .intersection (by decide)).combined.here
  | intersection =>
    have selects : Onward v tokens k (do return QueryBody.select (← q .selectQuery)) (do return .select (← q' .selectQuery)) :=
      fun j kj => (onward .selectQuery (by decide) j kj).map
    exact selects.combined.here
  | selectQuery =>
    exact agree_selectQueryOf (onward _ (by decide)).here (onward _ (by decide)) (later _) (onward _ (by decide))
  | selectClause => exact agree_selectClauseOf (later _)
  | selectItem => exact (onward .value (by decide)).selectItemOf.here
  | groupBy => exact agree_groupByClauseOf (later _)
  | orderBy => exact agree_orderByClauseOf (later _)
  | fromClause => exact agree_fromClauseOf (later _)
  | fromItem => exact ((onward .tableRef (by decide)).fromItemOf (later _)).here
  | tableRef => exact agree_tableRef (later _)
  | condition => exact (onward .conjunction (by decide)).connected.here
  | conjunction => exact (onward .negation (by decide)).connected.here
  | negation => exact agree_negationOf (later _) (later _) (onward _ (by decide)).here (onward _ (by decide)).here
  | group => exact agree_grouped (later _)
  | predicate => exact agree_predicateOf (onward _ (by decide)) (later _)
  | value => exact (onward .sum (by decide)).concatenation.here
  | sum => exact ((onward .product (by decide)).arithmetic (by nofun) (by nofun)).here
  | product => exact ((onward .unary (by decide)).arithmetic (by nofun) (by nofun)).here
  | unary => exact agree_unaryOf (onward _ (by decide)).here (later _)
  | primary => exact agree_primary (onward _ (by decide)).here (later _)
  | call => exact agree_call (later _)
  | arguments => exact agree_arguments (later _)
  | chain n => exact (rereads_dotted n).moves.agree

/-! ### Words that are read -/

theorem call_passes (k : Nat) : Ends v tokens k (call value) fun j _ => k < j := by
  have again : RereadsValue false v 0 value value := rereads_value
  refine .place (moves_advance.bind fun a name ka => ?_)
  have further {α β : Type} {p : Parse α} {view : α → β} (reads : Rereads false v [] 0 (fun _ => True) p p view) :
      Ends v tokens a p fun j _ => k < j := reads.passes.mono fun _ _ _ aj => Nat.lt_of_le_of_lt ka aj
  split
  · exact further (rereads_aggregateCall again _)
  · exact further (rereads_mathCall again _)
  · exact further (rereads_geometryCall again _)
  · exact (further (rereads_stringArgument again _)).passing fun _ => looks_placed.moves
  · exact (further (rereads_stringArgument again _)).passing fun _ => looks_placed.moves
  · exact further (rereads_coalesceCall again)
  · exact further (rereads_inUnitCall again)
  · exact further (rereads_castCall again)
  · exact (further (rereads_arguments again)).passing fun _ => looks_placed.moves

theorem read_passes (p : Production) (k : Nat) : Ends v tokens k p.read fun j _ => k < j := by
  have queries : RereadsQuery v 0 subquery subquery := rereads_subquery
  have values : RereadsValue false v 0 value value := rereads_value
  have primaries : RereadsValue false v 0 (primary (call value) value) (primary (call value) value) :=
    (rereads_primary values).shorter (Nat.zero_le 1)
  have signs := rereads_signed primaries fun _ _ _ => primary_opens
  have negations : RereadsCondition false v 0 (negation subquery (condition subquery)) (negation subquery (condition subquery)) :=
    .bounded <| rereads_negationFor queries (rereads_condition queries) (Nat.zero_le 1) fun h => .bounded fun m => conditionFor_fails m h
  have selects : RereadsBody v 0 (do return .select (← selectQuery subquery)) (do return .select (← selectQuery subquery)) :=
    (rereads_selectQuery queries (Nat.zero_le 1)).first (fun q q' same => rereads_pure (congrArg QueryBody.select same) id)
      (Nat.zero_le 1)
  cases p with
  | query topLevel =>
    cases topLevel with
    | false => exact rereads_subquery.passes
    | true =>
      refine .place ((withClause_located k).bind fun j items kj _ => ?_)
      refine Ends.mono ((rereads_orderedBody queries (Nat.zero_le 1)).passes.passing fun _ => looks_placed.moves) ?_
      exact fun l _ _ jl => Nat.lt_of_le_of_lt kj jl
  | withItem =>
    refine .place (rereads_identifier.passes.passing fun name => moves_declaredColumns.seq fun columns => ?_)
    refine (moves_expect _).seq fun _ => (moves_expect _).seq fun _ => rereads_subquery.moves.seq fun query => ?_
    exact (moves_expect _).seq fun _ => looks_placed.moves
  | setExpression => exact (rereads_queryBody queries (Nat.zero_le 1)).passes
  | intersection => exact (rereads_combined _ selects).passes
  | selectQuery => exact (rereads_selectQuery queries (Nat.zero_le 1)).passes
  | selectClause => exact rereads_selectClause.passes
  | selectItem => exact rereads_selectItem.passes
  | groupBy => exact rereads_groupByClause.passes
  | orderBy => exact rereads_orderByClause.passes
  | fromClause => exact (rereads_fromClause queries).passes
  | fromItem => exact (rereads_fromItem queries).passes
  | tableRef => exact (rereads_tableRef queries).passes
  | condition => exact (rereads_condition queries).passes
  | conjunction => exact (rereads_connected (by nofun) (fun _ _ _ => by rw [Constraint.unplaced]) negations).passes
  | negation => exact negations.passes
  | group => exact (rereads_grouped (rereads_condition queries) (Nat.zero_le 1)).passes
  | predicate => exact (rereads_predicate queries).passes
  | value => exact values.passes
  | sum => exact (rereads_additive primaries fun _ _ _ => primary_opens).passes
  | product => exact (rereads_arithmetic (no_operator (by nofun) (by nofun)) signs).passes
  | unary => exact signs.passes
  | primary => exact primaries.passes
  | call => exact call_passes k
  | arguments => exact (rereads_arguments values).passes
  | chain n => exact (rereads_dotted n).passes

theorem moves_read (p : Production) : Moves v p.read := fun _ k => (read_passes p k).mono fun _ _ _ _ => trivial

/-! ### Equations -/

theorem read_unfolds (p : Production) : Agree v tokens k p.read (p.body Production.read) := by
  have plain (same : p.read = p.body Production.read) : Agree v tokens k p.read (p.body Production.read) :=
    same ▸ (moves_read p).agree
  cases p with
  | query topLevel =>
    cases topLevel with
    | false => exact descends_subquery.unfolds k ()
    | true => exact plain rfl
  | condition => exact (descends_condition (moves_read (.query false))).unfolds k ()
  | negation => exact (descends_negation (moves_read (.query false)) (moves_read .group) (moves_read .predicate)).unfolds k ()
  | value => exact descends_value.unfolds k ()
  | unary => exact (descends_signed (moves_read .primary)).unfolds k ()
  | _ => exact plain rfl

theorem descends_read : Descends v tokens Production.level Production.body Production.read :=
  ⟨fun _ p _ _ h => body_calls p h, fun _ p => read_unfolds p⟩

/-! ### Loops -/

/-- The rounds of the loops that group to the left. -/
inductive Round : {α : Type} → (α → Parse (Option α)) → Prop where
  | sums (start : Place) : Round (arithmetic.round (.plus, .add) (.minus, .sub) (Production.read .product) start)
  | products (start : Place) : Round (arithmetic.round (.star, .mul) (.slash, .div) (Production.read .unary) start)
  | disjunctions (start : Place) : Round (connected.round .orKw .or (Production.read .conjunction) start)
  | conjunctions (start : Place) : Round (connected.round .andKw .and (Production.read .negation) start)
  | joins (start : Place) : Round (joinTail subquery start)
  | unions (start : Place) : Round (combined.round [(.unionKw, .union), (.exceptKw, .except)] (Production.read .intersection) start)
  | intersections (start : Place) :
    Round (combined.round [(.intersectKw, .intersect)] (do return .select (← selectQuery subquery)) start)

/-- The items of lists, with what stands between them. -/
inductive Listed : {α : Type} → Kind → Parse α → Prop where
  | parts : Listed .concat (concatenation.part (Production.read .sum))
  | values : Listed .comma value
  | names : Listed .comma identifier
  | tables : Listed .comma (Production.read .fromItem)
  | withItems : Listed .comma withItem
  | selectItems : Listed .comma selectItem
  | groupItems : Listed .comma groupItem
  | orderItems : Listed .comma orderItem

/-- The loops of the grammar, each with what it does before it goes on. -/
inductive Loop : ∀ {ι : Type} {R : ι → Type}, ((∀ i, Parse (R i)) → ∀ i, Parse (R i)) → (∀ i, Parse (R i)) → Prop where
  | rounds {α : Type} {step : α → Parse (Option α)} (round : Round step) :
    @Loop α (fun _ => α) (iterate.once step) (iterate step)
  | list {α : Type} {sep : Kind} {item : Parse α} (listed : Listed sep item) :
    @Loop Unit (fun _ => List α) (fun more _ => followers.once sep item (more ())) fun _ => followers sep item
  | literals : @Loop Unit (fun _ => String) (fun more _ => literals.once (more ())) fun _ => bounded literalsFor
  | names : @Loop Nat (fun _ => List Identifier) dotted.once dottedFor

section Rounds

variable {k : Nat}

theorem arithmeticRound_takes {first second : Kind × ArithOp} {item : Parse Operand} (hfirst : first.1 ≠ .endOfText)
    (hsecond : second.1 ≠ .endOfText) (moves : Moves v item) (start : Place) (left : Operand) :
    Ends v tokens k (arithmetic.round first second item start left) fun j found => found.isSome = true → k < j := by
  refine (ends_operator hfirst hsecond).bind ?_
  rintro j found - ⟨rfl, inside⟩
  cases found with
  | none => exact ends_pure (by simp)
  | some op =>
    have rest (right : Operand) : Looks v (do
        checkNumeric left
        checkNumeric right
        return some (Operand.operation left op right (← spanFrom start))) :=
      (looks_checkNumeric left).seq fun _ => (looks_checkNumeric right).seq fun _ => looks_placed
    refine ((ends_advance (inside rfl)).passing fun _ => moves.seq fun right => (rest right).moves).mono ?_
    exact fun _ _ _ taken _ => taken

theorem connectedRound_takes {word : Keyword} {connect : Constraint → Constraint → Option Span → Constraint}
    {item : Parse Constraint} (moves : Moves v item) (start : Place) (left : Constraint) :
    Ends v tokens k (connected.round word connect item start left) fun j found => found.isSome = true → k < j := by
  refine (ends_eat (by nofun)).bind fun j eaten _ taken => ?_
  cases eaten with
  | false => exact ends_pure (by simp)
  | true =>
    refine Ends.mono (moves.seq (fun _ => looks_placed.moves) tokens j) fun l _ jl _ _ => ?_
    exact Nat.lt_of_lt_of_le taken jl

theorem combinedRound_takes {operators : List (Keyword × SetOperator)} {item : Parse QueryBody} (moves : Moves v item)
    (start : Place) (left : QueryBody) :
    Ends v tokens k (combined.round operators item start left) fun j found => found.isSome = true → k < j := by
  refine (rereads_eatSetOperator (v := v) (d := 0) operators).takes.bind fun j found _ taken => ?_
  cases found with
  | none => exact ends_pure (by simp)
  | some op =>
    refine Ends.mono ((moves_eat _).seq (fun _ => moves.seq fun _ => looks_placed.moves) tokens j) fun l _ jl _ _ => ?_
    exact Nat.lt_of_lt_of_le (taken rfl) jl

end Rounds

/-- A round that goes on takes a token. -/
theorem Round.takes {α : Type} {step : α → Parse (Option α)} (h : Round step) (a : α) (k : Nat) :
    Ends v tokens k (step a) fun j found => found.isSome = true → k < j := by
  cases h with
  | sums start => exact arithmeticRound_takes (by nofun) (by nofun) (moves_read .product) start a
  | products start => exact arithmeticRound_takes (by nofun) (by nofun) (moves_read .unary) start a
  | disjunctions start => exact connectedRound_takes (moves_read .conjunction) start a
  | conjunctions start => exact connectedRound_takes (moves_read .negation) start a
  | joins start =>
    have reads : Rereads false v [] 0 (·.isSome = true) (joinTail subquery start a) (joinTail subquery start a)
        (Option.map FromItem.unplaced) := rereads_joinTail rereads_subquery rfl
    exact reads.takes
  | unions start => exact combinedRound_takes (moves_read .intersection) start a
  | intersections start => exact combinedRound_takes ((moves_read .selectQuery).seq fun _ => (looks_pure _).moves) start a

theorem Listed.inside {α : Type} {sep : Kind} {item : Parse α} (h : Listed sep item) : sep ≠ .endOfText := by
  cases h <;> nofun

theorem Listed.moves {α : Type} {sep : Kind} {item : Parse α} (h : Listed sep item) : Moves v item := by
  cases h with
  | parts => exact (moves_read .sum).seq fun part => (looks_checkString part).moves.seq fun _ => (looks_pure part).moves
  | values => exact moves_read .value
  | names => exact rereads_identifier.moves
  | tables => exact moves_read .fromItem
  | withItems => exact moves_read .withItem
  | selectItems => exact moves_read .selectItem
  | groupItems => exact rereads_groupItem.moves
  | orderItems => exact rereads_orderItem.moves

theorem descends_loop {ι : Type} {R : ι → Type} {F : (∀ i, Parse (R i)) → ∀ i, Parse (R i)} {p : ∀ i, Parse (R i)}
    (h : Loop F p) : Descends v tokens (fun _ => 0) F p := by
  cases h with
  | rounds round => exact descends_iterate round.takes
  | list listed => exact descends_followers listed.inside listed.moves
  | literals => exact descends_literals
  | names => exact descends_dotted

end SkyQuery.Grammar
