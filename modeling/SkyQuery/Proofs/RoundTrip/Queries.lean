import SkyQuery.Proofs.RoundTrip.Clauses

/-!
# Queries are read back

`query_reads`: the words of a well-formed query are read as the same query. Bodies group to the left
by rank, as values do; the order and the offset of a body come after all of it.
-/

namespace SkyQuery.Grammar

open Parse

variable {v : Version} {query : Parse Query} {n : Nat} {rest : List Word}

/-! ### Queries without set operators -/

/-- The words of a clause that may be missing stand before what follows it. -/
theorem next_clause {ws : List Word} {b : Nat} (h : ∀ w ∈ ws.head?, w.1.binding ≤ b)
    (hrest : (nextKind rest).binding ≤ b) : (nextKind (ws ++ rest)).binding ≤ b := by
  cases ws with
  | nil => exact hrest
  | cons w ws => exact h w rfl

theorem clauseWords_head (word : Keyword) (c : Option Constraint) :
    ∀ w ∈ (Constraint.clauseWords word c).head?, w = keywordWord word := by
  cases c with
  | none =>
    intro _ h
    cases h
  | some c => exact fun w hw => (Option.some.inj hw).symm

theorem groupByWords_head (items : List Operand) :
    ∀ w ∈ (groupByWords items).head?, w = keywordWord .groupKw := by
  cases items with
  | nil =>
    intro _ h
    cases h
  | cons item others => exact fun w hw => (Option.some.inj hw).symm

theorem orderByWords_head (items : List OrderItem) :
    ∀ w ∈ (orderByWords items).head?, w = keywordWord .orderKw := by
  cases items with
  | nil =>
    intro _ h
    cases h
  | cons item others => exact fun w hw => (Option.some.inj hw).symm

theorem offsetWords_head (offset : Option Offset) :
    ∀ w ∈ (offsetWords offset).head?, w = keywordWord .offsetKw := by
  cases offset with
  | none =>
    intro _ h
    cases h
  | some offset => exact fun w hw => (Option.some.inj hw).symm

theorem optionalCondition_reads (hquery : ReadsQueries v query n) (word : Keyword) {c : Option Constraint}
    (h : Constraint.EachWellFormed v c) (short : (Constraint.clauseWords word c).length ≤ n)
    (ends : (nextKind rest).binding < (Kind.keyword word).binding) (level : (Kind.keyword word).binding ≤ 9) :
    Reads v (optionalCondition query word) (Constraint.clauseWords word c) rest
      (Constraint.eachUnplaced · = Constraint.eachUnplaced c) := by
  cases c with
  | none => exact .eatElse (ne_of_binding_lt ends) (reads_pure rfl)
  | some c =>
    rw [Constraint.clauseWords, List.length_cons] at short
    have ends' : (nextKind rest).binding ≤ 9 := by omega
    refine .eatThen ((condition_reads hquery h (by omega) ends').close fun d hd => reads_pure ?_)
    simp only [Constraint.eachUnplaced, hd]

theorem optionalClause_reads {α β : Type} {word : Keyword} {clause : Parse (List α)} {as : List α}
    {ws us : List Word} (view : α → β) (words : ws = if as.isEmpty then [] else keywordWord word :: us)
    (h : as ≠ [] → Reads v clause ws rest (·.map view = as.map view))
    (ends : (nextKind rest).binding < (Kind.keyword word).binding) :
    Reads v (optionalClause word clause) ws rest (·.map view = as.map view) := by
  cases as with
  | nil =>
    obtain rfl : ws = [] := words
    exact .sees (.iteFalse (mt beq_iff_eq.1 (ne_of_binding_lt ends)) (reads_pure rfl))
  | cons a others =>
    have read := h (List.cons_ne_nil a others)
    obtain rfl : ws = keywordWord word :: us := words
    exact .sees (.iteTrue (beq_iff_eq.2 rfl) read)

theorem selectQuery_reads (hquery : ReadsQueries v query n) {q : SelectQuery} (h : q.WellFormed v)
    (plain : q.orderBy = [] ∧ q.offset = none) (short : q.words.length ≤ n + 1)
    (ends : (nextKind rest).binding ≤ 4) :
    Reads v (selectQuery query) q.words rest (·.unplaced = q.unplaced) := by
  obtain ⟨clause, source, filter, groupBy, having, orderBy, offset, span⟩ := q
  obtain ⟨hclause, nonempty, hsource, hfilter, hgroupBy, hhaving, -⟩ := h
  obtain ⟨rfl, rfl⟩ : orderBy = [] ∧ offset = none := plain
  rw [SelectQuery.words, FromItem.allWords_eq_map] at short ⊢
  have words : tailWords [] none = [] := rfl
  rw [words, List.append_nil] at short ⊢
  have first : 0 < clause.words.length := Nat.zero_lt_succ _
  simp only [List.length_append, List.length_cons] at short
  have afterHaving : (nextKind (Constraint.clauseWords .havingKw having ++ rest)).binding ≤ 5 :=
    next_clause (fun w hw => clauseWords_head _ _ w hw ▸ Nat.le_refl 5) (Nat.le_succ_of_le ends)
  have afterGroup : (nextKind (groupByWords groupBy ++ Constraint.clauseWords .havingKw having ++ rest)).binding ≤ 6 := by
    rw [List.append_assoc]
    exact next_clause (fun w hw => groupByWords_head _ w hw ▸ Nat.le_refl 6) (Nat.le_succ_of_le afterHaving)
  have afterWhere : (nextKind (Constraint.clauseWords .whereKw filter ++
      (groupByWords groupBy ++ Constraint.clauseWords .havingKw having) ++ rest)).binding ≤ 7 := by
    rw [List.append_assoc]
    exact next_clause (fun w hw => clauseWords_head _ _ w hw ▸ Nat.le_refl 7) (Nat.le_succ_of_le afterGroup)
  have hitems := FromItem.allWellFormed_iff.1 hsource
  refine .place fun start => (selectClause_reads hclause ?_).bind fun c hc => ?_
  · exact Nat.zero_le 7
  refine Reads.bind (fromClause_reads hquery nonempty hitems ?_ afterWhere) fun items hitems => ?_
  · rw [sourceWords, List.length_cons]
    omega
  refine (optionalCondition_reads hquery .whereKw hfilter (by omega) ?_ (by decide)).bind fun f hf => ?_
  · exact Nat.lt_succ_of_le afterGroup
  have group (some : groupBy ≠ []) := groupByClause_reads some hgroupBy (Nat.le_trans afterHaving (by decide))
  refine (optionalClause_reads Operand.unplaced rfl group (Nat.lt_succ_of_le afterHaving)).bind fun g hg => ?_
  refine (optionalCondition_reads hquery .havingKw hhaving (by omega) (Nat.lt_succ_of_le ends) (by decide)).close ?_
  refine fun k hk => .spanFrom fun _ => reads_pure ?_
  simp only [SelectQuery.unplaced, FromItem.allUnplaced_eq_map, hc, hitems, hf, hg, hk]

/-! ### Set operations -/

/-- `p` reads back each well-formed body of at most `n` words that binds at least as tightly as `r`
and has neither order nor offset. -/
def ReadsBodies (v : Version) (p : Parse QueryBody) (n r : Nat) : Prop :=
  ∀ b : QueryBody, b.WellFormed v → b.Plain → r ≤ b.rank → b.words.length ≤ n → ∀ rest,
    (nextKind rest).binding ≤ 2 + r → Reads v p b.words rest (·.unplaced = b.unplaced)

/-- The set operators of one rank, each with its word. -/
structure AreSetOperators (operators : List (Keyword × SetOperator)) (r : Nat) : Prop where
  all : ∀ op : SetOperator, op.rank = r → (op.keyword, op) ∈ operators
  distinct : operators.Pairwise (·.1 ≠ ·.1)
  binding : ∀ entry ∈ operators, (Kind.keyword entry.1).binding = 3 + r

variable {operators : List (Keyword × SetOperator)} {item : Parse QueryBody} {r : Nat}

theorem eatSetOperator_reads (distinct : operators.Pairwise (·.1 ≠ ·.1)) {word : Keyword} {op : SetOperator}
    (h : (word, op) ∈ operators) : Reads v (eatSetOperator operators) [keywordWord word] rest (· = some op) := by
  induction operators with
  | nil => cases h
  | cons entry others ih =>
    obtain ⟨first, more⟩ := List.pairwise_cons.1 distinct
    rcases List.mem_cons.1 h with rfl | h
    · exact .eatThen (reads_pure rfl)
    · exact .eatElse (fun same => first _ h (Kind.keyword.inj same).symm) (ih more h)

theorem noSetOperator_reads (other : ∀ entry ∈ operators, nextKind rest ≠ .keyword entry.1) :
    Reads v (eatSetOperator operators) [] rest (· = none) := by
  induction operators with
  | nil => exact reads_pure rfl
  | cons entry others ih =>
    obtain ⟨first, more⟩ := List.forall_mem_cons.1 other
    exact .eatElse first (ih more)

/-- One more set operator and its right side. -/
def combined.round (operators : List (Keyword × SetOperator)) (item : Parse QueryBody) (start : Place)
    (left : QueryBody) : Parse (Option QueryBody) := do
  match ← eatSetOperator operators with
  | none => return none
  | some op =>
    let all ← eat (.keyword .allKw)
    let right ← item
    return some (.set { left, op, all, right, orderBy := [], offset := none, span := ← spanFrom start })

theorem eq_set_of_rank {b : QueryBody} (h : b.rank < 2) : ∃ operation, b = .set operation := by
  cases b with
  | set operation => exact ⟨operation, rfl⟩
  | select query => exact absurd h (Nat.lt_irrefl 2)

theorem combined_grows (areOperators : AreSetOperators operators r) (low : r < 2)
    (hitem : ReadsBodies v item n (r + 1)) (start : Place) {b : QueryBody} (h : b.WellFormed v) (plain : b.Plain)
    (loose : r ≤ b.rank) (short : b.words.length ≤ n) (ends : (nextKind rest).binding ≤ 3 + r) :
    Grows v item (combined.round operators item start) b.words rest (·.unplaced = b.unplaced) := by
  induction hlength : b.words.length using Nat.strongRecOn generalizing b rest with
  | _ length ih =>
    rcases Nat.lt_or_eq_of_le loose with tighter | rank
    · exact .base (hitem b h plain tighter short rest (by omega))
    · obtain ⟨⟨left, op, all, right, orderBy, offset, span⟩, rfl⟩ := eq_set_of_rank (b := b) (by omega)
      have hrank : op.rank = r := rank.symm
      obtain ⟨-, hloose, htight, plainLeft, plainRight, hleft, hright, -⟩ := h
      obtain ⟨rfl, rfl⟩ : orderBy = [] ∧ offset = none := plain
      have member := areOperators.all op hrank
      have words : (QueryBody.set ⟨left, op, all, right, [], none, span⟩).words = left.words ++
          (keywordWord op.keyword :: (wordsIf all [keywordWord .allKw] ++ right.words)) := by
        rw [QueryBody.words, SetOperation.words, show tailWords [] none = [] from rfl, List.append_nil]
      have lengths := congrArg List.length words
      simp only [List.length_append, List.length_cons] at lengths
      have next : (nextKind (keywordWord op.keyword :: (wordsIf all [keywordWord .allKw] ++ right.words) ++
          rest)).binding ≤ 3 + r := Nat.le_of_eq (areOperators.binding _ member)
      have grown := ih left.words.length (by omega) hleft plainLeft (by omega) (by omega) next rfl
      rw [words]
      refine grown.grow (List.cons_ne_nil _ _) fun a ha => ?_
      refine (eatSetOperator_reads areOperators.distinct member).bind fun found hfound => ?_
      subst hfound
      have read := hitem right hright plainRight (by omega) (by omega) rest (by omega)
      refine .eatIf ?_ (read.close fun c hc => .spanFrom fun _ => reads_pure ⟨_, rfl, ?_⟩)
      · obtain ⟨us, hus⟩ := right.first
        rw [hus]
        intro h
        cases h
      · simp only [QueryBody.unplaced, SetOperation.unplaced, ha, hc, List.map_nil, Option.map_none]

theorem combined_readsBack (areOperators : AreSetOperators operators r) (low : r < 2)
    (hitem : ReadsBodies v item n (r + 1)) : ReadsBodies v (combined operators item) n r := by
  intro b h plain loose short rest ends
  have ends' : (nextKind rest).binding ≤ 3 + r := by omega
  refine .place fun start => (combined_grows areOperators low hitem start h plain loose short ends').done fun a _ => ?_
  refine (noSetOperator_reads fun entry member here => ?_).andThen fun found hfound => ?_
  · have := areOperators.binding entry member
    rw [show nextKind rest = .keyword entry.1 from here] at ends
    omega
  · subst hfound
    exact reads_pure rfl

theorem queryBody_readsBack (hquery : ReadsQueries v query n) : ReadsBodies v (queryBody query) (n + 1) 0 := by
  have selects : ReadsBodies v (do return .select (← selectQuery query)) (n + 1) 2 := by
    intro b h plain tight short rest ends
    cases b with
    | select q =>
      refine (selectQuery_reads hquery h plain short ends).close fun p hp => reads_pure ?_
      simp only [QueryBody.unplaced, hp]
    | set operation =>
      have low : operation.op.rank < 2 := by cases operation.op <;> decide
      exact absurd (show 2 ≤ operation.op.rank from tight) (by omega)
  have intersections : AreSetOperators [(.intersectKw, .intersect)] 1 :=
    ⟨fun op rank => by cases op <;> simp_all [SetOperator.rank, SetOperator.keyword], by simp, by decide⟩
  have unions : AreSetOperators [(.unionKw, .union), (.exceptKw, .except)] 0 :=
    ⟨fun op rank => by cases op <;> simp_all [SetOperator.rank, SetOperator.keyword], by simp, by decide⟩
  exact combined_readsBack unions (by decide) (combined_readsBack intersections (by decide) selects)

/-! ### Order and offset -/

/-- A body without its order and offset, which its words end with. -/
theorem QueryBody.split {body : QueryBody} (h : body.WellFormed v) :
    ∃ (core : QueryBody) (orderBy : List OrderItem) (offset : Option Offset),
      core.WellFormed v ∧ core.Plain ∧ TailRule v orderBy offset ∧
        body.words = core.words ++ tailWords orderBy offset ∧
        ∀ b os o span, b.unplaced = core.unplaced → os.map OrderItem.unplaced = orderBy.map OrderItem.unplaced →
          o.map Offset.unplaced = offset.map Offset.unplaced → (finish os o span b).unplaced = body.unplaced := by
  cases body with
  | select q =>
    obtain ⟨clause, source, filter, groupBy, having, orderBy, offset, span⟩ := q
    obtain ⟨hclause, nonempty, hsource, hfilter, hgroupBy, hhaving, tail⟩ := h
    refine ⟨.select ⟨clause, source, filter, groupBy, having, [], none, span⟩, orderBy, offset,
      ⟨hclause, nonempty, hsource, hfilter, hgroupBy, hhaving, by simp [TailRule]⟩, ⟨rfl, rfl⟩, tail, ?_, ?_⟩
    · simp [QueryBody.words, SelectQuery.words, show tailWords [] none = [] from rfl]
    · intro b os o span' hb hos ho
      cases b with
      | select p =>
        obtain ⟨_, _, _, _, _, _, _, _⟩ := p
        simp only [QueryBody.unplaced, SelectQuery.unplaced, QueryBody.select.injEq, SelectQuery.mk.injEq] at hb
        simp only [finish, QueryBody.unplaced, SelectQuery.unplaced, hb, hos, ho]
      | set operation => simp [QueryBody.unplaced] at hb
  | set operation =>
    obtain ⟨left, op, all, right, orderBy, offset, span⟩ := operation
    obtain ⟨since, hl, hr, plainLeft, plainRight, hleft, hright, tail⟩ := h
    refine ⟨.set ⟨left, op, all, right, [], none, span⟩, orderBy, offset,
      ⟨since, hl, hr, plainLeft, plainRight, hleft, hright, by simp [TailRule]⟩, ⟨rfl, rfl⟩, tail, ?_, ?_⟩
    · simp [QueryBody.words, SetOperation.words, show tailWords [] none = [] from rfl]
    · intro b os o span' hb hos ho
      cases b with
      | select p => simp [QueryBody.unplaced] at hb
      | set operation =>
        obtain ⟨_, _, _, _, _, _, _⟩ := operation
        simp only [QueryBody.unplaced, SetOperation.unplaced, QueryBody.set.injEq, SetOperation.mk.injEq] at hb
        simp only [finish, QueryBody.unplaced, SetOperation.unplaced, hb, hos, ho]

theorem orderedBody_reads (hquery : ReadsQueries v query n) {body : QueryBody} (h : body.WellFormed v)
    (short : body.words.length ≤ n + 1) (ends : (nextKind rest).binding = 0) :
    Reads v (orderedBody query) body.words rest (·.unplaced = body.unplaced) := by
  obtain ⟨core, orderBy, offset, hcore, plain, tail, words, finished⟩ := QueryBody.split h
  rw [words] at short ⊢
  rw [List.length_append] at short
  have afterOrder : (nextKind (offsetWords offset ++ rest)).binding ≤ 1 :=
    next_clause (fun w hw => offsetWords_head _ w hw ▸ Nat.le_refl 1) (by omega)
  have afterCore : (nextKind (tailWords orderBy offset ++ rest)).binding ≤ 2 := by
    rw [tailWords, List.append_assoc]
    exact next_clause (fun w hw => orderByWords_head _ w hw ▸ Nat.le_refl 2) (Nat.le_succ_of_le afterOrder)
  have read := queryBody_readsBack hquery core hcore plain (Nat.zero_le _) (by omega) _ afterCore
  refine .place fun start => read.bind fun b hb => ?_
  have order (some : orderBy ≠ []) := orderByClause_reads some tail.1 (Nat.le_trans afterOrder (by decide))
  refine (optionalClause_reads OrderItem.unplaced rfl order (Nat.lt_succ_of_le afterOrder)).bind fun os hos => ?_
  refine (offsetClause_reads tail.2 ends).close fun o ho => .spanFrom fun span => reads_pure ?_
  exact finished b os o span hb hos ho

/-! ### Queries -/

theorem subqueryFor_readsBack (n : Nat) : ReadsQueries v (subqueryFor n) n := by
  induction n with
  | zero =>
    intro q h short
    obtain ⟨us, hus⟩ := h.first
    rw [hus] at short
    cases short
  | succ n ih =>
    intro q h short rest ends
    obtain ⟨withItems, body, span⟩ := q
    obtain ⟨rfl, hbody⟩ := h
    refine Reads.place fun start => (orderedBody_reads ih hbody short ends).close fun b hb => ?_
    refine .spanFrom fun _ => reads_pure ?_
    simp only [Query.unplaced, WithItem.allUnplaced, hb]

theorem subquery_readsBack (n : Nat) : ReadsQueries v subquery n := by
  intro q h short rest ends
  refine .bounded (subqueryFor_readsBack _ q h ?_ rest ends)
  rw [List.length_append]
  omega

theorem declaredColumns_reads {columns : List Identifier} (h : ∀ i ∈ columns, i.WellFormed v)
    (next : nextKind rest ≠ .leftParen) :
    Reads v withItem.declaredColumns (if columns.isEmpty then [] else namesWords columns) rest (· = columns) := by
  cases columns with
  | nil => exact .eatElse next (reads_pure rfl)
  | cons i others =>
    refine .eatThen ((names_reads (List.cons_ne_nil i others) h ?_).bind fun found hfound => ?_)
    · exact Nat.zero_lt_succ _
    · exact .expect fun _ _ => reads_pure hfound

theorem withItem_reads {item : WithItem} (h : item.WellFormed v) :
    Reads v withItem item.words rest (·.unplaced = item.unplaced) := by
  obtain ⟨name, columns, query, span⟩ := item
  obtain ⟨-, hname, hcolumns, hquery⟩ := h
  refine .place fun start => (reads_identifier hname).bind fun i hi => ?_
  refine (declaredColumns_reads hcolumns ?_).bind fun found hfound => .expect fun _ _ => .expect fun _ _ => ?_
  · intro h
    cases h
  refine (subquery_readsBack _ query hquery (Nat.le_refl _) _ rfl).bind fun q hq => .expect fun _ _ => ?_
  refine .spanFrom fun _ => reads_pure ?_
  simp only [WithItem.unplaced, hi, hfound, hq]

theorem withClause_reads {items : List WithItem} (h : ∀ item ∈ items, item.WellFormed v)
    (next : nextKind rest = .keyword .selectKw) :
    Reads v withClause (if items.isEmpty then [] else keywordWord .withKw :: joined commaWord (items.map WithItem.words))
      rest (·.map WithItem.unplaced = items.map WithItem.unplaced) := by
  cases items with
  | nil =>
    refine .eatElse ?_ (reads_pure rfl)
    change nextKind rest ≠ _
    rw [next]
    intro h
    cases h
  | cons item others =>
    refine .eatThen (reads_sepBy WithItem.unplaced commaWord (List.cons_ne_nil item others)
      (fun i hi after _ => withItem_reads (h i hi)) ?_)
    rw [next]
    exact Nat.zero_lt_succ _

/-- The words of a query are read as the same query, before anything that ends a query. -/
theorem query_reads {q : Query} (h : q.WellFormed v) (ends : (nextKind rest).binding = 0) :
    Reads v Grammar.query q.words rest (·.unplaced = q.unplaced) := by
  obtain ⟨withItems, body, span⟩ := q
  obtain ⟨hwith, hbody⟩ := h
  obtain ⟨us, hus⟩ := body.first
  have next : nextKind (body.words ++ rest) = .keyword .selectKw := by
    rw [hus]
    rfl
  have read := orderedBody_reads (subquery_readsBack _) hbody (Nat.le_succ _) ends
  rw [Query.words, WithItem.allWords_eq_map]
  refine .place fun start => (withClause_reads hwith next).bind fun items hitems => ?_
  refine read.close fun b hb => .spanFrom fun _ => reads_pure ?_
  simp only [Query.unplaced, WithItem.allUnplaced_eq_map, hitems, hb]

end SkyQuery.Grammar
