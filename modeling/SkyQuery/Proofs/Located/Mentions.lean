import SkyQuery.Proofs.Located.Texts

/-!
# Where tables are mentioned

`query_mentions`: a table that a query reads from, or of which it selects all columns, has the span of a
range of tokens, at any depth, and the words of the range are read as this mention.
-/

namespace SkyQuery

open Grammar Parse

variable {v : Version} {tokens : List Token} {k : Nat}

/-- The span is that of a range of tokens of which the words have `R`. -/
def SpansWords (tokens : List Token) (span : Option Span) (R : List Word → Prop) : Prop :=
  ∃ a b, a < b ∧ b ≤ (wordsBefore tokens).length ∧ span = some (spanOf tokens a b) ∧ R (piece tokens a b)

/-- A table stands where its span says, perhaps with another name after it. -/
def FromItem.Mentions (v : Version) (tokens : List Token) : FromItem → Prop
  | .table name label span =>
    SpansWords tokens span fun ws => Reads v (tableRef Grammar.subquery) ws [] (·.unplaced = .table name label none)
  | .subquery .. | .join .. => True

def SelectItem.Mentions (v : Version) (tokens : List Token) : SelectItem → Prop
  | .allOf table span => SpansWords tokens span fun ws => Reads v selectItem ws [] (·.unplaced = .allOf table none)
  | .all _ | .expr _ _ => True

/-- The tables that the part itself mentions stand where their spans say. -/
def Part.Mentions (v : Version) (tokens : List Token) : Part → Prop
  | .fromItem item => item.Mentions v tokens
  | .select q => ∀ item ∈ q.clause.items, item.Mentions v tokens
  | _ => True

/-- The tables that are mentioned in the part, at any depth, stand where their spans say. -/
def Part.AllMentions (v : Version) (tokens : List Token) (p : Part) : Prop := ∀ c ∈ p.all, c.Mentions v tokens

theorem Part.allMentions_iff {p : Part} :
    p.AllMentions v tokens ↔ p.Mentions v tokens ∧ ∀ c ∈ p.children, c.AllMentions v tokens := forall_mem_descent

theorem Operand.allMentions (o : Operand) : (Part.operand o).AllMentions v tokens := by
  have operands : ∀ p ∈ (Part.operand o).all, ∃ o, p = .operand o := by
    refine forall_descent_of_children (fun p found c hc => ?_) _ ⟨o, rfl⟩
    obtain ⟨o, rfl⟩ := found
    obtain ⟨d, -, rfl⟩ := List.mem_map.1 hc
    exact ⟨d, rfl⟩
  intro p member
  obtain ⟨o, rfl⟩ := operands p member
  trivial

theorem Constraint.allMentions {c : Constraint} (conditions : ∀ d ∈ c.children, (Part.constraint d).AllMentions v tokens)
    (queries : ∀ q ∈ c.subqueries, (Part.query q).AllMentions v tokens) : (Part.constraint c).AllMentions v tokens := by
  refine Part.allMentions_iff.2 ⟨trivial, fun p member => ?_⟩
  simp only [Part.children, List.mem_append] at member
  rcases member with (member | member) | member
  · obtain ⟨o, -, rfl⟩ := List.mem_map.1 member
    exact o.allMentions
  · obtain ⟨d, hd, rfl⟩ := List.mem_map.1 member
    exact conditions d hd
  · obtain ⟨q, hq, rfl⟩ := List.mem_map.1 member
    exact queries q hq

theorem tail_allMentions {orderBy : List OrderItem} {offset : Option Offset} :
    ∀ p ∈ tailParts orderBy offset, p.AllMentions v tokens := by
  intro p member
  rcases List.mem_append.1 member with member | member
  · obtain ⟨item, -, rfl⟩ := List.mem_map.1 member
    exact item.expr.allMentions
  · obtain ⟨o, -, rfl⟩ := List.mem_map.1 member
    exact Part.allMentions_iff.2 ⟨trivial, List.forall_mem_nil _⟩

namespace Grammar

/-- The tables mentioned in what is read stand where their spans say. -/
abbrev ReadsMentions {α : Type} (v : Version) (tokens : List Token) (part : α → Part) (p : Parse α) : Prop :=
  ∀ k, Ends v tokens k p fun _ a => (part a).AllMentions v tokens

variable {query : Parse Query} {start : Place}

/-! ### Conditions -/

/-- What a reader of a condition without others and without queries in it ends with. -/
theorem ends_alone {make : Option Span → Constraint} (conditions : ∀ span, (make span).children = [])
    (queries : ∀ span, (make span).subqueries = []) :
    Ends v tokens k (do return make (← spanFrom start)) fun _ c => (Part.constraint c).AllMentions v tokens := by
  refine (looks_spanFrom start).bind fun span => ends_pure (Constraint.allMentions ?_ ?_)
  · rw [conditions]
    exact List.forall_mem_nil _
  · rw [queries]
    exact List.forall_mem_nil _

theorem comparisonTail_mentions (left : Operand) (op : ComparisonOp) :
    ReadsMentions v tokens .constraint (comparisonTail left op start) := fun _ =>
  rereads_value.moves.bind fun _ _ _ => .ite (fun _ => ends_alone (fun _ => rfl) fun _ => rfl) fun _ => ends_failAt

theorem nullTail_mentions (tested : Operand) : ReadsMentions v tokens .constraint (nullTail tested start) := fun _ =>
  (moves_eat _).bind fun _ _ _ => (moves_expect _).bind fun _ _ _ =>
    .ite (fun _ => ends_alone (fun _ => rfl) fun _ => rfl) fun _ => ends_failAt

theorem betweenTail_mentions (tested : Operand) (negated : Bool) :
    ReadsMentions v tokens .constraint (betweenTail tested negated start) := fun _ =>
  rereads_value.moves.bind fun _ _ _ => (moves_expect _).bind fun _ _ _ => rereads_value.moves.bind fun _ _ _ =>
    ends_alone (fun _ => rfl) fun _ => rfl

theorem patternTail_mentions (matched : Operand) (op : ComparisonOp) :
    ReadsMentions v tokens .constraint (patternTail matched op start) := fun _ =>
  rereads_value.moves.bind fun _ pattern _ => (looks_checkString matched).bind fun _ =>
    (looks_checkString pattern).bind fun _ => ends_alone (fun _ => rfl) fun _ => rfl

section Conditions

variable (hq : ReadsMentions v tokens .query query)

include hq

theorem memberTail_mentions (tested : Operand) (negated : Bool) :
    ReadsMentions v tokens .constraint (memberTail query tested negated start) := by
  refine fun k => (moves_expect _).bind fun a _ _ => (looks_sees _).bind fun _ => .ite (fun _ => ?_) fun _ => ?_
  · refine (hq a).bind fun b source _ hsource => (moves_expect _).bind fun _ _ _ => ?_
    refine (looks_spanFrom start).bind fun _ => ends_pure (Constraint.allMentions (List.forall_mem_nil _) ?_)
    exact List.forall_mem_singleton.2 hsource
  · exact (rereads_value.sepBy (by nofun)).moves.bind fun _ _ _ => (moves_expect _).bind fun _ _ _ =>
      ends_alone (fun _ => rfl) fun _ => rfl

theorem predicate_mentions : ReadsMentions v tokens .constraint (predicate query) := by
  refine fun k => .place (rereads_value.moves.bind fun a tested _ => ?_)
  refine (rereads_eatOperator comparisons_inside).moves.bind fun b found _ => ?_
  cases found with
  | some op => exact comparisonTail_mentions tested op b
  | none =>
    refine .eatIf (fun c _ => nullTail_mentions tested c) ((moves_eat _).bind fun c negated _ => ?_)
    refine .eatIf (fun d _ => betweenTail_mentions tested negated d) ?_
    refine .eatIf (fun d _ => patternTail_mentions tested _ d) ?_
    refine .eatIf (fun d _ => patternTail_mentions tested _ d) ?_
    exact .eatIf (fun d _ => memberTail_mentions hq tested negated d) ends_unexpected

theorem existsTail_mentions : ReadsMentions v tokens .constraint (existsTail query start) := by
  refine fun k => (moves_expect _).bind fun a _ _ => (hq a).bind fun b source _ hsource => ?_
  refine (moves_expect _).bind fun _ _ _ => (looks_spanFrom start).bind fun _ => ends_pure ?_
  refine Constraint.allMentions (List.forall_mem_nil _) ?_
  exact List.forall_mem_singleton.2 hsource

theorem negationFor_mentions {nested : Parse Constraint} (hc : ReadsMentions v tokens .constraint nested) (n : Nat) :
    ReadsMentions v tokens .constraint (negationFor query nested n) := by
  induction n with
  | zero => exact fun _ => ends_unexpected
  | succ n ih =>
    have grouped : ReadsMentions v tokens .constraint (grouped nested) := by
      refine fun k => .place ((moves_expect _).bind fun a _ _ => (hc a).bind fun b inner _ hinner => ?_)
      refine (moves_expect _).bind fun _ _ _ => (looks_spanFrom _).bind fun _ => ends_pure ?_
      exact Constraint.allMentions (List.forall_mem_singleton.2 hinner) (List.forall_mem_nil _)
    refine fun k => .place (.eatIf (fun a _ => ?_) (.eatIf (fun a _ => existsTail_mentions hq a) ?_))
    · refine (ih a).bind fun j inner _ hinner => (looks_spanFrom _).bind fun _ => ends_pure ?_
      exact Constraint.allMentions (List.forall_mem_singleton.2 hinner) (List.forall_mem_nil _)
    · refine looks_current.bind fun _ => looks_second.bind fun _ => ?_
      exact .ite (fun _ => (grouped k).either (predicate_mentions hq k)) fun _ => predicate_mentions hq k

omit hq in
theorem connected_mentions {word : Keyword} {connect : Constraint → Constraint → Option Span → Constraint}
    (both : ∀ left right span, (connect left right span).children = [left, right])
    (alone : ∀ left right span, (connect left right span).subqueries = []) {item : Parse Constraint}
    (hitem : ReadsMentions v tokens .constraint item) :
    ReadsMentions v tokens .constraint (connected word connect item) := by
  refine fun k => .place ((hitem k).bind fun a left _ hleft => ?_)
  refine .iterate hleft (fun j left _ hleft => ?_) fun _ _ _ _ h => h
  refine (moves_eat _).bind fun b _ _ => .ite (fun _ => ?_) fun _ => ends_pure (by simp)
  refine (hitem b).bind fun c right _ hright => (looks_spanFrom _).bind fun span => ends_pure fun c made => ?_
  obtain rfl := Option.some.inj made
  refine Constraint.allMentions ?_ ?_
  · rw [both]
    exact List.forall_mem_cons.2 ⟨hleft, List.forall_mem_singleton.2 hright⟩
  · rw [alone]
    exact List.forall_mem_nil _

theorem condition_mentions : ReadsMentions v tokens .constraint (condition query) := by
  have bounded (n : Nat) : ReadsMentions v tokens .constraint (conditionFor query n) := by
    induction n with
    | zero => exact fun _ => ends_unexpected
    | succ n ih =>
      have negations : ReadsMentions v tokens .constraint (negation query (conditionFor query n)) :=
        fun k => .bounded fun m => negationFor_mentions hq ih m k
      exact connected_mentions (fun _ _ _ => rfl) (fun _ _ _ => rfl)
        (connected_mentions (fun _ _ _ => rfl) (fun _ _ _ => rfl) negations)
  exact fun k => .bounded fun n => bounded n k

end Conditions

/-! ### Sources -/

section Sources

variable (hq : ReadsMentions v tokens .query query) (again : ∀ d, RereadsQuery v d query subquery)

include hq

theorem joinCondition_mentions (k : Nat) :
    Ends v tokens k (joinCondition query) fun _ c => ∀ d ∈ c.constraint?, (Part.constraint d).AllMentions v tokens := by
  refine .eatIf (fun a _ => ?_) (.eatIf (fun a _ => ?_) ends_unexpected)
  · refine (condition_mentions hq a).bind fun j c _ hc => ends_pure fun d hd => ?_
    obtain rfl := Option.some.inj hd
    exact hc
  · refine (moves_expect _).bind fun b _ _ => (rereads_identifier.sepBy (by nofun)).moves.bind fun c names _ => ?_
    exact (moves_expect _).bind fun _ _ _ => ends_pure (by intro _ h; cases h)

include again

theorem tableRef_mentions : ReadsMentions v tokens .fromItem (tableRef query) := by
  intro k
  have read : Ends v tokens k (tableRef query) fun j item =>
      (∃ name label, item = .table name label (some (spanOf tokens k j))) ∨
      ∃ q label span, item = .subquery q label span ∧ (Part.query q).AllMentions v tokens := by
    refine .place (.eatIf (fun a _ => ?_) ?_)
    · refine (hq a).bind fun b source _ hsource => (moves_expect _).bind fun c _ _ => (moves_eat _).bind fun d _ _ => ?_
      exact rereads_identifier.moves.bind fun _ label _ => .spanFrom (ends_pure (.inr ⟨source, label, _, rfl, hsource⟩))
    · refine (rereads_dotted 2).moves.bind fun a parts _ => ?_
      cases TableName.ofParts? parts with
      | none => exact ends_unexpected
      | some name =>
        exact rereads_optionalAlias.moves.bind fun _ label _ => .spanFrom (ends_pure (.inl ⟨name, label, rfl⟩))
  -- Nothing follows the words of the range when they are read again, so no other alias is found.
  refine (read.again fun d => rereads_tableRef (again (d + 1))).mono fun j item _ h => ?_
  obtain ⟨found, inside, some, reread⟩ := h
  rcases found with ⟨name, label, rfl⟩ | ⟨q, label, span, rfl, hquery⟩
  · refine Part.allMentions_iff.2 ⟨⟨k, j, lt_of_piece_ne_nil some, inside, rfl, ?_⟩, List.forall_mem_nil _⟩
    simpa only [FromItem.unplaced] using reread
  · exact Part.allMentions_iff.2 ⟨trivial, List.forall_mem_singleton.2 hquery⟩

omit hq again in
theorem join_allMentions {left right : FromItem} {kind : JoinKind} {natural : Bool} {condition : JoinCondition}
    {span : Option Span} (hleft : (Part.fromItem left).AllMentions v tokens)
    (hright : (Part.fromItem right).AllMentions v tokens)
    (h : ∀ c ∈ condition.constraint?, (Part.constraint c).AllMentions v tokens) :
    (Part.fromItem (.join left kind natural right condition span)).AllMentions v tokens := by
  refine Part.allMentions_iff.2 ⟨trivial, fun p member => ?_⟩
  simp only [Part.children, List.cons_append, List.nil_append, List.mem_cons] at member
  rcases member with rfl | rfl | member
  · exact hleft
  · exact hright
  · obtain ⟨c, hc, rfl⟩ := List.mem_map.1 member
    exact h c (by simpa using hc)

theorem joinTail_mentions {left : FromItem} (h : (Part.fromItem left).AllMentions v tokens) (k : Nat) :
    Ends v tokens k (joinTail query start left) fun _ r => ∀ item ∈ r, (Part.fromItem item).AllMentions v tokens := by
  have joined {k : Nat} {kind : JoinKind} {natural : Bool} {right : FromItem} {condition : JoinCondition}
      (hright : (Part.fromItem right).AllMentions v tokens)
      (hcondition : ∀ c ∈ condition.constraint?, (Part.constraint c).AllMentions v tokens) :
      Ends v tokens k (do return some (FromItem.join left kind natural right condition (← spanFrom start)))
        fun _ r => ∀ item ∈ r, (Part.fromItem item).AllMentions v tokens := by
    refine (looks_spanFrom _).bind fun span => ends_pure fun item made => ?_
    obtain rfl := Option.some.inj made
    exact join_allMentions h hright hcondition
  refine .eatIf (fun a _ => ?_) ((moves_eat _).bind fun a natural _ => ?_)
  · refine (moves_expect _).bind fun b _ _ => (tableRef_mentions hq again b).bind fun l right _ hright => ?_
    exact joined hright (by intro _ h; cases h)
  · refine rereads_eatJoin.moves.bind fun b found _ => ?_
    cases found with
    | none => exact .ite (fun _ => ends_unexpected) fun _ => ends_pure (by simp)
    | some kind =>
      refine (tableRef_mentions hq again b).bind fun c right _ hright => ?_
      cases natural with
      | true => exact joined hright (by intro _ h; cases h)
      | false => exact (joinCondition_mentions hq c).bind fun l condition _ hcondition => joined hright hcondition

theorem fromClause_mentions (k : Nat) :
    Ends v tokens k (fromClause query) fun _ items => ∀ item ∈ items, (Part.fromItem item).AllMentions v tokens := by
  have item : ReadsMentions v tokens .fromItem (fromItem query) := by
    refine fun k => .place ((tableRef_mentions hq again k).bind fun a left _ hleft => ?_)
    exact .iterate hleft (fun j left _ h => joinTail_mentions hq again h j) fun _ _ _ _ h => h
  exact (moves_expect _).bind fun a _ _ => Ends.sepBy item (fun _ _ h => h) a

end Sources

/-! ### Bodies -/

theorem selectItem_mentions (k : Nat) : Ends v tokens k selectItem fun _ item => item.Mentions v tokens := by
  have read : Ends v tokens k selectItem fun j item => ∀ table span, item = .allOf table span →
      span = some (spanOf tokens k j) := by
    refine .place (.eatIf (fun a _ => (looks_spanFrom _).bind fun span => ends_pure (by intro _ _ h; cases h)) ?_)
    refine rereads_eatTableStar.moves.bind fun a found _ => ?_
    cases found with
    | some table => exact .spanFrom (ends_pure (by intro _ _ h; cases h; rfl))
    | none =>
      refine rereads_value.moves.bind fun b operand _ => rereads_optionalAlias.moves.bind fun j label _ => ?_
      exact ends_pure (by intro _ _ h; cases h)
  refine (read.again fun _ => rereads_selectItem).mono fun j item _ h => ?_
  obtain ⟨span, inside, some, reread⟩ := h
  cases item with
  | allOf table place => exact ⟨k, j, lt_of_piece_ne_nil some, inside, span table place rfl, reread⟩
  | _ => trivial

theorem selectClause_mentions (k : Nat) :
    Ends v tokens k selectClause fun _ c => ∀ item ∈ c.items, item.Mentions v tokens := by
  refine .place ((moves_expect _).bind fun a _ _ => rereads_distinctness.moves.bind fun b distinct _ => ?_)
  refine rereads_topClause.moves.bind fun c top _ => (Ends.sepBy selectItem_mentions (fun _ _ h => h) c).bind ?_
  exact fun j items _ h => (looks_spanFrom _).bind fun span => ends_pure h

section Queries

variable (hq : ReadsMentions v tokens .query query) (again : ∀ d, RereadsQuery v d query subquery)

include hq

theorem optionalCondition_mentions (word : Keyword) (k : Nat) :
    Ends v tokens k (optionalCondition query word) fun _ r => ∀ c ∈ r, (Part.constraint c).AllMentions v tokens := by
  refine .eatIf (fun a _ => (condition_mentions hq a).bind fun j c _ hc => ends_pure fun d hd => ?_) (ends_pure (by simp))
  obtain rfl := Option.some.inj hd
  exact hc

include again

theorem selectQuery_mentions : ReadsMentions v tokens .select (selectQuery query) := by
  refine fun k => .place ((selectClause_mentions k).bind fun a clause _ hclause => ?_)
  refine (fromClause_mentions hq again a).bind fun b source _ hsource => ?_
  refine (optionalCondition_mentions hq .whereKw b).bind fun c filter _ hfilter => ?_
  refine (rereads_optionalClause .groupKw rereads_groupByClause).moves.bind fun d groupBy _ => ?_
  refine (optionalCondition_mentions hq .havingKw d).bind fun j having _ hhaving => ?_
  refine (looks_spanFrom _).bind fun span => ends_pure (Part.allMentions_iff.2 ⟨hclause, fun p member => ?_⟩)
  simp only [Part.children, List.mem_append] at member
  rcases member with ((((h | h) | h) | h) | h) | h
  · obtain ⟨o, -, rfl⟩ := List.mem_map.1 h
    exact o.allMentions
  · obtain ⟨item, hitem, rfl⟩ := List.mem_map.1 h
    exact hsource item hitem
  · obtain ⟨e, he, rfl⟩ := List.mem_map.1 h
    exact hfilter e (by simpa using he)
  · obtain ⟨o, -, rfl⟩ := List.mem_map.1 h
    exact o.allMentions
  · obtain ⟨e, he, rfl⟩ := List.mem_map.1 h
    exact hhaving e (by simpa using he)
  · exact tail_allMentions p h

omit hq again in
theorem combined_mentions (operators : List (Keyword × SetOperator)) {item : Parse QueryBody}
    (hitem : ReadsMentions v tokens QueryBody.part item) :
    ReadsMentions v tokens QueryBody.part (combined operators item) := by
  refine fun k => .place ((hitem k).bind fun a left _ hleft => .iterate hleft (fun j left _ h => ?_) fun _ _ _ _ h => h)
  refine (rereads_eatSetOperator operators).moves.bind fun b found _ => ?_
  cases found with
  | none => exact ends_pure (by simp)
  | some op =>
    refine (moves_eat _).bind fun c all _ => (hitem c).bind fun l right _ hright => (looks_spanFrom _).bind fun span => ?_
    refine ends_pure fun body made => ?_
    obtain rfl := Option.some.inj made
    refine Part.allMentions_iff.2 ⟨trivial, List.forall_mem_append.2 ⟨?_, tail_allMentions⟩⟩
    exact List.forall_mem_cons.2 ⟨h, List.forall_mem_singleton.2 hright⟩

omit hq again in
/-- Order and offset mention no table. -/
theorem finish_allMentions {orderBy : List OrderItem} {offset : Option Offset} {span : Option Span} {body : QueryBody}
    (h : body.part.AllMentions v tokens) : (finish orderBy offset span body).part.AllMentions v tokens := by
  obtain ⟨here, parts⟩ := Part.allMentions_iff.1 h
  cases body <;>
  · refine Part.allMentions_iff.2 ⟨here, List.forall_mem_append.2 ⟨?_, tail_allMentions⟩⟩
    exact fun p member => parts p (List.mem_append_left _ member)

theorem orderedBody_mentions : ReadsMentions v tokens QueryBody.part (orderedBody query) := by
  have single : ReadsMentions v tokens QueryBody.part (do return .select (← selectQuery query)) :=
    fun k => (selectQuery_mentions hq again k).bind fun j q _ h => ends_pure h
  have body : ReadsMentions v tokens QueryBody.part (queryBody query) := combined_mentions _ (combined_mentions _ single)
  refine fun k => .place ((body k).bind fun a body _ hbody => ?_)
  refine (rereads_optionalClause .orderKw rereads_orderByClause).moves.bind fun b orderBy _ => ?_
  refine rereads_offsetClause.moves.bind fun j offset _ => (looks_spanFrom _).bind fun span => ?_
  exact ends_pure (finish_allMentions hbody)

end Queries

/-! ### Queries -/

theorem subquery_mentions : ReadsMentions v tokens .query subquery := by
  have bounded (n : Nat) : ReadsMentions v tokens .query (subqueryFor n) := by
    induction n with
    | zero => exact fun _ => ends_unexpected
    | succ n ih =>
      have read (k : Nat) : Ends v tokens k (do
          let start ← place
          let body ← orderedBody (subqueryFor n)
          return { withItems := [], body, span := ← spanFrom start }) fun _ q => (Part.query q).AllMentions v tokens := by
        refine .place ((orderedBody_mentions ih (fun d => rereads_subqueryAt n) k).bind fun j body _ hbody => ?_)
        refine (looks_spanFrom _).bind fun span => ends_pure (Part.allMentions_iff.2 ⟨trivial, ?_⟩)
        exact List.forall_mem_singleton.2 hbody
      exact read
  exact fun k => .bounded fun n => bounded n k

theorem withItem_mentions : ReadsMentions v tokens .withItem withItem := by
  refine fun k => .place (rereads_identifier.moves.bind fun a name _ => moves_declaredColumns.bind fun b columns _ => ?_)
  refine (moves_expect _).bind fun c _ _ => (moves_expect _).bind fun d _ _ => ?_
  refine (subquery_mentions d).bind fun e query _ h => (moves_expect _).bind fun j _ _ => ?_
  refine (looks_spanFrom _).bind fun span => ends_pure (Part.allMentions_iff.2 ⟨trivial, ?_⟩)
  exact List.forall_mem_singleton.2 h

theorem query_mentions : ReadsMentions v tokens .query Grammar.query := by
  have items (k : Nat) : Ends v tokens k withClause fun _ items =>
      ∀ item ∈ items, (Part.withItem item).AllMentions v tokens :=
    .eatIf (fun a _ => Ends.sepBy withItem_mentions (fun _ _ h => h) a) (ends_pure (List.forall_mem_nil _))
  refine fun k => .place ((items k).bind fun a items _ hitems => ?_)
  refine (orderedBody_mentions subquery_mentions (fun d => rereads_subquery) a).bind fun j body _ hbody => ?_
  refine (looks_spanFrom _).bind fun span => ends_pure (Part.allMentions_iff.2 ⟨trivial, fun p member => ?_⟩)
  rcases List.mem_append.1 member with member | member
  · obtain ⟨item, hitem, rfl⟩ := List.mem_map.1 member
    exact hitems item hitem
  · obtain rfl := List.mem_singleton.1 member
    exact hbody

/-! ### Tables as all of a clause -/

variable {ws : List Word}

theorem joinTail_ended (start : Place) (left : FromItem) : Reads v (joinTail query start left) [] [] (· = none) := by
  have noJoin : Reads v eatJoin [] ([] ++ []) (· = none) := noJoin_reads (Nat.zero_le 8)
  refine .eatElse (by nofun) (.skip (by nofun) (noJoin.andThen fun found hfound => ?_))
  subst hfound
  exact reads_pure rfl

/-- A table that is all that follows `FROM` is the one item of the clause. -/
theorem fromClause_of_table {name : TableName} {label : Option Identifier}
    (h : Reads v (tableRef query) ws [] (·.unplaced = .table name label none)) :
    Reads v (fromClause query) (keywordWord .fromKw :: ws) [] fun items =>
      ∃ place, items = [.table name label place] := by
  have item : Reads v (fromItem query) ws [] (·.unplaced = .table name label none) :=
    .place fun start => (Grows.base h).done fun left _ => joinTail_ended start left
  have alone : Reads v (followers .comma (fromItem query)) [] [] (· = []) :=
    .bounded (.eatElse (by nofun) (reads_pure rfl))
  refine .expect fun _ _ => item.close fun item hitem => alone.close fun others hothers => reads_pure ?_
  subst hothers
  cases item <;> simp only [FromItem.unplaced, reduceCtorEq, FromItem.table.injEq] at hitem
  obtain ⟨rfl, rfl, -⟩ := hitem
  exact ⟨_, rfl⟩

/-- All columns of a table start with its name. -/
theorem isIdentifier_of_allOf {s t : State} {table : TableName} {span : Option Span}
    (h : selectItem v s = .ok (.allOf table span, t)) : isIdentifier v s.current = true := by
  unfold selectItem at h
  rw [place_bind] at h
  rcases eat_ok h with ⟨-, h⟩ | ⟨-, h⟩
  · cases h
  obtain ⟨found, r, hfound, h⟩ := bind_ok h
  cases found with
  | none =>
    obtain ⟨operand, u, -, h⟩ := bind_ok h
    obtain ⟨label, u', -, h⟩ := bind_ok h
    cases h
  | some found =>
    unfold eatTableStar at hfound
    split at hfound
    · rename_i named
      exact (Bool.and_eq_true_iff.1 named).1
    · cases hfound

/-- All columns of a table, if they are all that follows `SELECT`, are the one item of the clause. -/
theorem selectClause_of_allOf {table : TableName} (h : Reads v selectItem ws [] (·.unplaced = .allOf table none)) :
    Reads v selectClause (keywordWord .selectKw :: ws) [] fun c =>
      ∃ place span, c = { distinct := false, top := none, items := [.allOf table place], span } := by
  intro s hs
  have plain (k : Keyword) (_ : k.isFunction = false) : nextKind ws ≠ .keyword k := by
    have shows : s.advance.Shows ws := by
      rw [List.append_nil] at hs
      exact hs.advance
    obtain ⟨item, t, hitem, -, same⟩ := h s.advance (by rwa [List.append_nil])
    cases item <;> simp only [SelectItem.unplaced, reduceCtorEq] at same
    rw [← shows.kind]
    rcases kind_of_isIdentifier (isIdentifier_of_allOf hitem) with kind | kind <;> rw [kind] <;> intro same <;> cases same
  obtain ⟨c, t, hc, left, item, span, same, rfl⟩ := selectClause_of_item h plain s hs
  cases item <;> simp only [SelectItem.unplaced, reduceCtorEq, SelectItem.allOf.injEq] at same
  obtain ⟨rfl, -⟩ := same
  exact ⟨_, t, hc, left, _, span, rfl⟩

end Grammar

end SkyQuery
