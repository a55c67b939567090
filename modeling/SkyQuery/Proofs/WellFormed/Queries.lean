import SkyQuery.Proofs.WellFormed.Conditions

/-!
# Queries are well formed

`query_yields`, `subquery_yields` and the statements about the clauses say that whatever the
grammar reads is well formed.
-/

namespace SkyQuery.Grammar

open Parse

variable {v : Version} {query : Parse Query}

/-! ### What queries read from -/

theorem optionalAlias_yields : Yields v optionalAlias fun r => ∀ i ∈ r, i.WellFormed v := by
  refine (yields_eat _).bind fun _ _ => .ite (fun _ => ?_) fun _ => yields_eatIdentifier
  exact yields_identifier.bind fun i hi => yields_pure (by simpa using hi)

theorem tableName_wellFormed {parts : List Identifier} {name : TableName}
    (h : TableName.ofParts? parts = some name) (hparts : ∀ i ∈ parts, i.WellFormed v) :
    name.WellFormed v := by
  unfold TableName.ofParts? at h
  split at h <;> cases h <;> simp_all [TableName.WellFormed]

/-- A well-formed item that is not a join. -/
def Stands (v : Version) (item : FromItem) : Prop := item.WellFormed v ∧ item.isJoin = false

theorem tableRef_yields (hq : Yields v query (Query.Nested v)) :
    Yields v (tableRef query) (Stands v) := by
  refine yields_place.bind fun start _ => (yields_eat _).bind fun _ _ => .ite (fun _ => ?_) fun _ => ?_
  · refine hq.bind fun source hsource => (yields_expect _).bind fun _ _ => (yields_eat _).bind fun _ _ => ?_
    refine yields_identifier.bind fun label hlabel => (yields_spanFrom start).bind fun _ _ => ?_
    exact yields_pure ⟨⟨hsource, hlabel⟩, rfl⟩
  · refine (yields_dotted 2).bind fun parts hparts => ?_
    cases h : TableName.ofParts? parts with
    | none =>
      simp only
      exact yields_unexpected
    | some name =>
      simp only
      refine optionalAlias_yields.bind fun label hlabel => (yields_spanFrom start).bind fun _ _ => ?_
      exact yields_pure ⟨⟨tableName_wellFormed h hparts.2, hlabel⟩, rfl⟩

theorem eatSide_yields : Yields v eatSide fun r => ∀ kind ∈ r, kind ≠ .cross := by
  refine (yields_eat _).bind fun _ _ => .ite (fun _ => yields_pure (by simp)) fun _ => ?_
  refine (yields_eat _).bind fun _ _ => .ite (fun _ => yields_pure (by simp)) fun _ => ?_
  exact (yields_eat _).bind fun _ _ => .ite (fun _ => yields_pure (by simp)) fun _ => yields_pure (by simp)

theorem eatJoin_yields : Yields v eatJoin fun r => ∀ kind ∈ r, kind ≠ .cross := by
  refine (yields_eat _).bind fun _ _ => .ite (fun _ => ?_) fun _ => ?_
  · exact (yields_expect _).bind fun _ _ => yields_pure (by simp)
  refine (yields_eat _).bind fun _ _ => .ite (fun _ => yields_pure (by simp)) fun _ => ?_
  refine eatSide_yields.bind fun side hside => ?_
  cases side with
  | none => exact yields_pure (by simp)
  | some side => exact (yields_eat _).bind fun _ _ => (yields_expect _).bind fun _ _ => yields_pure hside

/-- A stated condition that is well formed. -/
def Matches (v : Version) (kind : JoinKind) (condition : JoinCondition) : Prop :=
  (kind ≠ .cross → JoinRule kind false condition) ∧ condition.WellFormed v

theorem joinCondition_yields (hq : Yields v query (Query.Nested v)) (kind : JoinKind) :
    Yields v (joinCondition query) (Matches v kind) := by
  refine (yields_eat _).bind fun _ _ => .ite (fun _ => ?_) fun _ => ?_
  · exact (condition_yields hq).bind fun c hc => yields_pure ⟨fun h => ⟨rfl, h⟩, hc⟩
  refine (yields_eat _).bind fun _ _ => .ite (fun _ => ?_) fun _ => yields_unexpected
  refine (yields_expect _).bind fun _ _ => yields_identifier.sepBy.bind fun columns hcolumns => ?_
  exact (yields_expect _).bind fun _ _ => yields_pure ⟨fun h => ⟨rfl, h, hcolumns.1⟩, hcolumns.2⟩

theorem joinTail_yields (hq : Yields v query (Query.Nested v)) (start : Place) {left : FromItem}
    (hleft : left.WellFormed v) :
    Yields v (joinTail query start left) fun r => ∀ item ∈ r, item.WellFormed v := by
  refine (yields_eat _).bind fun _ _ => .ite (fun _ => ?_) fun _ => ?_
  · refine (yields_expect _).bind fun _ _ => (tableRef_yields hq).bind fun right hright => ?_
    refine (yields_spanFrom start).bind fun _ _ => yields_pure fun item hitem => ?_
    cases hitem
    exact ⟨.inr ⟨rfl, rfl⟩, hright.2, hleft, hright.1, trivial⟩
  · refine (yields_eat _).bind fun natural _ => eatJoin_yields.bind fun kind hkind => ?_
    cases kind with
    | none => exact .ite (fun _ => yields_unexpected) fun _ => yields_pure (by simp)
    | some kind =>
      refine (tableRef_yields hq).bind fun right hright => ?_
      have joined {condition : JoinCondition} (rule : JoinRule kind natural condition)
          (hcondition : condition.WellFormed v) :
          Yields v (do return some (FromItem.join left kind natural right condition (← spanFrom start)))
            fun r => ∀ item ∈ r, item.WellFormed v := by
        refine (yields_spanFrom start).bind fun _ _ => yields_pure fun item hitem => ?_
        cases hitem
        exact ⟨rule, hright.2, hleft, hright.1, hcondition⟩
      cases natural with
      | true => exact joined (.inl ⟨rfl, hkind kind rfl⟩) trivial
      | false => exact (joinCondition_yields hq kind).bind fun c hc => joined (hc.1 (hkind kind rfl)) hc.2

theorem fromItem_yields (hq : Yields v query (Query.Nested v)) :
    Yields v (fromItem query) (FromItem.WellFormed v) := by
  refine yields_place.bind fun start _ => (tableRef_yields hq).bind fun left hleft => ?_
  exact .iterate hleft.1 fun left hleft => joinTail_yields hq start hleft

theorem fromClause_yields (hq : Yields v query (Query.Nested v)) :
    Yields v (fromClause query) fun items => items ≠ [] ∧ ∀ item ∈ items, item.WellFormed v :=
  (yields_expect _).bind fun _ _ => (fromItem_yields hq).sepBy

/-! ### The select clause -/

theorem rowCount_yields (word : String) : Yields v (rowCount word) (· < Nat.pow 2 64) := by
  refine yields_place.bind fun start _ => (yields_expect _).bind fun t _ => ?_
  cases h : digitsBelow? (Nat.pow 2 64) t.text with
  | none =>
    simp only [h]
    exact (yields_spanFrom start).bind fun _ _ => yields_failAt
  | some n =>
    simp only [h]
    exact yields_pure (digitsBelow?_lt h)

theorem eatTableStar_yields : Yields v eatTableStar fun r => ∀ table ∈ r, table.WellFormed v := by
  intro s r t hs h
  unfold eatTableStar at h
  split at h
  · split at h
    · rename_i parts u hparts
      obtain ⟨hu, all⟩ := yields_dotted 2 _ _ _ hs hparts
      split at h
      · split at h
        · rename_i table htable
          cases h
          refine ⟨hu.advance.advance, fun i hi => ?_⟩
          cases hi
          exact tableName_wellFormed htable all.2
        · cases h
          exact ⟨hs, by simp⟩
      · cases h
        exact ⟨hs, by simp⟩
    · cases h
  · cases h
    exact ⟨hs, by simp⟩

theorem selectItem_yields : Yields v selectItem (SelectItem.WellFormed v) := by
  refine yields_place.bind fun start _ => (yields_eat _).bind fun _ _ => .ite (fun _ => ?_) fun _ => ?_
  · exact (yields_spanFrom start).bind fun _ _ => yields_pure trivial
  refine eatTableStar_yields.bind fun found hfound => ?_
  cases found with
  | some table => exact (yields_spanFrom start).bind fun _ _ => yields_pure (hfound table rfl)
  | none =>
    refine value_yields.bind fun operand hoperand => optionalAlias_yields.bind fun label hlabel => ?_
    exact yields_pure ⟨hoperand, hlabel⟩

theorem distinctness_yields : Yields v distinctness fun _ => True := by
  refine (yields_eat _).bind fun _ _ => .ite (fun _ => yields_pure trivial) fun _ => ?_
  exact (yields_eat _).bind fun _ _ => yields_pure trivial

theorem topClause_yields : Yields v topClause fun r => ∀ n ∈ r, n < Nat.pow 2 64 := by
  refine (yields_eat _).bind fun _ _ => .ite (fun _ => ?_) fun _ => yields_pure (by simp)
  exact (rowCount_yields _).bind fun n hn => yields_pure (by simpa using hn)

theorem selectClause_yields : Yields v selectClause (SelectClause.WellFormed v) := by
  refine yields_place.bind fun start _ => (yields_expect _).bind fun _ _ => ?_
  refine distinctness_yields.bind fun _ _ => topClause_yields.bind fun top htop => ?_
  refine selectItem_yields.sepBy.bind fun items hitems => (yields_spanFrom start).bind fun _ _ => ?_
  exact yields_pure ⟨htop, hitems.1, hitems.2⟩

/-! ### Grouping, order and offset -/

theorem groupItem_yields : Yields v groupItem (GroupItem.WellFormed v) := by
  refine yields_version.bind fun u hu => ?_
  subst hu
  refine .ite (fun _ => ?_) fun other => ?_
  · exact columnRef_yields.mono fun o ho => ⟨ho.1.1, fun _ => ho.2⟩
  · exact value_yields.mono fun o ho => ⟨ho, fun first => absurd (by simp [first]) other⟩

theorem groupByClause_yields :
    Yields v groupByClause fun items => items ≠ [] ∧ ∀ o ∈ items, GroupItem.WellFormed v o :=
  (yields_expect _).bind fun _ _ => (yields_expect _).bind fun _ _ => groupItem_yields.sepBy

theorem orderKey_yields :
    Yields v orderKey fun o => ∀ descending span, OrderItem.WellFormed v ⟨o, descending, span⟩ := by
  refine yields_version.bind fun u hu => ?_
  subst hu
  refine .ite (fun _ => ?_) fun other => ?_
  · intro s o t hs h
    obtain ⟨seen, r, hseen, h⟩ := bind_ok h
    cases hseen
    split at h
    · rename_i here
      have number : Lexer.IsNumber .integer s.current.text.toList := by
        have kind : s.current.kind = .integer := eq_of_beq here
        simpa only [kind] using hs.current.isNumber (by rw [kind]; rfl)
      cases h
      refine ⟨hs.advance, fun _ _ => ⟨leaf_wellFormed ⟨.integer, rfl, number⟩ rfl, fun _ => ?_⟩⟩
      exact .inr ⟨_, _, rfl, number⟩
    · obtain ⟨ht, ho⟩ := columnRef_yields _ _ _ (State.Lexed.expecting hs) h
      exact ⟨ht, fun _ _ => ⟨ho.1.1, fun _ => .inl ho.2⟩⟩
  · exact value_yields.mono fun o ho _ _ => ⟨ho, fun first => absurd (by simp [first]) other⟩

theorem direction_yields : Yields v direction fun _ => True := by
  refine (yields_eat _).bind fun _ _ => .ite (fun _ => yields_pure trivial) fun _ => ?_
  exact (yields_eat _).bind fun _ _ => yields_pure trivial

theorem orderItem_yields : Yields v orderItem (OrderItem.WellFormed v) := by
  refine yields_place.bind fun start _ => orderKey_yields.bind fun o ho => ?_
  exact direction_yields.bind fun _ _ => (yields_spanFrom start).bind fun _ _ => yields_pure (ho _ _)

theorem orderByClause_yields :
    Yields v orderByClause fun items => items ≠ [] ∧ ∀ o ∈ items, o.WellFormed v :=
  (yields_expect _).bind fun _ _ => (yields_expect _).bind fun _ _ => orderItem_yields.sepBy

theorem offsetClause_yields : Yields v offsetClause fun r => ∀ o ∈ r, o.WellFormed v := by
  refine yields_place.bind fun start _ => (yields_eat _).bind fun _ since =>
    .ite (fun here => ?_) fun _ => yields_pure (by simp)
  have later : v = .v21 := by simpa [Keyword.availableIn] using since here .offsetKw rfl
  refine (rowCount_yields _).bind fun n hn => (yields_spanFrom start).bind fun _ _ => yields_pure ?_
  intro o ho
  cases ho
  exact ⟨later, hn⟩

/-! ### Bodies -/

theorem optionalClause_yields {α : Type} {word : Keyword} {clause : Parse (List α)} {P : α → Prop}
    (h : Yields v clause fun as => as ≠ [] ∧ ∀ a ∈ as, P a) :
    Yields v (optionalClause word clause) fun as => ∀ a ∈ as, P a :=
  (yields_sees _).bind fun _ _ => .ite (fun _ => h.mono fun _ => And.right) fun _ => yields_pure (by simp)

theorem optionalCondition_yields (hq : Yields v query (Query.Nested v)) (word : Keyword) :
    Yields v (optionalCondition query word) fun r => ∀ c ∈ r, c.WellFormed v := by
  refine (yields_eat _).bind fun _ _ => .ite (fun _ => ?_) fun _ => yields_pure (by simp)
  exact (condition_yields hq).bind fun c hc => yields_pure (by simpa using hc)

/-- A well-formed body without order and offset that binds at least as tightly as `r`. -/
def Combines (v : Version) (r : Nat) (b : QueryBody) : Prop := b.WellFormed v ∧ b.Plain ∧ r ≤ b.rank

theorem selectQuery_yields (hq : Yields v query (Query.Nested v)) :
    Yields v (do return .select (← selectQuery query)) (Combines v 2) := by
  have core : Yields v (selectQuery query) fun q => Combines v 2 (.select q) := by
    refine yields_place.bind fun start _ => selectClause_yields.bind fun clause hclause => ?_
    refine (fromClause_yields hq).bind fun source hsource => ?_
    refine (optionalCondition_yields hq _).bind fun filter hfilter => ?_
    refine (optionalClause_yields groupByClause_yields).bind fun groupBy hgroupBy => ?_
    refine (optionalCondition_yields hq _).bind fun having hhaving => ?_
    refine (yields_spanFrom start).bind fun _ _ => yields_pure ⟨⟨hclause, hsource.1, ?_⟩, ⟨rfl, rfl⟩, Nat.le_refl _⟩
    exact ⟨FromItem.allWellFormed_iff.2 hsource.2, Constraint.eachWellFormed_iff.2 hfilter, hgroupBy,
      Constraint.eachWellFormed_iff.2 hhaving, by simp [TailRule]⟩
  exact core.bind fun q h => yields_pure h

theorem eatSetOperator_yields (operators : List (Keyword × SetOperator)) :
    Yields v (eatSetOperator operators) fun r => ∀ op ∈ r,
      ∃ word, (word, op) ∈ operators ∧ word.availableIn v := by
  induction operators with
  | nil => exact yields_pure (by simp)
  | cons first others ih =>
    refine (yields_eat _).bind fun _ since => .ite (fun here => yields_pure ?_) fun _ => ih.mono ?_
    · intro op hop
      cases hop
      exact ⟨first.1, List.mem_cons_self, since here _ rfl⟩
    · intro r hr op hop
      obtain ⟨word, member, available⟩ := hr op hop
      exact ⟨word, List.mem_cons_of_mem _ member, available⟩

/-- Bodies combined by operators of rank `r`, grouped to the left. -/
theorem combined_yields (operators : List (Keyword × SetOperator)) {item : Parse QueryBody} {r : Nat}
    (rank : ∀ entry ∈ operators, entry.2.rank = r)
    (since : ∀ entry ∈ operators, entry.1.availableIn v → v = .v21)
    (hitem : Yields v item (Combines v (r + 1))) : Yields v (combined operators item) (Combines v r) := by
  refine yields_place.bind fun start _ => hitem.bind fun left hleft => ?_
  refine .iterate ⟨hleft.1, hleft.2.1, Nat.le_of_succ_le hleft.2.2⟩ fun left hleft => ?_
  refine (eatSetOperator_yields operators).bind fun found hfound => ?_
  cases found with
  | none => exact yields_pure (by simp)
  | some op =>
    obtain ⟨word, member, available⟩ := hfound op rfl
    have hrank : op.rank = r := rank _ member
    refine (yields_eat _).bind fun _ _ => hitem.bind fun right hright => ?_
    refine (yields_spanFrom start).bind fun _ _ => yields_pure fun body hbody => ?_
    cases hbody
    refine ⟨⟨since _ member available, ?_, ?_, hleft.2.1, hright.2.1, hleft.1, hright.1, ?_⟩,
      ⟨rfl, rfl⟩, Nat.le_of_eq hrank.symm⟩
    · rw [hrank]; exact hleft.2.2
    · rw [hrank]; exact hright.2.2
    · simp [TailRule]

theorem queryBody_yields (hq : Yields v query (Query.Nested v)) :
    Yields v (queryBody query) (Combines v 0) := by
  have intersections := combined_yields [(.intersectKw, .intersect)]
    (by simp [SetOperator.rank]) (by simp [Keyword.availableIn]) (selectQuery_yields hq)
  exact combined_yields _ (by simp [SetOperator.rank]) (by simp [Keyword.availableIn]) intersections

theorem finish_wellFormed {orderBy : List OrderItem} {offset : Option Offset} {span : Option Span}
    {body : QueryBody} (h : body.WellFormed v) (tail : TailRule v orderBy offset) :
    (finish orderBy offset span body).WellFormed v := by
  cases body with
  | select query =>
    obtain ⟨clause, source, filter, groupBy, having, orderBy, offset, span⟩ := query
    obtain ⟨hclause, nonempty, hsource, hfilter, hgroupBy, hhaving, -⟩ := h
    exact ⟨hclause, nonempty, hsource, hfilter, hgroupBy, hhaving, tail⟩
  | set operation =>
    obtain ⟨left, op, all, right, orderBy, offset, span⟩ := operation
    obtain ⟨since, hl, hr, plainLeft, plainRight, hleft, hright, -⟩ := h
    exact ⟨since, hl, hr, plainLeft, plainRight, hleft, hright, tail⟩

theorem orderedBody_yields (hq : Yields v query (Query.Nested v)) :
    Yields v (orderedBody query) (QueryBody.WellFormed v) := by
  refine yields_place.bind fun start _ => (queryBody_yields hq).bind fun body hbody => ?_
  refine (optionalClause_yields orderByClause_yields).bind fun orderBy horderBy => ?_
  refine offsetClause_yields.bind fun offset hoffset => (yields_spanFrom start).bind fun _ _ => ?_
  exact yields_pure (finish_wellFormed hbody.1 ⟨horderBy, hoffset⟩)

/-! ### Queries -/

theorem subqueryFor_yields (n : Nat) : Yields v (subqueryFor n) (Query.Nested v) := by
  induction n with
  | zero => exact yields_unexpected
  | succ n ih =>
    refine yields_place.bind fun start _ => (orderedBody_yields ih).bind fun body hbody => ?_
    exact (yields_spanFrom start).bind fun _ _ => yields_pure ⟨rfl, hbody⟩

theorem subquery_yields : Yields v subquery (Query.Nested v) := .bounded subqueryFor_yields

theorem declaredColumns_yields :
    Yields v withItem.declaredColumns fun columns => ∀ i ∈ columns, i.WellFormed v := by
  refine (yields_eat _).bind fun _ _ => .ite (fun _ => ?_) fun _ => yields_pure (by simp)
  refine yields_identifier.sepBy.bind fun columns hcolumns => (yields_expect _).bind fun _ _ => ?_
  exact yields_pure hcolumns.2

theorem withItem_yields (later : v = .v21) : Yields v withItem (WithItem.WellFormed v) := by
  refine yields_place.bind fun start _ => yields_identifier.bind fun name hname => ?_
  refine declaredColumns_yields.bind fun columns hcolumns => (yields_expect _).bind fun _ _ => ?_
  refine (yields_expect _).bind fun _ _ => subquery_yields.bind fun query hquery => ?_
  refine (yields_expect _).bind fun _ _ => (yields_spanFrom start).bind fun _ _ => yields_pure ?_
  exact ⟨later, hname, hcolumns, hquery⟩

theorem withClause_yields : Yields v withClause fun items => ∀ item ∈ items, item.WellFormed v := by
  refine (yields_eat _).bind fun _ since => .ite (fun here => ?_) fun _ => yields_pure (by simp)
  have later : v = .v21 := by simpa [Keyword.availableIn] using since here .withKw rfl
  exact (withItem_yields later).sepBy.mono fun _ => And.right

theorem query_yields : Yields v Grammar.query (Query.WellFormed v) := by
  refine yields_place.bind fun start _ => withClause_yields.bind fun withItems hwith => ?_
  refine (orderedBody_yields subquery_yields).bind fun body hbody => ?_
  exact (yields_spanFrom start).bind fun _ _ => yields_pure ⟨hwith, hbody⟩

end SkyQuery.Grammar
