import SkyQuery.Proofs.QuickFix.Values

/-!
# Quick fixes of queries that are read

`QuickFix.fix_eq_iff_casts`: a quick fix leaves a text that is read as a query as it is, if the text has no
look-alikes, unless the query casts to a type that is a reserved word without a length.
-/

namespace SkyQuery

def Query.bareWords (q : Query) : Nat := (Part.query q).bareWords

def Constraint.bareWords (c : Constraint) : Nat := (Part.constraint c).bareWords

def FromItem.bareWords (item : FromItem) : Nat := (Part.fromItem item).bareWords

theorem Constraint.bareWords_eq (c : Constraint) : c.bareWords = (c.operands.map Operand.bareWords).sum +
    (c.children.map Constraint.bareWords).sum + (c.subqueries.map Query.bareWords).sum := by
  rw [bareWords, Part.bareWords_eq, Part.children, List.map_append, List.map_append, List.sum_append, List.sum_append,
    List.map_map, List.map_map, List.map_map]
  exact Nat.zero_add _

namespace Grammar

open Parse QuickFix

variable {α : Type} {v : Version} {tokens : List Token} {k n : Nat} {start : Place} {query : Parse Query}

/-! ### Conditions -/

/-- What the reader of a condition ends with. -/
theorem constraint_paid {make : Option Span → Constraint} {operands : List Operand} {children : List Constraint}
    {queries : List Query} (hoperands : ∀ span, (make span).operands = operands)
    (hchildren : ∀ span, (make span).children = children) (hqueries : ∀ span, (make span).subqueries = queries)
    (parts : n = (operands.map Operand.bareWords).sum + (children.map Constraint.bareWords).sum +
      (queries.map Query.bareWords).sum + ahead v tokens k) :
    Ends v tokens k (do return make (← spanFrom start)) fun j c => n = c.bareWords + ahead v tokens j := by
  refine (looks_spanFrom start).bind fun span => ends_pure ?_
  rw [Constraint.bareWords_eq, hoperands, hchildren, hqueries, parts]

section Conditions

variable {tested : Operand} {nested : Parse Constraint}

theorem comparisonTail_pays (paid : n = tested.bareWords + ahead v tokens k) (op : ComparisonOp) :
    Ends v tokens k (comparisonTail tested op start) fun j c => n = c.bareWords + ahead v tokens j := by
  refine (value_pays k).bind fun a right _ hright => .ite (fun _ => ?_) fun _ => ends_failAt
  refine constraint_paid (fun _ => rfl) (fun _ => rfl) (fun _ => rfl) ?_
  simp only [List.map_cons, List.map_nil, List.sum_cons, List.sum_nil]
  omega

theorem nullTail_pays (paid : n = tested.bareWords + ahead v tokens k) :
    Ends v tokens k (nullTail tested start) fun j c => n = c.bareWords + ahead v tokens j := by
  refine (keeps_eat rfl).bind fun a _ ka => (keeps_expect rfl).bind fun b _ ab => .ite (fun _ => ?_) fun _ => ends_failAt
  refine constraint_paid (fun _ => rfl) (fun _ => rfl) (fun _ => rfl) ?_
  simp only [List.map_cons, List.map_nil, List.sum_cons, List.sum_nil]
  omega

theorem betweenTail_pays (paid : n = tested.bareWords + ahead v tokens k) (negated : Bool) :
    Ends v tokens k (betweenTail tested negated start) fun j c => n = c.bareWords + ahead v tokens j := by
  refine (value_pays k).bind fun a low _ hlow => (keeps_expect rfl).bind fun b _ ab => ?_
  refine (value_pays b).bind fun c high _ hhigh => ?_
  refine constraint_paid (fun _ => rfl) (fun _ => rfl) (fun _ => rfl) ?_
  simp only [List.map_cons, List.map_nil, List.sum_cons, List.sum_nil]
  omega

theorem patternTail_pays (paid : n = tested.bareWords + ahead v tokens k) (op : ComparisonOp) :
    Ends v tokens k (patternTail tested op start) fun j c => n = c.bareWords + ahead v tokens j := by
  refine (value_pays k).bind fun a pattern _ hpattern => (looks_checkString tested).bind fun _ => ?_
  refine (looks_checkString pattern).bind fun _ => constraint_paid (fun _ => rfl) (fun _ => rfl) (fun _ => rfl) ?_
  simp only [List.map_cons, List.map_nil, List.sum_cons, List.sum_nil]
  omega

theorem memberTail_pays (hq : Pays v tokens Query.bareWords query) (paid : n = tested.bareWords + ahead v tokens k)
    (negated : Bool) :
    Ends v tokens k (memberTail query tested negated start) fun j c => n = c.bareWords + ahead v tokens j := by
  refine (keeps_expect rfl).bind fun a _ ka => (looks_sees _).bind fun _ => .ite (fun _ => ?_) fun _ => ?_
  · refine (hq a).bind fun b source _ hsource => (keeps_expect rfl).bind fun c _ bc => ?_
    refine constraint_paid (fun _ => rfl) (fun _ => rfl) (fun _ => rfl) ?_
    simp only [List.map_cons, List.map_nil, List.sum_cons, List.sum_nil]
    omega
  · refine (pays_sepBy rfl value_pays a).bind fun b values _ hvalues => (keeps_expect rfl).bind fun c _ bc => ?_
    refine constraint_paid (fun _ => rfl) (fun _ => rfl) (fun _ => rfl) ?_
    simp only [List.map_cons, List.map_nil, List.sum_cons, List.sum_nil] at hvalues ⊢
    omega

theorem keeps_eatOperator (operators : List (Kind × ComparisonOp))
    (plain : ∀ entry ∈ operators, Kind.staysPlain entry.1 = true) : Keeps v (eatOperator operators) := by
  induction operators with
  | nil => exact keeps_pure none
  | cons entry others ih =>
    obtain ⟨here, plain⟩ := List.forall_mem_cons.1 plain
    exact (keeps_eat here).seq fun _ => .ite (fun _ => keeps_pure _) fun _ => ih plain

theorem predicate_pays (hq : Pays v tokens Query.bareWords query) :
    Pays v tokens Constraint.bareWords (predicate query) := by
  refine fun k => looks_place.bind fun start => (value_pays k).bind fun a tested _ htested => ?_
  refine (keeps_eatOperator comparisons (by decide)).bind fun b found ab => ?_
  rw [ab] at htested
  cases found with
  | some op => exact comparisonTail_pays htested op
  | none =>
    refine (keeps_eat rfl).bind fun c _ bc => .ite (fun _ => nullTail_pays (bc ▸ htested)) fun _ => ?_
    refine (keeps_eat rfl).bind fun d negated cd => (keeps_eat rfl).bind fun e _ de => ?_
    rw [bc, cd, de] at htested
    refine .ite (fun _ => betweenTail_pays htested negated) fun _ => (keeps_eat rfl).bind fun f _ ef => ?_
    rw [ef] at htested
    refine .ite (fun _ => patternTail_pays htested _) fun _ => (keeps_eat rfl).bind fun g _ fg => ?_
    rw [fg] at htested
    refine .ite (fun _ => patternTail_pays htested _) fun _ => (keeps_eat rfl).bind fun l _ gl => ?_
    rw [gl] at htested
    exact .ite (fun _ => memberTail_pays hq htested negated) fun _ => ends_unexpected

theorem grouped_pays (hc : Pays v tokens Constraint.bareWords nested) :
    Pays v tokens Constraint.bareWords (grouped nested) := by
  refine fun k => looks_place.bind fun start => (keeps_expect rfl).bind fun a _ ka => ?_
  refine (hc a).bind fun b inner _ hinner => ?_
  refine (keeps_expect rfl).bind fun c _ bc => constraint_paid (fun _ => rfl) (fun _ => rfl) (fun _ => rfl) ?_
  simp only [List.map_cons, List.map_nil, List.sum_cons, List.sum_nil]
  omega

theorem existsTail_pays (hq : Pays v tokens Query.bareWords query) :
    Pays v tokens Constraint.bareWords (existsTail query start) := by
  refine fun k => (keeps_expect rfl).bind fun a _ ka => (hq a).bind fun b source _ hsource => ?_
  refine (keeps_expect rfl).bind fun c _ bc => constraint_paid (fun _ => rfl) (fun _ => rfl) (fun _ => rfl) ?_
  simp only [List.map_cons, List.map_nil, List.sum_cons, List.sum_nil]
  omega

theorem negationFor_pays (hq : Pays v tokens Query.bareWords query) (hc : Pays v tokens Constraint.bareWords nested)
    (m : Nat) : Pays v tokens Constraint.bareWords (negationFor query nested m) := by
  induction m with
  | zero => exact fun _ => ends_unexpected
  | succ m ih =>
    refine fun k => looks_place.bind fun start => (keeps_eat rfl).bind fun a _ ka => .ite (fun _ => ?_) fun _ => ?_
    · refine (ih a).bind fun b inner _ hinner => constraint_paid (fun _ => rfl) (fun _ => rfl) (fun _ => rfl) ?_
      simp only [List.map_cons, List.map_nil, List.sum_cons, List.sum_nil]
      omega
    refine (keeps_eat rfl).bind fun b _ ab => ?_
    rw [ka, ab]
    refine .ite (fun _ => existsTail_pays hq b) fun _ => looks_current.bind fun _ => looks_second.bind fun _ => ?_
    exact .ite (fun _ => (grouped_pays hc b).either (predicate_pays hq b)) fun _ => predicate_pays hq b

theorem connected_pays {word : Keyword} (plain : Kind.staysPlain (.keyword word) = true)
    {connect : Constraint → Constraint → Option Span → Constraint} {item : Parse Constraint}
    (hitem : Pays v tokens Constraint.bareWords item)
    (both : ∀ left right span, (connect left right span).bareWords = left.bareWords + right.bareWords) :
    Pays v tokens Constraint.bareWords (connected word connect item) := by
  refine fun k => looks_place.bind fun start => (hitem k).bind fun a left _ hleft => pays_iterate (fun k left => ?_) hleft
  refine (keeps_eat plain).bind fun b _ kb => .ite (fun _ => ?_) fun _ => ends_pure (by rw [kb]; rfl)
  refine (hitem b).bind fun c right _ hright => (looks_spanFrom start).bind fun span => ends_pure ?_
  rw [Option.getD_some, both]
  omega

theorem condition_pays (hq : Pays v tokens Query.bareWords query) :
    Pays v tokens Constraint.bareWords (condition query) := by
  refine fun k => .bounded fun m => ?_
  induction m generalizing k with
  | zero => exact ends_unexpected
  | succ m ih =>
    have negations : Pays v tokens Constraint.bareWords (negation query (conditionFor query m)) :=
      fun k => .bounded fun l => negationFor_pays hq ih l k
    have both (connect : Constraint → Constraint → Option Span → Constraint) (left right : Constraint)
        (span : Option Span) (operands : (connect left right span).operands = [])
        (children : (connect left right span).children = [left, right]) (queries : (connect left right span).subqueries = []) :
        (connect left right span).bareWords = left.bareWords + right.bareWords := by
      rw [Constraint.bareWords_eq, operands, children, queries]
      simp
    have conjunctions := connected_pays (show Kind.staysPlain (.keyword .andKw) = true from rfl) negations fun left right span =>
      both .and left right span rfl rfl rfl
    exact connected_pays rfl conjunctions (fun left right span => both .or left right span rfl rfl rfl) k

end Conditions

/-! ### Sources -/

theorem keeps_optionalAlias : Keeps v optionalAlias :=
  (keeps_eat rfl).seq fun _ => .ite (fun _ => keeps_identifier.seq fun _ => keeps_pure _) fun _ => keeps_eatIdentifier

theorem tableRef_pays (hq : Pays v tokens Query.bareWords query) : Pays v tokens FromItem.bareWords (tableRef query) := by
  refine fun k => looks_place.bind fun start => (keeps_eat rfl).bind fun a _ ka => .ite (fun _ => ?_) fun _ => ?_
  · refine (hq a).bind fun b source _ hsource => (keeps_expect rfl).bind fun c _ bc => ?_
    refine (keeps_eat rfl).bind fun d _ cd => ?_
    refine keeps_identifier.bind fun j label dj => part_paid .fromItem (fun _ => rfl) fun _ => ?_
    change _ = source.bareWords + 0 + _
    omega
  · refine (keeps_dotted 2).bind fun b parts ab => ?_
    cases TableName.ofParts? parts with
    | none => exact ends_unexpected
    | some name =>
      refine keeps_optionalAlias.bind fun j label bj => part_paid .fromItem (fun _ => rfl) fun _ => ?_
      change _ = 0 + _
      omega

theorem keeps_eatSide : Keeps v eatSide := by
  refine (keeps_eat rfl).seq fun _ => .ite (fun _ => keeps_pure _) fun _ => ?_
  refine (keeps_eat rfl).seq fun _ => .ite (fun _ => keeps_pure _) fun _ => ?_
  exact (keeps_eat rfl).seq fun _ => .ite (fun _ => keeps_pure _) fun _ => keeps_pure none

theorem keeps_eatJoin : Keeps v eatJoin := by
  refine (keeps_eat rfl).seq fun _ => .ite (fun _ => (keeps_expect rfl).seq fun _ => keeps_pure _) fun _ => ?_
  refine (keeps_eat rfl).seq fun _ => .ite (fun _ => keeps_pure _) fun _ => keeps_eatSide.seq fun side => ?_
  cases side with
  | none => exact keeps_pure none
  | some side => exact (keeps_eat rfl).seq fun _ => (keeps_expect rfl).seq fun _ => keeps_pure _

theorem joinCondition_pays (hq : Pays v tokens Query.bareWords query) :
    Pays v tokens (fun c => (c.constraint?.toList.map Constraint.bareWords).sum) (joinCondition query) := by
  refine fun k => (keeps_eat rfl).bind fun a _ ka => .ite (fun _ => ?_) fun _ => (keeps_eat rfl).bind fun b _ ab => ?_
  · refine (condition_pays hq a).bind fun j c _ hc => ends_pure ?_
    simpa [JoinCondition.constraint?, ka] using hc
  · refine .ite (fun _ => (keeps_expect rfl).bind fun c _ bc => ?_) fun _ => ends_unexpected
    refine (keeps_identifier.sepBy rfl).bind fun d columns cd => (keeps_expect rfl).bind fun j _ dj => ends_pure ?_
    change _ = 0 + _
    omega

/-- The readers of joins pay for the join that they make. -/
theorem join_paid {left right : FromItem} {kind : JoinKind} {natural : Bool} {condition : JoinCondition}
    (parts : n = left.bareWords + right.bareWords + (condition.constraint?.toList.map Constraint.bareWords).sum +
      ahead v tokens k) :
    Ends v tokens k (do return some (FromItem.join left kind natural right condition (← spanFrom start)))
      fun j found => n = (found.getD left).bareWords + ahead v tokens j := by
  refine (looks_spanFrom start).bind fun span => ends_pure ?_
  rw [Option.getD_some, FromItem.bareWords, Part.bareWords_eq, Part.children, List.map_append, List.map_map, List.sum_append]
  change _ = 0 + (left.bareWords + (right.bareWords + 0) + (condition.constraint?.toList.map Constraint.bareWords).sum) + _
  omega

theorem joinTail_pays (hq : Pays v tokens Query.bareWords query) (left : FromItem) (k : Nat) :
    Ends v tokens k (joinTail query start left) fun j found =>
      left.bareWords + ahead v tokens k = (found.getD left).bareWords + ahead v tokens j := by
  refine (keeps_eat rfl).bind fun a _ ka => .ite (fun _ => (keeps_expect rfl).bind fun b _ ab => ?_) fun _ => ?_
  · refine (tableRef_pays hq b).bind fun j right _ hright => join_paid ?_
    change _ = left.bareWords + right.bareWords + 0 + _
    omega
  refine (keeps_eat rfl).bind fun b natural ab => keeps_eatJoin.bind fun c found bc => ?_
  rw [ka, ab, bc]
  cases found with
  | none => exact .ite (fun _ => ends_unexpected) fun _ => ends_pure rfl
  | some kind =>
    refine (tableRef_pays hq c).bind fun d right _ hright => ?_
    cases natural with
    | true =>
      refine join_paid ?_
      change _ = left.bareWords + right.bareWords + 0 + _
      omega
    | false =>
      refine (joinCondition_pays hq d).bind fun j condition _ hcondition => join_paid ?_
      dsimp only at hcondition
      omega

theorem fromClause_pays (hq : Pays v tokens Query.bareWords query) :
    Pays v tokens (fun items => (items.map FromItem.bareWords).sum) (fromClause query) := by
  have item : Pays v tokens FromItem.bareWords (fromItem query) := by
    refine fun k => looks_place.bind fun start => (tableRef_pays hq k).bind fun a left _ hleft => ?_
    exact pays_iterate (fun k left => joinTail_pays hq left k) hleft
  refine fun k => (keeps_expect rfl).bind fun a _ ka => ?_
  rw [ka]
  exact pays_sepBy rfl item a

/-! ### Clauses -/

theorem keeps_rowCount (word : String) : Keeps v (rowCount word) := by
  refine looks_place.keeps.seq fun start => (keeps_expect rfl).seq fun token => ?_
  dsimp only
  cases digitsBelow? (Nat.pow 2 64) token.text with
  | none => exact fun _ _ => (looks_spanFrom start).bind fun _ => ends_failAt
  | some n => exact keeps_pure n

theorem State.current_advance (s : State) : s.advance.current = s.second := by
  obtain ⟨next, rest, reached, expected⟩ := s
  cases rest <;> rfl

theorem keeps_eatTableStar : Keeps v eatTableStar := by
  intro tokens k s found t hs h
  -- names that no star follows are put back
  have none : ∃ j, k ≤ j ∧ s.At tokens j ∧ ahead v tokens k = ahead v tokens j := ⟨k, Nat.le_refl k, hs, rfl⟩
  unfold eatTableStar at h
  split at h
  · cases hparts : dotted 2 v s with
    | error e =>
      rw [hparts] at h
      cases h
    | ok read =>
      obtain ⟨parts, r⟩ := read
      rw [hparts] at h
      dsimp only at h
      obtain ⟨a, ka, hr, taken⟩ := keeps_dotted 2 tokens k s parts r hs hparts
      split at h
      · rename_i ends
        obtain ⟨dot, star⟩ := Bool.and_eq_true_iff.1 ends
        cases ofParts : TableName.ofParts? parts with
        | none =>
          rw [ofParts] at h
          cases h
          exact none
        | some table =>
          rw [ofParts] at h
          cases h
          obtain ⟨b, ab, hb, taken'⟩ := ahead_of_plain (v := v) rfl hr (eq_of_beq dot)
          obtain ⟨j, bj, hj, taken''⟩ := ahead_of_plain (v := v) rfl hb (r.current_advance ▸ eq_of_beq star)
          exact ⟨j, by omega, hj, taken.trans (taken'.trans taken'')⟩
      · cases h
        exact none
  · cases h
    exact none

theorem selectItem_pays :
    Pays v tokens (fun item => (item.operand?.toList.map Operand.bareWords).sum) selectItem := by
  refine fun k => looks_place.bind fun start => (keeps_eat rfl).bind fun a _ ka => .ite (fun _ => ?_) fun _ => ?_
  · exact (looks_spanFrom start).bind fun _ => ends_pure (by simpa [SelectItem.operand?] using ka)
  refine keeps_eatTableStar.bind fun b found ab => ?_
  cases found with
  | some table =>
    refine (looks_spanFrom start).bind fun _ => ends_pure ?_
    simpa [SelectItem.operand?] using ka.trans ab
  | none =>
    refine (value_pays b).bind fun c operand _ hoperand => keeps_optionalAlias.bind fun j label cj => ends_pure ?_
    change _ = operand.bareWords + 0 + _
    omega

theorem keeps_distinctness : Keeps v distinctness :=
  (keeps_eat rfl).seq fun _ => .ite (fun _ => keeps_pure true) fun _ => (keeps_eat rfl).seq fun _ => keeps_pure false

theorem keeps_topClause : Keeps v topClause :=
  (keeps_eat rfl).seq fun _ =>
    .ite (fun _ => (keeps_rowCount "TOP").seq fun _ => keeps_pure _) fun _ => keeps_pure none

theorem selectClause_pays :
    Pays v tokens (fun c => ((c.items.filterMap SelectItem.operand?).map Operand.bareWords).sum) selectClause := by
  have shown (items : List SelectItem) : ((items.filterMap SelectItem.operand?).map Operand.bareWords).sum =
      (items.map fun item => (item.operand?.toList.map Operand.bareWords).sum).sum := by
    induction items with
    | nil => rfl
    | cons item items ih =>
      rw [List.map_cons, List.sum_cons, ← ih]
      cases item with
      | expr operand label => simp [SelectItem.operand?]
      | _ =>
        rw [List.filterMap_cons_none rfl]
        exact (Nat.zero_add _).symm
  refine fun k => looks_place.bind fun start => (keeps_expect rfl).bind fun a _ ka => ?_
  refine keeps_distinctness.bind fun b distinct ab => ?_
  refine keeps_topClause.bind fun c top bc => (pays_sepBy rfl selectItem_pays c).bind fun j items _ hitems => ?_
  refine (looks_spanFrom start).bind fun span => ends_pure ?_
  dsimp only at hitems ⊢
  rw [ka, ab, bc, hitems, shown]

theorem groupByClause_pays : Pays v tokens (fun os => (os.map Operand.bareWords).sum) groupByClause := by
  have item : Pays v tokens Operand.bareWords groupItem :=
    fun k => looks_version.bind fun _ => .ite (fun _ => columnRef_pays k) fun _ => value_pays k
  refine fun k => (keeps_expect rfl).bind fun a _ ka => (keeps_expect rfl).bind fun b _ ab => ?_
  rw [ka, ab]
  exact pays_sepBy rfl item b

theorem orderKey_pays : Pays v tokens Operand.bareWords orderKey := by
  refine fun k => looks_version.bind fun _ => .ite (fun _ => ?_) fun _ => value_pays k
  refine .sees (.ite (fun integer => ?_) fun _ => columnRef_pays k)
  refine looks_place.bind fun start => .advance (by rw [eq_of_beq integer]; rfl) fun token j kj => ?_
  exact ends_paid (fun _ => rfl) fun _ => by simpa [Operand.children] using kj

theorem keeps_direction : Keeps v direction :=
  (keeps_eat rfl).seq fun _ => .ite (fun _ => keeps_pure true) fun _ => (keeps_eat rfl).seq fun _ => keeps_pure false

theorem orderByClause_pays : Pays v tokens (fun items => (items.map fun item => item.expr.bareWords).sum) orderByClause := by
  have item : Pays v tokens (fun item => item.expr.bareWords) orderItem := by
    refine fun k => looks_place.bind fun start => (orderKey_pays k).bind fun a expr _ hexpr => ?_
    refine keeps_direction.bind fun j _ aj => (looks_spanFrom start).bind fun _ => ends_pure ?_
    rw [hexpr, aj]
  refine fun k => (keeps_expect rfl).bind fun a _ ka => (keeps_expect rfl).bind fun b _ ab => ?_
  rw [ka, ab]
  exact pays_sepBy rfl item b

theorem keeps_offsetClause : Keeps v offsetClause := by
  refine looks_place.keeps.seq fun start => (keeps_eat rfl).seq fun _ => .ite (fun _ => ?_) fun _ => keeps_pure none
  exact (keeps_rowCount "OFFSET").seq fun _ => (looks_spanFrom start).keeps.seq fun _ => keeps_pure _

theorem optionalClause_pays {worth : α → Nat} {clause : Parse (List α)} (word : Keyword)
    (h : Pays v tokens (fun as => (as.map worth).sum) clause) :
    Pays v tokens (fun as => (as.map worth).sum) (optionalClause word clause) :=
  fun k => (looks_sees _).bind fun _ => .ite (fun _ => h k) fun _ => ends_pure (Nat.zero_add _).symm

/-! ### Bodies -/

theorem optionalCondition_pays (hq : Pays v tokens Query.bareWords query) {word : Keyword}
    (plain : Kind.staysPlain (.keyword word) = true) :
    Pays v tokens (fun c => (c.toList.map Constraint.bareWords).sum) (optionalCondition query word) := by
  refine fun k => (keeps_eat plain).bind fun a _ ka => .ite (fun _ => ?_) fun _ => ends_pure (by simpa using ka)
  refine (condition_pays hq a).bind fun j c _ hc => ends_pure ?_
  simpa [ka] using hc

theorem selectQuery_pays (hq : Pays v tokens Query.bareWords query) :
    Ends v tokens k (do return QueryBody.select (← selectQuery query))
      fun j b => b.Plain ∧ ahead v tokens k = b.part.bareWords + ahead v tokens j := by
  have core : Ends v tokens k (selectQuery query) fun j q =>
      (q.orderBy = [] ∧ q.offset = none) ∧ ahead v tokens k = (Part.select q).bareWords + ahead v tokens j := by
    refine looks_place.bind fun start => (selectClause_pays k).bind fun a clause _ hclause => ?_
    refine (fromClause_pays hq a).bind fun b source _ hsource => ?_
    refine (optionalCondition_pays hq rfl b).bind fun c filter _ hfilter => ?_
    refine (optionalClause_pays .groupKw groupByClause_pays c).bind fun d groupBy _ hgroupBy => ?_
    refine (optionalCondition_pays hq rfl d).bind fun j having _ hhaving => (looks_spanFrom start).bind fun span => ?_
    refine ends_pure ⟨⟨rfl, rfl⟩, ?_⟩
    rw [Part.bareWords_eq, Part.children]
    simp only [List.map_append, List.sum_append, List.map_map]
    change _ = 0 + (((clause.items.filterMap SelectItem.operand?).map Operand.bareWords).sum +
      (source.map FromItem.bareWords).sum + (filter.toList.map Constraint.bareWords).sum +
      (groupBy.map Operand.bareWords).sum + (having.toList.map Constraint.bareWords).sum + 0) + _
    dsimp only at hclause hsource hfilter hgroupBy hhaving
    omega
  exact core.bind fun j q _ hq => ends_pure hq

theorem keeps_eatSetOperator (operators : List (Keyword × SetOperator))
    (plain : ∀ entry ∈ operators, Kind.staysPlain (.keyword entry.1) = true) : Keeps v (eatSetOperator operators) := by
  induction operators with
  | nil => exact keeps_pure none
  | cons entry others ih =>
    obtain ⟨here, plain⟩ := List.forall_mem_cons.1 plain
    exact (keeps_eat here).seq fun _ => .ite (fun _ => keeps_pure _) fun _ => ih plain

/-- A body without order and offset pays for what it is made of. -/
abbrev PaysPlain (v : Version) (tokens : List Token) (p : Parse QueryBody) : Prop :=
  ∀ k, Ends v tokens k p fun j b => b.Plain ∧ ahead v tokens k = b.part.bareWords + ahead v tokens j

theorem combined_pays {operators : List (Keyword × SetOperator)}
    (plain : ∀ entry ∈ operators, Kind.staysPlain (.keyword entry.1) = true) {item : Parse QueryBody}
    (hitem : PaysPlain v tokens item) : PaysPlain v tokens (combined operators item) := by
  refine fun k => looks_place.bind fun start => (hitem k).bind fun a left _ hleft => .rounds (fun k' left hleft => ?_) hleft
  refine (keeps_eatSetOperator operators plain).bind fun b found kb => ?_
  rw [kb] at hleft
  cases found with
  | none => exact ends_pure hleft
  | some op =>
    refine (keeps_eat rfl).bind fun c all bc => (hitem c).bind fun j right _ hright => ?_
    refine (looks_spanFrom start).bind fun span => ?_
    refine ends_pure ⟨⟨rfl, rfl⟩, ?_⟩
    rw [Option.getD_some, QueryBody.part, Part.bareWords_eq]
    change _ = 0 + (left.part.bareWords + (right.part.bareWords + 0)) + _
    omega

theorem queryBody_pays (hq : Pays v tokens Query.bareWords query) : PaysPlain v tokens (queryBody query) :=
  combined_pays (by decide) (combined_pays (by decide) fun _ => selectQuery_pays hq)

/-- The offset of a part is for free. -/
theorem bareWords_of_tail {p : Part} {parts : List Part} {orderBy : List OrderItem} {offset : Option Offset}
    (own : p.ownBareWords = 0) (children : p.children = parts ++ tailParts orderBy offset) :
    p.bareWords = (parts.map Part.bareWords).sum + (orderBy.map fun item => item.expr.bareWords).sum := by
  have free (o : Offset) : (Part.offset o).bareWords = 0 := Part.bareWords_eq _
  rw [Part.bareWords_eq, own, children, Nat.zero_add, List.map_append, List.sum_append, tailParts, List.map_append,
    List.sum_append, List.map_map, List.map_map]
  cases offset with
  | none => rfl
  | some o =>
    change _ + (_ + ((Part.offset o).bareWords + 0)) = _
    rw [free]
    rfl

/-- The order of a body is paid for in addition to the body. -/
theorem bareWords_finish {orderBy : List OrderItem} {offset : Option Offset} {span : Option Span} {body : QueryBody}
    (plain : body.Plain) : (finish orderBy offset span body).part.bareWords =
      body.part.bareWords + (orderBy.map fun item => item.expr.bareWords).sum := by
  cases body with
  | select q =>
    obtain ⟨clause, source, filter, groupBy, having, order, shift, place⟩ := q
    obtain ⟨rfl, rfl⟩ : order = [] ∧ shift = none := plain
    rw [bareWords_of_tail (p := (QueryBody.select _).part) rfl rfl]
    exact bareWords_of_tail rfl rfl
  | set o =>
    obtain ⟨left, op, all, right, order, shift, place⟩ := o
    obtain ⟨rfl, rfl⟩ : order = [] ∧ shift = none := plain
    rw [bareWords_of_tail (p := (QueryBody.set _).part) rfl rfl]
    exact bareWords_of_tail rfl rfl

theorem orderedBody_pays (hq : Pays v tokens Query.bareWords query) :
    Pays v tokens (fun b => b.part.bareWords) (orderedBody query) := by
  refine fun k => looks_place.bind fun start => (queryBody_pays hq k).bind fun a body _ ⟨plain, hbody⟩ => ?_
  refine (optionalClause_pays .orderKw orderByClause_pays a).bind fun b orderBy _ horder => ?_
  refine keeps_offsetClause.bind fun j offset bj => (looks_spanFrom start).bind fun span => ends_pure ?_
  dsimp only at horder ⊢
  rw [bareWords_finish plain]
  omega

/-! ### Queries -/

theorem subquery_pays : Pays v tokens Query.bareWords subquery := by
  -- on how deep subqueries nest: a body is read with the readers of the shallower ones
  refine fun k => .bounded fun n => ?_
  induction n generalizing k with
  | zero => exact ends_unexpected
  | succ n ih =>
    refine looks_place.bind fun start => (orderedBody_pays ih k).bind fun j body _ hbody => ?_
    refine part_paid .query (fun _ => rfl) fun _ => ?_
    change _ = body.part.bareWords + 0 + _
    omega

theorem keeps_declaredColumns : Keeps v withItem.declaredColumns := by
  refine (keeps_eat rfl).seq fun _ => .ite (fun _ => ?_) fun _ => keeps_pure []
  exact (keeps_identifier.sepBy rfl).seq fun _ => (keeps_expect rfl).seq fun _ => keeps_pure _

theorem withItem_pays : Pays v tokens (fun item => (Part.withItem item).bareWords) withItem := by
  refine fun k => looks_place.bind fun start => keeps_identifier.bind fun a name ka => ?_
  refine keeps_declaredColumns.bind fun b columns ab => ?_
  refine (keeps_expect rfl).bind fun c _ bc => (keeps_expect rfl).bind fun d _ cd => ?_
  refine (subquery_pays d).bind fun e query _ hquery => ?_
  refine (keeps_expect rfl).bind fun j _ ej => part_paid .withItem (fun _ => rfl) fun _ => ?_
  change _ = query.bareWords + 0 + _
  omega

/-- A query is read from as many misused words as its casts have in their types. -/
theorem query_pays : Pays v tokens Query.bareWords Grammar.query := by
  have named : Pays v tokens (fun items => (items.map fun item => (Part.withItem item).bareWords).sum) withClause := by
    refine fun k => (keeps_eat rfl).bind fun a _ ka => .ite (fun _ => ?_) fun _ => ends_pure (by simpa using ka)
    rw [ka]
    exact pays_sepBy rfl withItem_pays a
  refine fun k => looks_place.bind fun start => (named k).bind fun a items _ hitems => ?_
  refine (orderedBody_pays subquery_pays a).bind fun j body _ hbody => ?_
  refine part_paid .query (fun _ => rfl) fun span => ?_
  rw [Part.children, List.map_append, List.map_map, List.sum_append]
  change _ = (items.map fun item => (Part.withItem item).bareWords).sum + (body.part.bareWords + 0) + _
  dsimp only at hitems hbody
  omega

/-! ### Texts -/

/-- Where nothing but a semicolon is left no word is misused. -/
theorem ahead_of_ended {cs : List Char} (cut : scan v cs = some (wordsBefore tokens)) {s : State} (hs : s.At tokens k)
    (ended : s.current.kind = .endOfText ∨ s.current.kind = .semicolon ∧ s.advance.current.kind = .endOfText) :
    ahead v tokens k = 0 := by
  have last {j : Nat} {t : State} (ht : t.At tokens j) (ended : t.current.kind = .endOfText) : ahead v tokens j = 0 := by
    rw [ahead, nil_of_ended cut (List.drop_suffix ..) ht.shows ended]
    rfl
  rcases ended with ended | ⟨semicolon, ended⟩
  · exact last hs ended
  · obtain ⟨j, -, hj, taken⟩ := ahead_of_plain (v := v) rfl hs semicolon
    exact taken.trans (last hj ended)

/-- A text is read from as many misused words as what is read is worth. -/
theorem misuses_of_read {worth : α → Nat} {p : Parse α} {text : String} {a : α}
    (pays : ∀ tokens, Pays v tokens worth p) (h : readWhole p v text = .ok a) :
    ∃ ws, scan v text.toList = some ws ∧ misuses v ws = worth a := by
  obtain ⟨tokens, t, htokens, hread⟩ := readWhole_ok_iff.1 h
  have cut := cut_of_tokensFor htokens
  obtain ⟨r, hp, ended⟩ := whole_ok hread
  obtain ⟨j, -, hj, paid⟩ := pays tokens 0 _ a r (State.ofTokens_at cut.ended_by) hp
  refine ⟨_, scan_of_cut cut, ?_⟩
  rw [ahead_of_ended (scan_of_cut cut) hj ended] at paid
  exact paid

end Grammar

/-- No part casts to a bare type just where no cast does. -/
theorem Part.bareWords_eq_zero_iff {p : Part} : p.bareWords = 0 ↔
    ∀ value target span, .operand (.cast value target span) ∈ p.all → target.bareWords = 0 := by
  rw [bareWords, List.sum_eq_zero_iff_forall_eq_nat, List.forall_mem_map]
  constructor
  · exact fun free value target span member => free _ member
  · intro free part member
    unfold ownBareWords
    split
    · exact free _ _ _ member
    · rfl

namespace QuickFix

variable {v : Version} {text : String} {q : Query}

/-- A text that is read as a query and has no look-alikes is left as it is just when its query casts to no
reserved word without a length: such a word gets quotes, since no parenthesis follows it. -/
theorem fix_eq_iff_casts (plain : NoLookAlikes text) (h : readQuery v text = .ok q) :
    fix v text = text ↔
      ∀ value target span, .operand (.cast value target span) ∈ (Part.query q).all → target.bareWords = 0 := by
  obtain ⟨ws, cut, misused⟩ := Grammar.misuses_of_read (fun _ => Grammar.query_pays) h
  rw [fix_eq_iff plain cut, misused, Query.bareWords, Part.bareWords_eq_zero_iff]

theorem fix_eq_iff_casts_length : NoLookAlikes "SELECT CAST(a AS CHAR(5)) FROM t" ∧
    ∃ q, readQuery .v21 "SELECT CAST(a AS CHAR(5)) FROM t" = .ok q ∧
      (fix .v21 "SELECT CAST(a AS CHAR(5)) FROM t" = "SELECT CAST(a AS CHAR(5)) FROM t" ↔
        ∀ value target span, .operand (.cast value target span) ∈ (Part.query q).all → target.bareWords = 0) := by
  have plain : NoLookAlikes "SELECT CAST(a AS CHAR(5)) FROM t" := by decide +kernel
  obtain ⟨q, read⟩ := exists_ok_of_isSome (r := readQuery .v21 "SELECT CAST(a AS CHAR(5)) FROM t") (by decide +kernel)
  exact ⟨plain, q, read, fix_eq_iff_casts plain read⟩

/-- A query that is read is not left as it is: the type of its cast becomes a quoted name, which is no type. -/
theorem fix_quotes_type : NoLookAlikes "SELECT CAST(a AS INTEGER) FROM t" ∧
    (readQuery .v21 "SELECT CAST(a AS INTEGER) FROM t").toOption.isSome = true ∧
    fix .v21 "SELECT CAST(a AS INTEGER) FROM t" = "SELECT CAST(a AS \"INTEGER\") FROM t" ∧
    (readQuery .v21 "SELECT CAST(a AS \"INTEGER\") FROM t").toOption.isSome = false := by
  decide +kernel

end QuickFix

end SkyQuery
