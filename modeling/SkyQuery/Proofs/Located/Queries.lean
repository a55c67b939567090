import SkyQuery.Proofs.Located.Conditions

/-!
# Where queries stand

`query_located`: a query that is read stands where it was read, and so does all that is in it.
-/

namespace SkyQuery.Grammar

open Parse

variable {v : Version} {tokens : List Token} {i j k : Nat} {query : Parse Query}

/-- A part that is not read by itself stands where its span says. -/
theorem Ends.part {α : Type} {p : Parse α} {part : α → Part} (ik : i ≤ k)
    (h : Ends v tokens k p fun j a => (part a).Spans v tokens i j) (plain : ∀ a ws, (part a).IsReadOf v ws) :
    Ends v tokens k p fun j a => (part a).Within v tokens i j :=
  h.inside.mono fun _ a kj found => found.2.within (Nat.le_trans ik kj) found.1 (plain a _)

theorem Ends.part? {α : Type} {p : Parse (Option α)} {part : α → Part} (ik : i ≤ k)
    (h : Ends v tokens k p fun j r => ∀ a ∈ r, (part a).Spans v tokens i j) (plain : ∀ a ws, (part a).IsReadOf v ws) :
    Ends v tokens k p fun j r => ∀ a ∈ r, (part a).Within v tokens i j :=
  h.inside.mono fun _ _ kj found a ha => (found.2 a ha).within (Nat.le_trans ik kj) found.1 (plain a _)

section Queries

variable (hq : Locates v tokens .query query)

section Sources

include hq

theorem tableRef_located : Locates v tokens .fromItem (tableRef query) := by
  refine fun k => Ends.part (Nat.le_refl k) (.place (.eatIf (fun a ka => ?_) ?_)) fun _ _ => trivial
  · refine (hq a).bind fun b source ab hsource => (moves_expect _).bind fun c _ bc => (moves_eat _).bind fun d _ cd => ?_
    refine rereads_identifier.moves.bind fun j label dj => .spanFrom (ends_pure ⟨rfl, List.forall_mem_singleton.2 ?_⟩)
    exact hsource.widen ka (by omega)
  · refine (rereads_dotted 2).moves.bind fun a parts ka => ?_
    cases TableName.ofParts? parts with
    | none => exact ends_unexpected
    | some name =>
      refine rereads_optionalAlias.moves.bind fun j label aj => .spanFrom (ends_pure ⟨rfl, List.forall_mem_nil _⟩)

variable (again : ∀ d, RereadsQuery v d query subquery)

include again

theorem joinCondition_located (k : Nat) :
    Ends v tokens k (joinCondition query) fun j c => ∀ d ∈ c.constraint?, (Part.constraint d).Within v tokens k j := by
  refine .eatIf (fun a ka => ?_) (.eatIf (fun a ka => ?_) ends_unexpected)
  · refine (condition_located hq again a).bind fun j c aj hc => ends_pure fun d hd => ?_
    obtain rfl := Option.some.inj hd
    exact hc.widen ka (Nat.le_refl j)
  · refine (moves_expect _).bind fun b _ ab => (rereads_identifier.sepBy (by nofun)).moves.bind fun c names bc => ?_
    exact (moves_expect _).bind fun j _ cj => ends_pure (by intro _ h; cases h)

omit hq again in
theorem join_spans {left right : FromItem} {kind : JoinKind} {natural : Bool} {condition : JoinCondition}
    (hleft : (Part.fromItem left).Within v tokens i j) (hright : (Part.fromItem right).Within v tokens i j)
    (h : ∀ c ∈ condition.constraint?, (Part.constraint c).Within v tokens i j) :
    (Part.fromItem (.join left kind natural right condition (some (spanOf tokens i j)))).Spans v tokens i j := by
  refine ⟨rfl, fun p member => ?_⟩
  simp only [Part.children, List.cons_append, List.nil_append, List.mem_cons] at member
  rcases member with rfl | rfl | member
  · exact hleft
  · exact hright
  · obtain ⟨c, hc, rfl⟩ := List.mem_map.1 member
    exact h c (by simpa using hc)

theorem joinTail_located {left : FromItem} (ij : i ≤ j) (h : (Part.fromItem left).Within v tokens i j) :
    Ends v tokens j (joinTail query (startOf tokens i) left)
      fun l r => ∀ item ∈ r, (Part.fromItem item).Within v tokens i l := by
  refine Ends.part? ij (.eatIf (fun a ja => ?_) ((moves_eat _).bind fun a natural ja => ?_)) fun _ _ => trivial
  · refine (moves_expect _).bind fun b _ ab => (tableRef_located hq b).bind fun l right bl hright => ?_
    refine .spanFrom (ends_pure fun item made => ?_)
    obtain rfl := Option.some.inj made
    exact join_spans (h.widen (Nat.le_refl i) (by omega)) (hright.widen (by omega) (Nat.le_refl l)) (by intro _ h; cases h)
  · refine rereads_eatJoin.moves.bind fun b found ab => ?_
    cases found with
    | none => exact .ite (fun _ => ends_unexpected) fun _ => ends_pure (by simp)
    | some kind =>
      refine (tableRef_located hq b).bind fun c right bc hright => ?_
      have joined {l : Nat} {condition : JoinCondition} (cl : c ≤ l)
          (hcondition : ∀ d ∈ condition.constraint?, (Part.constraint d).Within v tokens i l) :
          Ends v tokens l (do return some (FromItem.join left kind natural right condition (← spanFrom (startOf tokens i))))
            fun l r => ∀ item ∈ r, (Part.fromItem item).Spans v tokens i l := by
        refine .spanFrom (ends_pure fun item made => ?_)
        obtain rfl := Option.some.inj made
        exact join_spans (h.widen (Nat.le_refl i) (by omega)) (hright.widen (by omega) cl) hcondition
      cases natural with
      | true => exact joined (Nat.le_refl c) (by intro _ h; cases h)
      | false =>
        refine (joinCondition_located hq again c).bind fun l condition cl hcondition => joined cl fun d hd => ?_
        exact (hcondition d hd).widen (by omega) (Nat.le_refl l)

theorem fromClause_located (k : Nat) :
    Ends v tokens k (fromClause query) fun j items => ∀ item ∈ items, (Part.fromItem item).Within v tokens k j := by
  have item : Locates v tokens .fromItem (fromItem query) := by
    refine fun k => .place ((tableRef_located hq k).bind fun a left ka hleft => ?_)
    refine .iterate hleft (fun j left aj h => joinTail_located hq again (Nat.le_trans ka aj) h) fun j j' item jj' h => ?_
    exact h.widen (Nat.le_refl k) jj'
  refine (moves_expect _).bind fun a _ ka => (Ends.sepBy item (fun l r h => h.widen l r) a).mono fun j items aj h o ho => ?_
  exact (h o ho).widen ka (Nat.le_refl j)

end Sources

/-! ### Clauses -/

theorem selectItem_located (k : Nat) :
    Ends v tokens k selectItem fun j item => ∀ o ∈ item.operand?, (Part.operand o).Within v tokens k j := by
  refine .place (.eatIf (fun a ka => .spanFrom (ends_pure (by intro _ h; cases h))) ?_)
  refine rereads_eatTableStar.moves.bind fun a found ka => ?_
  cases found with
  | some table => exact .spanFrom (ends_pure (by intro _ h; cases h))
  | none =>
    refine (value_located a).bind fun b operand ab h => rereads_optionalAlias.moves.bind fun j label bj => ends_pure ?_
    intro o ho
    obtain rfl := Option.some.inj ho
    exact h.widen ka bj

theorem selectClause_located (k : Nat) :
    Ends v tokens k selectClause
      fun j c => ∀ o ∈ c.items.filterMap SelectItem.operand?, (Part.operand o).Within v tokens k j := by
  refine .place ((moves_expect _).bind fun a _ ka => rereads_distinctness.moves.bind fun b distinct ab => ?_)
  refine rereads_topClause.moves.bind fun c top bc => ?_
  have items : Ends v tokens c (commaSeparated selectItem)
      fun j items => ∀ item ∈ items, ∀ o ∈ item.operand?, (Part.operand o).Within v tokens c j :=
    Ends.sepBy selectItem_located (fun l r h o ho => (h o ho).widen l r) c
  refine items.bind fun j items cj h => .spanFrom (ends_pure fun o member => ?_)
  obtain ⟨item, hitem, found⟩ := List.mem_filterMap.1 member
  exact (h item hitem o found).widen (by omega) (Nat.le_refl j)

theorem groupByClause_located (k : Nat) :
    Ends v tokens k groupByClause fun j os => ∀ o ∈ os, (Part.operand o).Within v tokens k j := by
  have item : Locates v tokens .operand groupItem :=
    fun k => looks_version.bind fun _ => .ite (fun _ => columnRef_located k) fun _ => value_located k
  refine (moves_expect _).bind fun a _ ka => (moves_expect _).bind fun b _ ab => ?_
  refine (Ends.sepBy item (fun l r h => h.widen l r) b).mono fun j os bj h o ho => ?_
  exact (h o ho).widen (Nat.le_trans ka ab) (Nat.le_refl j)

/-- The number of a result column is a literal. -/
theorem orderKey_located : Locates v tokens .operand orderKey := by
  refine fun k => looks_version.bind fun _ => .ite (fun _ s o t hs h => ?_) fun _ => value_located k
  have looked : State.At tokens k { s with expected := Kind.integer.describe :: s.expected } := hs.expecting
  by_cases integer : (s.current.kind == .integer) = true
  · refine primaryFor_located 0 (fun _ => ends_unexpected) k _ o t looked ?_
    have number : s.current.kind.isNumber = true := by rw [eq_of_beq integer]; rfl
    unfold primaryFor primary
    rw [place_bind, current_bind, if_pos number]
    change (if (s.current.kind == .integer) = true then _ else _ : Parse Operand) v _ = _ at h
    rw [if_pos integer] at h
    exact h
  · change (if (s.current.kind == .integer) = true then _ else _ : Parse Operand) v _ = _ at h
    rw [if_neg integer] at h
    exact columnRef_located k _ o t looked h

theorem orderByClause_located (k : Nat) :
    Ends v tokens k orderByClause fun j items => ∀ item ∈ items, (Part.operand item.expr).Within v tokens k j := by
  have item (k : Nat) : Ends v tokens k orderItem fun j item => (Part.operand item.expr).Within v tokens k j := by
    refine .place ((orderKey_located k).bind fun a expr ka h => rereads_direction.moves.bind fun j _ aj => ?_)
    exact .spanFrom (ends_pure (h.widen (Nat.le_refl k) aj))
  refine (moves_expect _).bind fun a _ ka => (moves_expect _).bind fun b _ ab => ?_
  refine (Ends.sepBy item (fun l r h => h.widen l r) b).mono fun j items bj h o ho => ?_
  exact (h o ho).widen (Nat.le_trans ka ab) (Nat.le_refl j)

theorem offsetClause_located (k : Nat) :
    Ends v tokens k offsetClause fun j r => ∀ o ∈ r, (Part.offset o).Within v tokens k j := by
  refine Ends.part? (Nat.le_refl k) (.place (.eatIf (fun a ka => ?_) (ends_pure (by simp)))) fun _ _ => trivial
  refine (rereads_rowCount "OFFSET").moves.bind fun j value aj => .spanFrom (ends_pure fun o made => ?_)
  obtain rfl := Option.some.inj made
  exact ⟨rfl, List.forall_mem_nil _⟩

theorem tail_within {orderBy : List OrderItem} {offset : Option Offset}
    (horder : ∀ item ∈ orderBy, (Part.operand item.expr).Within v tokens i j)
    (hoffset : ∀ o ∈ offset, (Part.offset o).Within v tokens i j) : ∀ p ∈ tailParts orderBy offset, p.Within v tokens i j := by
  intro p member
  unfold tailParts at member
  rcases List.mem_append.1 member with member | member
  · obtain ⟨item, hitem, rfl⟩ := List.mem_map.1 member
    exact horder item hitem
  · obtain ⟨o, ho, rfl⟩ := List.mem_map.1 member
    exact hoffset o (by simpa using ho)

theorem optionalClause_located {α : Type} {part : α → Part} {word : Keyword} {clause : Parse (List α)}
    (h : Ends v tokens k clause fun j as => ∀ a ∈ as, (part a).Within v tokens k j) :
    Ends v tokens k (optionalClause word clause) fun j as => ∀ a ∈ as, (part a).Within v tokens k j :=
  (looks_sees _).bind fun _ => .ite (fun _ => h) fun _ => ends_pure (List.forall_mem_nil _)

/-! ### Bodies -/

variable (again : ∀ d, RereadsQuery v d query subquery)

include hq again

theorem optionalCondition_located (word : Keyword) (k : Nat) :
    Ends v tokens k (optionalCondition query word) fun j r => ∀ c ∈ r, (Part.constraint c).Within v tokens k j := by
  refine .eatIf (fun a ka => (condition_located hq again a).bind fun j c aj hc => ends_pure fun d hd => ?_)
    (ends_pure (by simp))
  obtain rfl := Option.some.inj hd
  exact hc.widen ka (Nat.le_refl j)

theorem selectQuery_located : Locates v tokens .select (selectQuery query) := by
  refine fun k => Ends.part (Nat.le_refl k) (.place ((selectClause_located k).bind fun a clause ka hclause => ?_)) fun _ _ => trivial
  refine (fromClause_located hq again a).bind fun b source ab hsource => ?_
  refine (optionalCondition_located hq again .whereKw b).bind fun c filter bc hfilter => ?_
  refine (optionalClause_located (groupByClause_located c)).bind fun d groupBy cd hgroupBy => ?_
  refine (optionalCondition_located hq again .havingKw d).bind fun j having dj hhaving => .spanFrom (ends_pure ⟨rfl, ?_⟩)
  intro p member
  simp only [Part.children, List.mem_append] at member
  rcases member with ((((h | h) | h) | h) | h) | h
  · obtain ⟨o, ho, rfl⟩ := List.mem_map.1 h
    exact (hclause o ho).widen (Nat.le_refl k) (by omega)
  · obtain ⟨item, hitem, rfl⟩ := List.mem_map.1 h
    exact (hsource item hitem).widen (by omega) (by omega)
  · obtain ⟨e, he, rfl⟩ := List.mem_map.1 h
    exact (hfilter e (by simpa using he)).widen (by omega) (by omega)
  · obtain ⟨o, ho, rfl⟩ := List.mem_map.1 h
    exact (hgroupBy o ho).widen (by omega) (by omega)
  · obtain ⟨e, he, rfl⟩ := List.mem_map.1 h
    exact (hhaving e (by simpa using he)).widen (by omega) (Nat.le_refl j)
  · cases h

omit hq again in
theorem combined_located (operators : List (Keyword × SetOperator)) {item : Parse QueryBody}
    (hitem : Locates v tokens QueryBody.part item) : Locates v tokens QueryBody.part (combined operators item) := by
  refine fun k => .place ((hitem k).bind fun a left ka hleft => .iterate hleft (fun j left aj h => ?_) ?_)
  · refine Ends.part? (Nat.le_trans ka aj) ?_ ?_
    · refine (rereads_eatSetOperator operators).moves.bind fun b found jb => ?_
      cases found with
      | none => exact ends_pure (by simp)
      | some op =>
        refine (moves_eat _).bind fun c all bc => (hitem c).bind fun l right cl hright => .spanFrom (ends_pure fun o made => ?_)
        obtain rfl := Option.some.inj made
        refine ⟨rfl, List.forall_mem_cons.2 ⟨?_, List.forall_mem_cons.2 ⟨?_, List.forall_mem_nil _⟩⟩⟩
        · exact h.widen (Nat.le_refl k) (by omega)
        · exact hright.widen (by omega) (Nat.le_refl l)
    · intro body ws
      cases body <;> exact trivial
  · exact fun j j' body jj' h => h.widen (Nat.le_refl k) jj'

omit hq again in
theorem finish_spans {orderBy : List OrderItem} {offset : Option Offset} {body : QueryBody}
    (h : body.part.Within v tokens i j) (tail : ∀ p ∈ tailParts orderBy offset, p.Within v tokens i j) :
    (finish orderBy offset (some (spanOf tokens i j)) body).part.Spans v tokens i j := by
  cases body with
  | select q =>
    refine ⟨rfl, fun p member => ?_⟩
    rcases List.mem_append.1 member with member | member
    · exact h.parts p (List.mem_append_left _ member)
    · exact tail p member
  | set o =>
    refine ⟨rfl, fun p member => ?_⟩
    rcases List.mem_append.1 member with member | member
    · exact h.parts p (List.mem_append_left _ member)
    · exact tail p member

theorem orderedBody_located : Locates v tokens QueryBody.part (orderedBody query) := by
  have single : Locates v tokens QueryBody.part (do return .select (← selectQuery query)) :=
    fun k => (selectQuery_located hq again k).bind fun j q kj h => ends_pure h
  have body : Locates v tokens QueryBody.part (queryBody query) := combined_located _ (combined_located _ single)
  refine fun k => Ends.part (Nat.le_refl k) (.place ((body k).bind fun a body ka hbody => ?_)) fun body ws => ?_
  · refine (optionalClause_located (orderByClause_located a)).bind fun b orderBy ab horder => ?_
    refine (offsetClause_located b).bind fun j offset bj hoffset => .spanFrom (ends_pure (finish_spans ?_ ?_))
    · exact hbody.widen (Nat.le_refl k) (Nat.le_trans ab bj)
    · exact tail_within (fun item hitem => (horder item hitem).widen ka bj)
        fun o ho => (hoffset o ho).widen (Nat.le_trans ka ab) (Nat.le_refl j)
  · cases body <;> exact trivial

end Queries

/-! ### Queries -/

theorem subqueryFor_located (n : Nat) : Locates v tokens .query (subqueryFor n) := by
  induction n with
  | zero => exact fun _ => ends_unexpected
  | succ n ih =>
    intro k
    have read : Ends v tokens k (do
        let start ← place
        let body ← orderedBody (subqueryFor n)
        return { withItems := [], body, span := ← spanFrom start }) fun j q => (Part.query q).Within v tokens k j := by
      refine Ends.part (Nat.le_refl k) (.place ?_) fun _ _ => trivial
      refine (orderedBody_located ih (fun d => rereads_subqueryAt n) k).bind fun j body kj hbody => ?_
      exact .spanFrom (ends_pure ⟨rfl, List.forall_mem_singleton.2 hbody⟩)
    exact read

theorem subquery_located : Locates v tokens .query subquery := fun k => .bounded fun n => subqueryFor_located n k

theorem moves_declaredColumns : Moves v withItem.declaredColumns := by
  refine fun _ _ => .eatIf (fun _ _ => ?_) (ends_pure trivial)
  refine (rereads_identifier.sepBy (by nofun)).moves.bind fun _ _ _ => ?_
  exact (moves_expect _).bind fun _ _ _ => ends_pure trivial

theorem withItem_located : Locates v tokens .withItem withItem := by
  refine fun k => Ends.part (Nat.le_refl k) (.place (rereads_identifier.moves.bind fun a name ka => ?_)) fun _ _ => trivial
  refine moves_declaredColumns.bind fun b columns ab => (moves_expect _).bind fun c _ bc => (moves_expect _).bind fun d _ cd => ?_
  refine (subquery_located d).bind fun e query de hquery => (moves_expect _).bind fun j _ ej => .spanFrom (ends_pure ?_)
  exact ⟨rfl, List.forall_mem_singleton.2 (hquery.widen (by omega) ej)⟩

theorem withClause_located (k : Nat) :
    Ends v tokens k withClause fun j items => ∀ item ∈ items, (Part.withItem item).Within v tokens k j := by
  refine .eatIf (fun a ka => ?_) (ends_pure (List.forall_mem_nil _))
  refine (Ends.sepBy withItem_located (fun l r h => h.widen l r) a).mono fun j items aj h item hitem => ?_
  exact (h item hitem).widen ka (Nat.le_refl j)

theorem query_located : Locates v tokens .query Grammar.query := by
  refine fun k => Ends.part (Nat.le_refl k) (.place ((withClause_located k).bind fun a items ka hitems => ?_)) fun _ _ => trivial
  refine (orderedBody_located subquery_located (fun d => rereads_subquery) a).bind fun j body aj hbody => ?_
  refine .spanFrom (ends_pure ⟨rfl, fun p member => ?_⟩)
  rcases List.mem_append.1 member with member | member
  · obtain ⟨item, hitem, rfl⟩ := List.mem_map.1 member
    exact (hitems item hitem).widen (Nat.le_refl k) aj
  · obtain rfl := List.mem_singleton.1 member
    exact hbody.widen ka (Nat.le_refl j)

end SkyQuery.Grammar
