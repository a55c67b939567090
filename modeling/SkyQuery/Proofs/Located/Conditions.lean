import SkyQuery.Proofs.Located.Values

/-!
# Where conditions stand

`condition_located`: a condition that is read stands, with all that is in it, where it was read, and the
words there are read as it, if this holds of the queries in it.
-/

namespace SkyQuery.Grammar

open Parse

variable {v : Version} {tokens : List Token} {i j k : Nat} {query : Parse Query}

/-- Begun at the token `i`, the reader reads a condition with its span from there. -/
abbrev EndsCondition (v : Version) (tokens : List Token) (i k : Nat) (p : Parse Constraint) : Prop :=
  Ends v tokens k p fun j c => (Part.constraint c).Spans v tokens i j

theorem condition_spans {c : Constraint} (here : c.span = some (spanOf tokens i j))
    (operands : ∀ o ∈ c.operands, (Part.operand o).Within v tokens i j)
    (conditions : ∀ d ∈ c.children, (Part.constraint d).Within v tokens i j)
    (queries : ∀ q ∈ c.subqueries, (Part.query q).Within v tokens i j) : (Part.constraint c).Spans v tokens i j := by
  refine ⟨here, fun p member => ?_⟩
  simp only [Part.children, List.mem_append] at member
  rcases member with (member | member) | member
  · obtain ⟨o, ho, rfl⟩ := List.mem_map.1 member
    exact operands o ho
  · obtain ⟨d, hd, rfl⟩ := List.mem_map.1 member
    exact conditions d hd
  · obtain ⟨q, hq, rfl⟩ := List.mem_map.1 member
    exact queries q hq

/-- What the words of a range are read as stands there, if its span and its parts do. -/
theorem condition_within {c : Constraint} (here : (Part.constraint c).Spans v tokens i j)
    (inside : j ≤ (wordsBefore tokens).length) (some : piece tokens i j ≠ [])
    (read : Reads v (condition subquery) (piece tokens i j) [] (·.unplaced = c.unplaced)) :
    (Part.constraint c).Within v tokens i j :=
  here.within (Nat.le_of_lt (lt_of_piece_ne_nil some)) inside ⟨some, read⟩

/-- What the reader of a condition of expressions only ends with. -/
theorem ends_plain {make : Option Span → Constraint} {os : List Operand} (here : ∀ span, (make span).span = span)
    (operands : ∀ span, (make span).operands = os) (conditions : ∀ span, (make span).children = [])
    (queries : ∀ span, (make span).subqueries = []) (hos : ∀ o ∈ os, (Part.operand o).Within v tokens i k) :
    EndsCondition v tokens i k (do return make (← spanFrom (startOf tokens i))) := by
  refine .spanFrom (ends_pure (condition_spans (here _) ?_ ?_ ?_))
  · rwa [operands]
  · rw [conditions]
    exact List.forall_mem_nil _
  · rw [queries]
    exact List.forall_mem_nil _

/-- What connects two conditions. -/
theorem pair_spans {c left right : Constraint} (here : c.span = some (spanOf tokens i j)) (plain : c.operands = [])
    (both : c.children = [left, right]) (alone : c.subqueries = []) (hleft : (Part.constraint left).Within v tokens i j)
    (hright : (Part.constraint right).Within v tokens i j) : (Part.constraint c).Spans v tokens i j := by
  refine condition_spans here ?_ ?_ ?_
  · rw [plain]
    exact List.forall_mem_nil _
  · rw [both]
    exact List.forall_mem_cons.2 ⟨hleft, List.forall_mem_singleton.2 hright⟩
  · rw [alone]
    exact List.forall_mem_nil _

/-! ### Predicates -/

section Tails

variable {left : Operand} (hleft : (Part.operand left).Within v tokens i k) (ik : i ≤ k)

include hleft

theorem nullTail_located : EndsCondition v tokens i k (nullTail left (startOf tokens i)) := by
  refine (moves_eat _).bind fun a negated ka => (moves_expect _).bind fun j _ aj => .ite (fun _ => ?_) fun _ => ends_failAt
  refine ends_plain (fun _ => rfl) (fun _ => rfl) (fun _ => rfl) (fun _ => rfl) (List.forall_mem_singleton.2 ?_)
  exact hleft.widen (Nat.le_refl i) (Nat.le_trans ka aj)

include ik

theorem comparisonTail_located (op : ComparisonOp) :
    EndsCondition v tokens i k (comparisonTail left op (startOf tokens i)) := by
  refine (value_located k).bind fun j right kj hright => .ite (fun _ => ?_) fun _ => ends_failAt
  refine ends_plain (fun _ => rfl) (fun _ => rfl) (fun _ => rfl) (fun _ => rfl) ?_
  exact List.forall_mem_cons.2 ⟨hleft.widen (Nat.le_refl i) kj, List.forall_mem_singleton.2 (hright.widen ik (Nat.le_refl j))⟩

theorem betweenTail_located (negated : Bool) :
    EndsCondition v tokens i k (betweenTail left negated (startOf tokens i)) := by
  refine (value_located k).bind fun a low ka hlow => (moves_expect _).bind fun b _ ab => ?_
  refine (value_located b).bind fun j high bj hhigh => ?_
  refine ends_plain (fun _ => rfl) (fun _ => rfl) (fun _ => rfl) (fun _ => rfl) ?_
  refine List.forall_mem_cons.2 ⟨hleft.widen (Nat.le_refl i) (by omega), List.forall_mem_cons.2 ⟨?_, ?_⟩⟩
  · exact hlow.widen ik (Nat.le_trans ab bj)
  · exact List.forall_mem_singleton.2 (hhigh.widen (by omega) (Nat.le_refl j))

theorem patternTail_located (op : ComparisonOp) :
    EndsCondition v tokens i k (patternTail left op (startOf tokens i)) := by
  refine (value_located k).bind fun a pattern ka hpattern => (looks_checkString left).moves.bind fun b _ ab => ?_
  refine (looks_checkString pattern).moves.bind fun j _ bj => ?_
  refine ends_plain (fun _ => rfl) (fun _ => rfl) (fun _ => rfl) (fun _ => rfl) ?_
  refine List.forall_mem_cons.2 ⟨hleft.widen (Nat.le_refl i) (by omega), List.forall_mem_singleton.2 ?_⟩
  exact hpattern.widen ik (Nat.le_trans ab bj)

theorem memberTail_located (hq : Locates v tokens .query query) (negated : Bool) :
    EndsCondition v tokens i k (memberTail query left negated (startOf tokens i)) := by
  refine (moves_expect _).bind fun a _ ka => (looks_sees _).bind fun _ => .ite (fun _ => ?_) fun _ => ?_
  · refine (hq a).bind fun b source ab hsource => (moves_expect _).bind fun j _ bj => ?_
    refine .spanFrom (ends_pure (condition_spans rfl ?_ (List.forall_mem_nil _) ?_))
    · exact List.forall_mem_singleton.2 (hleft.widen (Nat.le_refl i) (by omega))
    · exact List.forall_mem_singleton.2 (hsource.widen (Nat.le_trans ik ka) bj)
  · refine (Ends.sepBy value_located (fun l r h => h.widen l r) a).bind fun b values ab hvalues => ?_
    refine (moves_expect _).bind fun j _ bj => ?_
    refine ends_plain (fun _ => rfl) (fun _ => rfl) (fun _ => rfl) (fun _ => rfl) ?_
    refine List.forall_mem_cons.2 ⟨hleft.widen (Nat.le_refl i) (by omega), fun o ho => ?_⟩
    exact (hvalues o ho).widen (Nat.le_trans ik ka) bj

end Tails

theorem predicate_located (hq : Locates v tokens .query query) (k : Nat) :
    EndsCondition v tokens k k (predicate query) := by
  refine .place ((value_located k).bind fun a tested ka h => ?_)
  refine (rereads_eatOperator comparisons_inside).moves.bind fun b found ab => ?_
  have kb : k ≤ b := Nat.le_trans ka ab
  have h {l : Nat} (bl : b ≤ l) : (Part.operand tested).Within v tokens k l := h.widen (Nat.le_refl k) (by omega)
  cases found with
  | some op => exact comparisonTail_located (h (Nat.le_refl b)) kb op
  | none =>
    refine .eatIf (fun j bj => nullTail_located (h bj)) ((moves_eat _).bind fun c negated bc => ?_)
    refine .eatIf (fun j cj => betweenTail_located (h (by omega)) (by omega) negated) ?_
    refine .eatIf (fun j cj => patternTail_located (h (by omega)) (by omega) _) ?_
    refine .eatIf (fun j cj => patternTail_located (h (by omega)) (by omega) _) ?_
    exact .eatIf (fun j cj => memberTail_located (h (by omega)) (by omega) hq negated) ends_unexpected

/-! ### Groups -/

variable {nested : Parse Constraint}

theorem grouped_located (hc : Locates v tokens .constraint nested) (k : Nat) :
    EndsCondition v tokens k k (grouped nested) := by
  refine .place ((moves_expect _).bind fun a _ ka => (hc a).bind fun b inner ab hinner => ?_)
  refine (moves_expect _).bind fun j _ bj => .spanFrom (ends_pure ?_)
  refine condition_spans rfl (List.forall_mem_nil _) (List.forall_mem_singleton.2 ?_) (List.forall_mem_nil _)
  exact hinner.widen ka bj

theorem existsTail_located (hq : Locates v tokens .query query) (ik : i ≤ k) :
    EndsCondition v tokens i k (existsTail query (startOf tokens i)) := by
  refine (moves_expect _).bind fun a _ ka => (hq a).bind fun b source ab hsource => ?_
  refine (moves_expect _).bind fun j _ bj => .spanFrom (ends_pure ?_)
  refine condition_spans rfl (List.forall_mem_nil _) (List.forall_mem_nil _) (List.forall_mem_singleton.2 ?_)
  exact hsource.widen (Nat.le_trans ik ka) bj

/-! ### Conditions at the end of a text -/

/-- The reader of negations with groups in them nested at most `n` deep, and at most `m` times `NOT`. -/
abbrev negationsFor (query : Parse Query) (n m : Nat) : Parse Constraint := negationFor query (conditionFor query n) m

section Ended

variable {ws : List Word} {P : Constraint → Prop}

theorem connected_of_item {word : Keyword} {connect : Constraint → Constraint → Option Span → Constraint}
    {item : Parse Constraint} (h : Reads v item ws [] P) : Reads v (connected word connect item) ws [] P :=
  .place fun start => (Grows.base h).done fun left _ => connectedRound_ended start left

theorem condition_of_disjunction (h : Reads v
    (connected .orKw .or (connected .andKw .and (negation query (conditionFor query ws.length)))) ws [] P) :
    Reads v (condition query) ws [] P := by
  refine .bounded ?_
  rw [List.append_nil]
  exact h

theorem condition_of_negation (h : Reads v (negationsFor query ws.length (ws.length + 1)) ws [] P) :
    Reads v (condition query) ws [] P := by
  refine condition_of_disjunction (connected_of_item (connected_of_item (.bounded ?_)))
  rw [List.append_nil]
  exact h

end Ended

theorem rereads_negationsFor (hq : ∀ d, RereadsQuery v d query subquery) (n m d l : Nat) :
    RereadsCondition false v (min (d + 1) l) (negationsFor query n m) (negationsFor subquery d l) := by
  have nested : RereadsCondition false v (min d d) (conditionFor query n) (conditionFor subquery d) :=
    rereads_conditionFor (hq d) n d
  rw [Nat.min_self] at nested
  exact rereads_negationFor (hq (d + 1)) nested (Nat.le_refl _) (conditionFor_fails d) m l

/-! ### Conditions -/

theorem connected_located {word : Keyword} {connect : Constraint → Constraint → Option Span → Constraint}
    (unplaced : ∀ left right span, (connect left right span).unplaced = connect left.unplaced right.unplaced none)
    (spans : ∀ {i j left right}, (Part.constraint left).Within v tokens i j → (Part.constraint right).Within v tokens i j →
      (Part.constraint (connect left right (some (spanOf tokens i j)))).Spans v tokens i j)
    {item : Parse Constraint} {item' : Nat → Parse Constraint} (hitem : Locates v tokens .constraint item)
    (again : ∀ d, RereadsCondition false v (d + 1) item (item' d))
    (close : ∀ {ws : List Word} {P : Constraint → Prop}, Reads v (connected word connect (item' ws.length)) ws [] P →
      Reads v (condition subquery) ws [] P) : Locates v tokens .constraint (connected word connect item) := by
  intro k
  refine Ends.loop (connected.round word connect item) (fun d => connected.round word connect (item' d))
    (fun j c => (Part.constraint c).Spans v tokens k j) again
    (fun d _ _ _ _ same => rereads_connectedRound (by nofun) unplaced (again d) same)
    (fun _ start left => connectedRound_ended start left) (hitem k) (fun j left kj hleft => ?_)
    (fun j c here inside some read => condition_within here inside some (close (.place read)))
    fun j j' c jj' h => h.widen (Nat.le_refl k) jj'
  refine (moves_eat _).bind fun a _ ja => .ite (fun _ => ?_) fun _ => ends_pure (by simp)
  refine (hitem a).bind fun l right al hright => .spanFrom (ends_pure fun c made => ?_)
  obtain rfl := Option.some.inj made
  exact spans (hleft.widen (Nat.le_refl k) (Nat.le_trans ja al)) (hright.widen (Nat.le_trans kj ja) (Nat.le_refl l))

variable (hq : Locates v tokens .query query) (again : ∀ d, RereadsQuery v d query subquery)

include hq again

theorem negationsFor_located {n : Nat} (hc : Locates v tokens .constraint (conditionFor query n)) (m : Nat) :
    Locates v tokens .constraint (negationsFor query n m) := by
  induction m with
  | zero => exact fun _ => ends_unexpected
  | succ m ih =>
    intro k
    have read : EndsCondition v tokens k k (negationsFor query n (m + 1)) := by
      refine .place (.eatIf (fun a ka => ?_) (.eatIf (fun a ka => existsTail_located hq ka) ?_))
      · refine (ih a).bind fun j inner aj hinner => .spanFrom (ends_pure ?_)
        refine condition_spans rfl (List.forall_mem_nil _) (List.forall_mem_singleton.2 ?_) (List.forall_mem_nil _)
        exact hinner.widen ka (Nat.le_refl j)
      · refine looks_current.bind fun _ => looks_second.bind fun _ => ?_
        exact .ite (fun _ => (grouped_located hc k).either (predicate_located hq k)) fun _ => predicate_located hq k
    have again (d : Nat) : RereadsCondition false v (d + 1) (negationsFor query n (m + 1)) (negationsFor subquery d (d + 1)) := by
      have negations := rereads_negationsFor again n (m + 1) d (d + 1)
      rwa [Nat.min_self] at negations
    refine (read.again again).mono fun j c _ h => ?_
    obtain ⟨here, inside, some, read⟩ := h
    exact condition_within here inside some (condition_of_negation read)

theorem conditionFor_located (n : Nat) : Locates v tokens .constraint (conditionFor query n) := by
  induction n with
  | zero => exact fun _ => ends_unexpected
  | succ n ih =>
    have negations : Locates v tokens .constraint (negation query (conditionFor query n)) :=
      fun k => .bounded fun m => negationsFor_located hq again ih m k
    have again (d : Nat) : RereadsCondition false v (d + 1) (negation query (conditionFor query n))
        (negation subquery (conditionFor subquery d)) := .bounded fun m l => rereads_negationsFor again n m d l
    have conjunctions : Locates v tokens .constraint (connected .andKw .and (negation query (conditionFor query n))) :=
      connected_located (fun _ _ _ => by rw [Constraint.unplaced]) (pair_spans rfl rfl rfl rfl) negations again
        fun h => condition_of_disjunction (connected_of_item h)
    have againBoth (d : Nat) : RereadsCondition false v (d + 1) (connected .andKw .and (negation query (conditionFor query n)))
        (connected .andKw .and (negation subquery (conditionFor subquery d))) :=
      rereads_connected (by nofun) (fun _ _ _ => by rw [Constraint.unplaced]) (again d)
    exact connected_located (fun _ _ _ => by rw [Constraint.unplaced]) (pair_spans rfl rfl rfl rfl) conjunctions
      againBoth condition_of_disjunction

theorem condition_located : Locates v tokens .constraint (condition query) :=
  fun k => .bounded fun n => conditionFor_located hq again n k

end SkyQuery.Grammar
