import SkyQuery.Proofs.Located.Texts
import SkyQuery.Proofs.Token.Lines

/-!
# Clauses make up a query

A clause that is a text of its own is read again where another clause follows it. `readQuery_of_clauses`:
clauses on lines of their own are read as the query that has these clauses.
-/

namespace SkyQuery

open Grammar Parse

variable {v : Version}

namespace Grammar

variable {α β γ δ : Type} {p : Parse α} {view : α → γ} {word : Keyword} {a : α} {ws rest : List Word}

/-! ### Clauses and what follows them -/

/-- After the clause with the word `word` a query ends or goes on with another clause. -/
def Follower (word : Keyword) (rest : List Word) : Prop :=
  Stops true (nextKind rest) ∧ nextKind rest ≠ .keyword word

/-- From the words `ws` the reader `p` reads the clause `a`, of which the first word is `word`, whatever
clause follows it. -/
structure Clause (v : Version) (word : Keyword) (p : Parse α) (view : α → γ) (a : α) (ws : List Word) : Prop where
  starts : ∀ w ∈ ws.head?, w.1 = .keyword word
  reads : ∀ rest, Follower word rest → Reads v p ws rest (view · = view a)

/-- One clause more, or none, stands after the clause with the word `k`. -/
theorem Clause.follower {k : Keyword} (h : Clause v word p view a ws) (stops : Stops true (.keyword word))
    (other : word ≠ k) (hrest : Follower k rest) : Follower k (ws ++ rest) := by
  cases ws with
  | nil => exact hrest
  | cons w ws =>
    rw [Follower, List.cons_append, nextKind_cons, h.starts w rfl]
    exact ⟨stops, fun same => other (Kind.keyword.inj same)⟩

theorem follows_of_stops (stops : Stops true (nextKind rest)) : Follows true [] rest := by
  cases rest with
  | nil => exact .ended
  | cons w rest => exact .clause stops

/-- The words of a text that ends with the clause that it is. -/
structure ClauseText (v : Version) (word : Keyword) (p : Parse α) (view : α → γ) (a : α) (text : String) (w : Word)
    (ws : List Word) : Prop where
  cut : scan v text.toList = some (w :: ws)
  here : w.1 = .keyword word
  reads : ∀ rest, Stops true (nextKind rest) → Reads v p (w :: ws) rest (view · = view a)

theorem ClauseText.clause {text : String} {w : Word} (h : ClauseText v word p view a text w ws) :
    Clause v word p view a (w :: ws) :=
  ⟨by rintro _ ⟨⟩; exact h.here, fun rest follower => h.reads rest follower.1⟩

/-- What is read to the end of a text is read again where another clause follows. -/
theorem clause_of_text {text : String} (rereads : ∀ d, Rereads true v [] d (fun _ => True) p p view)
    (opens : ∀ s a t, p v s = .ok (a, t) → s.current.kind = .keyword word) (h : readWhole p v text = .ok a)
    (other : endsInSemicolon text = false) : ∃ w ws, ClauseText v word p view a text w ws := by
  obtain ⟨tokens, t, htokens, hread⟩ := readWhole_ok_iff.1 h
  have cut := cut_of_tokensFor htokens
  have words := scan_of_cut cut
  have shows := State.ofTokens_shows cut.ended_by
  obtain ⟨r, hp, ended⟩ := whole_ok hread
  obtain ⟨ws, us, whole, takes, took, -⟩ := rereads 0 _ _ a r shows hp
  have whole : wordsBefore tokens = ws ++ us := whole
  have left : r.Shows us := takes.shows
  have last := last_ne_semicolon words other
  rw [whole] at words last shows
  obtain rfl := nil_of_closed words last left ended
  obtain ⟨w, ws, rfl⟩ := List.exists_cons_of_ne_nil (took trivial)
  rw [List.append_nil] at words
  refine ⟨w, ws, words, shows.kind.symm.trans (opens _ _ _ hp), fun rest stops => ?_⟩
  exact (rereads (w :: ws ++ rest).length.succ).reads shows left hp (follows_of_stops stops) (Nat.lt_succ_self _)

/-! ### Clauses that may be missing -/

/-- From the words of the lines `p` reads the clause `a`, which may be missing. -/
structure ClauseLines (v : Version) (word : Keyword) (p : Parse α) (view : α → γ) (a : α) (lines : List String)
    (words : List (List Word)) : Prop where
  cut : List.Forall₂ (fun line ws => scan v line.toList = some ws) lines words
  clause : Clause v word p view a words.flatten

/-- A reader `q` for a clause that may be missing reads it from its text, if there is one. -/
theorem clause_of_option (make : Option α → β) {q : Parse β} {look : β → δ} {text : Option String} {found : Option α}
    (rereads : ∀ d, Rereads true v [] d (fun _ => True) p p view)
    (opens : ∀ s a t, p v s = .ok (a, t) → s.current.kind = .keyword word)
    (absent : ∀ rest, nextKind rest ≠ .keyword word → Reads v q [] rest (look · = look (make none)))
    (present : ∀ a w ws rest, w.1 = .keyword word → Reads v p (w :: ws) rest (view · = view a) →
      Reads v q (w :: ws) rest (look · = look (make (some a))))
    (h : text.mapM (readWhole p v) = .ok found) (other : ∀ line ∈ text, endsInSemicolon line = false) :
    ∃ words, ClauseLines v word q look (make found) text.toList words := by
  cases text with
  | none =>
    cases h
    exact ⟨[], .nil, by nofun, fun rest follower => absent rest follower.2⟩
  | some line =>
    obtain ⟨a, hread, rfl⟩ : ∃ a, readWhole p v line = .ok a ∧ found = some a := by
      cases hread : readWhole p v line with
      | error e =>
        rw [Option.mapM_some, hread] at h
        cases h
      | ok a =>
        rw [Option.mapM_some, hread] at h
        cases h
        exact ⟨a, rfl, rfl⟩
    obtain ⟨w, ws, clause⟩ := clause_of_text rereads opens hread (other line rfl)
    have all : [w :: ws].flatten = w :: ws := List.flatten_singleton
    refine ⟨[w :: ws], .cons clause.cut .nil, clause.clause.starts, fun rest follower => ?_⟩
    rw [all]
    exact present a w ws rest clause.here (clause.reads rest follower.1)

/-! ### The clauses of a query -/

section Query

/-- A condition after a word is one that is looked for. -/
theorem optionalCondition_of_whereClause {P : Constraint → Prop} (h : Reads v whereClause ws rest P) :
    Reads v (optionalCondition subquery .whereKw) ws rest fun found => ∃ c, found = some c ∧ P c := by
  intro s hs
  obtain ⟨c, t, hc, ht, hP⟩ := h s hs
  obtain ⟨here, hc⟩ := expect_ok hc
  refine ⟨some c, t, ?_, ht, c, rfl, hP⟩
  rw [optionalCondition, bind_eq (eat_hit here), if_pos rfl, bind_eq hc]
  rfl

theorem selectClause_opens {s t : State} {c : SelectClause} (h : selectClause v s = .ok (c, t)) :
    s.current.kind = .keyword .selectKw := by
  unfold selectClause at h
  rw [place_bind] at h
  exact (expect_ok h).1

theorem rereads_whereClause {d : Nat} :
    Rereads true v [] d (fun _ => True) whereClause whereClause Constraint.unplaced :=
  .expect (by nofun) (fun _ _ _ _ => (rereads_condition rereads_subquery).any) (Nat.le_succ d)

theorem filter_of_text {text : Option String} {filter : Option Constraint} (h : text.mapM (readWhere v) = .ok filter)
    (other : ∀ line ∈ text, endsInSemicolon line = false) :
    ∃ words, ClauseLines v .whereKw (optionalCondition subquery .whereKw) Constraint.eachUnplaced filter text.toList
      words := by
  refine clause_of_option id (fun _ => rereads_whereClause) (fun _ _ _ h => (expect_ok h).1)
    (fun rest different => .eatElse different (reads_pure rfl)) (fun c w ws rest _ h => ?_) h other
  refine (optionalCondition_of_whereClause h).mono fun found hfound => ?_
  obtain ⟨c', rfl, same⟩ := hfound
  exact congrArg some same

/-- A list clause that may be missing, in which case it is empty. -/
theorem list_of_text {clause : Parse (List α)} {look : α → γ} {text : Option String} {found : Option (List α)}
    (rereads : ∀ d, Rereads true v [] d (fun _ => True) clause clause (List.map look))
    (opens : ∀ s as t, clause v s = .ok (as, t) → s.current.kind = .keyword word)
    (h : text.mapM (readWhole clause v) = .ok found) (other : ∀ line ∈ text, endsInSemicolon line = false) :
    ∃ words, ClauseLines v word (optionalClause word clause) (List.map look) (found.getD []) text.toList words := by
  refine clause_of_option (·.getD []) rereads opens (fun rest different => ?_)
    (fun as w ws rest here h => ?_) h other
  · exact .sees (.iteFalse (mt beq_iff_eq.1 different) (reads_pure rfl))
  · exact .sees (.iteTrue (beq_iff_eq.2 here) h)

/-! ### Queries -/

theorem combined_alone {operators : List (Keyword × SetOperator)} {item : Parse QueryBody} {P : QueryBody → Prop}
    (h : Reads v item ws rest P) (other : ∀ entry ∈ operators, nextKind rest ≠ .keyword entry.1) :
    Reads v (combined operators item) ws rest P := by
  refine .place fun start => (Grows.base h).done fun left _ => (noSetOperator_reads other).andThen fun found hfound => ?_
  subst hfound
  exact reads_pure rfl

/-- The words of the clauses of a query without `HAVING` and `OFFSET`. -/
structure ClausesOf (v : Version) (q : SelectQuery) (ss fs ws gs os : List Word) : Prop where
  select : Clause v .selectKw selectClause SelectClause.unplaced q.clause ss
  source : Clause v .fromKw (fromClause subquery) (List.map FromItem.unplaced) q.source fs
  filter : Clause v .whereKw (optionalCondition subquery .whereKw) Constraint.eachUnplaced q.filter ws
  groupBy : Clause v .groupKw (optionalClause .groupKw groupByClause) (List.map Operand.unplaced) q.groupBy gs
  orderBy : Clause v .orderKw (optionalClause .orderKw orderByClause) (List.map OrderItem.unplaced) q.orderBy os
  having : q.having = none
  offset : q.offset = none

variable {q : SelectQuery} {ss fs gs os : List Word}

/-- Where an order or the end of a query follows, no other clause does. -/
theorem follower_of_last (last : nextKind rest = .keyword .orderKw ∨ nextKind rest = .endOfText)
    (other : word ≠ .orderKw) : Follower word rest := by
  rcases last with order | ended
  · rw [Follower, order]
    exact ⟨.order, fun same => other (Kind.keyword.inj same).symm⟩
  · rw [Follower, ended]
    exact ⟨.text, by nofun⟩

theorem ClausesOf.selectQuery_reads (h : ClausesOf v q ss fs ws gs os)
    (last : nextKind rest = .keyword .orderKw ∨ nextKind rest = .endOfText) :
    Reads v (selectQuery subquery) (ss ++ (fs ++ (ws ++ gs))) rest
      (·.unplaced = SelectQuery.unplaced { q with orderBy := [] }) := by
  have afterFilter (k : Keyword) (other : k ≠ .orderKw) (noGroup : .groupKw ≠ k) : Follower k (gs ++ rest) :=
    h.groupBy.follower .group noGroup (follower_of_last last other)
  have afterSource (k : Keyword) (other : k ≠ .orderKw) (noGroup : .groupKw ≠ k) (noFilter : .whereKw ≠ k) :
      Follower k (ws ++ gs ++ rest) := by
    rw [List.append_assoc]
    exact h.filter.follower .filter noFilter (afterFilter k other noGroup)
  have afterSelect : Follower .selectKw (fs ++ (ws ++ gs) ++ rest) := by
    rw [List.append_assoc]
    exact h.source.follower .source (by decide) (afterSource .selectKw (by decide) (by decide) (by decide))
  have noHaving : Reads v (optionalCondition subquery .havingKw) [] rest (· = none) :=
    .eatElse (follower_of_last last (by decide)).2 (reads_pure rfl)
  obtain ⟨clause, source, filter, groupBy, having, orderBy, offset, span⟩ := q
  obtain rfl : having = none := h.having
  obtain rfl : offset = none := h.offset
  refine .place fun start => (h.select.reads _ afterSelect).bind fun c hc => ?_
  refine (h.source.reads _ (afterSource .fromKw (by decide) (by decide) (by decide))).bind fun items hitems => ?_
  refine (h.filter.reads _ (afterFilter .whereKw (by decide) (by decide))).bind fun f hf => ?_
  refine (h.groupBy.reads _ (follower_of_last last (by decide))).close fun g hg => noHaving.close fun k hk => ?_
  subst hk
  refine .spanFrom fun _ => reads_pure ?_
  simp only [SelectQuery.unplaced, FromItem.allUnplaced_eq_map, hc, hitems, hf, hg, List.map_nil, Option.map_none]

theorem ClausesOf.queryBody_reads (h : ClausesOf v q ss fs ws gs os)
    (last : nextKind rest = .keyword .orderKw ∨ nextKind rest = .endOfText) :
    Reads v (queryBody subquery) (ss ++ (fs ++ (ws ++ gs))) rest
      (·.unplaced = QueryBody.unplaced (.select { q with orderBy := [] })) := by
  have single : Reads v (do return QueryBody.select (← selectQuery subquery)) (ss ++ (fs ++ (ws ++ gs))) rest
      (·.unplaced = QueryBody.unplaced (.select { q with orderBy := [] })) :=
    (h.selectQuery_reads last).close fun q' same => reads_pure (congrArg QueryBody.select same)
  have other {k : Keyword} (other : k ≠ .orderKw) : nextKind rest ≠ .keyword k := (follower_of_last last other).2
  refine combined_alone (combined_alone single ?_) ?_
  · exact List.forall_mem_singleton.2 (other (by decide))
  · exact List.forall_mem_cons.2 ⟨other (by decide), List.forall_mem_singleton.2 (other (by decide))⟩

theorem ClausesOf.orderedBody_reads (h : ClausesOf v q ss fs ws gs os) :
    Reads v (orderedBody subquery) (ss ++ (fs ++ (ws ++ gs)) ++ os) [] (·.unplaced = QueryBody.unplaced (.select q)) := by
  have last : nextKind (os ++ []) = .keyword .orderKw ∨ nextKind (os ++ []) = .endOfText := by
    cases os with
    | nil => exact .inr rfl
    | cons w os => exact .inl (h.orderBy.starts w rfl)
  have order := h.orderBy.reads [] ⟨.text, by nofun⟩
  have noOffset : Reads v offsetClause [] [] (· = none) := .place fun _ => .eatElse (by nofun) (reads_pure rfl)
  refine .place fun start => (h.queryBody_reads last).bind fun b hb => order.close fun items hitems => ?_
  refine noOffset.close fun o ho => .spanFrom fun span => reads_pure ?_
  have finished : (finish items o span b).unplaced =
      (finish q.orderBy none none (.select { q with orderBy := [] })).unplaced :=
    finish_unplaced hb hitems (by rw [ho])
  obtain ⟨clause, source, filter, groupBy, having, orderBy, offset, span⟩ := q
  obtain rfl : offset = none := h.offset
  rw [finished]
  simp only [finish, QueryBody.unplaced, SelectQuery.unplaced]

/-- The words of the clauses of a query, one clause after the other, are those of the query. -/
theorem ClausesOf.query_reads (h : ClausesOf v q ss fs ws gs os) (some : ss ≠ []) :
    Reads v Grammar.query (ss ++ (fs ++ (ws ++ gs)) ++ os) [] (·.unplaced = Query.unplaced ⟨[], .select q, none⟩) := by
  have noWith : Reads v withClause [] (ss ++ (fs ++ (ws ++ gs)) ++ os ++ []) (· = []) := by
    refine .eatElse ?_ (reads_pure rfl)
    obtain ⟨w, ss, rfl⟩ := List.exists_cons_of_ne_nil some
    change w.1 ≠ _
    rw [h.select.starts w rfl]
    nofun
  refine .place fun start => noWith.andThen fun items hitems => h.orderedBody_reads.close fun b hb => ?_
  refine .spanFrom fun _ => reads_pure ?_
  simp only [Query.unplaced, WithItem.allUnplaced, hitems, hb]

end Query

end Grammar

/-! ### Texts -/

/-- The texts of the clauses of a query, of which the last three may be missing. -/
structure ClauseTexts where
  select : String
  source : String
  filter : Option String
  groupBy : Option String
  orderBy : Option String

/-- The texts that are there, in their order. -/
def ClauseTexts.lines (t : ClauseTexts) : List String :=
  [t.select, t.source] ++ t.filter.toList ++ t.groupBy.toList ++ t.orderBy.toList

/-- The texts of clauses that each are read on their own, on lines of their own, are read as the query that has
these clauses, and no others. -/
theorem readQuery_of_clauses {texts : ClauseTexts} {clause : SelectClause} {source : List FromItem}
    {filter : Option Constraint} {groupBy : Option (List Operand)} {orderBy : Option (List OrderItem)}
    (hselect : readSelect v texts.select = .ok clause) (hsource : readFrom v texts.source = .ok source)
    (hfilter : texts.filter.mapM (readWhere v) = .ok filter) (hgroupBy : texts.groupBy.mapM (readGroupBy v) = .ok groupBy)
    (horderBy : texts.orderBy.mapM (readOrderBy v) = .ok orderBy)
    (noSemicolon : ∀ line ∈ texts.lines, endsInSemicolon line = false) :
    ∃ q, readQuery v (joinWith "\n" texts.lines) = .ok q ∧
      q.unplaced =
        Query.unplaced
          { withItems := []
            body := .select
              { clause, source, filter, groupBy := groupBy.getD [], having := none, orderBy := orderBy.getD []
                offset := none, span := none }
            span := none } := by
  simp only [ClauseTexts.lines, List.forall_mem_append, Option.mem_toList, List.forall_mem_cons] at noSemicolon
  obtain ⟨⟨⟨⟨selectOpen, sourceOpen, -⟩, filterOpen⟩, groupOpen⟩, orderOpen⟩ := noSemicolon
  obtain ⟨w, ss, select⟩ := clause_of_text (fun _ => rereads_selectClause) (fun _ _ _ => selectClause_opens) hselect
    selectOpen
  obtain ⟨u, fs, from'⟩ := clause_of_text (fun _ => rereads_fromClause rereads_subquery)
    (fun _ _ _ h => (expect_ok h).1) hsource sourceOpen
  obtain ⟨ws, filter⟩ := filter_of_text hfilter filterOpen
  obtain ⟨gs, group⟩ := list_of_text (fun _ => rereads_groupByClause) (fun _ _ _ h => (expect_ok h).1) hgroupBy groupOpen
  obtain ⟨os, order⟩ := list_of_text (fun _ => rereads_orderByClause) (fun _ _ _ h => (expect_ok h).1) horderBy orderOpen
  have first : List.Forall₂ (fun line ws => scan v line.toList = some ws) [texts.select, texts.source]
      [w :: ss, u :: fs] := .cons select.cut (.cons from'.cut .nil)
  have cut := scan_lines (List.rel_append (List.rel_append (List.rel_append first filter.cut) group.cut) order.cut)
  have clauses : ClausesOf v ⟨clause, source, _, groupBy.getD [], none, orderBy.getD [], none, none⟩ (w :: ss) (u :: fs)
      ws.flatten gs.flatten os.flatten :=
    ⟨select.clause, from'.clause, filter.clause, group.clause, order.clause, rfl, rfl⟩
  refine readWhole_of_scan cut ?_
  have read := clauses.query_reads (List.cons_ne_nil w ss)
  simpa using read

/-- A comment ends with its line, and an alias is not taken from the clause that follows. -/
theorem readQuery_of_clauses_commented :
    let texts : ClauseTexts :=
      { select := "select a, count(*) n -- counted", source := "from t x join (select 1 a from u) y on x.a > y.a"
        filter := some "where (a + 1) * 2 > 3 -- ;", groupBy := some "group by a", orderBy := none }
    ∃ clause source filter groupBy q, readSelect .v21 texts.select = .ok clause ∧ readFrom .v21 texts.source = .ok source ∧
      texts.filter.mapM (readWhere .v21) = .ok filter ∧ texts.groupBy.mapM (readGroupBy .v21) = .ok groupBy ∧
      readQuery .v21 (joinWith "\n" texts.lines) = .ok q ∧
      q.unplaced =
        Query.unplaced
          { withItems := []
            body := .select
              { clause, source, filter, groupBy := groupBy.getD [], having := none, orderBy := [], offset := none
                span := none }
            span := none } := by
  intro texts
  obtain ⟨clause, hselect⟩ := exists_ok_of_isSome (r := readSelect .v21 texts.select) (by decide +kernel)
  obtain ⟨source, hsource⟩ := exists_ok_of_isSome (r := readFrom .v21 texts.source) (by decide +kernel)
  obtain ⟨filter, hfilter⟩ := exists_ok_of_isSome (r := texts.filter.mapM (readWhere .v21)) (by decide +kernel)
  obtain ⟨groupBy, hgroupBy⟩ := exists_ok_of_isSome (r := texts.groupBy.mapM (readGroupBy .v21)) (by decide +kernel)
  have horderBy : texts.orderBy.mapM (readOrderBy .v21) = .ok none := rfl
  obtain ⟨q, hq, same⟩ := readQuery_of_clauses hselect hsource hfilter hgroupBy horderBy (by decide +kernel)
  exact ⟨clause, source, filter, groupBy, q, hselect, hsource, hfilter, hgroupBy, hq, same⟩

end SkyQuery
