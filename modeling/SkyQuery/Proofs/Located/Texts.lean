import SkyQuery.Proofs.Located.Queries
import SkyQuery.Proofs.RoundTrip.Texts

/-!
# Spans are exact

`readQuery_sliced`: every value and every condition of a query that is read, at any depth, has the span
of a piece of the text which alone is read as it again, and parts stand inside what they are parts of.
-/

namespace SkyQuery

open Grammar Parse

variable {v : Version} {text : String}

/-- Whether a span lies in another one. -/
def Span.Inside (s t : Span) : Prop := before s.first t.first = false ∧ before t.last s.last = false

namespace Grammar

variable {ws us : List Word} {P : Operand → Prop}

/-! ### Values as all of a select clause -/

theorem dottedOf_succ {n : Nat} {parts : List Identifier} {p q : Word} (other : isName v q = false)
    (h : dottedOf v n ws = (parts, p :: q :: us)) : dottedOf v (n + 1) ws = (parts, p :: q :: us) := by
  induction n generalizing ws parts with
  | zero =>
    cases h
    rw [dottedOf, other, Bool.and_false, if_neg Bool.false_ne_true]
  | succ n ih =>
    obtain _ | ⟨w, _ | ⟨u, ws⟩⟩ := ws
    · cases h
    · cases h
    · rw [dottedOf] at h ⊢
      by_cases go : (w.1 == .dot && isName v u) = true
      · rw [if_pos go] at h ⊢
        obtain ⟨rfl, more⟩ := Prod.mk.inj h
        have same : dottedOf v n ws = ((dottedOf v n ws).1, p :: q :: us) := Prod.ext rfl more
        rw [ih same]
      · rwa [if_neg go] at h ⊢

/-- A column that no operator follows is all of a value. -/
theorem value_of_column {s t : State} {o : Operand} (hs : s.Shows ws)
    (column : ∀ s : State, s.Shows ws → ∃ c u, columnRef v s = .ok (c, u) ∧ u.Shows us)
    (noCall : s.second.kind ≠ .leftParen) (ends : Kind.goesOn (nextKind us) = false)
    (h : Grammar.value v s = .ok (o, t)) : t.Shows us := by
  have name : isIdentifier v s.current = true := by
    obtain ⟨_, _, found, -⟩ := column s hs
    exact (columnRef_ok found).1
  have other {k : Kind} (noName : k ≠ .ident) (noQuoted : k ≠ .quotedIdent) : s.current.kind ≠ k := by
    rcases kind_of_isIdentifier name with kind | kind <;> rw [kind]
    · exact noName.symm
    · exact noQuoted.symm
  obtain ⟨o', r, signed, alone⟩ := signed_of_value h
  rcases signed_cases signed with minus | plus | ⟨expected, first⟩
  · exact absurd minus (other (by intro same; cases same) (by intro same; cases same))
  · exact absurd plus (other (by intro same; cases same) (by intro same; cases same))
  obtain ⟨c, u, hc, hu⟩ := column { s with expected } hs
  rw [primary_column (s := { s with expected }) name noCall, hc] at first
  cases first
  obtain ⟨_, rfl⟩ := alone (hu.kind ▸ ends)
  exact hu

theorem columnRef_shows {s : State} {w : Word} {parts : List Identifier} (hs : s.Shows (w :: ws)) (name : isName v w = true)
    (hparts : dottedOf v 3 ws = (parts, us)) (column : (ColumnRef.ofParts? (Identifier.ofText w.2 :: parts)).isSome = true) :
    ∃ c t, columnRef v s = .ok (c, t) ∧ t.Shows us := by
  obtain ⟨t, ts, ht, -, takes⟩ := dotted_shows 3 hs name
  obtain ⟨ref, href⟩ := Option.isSome_iff_exists.1 column
  rw [hparts] at ht takes
  rw [columnRef, place_bind, bind_eq ht, href]
  exact ⟨_, _, rfl, takes.shows⟩

/-- A table of which all columns are named starts like a column. -/
theorem dotted_of_tableStar? {w : Word} {found : TableName × List Word} (h : tableStar? v (w :: ws) = some found) :
    isName v w = true ∧ nextKind ws = .dot ∧ ∃ parts p q us, dottedOf v 3 ws = (parts, p :: q :: us) ∧ p.1 = .dot ∧
      (ColumnRef.ofParts? (Identifier.ofText w.2 :: parts)).isSome = true := by
  rw [tableStar?_cons] at h
  split at h
  case isFalse => cases h
  rename_i named
  obtain ⟨name, dot⟩ := Bool.and_eq_true_iff.1 named
  split at h
  case h_2 => cases h
  rename_i parts p q us hparts
  split at h
  case isFalse => cases h
  rename_i both
  obtain ⟨point, star⟩ := Bool.and_eq_true_iff.1 both
  have noName : isName v q = false := by rw [isName, isIdentifier, show q.1 = .star from eq_of_beq star]
  refine ⟨name, eq_of_beq dot, parts, p, q, us, dottedOf_succ noName hparts, eq_of_beq point, ?_⟩
  obtain ⟨table, htable, -⟩ := Option.map_eq_some_iff.1 h
  obtain _ | ⟨_, _ | ⟨_, _ | _⟩⟩ := parts
  · rfl
  · rfl
  · rfl
  · cases htable

/-- Words of which all are read as a value do not name all columns of a table. -/
theorem noTableStar_of_value (h : Reads v Grammar.value ws [] P) : Reads v eatTableStar [] ws (· = none) := by
  intro s hs
  have hs : s.Shows ws := hs
  obtain ⟨t, ts, ht, -, takes⟩ := eatTableStar_shows (v := v) hs
  cases star : tableStar? v ws with
  | none =>
    rw [star] at ht takes
    exact ⟨none, t, ht, takes.shows, rfl⟩
  | some found =>
    cases ws with
    | nil => cases star
    | cons w ws =>
      obtain ⟨name, dot, parts, p, q, us, hparts, point, column⟩ := dotted_of_tableStar? star
      obtain ⟨o, t', ho, ended, -⟩ := h s (by rwa [List.append_nil])
      have noCall : s.second.kind ≠ .leftParen := by
        rw [hs.secondKind, dot]
        intro same
        cases same
      have left : t'.Shows (p :: q :: us) :=
        value_of_column hs (fun s hs => columnRef_shows hs name hparts column) noCall (by rw [nextKind_cons, point]; rfl) ho
      cases left.unique ended

/-- An item that is all that follows `SELECT` is the one item of the clause, if it starts with no word for
the clause itself. -/
theorem selectClause_of_item {P : SelectItem → Prop} (h : Reads v selectItem ws [] P)
    (plain : ∀ k : Keyword, k.isFunction = false → nextKind ws ≠ .keyword k) :
    Reads v selectClause (keywordWord .selectKw :: ws) [] fun c =>
      ∃ item span, P item ∧ c = { distinct := false, top := none, items := [item], span } := by
  have items : Reads v (commaSeparated selectItem) ws [] fun items => ∃ item, P item ∧ items = [item] := by
    have alone : Reads v (followers .comma selectItem) [] [] (· = []) := .bounded (.eatElse (by nofun) (reads_pure rfl))
    refine h.close fun item hitem => alone.close fun others hothers => reads_pure ?_
    exact ⟨item, hitem, by rw [hothers]⟩
  have notWord {k : Keyword} (word : k.isFunction = false) : nextKind (ws ++ []) ≠ .keyword k := by
    rw [List.append_nil]
    exact plain k word
  have all : Reads v distinctness [] (ws ++ []) (· = false) := quantifier_reads false (notWord rfl) (notWord rfl)
  have unbounded : Reads v topClause (topWords none) (ws ++ []) (· = none) :=
    topClause_reads (by intro _ bound; cases bound) (notWord rfl)
  refine .place fun start => .expect fun _ _ => all.andThen fun distinct hdistinct => ?_
  refine unbounded.andThen fun top htop => items.close fun found ⟨item, hitem, hfound⟩ => ?_
  refine .spanFrom fun span => reads_pure ?_
  exact ⟨item, span, hitem, by rw [hdistinct, htop, hfound]⟩

/-- A value that is all that follows `SELECT` is the one item of the clause. -/
theorem selectClause_of_value (h : Reads v Grammar.value ws [] P) :
    Reads v selectClause (keywordWord .selectKw :: ws) [] fun c =>
      ∃ o span, P o ∧ c = { distinct := false, top := none, items := [.expr o none], span } := by
  intro s hs
  have opens : (nextKind ws).opensValue = true ∨ nextKind ws = .plus := by
    have shows : s.advance.Shows ws := by
      rw [List.append_nil] at hs
      exact hs.advance
    obtain ⟨o, t, ho, -⟩ := h s.advance (by rwa [List.append_nil])
    rw [← shows.kind]
    exact value_opens ho
  have other {k : Kind} (closed : k.opensValue = false) (notPlus : k ≠ .plus) : nextKind ws ≠ k := by
    rintro rfl
    rcases opens with opens | plus
    · rw [closed] at opens
      cases opens
    · exact notPlus plus
  have item : Reads v selectItem ws [] fun item => ∃ o, P o ∧ item = .expr o none := by
    have star : Reads v eatTableStar [] (ws ++ []) (· = none) := by
      rw [List.append_nil]
      exact noTableStar_of_value h
    refine .place fun start => .eatElse ?_ (star.andThen fun found hfound => ?_)
    · rw [List.append_nil]
      exact other rfl (by intro same; cases same)
    subst hfound
    have unnamed : Reads v optionalAlias (aliasWords none) [] (· = none) :=
      optionalAlias_reads (by intro _ named; cases named) (Nat.zero_le _)
    refine h.close fun o ho => unnamed.close fun label hlabel => reads_pure ?_
    exact ⟨o, ho, by rw [hlabel]⟩
  have plain (k : Keyword) (word : k.isFunction = false) : nextKind ws ≠ .keyword k :=
    other word (by intro same; cases same)
  obtain ⟨c, t, hc, left, _, span, ⟨o, ho, rfl⟩, rfl⟩ := selectClause_of_item item plain s hs
  exact ⟨_, t, hc, left, o, span, ho, rfl⟩

/-! ### Pieces of a text -/

theorem Cut.ended_by {p : Place} {cs : List Char} {tokens : List Token} (h : Cut v p cs tokens) :
    tokens.map Token.word = wordsBefore tokens ++ [endWord] := by
  have last : ∃ others p', tokens = others ++ [.atEnd p'] := by
    induction h with
    | ended p => exact ⟨[], p, rfl⟩
    | trivia _ _ ih => exact ih
    | token _ _ _ ih =>
      obtain ⟨others, p', rfl⟩ := ih
      exact ⟨_ :: others, p', rfl⟩
  obtain ⟨others, p', rfl⟩ := last
  rw [wordsBefore, List.dropLast_concat, List.map_append]
  rfl

/-- All words of a text are those of its tokens. -/
theorem scan_of_cut {p : Place} {cs : List Char} {tokens : List Token} (h : Cut v p cs tokens) : scan v cs = some (wordsBefore tokens) := by
  induction h with
  | ended p => exact scan_nil
  | @trivia p c rest ts seen next ih => rw [scan_cons, if_pos seen, ih]
  | @token p c rest ts seen sound next ih =>
    rw [scan_cons, seen, sound, ih]
    cases ts with
    | nil => simpa using next.ended_by
    | cons t ts => rfl

/-- A text is read from its first token on. -/
theorem State.ofTokens_at {tokens : List Token} (h : tokens.map Token.word = wordsBefore tokens ++ [endWord]) :
    (State.ofTokens tokens).At tokens 0 := by
  have shows := State.ofTokens_shows h
  cases tokens with
  | nil => cases h
  | cons t rest => exact ⟨shows, rfl, rfl⟩

/-- What holds of all that a reader reads holds of what a whole text is read as. -/
theorem readWhole_ends {α : Type} {p : Parse α} {a : α} {Q : List Token → Nat → α → Prop}
    (ends : ∀ tokens, Ends v tokens 0 p (Q tokens)) (h : readWhole p v text = .ok a) :
    ∃ tokens j, Cut v .origin text.toList tokens ∧ Q tokens j a := by
  obtain ⟨tokens, t, htokens, hread⟩ := readWhole_ok_iff.1 h
  have cut := cut_of_tokensFor htokens
  have all : Ends v tokens 0 (whole p) fun _ a => ∃ j, Q tokens j a := by
    refine (ends tokens).bind fun j a _ ha => (moves_eat _).bind fun b _ _ => .ite (fun _ => ?_) fun _ => ?_
    · exact (moves_expect _).bind fun _ _ _ => ends_pure ⟨j, ha⟩
    · exact (looks_sees _).bind fun _ => .ite (fun _ => ends_pure ⟨j, ha⟩) fun _ => ends_unexpected
  obtain ⟨-, -, -, j, found⟩ := all _ a t (State.ofTokens_at cut.ended_by) hread
  exact ⟨tokens, j, cut, found⟩

/-- What a whole text is read as stands in it. -/
theorem readWhole_within {α : Type} {part : α → Part} {p : Parse α} {a : α}
    (located : ∀ tokens, Locates v tokens part p) (h : readWhole p v text = .ok a) :
    ∃ tokens j, Cut v .origin text.toList tokens ∧ (part a).Within v tokens 0 j :=
  readWhole_ends (Q := fun tokens j a => (part a).Within v tokens 0 j) (fun tokens => located tokens 0) h

section Slices

variable {tokens : List Token} {i j a b : Nat}

/-- Spans of ranges of tokens lie in each other as the ranges do. -/
theorem Cut.inside {p : Place} {cs : List Char} (h : Cut v p cs tokens) (left : i ≤ a) (right : b ≤ j)
    (ha : a < tokens.length) (hj : j < tokens.length) : (spanOf tokens a b).Inside (spanOf tokens i j) := by
  refine ⟨Bool.eq_false_iff.2 fun before => ?_, Bool.eq_false_iff.2 fun before => ?_⟩
  · exact h.startOf_mono left ha (Span.before_iff.1 before)
  · exact h.stopBefore_mono right hj (Span.before_iff.1 before)

theorem lt_length_of_words {n : Nat} (inside : n ≤ (wordsBefore tokens).length)
    (ended : tokens.map Token.word = wordsBefore tokens ++ [endWord]) : n < tokens.length := by
  have length := congrArg List.length ended
  rw [List.length_map, List.length_append, List.length_singleton] at length
  omega

/-- The piece of a text that a range of its tokens spans is read after a word that opens it. -/
theorem readWhole_slice {α : Type} {p : Parse α} {first : Word} {start : String} {P : α → Prop}
    (cut : Cut v .origin text.toList tokens) (ab : a < b) (hb : b < tokens.length) (opens : Opens v start [first])
    (read : Reads v p (first :: piece tokens a b) [] P) :
    ∃ r, readWhole p v (start ++ (spanOf tokens a b).slice text) = .ok r ∧ P r := by
  refine readWhole_of_scan ?_ read
  rw [String.toList_append, opens, slice_of_cut cut ab hb]
  rfl

end Slices

end Grammar

/-! ### Places -/

/-- The part and all parts below it know where they stand. -/
def Part.Placed (p : Part) : Prop := ∀ c ∈ p.all, c.span.isSome = true

theorem Part.placed_iff {p : Part} : p.Placed ↔ p.span.isSome = true ∧ ∀ c ∈ p.children, c.Placed :=
  forall_mem_descent

theorem Part.Placed.all {p : Part} (h : p.Placed) : ∀ c ∈ p.all, c.Placed :=
  forall_descent_of_children (fun _ h => (placed_iff.1 h).2) p h

def Query.Placed (q : Query) : Prop := (Part.query q).Placed

/-- What is below a part that stands between two tokens stands between them, too. -/
theorem Part.Within.all {p : Part} {tokens : List Token} {i j : Nat} (h : p.Within v tokens i j) :
    ∀ c ∈ p.all, c.Within v tokens i j :=
  forall_descent_of_children (fun _ h => h.parts) p h

theorem Part.Within.placed {p : Part} {tokens : List Token} {i j : Nat} (h : p.Within v tokens i j) : p.Placed := by
  intro c member
  obtain ⟨-, -, -, -, span, -, -⟩ := h.all c member
  rw [span]
  rfl

theorem readQuery_placed {q : Query} (h : readQuery v text = .ok q) : q.Placed := by
  obtain ⟨_, _, -, within⟩ := readWhole_within (fun _ => query_located) h
  exact within.placed

/-! ### Queries -/

/-- The spans of a query in a text are those of the pieces of the text that say its parts. -/
structure Query.Sliced (v : Version) (text : String) (q : Query) : Prop where
  /-- The piece that a value spans is read after `SELECT` as this one value, without a name. -/
  operands : ∀ o, .operand o ∈ (Part.query q).all → ∃ s c, o.span = some s ∧
    readSelect v ("SELECT " ++ s.slice text) = .ok c ∧
    c.unplaced = { distinct := false, top := none, items := [.expr o.unplaced none], span := none }
  /-- The piece that a condition spans is read after `WHERE` as this condition. -/
  constraints : ∀ c, .constraint c ∈ (Part.query q).all → ∃ s d, c.span = some s ∧
    readWhere v ("WHERE " ++ s.slice text) = .ok d ∧ d.unplaced = c.unplaced
  /-- Parts stand inside what they are parts of. -/
  nested : ∀ p ∈ (Part.query q).all, ∀ c ∈ p.children,
    ∃ s t, p.span = some s ∧ c.span = some t ∧ t.Inside s

/-- The spans of every query that is read are exact, at every depth. -/
theorem readQuery_sliced {q : Query} (h : readQuery v text = .ok q) : q.Sliced v text := by
  obtain ⟨tokens, j, cut, within⟩ := readWhole_within (fun _ => query_located) h
  have bound {n : Nat} (inside : n ≤ (wordsBefore tokens).length) : n < tokens.length :=
    lt_length_of_words inside cut.ended_by
  refine ⟨fun o member => ?_, fun c member => ?_, fun p member c hc => ?_⟩
  · obtain @⟨_, _, a, b, _, _, _, _, inside, span, ⟨some, read⟩, _⟩ := within.all _ member
    have select : Opens v "SELECT " [keywordWord .selectKw] := (opens_keyword (k := .selectKw) rfl).as rfl
    obtain ⟨c, hc, o', place, same, rfl⟩ :=
      readWhole_slice cut (lt_of_piece_ne_nil some) (bound inside) select (selectClause_of_value read)
    refine ⟨_, _, span, hc, ?_⟩
    simp only [SelectClause.unplaced, List.map_cons, List.map_nil, SelectItem.unplaced, same]
  · obtain @⟨_, _, a, b, _, _, _, _, inside, span, ⟨some, read⟩, _⟩ := within.all _ member
    have word : Opens v "WHERE " [keywordWord .whereKw] := (opens_keyword (k := .whereKw) rfl).as rfl
    have clause : Reads v whereClause (keywordWord .whereKw :: piece tokens a b) [] (·.unplaced = c.unplaced) :=
      .expect fun _ _ => read
    obtain ⟨d, hd, same⟩ := readWhole_slice cut (lt_of_piece_ne_nil some) (bound inside) word clause
    exact ⟨_, d, span, hd, same⟩
  · obtain @⟨_, _, a, b, _, _, _, _, inside, span, _, children⟩ := within.all p member
    obtain ⟨left, order, right, inside', span', -, -⟩ := children c hc
    exact ⟨_, _, span, span', cut.inside left right (bound (Nat.le_trans order inside')) (bound inside)⟩

theorem readQuery_sliced_subquery :
    let text := "SELECT +a || 'x' -- é\n 'é' FROM t\nWHERE NOT (b IN (SELECT - -c * 2 FROM u) OR (d) < 1)"
    ∃ q, readQuery .v21 text = .ok q ∧ q.Sliced .v21 text := by
  intro text
  obtain ⟨q, read⟩ := exists_ok_of_isSome (r := readQuery .v21 text) (by decide +kernel)
  exact ⟨q, read, readQuery_sliced read⟩

end SkyQuery
