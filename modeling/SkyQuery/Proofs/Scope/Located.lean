import SkyQuery.Proofs.Check.Complete
import SkyQuery.Proofs.Located.Mentions
import SkyQuery.Proofs.Scope.Complete

/-!
# Where faults of names are

`Query.resolve_located`: a fault of a name in a query that was read has the span of the piece of the text
that mentions the name, and faults are in the order of the text. Only a column that a join shares has no
place, and its faults come last.
-/

namespace SkyQuery

open Grammar

/-! ### The parts that mention names -/

/-- The reference is made by a part that has `H`; only columns that a join shares are in no part. -/
def Occurrence.In (H : Part → Prop) (o : Occurrence) : Prop :=
  match o.reference with
  | .table name => ∃ label, H (.fromItem (.table name label o.span))
  | .column ref => H (.operand (.column ref o.span))
  | .allOf table => ∃ q, H (.select q) ∧ .allOf table o.span ∈ q.clause.items
  | .shared _ => o.span = none

theorem Constraint.ownOperands_eq (c : Constraint) : c.ownOperands = c.operands ++ c.children.flatMap ownOperands := by
  cases c <;> simp [ownOperands, operands, children]

theorem Constraint.queries_eq (c : Constraint) : c.queries = c.subqueries ++ c.children.flatMap queries := by
  cases c <;> simp [queries, subqueries, children]

theorem Constraint.byParts {P : Constraint → Prop} (step : ∀ c, (∀ d ∈ c.children, P d) → P c) (c : Constraint) : P c :=
  step c fun d _ => Constraint.byParts step d
termination_by c
decreasing_by
  have := Constraint.sizeOf_lt_of_mem_parts (p := .constraint d) (c := c) (by simp_all [Part.children])
  simp at this
  omega

section Inherited

variable {H : Part → Prop} (inherited : ∀ p, H p → ∀ c ∈ p.children, H c)

include inherited

theorem Operand.nodes_inherit (o : Operand) (h : H (.operand o)) : ∀ n ∈ o.nodes, H (.operand n) := by
  induction o using byParts with
  | step o ih =>
    rw [nodes_eq, List.forall_mem_cons]
    refine ⟨h, fun n member => ?_⟩
    obtain ⟨c, hc, found⟩ := List.mem_flatMap.1 member
    exact ih c hc (inherited _ h _ (List.mem_map_of_mem hc)) n found

theorem Constraint.parts_inherit {c : Constraint} (h : H (.constraint c)) :
    (∀ o ∈ c.operands, H (.operand o)) ∧ (∀ d ∈ c.children, H (.constraint d)) ∧ ∀ q ∈ c.subqueries, H (.query q) := by
  have parts := inherited _ h
  simp only [Part.children, List.forall_mem_append, List.forall_mem_map] at parts
  exact ⟨parts.1.1, parts.1.2, parts.2⟩

theorem Constraint.ownOperands_inherit (c : Constraint) (h : H (.constraint c)) :
    ∀ o ∈ c.ownOperands, H (.operand o) := by
  induction c using byParts with
  | step c ih =>
    obtain ⟨operands, conditions, -⟩ := parts_inherit inherited h
    rw [ownOperands_eq, List.forall_mem_append]
    refine ⟨operands, fun o member => ?_⟩
    obtain ⟨d, hd, found⟩ := List.mem_flatMap.1 member
    exact ih d hd (conditions d hd) o found

theorem Constraint.queries_inherit (c : Constraint) (h : H (.constraint c)) : ∀ q ∈ c.queries, H (.query q) := by
  induction c using byParts with
  | step c ih =>
    obtain ⟨-, conditions, queries⟩ := parts_inherit inherited h
    rw [queries_eq, List.forall_mem_append]
    refine ⟨queries, fun q member => ?_⟩
    obtain ⟨d, hd, found⟩ := List.mem_flatMap.1 member
    exact ih d hd (conditions d hd) q found

theorem FromItem.leaves_inherit : (item : FromItem) → H (.fromItem item) →
    (∀ leaf ∈ item.leaves, H (.fromItem leaf)) ∧ ∀ c ∈ item.conditions, H (.constraint c)
  | .table .., h => ⟨List.forall_mem_singleton.2 h, List.forall_mem_nil _⟩
  | .subquery .., h => ⟨List.forall_mem_singleton.2 h, List.forall_mem_nil _⟩
  | .join left _ _ right _ _, h => by
    have parts := inherited _ h
    simp only [Part.children, List.forall_mem_append, List.forall_mem_cons, List.forall_mem_map] at parts
    obtain ⟨leaves, conditions⟩ := leaves_inherit left parts.1.1
    obtain ⟨leaves', conditions'⟩ := leaves_inherit right parts.1.2.1
    simp only [FromItem.leaves, FromItem.conditions, List.forall_mem_append]
    exact ⟨⟨leaves, leaves'⟩, ⟨conditions, conditions'⟩, parts.2⟩

theorem QueryBody.selects_inherit : (b : QueryBody) → H b.part →
    (∀ q ∈ b.selects, H (.select q)) ∧ ∀ o ∈ b.operations, H (.set o)
  | .select q, h => ⟨List.forall_mem_singleton.2 h, List.forall_mem_nil _⟩
  | .set ⟨left, op, all, right, orderBy, offset, span⟩, h => by
    have parts := inherited _ h
    simp only [part, Part.children, List.forall_mem_append, List.forall_mem_cons] at parts
    obtain ⟨selects, operations⟩ := selects_inherit left parts.1.1
    obtain ⟨selects', operations'⟩ := selects_inherit right parts.1.2.1
    simp only [QueryBody.selects, QueryBody.operations, List.forall_mem_append, List.forall_mem_cons]
    exact ⟨⟨selects, selects'⟩, h, operations, operations'⟩

theorem SelectQuery.parts_inherit {q : SelectQuery} (h : H (.select q)) :
    (∀ leaf ∈ q.leaves, H (.fromItem leaf)) ∧ (∀ c ∈ q.conditions, H (.constraint c)) ∧
      (∀ o ∈ q.clause.items.flatMap SelectItem.ownOperands, H (.operand o)) ∧
      ∀ o ∈ q.groupBy ++ q.orderBy.map OrderItem.expr, H (.operand o) := by
  have parts := inherited _ h
  simp only [Part.children, tailParts, List.forall_mem_append, List.forall_mem_map] at parts
  obtain ⟨⟨⟨⟨⟨items, source⟩, filter⟩, groupBy⟩, having⟩, orderBy, -⟩ := parts
  refine ⟨?_, ?_, ?_, ?_⟩
  · intro leaf member
    obtain ⟨item, hitem, found⟩ := List.mem_flatMap.1 member
    exact (FromItem.leaves_inherit inherited item (source item hitem)).1 leaf found
  · simp only [conditions, List.forall_mem_append]
    refine ⟨⟨fun c member => ?_, filter⟩, having⟩
    obtain ⟨item, hitem, found⟩ := List.mem_flatMap.1 member
    exact (FromItem.leaves_inherit inherited item (source item hitem)).2 c found
  · intro o member
    obtain ⟨item, hitem, found⟩ := List.mem_flatMap.1 member
    refine items o (List.mem_filterMap.2 ⟨item, hitem, ?_⟩)
    cases item with
    | expr operand label =>
      obtain rfl := List.mem_singleton.1 found
      rfl
    | _ => cases found
  · rw [List.forall_mem_append, List.forall_mem_map]
    exact ⟨groupBy, orderBy⟩

theorem Occurrence.columns_in {c : Context} {os : List Operand} (h : ∀ o ∈ os, H (.operand o)) :
    ∀ o ∈ columns c os, o.In H := by
  intro o member
  obtain ⟨n, hn, found⟩ := List.mem_filterMap.1 member
  obtain ⟨ref, href, rfl⟩ := Option.map_eq_some_iff.1 found
  rw [Operand.allNodes_eq_flatMap] at hn
  obtain ⟨root, hroot, hn⟩ := List.mem_flatMap.1 hn
  have here := Operand.nodes_inherit inherited root (h root hroot) n hn
  cases n <;> cases href
  exact here

variable {tables : List Table} {named : List Relation} {outer : List Scope}

theorem SelectQuery.occurrences_in {q : SelectQuery} (h : H (.select q)) :
    ∀ o ∈ q.occurrences tables named outer, o.In H := by
  obtain ⟨leaves, conditions, items, ordering⟩ := parts_inherit inherited h
  simp only [occurrences, List.forall_mem_append]
  refine ⟨⟨⟨⟨?_, ?_⟩, ?_⟩, ?_⟩, Occurrence.columns_in inherited ordering⟩
  · intro o member
    obtain ⟨leaf, hleaf, found⟩ := List.mem_filterMap.1 member
    cases leaf with
    | table name label span =>
      cases found
      exact ⟨label, leaves _ hleaf⟩
    | _ => cases found
  · rw [List.forall_mem_map]
    exact fun _ _ => rfl
  · intro o member
    obtain ⟨item, hitem, found⟩ := List.mem_filterMap.1 member
    cases item with
    | allOf table span =>
      cases found
      exact ⟨q, h, hitem⟩
    | _ => cases found
  · refine Occurrence.columns_in inherited (List.forall_mem_append.2 ⟨fun o member => ?_, items⟩)
    obtain ⟨c, hc, found⟩ := List.mem_flatMap.1 member
    exact Constraint.ownOperands_inherit inherited c (conditions c hc) o found

theorem SetOperation.occurrences_in {o : SetOperation} (h : H (.set o)) : ∀ r ∈ o.occurrences tables named, r.In H := by
  have parts := inherited _ h
  simp only [Part.children, tailParts, List.forall_mem_append, List.forall_mem_map] at parts
  exact Occurrence.columns_in inherited (List.forall_mem_map.2 parts.2.1)

theorem SelectQuery.sites_inherit {q : SelectQuery} (h : H (.select q)) :
    ∀ s ∈ q.sites tables named outer, H (.query s.query) := by
  obtain ⟨leaves, conditions, -⟩ := parts_inherit inherited h
  simp only [sites, List.forall_mem_append, List.forall_mem_map]
  constructor
  · intro query member
    obtain ⟨leaf, hleaf, found⟩ := List.mem_filterMap.1 member
    cases leaf with
    | subquery q label span =>
      cases found
      exact inherited _ (leaves _ hleaf) _ (List.mem_singleton_self _)
    | _ => cases found
  · intro query member
    obtain ⟨c, hc, found⟩ := List.mem_flatMap.1 member
    exact Constraint.queries_inherit inherited c (conditions c hc) query found

theorem WithItem.sites_inherit {items : List WithItem} (h : ∀ item ∈ items, H (.withItem item)) :
    ∀ {named}, ∀ s ∈ WithItem.sites tables outer named items, H (.query s.query) := by
  induction items with
  | nil => exact fun _ member => nomatch member
  | cons item rest ih =>
    obtain ⟨here, others⟩ := List.forall_mem_cons.1 h
    obtain ⟨name, columns, query, span⟩ := item
    intro named
    rw [sites, List.forall_mem_cons]
    exact ⟨inherited _ here _ (List.mem_singleton_self _), ih others⟩

theorem Site.children_inherit {s : Site} (h : H (.query s.query)) : ∀ c ∈ s.children tables, H (.query c.query) := by
  have parts := inherited _ h
  simp only [Part.children, List.forall_mem_append, List.forall_mem_map, List.forall_mem_singleton] at parts
  rw [children, List.forall_mem_append]
  refine ⟨WithItem.sites_inherit inherited parts.1, fun c member => ?_⟩
  obtain ⟨q, hq, found⟩ := List.mem_flatMap.1 member
  exact SelectQuery.sites_inherit inherited ((QueryBody.selects_inherit inherited _ parts.2).1 q hq) c found

theorem Site.occurrences_in {s : Site} (h : H (.query s.query)) : ∀ o ∈ s.occurrences tables, o.In H := by
  have body : H s.query.body.part := inherited _ h _ (List.mem_append_right _ (List.mem_singleton_self _))
  obtain ⟨selects, operations⟩ := QueryBody.selects_inherit inherited _ body
  rw [occurrences, List.forall_mem_append]
  constructor
  · intro o member
    obtain ⟨q, hq, found⟩ := List.mem_flatMap.1 member
    exact SelectQuery.occurrences_in inherited (selects q hq) o found
  · intro o member
    obtain ⟨operation, hop, found⟩ := List.mem_flatMap.1 member
    exact SetOperation.occurrences_in inherited (operations operation hop) o found

/-- What all parts of a query inherit from it holds of the parts that make its references. -/
theorem Query.occurrences_in {q : Query} (h : H (.query q)) : ∀ o ∈ q.occurrences tables, o.In H := by
  have sites : ∀ s ∈ Site.all tables ⟨[], [], q⟩, H (.query s.query) :=
    forall_descent_of_children (fun _ found => Site.children_inherit inherited found) _ h
  intro o member
  obtain ⟨s, hs, found⟩ := List.mem_flatMap.1 member
  exact Site.occurrences_in inherited (sites s hs) o found

end Inherited

/-! ### Mentions in a text -/

/-- What is read from the piece alone, after the word that opens its clause, is the mention of the name. -/
def Reference.ReadFrom (v : Version) (piece : String) : Reference → Prop
  | .table name => ∃ label place, readFrom v ("FROM " ++ piece) = .ok [.table name label place]
  | .column ref => ∃ place span, readSelect v ("SELECT " ++ piece) =
      .ok { distinct := false, top := none, items := [.expr (.column ref place) none], span }
  | .allOf name => ∃ place span, readSelect v ("SELECT " ++ piece) =
      .ok { distinct := false, top := none, items := [.allOf name place], span }
  | .shared _ => False

/-- The place is that of a piece of the text that mentions the name; only a column that a join shares has
no place. -/
def Reference.Placed (v : Version) (text : String) (r : Reference) : Option Span → Prop
  | some s => ∃ piece, s.Covers text piece ∧ r.ReadFrom v piece
  | none => ∃ column, r = .shared column

section Texts

variable {v : Version} {text : String} {tokens : List Token} {span : Option Span}

theorem Reference.placed_of_range {r : Reference} {a b : Nat} (cut : Cut v .origin text.toList tokens) (ab : a < b)
    (inside : b ≤ (wordsBefore tokens).length)
    (read : b < tokens.length → r.ReadFrom v ((spanOf tokens a b).slice text)) :
    r.Placed v text (some (spanOf tokens a b)) := by
  have bound : b < tokens.length := lt_length_of_words inside cut.ended_by
  exact ⟨_, cut.covers ab bound, read bound⟩

theorem FromItem.Mentions.placed {name : TableName} {label : Option Identifier} (cut : Cut v .origin text.toList tokens)
    (h : (FromItem.table name label span).Mentions v tokens) : (Reference.table name).Placed v text span := by
  obtain ⟨a, b, ab, inside, rfl, read⟩ := h
  refine Reference.placed_of_range cut ab inside fun bound => ?_
  have word : Opens v "FROM " [keywordWord .fromKw] := (opens_keyword (k := .fromKw) rfl).as rfl
  obtain ⟨_, items, place, rfl⟩ := readWhole_slice cut ab bound word (fromClause_of_table read)
  exact ⟨label, place, items⟩

theorem SelectItem.Mentions.placed {table : TableName} (cut : Cut v .origin text.toList tokens)
    (h : (SelectItem.allOf table span).Mentions v tokens) : (Reference.allOf table).Placed v text span := by
  obtain ⟨a, b, ab, inside, rfl, read⟩ := h
  refine Reference.placed_of_range cut ab inside fun bound => ?_
  have word : Opens v "SELECT " [keywordWord .selectKw] := (opens_keyword (k := .selectKw) rfl).as rfl
  obtain ⟨_, clause, place, all, rfl⟩ := readWhole_slice cut ab bound word (selectClause_of_allOf read)
  exact ⟨place, all, clause⟩

theorem Part.Within.column_placed {ref : ColumnRef} {i j : Nat} (cut : Cut v .origin text.toList tokens)
    (h : (Part.operand (.column ref span)).Within v tokens i j) : (Reference.column ref).Placed v text span := by
  obtain ⟨-, -, -, inside, here, ⟨some, read⟩, -⟩ := h
  obtain rfl : span = _ := here
  refine Reference.placed_of_range cut (lt_of_piece_ne_nil some) inside fun bound => ?_
  have word : Opens v "SELECT " [keywordWord .selectKw] := (opens_keyword (k := .selectKw) rfl).as rfl
  obtain ⟨_, clause, o, all, same, rfl⟩ :=
    readWhole_slice cut (lt_of_piece_ne_nil some) bound word (selectClause_of_value read)
  have same : o.asColumn? = Option.some ref := by
    rw [← o.asColumn?_unplaced, same]
    rfl
  cases o <;> cases same
  exact ⟨_, all, clause⟩

/-- The references of a query that is read have the places of their mentions. -/
theorem Query.occurrences_placed (tables : List Table) {q : Query} (h : readQuery v text = .ok q) :
    ∀ o ∈ q.occurrences tables, o.reference.Placed v text o.span := by
  obtain ⟨tokens, j, cut, within⟩ := readWhole_within (fun _ => query_located) h
  obtain ⟨tokens', -, cut', mentions⟩ := readWhole_ends (Q := fun tokens _ q => (Part.query q).AllMentions v tokens)
    (fun _ => query_mentions 0) h
  have inherited : ∀ p : Part, ((∃ i j, p.Within v tokens i j) ∧ p.AllMentions v tokens') →
      ∀ c ∈ p.children, (∃ i j, c.Within v tokens i j) ∧ c.AllMentions v tokens' := by
    rintro p ⟨⟨i, j, hp⟩, all⟩ c hc
    exact ⟨⟨i, j, hp.parts c hc⟩, (Part.allMentions_iff.1 all).2 c hc⟩
  intro o member
  have part := Query.occurrences_in inherited ⟨⟨0, j, within⟩, mentions⟩ o member
  obtain ⟨reference, span, context⟩ := o
  cases reference with
  | table name =>
    obtain ⟨label, -, all⟩ := part
    exact FromItem.Mentions.placed cut' (Part.allMentions_iff.1 all).1
  | column ref =>
    obtain ⟨⟨_, _, found⟩, -⟩ := part
    exact found.column_placed cut
  | allOf table =>
    obtain ⟨clause, ⟨-, all⟩, item⟩ := part
    exact ((Part.allMentions_iff.1 all).1 _ item).placed cut'
  | shared column =>
    obtain rfl : span = none := part
    exact ⟨column, rfl⟩

end Texts

/-! ### Reports -/

theorem Context.Refuses.span_eq {tables : List Table} {c : Context} {span : Option Span} {r : Reference}
    {d : Diagnostic} (h : c.Refuses tables span r d) : d.span = span := by
  cases h <;> rfl

/-- In a text that is read, each fault of a name has the exact span of a piece of the text that mentions
the name, unless it is about a column that a join shares; faults are in the order of the text, those
without a place last. -/
theorem Query.resolve_located (tables : List Table) {v : Version} {text : String} {q : Query}
    (read : readQuery v text = .ok q) :
    (∀ d ∈ q.resolve tables, ∃ o ∈ q.occurrences tables, o.Refused tables d ∧ o.reference.Placed v text d.span) ∧
      (q.resolve tables).Pairwise fun d e => d.notAfter e = true := by
  refine ⟨fun d member => ?_, Diagnostic.sort_pairwise _⟩
  have found : d ∈ faultsOf tables (q.occurrences tables) := q.resolve_perm.mem_iff.1 member
  obtain ⟨o, ho, fault⟩ := List.mem_filterMap.1 found
  have refused := Occurrence.refused_of_fault? fault
  refine ⟨o, ho, refused, ?_⟩
  rw [refused.span_eq]
  exact Query.occurrences_placed tables read o ho

theorem Query.resolve_located_subquery :
    let tables : List Table := [⟨none, none, "obs", ["x"]⟩]
    let text := "SELECT t.x, u.*, 2 * y\nFROM obs AS t WHERE EXISTS (SELECT t.z FROM nowhere n)"
    ∃ q, readQuery .v21 text = .ok q ∧ (q.resolve tables).length = 4 ∧
      (∀ d ∈ q.resolve tables, ∃ o ∈ q.occurrences tables, o.Refused tables d ∧ o.reference.Placed .v21 text d.span) ∧
      (q.resolve tables).Pairwise fun d e => d.notAfter e = true := by
  intro tables text
  have report : (readQuery .v21 text).toOption.map (fun q => (q.resolution tables [] []).faults.length) = some 4 := by
    decide +kernel
  obtain ⟨q, read, four⟩ := Option.map_eq_some_iff.1 report
  have read : readQuery .v21 text = .ok q := toOption_eq_some_iff.1 read
  exact ⟨q, read, (List.length_mergeSort _).trans four, Query.resolve_located tables read⟩

/-- A column that a join shares, reported without a place after a column that stands behind it. -/
theorem Query.resolve_located_shared :
    let tables : List Table := [⟨none, none, "a", ["c", "x"]⟩, ⟨none, none, "b", ["c", "y"]⟩]
    ((readQuery .v21 "SELECT x FROM a JOIN b USING (d) WHERE z < 1").toOption.map (Query.resolve tables)) =
      some [Scope.unknownColumn { column := ⟨"z", false⟩ } (some ⟨1, 40, 1, 41⟩),
        Scope.unknownColumn { column := ⟨"d", false⟩ } none] := by
  intro tables
  have faults : ((readQuery .v21 "SELECT x FROM a JOIN b USING (d) WHERE z < 1").toOption.map fun q =>
      (q.resolution tables [] []).faults) = some [Scope.unknownColumn { column := ⟨"d", false⟩ } none,
        Scope.unknownColumn { column := ⟨"z", false⟩ } (some ⟨1, 40, 1, 41⟩)] := by
    decide +kernel
  obtain ⟨q, read, found⟩ := Option.map_eq_some_iff.1 faults
  rw [read, Option.map_some, Query.resolve, found]
  exact congrArg some (Diagnostic.sort_eq_of_perm (.swap ..) (by decide) (by decide))

end SkyQuery
