import SkyQuery.Proofs.RoundTrip.Spelling

/-!
# The printer spells queries

`Query.spells`: what the printer writes for a well-formed query is cut into the words of the query.
Clauses that may be missing are `Trails`: they are empty, or start with a separator.
-/

namespace SkyQuery

open Grammar

variable {v : Version}

namespace Grammar

/-! ### Clauses that may be missing -/

/-- A piece of text that may be missing, and that separates itself from what precedes it. -/
def Trails (v : Version) (text : String) (ws : List Word) : Prop :=
  text = "" ∧ ws = [] ∨ Parts text ∧ Spells v text ws

variable {a b : String} {ws us : List Word}

theorem Trails.as (h : Trails v a ws) (text : b = a) : Trails v b ws := text ▸ h

theorem trails_empty : Trails v "" [] := .inl ⟨rfl, rfl⟩

theorem Spells.trail (ha : Spells v a ws) (hb : Trails v b us) : Spells v (a ++ b) (ws ++ us) := by
  rcases hb with ⟨rfl, rfl⟩ | ⟨parts, hb⟩
  · rwa [String.append_empty, List.append_nil]
  · exact ha.linkSpell parts hb

theorem Trails.append (ha : Trails v a ws) (hb : Trails v b us) : Trails v (a ++ b) (ws ++ us) := by
  rcases ha with ⟨rfl, rfl⟩ | ⟨parts, ha⟩
  · rwa [String.empty_append, List.nil_append]
  · exact .inr ⟨parts.append b, ha.trail hb⟩

theorem Starts.trails (h : Starts v a ws) (hb : Spells v b us) : Trails v (a ++ b) (ws ++ us) :=
  .inr ⟨h.1.append b, h.2.spell hb⟩

end Grammar

/-! ### Result columns -/

/-- Names, each with its point, before what starts with no digit. -/
theorem scan_qualifiers (parts : List Identifier) (h : ∀ i ∈ parts, i.WellFormed v) {after : List Char}
    (starts : ∀ c ∈ after.head?, c.isDigit = false) :
    scan v (parts.flatMap (fun i => i.render.toList ++ ['.']) ++ after) =
      (scan v after).map (parts.flatMap (fun i => [i.word, dotWord]) ++ ·) := by
  induction parts with
  | nil => simp
  | cons i rest ih =>
    obtain ⟨first, others⟩ := List.forall_mem_cons.1 h
    have next : ∀ c ∈ (rest.flatMap (fun i => i.render.toList ++ ['.']) ++ after).head?, c.isDigit = false := by
      cases rest with
      | nil => exact starts
      | cons j rest =>
        rw [List.flatMap_cons, List.append_assoc, List.append_assoc]
        exact identifier_head (others j List.mem_cons_self) _
    rw [List.flatMap_cons, List.append_assoc, List.append_assoc, List.singleton_append, scan_qualifier first next,
      ih others, Option.map_map]
    rfl

theorem spells_tableStar {t : TableName} (h : t.WellFormed v) :
    Spells v (t.render ++ ".*") (dottedWords t.parts ++ [dotWord, (.star, "*")]) := by
  intro after _
  have text : (t.render ++ ".*").toList ++ after =
      t.parts.flatMap (fun i => i.render.toList ++ ['.']) ++ '*' :: after := by
    obtain ⟨catalog, schema, table⟩ := t
    have qualified := h.2.2.2
    cases catalog <;> cases schema <;>
      simp_all [TableName.render, TableName.renderPart, TableName.parts]
  have words : dottedWords t.parts ++ [dotWord, (.star, "*")] =
      t.parts.flatMap (fun i => [i.word, dotWord]) ++ [(.star, "*")] := by
    obtain ⟨catalog, schema, table⟩ := t
    cases catalog <;> cases schema <;> rfl
  have star : scan v ('*' :: after) = (scan v after).map ((.star, "*") :: ·) := scan_symbol (by decide) after
  rw [text, words, scan_qualifiers _ h.parts (by rintro _ ⟨⟩; rfl), star, Option.map_map]
  simp [Function.comp_def]

theorem trails_alias {label : Option Identifier} (h : ∀ i ∈ label, i.WellFormed v) :
    Trails v (renderAlias label) (aliasWords label) := by
  cases label with
  | none => exact trails_empty
  | some label =>
    have as_ : Starts v " AS " [keywordWord .asKw] := (starts_word (k := .asKw) rfl).as rfl
    exact as_.trails (spells_identifier (h label rfl))

theorem SelectItem.spells {item : SelectItem} (h : item.WellFormed v) : Spells v item.render item.words := by
  cases item with
  | all span => exact opens_star.spells
  | allOf table span => exact spells_tableStar h
  | expr operand label => exact (Operand.spells h.1).trail (trails_alias h.2)

theorem SelectClause.spells {c : SelectClause} (h : c.WellFormed v) : Spells v c.render c.words := by
  obtain ⟨distinct, top, items, span⟩ := c
  obtain ⟨-, -, hitems⟩ := h
  have select : Opens v "SELECT " [keywordWord .selectKw] := (opens_keyword (k := .selectKw) rfl).as rfl
  have quantifier := opens_textIf distinct (opens_distinct (v := v))
  have list := spells_commaList items fun item member => SelectItem.spells (hitems item member)
  unfold render words
  cases top with
  | none =>
    have := (select.open quantifier).spell list
    simpa [topWords] using this
  | some n =>
    have top : Opens v ("TOP " ++ toString n ++ " ") [keywordWord .topKw, numberWord n] :=
      ((opens_keyword (k := .topKw) rfl).spell (spells_nat n)).space
    have := ((select.open quantifier).open top).spell list
    simpa [topWords, String.append_assoc] using this

/-! ### Grouping, order and offset -/

theorem starts_groupBy : Starts v "\nGROUP BY " [keywordWord .groupKw, keywordWord .byKw] := by
  have group : Starts v "\nGROUP " [keywordWord .groupKw] := (starts_line (k := .groupKw) rfl).as rfl
  exact (group.open (opens_keyword (k := .byKw) rfl)).as rfl

theorem starts_orderBy : Starts v "\nORDER BY " [keywordWord .orderKw, keywordWord .byKw] := by
  have order : Starts v "\nORDER " [keywordWord .orderKw] := (starts_line (k := .orderKw) rfl).as rfl
  exact (order.open (opens_keyword (k := .byKw) rfl)).as rfl

theorem trails_groupBy {items : List Operand} (h : ∀ o ∈ items, o.WellFormed v) :
    Trails v (if items.isEmpty then "" else "\nGROUP BY " ++ commaList (Operand.renderAll items))
      (groupByWords items) := by
  cases items with
  | nil => exact trails_empty
  | cons o others =>
    rw [Operand.renderAll_eq_map]
    have list := spells_commaList (o :: others) fun o ho => Operand.spells (h o ho)
    exact starts_groupBy.trails list

theorem OrderItem.spells {o : OrderItem} (h : o.WellFormed v) : Spells v o.render o.words := by
  refine (Operand.spells h.1).trail ?_
  cases o.descending with
  | false => exact trails_empty
  | true =>
    exact (starts_space.trails (spells_keyword (k := .descKw) rfl)).as rfl

theorem trails_tail {orderBy : List OrderItem} {offset : Option Offset} (h : TailRule v orderBy offset) :
    Trails v (renderTail orderBy offset) (tailWords orderBy offset) := by
  refine Trails.append ?_ ?_
  · cases orderBy with
    | nil => exact trails_empty
    | cons o others =>
      have list := spells_commaList (o :: others) fun o ho => OrderItem.spells (h.1 o ho)
      exact starts_orderBy.trails list
  · cases offset with
    | none => exact trails_empty
    | some offset =>
      obtain ⟨rfl, -⟩ := h.2 offset rfl
      have line : Starts .v21 "\nOFFSET " [keywordWord .offsetKw] := (starts_line (k := .offsetKw) rfl).as rfl
      exact line.trails (spells_nat offset.value)

/-- A condition after the word of its clause. -/
def Constraint.clauseText (start : String) : Option Constraint → String
  | some condition => start ++ condition.render
  | none => ""

theorem trails_condition {k : Keyword} (h : Starts v a [keywordWord k]) {c : Option Constraint}
    (hc : ∀ d ∈ c, Spells v d.render d.words) :
    Trails v (Constraint.clauseText a c) (Constraint.clauseWords k c) := by
  cases c with
  | none => exact trails_empty
  | some condition => exact h.trails (hc condition rfl)

/-- The text of a query, clause by clause. -/
theorem SelectQuery.render_eq (q : SelectQuery) :
    q.render = q.clause.render ++ "\nFROM " ++ commaList (FromItem.renderAll q.source) ++
      Constraint.clauseText "\nWHERE " q.filter ++
      (if q.groupBy.isEmpty then "" else "\nGROUP BY " ++ commaList (Operand.renderAll q.groupBy)) ++
      Constraint.clauseText "\nHAVING " q.having ++ renderTail q.orderBy q.offset := by
  obtain ⟨clause, source, filter, groupBy, having, orderBy, offset, span⟩ := q
  cases filter <;> cases having <;> rw [SelectQuery.render] <;> simp only [Constraint.clauseText]

/-! ### Operators and names in parentheses -/

theorem spells_comparisonOp {op : ComparisonOp} (later : op.ignoresCase = true → v = .v21) :
    Spells v op.symbol op.words := by
  have two (c d : Char) (kind : Kind) (h : ∀ after, Lexer.first c ([d] ++ after) = (kind, 1))
      (seen : kind.isTrivia = false) (sound : kind.isFault = false) (plain : kind.isKeyword = false) :
      Spells v (String.ofList [c, d]) [(kind, String.ofList [c, d])] := by
    intro after _
    have := scan_first (v := v) [d] after (h after) seen sound
    rw [settle_of_not_keyword plain] at this
    simpa using this
  have one (c : Char) (kind : Kind) (h : ∀ after, Lexer.Separates after → Lexer.first c after = (kind, 0))
      (seen : kind.isTrivia = false) (sound : kind.isFault = false) (plain : kind.isKeyword = false) :
      Spells v (String.ofList [c]) [(kind, String.ofList [c])] := by
    intro after sep
    have := scan_first (v := v) [] after (h after sep) seen sound
    rw [settle_of_not_keyword plain] at this
    simpa using this
  have alone (c : Char) (kind : Kind) (hc : c = '<' ∨ c = '>') (hk : Lexer.symbol c none = (kind, false))
      (after : List Char) (sep : Lexer.Separates after) : Lexer.first c after = (kind, 0) := by
    cases after with
    | nil => rcases hc with rfl | rfl <;> cases hk <;> rfl
    | cons d rest =>
      rcases sep d rfl with rfl | rfl | rfl | rfl | rfl <;> rcases hc with rfl | rfl <;> cases hk <;> rfl
  cases op with
  | eq => exact (opens_symbol '=' .eq (by decide)).spells
  | notEq => exact two '!' '=' .notEq (fun _ => rfl) rfl rfl rfl
  | lt => exact one '<' .lt (alone '<' .lt (.inl rfl) rfl) rfl rfl rfl
  | ltEq => exact two '<' '=' .ltEq (fun _ => rfl) rfl rfl rfl
  | gt => exact one '>' .gt (alone '>' .gt (.inr rfl) rfl) rfl rfl rfl
  | gtEq => exact two '>' '=' .gtEq (fun _ => rfl) rfl rfl rfl
  | like => exact spells_keyword (k := .likeKw) rfl
  | notLike => exact ((opens_keyword (k := .notKw) rfl).spell (spells_keyword (k := .likeKw) rfl)).as rfl
  | ilike =>
    obtain rfl := later rfl
    exact spells_keyword (k := .ilikeKw) rfl
  | notIlike =>
    obtain rfl := later rfl
    exact ((opens_keyword (k := .notKw) rfl).spell (spells_keyword (k := .ilikeKw) rfl)).as rfl

theorem spells_joinKind (kind : JoinKind) : Spells v kind.words (kind.keywords.map keywordWord) := by
  have join : Spells v "JOIN" [keywordWord .joinKw] := spells_keyword (k := .joinKw) rfl
  have outer : Spells v "OUTER JOIN" [keywordWord .outerKw, keywordWord .joinKw] :=
    ((opens_keyword (k := .outerKw) rfl).spell join).as rfl
  cases kind with
  | inner => exact ((opens_keyword (k := .innerKw) rfl).spell join).as rfl
  | leftOuter => exact ((opens_keyword (k := .leftKw) rfl).spell outer).as rfl
  | rightOuter => exact ((opens_keyword (k := .rightKw) rfl).spell outer).as rfl
  | fullOuter => exact ((opens_keyword (k := .fullKw) rfl).spell outer).as rfl
  | cross => exact ((opens_keyword (k := .crossKw) rfl).spell join).as rfl

theorem opens_names {names : List Identifier} (h : ∀ i ∈ names, i.WellFormed v) :
    Opens v ("(" ++ commaList (names.map Identifier.render) ++ ")") (namesWords names) :=
  (spells_commaList names fun i hi => spells_identifier (h i hi)).parens

theorem opens_not : Opens v "NOT " [keywordWord .notKw] := (opens_keyword (k := .notKw) rfl).as rfl

/-- `IN` and its parenthesis. -/
theorem opens_in : Opens v "IN (" [keywordWord .inKw, openWord] :=
  ((opens_keyword (k := .inKw) rfl).open starts_open.2).as rfl

/-! ### Conditions and queries -/

mutual

theorem Constraint.spells : ∀ {c : Constraint}, c.WellFormed v → Spells v c.render c.words
  | .comparison left op right _, h => by
    have op := spells_comparisonOp h.1.1
    exact (((Operand.spells h.2.1).space.spell op).space.spell (Operand.spells h.2.2)).congr (by simp [Constraint.words])
  | .between value low high negated _, h => by
    have not := opens_textIf negated (opens_not (v := v))
    have between : Opens v "BETWEEN " [keywordWord .betweenKw] := (opens_keyword (k := .betweenKw) rfl).as rfl
    have and : Starts v " AND " [keywordWord .andKw] := (starts_word (k := .andKw) rfl).as rfl
    have low := (((Operand.spells h.1).space.open not).open between).spell (Operand.spells h.2.1)
    exact ((low.start and).spell (Operand.spells h.2.2)).congr (by simp [Constraint.words])
  | .inValues value values negated _, h => by
    have not := opens_textIf negated (opens_not (v := v))
    have list := spells_commaList values fun o ho => Operand.spells (h.2.2 o ho)
    rw [← Operand.renderAll_eq_map] at list
    have opened := (((Operand.spells h.2.1).space.open not).open opens_in).spell list
    exact (opened.start starts_close).spells.congr (by simp [Constraint.words])
  | .inQuery value query negated _, h => by
    have not := opens_textIf negated (opens_not (v := v))
    have opened := (((Operand.spells h.1).space.open not).open opens_in).spell (Query.Nested.spells h.2)
    exact (opened.start starts_close).spells.congr (by simp [Constraint.words])
  | .isNull value negated _, h => by
    have not := opens_textIf negated (opens_not (v := v))
    have is : Starts v " IS " [keywordWord .isKw] := (starts_word (k := .isKw) rfl).as rfl
    have null := spells_keyword (v := v) (k := .nullKw) rfl
    exact ((((Operand.spells h.2).start is).open not).spell null).congr (by simp [Constraint.words])
  | .nonEmpty query _, h => ((spells_keyword (k := .existsKw) rfl).call (Query.Nested.spells h)).spells
  | .not inner _, h => opens_not.spell (Constraint.spells h.2)
  | .and left right _, h => by
    have and : Starts v " AND " [keywordWord .andKw] := (starts_word (k := .andKw) rfl).as rfl
    exact (((Constraint.spells h.2.2.1).start and).spell (Constraint.spells h.2.2.2)).congr
      (by simp [Constraint.words])
  | .or left right _, h => by
    have or : Starts v " OR " [keywordWord .orKw] := (starts_word (k := .orKw) rfl).as rfl
    exact (((Constraint.spells h.2.1).start or).spell (Constraint.spells h.2.2)).congr
      (by simp [Constraint.words])
  | .group inner _, h => by
    have inner : Spells v inner.render inner.words := Constraint.spells h
    exact inner.parens.spells

theorem FromItem.spells : ∀ {item : FromItem}, item.WellFormed v → Spells v item.render item.words
  | .table name label _, h => (spells_tableName h.1).trail (trails_alias h.2)
  | .subquery query label _, h => by
    have labelled : Trails v (renderAlias (some label)) (aliasWords (some label)) :=
      trails_alias fun i hi => Option.some.inj hi ▸ h.2
    exact ((Query.Nested.spells h.1).parens.spells.trail labelled).congr (by simp [FromItem.words])
  | .join left kind natural right condition _, h => by
    obtain ⟨-, -, hleft, hright, hcondition⟩ := h
    have word : Opens v "NATURAL " [keywordWord .naturalKw] := (opens_keyword (k := .naturalKw) rfl).as rfl
    have natural := opens_textIf natural word
    have joined := ((FromItem.spells hleft).space.open natural).spell (spells_joinKind kind)
    have sides := joined.space.spell (FromItem.spells hright)
    exact (sides.trail (JoinCondition.trails hcondition)).congr (by simp [FromItem.words])

theorem JoinCondition.trails : ∀ {c : JoinCondition}, c.WellFormed v → Trails v c.render c.words
  | .unstated, _ => trails_empty
  | .on condition, h => by
    have condition : Spells v condition.render condition.words := Constraint.spells h
    have on : Starts v " ON " [keywordWord .onKw] := (starts_word (k := .onKw) rfl).as rfl
    exact on.trails condition
  | .sharing columns, h => by
    have using_ : Starts v " USING " [keywordWord .usingKw] := (starts_word (k := .usingKw) rfl).as rfl
    have names := using_.trails (opens_names h).spells
    rwa [← String.append_assoc, ← String.append_assoc] at names

theorem SelectQuery.spells : ∀ {q : SelectQuery}, q.WellFormed v → Spells v q.render q.words
  | ⟨clause, source, filter, groupBy, having, orderBy, offset, _⟩, h => by
    obtain ⟨hclause, -, hsource, hfilter, hgroupBy, hhaving, tail⟩ := h
    have from_ : Starts v "\nFROM " [keywordWord .fromKw] := (starts_line (k := .fromKw) rfl).as rfl
    have where_ : Starts v "\nWHERE " [keywordWord .whereKw] := (starts_line (k := .whereKw) rfl).as rfl
    have having_ : Starts v "\nHAVING " [keywordWord .havingKw] := (starts_line (k := .havingKw) rfl).as rfl
    have list := spells_commaList source (FromItem.spellsEach hsource)
    rw [← FromItem.renderAll_eq_map, ← FromItem.allWords_eq_map] at list
    have read := ((SelectClause.spells hclause).start from_).spell list
    have filtered := read.trail (trails_condition where_ (Constraint.spellsEach hfilter))
    have grouped := filtered.trail (trails_groupBy fun o ho => (hgroupBy o ho).1)
    have restricted := grouped.trail (trails_condition having_ (Constraint.spellsEach hhaving))
    have whole := restricted.trail (trails_tail tail)
    rw [SelectQuery.render_eq]
    exact whole.congr (by simp [SelectQuery.words])

theorem SetOperation.spells : ∀ {o : SetOperation}, o.WellFormed v → Spells v o.render o.words
  | ⟨left, op, all, right, orderBy, offset, _⟩, h => by
    obtain ⟨later, -, -, -, -, hleft, hright, tail⟩ := h
    have word : Spells v op.word [keywordWord op.keyword] := by
      subst later
      cases op with
      | union => exact spells_keyword (k := .unionKw) rfl
      | intersect => exact spells_keyword (k := .intersectKw) rfl
      | except => exact spells_keyword (k := .exceptKw) rfl
    have all : Trails v (textIf all " ALL") (wordsIf all [keywordWord .allKw]) := by
      cases all with
      | false => exact trails_empty
      | true => exact (starts_space.trails (spells_keyword (k := .allKw) rfl)).as rfl
    have sides := (((QueryBody.spells hleft).newline.spell word).trail all).newline.spell (QueryBody.spells hright)
    have whole := sides.trail (trails_tail tail)
    rw [SetOperation.render]
    exact whole.congr (by simp [SetOperation.words])

theorem QueryBody.spells : ∀ {b : QueryBody}, b.WellFormed v → Spells v b.render b.words
  | .select query, h => by
    have query : Spells v query.render query.words := SelectQuery.spells h
    exact query
  | .set operation, h => by
    have operation : Spells v operation.render operation.words := SetOperation.spells h
    exact operation

theorem Query.Nested.spells : ∀ {q : Query}, q.Nested v → Spells v q.render q.words
  | ⟨withItems, body, _⟩, h => by
    obtain ⟨rfl, hbody⟩ := h
    simpa [Query.render, Query.words] using QueryBody.spells hbody

theorem Constraint.spellsEach : ∀ {c : Option Constraint}, Constraint.EachWellFormed v c →
    ∀ d ∈ c, Spells v d.render d.words
  | none, _ => by simp
  | some condition, h => by
    rintro _ ⟨⟩
    exact Constraint.spells h

theorem FromItem.spellsEach : ∀ {items : List FromItem}, FromItem.AllWellFormed v items →
    ∀ item ∈ items, Spells v item.render item.words
  | [], _ => by simp
  | _ :: _, h => List.forall_mem_cons.2 ⟨FromItem.spells h.1, FromItem.spellsEach h.2⟩

end

theorem WithItem.spells {item : WithItem} (h : item.WellFormed v) : Spells v item.render item.words := by
  obtain ⟨name, columns, query, span⟩ := item
  obtain ⟨-, hname, hcolumns, hquery⟩ := h
  have columns : Trails v (if columns.isEmpty then "" else "(" ++ commaList (columns.map Identifier.render) ++ ")")
      (if columns.isEmpty then [] else namesWords columns) := by
    cases columns with
    | nil => exact trails_empty
    | cons i others =>
      refine .inr ⟨?_, (opens_names hcolumns).spells⟩
      show Parts ("(" ++ commaList ((i :: others).map Identifier.render) ++ ")")
      exact (parts_open.append _).append ")"
  have as_ : Starts v " AS (" [keywordWord .asKw, openWord] :=
    ((starts_word (k := .asKw) rfl).open starts_open.2).as rfl
  have opened := (((spells_identifier hname).trail columns).start as_).spell (Query.Nested.spells hquery)
  exact (opened.start starts_close).spells.congr (by simp [words])

/-- The text of a query is cut into the words of the query. -/
theorem Query.spells {q : Query} (h : q.WellFormed v) : Spells v q.render q.words := by
  obtain ⟨withItems, body, span⟩ := q
  obtain ⟨hwith, hbody⟩ := h
  have body : Spells v body.render body.words := QueryBody.spells hbody
  cases withItems with
  | nil => simpa [render, words] using body
  | cons item others =>
    obtain ⟨rfl, -⟩ := hwith item List.mem_cons_self
    have list := spells_commaList (item :: others) fun i hi => WithItem.spells (hwith i hi)
    rw [← WithItem.renderAll_eq_map, ← WithItem.allWords_eq_map] at list
    have first : Opens .v21 "WITH " [keywordWord .withKw] := (opens_keyword (k := .withKw) rfl).as rfl
    exact ((first.spell list).newline.spell body).congr (by simp [words])

end SkyQuery
