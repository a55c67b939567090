import SkyQuery.Proofs.Sql.Pieces

/-!
# Tidy queries

A dialect that writes names and limits as the language does, and whose geometry and comparisons are tidy
where what they are made of is, writes every well-formed tree as a tidy text
(`Sql.Dialect.IsTidy.part`).
-/

namespace SkyQuery.Sql

open Dialect

/-- What has to be known of a dialect whose texts are tidy. -/
structure Dialect.IsTidy (d : Dialect) (track : Bool) (v : Version) : Prop where
  identifier : d.identifier = Identifier.render
  rows : d.rows = limitOffset
  geometry : ∀ {fn sys args span}, (Operand.geometry fn sys args span).WellFormed v →
    (∀ a ∈ args, Writes track (d.operand a) a.quotes) →
    Writes track (d.geometry fn sys args (args.map d.operand)) (Operand.geometry fn sys args span).quotes
  comparison : ∀ {left op right}, (∀ o, o.WellFormed v → Writes track (d.operand o) o.quotes) →
    left.WellFormed v → right.WellFormed v →
    Writes track (d.comparison d.operand left op right) (left.quotes ++ right.quotes)

variable {v : Version} {track : Bool} {d : Dialect} {a b : String} {qs rs : List Quote}

/-! ### Names -/

theorem Dialect.IsTidy.tableName_eq (h : d.IsTidy track v) (t : TableName) :
    d.tableName t = qualified (t.catalog.toList ++ t.schema.toList) t.table.render := by
  obtain ⟨catalog, schema, table⟩ := t
  cases catalog <;> cases schema <;>
    simp [Dialect.tableName, h.identifier, qualified, joinWith, String.intercalate_cons_cons, String.append_assoc]

theorem Dialect.IsTidy.tableName (h : d.IsTidy track v) {t : TableName} (formed : t.WellFormed v) :
    Tidy track (d.tableName t) 0 t.quotes := by
  rw [h.tableName_eq]
  exact tidy_tableName formed

/-- A text behind the name of a table and a point. -/
theorem Dialect.IsTidy.behind (h : d.IsTidy track v) {t : TableName} (formed : t.WellFormed v) (ha : Tidy track a 0 qs)
    (starts : ∀ c ∈ a.toList.head?, c.isDigit = false) : Tidy track (d.tableName t ++ ("." ++ a)) 0 (t.quotes ++ qs) := by
  have text : d.tableName t ++ ("." ++ a) = qualified t.parts a := by
    rw [h.tableName_eq, TableName.parts, qualified, qualified, List.foldr_append]
    obtain ⟨catalog, schema, table⟩ := t
    cases catalog <;> cases schema <;> simp [String.append_assoc]
  rw [text]
  exact tidy_qualified formed.parts ha starts

theorem Dialect.IsTidy.column (h : d.IsTidy track v) {c : ColumnRef} (formed : c.WellFormed v) :
    Tidy track (d.column c) 0 c.quotes := by
  obtain ⟨table, column⟩ := c
  obtain ⟨name, tables⟩ := formed
  have last : Tidy track column.render 0 column.quotes := tidy_identifier name
  cases table with
  | none => simpa [Dialect.column, h.identifier, ColumnRef.quotes, ColumnRef.parts] using last
  | some t =>
    have whole := h.behind (tables t rfl) last (identifier_head name)
    simpa [Dialect.column, h.identifier, ColumnRef.quotes, ColumnRef.parts, TableName.quotes, String.append_assoc] using whole

theorem Dialect.IsTidy.label (h : d.IsTidy track v) (ha : Tidy track a 0 qs) {label : Option Identifier}
    (formed : ∀ i ∈ label, i.WellFormed v) :
    Tidy track (d.withAlias a label) 0 (qs ++ label.toList.flatMap Identifier.quotes) := by
  cases label with
  | none => simpa [withAlias] using ha
  | some i =>
    rw [withAlias, h.identifier, Option.toList_some, List.flatMap_singleton]
    exact (ha.link " AS " 0 (by decide)).text (tidy_identifier (formed i rfl))

theorem Dialect.IsTidy.names (h : d.IsTidy track v) {l : List Identifier} (formed : ∀ i ∈ l, i.WellFormed v) :
    Tidy track (d.names l) 0 (l.flatMap Identifier.quotes) := by
  rw [Dialect.names, h.identifier]
  refine tidy_commaList (List.forall₂_map_right_iff.2 (List.forall₂_same.2 fun i member => ?_))
  exact tidy_identifier (formed i member)

/-! ### Expressions -/

section Functions

variable {name : String} {args : List Operand} {texts : List String}

theorem tidy_function (word : Text.isWord name.toList = true)
    (each : List.Forall₂ (fun a text => Tidy track text 0 (Operand.quotes a)) args texts) :
    Tidy track (name ++ "(" ++ commaList texts ++ ")") 0 (args.flatMap Operand.quotes) :=
  (tidy_word word).call (tidy_commaList each)

theorem tidy_rounded (word : Text.isWord name.toList = true) :
    List.Forall₂ (fun a text => Tidy track text 0 (Operand.quotes a)) args texts →
    Tidy track (match texts with
      | [value, digits] => name ++ "(CAST(" ++ value ++ " AS NUMERIC), " ++ digits ++ ")"
      | _ => name ++ "(" ++ commaList texts ++ ")") 0 (args.flatMap Operand.quotes) := by
  intro each
  split
  · obtain _ | ⟨value, _ | ⟨digits, ⟨⟩⟩⟩ := each
    have number := (((tidy_word word).link "(CAST(" 2 (by decide)).text value).link " AS NUMERIC), " 1 (by decide)
    simpa using (number.text digits).close ")" 0 (by decide)
  · exact tidy_function word each

theorem writes_math {fn : MathFn} {operand : Operand → SqlText} (h : ∀ a ∈ args, Writes track (operand a) a.quotes) :
    Writes track (math fn (args.map operand)) (args.flatMap Operand.quotes) := by
  refine (gives_sequence h).bind fun texts each => ?_
  have plain (name : String) (word : Text.isWord name.toList = true) := tidy_function word each
  have rounded (name : String) (word : Text.isWord name.toList = true) := tidy_rounded word each
  cases fn with
  | rand =>
    cases each with
    | nil => exact gives_ok (tidy_literal "RANDOM()" (by decide))
    | cons => exact gives_unsupported _
  | round => exact gives_ok (rounded "ROUND" (by decide))
  | truncate => exact gives_ok (rounded "TRUNC" (by decide))
  | log => exact gives_ok (plain "LN" (by decide))
  | log10 => exact gives_ok (plain "LOG" (by decide))
  | _ => exact gives_ok (plain _ (by decide))

theorem writes_aggregate {fn : AggregateFn} {distinct : Bool} {arg : Option Operand} {span : Option Span}
    (h : ∀ a ∈ arg, Writes track (d.operand a) a.quotes) :
    Writes track (d.operand (.aggregate fn distinct arg span)) (Operand.aggregate fn distinct arg span).quotes := by
  have function : Tidy track fn.name 0 [] := tidy_word (Keyword.aggregate fn).isWord_text
  have opening := (function.link "(" 1 (by decide)).textIf "DISTINCT " distinct (by decide)
  rw [Operand.quotes_of_children rfl, Operand.children]
  cases arg with
  | none => exact gives_ok (opening.finish "*)" 0 (by decide))
  | some arg =>
    rw [Option.toList_some, List.flatMap_singleton]
    exact (h arg rfl).bind fun text tidy => gives_ok ((opening.text tidy).close ")" 0 (by decide))

end Functions

theorem tidy_arithOp (op : ArithOp) : Tidy track op.symbol 0 [] := by
  cases op <;> exact tidy_literal _ (by decide)

theorem tidy_comparisonOp (op : ComparisonOp) : Tidy track op.symbol 0 [] := by
  cases op <;> exact tidy_literal _ (by decide)

theorem Dialect.IsTidy.operand (h : d.IsTidy track v) {o : Operand} (formed : o.WellFormed v) :
    Writes track (d.operand o) o.quotes := by
  induction formed with
  | @intro o rule parts ih =>
    have formed : o.WellFormed v := .intro rule parts
    have listed (l : List Operand) (h : ∀ o ∈ l, Writes track (d.operand o) o.quotes) :
        Writes track (commas (d.operands l)) (l.flatMap Operand.quotes) := by
      rw [operands_eq]
      exact writes_commas h
    -- Only shapes, columns and names depend on the dialect; the other forms are put together the same way.
    cases o with
    | geometry fn sys args span =>
      rw [Dialect.operand, operands_eq]
      exact h.geometry formed fun a member => ih a (List.mem_append_right _ member)
    | numeric text span =>
      obtain ⟨k, number, whole⟩ := rule
      exact gives_ok (tidy_number number whole)
    | string value span => exact gives_ok (tidy_string value)
    | column ref span =>
      rw [Operand.quotes_eq, Operand.children, List.flatMap_nil, List.append_nil]
      exact gives_ok (h.column rule)
    | negative inner span =>
      rw [Operand.quotes_of_child (c := inner) rfl rfl]
      exact (ih inner (List.mem_singleton_self inner)).bind fun text tidy => gives_ok (tidy_negated tidy)
    | operation left op right span =>
      rw [Operand.quotes_of_children rfl, Operand.children, List.flatMap_cons, List.flatMap_singleton]
      refine (ih left (by simp [Operand.children])).bind fun l onLeft => ?_
      refine (ih right (by simp [Operand.children])).bind fun r onRight => gives_ok ?_
      exact (((onLeft.link " " 0 (by decide)).word (tidy_arithOp op)).link " " 0 (by decide)).text onRight
    | concatenation args span =>
      rw [Dialect.operand, operands_eq, Operand.quotes_of_children rfl]
      exact (gives_sequence ih).bind fun texts each =>
        gives_ok (tidy_joined (fun tidy => tidy.link " || " 0 (by decide)) each)
    | wrapped inner span =>
      rw [Operand.quotes_of_child (c := inner) rfl rfl]
      exact (ih inner (List.mem_singleton_self inner)).between "(" 1 ")" (by decide) (by decide)
    | math fn args span =>
      rw [Dialect.operand, operands_eq, Operand.quotes_of_children rfl]
      exact writes_math ih
    | aggregate fn distinct arg span => exact writes_aggregate fun a found => ih a (Option.mem_toList.2 found)
    | lower value span =>
      rw [Operand.quotes_of_child (c := value) rfl rfl]
      exact (ih value (List.mem_singleton_self value)).between "LOWER(" 1 ")" (by decide) (by decide)
    | upper value span =>
      rw [Operand.quotes_of_child (c := value) rfl rfl]
      exact (ih value (List.mem_singleton_self value)).between "UPPER(" 1 ")" (by decide) (by decide)
    | coalesce args span =>
      rw [Operand.quotes_of_children rfl]
      exact (listed args ih).between "COALESCE(" 1 ")" (by decide) (by decide)
    | inUnit value unit span => exact gives_unsupported _
    | cast value target span =>
      rw [Operand.quotes_of_child (c := value) rfl rfl]
      refine (ih value (List.mem_singleton_self value)).bind fun text tidy => gives_ok ?_
      have opening := ((Ready.start "CAST(" 1 (by decide)).text tidy).link " AS " 1 (by decide)
      exact (opening.word (tidy_castType target)).close ")" 0 (by decide)
    | userDefined name args span =>
      rw [Operand.quotes_eq, Dialect.operand, h.identifier]
      exact (listed args ih).bind fun texts tidy => gives_ok ((tidy_identifier rule.2).call tidy)

/-! ### Clauses -/

theorem Dialect.IsTidy.selectItem (h : d.IsTidy track v) {item : SelectItem} (formed : item.WellFormed v)
    (columns : ∀ o ∈ item.operand?, Writes track (d.operand o) o.quotes) : Writes track (d.selectItem item) item.quotes := by
  cases item with
  | all span => exact gives_ok (tidy_literal "*" (by decide))
  | allOf table span =>
    have whole := h.behind formed (tidy_literal "*" (by decide)) (by simp)
    rw [List.append_nil] at whole
    exact gives_ok whole
  | expr o label => exact (columns o rfl).bind fun text tidy => gives_ok (h.label tidy formed.2)

theorem gives_orderBy {l : List OrderItem} (h : ∀ item ∈ l, Writes track (d.operand item.expr) item.quotes) :
    Gives (d.orderBy l) (Trails track · (l.flatMap OrderItem.quotes)) := by
  have items : Writes track (commas (l.map d.orderItem)) (l.flatMap OrderItem.quotes) := by
    refine writes_commas fun item member => (h item member).bind fun text tidy => gives_ok ?_
    simpa using tidy.trail (trails_textIf item.descending " DESC" (by decide))
  unfold orderBy
  cases l with
  | nil => exact gives_ok trails_empty
  | cons item l =>
    exact items.bind fun texts tidy => gives_ok (((Ready.start "\nORDER BY " 0 (by decide)).text tidy).trails (by decide))

theorem gives_groupBy {l : List Operand} (h : ∀ o ∈ l, Writes track (d.operand o) o.quotes) :
    Gives (d.groupBy l) (Trails track · (l.flatMap Operand.quotes)) := by
  have items := writes_commas h
  unfold groupBy
  cases l with
  | nil => exact gives_ok trails_empty
  | cons o l =>
    rw [operands_eq]
    exact items.bind fun texts tidy => gives_ok (((Ready.start "\nGROUP BY " 0 (by decide)).text tidy).trails (by decide))

theorem trails_limitOffset (limit offset : Option Nat) : Trails track (limitOffset limit offset) [] := by
  have clause (word : String) (n : Nat) (opening : Ready track ("\n" ++ word ++ " ") 0 [])
      (starts : parts ("\n" ++ word ++ " ") = true) : Trails track ("\n" ++ word ++ " " ++ toString n) [] :=
    (opening.text (tidy_nat n)).trails starts
  unfold limitOffset
  refine (Trails.append ?_ ?_ : Trails track _ ([] ++ []))
  · cases limit with
    | none => exact trails_empty
    | some n => exact clause "LIMIT" n (.start _ 0 (by decide)) (by decide)
  · cases offset with
    | none => exact trails_empty
    | some n => exact clause "OFFSET" n (.start _ 0 (by decide)) (by decide)

/-! ### Conditions and queries -/

theorem Dialect.IsTidy.constraint (h : d.IsTidy track v) {c : Constraint} (formed : c.WellFormed v)
    (parts : ∀ p ∈ (Part.constraint c).children, Writes track (d.part p) p.quotes) :
    Writes track (d.constraint c) c.quotes := by
  simp only [Part.children, List.forall_mem_append, List.forall_mem_map, part_operand, part_constraint, part_query,
    Part.quotes] at parts
  obtain ⟨⟨operands, conditions⟩, queries⟩ := parts
  cases c with
  | comparison left op right span =>
    obtain ⟨-, onLeft, onRight⟩ := formed
    exact h.comparison (fun o formed => h.operand formed) onLeft onRight
  | between value low high negated span =>
    have hv := operands value (by simp [Constraint.operands])
    have hl := operands low (by simp [Constraint.operands])
    have hh := operands high (by simp [Constraint.operands])
    refine hv.bind fun v tv => hl.bind fun l tl => hh.bind fun h th => gives_ok ?_
    have opening := ((tv.link " " 0 (by decide)).textIf "NOT " negated (by decide)).literal "BETWEEN " 0 (by decide)
    rw [Constraint.quotes, ← List.append_assoc]
    exact ((opening.text tl).link " AND " 0 (by decide)).text th
  | inValues value values negated span =>
    obtain ⟨hv, others⟩ := List.forall_mem_cons.1 operands
    have listed := writes_commas others
    rw [← operands_eq] at listed
    refine listed.bind fun list tl => hv.bind fun v tv => gives_ok ?_
    have opening := ((tv.link " " 0 (by decide)).textIf "NOT " negated (by decide)).literal "IN (" 1 (by decide)
    exact (opening.text tl).close ")" 0 (by decide)
  | inQuery value query negated span =>
    have hv := operands value (List.mem_singleton_self value)
    refine (queries query (List.mem_singleton_self query)).bind fun list tl => hv.bind fun v tv => gives_ok ?_
    have opening := ((tv.link " " 0 (by decide)).textIf "NOT " negated (by decide)).literal "IN (" 1 (by decide)
    exact (opening.text tl).close ")" 0 (by decide)
  | isNull value negated span =>
    exact (operands value (List.mem_singleton_self value)).bind fun v tv =>
      gives_ok (((tv.link " IS " 0 (by decide)).textIf "NOT " negated (by decide)).finish "NULL" 0 (by decide))
  | nonEmpty query span =>
    exact (queries query (List.mem_singleton_self query)).between "EXISTS(" 1 ")" (by decide) (by decide)
  | not inner span =>
    exact (conditions inner (List.mem_singleton_self inner)).bind fun text tidy =>
      gives_ok ((Ready.start "NOT " 0 (by decide)).text tidy)
  | group inner span =>
    exact (conditions inner (List.mem_singleton_self inner)).between "(" 1 ")" (by decide) (by decide)
  | and left right span =>
    have hl := conditions left (by simp [Constraint.children])
    have hr := conditions right (by simp [Constraint.children])
    exact hl.bind fun l tl => hr.bind fun r tr => gives_ok ((tl.link " AND " 0 (by decide)).text tr)
  | or left right span =>
    have hl := conditions left (by simp [Constraint.children])
    have hr := conditions right (by simp [Constraint.children])
    exact hl.bind fun l tl => hr.bind fun r tr => gives_ok ((tl.link " OR " 0 (by decide)).text tr)

theorem Dialect.IsTidy.joinCondition (h : d.IsTidy track v) {condition : JoinCondition} (formed : condition.WellFormed v)
    (conditions : ∀ c ∈ condition.constraint?, Writes track (d.constraint c) c.quotes) :
    Gives (d.joinCondition condition) (Trails track · condition.quotes) := by
  cases condition with
  | unstated => exact gives_ok trails_empty
  | on c =>
    exact (conditions c rfl).bind fun text tidy =>
      gives_ok (((Ready.start " ON " 0 (by decide)).text tidy).trails (by decide))
  | sharing columns =>
    have whole := (h.names formed).between " USING (" 1 ")" (by decide) (by decide)
    rw [Dialect.joinCondition]
    rw [String.append_assoc] at whole ⊢
    exact gives_ok (whole.trails (by decide))

theorem tidy_joinKind (kind : JoinKind) : Tidy track kind.words 0 [] := by
  cases kind <;> exact tidy_literal _ (by decide)

theorem Dialect.IsTidy.fromItem (h : d.IsTidy track v) {item : FromItem} (formed : item.WellFormed v)
    (parts : ∀ p ∈ (Part.fromItem item).children, Writes track (d.part p) p.quotes) :
    Writes track (d.fromItem item) item.quotes := by
  cases item with
  | table name label span => exact gives_ok (h.label (h.tableName formed.1) formed.2)
  | subquery query label span =>
    have inner : Writes track (d.query query) query.quotes := parts (.query query) (List.mem_singleton_self _)
    rw [Dialect.fromItem, h.identifier]
    exact inner.bind fun text tidy =>
      gives_ok ((((Ready.start "(" 1 (by decide)).text tidy).link ") AS " 0 (by decide)).text (tidy_identifier formed.2))
  | join left kind natural right condition span =>
    obtain ⟨-, -, -, -, matching⟩ := formed
    have onLeft : Writes track (d.fromItem left) left.quotes := parts (.fromItem left) (by simp [Part.children])
    have onRight : Writes track (d.fromItem right) right.quotes := parts (.fromItem right) (by simp [Part.children])
    have matched := h.joinCondition matching fun c found =>
      parts (.constraint c) (by simp [Part.children, Option.mem_def.1 found])
    refine onLeft.bind fun l tl => onRight.bind fun r tr => matched.bind fun c tc => gives_ok ?_
    have opening := (tl.link " " 0 (by decide)).textIf "NATURAL " natural (by decide)
    have joining := (opening.word (tidy_joinKind kind)).link " " 0 (by decide)
    rw [FromItem.quotes, ← List.append_assoc]
    exact (joining.text tr).trail tc

/-- A condition after the words of its clause, if there is one, and what is written then. -/
theorem gives_clause {condition : Option Constraint} {rest : String → SqlText} {P : String → Prop} {l : String}
    (opening : Ready track l 0 []) (starts : parts l = true)
    (inner : ∀ c ∈ condition, Writes track (d.constraint c) c.quotes)
    (next : ∀ text, Trails track text (Constraint.quotesOf condition) → Gives (rest text) P) :
    Gives (match condition with
      | some condition => do
        let text ← d.constraint condition
        let clause ← pure (l ++ text)
        rest clause
      | none => do
        let clause ← pure ""
        rest clause) P := by
  cases condition with
  | none => exact next "" trails_empty
  | some c => exact (inner c rfl).bind fun text tidy => next _ ((opening.text tidy).trails starts)

theorem Dialect.IsTidy.selectQuery (h : d.IsTidy track v) {q : SelectQuery} (formed : q.WellFormed v)
    (parts : ∀ p ∈ (Part.select q).children, Writes track (d.part p) p.quotes) :
    Writes track (d.selectQuery q) q.quotes := by
  obtain ⟨⟨distinct, top, items, place⟩, source, filter, groupBy, having, orderBy, offset, span⟩ := q
  simp only [Part.children, List.forall_mem_append, List.forall_mem_map, part_operand, part_constraint, part_fromItem,
    Part.quotes, Option.mem_toList, tailParts] at parts
  obtain ⟨⟨⟨⟨⟨columns, sources⟩, filters⟩, groups⟩, havings⟩, ordered, -⟩ := parts
  have listed : Writes track (commas (items.map d.selectItem)) (items.flatMap SelectItem.quotes) :=
    writes_commas fun item member => h.selectItem (formed.1.2.2 item member) fun o found =>
      columns o (List.mem_filterMap.2 ⟨item, member, found⟩)
  have read : Writes track (commas (d.fromItems source)) (source.flatMap FromItem.quotes) := by
    rw [fromItems_eq]
    exact writes_commas sources
  rw [Dialect.selectQuery, h.rows]
  refine listed.bind fun columns hcolumns => read.bind fun sources hsources => ?_
  refine gives_clause (.start "\nWHERE " 0 (by decide)) (by decide) filters fun filter hfilter => ?_
  refine (gives_groupBy groups).bind fun groups hgroups => ?_
  refine gives_clause (.start "\nHAVING " 0 (by decide)) (by decide) havings fun having hhaving => ?_
  refine (gives_orderBy ordered).bind fun order horder => gives_ok ?_
  have opening := ((Ready.start "SELECT " 0 (by decide)).textIf "DISTINCT " distinct (by decide)).text hcolumns
  have selected := opening.link "\nFROM " 0 (by decide)
  have filtered := (((selected.text hsources).trail hfilter).trail hgroups).trail hhaving
  have whole := (filtered.trail horder).trail (trails_limitOffset top (offset.map Offset.value))
  simpa only [SelectQuery.quotes, FromItem.allQuotes_eq, List.nil_append, List.append_nil, List.append_assoc] using whole

theorem tidy_setOperator (op : SetOperator) : Tidy track op.word 0 [] := by
  cases op <;> exact tidy_literal _ (by decide)

theorem Dialect.IsTidy.setOperation (h : d.IsTidy track v) {o : SetOperation}
    (parts : ∀ p ∈ (Part.set o).children, Writes track (d.part p) p.quotes) :
    Writes track (d.setOperation o) o.quotes := by
  obtain ⟨left, op, all, right, orderBy, offset, span⟩ := o
  simp only [Part.children, List.forall_mem_append, List.forall_mem_map, part_operand, Part.quotes, tailParts] at parts
  obtain ⟨sides, ordered, -⟩ := parts
  have onLeft : Writes track (d.body left) left.quotes := by
    rw [body_eq, ← QueryBody.quotes_part]
    exact sides left.part (by simp)
  have onRight : Writes track (d.body right) right.quotes := by
    rw [body_eq, ← QueryBody.quotes_part]
    exact sides right.part (by simp)
  rw [Dialect.setOperation, h.rows]
  refine onLeft.bind fun l hl => onRight.bind fun r hr => (gives_orderBy ordered).bind fun order horder => gives_ok ?_
  have operator := (((Ready.start "(" 1 (by decide)).text hl).link ")\n" 0 (by decide)).word (tidy_setOperator op)
  have between := (operator.trail (trails_textIf all " ALL" (by decide))).link "\n(" 1 (by decide)
  have sides := (between.text hr).close ")" 0 (by decide)
  have whole := (sides.trail horder).trail (trails_limitOffset none (offset.map Offset.value))
  simpa only [SetOperation.quotes, List.nil_append, List.append_nil, List.append_assoc] using whole

theorem Dialect.IsTidy.withItem (h : d.IsTidy track v) {item : WithItem} (formed : item.WellFormed v)
    (inner : Writes track (d.query item.query) item.query.quotes) : Writes track (d.withItem item) item.quotes := by
  obtain ⟨name, columns, query, span⟩ := item
  obtain ⟨-, hname, hcolumns, -⟩ := formed
  have listed : Trails track (if columns.isEmpty then "" else "(" ++ d.names columns ++ ")")
      (columns.flatMap Identifier.quotes) := by
    cases columns with
    | nil => exact trails_empty
    | cons i rest =>
      have whole := (h.names hcolumns).between "(" 1 ")" (by decide) (by decide)
      rw [String.append_assoc] at whole
      simpa [String.append_assoc] using whole.trails (by decide)
  rw [Dialect.withItem, h.identifier, WithItem.quotes, ← List.append_assoc]
  have opening := ((tidy_identifier hname).trail listed).link " AS (" 1 (by decide)
  exact inner.bind fun text tidy => gives_ok ((opening.text tidy).close ")" 0 (by decide))

theorem Dialect.IsTidy.query {q : Query} (parts : ∀ p ∈ (Part.query q).children, Writes track (d.part p) p.quotes) :
    Writes track (d.query q) q.quotes := by
  obtain ⟨items, inner, span⟩ := q
  have listed : Writes track (commas (d.withAll items)) (items.flatMap WithItem.quotes) := by
    rw [withAll_eq]
    exact writes_commas fun item member =>
      parts (.withItem item) (List.mem_append_left _ (List.mem_map_of_mem member))
  have body : Writes track (d.body inner) inner.quotes := by
    rw [body_eq, ← QueryBody.quotes_part]
    exact parts inner.part (List.mem_append_right _ (List.mem_singleton_self _))
  rw [Query.quotes, WithItem.allQuotes_eq, Dialect.query]
  refine listed.bind fun texts htexts => body.bind fun text tidy => gives_ok ?_
  cases items with
  | nil => simpa using tidy
  | cons item rest => exact (((Ready.start "WITH " 0 (by decide)).text htexts).link "\n" 0 (by decide)).text tidy

/-- A part is tidy if what it is made of is. -/
theorem Dialect.IsTidy.part_of_children (h : d.IsTidy track v) {p : Part} (formed : p.WellFormed v)
    (parts : ∀ c ∈ p.children, Writes track (d.part c) c.quotes) : Writes track (d.part p) p.quotes := by
  cases p with
  | operand o => exact h.operand formed
  | constraint c => exact h.constraint formed parts
  | fromItem item => exact h.fromItem formed parts
  | offset o => exact gives_ok tidy_empty
  | select q => exact h.selectQuery formed parts
  | set o => exact h.setOperation parts
  | withItem item => exact h.withItem formed (parts (.query item.query) (List.mem_singleton_self _))
  | query q => exact Dialect.IsTidy.query parts

/-- Every well-formed tree is tidy. -/
theorem Dialect.IsTidy.part (h : d.IsTidy track v) {p : Part} (formed : p.WellFormed v) :
    Writes track (d.part p) p.quotes := by
  have below := wellFounded_of_shrinks Part.sizeOf_lt_of_mem_children
  induction p using below.induction with
  | h p ih => exact h.part_of_children formed fun c member => ih c member (formed.children c member)

end SkyQuery.Sql
