import SkyQuery.Proofs.Sql.Exact
import SkyQuery.Proofs.Tree.Words

/-!
# What is written alike

A tree has the same text in PostgreSQL as in the language of the queries where every part of it
`IsCommon` (`Sql.query_eq_render`).
-/

namespace SkyQuery

/-- The parts that PostgreSQL writes like the language of the queries, given that what they are made
of is written alike. -/
def Part.IsCommon : Part → Prop
  | .operand (.geometry ..) | .operand (.inUnit ..) | .set _ => False
  | .operand (.math fn args _) => fn ∉ [.log, .log10, .rand, .truncate] ∧ (fn = .round → args.length ≠ 2)
  | .operand (.negative inner _) => inner.render.toList.head? ≠ some '-'
  | .select q => q.clause.top = none
  | _ => True

/-- The text of a part. -/
def Part.render : Part → String
  | .operand o => o.render
  | .constraint c => c.render
  | .fromItem item => item.render
  | .offset _ => ""
  | .select q => q.render
  | .set o => o.render
  | .withItem item => item.render
  | .query q => q.render

namespace Sql

open Dialect

/-! ### Names and lists -/

theorem sequence_map {α : Type} {f : α → SqlText} {g : α → String} {l : List α} (h : ∀ a ∈ l, f a = .ok (g a)) :
    Dialect.sequence (l.map f) = .ok (l.map g) := by
  induction l with
  | nil => rfl
  | cons a l ih =>
    obtain ⟨here, others⟩ := List.forall_mem_cons.1 h
    rw [List.map_cons, Dialect.sequence, here, ih others]
    rfl

theorem commas_ok {α : Type} {f : α → SqlText} {g : α → String} {l : List α} (h : ∀ a ∈ l, f a = .ok (g a)) :
    commas (l.map f) = .ok (commaList (l.map g)) := by
  rw [commas, sequence_map h]
  rfl

theorem tableName_eq (t : TableName) : postgres.tableName t = t.render := by
  obtain ⟨catalog, schema, table⟩ := t
  cases catalog <;> cases schema <;>
    simp [tableName, TableName.render, TableName.renderPart, postgres, joinWith, String.intercalate_cons_cons,
      String.append_assoc]

theorem column_eq (c : ColumnRef) : postgres.column c = c.render := by
  obtain ⟨table, column⟩ := c
  cases table with
  | none => rfl
  | some table =>
    simp only [Dialect.column, tableName_eq, ColumnRef.render]
    rfl

theorem withAlias_eq (text : String) (label : Option Identifier) :
    postgres.withAlias text label = text ++ renderAlias label := by
  cases label with
  | none => rw [withAlias, renderAlias, String.append_empty]
  | some label =>
    rw [withAlias, renderAlias, ← String.append_assoc]
    rfl

/-! ### Expressions -/

section Operands

variable {o : Operand} {l : List Operand}

theorem operands_ok (h : ∀ o ∈ l, postgres.operand o = .ok o.render) :
    Dialect.sequence (postgres.operands l) = .ok (Operand.renderAll l) := by
  rw [operands_eq, Operand.renderAll_eq_map, sequence_map h]

theorem negated_eq {text : String} (h : text.toList.head? ≠ some '-') :
    Dialect.negated text = SkyQuery.negated text := by
  have other (rest : List Char) : text.toList ≠ '-' :: rest := by
    intro minus
    rw [minus] at h
    exact h rfl
  have here : Dialect.negated text = "-" ++ text := by
    unfold Dialect.negated
    split
    · rename_i rest minus
      exact absurd minus (other rest)
    · rfl
  have there : SkyQuery.negated text = "-" ++ text := by
    unfold SkyQuery.negated
    split
    · rename_i rest minus
      exact absurd minus (other rest)
    · rfl
  rw [here, there]

theorem math_eq {fn : MathFn} {args : List SqlText} {texts : List String} (written : Dialect.sequence args = .ok texts)
    (plain : fn ∉ [.log, .log10, .rand, .truncate]) (digits : fn = .round → texts.length ≠ 2) :
    math fn args = .ok (fn.name ++ "(" ++ commaList texts ++ ")") := by
  unfold math
  rw [written]
  cases fn with
  | log | log10 | rand | truncate => simp at plain
  | round =>
    match texts, digits rfl with
    | [], _ | [_], _ => rfl
    | [_, _], two => exact absurd rfl two
    | _ :: _ :: _ :: _, _ => rfl
  | _ => rfl

theorem operand_eq (common : (Part.operand o).IsCommon) (parts : ∀ c ∈ o.children, postgres.operand c = .ok c.render) :
    postgres.operand o = .ok o.render := by
  cases o with
  | geometry | inUnit => exact common.elim
  | numeric | string => rfl
  | column ref span => rw [operand, column_eq, Operand.render]
  | negative inner span =>
    rw [operand, parts inner (List.mem_singleton_self inner), Operand.render, ← negated_eq common]
    rfl
  | operation left op right span =>
    rw [operand, parts left (by simp [Operand.children]), parts right (by simp [Operand.children])]
    rfl
  | concatenation args span =>
    rw [operand, operands_ok (l := args) parts]
    rfl
  | wrapped inner span | lower inner span | upper inner span | cast inner target span =>
    rw [operand, parts inner (List.mem_singleton_self inner)]
    rfl
  | math fn args span =>
    obtain ⟨plain, digits⟩ := common
    rw [operand, math_eq (operands_ok (l := args) parts) plain (by rwa [Operand.renderAll_eq_map, List.length_map])]
    rfl
  | aggregate fn distinct arg span =>
    cases arg with
    | none =>
      have closed : "*" ++ ")" = "*)" := rfl
      simp only [operand, Operand.render, String.append_assoc, closed]
    | some arg =>
      rw [operand, parts arg (by simp [Operand.children])]
      rfl
  | coalesce args span =>
    rw [operand, commas, operands_ok (l := args) parts]
    rfl
  | userDefined name args span =>
    rw [operand, commas, operands_ok (l := args) parts]
    rfl

end Operands

/-! ### Clauses -/

theorem selectItem_eq {item : SelectItem} (h : ∀ o ∈ item.operand?, postgres.operand o = .ok o.render) :
    postgres.selectItem item = .ok item.render := by
  cases item with
  | all span => rfl
  | allOf table span => rw [selectItem, tableName_eq, SelectItem.render]
  | expr o label =>
    rw [selectItem, h o rfl, SelectItem.render, ← withAlias_eq]
    rfl

theorem orderBy_eq {l : List OrderItem} (h : ∀ item ∈ l, postgres.operand item.expr = .ok item.expr.render) :
    postgres.orderBy l = .ok (if l.isEmpty then "" else "\nORDER BY " ++ commaList (l.map OrderItem.render)) := by
  have items : commas (l.map postgres.orderItem) = .ok (commaList (l.map OrderItem.render)) :=
    commas_ok fun item member => by rw [orderItem, h item member]; rfl
  rw [orderBy, items]
  cases l <;> rfl

theorem tail_eq {orderBy : List OrderItem} {offset : Option Offset}
    (h : ∀ p ∈ tailParts orderBy offset, postgres.part p = .ok p.render) :
    ∃ order, postgres.orderBy orderBy = .ok order ∧
      order ++ postgres.rows none (offset.map Offset.value) = renderTail orderBy offset := by
  refine ⟨_, orderBy_eq fun item member => h (.operand item.expr) ?_, ?_⟩
  · exact List.mem_append_left _ (List.mem_map_of_mem member)
  · unfold renderTail
    cases offset <;> simp [postgres, limitOffset, String.append_assoc]

theorem groupBy_eq {l : List Operand} (h : ∀ o ∈ l, postgres.operand o = .ok o.render) :
    postgres.groupBy l = .ok (if l.isEmpty then "" else "\nGROUP BY " ++ commaList (Operand.renderAll l)) := by
  rw [groupBy, commas, operands_ok h]
  cases l <;> rfl

/-! ### Parts -/

theorem constraint_eq {c : Constraint} (parts : ∀ p ∈ (Part.constraint c).children, postgres.part p = .ok p.render) :
    postgres.constraint c = .ok c.render := by
  simp only [Part.children, List.forall_mem_append, List.forall_mem_map, part_operand, part_constraint, part_query,
    Part.render] at parts
  obtain ⟨⟨operands, conditions⟩, queries⟩ := parts
  cases c with
  | comparison left op right span =>
    have plain : postgres.comparison postgres.operand left op right = plainComparison postgres.operand left op right := rfl
    rw [constraint, plain, plainComparison, operands left (by simp [Constraint.operands]),
      operands right (by simp [Constraint.operands])]
    rfl
  | between value low high negated span =>
    rw [constraint, operands value (by simp [Constraint.operands]), operands low (by simp [Constraint.operands]),
      operands high (by simp [Constraint.operands])]
    rfl
  | inValues value values negated span =>
    obtain ⟨here, others⟩ := List.forall_mem_cons.1 operands
    rw [constraint, commas, operands_ok others, here]
    rfl
  | inQuery value query negated span =>
    rw [constraint, queries query (List.mem_singleton_self query), operands value (List.mem_singleton_self value)]
    rfl
  | isNull value negated span =>
    rw [constraint, operands value (List.mem_singleton_self value)]
    rfl
  | nonEmpty query span =>
    rw [constraint, queries query (List.mem_singleton_self query)]
    rfl
  | not inner span | group inner span =>
    rw [constraint, conditions inner (List.mem_singleton_self inner)]
    rfl
  | and left right span | or left right span =>
    rw [constraint, conditions left (by simp [Constraint.children]), conditions right (by simp [Constraint.children])]
    rfl

theorem joinCondition_eq {condition : JoinCondition}
    (h : ∀ c ∈ condition.constraint?, postgres.constraint c = .ok c.render) :
    postgres.joinCondition condition = .ok condition.render := by
  cases condition with
  | unstated | sharing => rfl
  | on c =>
    rw [joinCondition, h c rfl]
    rfl

theorem fromItem_eq {item : FromItem} (parts : ∀ p ∈ (Part.fromItem item).children, postgres.part p = .ok p.render) :
    postgres.fromItem item = .ok item.render := by
  cases item with
  | table name label span => rw [fromItem, withAlias_eq, tableName_eq, FromItem.render]
  | subquery query label span =>
    have inner : postgres.query query = .ok query.render := parts (.query query) (List.mem_singleton_self _)
    have closed : ")" ++ " AS " = ") AS " := rfl
    have text : (FromItem.subquery query label span).render = "(" ++ query.render ++ ") AS " ++ label.render := by
      rw [FromItem.render, renderAlias, ← closed]
      simp only [String.append_assoc]
    rw [fromItem, inner, text]
    rfl
  | join left kind natural right condition span =>
    have onLeft : postgres.fromItem left = .ok left.render := parts (.fromItem left) (by simp [Part.children])
    have onRight : postgres.fromItem right = .ok right.render := parts (.fromItem right) (by simp [Part.children])
    have matched : postgres.joinCondition condition = .ok condition.render :=
      joinCondition_eq fun c found => parts (.constraint c) (by simp [Part.children, Option.mem_def.1 found])
    rw [fromItem, onLeft, onRight, matched]
    rfl

theorem selectQuery_eq {q : SelectQuery} (topless : q.clause.top = none)
    (parts : ∀ p ∈ (Part.select q).children, postgres.part p = .ok p.render) :
    postgres.selectQuery q = .ok q.render := by
  obtain ⟨⟨distinct, top, items, place⟩, source, filter, groupBy, having, orderBy, offset, span⟩ := q
  obtain rfl : top = none := topless
  simp only [Part.children, List.forall_mem_append, List.forall_mem_map, part_operand, part_constraint, part_fromItem,
    Part.render, Option.mem_toList] at parts
  obtain ⟨⟨⟨⟨⟨columns, sources⟩, filters⟩, groups⟩, havings⟩, tail⟩ := parts
  obtain ⟨order, ordered, ending⟩ := tail_eq tail
  have listed : commas (items.map postgres.selectItem) = .ok (commaList (items.map SelectItem.render)) :=
    commas_ok fun item member => selectItem_eq fun o found => columns o (List.mem_filterMap.2 ⟨item, member, found⟩)
  have read : commas (postgres.fromItems source) = .ok (commaList (FromItem.renderAll source)) := by
    rw [fromItems_eq, FromItem.renderAll_eq_map, commas_ok sources]
  rw [selectQuery, listed, read, groupBy_eq groups, ordered, SelectQuery.render.eq_def]
  simp only [SelectClause.render, ← ending]
  cases filter with
  | none =>
    cases having with
    | none => simp only [bind, Except.bind, pure, Except.pure, String.append_assoc, String.empty_append]
    | some having =>
      simp only [havings having rfl, bind, Except.bind, pure, Except.pure, String.append_assoc, String.empty_append]
  | some filter =>
    cases having with
    | none => simp only [filters filter rfl, bind, Except.bind, pure, Except.pure, String.append_assoc, String.empty_append]
    | some having =>
      simp only [filters filter rfl, havings having rfl, bind, Except.bind, pure, Except.pure, String.append_assoc,
        String.empty_append]

theorem withItem_eq {item : WithItem} (h : postgres.query item.query = .ok item.query.render) :
    postgres.withItem item = .ok item.render := by
  obtain ⟨name, columns, query, span⟩ := item
  have inner : postgres.query query = .ok query.render := h
  rw [withItem, inner]
  rfl

theorem query_eq {q : Query} (parts : ∀ p ∈ (Part.query q).children, postgres.part p = .ok p.render) :
    postgres.query q = .ok q.render := by
  obtain ⟨items, inner, span⟩ := q
  simp only [Part.children, List.forall_mem_append, List.forall_mem_map, part_withItem, Part.render,
    List.forall_mem_singleton] at parts
  obtain ⟨named, body⟩ := parts
  have read : postgres.body inner = .ok inner.render := by
    rw [body_eq, body]
    cases inner <;> rfl
  have listed : commas (postgres.withAll items) = .ok (commaList (WithItem.renderAll items)) := by
    rw [withAll_eq, WithItem.renderAll_eq_map, commas_ok named]
  rw [query, listed, read]
  rfl

/-- A part has the same text if what it is made of has. -/
theorem part_eq {p : Part} (common : p.IsCommon) (parts : ∀ c ∈ p.children, postgres.part c = .ok c.render) :
    postgres.part p = .ok p.render := by
  cases p with
  | operand o => exact operand_eq common (List.forall_mem_map.1 parts)
  | constraint c => exact constraint_eq parts
  | fromItem item => exact fromItem_eq parts
  | offset o => rfl
  | select q => exact selectQuery_eq common parts
  | set o => exact common.elim
  | withItem item => exact withItem_eq (parts (.query item.query) (List.mem_singleton_self _))
  | query q => exact query_eq parts

/-- A query has the same text in PostgreSQL if nothing in it, at any depth, is written otherwise. -/
theorem query_eq_render (q : Query) (common : ∀ p ∈ (Part.query q).all, p.IsCommon) :
    postgres.query q = .ok q.render := by
  suffices written : ∀ p : Part, (∀ c ∈ p.all, c.IsCommon) → postgres.part p = .ok p.render from written (.query q) common
  intro p
  have below := wellFounded_of_shrinks Part.sizeOf_lt_of_mem_children
  induction p using below.induction with
  | h p ih =>
    intro common
    rw [Part.all, forall_mem_descent] at common
    exact part_eq common.1 fun c member => ih c member (common.2 c member)

/-- A minus sign before a name. -/
theorem query_eq_render_negative :
    let a : Operand := .column { column := ⟨"a", true⟩ } none
    let t : FromItem := .table { table := ⟨"t", false⟩ } none none
    let q : Query := ⟨[], .select ⟨⟨true, none, [.expr (.negative a none) none], none⟩, [t], none, [], none, [], none, none⟩, none⟩
    (∀ p ∈ (Part.query q).all, p.IsCommon) ∧ postgres.query q = .ok "SELECT DISTINCT -\"a\"\nFROM t" := by
  intro a t q
  have node {p : Part} (here : p.IsCommon) (below : ∀ c ∈ p.children, ∀ b ∈ c.all, b.IsCommon) : ∀ b ∈ p.all, b.IsCommon := by
    rw [Part.all, forall_mem_descent]
    exact ⟨here, below⟩
  have column : ∀ p ∈ (Part.operand a).all, p.IsCommon := node trivial (by simp [a, Part.children, Operand.children])
  have negative : ∀ p ∈ (Part.operand (.negative a none)).all, p.IsCommon :=
    node (show a.render.toList.head? ≠ some '-' by decide +kernel) (List.forall_mem_singleton.2 column)
  have table : ∀ p ∈ (Part.fromItem t).all, p.IsCommon := node trivial (by simp [t, Part.children])
  have common : ∀ p ∈ (Part.query q).all, p.IsCommon :=
    node trivial (List.forall_mem_singleton.2 (node rfl (List.forall_mem_cons.2 ⟨negative, List.forall_mem_singleton.2 table⟩)))
  have written : q.render = "SELECT DISTINCT -\"a\"\nFROM t" := by decide +kernel
  exact ⟨common, by rw [query_eq_render q common, written]⟩

end Sql

end SkyQuery
