import Mathlib.Data.List.Forall2
import SkyQuery.Proofs.Tree.Unplaced
import SkyQuery.Proofs.Tree.Walk

/-!
# Trees of one shape

`Query.Related I R` relates queries that are one but for their identifiers and their outermost expressions:
those in one place are related by `I` and by `R`. The places are the same.
-/

namespace SkyQuery

/-! ### Names -/

structure TableName.Renamed (I : Identifier → Identifier → Prop) (t t' : TableName) : Prop where
  catalog : Option.Rel I t.catalog t'.catalog
  schema : Option.Rel I t.schema t'.schema
  table : I t.table t'.table

structure ColumnRef.Renamed (I : Identifier → Identifier → Prop) (c c' : ColumnRef) : Prop where
  table : Option.Rel (TableName.Renamed I) c.table c'.table
  column : I c.column c'.column

/-! ### Clauses -/

section Related

variable (I : Identifier → Identifier → Prop) (R : Operand → Operand → Prop)

inductive SelectItem.Related : SelectItem → SelectItem → Prop where
  | all {span : Option Span} : SelectItem.Related (.all span) (.all span)
  | allOf {t t' : TableName} {span : Option Span} (table : t.Renamed I t') :
    SelectItem.Related (.allOf t span) (.allOf t' span)
  | expr {o o' : Operand} {i i' : Option Identifier} (operand : R o o') (label : Option.Rel I i i') :
    SelectItem.Related (.expr o i) (.expr o' i')

structure SelectClause.Related (c c' : SelectClause) : Prop where
  distinct : c.distinct = c'.distinct
  top : c.top = c'.top
  items : List.Forall₂ (SelectItem.Related I R) c.items c'.items
  span : c.span = c'.span

structure OrderItem.Related (o o' : OrderItem) : Prop where
  expr : R o.expr o'.expr
  descending : o.descending = o'.descending
  span : o.span = o'.span

/-! ### Queries -/

mutual

/-- The same query but for its identifiers outside of expressions, related by `I`, and its outermost expressions,
related by `R`. -/
inductive Query.Related : Query → Query → Prop where
  | intro {items items' : List WithItem} {b b' : QueryBody} {span : Option Span}
    (withItems : List.Forall₂ WithItem.Related items items') (body : b.Related b') :
    Query.Related ⟨items, b, span⟩ ⟨items', b', span⟩

inductive WithItem.Related : WithItem → WithItem → Prop where
  | intro {i i' : Identifier} {is is' : List Identifier} {q q' : Query} {span : Option Span}
    (name : I i i') (columns : List.Forall₂ I is is') (query : q.Related q') :
    WithItem.Related ⟨i, is, q, span⟩ ⟨i', is', q', span⟩

inductive QueryBody.Related : QueryBody → QueryBody → Prop where
  | select {q q' : SelectQuery} (query : q.Related q') : QueryBody.Related (.select q) (.select q')
  | set {l l' r r' : QueryBody} {op : SetOperator} {all : Bool} {order order' : List OrderItem}
    {offset : Option Offset} {span : Option Span} (left : l.Related l') (right : r.Related r')
    (orderBy : List.Forall₂ (OrderItem.Related R) order order') :
    QueryBody.Related (.set ⟨l, op, all, r, order, offset, span⟩) (.set ⟨l', op, all, r', order', offset, span⟩)

inductive SelectQuery.Related : SelectQuery → SelectQuery → Prop where
  | intro {select select' : SelectClause} {items items' : List FromItem} {filter filter' : Option Constraint}
    {groups groups' : List Operand} {having having' : Option Constraint} {order order' : List OrderItem}
    {offset : Option Offset} {span : Option Span} (clause : select.Related I R select')
    (source : List.Forall₂ FromItem.Related items items')
    (filtered : Option.Rel Constraint.Related filter filter')
    (groupBy : List.Forall₂ R groups groups')
    (grouped : Option.Rel Constraint.Related having having')
    (orderBy : List.Forall₂ (OrderItem.Related R) order order') :
    SelectQuery.Related ⟨select, items, filter, groups, having, order, offset, span⟩
      ⟨select', items', filter', groups', having', order', offset, span⟩

inductive FromItem.Related : FromItem → FromItem → Prop where
  | table {t t' : TableName} {i i' : Option Identifier} {span : Option Span} (name : t.Renamed I t')
    (label : Option.Rel I i i') : FromItem.Related (.table t i span) (.table t' i' span)
  | subquery {q q' : Query} {i i' : Identifier} {span : Option Span} (query : q.Related q') (label : I i i') :
    FromItem.Related (.subquery q i span) (.subquery q' i' span)
  | join {l l' r r' : FromItem} {kind : JoinKind} {natural : Bool} {c c' : JoinCondition} {span : Option Span}
    (left : l.Related l') (right : r.Related r') (condition : c.Related c') :
    FromItem.Related (.join l kind natural r c span) (.join l' kind natural r' c' span)

inductive JoinCondition.Related : JoinCondition → JoinCondition → Prop where
  | unstated : JoinCondition.Related .unstated .unstated
  | on {c c' : Constraint} (condition : c.Related c') : JoinCondition.Related (.on c) (.on c')
  | sharing {is is' : List Identifier} (columns : List.Forall₂ I is is') :
    JoinCondition.Related (.sharing is) (.sharing is')

inductive Constraint.Related : Constraint → Constraint → Prop where
  | comparison {l l' r r' : Operand} {op : ComparisonOp} {span : Option Span} (left : R l l')
    (right : R r r') : Constraint.Related (.comparison l op r span) (.comparison l' op r' span)
  | between {o o' l l' h h' : Operand} {negated : Bool} {span : Option Span} (value : R o o')
    (low : R l l') (high : R h h') :
    Constraint.Related (.between o l h negated span) (.between o' l' h' negated span)
  | inValues {o o' : Operand} {os os' : List Operand} {negated : Bool} {span : Option Span}
    (value : R o o') (values : List.Forall₂ R os os') :
    Constraint.Related (.inValues o os negated span) (.inValues o' os' negated span)
  | inQuery {o o' : Operand} {q q' : Query} {negated : Bool} {span : Option Span}
    (value : R o o') (query : q.Related q') :
    Constraint.Related (.inQuery o q negated span) (.inQuery o' q' negated span)
  | isNull {o o' : Operand} {negated : Bool} {span : Option Span} (value : R o o') :
    Constraint.Related (.isNull o negated span) (.isNull o' negated span)
  | nonEmpty {q q' : Query} {span : Option Span} (query : q.Related q') :
    Constraint.Related (.nonEmpty q span) (.nonEmpty q' span)
  | not {c c' : Constraint} {span : Option Span} (inner : c.Related c') :
    Constraint.Related (.not c span) (.not c' span)
  | and {l l' r r' : Constraint} {span : Option Span} (left : l.Related l') (right : r.Related r') :
    Constraint.Related (.and l r span) (.and l' r' span)
  | or {l l' r r' : Constraint} {span : Option Span} (left : l.Related l') (right : r.Related r') :
    Constraint.Related (.or l r span) (.or l' r' span)
  | group {c c' : Constraint} {span : Option Span} (inner : c.Related c') :
    Constraint.Related (.group c span) (.group c' span)

end

inductive Fragment.Related : Fragment → Fragment → Prop where
  | query {q q' : Query} (query : q.Related I R q') : Fragment.Related (.query q) (.query q')
  | select {c c' : SelectClause} (clause : c.Related I R c') : Fragment.Related (.select c) (.select c')
  | source {source source' : List FromItem} (items : List.Forall₂ (FromItem.Related I R) source source') :
    Fragment.Related (.source source) (.source source')
  | filter {c c' : Constraint} (condition : c.Related I R c') : Fragment.Related (.filter c) (.filter c')
  | orderBy {order order' : List OrderItem} (items : List.Forall₂ (OrderItem.Related R) order order') :
    Fragment.Related (.orderBy order) (.orderBy order')
  | groupBy {os os' : List Operand} (operands : List.Forall₂ R os os') : Fragment.Related (.groupBy os) (.groupBy os')

end Related

/-! ### A tree and itself -/

section Refl

variable {I : Identifier → Identifier → Prop} {R : Operand → Operand → Prop}

theorem rel_self {α : Type} {R : α → α → Prop} {o : Option α} (each : ∀ a ∈ o, R a a) : Option.Rel R o o := by
  cases o with
  | some a => exact .some (each a rfl)
  | none => exact .none

theorem TableName.Renamed.refl (hI : ∀ i, I i i) (t : TableName) : t.Renamed I t :=
  ⟨rel_self fun i _ => hI i, rel_self fun i _ => hI i, hI t.table⟩

theorem SelectItem.Related.refl (hI : ∀ i, I i i) (hR : ∀ o, R o o) (item : SelectItem) : item.Related I R item := by
  cases item with
  | all span => exact .all
  | allOf table span => exact .allOf (TableName.Renamed.refl hI table)
  | expr operand label => exact .expr (hR operand) (rel_self fun i _ => hI i)

theorem SelectClause.Related.refl (hI : ∀ i, I i i) (hR : ∀ o, R o o) (c : SelectClause) : c.Related I R c :=
  ⟨rfl, rfl, List.forall₂_same.2 fun item _ => SelectItem.Related.refl hI hR item, rfl⟩

theorem OrderItem.Related.refl_all (hR : ∀ o, R o o) (order : List OrderItem) :
    List.Forall₂ (OrderItem.Related R) order order :=
  List.forall₂_same.2 fun o _ => ⟨hR o.expr, rfl, rfl⟩

mutual

theorem Query.Related.refl (hI : ∀ i, I i i) (hR : ∀ o, R o o) (q : Query) : q.Related I R q := by
  cases q with
  | mk items b span => exact .intro (WithItem.Related.refl_all hI hR items) (QueryBody.Related.refl hI hR b)
termination_by structural q

theorem WithItem.Related.refl_all (hI : ∀ i, I i i) (hR : ∀ o, R o o) (items : List WithItem) :
    List.Forall₂ (WithItem.Related I R) items items := by
  cases items with
  | nil => exact .nil
  | cons item rest =>
    cases item with
    | mk name columns q span =>
      have here : WithItem.Related I R ⟨name, columns, q, span⟩ ⟨name, columns, q, span⟩ :=
        .intro (hI name) (List.forall₂_same.2 fun i _ => hI i) (Query.Related.refl hI hR q)
      exact .cons here (WithItem.Related.refl_all hI hR rest)
termination_by structural items

theorem QueryBody.Related.refl (hI : ∀ i, I i i) (hR : ∀ o, R o o) (b : QueryBody) : b.Related I R b := by
  cases b with
  | select q => exact .select (SelectQuery.Related.refl hI hR q)
  | set o =>
    cases o with
    | mk l op all r order offset span =>
      exact .set (QueryBody.Related.refl hI hR l) (QueryBody.Related.refl hI hR r) (OrderItem.Related.refl_all hR order)
termination_by structural b

theorem SelectQuery.Related.refl (hI : ∀ i, I i i) (hR : ∀ o, R o o) (q : SelectQuery) : q.Related I R q := by
  cases q with
  | mk clause source filter groupBy having orderBy offset span =>
    exact .intro (SelectClause.Related.refl hI hR clause) (FromItem.Related.refl_all hI hR source)
      (Constraint.Related.refl_option hI hR filter) (List.forall₂_same.2 fun o _ => hR o)
      (Constraint.Related.refl_option hI hR having) (OrderItem.Related.refl_all hR orderBy)
termination_by structural q

theorem FromItem.Related.refl_all (hI : ∀ i, I i i) (hR : ∀ o, R o o) (items : List FromItem) :
    List.Forall₂ (FromItem.Related I R) items items := by
  cases items with
  | nil => exact .nil
  | cons item rest => exact .cons (FromItem.Related.refl hI hR item) (FromItem.Related.refl_all hI hR rest)
termination_by structural items

theorem FromItem.Related.refl (hI : ∀ i, I i i) (hR : ∀ o, R o o) (item : FromItem) : item.Related I R item := by
  cases item with
  | table name label span => exact .table (TableName.Renamed.refl hI name) (rel_self fun i _ => hI i)
  | subquery q label span => exact .subquery (Query.Related.refl hI hR q) (hI label)
  | join l kind natural r condition span =>
    exact .join (FromItem.Related.refl hI hR l) (FromItem.Related.refl hI hR r)
      (JoinCondition.Related.refl hI hR condition)
termination_by structural item

theorem JoinCondition.Related.refl (hI : ∀ i, I i i) (hR : ∀ o, R o o) (condition : JoinCondition) :
    condition.Related I R condition := by
  cases condition with
  | unstated => exact .unstated
  | on c => exact .on (Constraint.Related.refl hI hR c)
  | sharing columns => exact .sharing (List.forall₂_same.2 fun i _ => hI i)
termination_by structural condition

theorem Constraint.Related.refl_option (hI : ∀ i, I i i) (hR : ∀ o, R o o) (c : Option Constraint) :
    Option.Rel (Constraint.Related I R) c c := by
  cases c with
  | none => exact .none
  | some c => exact .some (Constraint.Related.refl hI hR c)
termination_by structural c

theorem Constraint.Related.refl (hI : ∀ i, I i i) (hR : ∀ o, R o o) (c : Constraint) : c.Related I R c := by
  cases c with
  | comparison l op r span => exact .comparison (hR l) (hR r)
  | between o l h negated span => exact .between (hR o) (hR l) (hR h)
  | inValues o os negated span => exact .inValues (hR o) (List.forall₂_same.2 fun o _ => hR o)
  | inQuery o q negated span => exact .inQuery (hR o) (Query.Related.refl hI hR q)
  | isNull o negated span => exact .isNull (hR o)
  | nonEmpty q span => exact .nonEmpty (Query.Related.refl hI hR q)
  | not c span => exact .not (Constraint.Related.refl hI hR c)
  | group c span => exact .group (Constraint.Related.refl hI hR c)
  | and l r span => exact .and (Constraint.Related.refl hI hR l) (Constraint.Related.refl hI hR r)
  | or l r span => exact .or (Constraint.Related.refl hI hR l) (Constraint.Related.refl hI hR r)
termination_by structural c

end

end Refl

/-! ### Nothing but equal parts -/

section Exact

variable {I : Identifier → Identifier → Prop} {R : Operand → Operand → Prop}

theorem eq_of_rel {α : Type} {R : α → α → Prop} {o o' : Option α} (exact : Subrelation R Eq) (h : Option.Rel R o o') :
    o = o' := by
  cases h with
  | some here => rw [exact here]
  | none => rfl

theorem eq_of_forall₂ {α : Type} {R : α → α → Prop} {l l' : List α} (exact : Subrelation R Eq)
    (h : List.Forall₂ R l l') : l = l' :=
  List.forall₂_eq_eq_eq ▸ h.imp fun _ _ here => exact here

theorem TableName.Renamed.eq (hI : Subrelation I Eq) {t t' : TableName} (h : t.Renamed I t') : t = t' := by
  obtain ⟨catalog, schema, table⟩ := t
  obtain ⟨catalog', schema', table'⟩ := t'
  rw [mk.injEq]
  exact ⟨eq_of_rel hI h.catalog, eq_of_rel hI h.schema, hI h.table⟩

theorem ColumnRef.Renamed.eq (hI : Subrelation I Eq) {c c' : ColumnRef} (h : c.Renamed I c') : c = c' := by
  obtain ⟨table, column⟩ := c
  obtain ⟨table', column'⟩ := c'
  rw [mk.injEq]
  exact ⟨eq_of_rel (fun here => TableName.Renamed.eq hI here) h.table, hI h.column⟩

theorem SelectItem.Related.eq (hI : Subrelation I Eq) (hR : Subrelation R Eq) {item item' : SelectItem}
    (h : item.Related I R item') : item = item' := by
  cases h with
  | all => rfl
  | allOf table => rw [table.eq hI]
  | expr operand label => rw [hR operand, eq_of_rel hI label]

theorem SelectClause.Related.eq (hI : Subrelation I Eq) (hR : Subrelation R Eq) {c c' : SelectClause}
    (h : c.Related I R c') : c = c' := by
  obtain ⟨distinct, top, items, span⟩ := c
  obtain ⟨distinct', top', items', span'⟩ := c'
  rw [mk.injEq]
  exact ⟨h.distinct, h.top, eq_of_forall₂ (SelectItem.Related.eq hI hR) h.items, h.span⟩

theorem OrderItem.Related.eq (hR : Subrelation R Eq) {o o' : OrderItem} (h : o.Related R o') : o = o' := by
  obtain ⟨expr, descending, span⟩ := o
  obtain ⟨expr', descending', span'⟩ := o'
  rw [mk.injEq]
  exact ⟨hR h.expr, h.descending, h.span⟩

mutual

theorem Query.Related.eq (hI : Subrelation I Eq) (hR : Subrelation R Eq) (q : Query) {q' : Query}
    (h : q.Related I R q') : q = q' := by
  cases q with
  | mk items b span =>
    cases h with
    | intro withItems body => rw [WithItem.Related.eq_all hI hR items withItems, QueryBody.Related.eq hI hR b body]
termination_by structural q

theorem WithItem.Related.eq_all (hI : Subrelation I Eq) (hR : Subrelation R Eq) (items : List WithItem)
    {items' : List WithItem} (h : List.Forall₂ (WithItem.Related I R) items items') : items = items' := by
  cases items with
  | nil =>
    cases h
    rfl
  | cons item rest =>
    cases item with
    | mk name columns q span =>
      cases h with
      | cons here others =>
        cases here with
        | intro same declared query =>
          rw [hI same, eq_of_forall₂ hI declared, Query.Related.eq hI hR q query,
            WithItem.Related.eq_all hI hR rest others]
termination_by structural items

theorem QueryBody.Related.eq (hI : Subrelation I Eq) (hR : Subrelation R Eq) (b : QueryBody) {b' : QueryBody}
    (h : b.Related I R b') : b = b' := by
  cases b with
  | select q =>
    cases h with
    | select query => rw [SelectQuery.Related.eq hI hR q query]
  | set o =>
    cases o with
    | mk l op all r order offset span =>
      cases h with
      | set left right orderBy =>
        rw [QueryBody.Related.eq hI hR l left, QueryBody.Related.eq hI hR r right,
          eq_of_forall₂ (OrderItem.Related.eq hR) orderBy]
termination_by structural b

theorem SelectQuery.Related.eq (hI : Subrelation I Eq) (hR : Subrelation R Eq) (q : SelectQuery) {q' : SelectQuery}
    (h : q.Related I R q') : q = q' := by
  cases q with
  | mk clause source filter groupBy having orderBy offset span =>
    cases h with
    | intro select items filtered groups grouped order =>
      rw [select.eq hI hR, FromItem.Related.eq_all hI hR source items,
        Constraint.Related.eq_option hI hR filter filtered, eq_of_forall₂ hR groups,
        Constraint.Related.eq_option hI hR having grouped,
        eq_of_forall₂ (OrderItem.Related.eq hR) order]
termination_by structural q

theorem FromItem.Related.eq_all (hI : Subrelation I Eq) (hR : Subrelation R Eq) (items : List FromItem)
    {items' : List FromItem} (h : List.Forall₂ (FromItem.Related I R) items items') : items = items' := by
  cases items with
  | nil =>
    cases h
    rfl
  | cons item rest =>
    cases h with
    | cons here others => rw [FromItem.Related.eq hI hR item here, FromItem.Related.eq_all hI hR rest others]
termination_by structural items

theorem FromItem.Related.eq (hI : Subrelation I Eq) (hR : Subrelation R Eq) (item : FromItem) {item' : FromItem}
    (h : item.Related I R item') : item = item' := by
  cases item with
  | table name label span =>
    cases h with
    | table same shown => rw [same.eq hI, eq_of_rel hI shown]
  | subquery q label span =>
    cases h with
    | subquery query shown => rw [Query.Related.eq hI hR q query, hI shown]
  | join l kind natural r condition span =>
    cases h with
    | join left right matched =>
      rw [FromItem.Related.eq hI hR l left, FromItem.Related.eq hI hR r right,
        JoinCondition.Related.eq hI hR condition matched]
termination_by structural item

theorem JoinCondition.Related.eq (hI : Subrelation I Eq) (hR : Subrelation R Eq) (condition : JoinCondition)
    {condition' : JoinCondition} (h : condition.Related I R condition') : condition = condition' := by
  cases condition with
  | unstated =>
    cases h
    rfl
  | on c =>
    cases h with
    | on here => rw [Constraint.Related.eq hI hR c here]
  | sharing columns =>
    cases h with
    | sharing same => rw [eq_of_forall₂ hI same]
termination_by structural condition

theorem Constraint.Related.eq_option (hI : Subrelation I Eq) (hR : Subrelation R Eq) (c : Option Constraint)
    {c' : Option Constraint} (h : Option.Rel (Constraint.Related I R) c c') : c = c' := by
  cases c with
  | none =>
    cases h
    rfl
  | some c =>
    cases h with
    | some here => rw [Constraint.Related.eq hI hR c here]
termination_by structural c

theorem Constraint.Related.eq (hI : Subrelation I Eq) (hR : Subrelation R Eq) (c : Constraint) {c' : Constraint}
    (h : c.Related I R c') : c = c' := by
  cases c with
  | comparison => cases h with | comparison left right => rw [hR left, hR right]
  | between => cases h with | between value low high => rw [hR value, hR low, hR high]
  | inValues => cases h with | inValues value values => rw [hR value, eq_of_forall₂ hR values]
  | inQuery _ q => cases h with | inQuery value query => rw [hR value, Query.Related.eq hI hR q query]
  | isNull => cases h with | isNull value => rw [hR value]
  | nonEmpty q => cases h with | nonEmpty query => rw [Query.Related.eq hI hR q query]
  | not c => cases h with | not inner => rw [Constraint.Related.eq hI hR c inner]
  | group c => cases h with | group inner => rw [Constraint.Related.eq hI hR c inner]
  | and l r =>
    cases h with
    | and left right => rw [Constraint.Related.eq hI hR l left, Constraint.Related.eq hI hR r right]
  | or l r =>
    cases h with
    | or left right => rw [Constraint.Related.eq hI hR l left, Constraint.Related.eq hI hR r right]
termination_by structural c

end

theorem Fragment.Related.eq (hI : Subrelation I Eq) (hR : Subrelation R Eq) {t t' : Fragment} (h : t.Related I R t') :
    t = t' := by
  cases h with
  | query query => rw [Query.Related.eq hI hR _ query]
  | select clause => rw [clause.eq hI hR]
  | source items => rw [FromItem.Related.eq_all hI hR _ items]
  | filter condition => rw [Constraint.Related.eq hI hR _ condition]
  | orderBy items => rw [eq_of_forall₂ (OrderItem.Related.eq hR) items]
  | groupBy operands => rw [eq_of_forall₂ hR operands]

end Exact

end SkyQuery
