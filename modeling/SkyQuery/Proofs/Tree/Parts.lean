import Mathlib.Data.List.Perm.Basic
import SkyQuery.Proofs.Tree.Unplaced
import SkyQuery.Proofs.Tree.WellFormed

/-!
# Parts of trees

`Part` is anything that a tree is made of, with its direct parts, and `descent` lists all that is
below a root. A walk that visits the right things at each step visits each of them exactly once.
-/

namespace SkyQuery

section Descent

variable {α β : Type} {children : α → List α}

theorem wellFounded_of_shrinks {size : α → Nat} (shrinks : ∀ a, ∀ c ∈ children a, size c < size a) :
    WellFounded fun c a => c ∈ children a :=
  Subrelation.wf (fun h => shrinks _ _ h) (measure size).wf

/-- A root and all that is below it. -/
def descent (children : α → List α) (below : WellFounded fun c a => c ∈ children a) (a : α) : List α :=
  a :: (children a).attach.flatMap fun c => descent children below c.1
termination_by below.wrap a
decreasing_by exact c.2

variable {below : WellFounded fun c a => c ∈ children a}

theorem descent_eq (a : α) :
    descent children below a = a :: (children a).flatMap (descent children below) := by
  rw [descent, List.flatMap_subtype (g := descent children below) (by simp), List.unattach_attach]

theorem forall_mem_descent {P : α → Prop} {a : α} :
    (∀ b ∈ descent children below a, P b) ↔
      P a ∧ ∀ c ∈ children a, ∀ b ∈ descent children below c, P b := by
  rw [descent_eq]
  simp only [List.mem_cons, List.mem_flatMap, forall_eq_or_imp]
  constructor
  · rintro ⟨here, below⟩
    exact ⟨here, fun c hc b hb => below b ⟨c, hc, hb⟩⟩
  · rintro ⟨here, below⟩
    refine ⟨here, ?_⟩
    rintro b ⟨c, hc, hb⟩
    exact below c hc b hb

include below in
/-- What passes from everything to what is directly below passes to all that is below. -/
theorem forall_descent_of_children {P : α → Prop} (inherited : ∀ a, P a → ∀ c ∈ children a, P c) (a : α) (h : P a) :
    ∀ b ∈ descent children below a, P b := by
  induction a using below.induction with
  | h a ih =>
    rw [forall_mem_descent]
    exact ⟨h, fun c hc => ih c hc (inherited a h c hc)⟩

/-- A walk that contributes `head` at each step contributes it for all that is below its start. -/
theorem walk_perm (head walk : α → List β)
    (step : ∀ a, (walk a).Perm (head a ++ (children a).flatMap walk)) (a : α) :
    (walk a).Perm ((descent children below a).flatMap head) := by
  induction a using below.induction with
  | h a ih =>
    rw [descent_eq, List.flatMap_cons, List.flatMap_assoc]
    exact (step a).trans (.append_left _ (.flatMap_left _ ih))

end Descent

/-! ### Parts -/

/-- Anything that a tree is made of. -/
inductive Part where
  | operand (o : Operand)
  | constraint (c : Constraint)
  | fromItem (item : FromItem)
  | offset (o : Offset)
  | select (q : SelectQuery)
  | set (o : SetOperation)
  | withItem (item : WithItem)
  | query (q : Query)

def QueryBody.part : QueryBody → Part
  | .select q => .select q
  | .set o => .set o

def SelectItem.operand? : SelectItem → Option Operand
  | .expr operand _ => some operand
  | .all _ | .allOf _ _ => none

def JoinCondition.constraint? : JoinCondition → Option Constraint
  | .on condition => some condition
  | .unstated | .sharing _ => none

/-- The parts that end a query. -/
def tailParts (orderBy : List OrderItem) (offset : Option Offset) : List Part :=
  orderBy.map (fun item => .operand item.expr) ++ offset.toList.map .offset

namespace Part

/-- What a part is directly made of. -/
def children : Part → List Part
  | .operand o => o.children.map .operand
  | .constraint c => c.operands.map .operand ++ c.children.map .constraint ++ c.subqueries.map .query
  | .fromItem (.table ..) => []
  | .fromItem (.subquery q ..) => [.query q]
  | .fromItem (.join left _ _ right condition _) =>
    [.fromItem left, .fromItem right] ++ condition.constraint?.toList.map .constraint
  | .offset _ => []
  | .select q =>
    (q.clause.items.filterMap SelectItem.operand?).map .operand ++ q.source.map .fromItem ++
      q.filter.toList.map .constraint ++ q.groupBy.map .operand ++ q.having.toList.map .constraint ++
      tailParts q.orderBy q.offset
  | .set o => [o.left.part, o.right.part] ++ tailParts o.orderBy o.offset
  | .withItem item => [.query item.query]
  | .query q => q.withItems.map .withItem ++ [q.body.part]

def span : Part → Option Span
  | .operand o => o.span
  | .constraint c => c.span
  | .fromItem item => item.span
  | .offset o => o.span
  | .select q => q.span
  | .set o => o.span
  | .withItem item => item.span
  | .query q => q.span

end Part

/-! ### Sizes -/

theorem QueryBody.sizeOf_part (b : QueryBody) : sizeOf b.part = sizeOf b := by cases b <;> rfl

section Sizes

variable {α : Type} [SizeOf α] {f : α → Part} {c : Part}

theorem sizeOf_lt_of_mem_map (hf : ∀ a, sizeOf (f a) = 1 + sizeOf a) {as : List α} (h : c ∈ as.map f) :
    sizeOf c < 1 + sizeOf as := by
  obtain ⟨a, member, rfl⟩ := List.mem_map.1 h
  have := List.sizeOf_lt_of_mem member
  rw [hf]
  omega

theorem sizeOf_lt_of_mem_toList_map (hf : ∀ a, sizeOf (f a) = 1 + sizeOf a) {o : Option α}
    (h : c ∈ o.toList.map f) : sizeOf c < 1 + sizeOf o := by
  obtain ⟨a, member, rfl⟩ := List.mem_map.1 h
  obtain rfl : o = some a := by simpa using member
  rw [hf]
  simp

end Sizes

theorem sizeOf_lt_of_mem_tailParts {orderBy : List OrderItem} {offset : Option Offset} {c : Part}
    (h : c ∈ tailParts orderBy offset) : sizeOf c < 1 + sizeOf orderBy + sizeOf offset := by
  unfold tailParts at h
  rcases List.mem_append.1 h with h | h
  · obtain ⟨item, member, rfl⟩ := List.mem_map.1 h
    have := List.sizeOf_lt_of_mem member
    obtain ⟨expr, descending, span⟩ := item
    simp at this ⊢
    omega
  · have := sizeOf_lt_of_mem_toList_map (fun o => by simp) h
    omega

theorem Constraint.sizeOf_lt_of_mem_parts {c : Constraint} {p : Part} (h : p ∈ (Part.constraint c).children) :
    sizeOf p < 1 + sizeOf c := by
  unfold Part.children at h
  cases c
  case inValues value values negated span =>
    have h : p ∈ (value :: values).map Part.operand := by
      simpa [Constraint.operands, Constraint.children, Constraint.subqueries] using h
    have := sizeOf_lt_of_mem_map (fun o => by simp) h
    simp at this ⊢
    omega
  all_goals
    simp [Constraint.operands, Constraint.children, Constraint.subqueries] at h
    try rcases h with rfl | rfl | rfl | rfl
    all_goals
      simp_all
      omega

theorem FromItem.sizeOf_lt_of_mem_parts {item : FromItem} {p : Part} (h : p ∈ (Part.fromItem item).children) :
    sizeOf p < 1 + sizeOf item := by
  cases item with
  | table name label span => cases h
  | subquery q label span =>
    obtain rfl := List.mem_singleton.1 h
    simp
    omega
  | join left kind natural right condition span =>
    cases condition <;> simp [Part.children, JoinCondition.constraint?] at h <;>
      rcases h with rfl | rfl | rfl <;> simp <;> omega

theorem SelectQuery.sizeOf_lt_of_mem_parts {q : SelectQuery} {p : Part} (h : p ∈ (Part.select q).children) :
    sizeOf p < 1 + sizeOf q := by
  obtain ⟨⟨distinct, top, items, place⟩, source, filter, groupBy, having, orderBy, offset, span⟩ := q
  simp only [Part.children, List.mem_append] at h
  rcases h with ((((h | h) | h) | h) | h) | h
  · obtain ⟨o, member, rfl⟩ := List.mem_map.1 h
    obtain ⟨item, mem, hitem⟩ := List.mem_filterMap.1 member
    have := List.sizeOf_lt_of_mem mem
    cases item with
    | expr operand label =>
      cases hitem
      simp at this ⊢
      omega
    | _ => cases hitem
  · have := sizeOf_lt_of_mem_map (fun o => by simp) h
    simp
    omega
  · have := sizeOf_lt_of_mem_toList_map (fun o => by simp) h
    simp
    omega
  · have := sizeOf_lt_of_mem_map (fun o => by simp) h
    simp
    omega
  · have := sizeOf_lt_of_mem_toList_map (fun o => by simp) h
    simp
    omega
  · have := sizeOf_lt_of_mem_tailParts h
    simp
    omega

theorem Part.sizeOf_lt_of_mem_children (p : Part) : ∀ c ∈ p.children, sizeOf c < sizeOf p := by
  intro c h
  cases p with
  | operand o =>
    obtain ⟨d, member, rfl⟩ := List.mem_map.1 h
    have := Operand.sizeOf_lt_of_mem_children member
    simp
    omega
  | constraint d => simpa using Constraint.sizeOf_lt_of_mem_parts h
  | fromItem item => simpa using FromItem.sizeOf_lt_of_mem_parts h
  | offset o => cases h
  | select q => simpa using SelectQuery.sizeOf_lt_of_mem_parts h
  | set o =>
    obtain ⟨left, op, all, right, orderBy, offset, span⟩ := o
    simp only [Part.children, List.cons_append, List.nil_append, List.mem_cons] at h
    rcases h with rfl | rfl | h
    · simp [QueryBody.sizeOf_part]
      omega
    · simp [QueryBody.sizeOf_part]
      omega
    · have := sizeOf_lt_of_mem_tailParts h
      simp
      omega
  | withItem item =>
    obtain ⟨name, columns, query, span⟩ := item
    obtain rfl := List.mem_singleton.1 h
    simp
    omega
  | query q =>
    obtain ⟨items, body, span⟩ := q
    simp only [Part.children, List.mem_append, List.mem_singleton] at h
    rcases h with h | rfl
    · have := sizeOf_lt_of_mem_map (fun o => by simp) h
      simp
      omega
    · simp [QueryBody.sizeOf_part]
      omega

/-- A part and all parts below it. -/
def Part.all (p : Part) : List Part := descent Part.children (wellFounded_of_shrinks Part.sizeOf_lt_of_mem_children) p

/-! ### Well-formed parts -/

def Part.WellFormed (v : Version) : Part → Prop
  | .operand o => o.WellFormed v
  | .constraint c => c.WellFormed v
  | .fromItem item => item.WellFormed v
  | .offset o => o.WellFormed v
  | .select q => q.WellFormed v
  | .set o => o.WellFormed v
  | .withItem item => item.WellFormed v
  | .query q => q.WellFormed v

variable {v : Version}

theorem Query.Nested.wellFormed {q : Query} (h : q.Nested v) : q.WellFormed v := by
  obtain ⟨items, body, span⟩ := q
  obtain ⟨rfl, hbody⟩ := h
  exact ⟨by simp, hbody⟩

theorem QueryBody.WellFormed.part {b : QueryBody} (h : b.WellFormed v) : b.part.WellFormed v := by
  cases b <;> exact h

theorem TailRule.parts {orderBy : List OrderItem} {offset : Option Offset} (h : TailRule v orderBy offset) :
    ∀ p ∈ tailParts orderBy offset, p.WellFormed v := by
  intro p member
  unfold tailParts at member
  rcases List.mem_append.1 member with member | member
  · obtain ⟨item, hitem, rfl⟩ := List.mem_map.1 member
    exact (h.1 item hitem).1
  · obtain ⟨o, ho, rfl⟩ := List.mem_map.1 member
    exact h.2 o (by simpa using ho)

theorem Constraint.WellFormed.parts {c : Constraint} (h : c.WellFormed v) :
    ∀ p ∈ (Part.constraint c).children, p.WellFormed v := by
  cases c with
  | inValues value values negated span =>
    obtain ⟨-, hvalue, hvalues⟩ := h
    have all : ∀ o ∈ value :: values, o.WellFormed v := List.forall_mem_cons.2 ⟨hvalue, hvalues⟩
    intro p member
    have member : p ∈ (value :: values).map Part.operand := by
      simpa [Part.children, Constraint.operands, Constraint.children, Constraint.subqueries] using member
    obtain ⟨o, ho, rfl⟩ := List.mem_map.1 member
    exact all o ho
  | inQuery value query negated span =>
    obtain ⟨hvalue, hquery⟩ := h
    have := hquery.wellFormed
    simp_all [Part.children, Constraint.operands, Constraint.children, Constraint.subqueries, Part.WellFormed]
  | nonEmpty query span =>
    have hquery : query.Nested v := h
    have := hquery.wellFormed
    simp_all [Part.children, Constraint.operands, Constraint.children, Constraint.subqueries, Part.WellFormed]
  | _ =>
    unfold WellFormed at h
    simp_all [Part.children, Constraint.operands, Constraint.children, Constraint.subqueries, Part.WellFormed]

theorem FromItem.WellFormed.parts {item : FromItem} (h : item.WellFormed v) :
    ∀ p ∈ (Part.fromItem item).children, p.WellFormed v := by
  cases item with
  | table name label span =>
    intro p member
    cases member
  | subquery query label span =>
    obtain ⟨hquery, -⟩ := h
    intro p member
    obtain rfl := List.mem_singleton.1 member
    exact hquery.wellFormed
  | join left kind natural right condition span =>
    obtain ⟨-, -, hleft, hright, hcondition⟩ := h
    cases condition with
    | on condition =>
      have hcondition : condition.WellFormed v := hcondition
      simp_all [Part.children, JoinCondition.constraint?, Part.WellFormed]
    | _ => simp_all [Part.children, JoinCondition.constraint?, Part.WellFormed]

theorem SelectQuery.WellFormed.parts {q : SelectQuery} (h : q.WellFormed v) :
    ∀ p ∈ (Part.select q).children, p.WellFormed v := by
  obtain ⟨clause, source, filter, groupBy, having, orderBy, offset, span⟩ := q
  obtain ⟨hclause, -, hsource, hfilter, hgroupBy, hhaving, tail⟩ := h
  rw [FromItem.allWellFormed_iff] at hsource
  rw [Constraint.eachWellFormed_iff] at hfilter hhaving
  intro p member
  simp only [Part.children, List.mem_append] at member
  rcases member with ((((h | h) | h) | h) | h) | h
  · obtain ⟨o, ho, rfl⟩ := List.mem_map.1 h
    obtain ⟨item, hitem, found⟩ := List.mem_filterMap.1 ho
    have formed := hclause.2.2 item hitem
    cases item with
    | expr operand label =>
      cases found
      exact formed.1
    | _ => cases found
  · obtain ⟨item, hitem, rfl⟩ := List.mem_map.1 h
    exact hsource item hitem
  · obtain ⟨c, hc, rfl⟩ := List.mem_map.1 h
    exact hfilter c (by simpa using hc)
  · obtain ⟨o, ho, rfl⟩ := List.mem_map.1 h
    exact (hgroupBy o ho).1
  · obtain ⟨c, hc, rfl⟩ := List.mem_map.1 h
    exact hhaving c (by simpa using hc)
  · exact tail.parts p h

theorem Part.WellFormed.children {p : Part} (h : p.WellFormed v) : ∀ c ∈ p.children, c.WellFormed v := by
  cases p with
  | operand o =>
    obtain ⟨-, parts⟩ := h
    intro c member
    obtain ⟨d, hd, rfl⟩ := List.mem_map.1 member
    exact parts d hd
  | constraint c => exact Constraint.WellFormed.parts h
  | fromItem item => exact FromItem.WellFormed.parts h
  | offset o =>
    intro c member
    cases member
  | select q => exact SelectQuery.WellFormed.parts h
  | set o =>
    obtain ⟨left, op, all, right, orderBy, offset, span⟩ := o
    obtain ⟨-, -, -, -, -, hleft, hright, tail⟩ := h
    intro c member
    simp only [Part.children, List.cons_append, List.nil_append, List.mem_cons] at member
    rcases member with rfl | rfl | member
    · exact hleft.part
    · exact hright.part
    · exact tail.parts c member
  | withItem item =>
    obtain ⟨-, -, -, hquery⟩ := h
    intro p member
    obtain rfl := List.mem_singleton.1 member
    exact hquery.wellFormed
  | query q =>
    obtain ⟨hwith, hbody⟩ := h
    intro c member
    rcases List.mem_append.1 member with member | member
    · obtain ⟨item, hitem, rfl⟩ := List.mem_map.1 member
      exact hwith item hitem
    · obtain rfl := List.mem_singleton.1 member
      exact hbody.part

/-- All parts of a well-formed tree are well formed. -/
theorem Part.WellFormed.all {p : Part} (h : p.WellFormed v) : ∀ c ∈ p.all, c.WellFormed v :=
  forall_descent_of_children (fun _ h => h.children) p h

end SkyQuery
