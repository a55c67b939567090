import SkyQuery.Proofs.Tree.Related

/-!
# Trees under other names

`Query.Renamed I` relates queries that are one but for their identifiers, each of which is related by `I`
to the one in its place. The places of the two queries are the same.
-/

namespace SkyQuery

/-- Regular identifiers that differ in letter case only. -/
structure Identifier.Recased (i j : Identifier) : Prop where
  left : i.delimited = false
  right : j.delimited = false
  name : Text.sameLetters i.name j.name = true

/-! ### Expressions -/

inductive Operand.Renamed (I : Identifier → Identifier → Prop) : Operand → Operand → Prop where
  | numeric {text : String} {span : Option Span} : Operand.Renamed I (.numeric text span) (.numeric text span)
  | string {value : String} {span : Option Span} : Operand.Renamed I (.string value span) (.string value span)
  | column {c c' : ColumnRef} {span : Option Span} (ref : c.Renamed I c') :
    Operand.Renamed I (.column c span) (.column c' span)
  | negative {o o' : Operand} {span : Option Span} (inner : o.Renamed I o') :
    Operand.Renamed I (.negative o span) (.negative o' span)
  | operation {l l' r r' : Operand} {op : ArithOp} {span : Option Span} (left : l.Renamed I l')
    (right : r.Renamed I r') : Operand.Renamed I (.operation l op r span) (.operation l' op r' span)
  | concatenation {os os' : List Operand} {span : Option Span} (parts : List.Forall₂ (Operand.Renamed I) os os') :
    Operand.Renamed I (.concatenation os span) (.concatenation os' span)
  | wrapped {o o' : Operand} {span : Option Span} (inner : o.Renamed I o') :
    Operand.Renamed I (.wrapped o span) (.wrapped o' span)
  | math {fn : MathFn} {os os' : List Operand} {span : Option Span} (args : List.Forall₂ (Operand.Renamed I) os os') :
    Operand.Renamed I (.math fn os span) (.math fn os' span)
  | aggregate {fn : AggregateFn} {distinct : Bool} {o o' : Option Operand} {span : Option Span}
    (arg : Option.Rel (Operand.Renamed I) o o') :
    Operand.Renamed I (.aggregate fn distinct o span) (.aggregate fn distinct o' span)
  | geometry {fn : GeometryFn} {sys sys' : Option Operand} {os os' : List Operand} {span : Option Span}
    (coordSys : Option.Rel (Operand.Renamed I) sys sys') (args : List.Forall₂ (Operand.Renamed I) os os') :
    Operand.Renamed I (.geometry fn sys os span) (.geometry fn sys' os' span)
  | lower {o o' : Operand} {span : Option Span} (value : o.Renamed I o') :
    Operand.Renamed I (.lower o span) (.lower o' span)
  | upper {o o' : Operand} {span : Option Span} (value : o.Renamed I o') :
    Operand.Renamed I (.upper o span) (.upper o' span)
  | coalesce {os os' : List Operand} {span : Option Span} (args : List.Forall₂ (Operand.Renamed I) os os') :
    Operand.Renamed I (.coalesce os span) (.coalesce os' span)
  | inUnit {o o' u u' : Operand} {span : Option Span} (value : o.Renamed I o') (unit : u.Renamed I u') :
    Operand.Renamed I (.inUnit o u span) (.inUnit o' u' span)
  | cast {o o' : Operand} {target : CastType} {span : Option Span} (value : o.Renamed I o') :
    Operand.Renamed I (.cast o target span) (.cast o' target span)
  | userDefined {i i' : Identifier} {os os' : List Operand} {span : Option Span} (name : I i i')
    (args : List.Forall₂ (Operand.Renamed I) os os') :
    Operand.Renamed I (.userDefined i os span) (.userDefined i' os' span)

section Operands

variable {I : Identifier → Identifier → Prop}

theorem Operand.Renamed.span {o o' : Operand} (h : o.Renamed I o') : o.span = o'.span := by cases h <;> rfl

theorem Operand.Renamed.asColumn? {o o' : Operand} (h : o.Renamed I o') :
    Option.Rel (ColumnRef.Renamed I) o.asColumn? o'.asColumn? := by
  cases h with
  | column ref => exact .some ref
  | _ => exact .none

theorem Operand.Renamed.children {o o' : Operand} (h : o.Renamed I o') :
    List.Forall₂ (Operand.Renamed I) o.children o'.children := by
  have listed {a a' : Option Operand} (here : Option.Rel (Operand.Renamed I) a a') :
      List.Forall₂ (Operand.Renamed I) a.toList a'.toList := by
    cases here with
    | some same => exact .cons same .nil
    | none => exact .nil
  cases h with
  | numeric | string | column => exact .nil
  | negative inner | wrapped inner => exact .cons inner .nil
  | lower value | upper value | cast value => exact .cons value .nil
  | operation left right => exact .cons left (.cons right .nil)
  | inUnit value unit => exact .cons value (.cons unit .nil)
  | concatenation parts => exact parts
  | math args | coalesce args | userDefined _ args => exact args
  | aggregate arg => exact listed arg
  | geometry coordSys args => exact List.rel_append (listed coordSys) args

theorem Operand.Renamed.nodes {o o' : Operand} (h : o.Renamed I o') :
    List.Forall₂ (Operand.Renamed I) o.nodes o'.nodes := by
  induction o using Operand.byParts generalizing o' with
  | step o ih =>
    rw [Operand.nodes_eq, Operand.nodes_eq]
    refine .cons h ?_
    have below := h.children
    generalize o.children = parts at below ih
    generalize o'.children = parts' at below
    induction below with
    | nil => exact .nil
    | cons here _ others =>
      rw [List.flatMap_cons, List.flatMap_cons]
      exact List.rel_append (ih _ List.mem_cons_self here) (others fun c member => ih c (List.mem_cons_of_mem _ member))

theorem Operand.Renamed.allNodes {os os' : List Operand} (h : List.Forall₂ (Operand.Renamed I) os os') :
    List.Forall₂ (Operand.Renamed I) (Operand.allNodes os) (Operand.allNodes os') := by
  rw [Operand.allNodes_eq_flatMap, Operand.allNodes_eq_flatMap]
  exact List.rel_flatMap h fun _ _ here => here.nodes

theorem Operand.Renamed.refl (hI : ∀ i, I i i) (o : Operand) : o.Renamed I o := by
  induction o using Operand.byParts with
  | step o ih =>
    cases o with
    | numeric text span => exact .numeric
    | string value span => exact .string
    | column ref span => exact .column ⟨rel_self fun t _ => TableName.Renamed.refl hI t, hI ref.column⟩
    | negative inner span => exact .negative (ih inner (by simp [Operand.children]))
    | operation l op r span => exact .operation (ih l (by simp [Operand.children])) (ih r (by simp [Operand.children]))
    | concatenation parts span => exact .concatenation (List.forall₂_same.2 ih)
    | wrapped inner span => exact .wrapped (ih inner (by simp [Operand.children]))
    | math fn args span => exact .math (List.forall₂_same.2 ih)
    | aggregate fn distinct arg span =>
      exact .aggregate (rel_self fun a here => ih a (by simpa [Operand.children] using here))
    | geometry fn sys args span =>
      refine .geometry (rel_self fun a here => ih a ?_) (List.forall₂_same.2 fun a member => ih a ?_)
      · exact List.mem_append_left _ (Option.mem_toList.2 here)
      · exact List.mem_append_right _ member
    | lower value span => exact .lower (ih value (by simp [Operand.children]))
    | upper value span => exact .upper (ih value (by simp [Operand.children]))
    | coalesce args span => exact .coalesce (List.forall₂_same.2 ih)
    | inUnit value unit span =>
      exact .inUnit (ih value (by simp [Operand.children])) (ih unit (by simp [Operand.children]))
    | cast value target span => exact .cast (ih value (by simp [Operand.children]))
    | userDefined name args span => exact .userDefined (hI name) (List.forall₂_same.2 ih)

end Operands

/-! ### Queries -/

section Queries

variable (I : Identifier → Identifier → Prop)

abbrev SelectItem.Renamed : SelectItem → SelectItem → Prop := SelectItem.Related I (Operand.Renamed I)

abbrev Query.Renamed : Query → Query → Prop := Query.Related I (Operand.Renamed I)

abbrev WithItem.Renamed : WithItem → WithItem → Prop := WithItem.Related I (Operand.Renamed I)

abbrev QueryBody.Renamed : QueryBody → QueryBody → Prop := QueryBody.Related I (Operand.Renamed I)

abbrev SelectQuery.Renamed : SelectQuery → SelectQuery → Prop := SelectQuery.Related I (Operand.Renamed I)

abbrev FromItem.Renamed : FromItem → FromItem → Prop := FromItem.Related I (Operand.Renamed I)

abbrev JoinCondition.Renamed : JoinCondition → JoinCondition → Prop := JoinCondition.Related I (Operand.Renamed I)

abbrev Constraint.Renamed : Constraint → Constraint → Prop := Constraint.Related I (Operand.Renamed I)

variable {I}

theorem Query.Renamed.refl (hI : ∀ i, I i i) (q : Query) : q.Renamed I q :=
  Query.Related.refl hI (Operand.Renamed.refl hI) q

end Queries

end SkyQuery
