import SkyQuery.Proofs.Check.Complete
import SkyQuery.Tree.Replace

/-!
# Parentheses and coordinate systems

A coordinate system is judged if it is a string literal. In parentheses it is still the same system,
but it is no longer judged: `Check.coordSystems_dressed` says which faults are lost that way.
-/

namespace SkyQuery

open Grammar

/-! ### Trees with more parentheses -/

namespace Operand

/-- An expression in any number of pairs of parentheses. -/
inductive InParentheses (inner : Operand) : Operand → Prop
  | none : InParentheses inner inner
  | more {o : Operand} {span : Option Span} : InParentheses inner o → InParentheses inner (.wrapped o span)

/-- An expression in which literals that are coordinate systems, at any depth, are put in more
parentheses. -/
inductive Dressed : Operand → Operand → Prop
  | node {o o' : Operand} (same : o.hollow = o'.hollow) (parts : List.Forall₂ Dressed o.children o'.children) :
    Dressed o o'
  | sys {fn : GeometryFn} {text : String} {place span : Option Span} {sys sys' : Operand} {args args' : List Operand}
    (literal : InParentheses (.string text place) sys) (more : InParentheses sys sys')
    (parts : List.Forall₂ Dressed args args') :
    Dressed (.geometry fn (some sys) args span) (.geometry fn (some sys') args' span)

/-- The coordinate system of a shape. -/
def coordSys? : Operand → Option Operand
  | .geometry _ sys _ _ => sys
  | _ => none

end Operand

/-- The outermost operands of a tree. -/
def Fragment.outermost (t : Fragment) : List Operand :=
  t.nodes.flatMap fun
    | .operand o => [o]
    | _ => []

/-- A tree in which literals that are coordinate systems are put in more parentheses. -/
structure Fragment.Dressed (t t' : Fragment) : Prop where
  /-- The trees are the same but for their operands. -/
  frame : t.replace (fun _ => some .blank) = t'.replace fun _ => some .blank
  operands : List.Forall₂ Operand.Dressed t.outermost t'.outermost

/-- The coordinate systems of a tree in the order of the text. -/
def Fragment.systems (t : Fragment) : List Operand := t.operands.filterMap Operand.coordSys?

/-! ### Systems stay where they are -/

namespace Operand

variable {o o' : Operand}

/-- A system that is a literal was the same literal before. -/
def Kept (s s' : Operand) : Prop := ∀ text, s'.asString? = some text → s.asString? = some text

def systems (o : Operand) : List Operand := o.nodes.filterMap coordSys?

theorem systems_eq (o : Operand) : o.systems = o.coordSys?.toList ++ o.children.flatMap systems := by
  rw [systems, nodes_eq, List.filterMap_cons, List.filterMap_flatMap]
  cases o.coordSys? <;> rfl

theorem coordSys?_hollow (o : Operand) : o.hollow.coordSys? = o.coordSys?.map fun _ => blank := by cases o <;> rfl

theorem asString?_hollow (o : Operand) : o.hollow.asString? = o.asString? := by cases o <;> rfl

theorem children_of_coordSys? {s : Operand} (h : o.coordSys? = some s) : ∃ others, o.children = s :: others := by
  cases o with
  | geometry fn sys args span =>
    obtain rfl : sys = some s := h
    exact ⟨args, rfl⟩
  | _ => cases h

theorem InParentheses.trans {o'' : Operand} (h : InParentheses o o') (h' : InParentheses o' o'') : InParentheses o o'' := by
  induction h' with
  | none => exact h
  | more _ ih => exact .more ih

theorem InParentheses.kept (h : InParentheses o o') : Kept o o' := by
  intro text literal
  cases h with
  | none => exact literal
  | more _ => cases literal

theorem InParentheses.systems {text : String} {place : Option Span} (h : InParentheses (.string text place) o) :
    o.systems = [] := by
  induction h with
  | none => rfl
  | more _ ih =>
    rw [systems_eq, children, List.flatMap_singleton, ih]
    rfl

theorem Dressed.kept (h : Dressed o o') : Kept o o' := by
  intro text literal
  cases h with
  | node same _ => rw [← asString?_hollow, same, asString?_hollow, literal]
  | sys _ _ _ => cases literal

/-- Both have a system, and one is the other with more parentheses in it, or none has one. -/
theorem coordSys?_of_hollow (same : o.hollow = o'.hollow) (parts : List.Forall₂ Dressed o.children o'.children) :
    List.Forall₂ Kept o.coordSys?.toList o'.coordSys?.toList := by
  have both := congrArg coordSys? same
  rw [coordSys?_hollow, coordSys?_hollow] at both
  cases hs : o.coordSys? with
  | none =>
    rw [hs, Option.map_none, eq_comm, Option.map_eq_none_iff] at both
    rw [both]
    exact .nil
  | some s =>
    cases hs' : o'.coordSys? with
    | none => simp [hs, hs'] at both
    | some s' =>
      obtain ⟨others, first⟩ := children_of_coordSys? hs
      obtain ⟨others', first'⟩ := children_of_coordSys? hs'
      rw [first, first', List.forall₂_cons] at parts
      exact .cons parts.1.kept .nil

/-- More parentheses leave each system in its place. -/
theorem Dressed.systems (h : Dressed o o') : List.Forall₂ Kept o.systems o'.systems := by
  induction o using byParts generalizing o' with
  | step o ih =>
    have below {cs cs' : List Operand} (inside : ∀ c ∈ cs, c ∈ o.children) (parts : List.Forall₂ Dressed cs cs') :
        List.Forall₂ Kept (cs.flatMap Operand.systems) (cs'.flatMap Operand.systems) := by
      have each := (List.forall₂_and_left _ _).2 ⟨inside, parts⟩
      exact List.rel_flatMap each fun c c' dressed => ih c dressed.1 dressed.2
    rw [systems_eq o, systems_eq o']
    cases h with
    | node same parts => exact List.rel_append (coordSys?_of_hollow same parts) (below (fun _ => id) parts)
    | @sys fn text place span s s' args args' literal more parts =>
      refine .cons more.kept ?_
      have plain : s.systems = [] := literal.systems
      have plain' : s'.systems = [] := (literal.trans more).systems
      simp only [children, Option.toList_some, List.cons_append, List.nil_append, List.flatMap_cons, plain, plain']
      exact below (fun c member => List.mem_cons_of_mem _ member) parts

end Operand

variable {t t' : Fragment}

theorem Fragment.systems_eq (t : Fragment) : t.systems = t.outermost.flatMap Operand.systems := by
  rw [systems, operands, outermost, List.filterMap_flatMap, List.flatMap_assoc]
  refine List.flatMap_congr fun n _ => ?_
  cases n with
  | operand o => exact (List.flatMap_singleton ..).symm
  | _ => rfl

theorem Fragment.Dressed.systems (h : t.Dressed t') : List.Forall₂ Operand.Kept t.systems t'.systems := by
  rw [systems_eq, systems_eq]
  exact List.rel_flatMap h.operands fun _ _ dressed => dressed.systems

/-! ### Faults that are lost -/

section Lost

variable {α β : Type} {f : α → Option β} {l l' : List α}

theorem filterMap_sublist (h : List.Forall₂ (fun a a' => ∀ b, f a' = some b → f a = some b) l l') :
    (l'.filterMap f).Sublist (l.filterMap f) := by
  induction h with
  | nil => exact .slnil
  | @cons a a' l l' kept _ ih =>
    cases now : f a' with
    | some b => simpa [List.filterMap_cons, now, kept b now] using ih
    | none =>
      rw [List.filterMap_cons_none now, List.filterMap_cons]
      split
      · exact ih
      · exact ih.cons _

/-- Where nothing is new, all is there exactly if nothing is lost. -/
theorem filterMap_eq_iff (h : List.Forall₂ (fun a a' => ∀ b, f a' = some b → f a = some b) l l') :
    l'.filterMap f = l.filterMap f ↔ ∀ p ∈ l.zip l', f p.2 = none → f p.1 = none := by
  induction h with
  | nil => simp
  | @cons a a' l l' kept rest ih =>
    rw [List.zip_cons_cons, List.forall_mem_cons, ← ih]
    cases now : f a' with
    | some b => simp [now, kept b now]
    | none =>
      cases before : f a with
      | none => simp [now, before]
      | some b =>
        have short := (filterMap_sublist rest).length_le
        have longer : l'.filterMap f ≠ b :: l.filterMap f := by
          intro same
          rw [same, List.length_cons] at short
          omega
        simp [now, before, longer]

end Lost

namespace Check

variable {policy : Option Policy}

/-- The code of the fault of a coordinate system, if it is a literal and has one. -/
def literalCode? (policy : Option Policy) (sys : Operand) : Option Code :=
  sys.asString?.bind (Session.sysCode? policy)

theorem coordSystems_codes (t : Fragment) (policy : Option Policy) :
    (coordSystems t policy).map Diagnostic.code = t.systems.filterMap (literalCode? policy) := by
  rw [coordSystems, Fragment.systems, List.map_filterMap, List.filterMap_filterMap, List.filterMap_filterMap]
  refine List.filterMap_congr fun o _ => ?_
  cases o with
  | geometry fn sys args span =>
    cases sys with
    | none => rfl
    | some sys =>
      cases literal : sys.asString? with
      | none => simp [Operand.literalSys?, Operand.coordSys?, literalCode?, literal]
      | some text =>
        have mark : (sysFault? policy text sys.span).map Diagnostic.mark = _ := sysFault_mark text sys.span
        have code := congrArg (Option.map Prod.fst) mark
        simpa [Operand.literalSys?, Operand.coordSys?, literalCode?, literal, Function.comp_def, Diagnostic.mark] using code
  | _ => rfl

theorem literalCode?_kept {s s' : Operand} (kept : s.Kept s') {code : Code} (h : literalCode? policy s' = some code) :
    literalCode? policy s = some code := by
  obtain ⟨text, literal, found⟩ := Option.bind_eq_some_iff.1 h
  exact Option.bind_eq_some_iff.2 ⟨text, kept text literal, found⟩

/-- More parentheses add no fault, and they leave all faults exactly if the literals that are put in
parentheses for the first time have none. -/
theorem coordSystems_dressed (policy : Option Policy) (h : t.Dressed t') :
    t.systems.length = t'.systems.length ∧
      ((coordSystems t' policy).map Diagnostic.code).Sublist ((coordSystems t policy).map Diagnostic.code) ∧
      ((coordSystems t' policy).map Diagnostic.code = (coordSystems t policy).map Diagnostic.code ↔
        ∀ s s', (s, s') ∈ t.systems.zip t'.systems → ∀ text, s.asString? = some text → s'.asString? = none →
          Session.sysCode? policy text = none) := by
  have kept := h.systems
  have codes : List.Forall₂ (fun s s' => ∀ code, literalCode? policy s' = some code → literalCode? policy s = some code)
      t.systems t'.systems := kept.imp fun s s' kept code => literalCode?_kept kept
  rw [coordSystems_codes, coordSystems_codes, filterMap_eq_iff codes, Prod.forall]
  refine ⟨kept.length_eq, filterMap_sublist codes, forall₂_congr fun s s' => forall_congr' fun both => ?_⟩
  have kept := List.forall₂_zip kept both
  unfold literalCode?
  cases before : s.asString? with
  | none => simp
  | some text =>
    cases now : s'.asString? with
    | none => simp
    | some text' =>
      obtain rfl : text = text' := Option.some.inj (before.symm.trans (kept text' now))
      simp

/-- A system with two pairs of parentheses. -/
theorem coordSystems_dressed_twice :
    let shape (sys : Operand) : Fragment :=
      .groupBy [.geometry .point (some sys) [.numeric "1" none, .numeric "2" none] none]
    let t := shape (.string "ICRS" none)
    let t' := shape (.wrapped (.wrapped (.string "ICRS" none) none) none)
    t.Dressed t' ∧ t.systems.length = t'.systems.length ∧
      ((coordSystems t' none).map Diagnostic.code).Sublist ((coordSystems t none).map Diagnostic.code) ∧
      ((coordSystems t' none).map Diagnostic.code = (coordSystems t none).map Diagnostic.code ↔
        ∀ s s', (s, s') ∈ t.systems.zip t'.systems → ∀ text, s.asString? = some text → s'.asString? = none →
          Session.sysCode? none text = none) := by
  intro shape t t'
  have number (text : String) : (Operand.numeric text none).Dressed (.numeric text none) := .node rfl .nil
  have dressed : t.Dressed t' :=
    ⟨rfl, .cons (.sys .none (.more (.more .none)) (.cons (number "1") (.cons (number "2") .nil))) .nil⟩
  exact ⟨dressed, coordSystems_dressed none dressed⟩

/-- A literal that is refused, and the same literal in parentheses, which is not. -/
theorem coordSystems_lost :
    ((readQuery .v20 "SELECT POINT('FOO', 1, 2) FROM t").toOption.map fun q =>
        (coordSystems (.query q) none).map Diagnostic.code) = some [.invalidCoordSys] ∧
      ((readQuery .v20 "SELECT POINT(('FOO'), 1, 2) FROM t").toOption.map fun q =>
        (coordSystems (.query q) none).map Diagnostic.code) = some [] := by
  decide +kernel

end Check

end SkyQuery
