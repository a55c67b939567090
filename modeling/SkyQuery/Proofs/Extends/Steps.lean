import Mathlib.Data.List.Forall2
import SkyQuery.Proofs.Grammar.Rereads

/-!
# What both versions read

`Carries held held' p` says that from the same tokens `p` reads in version 2.1 what it reads in version
2.0, unless it stops in version 2.0 at a token of the kinds `held'`, which version 2.0 cannot read. Each
combinator of readers has a rule here.
-/

namespace SkyQuery

open Grammar

/-- What a token of version 2.0 is in version 2.1: the same token, or a keyword where version 2.0 has a
word that it only reserves. -/
inductive Token.Becomes : Token → Token → Prop
  | same {t : Token} (known : t.kind.availableIn .v20 = true)
      (names : isIdentifier .v21 t = isIdentifier .v20 t) : Becomes t t
  | keyword {t : Token} {k : Keyword} (word : t.kind = .ident) (reserved : isIdentifier .v20 t = false)
      (new : k.availableIn .v20 = false) (later : k.text ∈ Reserved.later) : Becomes t { t with kind := .keyword k }

namespace Token.Becomes

variable {t u : Token} {kind : Kind} {k : Keyword}

theorem start (h : t.Becomes u) : u.start = t.start := by cases h <;> rfl

theorem stop (h : t.Becomes u) : u.stop = t.stop := by cases h <;> rfl

theorem name (h : t.Becomes u) : isIdentifier .v21 u = isIdentifier .v20 t := by
  cases h with
  | same _ names => exact names
  | keyword _ reserved => exact reserved.symm

/-- Where version 2.0 has a token of its own, version 2.1 has it as well. -/
theorem kind_iff (h : t.Becomes u) (known : kind.availableIn .v20 = true) (noWord : kind ≠ .ident) :
    u.kind = kind ↔ t.kind = kind := by
  cases h with
  | same => exact Iff.rfl
  | keyword word _ new _ =>
    refine ⟨?_, fun here => absurd (here.symm.trans word) noWord⟩
    rintro rfl
    exact absurd (new.symm.trans known) Bool.false_ne_true

theorem beq_kind (h : t.Becomes u) (known : kind.availableIn .v20 = true) (noWord : kind ≠ .ident) :
    (u.kind == kind) = (t.kind == kind) := by
  rw [Bool.eq_iff_iff, beq_iff_eq, beq_iff_eq, h.kind_iff known noWord]

/-- A name, and what is no word at all, stays as it is. -/
theorem eq (h : t.Becomes u) (free : t.kind = .ident → isIdentifier .v20 t = true) : u = t := by
  cases h with
  | same => rfl
  | keyword word reserved =>
    rw [free word] at reserved
    cases reserved

theorem known (h : t.Becomes u) : t.kind.availableIn .v20 = true := by
  cases h with
  | same known => exact known
  | keyword word => rw [word]; rfl

/-- A keyword that version 2.0 does not have stands only where version 2.0 reserves the word. -/
theorem of_new (h : t.Becomes u) (new : k.availableIn .v20 = false) (here : u.kind = .keyword k) :
    k.text ∈ Reserved.later ∧ t.kind = .ident ∧ isIdentifier .v20 t = false := by
  cases h with
  | same known =>
    rw [here] at known
    exact absurd (new.symm.trans known) Bool.false_ne_true
  | keyword word reserved _ later =>
    obtain rfl := Kind.keyword.inj here
    exact ⟨later, word, reserved⟩

end Token.Becomes

namespace Grammar

/-! ### Related states -/

/-- The same place of a text, in version 2.0 and in version 2.1. -/
structure State.Becomes (s s' : State) : Prop where
  current : s.current.Becomes s'.current
  rest : List.Forall₂ Token.Becomes s.rest s'.rest
  reached : s'.reached = s.reached
  /-- What is left ends with the end of the text. -/
  ended : ∃ ws, s'.Shows ws

namespace State.Becomes

variable {s s' : State}

theorem expecting (h : s.Becomes s') (expected expected' : List String) :
    State.Becomes { s with expected } { s' with expected := expected' } := ⟨h.current, h.rest, h.reached, h.ended⟩

theorem bound (h : s.Becomes s') : s'.bound = s.bound := by
  rw [State.bound, State.bound, h.rest.length_eq]

theorem second (h : s.Becomes s') : s.second.Becomes s'.second := by
  have rest := h.rest
  unfold State.second
  cases hs : s.rest <;> cases hs' : s'.rest <;> rw [hs, hs'] at rest <;> cases rest
  · exact h.current
  · assumption

theorem advance (h : s.Becomes s') : s.advance.Becomes s'.advance := by
  obtain ⟨current, rest, reached, ws, hws⟩ := h
  have ended : ∃ ws, s'.advance.Shows ws := by
    cases ws with
    | nil =>
      have none : s'.rest = [] := List.map_eq_nil_iff.1 (List.cons.inj hws).2
      refine ⟨[], ?_⟩
      rw [State.advance, none]
      rwa [State.Shows, none] at hws
    | cons w ws => exact ⟨ws, hws.advance⟩
  unfold State.advance at ended ⊢
  cases hs : s.rest <;> cases hs' : s'.rest <;> rw [hs, hs'] at rest <;> cases rest <;> rw [hs'] at ended
  · exact ⟨current, .nil, reached, ended⟩
  · rename_i first more
    exact ⟨first, more, current.stop, ended⟩

end State.Becomes

/-! ### Readers that both versions follow -/

/-- A token of one of some kinds that is no name in version 2.0. Where version 2.0 stops at such a token and
nothing in it goes on, what version 2.1 makes of the text does not matter. -/
structure Held (kinds : List Kind) (t : Token) : Prop where
  kind : t.kind ∈ kinds
  noName : isIdentifier .v20 t = false

/-- A kind that both versions have and that is not held. -/
def Common (held : List Kind) (kind : Kind) : Prop :=
  kind.availableIn .v20 = true ∧ kind ≠ .ident ∧ kind ∉ held

instance (held : List Kind) (kind : Kind) : Decidable (Common held kind) :=
  inferInstanceAs (Decidable (_ ∧ _ ∧ _))

theorem Held.mono {kinds kinds' : List Kind} {t : Token} (h : Held kinds t) (le : kinds ⊆ kinds') : Held kinds' t :=
  ⟨le h.kind, h.noName⟩

theorem Held.ne {held : List Kind} {kind : Kind} {t : Token} (h : Held held t) (common : Common held kind) :
    t.kind ≠ kind := by
  rintro rfl
  exact common.2.2 h.kind

namespace Parse

variable {α β : Type} {held held' held'' : List Kind} {s s' : State} {p q : Parse α} {f : α → Parse β}

/-- What `p` reads from `s` in version 2.0 it reads from `s'` in version 2.1, if it does not stop at a
token that is held. -/
def Agrees (held : List Kind) (p : Parse α) (s s' : State) : Prop :=
  ∀ a t, p .v20 s = .ok (a, t) → Held held t.current ∨ ∃ t', p .v21 s' = .ok (a, t') ∧ t.Becomes t'

/-- `p` agrees from any place of a text, and where it starts at a token of `held` it stops at one of `held'`. -/
structure Carries (held held' : List Kind) (p : Parse α) : Prop where
  agrees : ∀ {s s'}, s.Becomes s' → Agrees held' p s s'
  stays : ∀ {s a t}, Held held s.current → p .v20 s = .ok (a, t) → Held held' t.current

theorem Carries.mono {kinds kinds' : List Kind} (h : Carries held held' p)
    (le : kinds ⊆ held) (le' : held' ⊆ kinds') : Carries kinds kinds' p :=
  ⟨fun hs a t ha => (h.agrees hs a t ha).imp_left (Held.mono · le'),
    fun stuck ha => (h.stays (stuck.mono le) ha).mono le'⟩

/-- Where nothing is held, agreement is all that is asked. -/
theorem carries_of_agrees (h : ∀ {s s'}, s.Becomes s' → Agrees held' p s s') : Carries [] held' p :=
  ⟨h, fun stuck => absurd stuck.kind List.not_mem_nil⟩

theorem Carries.fresh (h : Carries held held' p) : Carries [] held' p := carries_of_agrees h.agrees

theorem Agrees.bind (hp : Agrees held p s s') (hf : ∀ a, Carries held held' (f a)) : Agrees held' (p >>= f) s s' := by
  intro b t h
  obtain ⟨a, r, ha, hb⟩ := bind_ok h
  rcases hp a r ha with stuck | ⟨r', ha', hr⟩
  · exact .inl ((hf a).stays stuck hb)
  · rw [bind_eq ha']
    exact (hf a).agrees hr b t hb

theorem Carries.bind (hp : Carries held held' p) (hf : ∀ a, Carries held' held'' (f a)) :
    Carries held held'' (p >>= f) := by
  refine ⟨fun hs => (hp.agrees hs).bind hf, fun stuck h => ?_⟩
  obtain ⟨a, r, ha, hb⟩ := bind_ok h
  exact (hf a).stays (hp.stays stuck ha) hb

theorem carries_pure {a : α} : Carries held held (pure a) :=
  ⟨fun hs b t h => by obtain ⟨rfl, rfl⟩ := pure_ok h; exact .inr ⟨_, rfl, hs⟩,
    fun stuck h => by obtain ⟨rfl, rfl⟩ := pure_ok h; exact stuck⟩

theorem carries_fail (h : ∀ s a t, p .v20 s ≠ .ok (a, t)) : Carries held held' p :=
  ⟨fun _ a t ha => absurd ha (h _ a t), fun _ ha => absurd ha (h _ _ _)⟩

theorem carries_unexpected : Carries held held' (unexpected : Parse α) := carries_fail fun _ _ _ h => by cases h

theorem carries_failAt {code : Code} {message : String} {span : Option Span} :
    Carries held held' (failAt code message span : Parse α) := carries_fail fun _ _ _ h => by cases h

theorem Agrees.ite {c : Prop} [Decidable c] (hp : c → Agrees held p s s') (hq : ¬c → Agrees held q s s') :
    Agrees held (if c then p else q) s s' := by
  split
  · exact hp ‹_›
  · exact hq ‹_›

theorem Carries.ite {c : Prop} [Decidable c] (hp : c → Carries held held' p) (hq : ¬c → Carries held held' q) :
    Carries held held' (if c then p else q) := by
  split
  · exact hp ‹_›
  · exact hq ‹_›

theorem Agrees.place {f : Place → Parse β} (hs : s.Becomes s') (h : ∀ start, Agrees held (f start) s s') :
    Agrees held (place >>= f) s s' := by
  intro b t hb
  rw [place_bind] at hb ⊢
  rw [hs.current.start]
  exact h _ b t hb

theorem Carries.place {f : Place → Parse β} (h : ∀ start, Carries held held' (f start)) :
    Carries held held' (place >>= f) :=
  ⟨fun hs => .place hs fun start => (h start).agrees hs, fun stuck hb => (h _).stays stuck hb⟩

theorem Carries.spanFrom {start : Place} {f : Option Span → Parse β} (h : ∀ span, Carries held held' (f span)) :
    Carries held held' (spanFrom start >>= f) := by
  refine ⟨fun {s s'} hs b t hb => ?_, fun stuck hb => (h _).stays stuck hb⟩
  change Held held' t.current ∨ ∃ t', f (some (Span.between start s'.reached)) .v21 s' = _ ∧ _
  rw [hs.reached]
  exact (h _).agrees hs b t hb

/-- What a reader ends with: the span of all that was read. -/
theorem carries_placed {start : Place} {make : Option Span → α} :
    Carries held held (do return make (← Parse.spanFrom start)) := .spanFrom fun _ => carries_pure

theorem Carries.expecting {descriptions : List String} {f : Unit → Parse β} (h : Carries held held' (f ())) :
    Carries held held' (expecting descriptions >>= f) := by
  refine ⟨fun {s s'} hs b t hb => ?_, fun {s b t} stuck hb => ?_⟩
  · exact h.agrees (hs.expecting (descriptions.reverse ++ s.expected) (descriptions.reverse ++ s'.expected)) b t hb
  · exact h.stays (s := { s with expected := descriptions.reverse ++ s.expected }) stuck hb

/-! ### Single tokens -/

theorem Agrees.current {f : Token → Parse β} (same : s'.current = s.current)
    (h : Agrees held (f s.current) s s') : Agrees held (current >>= f) s s' := by
  intro b t hb
  rw [current_bind] at hb ⊢
  rw [same]
  exact h b t hb

theorem Agrees.advance {f : Token → Parse β} (hs : s.Becomes s') (same : s'.current = s.current)
    (h : Carries [] held (f s.current)) : Agrees held (advance >>= f) s s' := by
  intro b t hb
  change Held held t.current ∨ ∃ t', f s'.current .v21 s'.advance = _ ∧ _
  rw [same]
  exact h.agrees hs.advance b t hb

theorem Carries.sees {kind : Kind} {f : Bool → Parse β} (common : Common held kind)
    (hit : Carries [] held' (f true)) (miss : Carries held held' (f false)) :
    Carries held held' (sees kind >>= f) := by
  refine ⟨fun {s s'} hs b t hb => ?_, fun {s b t} stuck hb => ?_⟩
  · have hs' := hs.expecting (kind.describe :: s.expected) (kind.describe :: s'.expected)
    change f (s.current.kind == kind) _ _ = _ at hb
    change Held held' t.current ∨ ∃ t', f (s'.current.kind == kind) _ _ = _ ∧ _
    rw [hs.current.beq_kind common.1 common.2.1]
    cases seen : s.current.kind == kind <;> rw [seen] at hb
    · exact miss.agrees hs' b t hb
    · exact hit.agrees hs' b t hb
  · change f (s.current.kind == kind) _ _ = _ at hb
    rw [beq_eq_false_iff_ne.2 (stuck.ne common)] at hb
    exact miss.stays (s := { s with expected := kind.describe :: s.expected }) stuck hb

theorem Carries.eat {kind : Kind} {f : Bool → Parse β} (common : Common held kind)
    (hit : Carries [] held' (f true)) (miss : Carries held held' (f false)) :
    Carries held held' (eat kind >>= f) := by
  refine ⟨fun {s s'} hs b t hb => ?_, fun {s b t} stuck hb => ?_⟩
  · have iff := hs.current.kind_iff common.1 common.2.1
    rcases eat_ok hb with ⟨here, hb⟩ | ⟨other, hb⟩
    · rw [bind_eq (eat_hit (iff.2 here))]
      exact hit.agrees hs.advance b t hb
    · rw [bind_eq (eat_miss (mt iff.1 other))]
      exact miss.agrees (hs.expecting _ _) b t hb
  · rcases eat_ok hb with ⟨here, -⟩ | ⟨-, hb⟩
    · exact absurd here (stuck.ne common)
    · exact miss.stays (s := { s with expected := kind.describe :: s.expected }) stuck hb

theorem Carries.eatAbsent {k : Keyword} {f : Bool → Parse β} (new : k.availableIn .v20 = false)
    (absent : k.text ∉ Reserved.later) (free : Kind.keyword k ∉ held) (miss : Carries held held' (f false)) :
    Carries held held' (Parse.eat (.keyword k) >>= f) := by
  refine ⟨fun {s s'} hs b t hb => ?_, fun {s b t} stuck hb => ?_⟩
  · rcases eat_ok hb with ⟨here, -⟩ | ⟨-, hb⟩
    · have known := hs.current.known
      rw [here] at known
      exact absurd (new.symm.trans known) Bool.false_ne_true
    · rw [bind_eq (eat_miss fun here => absent (hs.current.of_new new here).1)]
      exact miss.agrees (hs.expecting _ _) b t hb
  · rcases eat_ok hb with ⟨here, -⟩ | ⟨-, hb⟩
    · exact absurd (here ▸ stuck.kind) free
    · exact miss.stays (s := { s with expected := (Kind.keyword k).describe :: s.expected }) stuck hb

/-- A keyword that version 2.1 may find, where version 2.0 holds at the word. -/
theorem Carries.eatLater {k : Keyword} {f : Bool → Parse β} (new : k.availableIn .v20 = false)
    (holds : Kind.ident ∈ held) (free : Kind.keyword k ∉ held) (miss : Carries held held' (f false)) :
    Carries held held' (Parse.eat (.keyword k) >>= f) := by
  have stays {s t : State} {b : β} (stuck : Held held s.current)
      (hb : (Parse.eat (.keyword k) >>= f) .v20 s = .ok (b, t)) : Held held' t.current := by
    rcases eat_ok hb with ⟨here, -⟩ | ⟨-, hb⟩
    · exact absurd (here ▸ stuck.kind) free
    · exact miss.stays (s := { s with expected := (Kind.keyword k).describe :: s.expected }) stuck hb
  refine ⟨fun {s s'} hs b t hb => ?_, stays⟩
  by_cases here : s'.current.kind = .keyword k
  · obtain ⟨-, word, reserved⟩ := hs.current.of_new new here
    exact .inl (stays ⟨word ▸ holds, reserved⟩ hb)
  · rcases eat_ok hb with ⟨there, -⟩ | ⟨-, hb⟩
    · have known := hs.current.known
      rw [there] at known
      exact absurd (new.symm.trans known) Bool.false_ne_true
    · rw [bind_eq (eat_miss here)]
      exact miss.agrees (hs.expecting _ _) b t hb

theorem Carries.expect {kind : Kind} {f : Token → Parse β} (common : Common held kind)
    (hit : ∀ t, Carries [] held' (f t)) : Carries held held' (expect kind >>= f) := by
  refine ⟨fun {s s'} hs b t hb => ?_, fun {s b t} stuck hb => ?_⟩
  · obtain ⟨here, hb⟩ := expect_ok hb
    rw [bind_eq (expect_hit ((hs.current.kind_iff common.1 common.2.1).2 here)),
      hs.current.eq fun word => absurd (here.symm.trans word) common.2.1]
    exact (hit _).agrees hs.advance b t hb
  · obtain ⟨here, -⟩ := expect_ok hb
    exact absurd here (stuck.ne common)

/-! ### Loops and lists -/

theorem Carries.bounded {p : Nat → Parse α} (h : ∀ n, Carries held held' (p n)) :
    Carries held held' (bounded p) := by
  refine ⟨fun {s s'} hs a t ha => ?_, fun stuck ha => (h _).stays stuck ha⟩
  change Held held' t.current ∨ ∃ t', p s'.bound .v21 s' = _ ∧ _
  rw [hs.bound]
  exact (h _).agrees hs a t ha

theorem Carries.iterate {step : α → Parse (Option α)} (h : ∀ a, Carries held held (step a)) (a : α) :
    Carries held held (iterate step a) := by
  refine .bounded fun n => ?_
  induction n generalizing a with
  | zero => exact carries_pure
  | succ n ih =>
    refine (h a).bind fun found => ?_
    cases found with
    | none => exact carries_pure
    | some b => exact ih b

theorem Carries.followers {separator : Kind} {item : Parse α} (h : Carries [] held item)
    (common : Common held separator) : Carries held held (followers separator item) := by
  refine .bounded fun n => ?_
  induction n with
  | zero => exact carries_pure
  | succ n ih =>
    refine .eat common ?_ carries_pure
    exact h.bind fun _ => ih.bind fun _ => carries_pure

theorem Carries.sepBy {separator : Kind} {item : Parse α} (h : Carries held held' item)
    (common : Common held' separator) : Carries held held' (sepBy separator item) :=
  h.bind fun _ => (h.fresh.followers common).bind fun _ => carries_pure

/-! ### Names -/

theorem Agrees.atIdentifier (hs : s.Becomes s') (hp : s'.current = s.current → Agrees held p s s')
    (hq : Agrees held q s s') : Agrees held (atIdentifier >>= fun named => if named then p else q) s s' := by
  intro b t hb
  rw [atIdentifier_bind] at hb ⊢
  rw [hs.current.name]
  exact Agrees.ite (fun name => hp (hs.current.eq fun _ => name)) (fun _ => hq) b t hb

theorem carries_eatIdentifier : Carries [] [] eatIdentifier :=
  .expecting (carries_of_agrees fun hs =>
    .atIdentifier hs (fun same => .advance hs same carries_pure) (carries_pure.agrees hs))

theorem carries_identifier : Carries [] [] identifier := by
  refine carries_eatIdentifier.bind fun found => ?_
  cases found with
  | none => exact carries_unexpected
  | some name => exact carries_pure

theorem carries_dottedFor (n : Nat) : Carries [] [] (dottedFor n) := by
  induction n with
  | zero => exact carries_pure
  | succ n ih =>
    refine carries_of_agrees fun {s s'} hs parts t h => ?_
    unfold dottedFor at h ⊢
    rw [hs.current.beq_kind rfl (by decide), hs.second.name]
    split at h
    · rename_i go
      rw [if_pos go]
      have dot : s.current.kind = .dot := eq_of_beq (Bool.and_eq_true_iff.1 go).1
      have same : s'.current = s.current := hs.current.eq fun word => by rw [dot] at word; cases word
      refine Agrees.advance hs same ?_ parts t h
      exact carries_identifier.bind fun _ => ih.bind fun _ => carries_pure
    · rename_i stop
      rw [if_neg stop]
      exact carries_pure.agrees hs parts t h

theorem carries_dotted (n : Nat) : Carries [] [] (dotted n) :=
  carries_identifier.bind fun _ => (carries_dottedFor n).bind fun _ => carries_pure

/-! ### Checks -/

theorem carries_checkNumeric (o : Operand) : Carries held held (checkNumeric o) :=
  .ite (fun _ => carries_pure) fun _ => carries_failAt

theorem carries_checkString (o : Operand) : Carries held held (checkString o) :=
  .ite (fun _ => carries_pure) fun _ => carries_failAt

theorem carries_checkGeometry (o : Operand) : Carries held held (checkGeometry o) :=
  .ite (fun _ => carries_pure) fun _ => carries_failAt

theorem carries_checkAll {check : Operand → Parse Unit} (h : ∀ o, Carries held held (check o)) (os : List Operand) :
    Carries held held (checkAll check os) := by
  induction os with
  | nil => exact carries_pure
  | cons o others ih => exact (h o).bind fun _ => ih

end Parse

end Grammar

end SkyQuery
