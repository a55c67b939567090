import Mathlib.Data.List.Forall2
import SkyQuery.Proofs.Grammar.Rereads
import SkyQuery.Proofs.Token.Slices

/-!
# Readers that go on alike

Two texts with the same words at other places are read alike, and where one is refused the other is refused
for the same reason. `Parallel m v Q p p'` says so of a reader of the one and a reader of the other, which
may hold what was read before: from matching states both read, with results that `Q` relates, or both fail,
with complaints that begin at matching places. Each combinator of readers has a rule here.
-/

namespace SkyQuery

open Grammar

/-- Which places of one text stand for which places of another; their order is the same. -/
structure Matching where
  starts : Place → Place → Prop
  ordered : ∀ {p p' q q'}, starts p p' → starts q q' → (p.Before q ↔ p'.Before q')

namespace Matching

variable {α β : Type} {m : Matching} {Q : α → β → Prop}

/-- Two spans that begin at matching places; where they end does not matter. -/
inductive Spans (m : Matching) : Option Span → Option Span → Prop where
  | between {p p' q q' : Place} (start : m.starts p p') : Spans m (some (.between p q)) (some (.between p' q'))

/-- The same word at matching places. -/
structure Tokens (m : Matching) (t t' : Token) : Prop where
  kind : t'.kind = t.kind
  text : t'.text = t.text
  start : m.starts t.start t'.start

/-- The same words are left, and the same was looked for. -/
structure States (m : Matching) (s s' : State) : Prop where
  current : m.Tokens s.current s'.current
  rest : List.Forall₂ m.Tokens s.rest s'.rest
  expected : s'.expected = s.expected

/-- The same complaint about matching places. -/
structure Complaints (m : Matching) (e e' : Diagnostic) : Prop where
  code : e'.code = e.code
  message : e'.message = e.message
  hint : e'.hint = e.hint
  span : m.Spans e.span e'.span

/-- The same expression at matching places. -/
structure Operands (m : Matching) (o o' : Operand) : Prop where
  same : o'.Same o
  span : m.Spans o.span o'.span

/-- How two readers can end. -/
inductive Outcomes (m : Matching) (Q : α → β → Prop) :
    Except Diagnostic (α × State) → Except Diagnostic (β × State) → Prop where
  | read {a : α} {b : β} {s s' : State} (found : Q a b) (left : m.States s s') : Outcomes m Q (.ok (a, s)) (.ok (b, s'))
  | refused {e e' : Diagnostic} (complaint : m.Complaints e e') : Outcomes m Q (.error e) (.error e')

theorem Tokens.span {t t' : Token} (h : m.Tokens t t') : m.Spans (some t.span) (some t'.span) := .between h.start

/-! ### States -/

namespace States

variable {s s' : State}

theorem expecting (h : m.States s s') (descriptions : List String) :
    m.States { s with expected := descriptions ++ s.expected } { s' with expected := descriptions ++ s'.expected } :=
  ⟨h.current, h.rest, congrArg (descriptions ++ ·) h.expected⟩

theorem bound (h : m.States s s') : s'.bound = s.bound := by
  rw [State.bound, State.bound, h.rest.length_eq]

theorem second (h : m.States s s') : m.Tokens s.second s'.second := by
  have rest := h.rest
  unfold State.second
  cases hs : s.rest <;> cases hs' : s'.rest <;> rw [hs, hs'] at rest <;> cases rest
  · exact h.current
  · assumption

theorem advance (h : m.States s s') : m.States s.advance s'.advance := by
  have rest := h.rest
  unfold State.advance
  cases hs : s.rest <;> cases hs' : s'.rest <;> rw [hs, hs'] at rest <;> cases rest
  · exact ⟨h.current, .nil, rfl⟩
  · rename_i first more
    exact ⟨first, more, rfl⟩

theorem unexpected (h : m.States s s') (v : Version) : m.Complaints (s.unexpected v) (s'.unexpected v) := by
  unfold State.unexpected
  rw [h.expected, h.current.kind, h.current.text]
  split <;> exact ⟨rfl, rfl, rfl, h.current.span⟩

end States

/-! ### What depends on no place -/

namespace Operands

variable {o o' : Operand} {os os' : List Operand}

theorem render (h : m.Operands o o') : o'.render = o.render := by
  rw [← o'.render_unplaced, h.same.eq, o.render_unplaced]

theorem all (h : List.Forall₂ m.Operands os os') : Operand.SameAll os' os := by
  induction h with
  | nil => rfl
  | cons first _ ih => exact congrArg₂ List.cons first.same ih

end Operands

/-- The first of two complaints lies further in both texts or in none. -/
theorem Complaints.later {e e' f f' : Diagnostic} (he : m.Complaints e e') (hf : m.Complaints f f') :
    Parse.either.later e' f' = Parse.either.later e f := by
  obtain ⟨code, message, span, hint⟩ := e
  obtain ⟨code', message', span', hint'⟩ := e'
  obtain ⟨fcode, fmessage, fspan, fhint⟩ := f
  obtain ⟨fcode', fmessage', fspan', fhint'⟩ := f'
  obtain ⟨first⟩ := he.span
  obtain ⟨second⟩ := hf.span
  have order (p q : Place) : Span.before (p.line, p.column) (q.line, q.column) = true ↔ p.Before q := Span.before_iff
  exact Bool.eq_iff_iff.2 (((order _ _).trans (m.ordered second first).symm).trans (order _ _).symm)

end Matching

namespace Grammar.Parse

variable {m : Matching} {v : Version} {α β γ δ : Type} {Q : α → β → Prop} {R : γ → δ → Prop} {p : Parse α} {p' : Parse β}

/-- From matching states `p` and `p'` end alike. -/
def Parallel (m : Matching) (v : Version) (Q : α → β → Prop) (p : Parse α) (p' : Parse β) : Prop :=
  ∀ s s', m.States s s' → m.Outcomes Q (p v s) (p' v s')

/-- Two results that `view` does not tell apart. -/
def Alike (view : α → γ) (a a' : α) : Prop := view a' = view a

theorem Alike.eq {view : α → γ} {a a' : α} (h : Alike view a a') : view a' = view a := h

theorem parallel_pure {a : α} {b : β} (h : Q a b) : Parallel m v Q (pure a) (pure b) := fun _ _ hs => .read h hs

theorem parallel_unexpected : Parallel m v Q (unexpected : Parse α) (unexpected : Parse β) :=
  fun _ _ hs => .refused (hs.unexpected v)

theorem parallel_failAt {code : Code} {message : String} {span span' : Option Span} (h : m.Spans span span') :
    Parallel m v Q (failAt code message span : Parse α) (failAt code message span' : Parse β) := by
  intro s s' _
  obtain ⟨start⟩ := h
  exact .refused ⟨rfl, rfl, rfl, .between start⟩

theorem Parallel.mono {Q' : α → β → Prop} (h : Parallel m v Q p p') (le : ∀ a b, Q a b → Q' a b) :
    Parallel m v Q' p p' := by
  intro s s' hs
  have ends := h s s' hs
  generalize p v s = r, p' v s' = r' at ends ⊢
  cases ends with
  | read found left => exact .read (le _ _ found) left
  | refused complaint => exact .refused complaint

theorem Parallel.bind {f : α → Parse γ} {f' : β → Parse δ} (hp : Parallel m v Q p p')
    (hf : ∀ a b, Q a b → Parallel m v R (f a) (f' b)) : Parallel m v R (p >>= f) (p' >>= f') := by
  intro s s' hs
  have ends := hp s s' hs
  generalize here : p v s = r, there : p' v s' = r' at ends
  cases ends with
  | read found left =>
    rw [bind_eq here, bind_eq there]
    exact hf _ _ found _ _ left
  | refused complaint =>
    rw [bind_error here, bind_error there]
    exact .refused complaint

/-- A step with the same result in both texts. -/
theorem Parallel.step {p p' : Parse α} {f : α → Parse γ} {f' : α → Parse δ} (hp : Parallel m v Eq p p')
    (hf : ∀ a, Parallel m v R (f a) (f' a)) : Parallel m v R (p >>= f) (p' >>= f') := by
  refine hp.bind ?_
  rintro a _ rfl
  exact hf a

theorem Parallel.ite {c c' : Prop} [Decidable c] [Decidable c'] {q : Parse α} {q' : Parse β} (same : c' ↔ c)
    (hp : c → Parallel m v Q p p') (hq : ¬c → Parallel m v Q q q') :
    Parallel m v Q (if c then p else q) (if c' then p' else q') := by
  split
  · rw [if_pos (same.2 ‹_›)]
    exact hp ‹_›
  · rw [if_neg (mt same.1 ‹_›)]
    exact hq ‹_›

theorem Parallel.choice {c : Prop} [Decidable c] {q : Parse α} {q' : Parse β} (hp : Parallel m v Q p p')
    (hq : Parallel m v Q q q') : Parallel m v Q (if c then p else q) (if c then p' else q') :=
  .ite Iff.rfl (fun _ => hp) fun _ => hq

/-! ### Looking -/

theorem Parallel.version {f : Version → Parse γ} {f' : Version → Parse δ} (h : Parallel m v R (f v) (f' v)) :
    Parallel m v R (version >>= f) (version >>= f') := fun s s' hs => h s s' hs

theorem Parallel.place {f : Place → Parse γ} {f' : Place → Parse δ}
    (h : ∀ start start', m.starts start start' → Parallel m v R (f start) (f' start')) :
    Parallel m v R (place >>= f) (place >>= f') := fun s s' hs => h _ _ hs.current.start s s' hs

theorem Parallel.spanFrom {start start' : Place} {f : Option Span → Parse γ} {f' : Option Span → Parse δ}
    (hstart : m.starts start start') (h : ∀ span span', m.Spans span span' → Parallel m v R (f span) (f' span')) :
    Parallel m v R (spanFrom start >>= f) (spanFrom start' >>= f') := fun s s' hs => h _ _ (.between hstart) s s' hs

/-- What a reader ends with: the span of all that was read. -/
theorem Parallel.placed {start start' : Place} {make : Option Span → γ} {make' : Option Span → δ}
    (hstart : m.starts start start') (h : ∀ span span', m.Spans span span' → R (make span) (make' span')) :
    Parallel m v R (do return make (← Parse.spanFrom start)) (do return make' (← Parse.spanFrom start')) :=
  .spanFrom hstart fun span span' spans => parallel_pure (h span span' spans)

theorem Parallel.current {f : Token → Parse γ} {f' : Token → Parse δ}
    (h : ∀ t t', m.Tokens t t' → Parallel m v R (f t) (f' t')) : Parallel m v R (current >>= f) (current >>= f') :=
  fun s s' hs => h _ _ hs.current s s' hs

theorem Parallel.second {f : Token → Parse γ} {f' : Token → Parse δ}
    (h : ∀ t t', m.Tokens t t' → Parallel m v R (f t) (f' t')) : Parallel m v R (second >>= f) (second >>= f') :=
  fun s s' hs => h _ _ hs.second s s' hs

theorem Parallel.advance {f : Token → Parse γ} {f' : Token → Parse δ}
    (h : ∀ t t', m.Tokens t t' → Parallel m v R (f t) (f' t')) : Parallel m v R (advance >>= f) (advance >>= f') :=
  fun _ _ hs => h _ _ hs.current _ _ hs.advance

theorem parallel_expecting (descriptions : List String) :
    Parallel m v Eq (expecting descriptions) (expecting descriptions) :=
  fun _ _ hs => .read rfl (hs.expecting descriptions.reverse)

theorem parallel_sees (kind : Kind) : Parallel m v Eq (sees kind) (sees kind) :=
  fun _ _ hs => .read (by rw [hs.current.kind]) (hs.expecting [kind.describe])

theorem parallel_seesWord (word description : String) :
    Parallel m v Eq (seesWord word description) (seesWord word description) :=
  fun _ _ hs => .read (by rw [hs.current.kind, hs.current.text]) (hs.expecting [description])

theorem Matching.Tokens.isIdentifier {t t' : Token} (h : m.Tokens t t') : isIdentifier v t' = isIdentifier v t := by
  rw [Grammar.isIdentifier, Grammar.isIdentifier, h.kind, h.text]

theorem parallel_atIdentifier : Parallel m v Eq atIdentifier atIdentifier :=
  fun _ _ hs => .read (Matching.Tokens.isIdentifier hs.current).symm hs

/-! ### Single tokens -/

theorem parallel_eat (kind : Kind) : Parallel m v Eq (eat kind) (eat kind) :=
  (parallel_sees kind).step fun _ => .choice (.advance fun _ _ _ => parallel_pure rfl) (parallel_pure rfl)

theorem Parallel.eatIf {kind : Kind} {q : Parse α} {q' : Parse β} (hit : Parallel m v Q p p')
    (miss : Parallel m v Q q q') :
    Parallel m v Q (eat kind >>= fun eaten => if eaten then p else q)
      (eat kind >>= fun eaten => if eaten then p' else q') :=
  (parallel_eat kind).step fun _ => .choice hit miss

theorem Parallel.seesIf {kind : Kind} {q : Parse α} {q' : Parse β} (hit : Parallel m v Q p p')
    (miss : Parallel m v Q q q') :
    Parallel m v Q (sees kind >>= fun seen => if seen then p else q)
      (sees kind >>= fun seen => if seen then p' else q') :=
  (parallel_sees kind).step fun _ => .choice hit miss

theorem Parallel.expect {kind : Kind} {f : Token → Parse γ} {f' : Token → Parse δ}
    (h : ∀ t t', m.Tokens t t' → Parallel m v R (f t) (f' t')) :
    Parallel m v R (expect kind >>= f) (expect kind >>= f') := by
  refine Parallel.bind (Q := m.Tokens) ((parallel_sees kind).step fun _ => .choice ?_ parallel_unexpected) h
  exact fun _ _ hs => .read hs.current hs.advance

theorem parallel_eatIdentifier : Parallel m v Eq eatIdentifier eatIdentifier := by
  refine (parallel_expecting _).step fun _ => parallel_atIdentifier.step fun _ => .choice ?_ (parallel_pure rfl)
  exact .advance fun t t' ht => parallel_pure (by rw [ht.text])

theorem parallel_identifier : Parallel m v Eq identifier identifier := by
  refine parallel_eatIdentifier.step fun found => ?_
  cases found with
  | none => exact parallel_unexpected
  | some name => exact parallel_pure rfl

/-! ### Loops and lists -/

theorem Parallel.bounded {p : Nat → Parse α} {p' : Nat → Parse β} (h : ∀ n, Parallel m v Q (p n) (p' n)) :
    Parallel m v Q (bounded p) (bounded p') := by
  intro s s' hs
  change m.Outcomes Q (p s.bound v s) (p' s'.bound v s')
  rw [hs.bound]
  exact h s.bound s s' hs

theorem Parallel.iterate {step : α → Parse (Option α)} {step' : β → Parse (Option β)} {a : α} {b : β} (start : Q a b)
    (h : ∀ a b, Q a b → Parallel m v (Option.Rel Q) (step a) (step' b)) :
    Parallel m v Q (iterate step a) (iterate step' b) := by
  refine .bounded fun n => ?_
  induction n generalizing a b with
  | zero => exact parallel_pure start
  | succ n ih =>
    refine (h a b start).bind fun found found' same => ?_
    cases same with
    | none => exact parallel_pure start
    | some next => exact ih next

theorem Parallel.followers (h : Parallel m v Q p p') (separator : Kind) :
    Parallel m v (List.Forall₂ Q) (followers separator p) (followers separator p') := by
  refine .bounded fun n => ?_
  induction n with
  | zero => exact parallel_pure .nil
  | succ n ih =>
    refine .eatIf (h.bind fun a b first => ih.bind fun as bs others => ?_) (parallel_pure .nil)
    exact parallel_pure (.cons first others)

theorem Parallel.sepBy (h : Parallel m v Q p p') (separator : Kind) :
    Parallel m v (List.Forall₂ Q) (sepBy separator p) (sepBy separator p') :=
  h.bind fun _ _ first => (h.followers separator).bind fun _ _ others => parallel_pure (.cons first others)

/-- Lists of items that are the same are the same. -/
theorem Parallel.sameList {p p' : Parse (List α)} (h : Parallel m v (List.Forall₂ Eq) p p') : Parallel m v Eq p p' :=
  h.mono fun _ _ same => List.forall₂_eq_eq_eq ▸ same

theorem map_eq_of_alike {view : α → γ} {as as' : List α} (h : List.Forall₂ (Alike view) as as') :
    as'.map view = as.map view := by
  induction h with
  | nil => rfl
  | cons first _ ih => exact congrArg₂ List.cons first ih

theorem Parallel.listView {view : α → γ} {p p' : Parse (List α)} (h : Parallel m v (List.Forall₂ (Alike view)) p p') :
    Parallel m v (Alike (List.map view)) p p' := h.mono fun _ _ => map_eq_of_alike

theorem parallel_dottedFor (n : Nat) : Parallel m v Eq (dottedFor n) (dottedFor n) := by
  induction n with
  | zero => exact parallel_pure rfl
  | succ n ih =>
    intro s s' hs
    have more : Parallel m v Eq (do
        let _ ← advance
        let part ← identifier
        let others ← dottedFor n
        return part :: others) (do
        let _ ← advance
        let part ← identifier
        let others ← dottedFor n
        return part :: others) :=
      .advance fun _ _ _ => parallel_identifier.step fun _ => ih.step fun _ => parallel_pure rfl
    unfold dottedFor
    rw [hs.current.kind, Matching.Tokens.isIdentifier hs.second]
    split
    · exact more s s' hs
    · exact .read rfl hs

theorem parallel_dotted (n : Nat) : Parallel m v Eq (dotted n) (dotted n) :=
  parallel_identifier.step fun _ => (parallel_dottedFor n).step fun _ => parallel_pure rfl

/-- Which of two complaints is kept depends on the order of the places only. -/
theorem Parallel.either {q : Parse α} {q' : Parse β} (hp : Parallel m v Q p p') (hq : Parallel m v Q q q') :
    Parallel m v Q (either p q) (either p' q') := by
  intro s s' hs
  have first := hp s s' hs
  have second := hq s s' hs
  unfold Parse.either
  generalize p v s = r, p' v s' = r' at first ⊢
  cases first with
  | read found left => exact .read found left
  | refused complaint =>
    generalize q v s = r, q' v s' = r' at second ⊢
    cases second with
    | read found left => exact .read found left
    | refused complaint' =>
      dsimp only
      rw [complaint.later complaint']
      split
      · exact .refused complaint
      · exact .refused complaint'

/-! ### Checks -/

section Checks

variable {o o' : Operand} {os os' : List Operand}

theorem parallel_mismatch (h : m.Operands o o') (demanded : String) (code : Code) :
    Parallel m v Q (mismatch o demanded code : Parse α) (mismatch o' demanded code : Parse β) := by
  unfold mismatch
  rw [h.render]
  exact parallel_failAt h.span

theorem parallel_checkNumeric (h : m.Operands o o') : Parallel m v Eq (checkNumeric o) (checkNumeric o') :=
  .ite (by rw [h.same.isNumeric]) (fun _ => parallel_pure rfl) fun _ => parallel_mismatch h _ _

theorem parallel_checkString (h : m.Operands o o') : Parallel m v Eq (checkString o) (checkString o') :=
  .ite (by rw [h.same.isString]) (fun _ => parallel_pure rfl) fun _ => parallel_mismatch h _ _

theorem parallel_checkGeometry (h : m.Operands o o') : Parallel m v Eq (checkGeometry o) (checkGeometry o') :=
  .ite (by rw [h.same.isGeometry]) (fun _ => parallel_pure rfl) fun _ => parallel_mismatch h _ _

theorem parallel_checkAll {check : Operand → Parse Unit}
    (each : ∀ o o', m.Operands o o' → Parallel m v Eq (check o) (check o')) (h : List.Forall₂ m.Operands os os') :
    Parallel m v Eq (checkAll check os) (checkAll check os') := by
  induction h with
  | nil => exact parallel_pure rfl
  | cons first _ ih => exact (each _ _ first).step fun _ => ih

end Checks

end Grammar.Parse

end SkyQuery
