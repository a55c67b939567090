import Mathlib.Logic.Function.Iterate
import SkyQuery.Proofs.Refused.Steps

/-!
# Readers that call each other

A reader that is defined by calls of itself and of others is a solution of an equation `p = F p`. `Agree`
says that two readers do the same from one token on; each combinator of readers has a rule here, so that
where `F` calls what it is given can be told from what the result depends on. `Descends` says that every
call comes after a further token or is one of a smaller rank. A solution of such an equation is found in
as many steps as tokens and ranks allow.
-/

namespace SkyQuery.Grammar

open Parse

variable {v : Version} {tokens : List Token} {i j k : Nat} {α β : Type} {p p' p'' q q' : Parse α}

theorem State.At.length {s : State} (h : s.At tokens k) : tokens.length = k + s.bound := by
  have left := congrArg List.length h.left
  rw [List.length_cons, List.length_drop] at left
  rw [State.bound]
  omega

theorem State.At.current_eq {s t : State} (h : s.At tokens k) (h' : t.At tokens k) : s.current = t.current :=
  (List.cons.inj (h.left.trans h'.left.symm)).1

/-- From the token `k` on the readers do the same, and go on to a later token. -/
structure Agree (v : Version) (tokens : List Token) (k : Nat) (p p' : Parse α) : Prop where
  same : ∀ s, s.At tokens k → p v s = p' v s
  ends : Ends v tokens k p fun _ _ => True

/-- After a further token the readers do the same. -/
def Later (v : Version) (tokens : List Token) (k : Nat) (p p' : Parse α) : Prop := ∀ j, k < j → Agree v tokens j p p'

/-- The readers do the same, here and later. -/
def Onward (v : Version) (tokens : List Token) (k : Nat) (p p' : Parse α) : Prop := ∀ j, k ≤ j → Agree v tokens j p p'

theorem Later.mono (h : Later v tokens k p p') (kj : k ≤ j) : Later v tokens j p p' :=
  fun l jl => h l (Nat.lt_of_le_of_lt kj jl)

theorem Later.onward (h : Later v tokens k p p') (kj : k < j) : Onward v tokens j p p' :=
  fun l jl => h l (Nat.lt_of_lt_of_le kj jl)

theorem Onward.mono (h : Onward v tokens k p p') (kj : k ≤ j) : Onward v tokens j p p' :=
  fun l jl => h l (Nat.le_trans kj jl)

theorem Onward.here (h : Onward v tokens k p p') : Agree v tokens k p p' := h k (Nat.le_refl k)

theorem Onward.later (h : Onward v tokens k p p') : Later v tokens k p p' := fun j kj => h j (Nat.le_of_lt kj)

theorem Moves.agree (h : Moves v p) : Agree v tokens k p p := ⟨fun _ _ => rfl, h tokens k⟩

theorem Moves.onward (h : Moves v p) : Onward v tokens k p p := fun _ _ => h.agree

theorem Looks.agree (h : Looks v p) : Agree v tokens k p p := h.moves.agree

theorem Agree.trans (h : Agree v tokens k p p') (h' : Agree v tokens k p' p'') : Agree v tokens k p p'' :=
  ⟨fun s hs => (h.same s hs).trans (h'.same s hs), h.ends⟩

theorem Agree.symm (h : Agree v tokens k p p') : Agree v tokens k p' p :=
  ⟨fun s hs => (h.same s hs).symm, fun s a t hs ha => h.ends s a t hs ((h.same s hs).trans ha)⟩

/-- No state stands behind the last token. -/
theorem agree_outside (outside : tokens.length ≤ k) : Agree v tokens k p p' :=
  ⟨fun _ hs => absurd hs.lt (Nat.not_lt.2 outside), fun _ _ _ hs _ => absurd hs.lt (Nat.not_lt.2 outside)⟩

theorem agree_pure (a : α) : Agree v tokens k (pure a) (pure a) := (looks_pure a).agree

theorem agree_unexpected : Agree v tokens k (unexpected : Parse α) unexpected :=
  (looks_fail fun _ _ _ h => by cases h).agree

/-! ### Combinators -/

theorem Agree.after {f f' : α → Parse β} {Q : Nat → α → Prop} (hp : Agree v tokens k p p') (ends : Ends v tokens k p Q)
    (hf : ∀ j a, k ≤ j → Q j a → Agree v tokens j (f a) (f' a)) : Agree v tokens k (p >>= f) (p' >>= f') := by
  refine ⟨fun s hs => ?_, ends.bind fun j a kj hQ => (hf j a kj hQ).ends⟩
  cases ha : p v s with
  | error e => rw [bind_error ha, bind_error ((hp.same s hs).symm.trans ha)]
  | ok r =>
    obtain ⟨a, t⟩ := r
    obtain ⟨j, kj, ht, hQ⟩ := ends s a t hs ha
    rw [bind_eq ha, bind_eq ((hp.same s hs).symm.trans ha)]
    exact (hf j a kj hQ).same t ht

section Bind

variable {f f' : α → Parse β}

theorem Agree.bind (hp : Agree v tokens k p p') (hf : ∀ j a, k ≤ j → Agree v tokens j (f a) (f' a)) :
    Agree v tokens k (p >>= f) (p' >>= f') := hp.after hp.ends fun j a kj _ => hf j a kj

/-- A step that calls nothing. -/
theorem Agree.step (moves : Moves v p) (hf : ∀ j a, k ≤ j → Agree v tokens j (f a) (f' a)) :
    Agree v tokens k (p >>= f) (p >>= f') := moves.agree.bind hf

/-- A step that takes nothing. -/
theorem Agree.look (looks : Looks v p) (hf : ∀ a, Agree v tokens k (f a) (f' a)) : Agree v tokens k (p >>= f) (p >>= f') := by
  refine looks.agree.after (Q := fun j _ => j = k) (looks.ends fun _ => rfl) ?_
  rintro j a - rfl
  exact hf a

theorem Agree.map {f : α → β} (hp : Agree v tokens k p p') :
    Agree v tokens k (p >>= fun a => pure (f a)) (p' >>= fun a => pure (f a)) := hp.bind fun _ _ _ => agree_pure _

theorem looks_placed {make : Option Span → α} {start : Place} : Looks v (do return make (← spanFrom start)) :=
  (looks_spanFrom start).seq fun _ => looks_pure _

theorem agree_placed {make : Option Span → α} {start : Place} :
    Agree v tokens k (do return make (← spanFrom start)) (do return make (← spanFrom start)) := looks_placed.agree

theorem Agree.placed {make : α → Option Span → β} {start : Place} (hp : Agree v tokens k p p') :
    Agree v tokens k (p >>= fun a => do return make a (← spanFrom start)) (p' >>= fun a => do return make a (← spanFrom start)) :=
  hp.bind fun _ _ _ => agree_placed

end Bind

theorem Agree.place {f f' : Place → Parse α} (h : ∀ start, Agree v tokens k (f start) (f' start)) :
    Agree v tokens k (place >>= f) (place >>= f') := .look looks_place h

theorem Agree.ite {c : Prop} [Decidable c] (hp : c → Agree v tokens k p p') (hq : ¬c → Agree v tokens k q q') :
    Agree v tokens k (if c then p else q) (if c then p' else q') := by
  split
  · exact hp ‹_›
  · exact hq ‹_›

theorem Agree.bounded {p p' : Nat → Parse α} (h : ∀ n, Agree v tokens k (p n) (p' n)) :
    Agree v tokens k (bounded p) (bounded p') := ⟨fun s hs => (h s.bound).same s hs, .bounded fun n => (h n).ends⟩

/-- Both attempts start at the same token. -/
theorem Agree.either (hp : Agree v tokens k p p') (hq : Agree v tokens k q q') :
    Agree v tokens k (either p q) (either p' q') := by
  refine ⟨fun s hs => ?_, .either hp.ends hq.ends⟩
  rw [Parse.either, Parse.either, hp.same s hs, hq.same s hs]

/-! ### Tokens -/

theorem Agree.current {f f' : Token → Parse β}
    (hf : ∀ t, (∀ s : State, s.At tokens k → s.current = t) → Agree v tokens k (f t) (f' t)) :
    Agree v tokens k (current >>= f) (current >>= f') := by
  have ends : Ends v tokens k Parse.current fun j t => j = k ∧ ∀ s : State, s.At tokens k → s.current = t := by
    intro s t u hs h
    cases h
    exact ⟨k, Nat.le_refl k, hs, rfl, fun s' hs' => hs'.current_eq hs⟩
  refine looks_current.agree.after ends ?_
  rintro j t - ⟨rfl, here⟩
  exact hf t here

theorem ends_advance (inside : ∀ s : State, s.At tokens k → s.current.kind ≠ .endOfText) :
    Ends v tokens k advance fun j _ => k < j := by
  intro s t u hs h
  cases h
  exact ⟨k + 1, Nat.le_succ k, hs.advance (inside s hs), Nat.lt_succ_self k⟩

theorem Agree.advance {f f' : Token → Parse β} (inside : ∀ s : State, s.At tokens k → s.current.kind ≠ .endOfText)
    (hf : ∀ j t, k < j → Agree v tokens j (f t) (f' t)) : Agree v tokens k (advance >>= f) (advance >>= f') :=
  moves_advance.agree.after (ends_advance inside) fun j t _ kj => hf j t kj

theorem Agree.expect {kind : Kind} {f f' : Token → Parse β} (inside : kind ≠ .endOfText)
    (hf : ∀ j t, k < j → Agree v tokens j (f t) (f' t)) : Agree v tokens k (expect kind >>= f) (expect kind >>= f') :=
  (moves_expect kind).agree.after (ends_expect inside) fun j t _ kj => hf j t kj

theorem ends_eat {kind : Kind} (inside : kind ≠ .endOfText) :
    Ends v tokens k (eat kind) fun j eaten => if eaten = true then k < j else j = k := by
  intro s eaten t hs h
  rcases eat_ok (f := pure) (bind_eq h) with ⟨here, h⟩ | ⟨-, h⟩ <;> obtain ⟨rfl, rfl⟩ := pure_ok h
  · exact ⟨k + 1, Nat.le_succ k, hs.advance (here ▸ inside), Nat.lt_succ_self k⟩
  · exact ⟨k, Nat.le_refl k, hs.expecting, rfl⟩

theorem Agree.eatIf {kind : Kind} (inside : kind ≠ .endOfText) (hit : ∀ j, k < j → Agree v tokens j p p')
    (miss : Agree v tokens k q q') :
    Agree v tokens k (eat kind >>= fun eaten => if eaten then p else q) (eat kind >>= fun eaten => if eaten then p' else q') := by
  refine (moves_eat kind).agree.after (ends_eat inside) fun j eaten _ taken => ?_
  cases eaten with
  | true => exact hit j taken
  | false =>
    obtain rfl : j = k := taken
    exact miss

theorem Ends.passing {f : α → Parse β} (hp : Ends v tokens k p fun j _ => i < j) (moves : ∀ a, Moves v (f a)) :
    Ends v tokens k (p >>= f) fun j _ => i < j :=
  hp.bind fun j a _ kj => (moves a tokens j).mono fun _ _ jl _ => Nat.lt_of_lt_of_le kj jl

/-- A reader that takes a word where what it reads satisfies `K`. -/
theorem Parse.Rereads.takes {γ : Type} {K : α → Prop} {view : α → γ} (h : Rereads false v [] 0 K p p' view) :
    Ends v tokens k p fun j a => K a → k < j := by
  intro s a t hs ha
  obtain ⟨ws, us, whole, ht, took, -⟩ := h s _ a t hs.shows ha
  refine ⟨k + ws.length, Nat.le_add_right .., ht.at hs whole, fun hK => ?_⟩
  have := List.length_pos_iff.2 (took hK)
  omega

/-! ### Loops and lists -/

theorem Agree.iterate {step step' : α → Parse (Option α)} (h : ∀ a, Onward v tokens k (step a) (step' a)) (a : α) :
    Agree v tokens k (iterate step a) (iterate step' a) := by
  refine .bounded fun n => ?_
  induction n generalizing k a with
  | zero => exact agree_pure a
  | succ n ih =>
    refine (h a).here.bind fun j found kj => ?_
    cases found with
    | none => exact agree_pure a
    | some b => exact ih (fun c => (h c).mono kj) b

section Lists

variable {sep : Kind} (inside : sep ≠ .endOfText)

include inside

theorem Later.followers (h : Later v tokens k p p') : Agree v tokens k (followers sep p) (followers sep p') := by
  refine .bounded fun n => ?_
  induction n generalizing k with
  | zero => exact agree_pure []
  | succ n ih =>
    refine .eatIf inside (fun j kj => (h j kj).bind fun l first jl => ?_) (agree_pure [])
    exact (ih (h.mono (Nat.le_trans (Nat.le_of_lt kj) jl))).map

theorem Onward.sepBy (h : Onward v tokens k p p') : Agree v tokens k (sepBy sep p) (sepBy sep p') :=
  h.here.bind fun _ _ kj => (h.mono kj).later.followers inside |>.map

end Lists

/-! ### Equations -/

section Equations

variable {ι : Type} {R : ι → Type} {rank : ι → Nat} {F : (∀ i, Parse (R i)) → ∀ i, Parse (R i)} {p : ∀ i, Parse (R i)}

/-- The readers `p` solve the equation `p = F p`, in which the reader `i` calls others only after a further
token, or those of a smaller rank: what it does from the token `k` on does not depend on other calls. -/
structure Descends (v : Version) (tokens : List Token) (rank : ι → Nat) (F : (∀ i, Parse (R i)) → ∀ i, Parse (R i))
    (p : ∀ i, Parse (R i)) : Prop where
  calls : ∀ k i q q', (∀ j i', k < j ∨ j = k ∧ rank i' < rank i → Agree v tokens j (q i') (q' i')) →
    Agree v tokens k (F q i) (F q' i)
  unfolds : ∀ k i, Agree v tokens k (p i) (F p i)

/-- However the equation is unfolded, the solution is reached: no chain of calls is longer. -/
theorem Descends.depth (h : Descends v tokens rank F p) {ranks : Nat} (low : ∀ i, rank i < ranks) (base : ∀ i, Parse (R i))
    {n k : Nat} {i : ι} (enough : (tokens.length - k) * ranks + rank i ≤ n) : Agree v tokens k (p i) (F^[n] base i) := by
  rcases Nat.lt_or_ge k tokens.length with inside | outside
  case inr => exact agree_outside outside
  -- A further token is worth more than all ranks.
  have later {j : Nat} (kj : k < j) : (tokens.length - j) * ranks + ranks ≤ (tokens.length - k) * ranks := by
    rw [← Nat.succ_mul]
    exact Nat.mul_le_mul_right _ (by omega)
  induction n generalizing k i with
  | zero =>
    have := later (Nat.lt_succ_self k)
    have := low i
    omega
  | succ n ih =>
    rw [Function.iterate_succ_apply']
    refine (h.unfolds k i).trans (h.calls k i p _ fun j i' smaller => ?_)
    have less : (tokens.length - j) * ranks + rank i' ≤ n := by
      have := low i'
      rcases smaller with kj | ⟨rfl, lower⟩
      · have := later kj
        omega
      · omega
    rcases Nat.lt_or_ge j tokens.length with inside | outside
    case inr => exact agree_outside outside
    refine ih less inside fun {l} jl => ?_
    rw [← Nat.succ_mul]
    exact Nat.mul_le_mul_right _ (by omega)

/-- A reader that is given the number of tokens that are left needs no more calls of itself than that. -/
theorem descends_bounded (pFor : Nat → ∀ i, Parse (R i)) (unfold : ∀ n i, pFor (n + 1) i = F (pFor n) i)
    (calls : ∀ k i q q', (∀ i', Later v tokens k (q i') (q' i')) → Agree v tokens k (F q i) (F q' i)) :
    Descends v tokens (fun _ => 0) F fun i => bounded fun n => pFor n i := by
  have enough (n m k : Nat) (i : ι) (hn : tokens.length ≤ k + n) (hm : tokens.length ≤ k + m) :
      Agree v tokens k (pFor n i) (pFor m i) := by
    induction n generalizing m k i with
    | zero => exact agree_outside hn
    | succ n ih =>
      cases m with
      | zero => exact agree_outside hm
      | succ m =>
        rw [unfold, unfold]
        exact calls k i _ _ fun i' j kj => ih m j i' (by omega) (by omega)
  have given (n k : Nat) (i : ι) (hn : tokens.length ≤ k + n) : Agree v tokens k (bounded fun n => pFor n i) (pFor n i) := by
    have bound {s : State} (hs : s.At tokens k) := enough s.bound n k i (Nat.le_of_eq hs.length) hn
    exact ⟨fun s hs => (bound hs).same s hs, fun s a t hs ha => (bound hs).ends s a t hs ha⟩
  refine ⟨fun k i q q' h => calls k i q q' fun i' j kj => h j i' (.inl kj), fun k i => ?_⟩
  refine (given (tokens.length + 1) k i (by omega)).trans ?_
  rw [unfold]
  exact calls k i _ _ fun i' j _ => (given tokens.length j i' (by omega)).symm

end Equations

/-! ### The equations of loops -/

/-- A round of a loop, with the reader of the rounds after it. -/
def Parse.iterate.once (step : α → Parse (Option α)) (more : α → Parse α) (a : α) : Parse α := do
  match ← step a with
  | some b => more b
  | none => pure a

/-- One more item of a list, with the reader of the items after it. -/
def Parse.followers.once (sep : Kind) (item : Parse α) (more : Parse (List α)) : Parse (List α) := do
  if ← eat sep then
    let first ← item
    let others ← more
    return first :: others
  else return []

/-- A loop whose rounds take a token when they go on. -/
theorem descends_iterate {step : α → Parse (Option α)}
    (takes : ∀ a k, Ends v tokens k (step a) fun j found => found.isSome = true → k < j) :
    Descends v tokens (fun _ => 0) (iterate.once step) (iterate step) := by
  refine descends_bounded (iterateFor step) (fun _ _ => rfl) fun k a q q' h => ?_
  have same : Agree v tokens k (step a) (step a) := ⟨fun _ _ => rfl, (takes a k).mono fun _ _ _ _ => trivial⟩
  refine same.after (takes a k) fun j found _ taken => ?_
  cases found with
  | none => exact agree_pure a
  | some b => exact h b j (taken rfl)

theorem descends_followers {sep : Kind} {item : Parse α} (inside : sep ≠ .endOfText) (moves : Moves v item) :
    Descends v tokens (fun _ => 0) (fun more (_ : Unit) => followers.once sep item (more ())) fun _ => followers sep item := by
  refine descends_bounded (fun n _ => followersFor sep item n) (fun _ _ => rfl) fun k _ q q' h => ?_
  refine .eatIf inside (fun j kj => .step moves fun l first jl => ?_) (agree_pure [])
  exact (h () l (Nat.lt_of_lt_of_le kj jl)).map

end SkyQuery.Grammar
