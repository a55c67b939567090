import SkyQuery.Proofs.Rereads.Queries
import SkyQuery.Proofs.Token.Slices
import SkyQuery.Proofs.Tree.Parts

/-!
# Ranges of tokens

What a reader makes of a text stands in a range of its tokens. `Part.Within` says that a part has the
span of such a range, that it is what the words of the range are read as, and that its own parts stand
inside the range, at any depth. `Ends` follows a reader from one token to another.
-/

namespace SkyQuery

open Grammar Parse

/-! ### Where a state stands -/

namespace Grammar

/-- The state in which the tokens from `k` on are left of a text. -/
structure State.At (tokens : List Token) (k : Nat) (s : State) : Prop where
  shows : s.Shows ((wordsBefore tokens).drop k)
  left : s.current :: s.rest = tokens.drop k
  reached : s.reached = stopBefore tokens k

section At

variable {tokens : List Token} {i j k : Nat} {s t : State} {ws us : List Word}

theorem State.At.start (h : s.At tokens k) : s.current.start = startOf tokens k := by
  rw [startOf, ← h.left]
  rfl

theorem State.At.le (h : s.At tokens k) : k ≤ (wordsBefore tokens).length := by
  have left := congrArg List.length h.left
  rw [List.length_cons, List.length_drop] at left
  rw [wordsBefore, List.length_map, List.length_dropLast]
  omega

theorem State.At.unique (h : s.At tokens i) (h' : s.At tokens j) : i = j := by
  have same := congrArg List.length (h.shows.unique h'.shows)
  have := h.le
  have := h'.le
  rw [List.length_drop, List.length_drop] at same
  omega

/-- A state stands where it stands whatever was expected. -/
theorem State.At.expecting (h : s.At tokens k) {expected : List String} : State.At tokens k { s with expected } :=
  ⟨h.shows, h.left, h.reached⟩

/-- A reader that takes words goes on to a later token. -/
theorem State.Takes.at (h : s.Takes ws us t) (hs : s.At tokens k) (whole : (wordsBefore tokens).drop k = ws ++ us) :
    t.At tokens (k + ws.length) := by
  refine ⟨?_, ?_, ?_⟩
  · rw [← List.drop_drop, whole, List.drop_left]
    exact h.shows
  · rw [h.tokens, hs.left, List.drop_drop]
  · rw [h.reached, hs.reached, hs.left, stopBefore, stopBefore, List.take_add, List.getLast?_append]
    cases ((tokens.drop k).take ws.length).getLast? <;> rfl

theorem piece_of_drop (whole : (wordsBefore tokens).drop k = ws ++ us) : piece tokens k (k + ws.length) = ws := by
  rw [piece, whole, Nat.add_sub_cancel_left, List.take_left]

theorem State.At.nextKind (h : s.At tokens k) (some : piece tokens k j ≠ []) :
    nextKind (piece tokens k j) = s.current.kind := by
  have here : piece tokens k j <+: (wordsBefore tokens).drop k := List.take_prefix ..
  rw [h.shows.kind]
  obtain ⟨w, ws, found⟩ := List.exists_cons_of_ne_nil some
  rw [found] at here ⊢
  obtain ⟨us, whole⟩ := here
  rw [← whole]
  rfl

end At

end Grammar

/-! ### Parts -/

variable {v : Version} {tokens : List Token} {i j k : Nat}

/-- What the words are read as, when they are all of a text. -/
def Part.IsReadOf (v : Version) (ws : List Word) : Part → Prop
  | .operand o => ws ≠ [] ∧ Reads v value ws [] (·.unplaced = o.unplaced)
  | .constraint c => ws ≠ [] ∧ Reads v (condition subquery) ws [] (·.unplaced = c.unplaced)
  | _ => True

/-- The part stands between the tokens `i` and `j`: it has the span of a range of them and is what their
words are read as, and its parts stand inside that range. -/
inductive Part.Within (v : Version) (tokens : List Token) : Nat → Nat → Part → Prop where
  | intro {i j a b : Nat} {p : Part} (left : i ≤ a) (order : a ≤ b) (right : b ≤ j) (inside : b ≤ (wordsBefore tokens).length)
    (span : p.span = some (spanOf tokens a b)) (read : p.IsReadOf v (piece tokens a b))
    (children : ∀ c ∈ p.children, Within v tokens a b c) : Within v tokens i j p

/-- The part has the span from `i` to `j`, and its parts stand inside. -/
structure Part.Spans (v : Version) (tokens : List Token) (i j : Nat) (p : Part) : Prop where
  span : p.span = some (spanOf tokens i j)
  children : ∀ c ∈ p.children, c.Within v tokens i j

section Parts

variable {p : Part}

theorem lt_of_piece_ne_nil (h : piece tokens i j ≠ []) : i < j := by
  rcases Nat.lt_or_ge i j with lt | ge
  · exact lt
  · exact absurd (by rw [piece, Nat.sub_eq_zero_of_le ge, List.take_zero]) h

theorem Part.Within.widen {a b : Nat} (h : p.Within v tokens a b) (left : i ≤ a) (right : b ≤ j) :
    p.Within v tokens i j := by
  obtain ⟨l, order, r, inside, span, read, children⟩ := h
  exact ⟨Nat.le_trans left l, order, Nat.le_trans r right, inside, span, read, children⟩

theorem Part.Within.parts (h : p.Within v tokens i j) : ∀ c ∈ p.children, c.Within v tokens i j := by
  obtain ⟨left, -, right, -, -, -, children⟩ := h
  exact fun c hc => (children c hc).widen left right

theorem Part.Spans.within (h : p.Spans v tokens i j) (order : i ≤ j) (inside : j ≤ (wordsBefore tokens).length)
    (read : p.IsReadOf v (piece tokens i j)) : p.Within v tokens i j :=
  .intro (Nat.le_refl i) order (Nat.le_refl j) inside h.span read h.children

end Parts

/-! ### Readers -/

namespace Grammar

variable {α β γ : Type} {p p' : Parse α} {Q : Nat → α → Prop} {R : Nat → β → Prop}

/-- From the token `k` the reader goes on to a later one, where what it has read has `Q`. -/
def Ends (v : Version) (tokens : List Token) (k : Nat) (p : Parse α) (Q : Nat → α → Prop) : Prop :=
  ∀ s a t, s.At tokens k → p v s = .ok (a, t) → ∃ j, k ≤ j ∧ t.At tokens j ∧ Q j a

/-- The reader goes on to a later token. -/
def Moves (v : Version) (p : Parse α) : Prop := ∀ tokens k, Ends v tokens k p fun _ _ => True

theorem Parse.Rereads.moves {K : α → Prop} {view : α → γ} (h : Rereads false v [] 0 K p p' view) : Moves v p := by
  intro tokens k s a t hs ha
  obtain ⟨ws, us, whole, ht, -⟩ := h s _ a t hs.shows ha
  exact ⟨k + ws.length, Nat.le_add_right .., ht.at hs whole, trivial⟩

theorem Ends.mono (h : Ends v tokens k p Q) {Q' : Nat → α → Prop} (imp : ∀ j a, k ≤ j → Q j a → Q' j a) :
    Ends v tokens k p Q' := by
  intro s a t hs ha
  obtain ⟨j, le, ht, hQ⟩ := h s a t hs ha
  exact ⟨j, le, ht, imp j a le hQ⟩

theorem Ends.inside (h : Ends v tokens k p Q) :
    Ends v tokens k p fun j a => j ≤ (wordsBefore tokens).length ∧ Q j a := by
  intro s a t hs ha
  obtain ⟨j, le, ht, hQ⟩ := h s a t hs ha
  exact ⟨j, le, ht, ht.le, hQ⟩

theorem ends_pure {a : α} (h : Q k a) : Ends v tokens k (pure a) Q := by
  intro s b t hs hb
  obtain ⟨rfl, rfl⟩ := pure_ok hb
  exact ⟨k, Nat.le_refl k, hs, h⟩

theorem ends_fail (h : ∀ s a t, p v s ≠ .ok (a, t)) : Ends v tokens k p Q :=
  fun s a t _ ha => absurd ha (h s a t)

theorem ends_unexpected : Ends v tokens k (unexpected : Parse α) Q := ends_fail fun _ _ _ h => by cases h

theorem ends_failAt {code : Code} {message : String} {span : Option Span} :
    Ends v tokens k (failAt code message span : Parse α) Q := ends_fail fun _ _ _ h => by cases h

theorem Ends.bind {f : α → Parse β} (hp : Ends v tokens k p Q)
    (hf : ∀ j a, k ≤ j → Q j a → Ends v tokens j (f a) R) : Ends v tokens k (p >>= f) R := by
  intro s b r hs h
  obtain ⟨a, t, ha, hb⟩ := bind_ok h
  obtain ⟨j, le, ht, hQ⟩ := hp s a t hs ha
  obtain ⟨j', le', hr, hR⟩ := hf j a le hQ t b r ht hb
  exact ⟨j', Nat.le_trans le le', hr, hR⟩

theorem Moves.bind {f : α → Parse β} (hp : Moves v p) (hf : ∀ j a, k ≤ j → Ends v tokens j (f a) R) :
    Ends v tokens k (p >>= f) R := (hp tokens k).bind fun j a le _ => hf j a le

theorem Ends.place {f : Place → Parse β} (h : Ends v tokens k (f (startOf tokens k)) R) :
    Ends v tokens k (place >>= f) R := by
  intro s b t hs hb
  rw [place_bind, hs.start] at hb
  exact h s b t hs hb

theorem Ends.spanFrom {f : Option Span → Parse β} (h : Ends v tokens k (f (some (spanOf tokens i k))) R) :
    Ends v tokens k (spanFrom (startOf tokens i) >>= f) R := by
  intro s b t hs hb
  change f (some (.between (startOf tokens i) s.reached)) v s = _ at hb
  rw [hs.reached] at hb
  exact h s b t hs hb

theorem Ends.ite {c : Prop} [Decidable c] {q : Parse α} (hp : c → Ends v tokens k p Q)
    (hq : ¬c → Ends v tokens k q Q) : Ends v tokens k (if c then p else q) Q := by
  split
  · exact hp ‹_›
  · exact hq ‹_›

theorem Ends.bounded {p : Nat → Parse α} (h : ∀ n, Ends v tokens k (p n) Q) : Ends v tokens k (bounded p) Q :=
  fun s => h s.bound s

theorem Ends.either {q : Parse α} (hp : Ends v tokens k p Q) (hq : Ends v tokens k q Q) :
    Ends v tokens k (either p q) Q := by
  intro s a t hs h
  unfold Parse.either at h
  split at h
  · rename_i r hr
    cases h
    exact hp s a t hs hr
  · split at h
    · rename_i r hr
      cases h
      exact hq s a t hs hr
    · cases h

/-! ### Steps -/

/-- The reader takes nothing. -/
def Looks (v : Version) (p : Parse α) : Prop := ∀ s a t, p v s = .ok (a, t) → ∃ expected, t = { s with expected }

theorem Looks.bind {f : α → Parse β} (hp : Looks v p) (hf : ∀ a, Ends v tokens k (f a) R) :
    Ends v tokens k (p >>= f) R := by
  intro s b r hs h
  obtain ⟨a, t, ha, hb⟩ := bind_ok h
  obtain ⟨expected, rfl⟩ := hp s a t ha
  exact hf a { s with expected } b r hs.expecting hb

theorem Looks.ends (hp : Looks v p) (ends : ∀ a, Q k a) : Ends v tokens k p Q := by
  intro s a t hs ha
  obtain ⟨expected, rfl⟩ := hp s a t ha
  exact ⟨k, Nat.le_refl k, hs.expecting, ends a⟩

theorem Looks.moves (hp : Looks v p) : Moves v p := fun _ _ => hp.ends fun _ => trivial

theorem looks_pure (a : α) : Looks v (pure a) := fun s _ _ h => by cases h; exact ⟨_, rfl⟩

theorem looks_fail (h : ∀ s a t, p v s ≠ .ok (a, t)) : Looks v p := fun s a t ha => absurd ha (h s a t)

theorem looks_failAt {code : Code} {message : String} {span : Option Span} :
    Looks v (failAt code message span : Parse α) := looks_fail fun _ _ _ h => by cases h

theorem Looks.seq {f : α → Parse β} (hp : Looks v p) (hf : ∀ a, Looks v (f a)) : Looks v (p >>= f) := by
  intro s b r h
  obtain ⟨a, t, ha, hb⟩ := bind_ok h
  obtain ⟨expected, rfl⟩ := hp s a t ha
  obtain ⟨expected', rfl⟩ := hf a _ b r hb
  exact ⟨expected', rfl⟩

theorem Looks.ite {c : Prop} [Decidable c] {q : Parse α} (hp : c → Looks v p) (hq : ¬c → Looks v q) :
    Looks v (if c then p else q) := by
  split
  · exact hp ‹_›
  · exact hq ‹_›

theorem looks_version : Looks v version := fun s a t h => by cases h; exact ⟨_, rfl⟩

theorem looks_place : Looks v place := fun s a t h => by cases h; exact ⟨_, rfl⟩

theorem looks_spanFrom (start : Place) : Looks v (spanFrom start) := fun s a t h => by cases h; exact ⟨_, rfl⟩

theorem looks_current : Looks v current := fun s a t h => by cases h; exact ⟨_, rfl⟩

theorem looks_second : Looks v second := fun s a t h => by cases h; exact ⟨_, rfl⟩

theorem looks_sees (kind : Kind) : Looks v (sees kind) := fun s a t h => by cases h; exact ⟨_, rfl⟩

theorem looks_seesCall : Looks v seesCall := fun s a t h => by cases h; exact ⟨_, rfl⟩

theorem looks_atIdentifier : Looks v atIdentifier := fun s a t h => by cases h; exact ⟨_, rfl⟩

theorem looks_expecting (descriptions : List String) : Looks v (expecting descriptions) :=
  fun s a t h => by cases h; exact ⟨_, rfl⟩

theorem moves_advance : Moves v advance := by
  intro tokens k s a t hs h
  cases h
  cases hrest : s.rest with
  | nil =>
    have same : s.advance = { s with expected := [] } := by simp only [State.advance, hrest]
    rw [same]
    exact ⟨k, Nat.le_refl k, hs.expecting, trivial⟩
  | cons u others =>
    have more : (wordsBefore tokens).drop k ≠ [] := by
      intro none
      have shows : s.Shows [] := none ▸ hs.shows
      have length := congrArg List.length shows
      rw [hrest] at length
      simp at length
    obtain ⟨w, us, whole⟩ := List.exists_cons_of_ne_nil more
    have shows : s.Shows (w :: us) := whole ▸ hs.shows
    exact ⟨k + 1, Nat.le_succ k, (State.Takes.advance shows).at hs whole, trivial⟩

theorem Moves.seq {f : α → Parse β} (hp : Moves v p) (hf : ∀ a, Moves v (f a)) : Moves v (p >>= f) :=
  fun tokens _ => hp.bind fun j a _ => hf a tokens j

theorem moves_eat (kind : Kind) : Moves v (eat kind) := by
  refine fun _ _ => (looks_sees kind).bind fun _ => .ite (fun _ => ?_) fun _ => ends_pure trivial
  exact moves_advance.bind fun _ _ _ => ends_pure trivial

theorem Ends.eatIf {kind : Kind} {q r : Parse β} (hit : ∀ j, k ≤ j → Ends v tokens j q R) (miss : Ends v tokens k r R) :
    Ends v tokens k (eat kind >>= fun eaten => if eaten then q else r) R := by
  intro s b t hs h
  rcases eat_ok h with ⟨-, h⟩ | ⟨-, h⟩
  · obtain ⟨j, kj, ht, -⟩ := moves_advance (v := v) tokens k s s.current s.advance hs rfl
    obtain ⟨l, jl, hl, hR⟩ := hit j kj _ b t ht h
    exact ⟨l, Nat.le_trans kj jl, hl, hR⟩
  · exact miss { s with expected := kind.describe :: s.expected } b t hs.expecting h

theorem moves_expect (kind : Kind) : Moves v (expect kind) :=
  fun _ _ => (looks_sees kind).bind fun _ => .ite (fun _ => moves_advance _ _) fun _ => ends_unexpected

/-! ### Reading again -/

section Again

variable {view : α → γ} {item' : Nat → Parse α}

/-- What is read is read again from the words of its range. -/
theorem Ends.again (h : Ends v tokens k p Q) (again : ∀ d, Rereads false v [] (d + 1) (fun _ => True) p (item' d) view) :
    Ends v tokens k p fun j a => Q j a ∧ j ≤ (wordsBefore tokens).length ∧ piece tokens k j ≠ [] ∧
      Reads v (item' (piece tokens k j).length) (piece tokens k j) [] (view · = view a) := by
  intro s a t hs ha
  obtain ⟨j, le, ht, hQ⟩ := h s a t hs ha
  obtain ⟨ws, us, whole, takes, took, -⟩ := again 0 s _ a t hs.shows ha
  have takes : s.Takes ws us t := takes
  obtain rfl := ht.unique (takes.at hs whole)
  refine ⟨_, le, ht, hQ, ht.le, ?_⟩
  rw [piece_of_drop whole]
  refine ⟨took trivial, (again ws.length).reads (whole ▸ hs.shows) takes.shows ha .ended ?_⟩
  simp

/-- A loop that groups to the left: what each round makes is read again from the words up to there. -/
theorem Ends.loop {item : Parse α} (step : Place → α → Parse (Option α)) (step' : Nat → Place → α → Parse (Option α))
    (B : Nat → α → Prop) (again : ∀ d, Rereads false v [] (d + 1) (fun _ => True) item (item' d) view)
    (again_step : ∀ d start start' a b, view b = view a →
      Rereads false v [] (d + 1) (·.isSome = true) (step start a) (step' d start' b) (Option.map view))
    (ends : ∀ d start a, Reads v (step' d start a) [] [] (· = none)) (first : Ends v tokens k item Q)
    (next : ∀ j a, k ≤ j → Q j a → Ends v tokens j (step (startOf tokens k) a) fun j' r => ∀ b ∈ r, B j' b)
    (close : ∀ j b, B j b → j ≤ (wordsBefore tokens).length → piece tokens k j ≠ [] →
      (∀ start, Reads v (item' (piece tokens k j).length >>= iterate (step' (piece tokens k j).length start))
        (piece tokens k j) [] (view · = view b)) → Q j b)
    (wide : ∀ j j' a, j ≤ j' → Q j a → Q j' a) :
    Ends v tokens k (Parse.place >>= fun start => item >>= iterate (step start)) Q := by
  refine .place fun s b r hs read => ?_
  obtain ⟨a, t, ha, loop⟩ := bind_ok read
  obtain ⟨_, left, _, ht, -⟩ := again 0 s _ a t hs.shows ha
  have enough : left.length < t.bound := by rw [ht.shows.bound]; exact Nat.lt_succ_self _
  obtain ⟨u, rounds, last⟩ := rounds_of_iterateFor
    (fun a => again_step 0 (startOf tokens k) (startOf tokens k) a a rfl) ht.shows enough loop
  have made : ∃ j, k ≤ j ∧ u.At tokens j ∧ Q j b := by
    clear last loop read
    induction rounds with
    | start => exact first s a t hs ha
    | @next b c t' u before last ih =>
      obtain ⟨j, le, ht', hb⟩ := ih
      obtain ⟨j', le', hu, hc⟩ := next j b le hb t' (some c) u ht' last
      refine ⟨j', Nat.le_trans le le', hu, ?_⟩
      have grown (d : Nat) (start : Place) := (again d).grows (fun a b => again_step d (startOf tokens k) start a b)
        hs.shows ha (before.next last)
      obtain ⟨ws, us, whole, takes, took, -⟩ := grown 0 .origin
      obtain rfl := hu.unique (takes.at hs whole)
      refine close _ c (hc c rfl) hu.le (by rwa [piece_of_drop whole]) fun start => ?_
      rw [piece_of_drop whole]
      obtain ⟨ws', us', whole', takes', -, grows⟩ := grown ws.length start
      obtain rfl := takes.shows.unique takes'.shows
      obtain rfl := List.append_cancel_right (whole.symm.trans whole')
      exact (grows [] .ended (by simp)).done fun a _ => ends ws.length start a
  obtain ⟨j, le, hu, hb⟩ := made
  obtain ⟨j', le', hr, -⟩ := (again_step 0 (startOf tokens k) .origin b b rfl).any.shorter (Nat.zero_le 1)
    |>.moves tokens j u none r hu last
  exact ⟨j', Nat.le_trans le le', hr, wide j j' b le' hb⟩

end Again

/-! ### Loops and lists -/

/-- What a round keeps, whether it is the last or not, a loop keeps. -/
theorem Ends.rounds {step : α → Parse (Option α)} {a : α}
    (next : ∀ j a, Q j a → Ends v tokens j (step a) fun j' r => Q j' (r.getD a)) (start : Q k a) :
    Ends v tokens k (Parse.iterate step a) Q := by
  refine .bounded fun n => ?_
  induction n generalizing k a with
  | zero => exact ends_pure start
  | succ n ih =>
    refine (next k a start).bind fun j found _ kept => ?_
    cases found with
    | none => exact ends_pure kept
    | some b => exact ih kept

theorem Ends.iterate {step : α → Parse (Option α)} {a : α} (start : Q k a)
    (next : ∀ j a, k ≤ j → Q j a → Ends v tokens j (step a) fun j' r => ∀ b ∈ r, Q j' b)
    (wide : ∀ j j' a, j ≤ j' → Q j a → Q j' a) : Ends v tokens k (iterate step a) Q := by
  have kept : Ends v tokens k (Parse.iterate step a) fun j a => k ≤ j ∧ Q j a := by
    refine .rounds (fun j a hj => (next j a hj.1 hj.2).mono fun j' found le hfound => ?_) ⟨Nat.le_refl k, start⟩
    refine ⟨Nat.le_trans hj.1 le, ?_⟩
    cases found with
    | none => exact wide j j' a le hj.2
    | some b => exact hfound b rfl
  exact kept.mono fun _ _ _ h => h.2

section Lists

variable {item : Parse α} {sep : Kind} {S : Nat → Nat → α → Prop}
  (hitem : ∀ k, Ends v tokens k item (S k)) (wide : ∀ {i j a b x}, i ≤ a → b ≤ j → S a b x → S i j x)

include hitem wide

theorem Ends.followers (k : Nat) : Ends v tokens k (followers sep item) fun j as => ∀ a ∈ as, S k j a := by
  refine .bounded fun n => ?_
  induction n generalizing k with
  | zero => exact ends_pure (List.forall_mem_nil _)
  | succ n ih =>
    refine (moves_eat sep).bind fun j eaten kj => .ite (fun _ => ?_) fun _ => ends_pure (List.forall_mem_nil _)
    refine (hitem j).bind fun j' a jj' ha => (ih j').bind fun l as jl has => ends_pure ?_
    refine List.forall_mem_cons.2 ⟨wide kj jl ha, fun b hb => wide ?_ (Nat.le_refl l) (has b hb)⟩
    exact Nat.le_trans kj jj'

theorem Ends.sepBy (k : Nat) : Ends v tokens k (sepBy sep item) fun j as => ∀ a ∈ as, S k j a := by
  refine (hitem k).bind fun j a kj ha => (Ends.followers hitem wide j).bind fun l as jl has => ends_pure ?_
  exact List.forall_mem_cons.2 ⟨wide (Nat.le_refl k) jl ha, fun b hb => wide kj (Nat.le_refl l) (has b hb)⟩

end Lists

end Grammar

end SkyQuery
