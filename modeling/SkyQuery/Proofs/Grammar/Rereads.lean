import SkyQuery.Proofs.Grammar.Reads
import SkyQuery.Proofs.Grammar.Yields

/-!
# Reading less of a text again

A reader takes some words of what is left of a text and leaves the others alone. `Rereads outer v taken d K
p p' view` says that what `p` reads, `p'` reads again from the words that `p` took, also where the text
ends earlier than it did for `p`. The words `taken` are those of which it is known that `p` takes them.
-/

namespace SkyQuery.Grammar

theorem State.Shows.unique {s : State} {ws us : List Word} (h : s.Shows ws) (h' : s.Shows us) : ws = us :=
  List.append_cancel_right (h.symm.trans h')

theorem State.Shows.word {s : State} {ws : List Word} (h : s.Shows ws) : s.current.word = ws.headD endWord := by
  cases ws with
  | nil => exact (List.cons.inj h).1
  | cons w ws => exact h.current

theorem State.Shows.secondWord {s : State} {w : Word} {ws : List Word} (h : s.Shows (w :: ws)) :
    s.second.word = ws.headD endWord := by
  cases ws with
  | cons u ws => exact h.second
  | nil =>
    have rest := h.rest
    cases hrest : s.rest with
    | nil => rw [hrest] at rest; cases rest
    | cons t others =>
      rw [hrest] at rest
      simpa [State.second, hrest] using (List.cons.inj rest).1

@[simp] theorem State.advance_expecting (s : State) (expected : List String) :
    State.advance { s with expected } = s.advance := by
  unfold State.advance
  cases s.rest <;> rfl

/-- From the one state to the other the words `ws` are read, and `us` are left. -/
structure State.Takes (s : State) (ws us : List Word) (t : State) : Prop where
  shows : t.Shows us
  tokens : t.current :: t.rest = (s.current :: s.rest).drop ws.length
  reached : t.reached = ((((s.current :: s.rest).take ws.length).getLast?).map Token.stop).getD s.reached

section Takes

variable {s t r : State} {w : Word} {ws us left between : List Word}

theorem State.Takes.refl (hs : s.Shows us) : s.Takes [] us s := ⟨hs, rfl, rfl⟩

theorem State.Takes.advance (hs : s.Shows (w :: us)) : s.Takes [w] us s.advance := by
  refine ⟨hs.advance, ?_, ?_⟩ <;>
  · have rest := hs.rest
    unfold State.advance
    cases hrest : s.rest with
    | nil => rw [hrest] at rest; cases us <;> cases rest
    | cons t others => rfl

theorem State.Takes.trans (h : s.Takes ws between t) (h' : t.Takes us left r) : s.Takes (ws ++ us) left r := by
  refine ⟨h'.shows, ?_, ?_⟩
  · rw [h'.tokens, h.tokens, List.drop_drop, List.length_append]
  · rw [h'.reached, h.reached, h.tokens, List.length_append, List.take_add, List.getLast?_append]
    cases (List.take us.length (List.drop ws.length (s.current :: s.rest))).getLast? <;> rfl

theorem State.Takes.expecting {expected : List String} (h : State.Takes { s with expected } ws us t) :
    s.Takes ws us t := ⟨h.shows, h.tokens, h.reached⟩

theorem State.Takes.ofAdvance (hs : s.Shows (w :: between)) (h : s.advance.Takes ws us t) : s.Takes (w :: ws) us t :=
  (State.Takes.advance hs).trans h

end Takes

/-- The words before which a clause may stop: the end of a text and, outside of all parentheses, the first
words of the clauses of a query. -/
inductive Stops : Bool → Kind → Prop where
  | text {outer : Bool} : Stops outer .endOfText
  | source : Stops true (.keyword .fromKw)
  | filter : Stops true (.keyword .whereKw)
  | group : Stops true (.keyword .groupKw)
  | order : Stops true (.keyword .orderKw)

/-- What may stand in the place of the words that a reader left: fewer of them, or all of them and then
another clause. Where no words are left, another clause may follow only outside of all parentheses. -/
inductive Follows : Bool → List Word → List Word → Prop where
  | ended {outer : Bool} {us : List Word} : Follows outer us []
  | clause {w : Word} {rest : List Word} (stops : Stops true w.1) : Follows true [] (w :: rest)
  | next {outer : Bool} {w : Word} {us rest : List Word} (h : Follows true us rest) :
    Follows outer (w :: us) (w :: rest)

section Follows

variable {outer : Bool} {kind : Kind} {ws us rest : List Word}

theorem Stops.ne {kind' : Kind} (h : Stops outer kind) (inside : ¬Stops outer kind') : kind ≠ kind' :=
  fun same => inside (same ▸ h)

theorem Stops.beq {kind' : Kind} (h : Stops outer kind) (inside : ¬Stops outer kind') : (kind == kind') = false :=
  beq_eq_false_iff_ne.2 (h.ne inside)

theorem Stops.not_name {v : Version} {t : Token} (h : Stops outer t.kind) : isIdentifier v t = false :=
  Parse.isIdentifier_kind (h.ne nofun) (h.ne nofun)

theorem Follows.refl : Follows outer us us := by
  induction us generalizing outer with
  | nil => exact .ended
  | cons w us ih => exact .next ih

theorem Follows.outside (h : Follows outer us rest) : Follows true us rest := by
  cases h with
  | ended => exact .ended
  | clause stops => exact .clause stops
  | next h => exact .next h

theorem Follows.append (h : Follows outer us rest) (ws : List Word) : Follows outer (ws ++ us) (ws ++ rest) := by
  induction ws generalizing outer with
  | nil => exact h
  | cons w ws ih => exact .next (ih h.outside)

/-- After words that are left, another clause may follow inside of parentheses too. -/
theorem Follows.after {outer' : Bool} (h : Follows outer us rest) (left : ws ≠ []) :
    Follows outer' (ws ++ us) (ws ++ rest) := by
  obtain ⟨w, ws, rfl⟩ := List.exists_cons_of_ne_nil left
  exact .next (h.outside.append ws)

/-- The next word is the same, or one before which a clause may stop. -/
theorem Follows.headD (h : Follows outer us rest) :
    rest.headD endWord = us.headD endWord ∨ Stops outer (rest.headD endWord).1 := by
  cases h with
  | ended => exact .inr .text
  | clause stops => exact .inr stops
  | next h => exact .inl rfl

theorem Follows.nextKind (h : Follows outer us rest) :
    nextKind rest = nextKind us ∨ Stops outer (nextKind rest) := by
  cases h with
  | ended => exact .inr .text
  | clause stops => exact .inr stops
  | next h => exact .inl rfl

/-- Words before which no clause may stop are among those that were left. -/
theorem Follows.within (h : Follows outer us (ws ++ rest)) (inside : ∀ w ∈ ws, ¬Stops true w.1) :
    ∃ left, us = ws ++ left := by
  induction ws generalizing outer us with
  | nil => exact ⟨us, rfl⟩
  | cons w ws ih =>
    obtain ⟨first, others⟩ := List.forall_mem_cons.1 inside
    cases h with
    | clause stops => exact absurd stops first
    | next h =>
      obtain ⟨left, rfl⟩ := ih h others
      exact ⟨left, rfl⟩

end Follows

namespace Parse

variable {α β γ δ : Type} {v : Version} {outer : Bool}

/-! ### What was looked for -/

theorem eat_ok {kind : Kind} {f : Bool → Parse α} {s t : State} {a : α} (h : (eat kind >>= f) v s = .ok (a, t)) :
    s.current.kind = kind ∧ f true v s.advance = .ok (a, t) ∨
      s.current.kind ≠ kind ∧ f false v { s with expected := kind.describe :: s.expected } = .ok (a, t) := by
  by_cases here : s.current.kind = kind
  · rw [bind_eq (eat_hit here)] at h
    exact .inl ⟨here, h⟩
  · rw [bind_eq (eat_miss here)] at h
    exact .inr ⟨here, h⟩

theorem expect_ok {kind : Kind} {f : Token → Parse α} {s t : State} {a : α} (h : (expect kind >>= f) v s = .ok (a, t)) :
    s.current.kind = kind ∧ f s.current v s.advance = .ok (a, t) := by
  by_cases here : s.current.kind = kind
  · rw [bind_eq (expect_hit here)] at h
    exact ⟨here, h⟩
  · obtain ⟨token, r, htoken, -⟩ := bind_ok h
    unfold expect at htoken
    obtain ⟨seen, u, hseen, htoken⟩ := bind_ok htoken
    cases hseen
    rw [if_neg (mt beq_iff_eq.1 here)] at htoken
    cases htoken

/-! ### Reading again -/

/-- From words that start with `taken`, `p'` reads again what `p` reads of them, up to what `view` hides,
when it is given no more than `p` took and a part of what `p` left, of fewer than `d` words together. If
what is read satisfies `K`, then words after `taken` were taken. -/
def Rereads (outer : Bool) (v : Version) (taken : List Word) (d : Nat) (K : α → Prop) (p p' : Parse α) (view : α → γ) : Prop :=
  ∀ s whole a t, s.Shows (taken ++ whole) → p v s = .ok (a, t) →
    ∃ ws us, whole = ws ++ us ∧ s.Takes (taken ++ ws) us t ∧ (K a → ws ≠ []) ∧
      ∀ rest, Follows outer us rest → (taken ++ ws ++ rest).length < d → Reads v p' (taken ++ ws) rest (view · = view a)

section Rules

variable {taken more : List Word} {w : Word} {d e : Nat} {J : α → Prop} {K : β → Prop} {p p' : Parse α}
  {f f' : α → Parse β} {q q' : Parse β} {view : α → γ} {look : β → δ}

theorem Rereads.reads {K : α → Prop} {s t : State} {a : α} {ws us : List Word} (h : Rereads outer v taken d K p p' view)
    (hs : s.Shows (taken ++ (ws ++ us))) (ht : t.Shows us) (hp : p v s = .ok (a, t)) {rest : List Word}
    (hrest : Follows outer us rest) (short : (taken ++ ws ++ rest).length < d) :
    Reads v p' (taken ++ ws) rest (view · = view a) := by
  obtain ⟨ws', us', whole, ht', -, again⟩ := h s _ a t hs hp
  obtain rfl := ht.unique ht'.shows
  obtain rfl := List.append_cancel_right whole
  exact again rest hrest short

theorem Rereads.weaken {K K' : α → Prop} (h : Rereads outer v taken e K p p' view) (le : d ≤ e)
    (imp : ∀ a, K' a → K a) : Rereads outer v taken d K' p p' view := by
  intro s whole a t hs ha
  obtain ⟨ws, us, rfl, ht, kept, again⟩ := h s whole a t hs ha
  exact ⟨ws, us, rfl, ht, fun hK => kept (imp a hK), fun rest hrest short => again rest hrest (by omega)⟩

theorem Rereads.shorter {K : α → Prop} (h : Rereads outer v taken e K p p' view) (le : d ≤ e) :
    Rereads outer v taken d K p p' view := h.weaken le fun _ => id

theorem Rereads.any {K : α → Prop} (h : Rereads outer v taken d K p p' view) :
    Rereads outer v taken d (fun _ => False) p p' view := h.weaken (Nat.le_refl d) fun _ => False.elim

theorem rereads_pure {a b : α} {K : α → Prop} (same : view b = view a) (still : ¬K a) :
    Rereads outer v [] d K (pure a) (pure b) view := by
  intro s whole c t hs hc
  obtain ⟨rfl, rfl⟩ := pure_ok hc
  exact ⟨[], whole, rfl, .refl hs, fun hK => absurd hK still, fun rest _ _ => reads_pure same⟩

theorem rereads_fail {K : α → Prop} (h : ∀ s a t, p v s ≠ .ok (a, t)) : Rereads outer v taken d K p p' view :=
  fun s _ a t _ ha => absurd ha (h s a t)

theorem rereads_unexpected {K : α → Prop} : Rereads outer v taken d K unexpected p' view :=
  rereads_fail fun _ _ _ h => by cases h

theorem rereads_failAt {code : Code} {message : String} {span : Option Span} {K : α → Prop} :
    Rereads outer v taken d K (failAt code message span) p' view :=
  rereads_fail fun _ _ _ h => by cases h

theorem Rereads.vacuous {K : α → Prop} {p'' : Parse α} (h : Rereads outer v taken e K p p' view) :
    Rereads outer v taken 0 K p p'' view := by
  intro s whole a t hs ha
  obtain ⟨ws, us, rfl, ht, kept, -⟩ := h s whole a t hs ha
  exact ⟨ws, us, rfl, ht, kept, fun rest _ short => absurd short (Nat.not_lt_zero _)⟩

/-- What is taken if a word is next starts with that word. -/
theorem Rereads.taking {K : α → Prop} (h : Rereads outer v [] d K p p' view)
    (sure : ∀ s a t, s.current.word = w → p v s = .ok (a, t) → K a) :
    Rereads outer v [w] d (fun _ => False) p p' view := by
  intro s whole a t hs ha
  obtain ⟨ws, us, same, ht, kept, again⟩ := h s (w :: whole) a t hs ha
  obtain ⟨u, ws, rfl⟩ := List.exists_cons_of_ne_nil (kept (sure s a t hs.current ha))
  obtain ⟨rfl, rfl⟩ := List.cons.inj same
  exact ⟨ws, us, rfl, ht, False.elim, again⟩

/-- A reader that fails at the end of a text takes the first word of what it reads. -/
theorem Rereads.opening {K : α → Prop} (ended : ∀ s a t, s.current.kind = .endOfText → p v s ≠ .ok (a, t))
    (h : ∀ w, Rereads outer v [w] d (fun _ => False) p p' view) : Rereads outer v [] d K p p' view := by
  intro s whole a t hs ha
  cases whole with
  | nil => exact absurd ha (ended s a t hs.kind)
  | cons w whole =>
    obtain ⟨ws, us, rfl, ht, -, again⟩ := h w s whole a t hs ha
    exact ⟨w :: ws, us, rfl, ht, fun _ => List.cons_ne_nil w ws, again⟩

/-- One reader and then another, where the second may rely on what the first has taken, and the first on
that the second takes words. -/
theorem Rereads.sequence {inner : Bool} (hp : Rereads inner v taken d J p p' view)
    (hf : ∀ a, ∃ e L, (∀ b, view b = view a → Rereads outer v [] e L (f a) (f' b) look) ∧
      (d ≤ e ∨ J a ∧ d ≤ e + 1) ∧ (inner = outer ∨ ∀ c, L c) ∧ ∀ c, K c → J a ∨ L c) :
    Rereads outer v taken d K (p >>= f) (p' >>= f') look := by
  intro s whole c r hs h
  obtain ⟨a, t, ha, hc⟩ := bind_ok h
  obtain ⟨ws, between, rfl, ht, took, again⟩ := hp s whole a t hs ha
  obtain ⟨e, L, second, room, level, kept⟩ := hf a
  obtain ⟨us, left, rfl, hr, took', -⟩ := second a rfl t between c r ht.shows hc
  refine ⟨ws ++ us, left, (List.append_assoc ..).symm, ?_, fun hK => ?_, fun rest hrest short => ?_⟩
  · rw [← List.append_assoc]
    exact ht.trans hr
  · rcases kept c hK with hJ | hL
    · exact List.append_ne_nil_of_left_ne_nil (took hJ) us
    · exact List.append_ne_nil_of_right_ne_nil ws (took' hL)
  · simp only [List.append_assoc, List.length_append] at short
    have follows : Follows inner (us ++ left) (us ++ rest) := by
      rcases level with rfl | takes
      · exact hrest.append _
      · exact hrest.after (took' (takes c))
    have first := again (us ++ rest) follows (by simpa using short)
    rw [← List.append_assoc]
    refine first.bind fun b hb => ?_
    refine (second b hb).reads ht.shows hr.shows hc hrest ?_
    simp only [List.nil_append, List.length_append]
    rcases room with room | ⟨hJ, room⟩
    · omega
    · have := List.length_pos_iff.2 (took hJ)
      omega

theorem Rereads.bind (hp : Rereads outer v taken d J p p' view)
    (hf : ∀ a b, view b = view a → Rereads outer v [] d K (f a) (f' b) look) :
    Rereads outer v taken d K (p >>= f) (p' >>= f') look :=
  hp.sequence fun a => ⟨d, K, hf a, .inl (Nat.le_refl d), .inl rfl, fun _ => .inr⟩

/-- What is read inside of parentheses is followed by their end. -/
theorem Rereads.enclosed (hp : Rereads false v taken d J p p' view)
    (hf : ∀ a b, view b = view a → Rereads outer v [] d (fun _ => True) (f a) (f' b) look) :
    Rereads outer v taken d K (p >>= f) (p' >>= f') look :=
  hp.sequence fun a =>
    ⟨d, fun _ => True, hf a, .inl (Nat.le_refl d), .inr fun _ => trivial, fun _ _ => .inr trivial⟩

theorem Rereads.bindSame (hp : Rereads outer v taken d J p p' id) (hf : ∀ a, Rereads outer v [] d K (f a) (f' a) look) :
    Rereads outer v taken d K (p >>= f) (p' >>= f') look :=
  hp.bind fun a b (same : b = a) => same ▸ hf a

/-- What comes after a reader that takes words has fewer of them left. -/
theorem Rereads.first (hp : Rereads outer v taken d (fun _ => True) p p' view)
    (hf : ∀ a b, view b = view a → Rereads outer v [] e (fun _ => False) (f a) (f' b) look) (room : d ≤ e + 1) :
    Rereads outer v taken d K (p >>= f) (p' >>= f') look :=
  hp.sequence fun a => ⟨e, fun _ => False, hf a, .inr ⟨trivial, room⟩, .inl rfl, fun _ _ => .inl trivial⟩

/-- What follows a reader that takes words if it finds something. -/
theorem Rereads.matched {r r' : Parse (Option α)} {f f' : Option α → Parse β}
    (hr : Rereads outer v taken d (·.isSome = true) r r' id) (none : Rereads outer v [] d K (f none) (f' none) look)
    (some : ∀ a, Rereads outer v [] d (fun _ => False) (f (some a)) (f' (some a)) look) :
    Rereads outer v taken d K (r >>= f) (r' >>= f') look := by
  refine hr.sequence fun found => ?_
  cases found with
  | none => exact ⟨d, K, fun b (same : b = .none) => same ▸ none, .inl (Nat.le_refl d), .inl rfl, fun _ => .inr⟩
  | some a =>
    exact ⟨d, fun _ => False, fun b (same : b = .some a) => same ▸ some a, .inl (Nat.le_refl d), .inl rfl,
      fun _ _ => .inl rfl⟩

theorem Rereads.ite {c : Prop} [Decidable c] (hp : c → Rereads outer v taken d J p p' view)
    {q q' : Parse α} (hq : ¬c → Rereads outer v taken d J q q' view) :
    Rereads outer v taken d J (if c then p else q) (if c then p' else q') view := by
  split
  · exact hp ‹_›
  · exact hq ‹_›

theorem Rereads.ofBounded {p' : Nat → Parse α} (h : ∀ m, Rereads outer v taken (min d m) J p (p' m) view) :
    Rereads outer v taken d J p (Parse.bounded p') view := by
  intro s whole a t hs ha
  obtain ⟨ws, us, rfl, ht, took, -⟩ := h 0 s whole a t hs ha
  refine ⟨ws, us, rfl, ht, took, fun rest hrest short => .bounded ?_⟩
  exact (h _).reads hs ht.shows ha hrest (Nat.lt_min.2 ⟨short, Nat.lt_succ_self _⟩)

theorem Rereads.bounded {p p' : Nat → Parse α} (h : ∀ n m, Rereads outer v taken (min d m) J (p n) (p' m) view) :
    Rereads outer v taken d J (bounded p) (bounded p') view :=
  fun s => Rereads.ofBounded (h s.bound) s

/-! ### Steps that take nothing -/

theorem Rereads.place {f f' : Place → Parse β} (h : ∀ start start', Rereads outer v taken d K (f start) (f' start') look) :
    Rereads outer v taken d K (place >>= f) (place >>= f') look := by
  intro s whole a t hs ha
  obtain ⟨ws, us, rfl, ht, took, -⟩ := h s.current.start s.current.start s whole a t hs ha
  refine ⟨ws, us, rfl, ht, took, fun rest hrest short => .place fun start => ?_⟩
  exact (h _ start).reads hs ht.shows ha hrest short

theorem Rereads.spanFrom {start start' : Place} {f f' : Option Span → Parse β}
    (h : ∀ span span', Rereads outer v taken d K (f span) (f' span') look) :
    Rereads outer v taken d K (spanFrom start >>= f) (spanFrom start' >>= f') look := by
  intro s whole a t hs ha
  obtain ⟨ws, us, rfl, ht, took, -⟩ := h (some (.between start s.reached)) none s whole a t hs ha
  refine ⟨ws, us, rfl, ht, took, fun rest hrest short => .spanFrom fun span => ?_⟩
  exact (h (some (.between start s.reached)) span).reads hs ht.shows ha hrest short

theorem Rereads.version {f f' : Version → Parse β} (h : Rereads outer v taken d K (f v) (f' v) look) :
    Rereads outer v taken d K (version >>= f) (version >>= f') look := h

theorem Rereads.expecting {descriptions : List String} {f f' : Unit → Parse β}
    (h : Rereads outer v taken d K (f ()) (f' ()) look) :
    Rereads outer v taken d K (expecting descriptions >>= f) (expecting descriptions >>= f') look := by
  intro s whole a t hs ha
  obtain ⟨ws, us, rfl, ht, took, again⟩ := h _ whole a t hs.expecting ha
  exact ⟨ws, us, rfl, ht.expecting, took, fun rest hrest short => .expecting (again rest hrest short)⟩

theorem Rereads.current {f f' : Token → Parse β}
    (h : ∀ t t' : Token, t.word = w → t'.word = w → Rereads outer v (w :: more) d K (f t) (f' t') look) :
    Rereads outer v (w :: more) d K (current >>= f) (current >>= f') look := by
  intro s whole a t hs ha
  obtain ⟨ws, us, rfl, ht, took, -⟩ := h _ _ hs.current hs.current s whole a t hs ha
  refine ⟨ws, us, rfl, ht, took, fun rest hrest short => .current fun t' ht' => ?_⟩
  exact (h _ t' hs.current ht').reads hs ht.shows ha hrest short

theorem Rereads.advance {f f' : Token → Parse β}
    (h : ∀ t t' : Token, t.word = w → t'.word = w → Rereads outer v more e K (f t) (f' t') look) (room : d ≤ e + 1) :
    Rereads outer v (w :: more) d K (advance >>= f) (advance >>= f') look := by
  intro s whole a t hs ha
  obtain ⟨ws, us, rfl, ht, took, -⟩ := h _ _ hs.current hs.current s.advance whole a t hs.advance ha
  refine ⟨ws, us, rfl, ht.ofAdvance hs, took, fun rest hrest short => .advance fun t' ht' => ?_⟩
  refine (h _ t' hs.current ht').reads hs.advance ht.shows ha hrest ?_
  simp only [List.cons_append, List.length_cons] at short
  omega

/-! ### Looking at the next word -/

/-- `p` looks at the next word only, and finds `g` of it. -/
def Peeks (v : Version) (p : Parse α) (g : Word → α) : Prop :=
  ∀ s, ∃ expected, p v s = .ok (g s.current.word, { s with expected })

variable {g : Word → α}

/-- A reader that looks at the next word, and takes it if it is not like the end of the text. -/
theorem Rereads.peek (hp : Peeks v p g) (blind : ∀ w, Stops outer w.1 → g w = g endWord)
    (hit : ∀ w, g w ≠ g endWord → Rereads outer v [w] d (fun _ => False) (f (g w)) (f' (g w)) look)
    (miss : Rereads outer v [] d K (f (g endWord)) (f' (g endWord)) look) :
    Rereads outer v [] d K (p >>= f) (p >>= f') look := by
  intro s whole a t hs ha
  obtain ⟨expected, seen⟩ := hp s
  rw [bind_eq seen] at ha
  have word := hs.word
  by_cases like : g s.current.word = g endWord
  · rw [like] at ha
    obtain ⟨ws, us, rfl, ht, took, again⟩ := miss _ whole a t hs.expecting ha
    refine ⟨ws, us, rfl, ht.expecting, took, fun rest hrest short r hr => ?_⟩
    obtain ⟨expected', seen'⟩ := hp r
    rw [bind_eq seen']
    have alike : g r.current.word = g endWord := by
      have next := hr.word
      simp only [List.nil_append] at next word
      rcases (hrest.append ws).headD with same | stops
      · rw [next, same, ← word, like]
      · rw [next, blind _ stops]
    rw [alike]
    exact again rest hrest short _ hr.expecting
  · cases whole with
    | nil => exact absurd (congrArg g word) like
    | cons w whole =>
      have here : s.current.word = w := word
      rw [here] at ha like
      obtain ⟨ws, us, rfl, ht, -, again⟩ := hit w like _ whole a t hs.expecting ha
      refine ⟨w :: ws, us, rfl, ht.expecting, fun _ => List.cons_ne_nil w ws, fun rest hrest short r hr => ?_⟩
      obtain ⟨expected', seen'⟩ := hp r
      rw [bind_eq seen', show r.current.word = w from State.Shows.current hr]
      exact again rest hrest short _ hr.expecting

theorem Rereads.peekTaken (hp : Peeks v p g) (h : Rereads outer v (w :: more) d K (f (g w)) (f' (g w)) look) :
    Rereads outer v (w :: more) d K (p >>= f) (p >>= f') look := by
  intro s whole a t hs ha
  obtain ⟨expected, seen⟩ := hp s
  rw [bind_eq seen, show s.current.word = w from State.Shows.current hs] at ha
  obtain ⟨ws, us, rfl, ht, took, again⟩ := h _ whole a t hs.expecting ha
  refine ⟨ws, us, rfl, ht.expecting, took, fun rest hrest short r hr => ?_⟩
  obtain ⟨expected', seen'⟩ := hp r
  rw [bind_eq seen', show r.current.word = w from State.Shows.current hr]
  exact again rest hrest short _ hr.expecting

theorem peeks_sees (kind : Kind) : Peeks v (sees kind) (·.1 == kind) := fun _ => ⟨_, rfl⟩

theorem blind_sees {kind : Kind} (inside : ¬Stops outer kind) (w : Word) (stops : Stops outer w.1) :
    (w.1 == kind) = (endWord.1 == kind) := (stops.beq inside).trans (Stops.text.beq inside).symm

theorem peeks_pure (a : α) : Peeks v (pure a) fun _ => a := fun s => ⟨s.expected, rfl⟩

theorem Peeks.sees {kind : Kind} {q : Parse α} {h : Word → α} (hp : Peeks v p g) (hq : Peeks v q h) :
    Peeks v (Parse.sees kind >>= fun seen => if seen then p else q) fun w => if w.1 == kind then g w else h w := by
  intro s
  by_cases here : (s.current.kind == kind) = true
  · obtain ⟨expected, hs⟩ := hp { s with expected := kind.describe :: s.expected }
    refine ⟨expected, ?_⟩
    change (if (s.current.kind == kind) = true then p else q) v _ = .ok (if (s.current.kind == kind) = true then _ else _, _)
    rw [if_pos here, if_pos here]
    exact hs
  · obtain ⟨expected, hs⟩ := hq { s with expected := kind.describe :: s.expected }
    refine ⟨expected, ?_⟩
    change (if (s.current.kind == kind) = true then p else q) v _ = .ok (if (s.current.kind == kind) = true then _ else _, _)
    rw [if_neg here, if_neg here]
    exact hs

theorem peeks_seesWord (word description : String) :
    Peeks v (seesWord word description) fun w => w.1 == .ident && Text.sameLetters w.2 word := fun _ => ⟨_, rfl⟩

theorem blind_seesWord {word : String} (w : Word) (stops : Stops outer w.1) :
    (w.1 == .ident && Text.sameLetters w.2 word) = (endWord.1 == .ident && Text.sameLetters endWord.2 word) := by
  rw [show (w.1 == .ident) = false from stops.beq nofun, Bool.false_and]
  rfl

/-- Whether a word can be read as an identifier. -/
def isName (v : Version) (w : Word) : Bool := isIdentifier v ⟨w.1, w.2, .origin, .origin⟩

theorem not_isName (w : Word) (stops : Stops outer w.1) : isName v w = false := Stops.not_name stops

theorem blind_isName (w : Word) (stops : Stops outer w.1) : isName v w = isName v endWord :=
  (not_isName w stops).trans (not_isName endWord (.text : Stops outer _)).symm

theorem isIdentifier_eq (t : Token) : isIdentifier v t = isName v t.word := rfl

theorem peeks_atIdentifier : Peeks v atIdentifier (isName v) := fun s => ⟨s.expected, rfl⟩

/-- A word that is taken if it is as `p` looks for. -/
theorem take_bind (p : Parse Bool) (f : Bool → Parse β) :
    ((do
      if ← p then
        let _ ← Parse.advance
        return true
      else return false : Parse Bool) >>= f) =
      p >>= fun seen => if seen then Parse.advance >>= fun _ => f true else f false := by
  funext v s
  simp only [Bind.bind]
  cases p v s with
  | error e => rfl
  | ok r =>
    obtain ⟨seen, t⟩ := r
    cases seen <;> rfl

/-- A word that must be as `p` looks for. -/
theorem demand_bind (p : Parse Bool) (f : Token → Parse β) :
    ((do if ← p then Parse.advance else unexpected : Parse Token) >>= f) =
      p >>= fun seen => if seen then Parse.advance >>= f else unexpected := by
  funext v s
  simp only [Bind.bind]
  cases p v s with
  | error e => rfl
  | ok r =>
    obtain ⟨seen, t⟩ := r
    cases seen <;> rfl

/-- A token that stands if it is next, where what follows has fewer words left. -/
theorem Rereads.eat {kind : Kind} {f f' : Bool → Parse β} (inside : ¬Stops outer kind)
    (hit : Rereads outer v [] e (fun _ => False) (f true) (f' true) look)
    (miss : Rereads outer v [] d K (f false) (f' false) look) (room : d ≤ e + 1) :
    Rereads outer v [] d K (Parse.eat kind >>= f) (Parse.eat kind >>= f') look := by
  have ended : (endWord.1 == kind) = false := Stops.text.beq inside
  rw [Parse.eat, take_bind, take_bind]
  refine .peek (peeks_sees kind) (blind_sees inside) (fun w here => ?_) ?_
  · rw [ended, Bool.ne_false_iff] at here
    rw [here, if_pos rfl, if_pos rfl]
    exact .advance (fun _ _ _ _ => hit) room
  · rw [ended]
    exact miss

theorem Rereads.eatIf {kind : Kind} (inside : ¬Stops outer kind) (hit : Rereads outer v [] d (fun _ => False) q q' look)
    {r r' : Parse β} (miss : Rereads outer v [] d K r r' look) :
    Rereads outer v [] d K (Parse.eat kind >>= fun eaten => if eaten then q else r)
      (Parse.eat kind >>= fun eaten => if eaten then q' else r') look :=
  .eat inside hit miss (Nat.le_succ d)

theorem Rereads.expect {kind : Kind} {f f' : Token → Parse β} (inside : kind ≠ .endOfText)
    (h : ∀ t t' : Token, t.kind = kind → t'.word = t.word → Rereads outer v [] e (fun _ => False) (f t) (f' t') look)
    (room : d ≤ e + 1) :
    Rereads outer v [] d K (Parse.expect kind >>= f) (Parse.expect kind >>= f') look := by
  refine .opening (fun s a t ended h => inside ((expect_ok h).1.symm.trans ended)) fun w => ?_
  rw [Parse.expect, demand_bind, demand_bind]
  refine .peekTaken (peeks_sees kind) ?_
  by_cases here : (w.1 == kind) = true
  · rw [here, if_pos rfl, if_pos rfl]
    refine .advance (fun t t' ht ht' => h t t' ?_ (ht'.trans ht.symm)) room
    exact (congrArg Prod.fst ht).trans (eq_of_beq here)
  · rw [if_neg here]
    exact rereads_unexpected

end Rules

/-! ### Loops -/

/-- Rounds of `step` lead from one value and state to another. -/
inductive Rounds (v : Version) (step : α → Parse (Option α)) (a : α) (s : State) : α → State → Prop where
  | start : Rounds v step a s a s
  | next {b c : α} {t u : State} (before : Rounds v step a s b t) (last : step b v t = .ok (some c, u)) :
    Rounds v step a s c u

section Loops

variable {d : Nat} {item item' : Parse α} {step step' : α → Parse (Option α)} {view : α → γ} {a b : α}
  {s t u : State} {whole : List Word}

theorem Rounds.after {c : α} (first : step a v s = .ok (some b, t)) (h : Rounds v step b t c u) :
    Rounds v step a s c u := by
  induction h with
  | start => exact .next .start first
  | next _ last ih => exact .next ih last

/-- A loop whose rounds take words ends with a round that does not go on, not for want of rounds. -/
theorem rounds_of_iterateFor (hstep : ∀ a, Rereads outer v [] d (·.isSome = true) (step a) (step' a) (Option.map view)) {n : Nat}
    (hs : s.Shows whole) (enough : whole.length < n) (h : iterateFor step n a v s = .ok (b, t)) :
    ∃ u, Rounds v step a s b u ∧ step b v u = .ok (none, t) := by
  induction n generalizing a s whole with
  | zero => exact absurd enough (Nat.not_lt_zero _)
  | succ n ih =>
    obtain ⟨found, r, hfound, h⟩ := bind_ok h
    cases found with
    | none =>
      obtain ⟨rfl, rfl⟩ := pure_ok h
      exact ⟨s, .start, hfound⟩
    | some c =>
      obtain ⟨ws, us, rfl, hr, took, -⟩ := hstep a s whole _ r hs hfound
      have := List.length_pos_iff.2 (took rfl)
      rw [List.length_append] at enough
      obtain ⟨u, rounds, last⟩ := ih hr.shows (by omega) h
      exact ⟨u, rounds.after hfound, last⟩

/-- The rounds that were read are read again. -/
theorem Rereads.grows (hitem : Rereads outer v [] d (fun _ => True) item item' view)
    (hstep : ∀ a b, view b = view a →
      Rereads outer v [] d (·.isSome = true) (step a) (step' b) (Option.map view))
    (hs : s.Shows whole) (ha : item v s = .ok (a, t)) (rounds : Rounds v step a t b u) :
    ∃ ws us, whole = ws ++ us ∧ s.Takes ws us u ∧ ws ≠ [] ∧
      ∀ rest, Follows outer us rest → (ws ++ rest).length < d → Grows v item' step' ws rest (view · = view b) := by
  induction rounds with
  | start =>
    obtain ⟨ws, us, rfl, ht, took, again⟩ := hitem s whole a t hs ha
    exact ⟨ws, us, rfl, ht, took trivial, fun rest hrest short => .base (again rest hrest short)⟩
  | @next b c t' u _ last ih =>
    obtain ⟨ws, between, rfl, ht, took, grown⟩ := ih
    obtain ⟨us, left, rfl, hu, took', -⟩ := hstep b b rfl t' between _ u ht.shows last
    refine ⟨ws ++ us, left, (List.append_assoc ..).symm, ht.trans hu, List.append_ne_nil_of_left_ne_nil took us, ?_⟩
    intro rest hrest short
    simp only [List.append_assoc, List.length_append] at short
    have before := grown (us ++ rest) (hrest.append _)
      (by simpa only [List.length_append] using short)
    refine before.grow (took' rfl) fun b' hb' => ?_
    have read := (hstep b b' hb').reads ht.shows hu.shows last hrest (by simp only [List.nil_append, List.length_append]; omega)
    refine read.mono fun found hfound => ?_
    cases found with
    | none => cases hfound
    | some c' => exact ⟨c', rfl, Option.some.inj hfound⟩

theorem Rereads.loop {K : α → Prop} (hitem : Rereads outer v [] d (fun _ => True) item item' view)
    (hstep : ∀ a b, view b = view a →
      Rereads outer v [] d (·.isSome = true) (step a) (step' b) (Option.map view)) :
    Rereads outer v [] d K (item >>= iterate step) (item' >>= iterate step') view := by
  intro s whole b r hs h
  obtain ⟨a, t, ha, h⟩ := bind_ok h
  obtain ⟨_, left, _, ht, -⟩ := hitem s whole a t hs ha
  have enough : left.length < t.bound := by rw [ht.shows.bound]; exact Nat.lt_succ_self _
  obtain ⟨u, rounds, last⟩ := rounds_of_iterateFor (fun a => hstep a a rfl) ht.shows enough h
  obtain ⟨ws, between, rfl, hu, took, grown⟩ := hitem.grows hstep hs ha rounds
  obtain ⟨us, left, rfl, hr, -⟩ := hstep b b rfl u between _ r hu.shows last
  refine ⟨ws ++ us, left, (List.append_assoc ..).symm, hu.trans hr, fun _ => List.append_ne_nil_of_left_ne_nil took us, ?_⟩
  intro rest hrest short
  simp only [List.nil_append, List.append_assoc, List.length_append] at short
  have before := grown (us ++ rest) (hrest.append _)
    (by simpa only [List.length_append] using short)
  refine before.finish fun b' hb' => ?_
  have read := (hstep b b' hb').reads hu.shows hr.shows last hrest (by simp only [List.nil_append, List.length_append]; omega)
  exact read.mono fun found hfound => by simpa using hfound

end Loops

/-! ### Lists -/

section Lists

variable {d : Nat} {sep : Kind} {item item' : Parse α} {view : α → γ}

theorem rereads_followersFor (hitem : Rereads outer v [] d (fun _ => False) item item' view) (inside : ¬Stops outer sep)
    {n : Nat} {s t : State} {whole : List Word} {as : List α} (hs : s.Shows whole) (enough : whole.length < n)
    (h : followersFor sep item n v s = .ok (as, t)) :
    ∃ ws us, whole = ws ++ us ∧ s.Takes ws us t ∧ (as ≠ [] → ws ≠ []) ∧
      ∀ m rest, Follows outer us rest → (ws ++ rest).length < d → (ws ++ rest).length < m →
        Reads v (followersFor sep item' m) ws rest fun bs => bs.map view = as.map view := by
  induction n generalizing s whole as with
  | zero => exact absurd enough (Nat.not_lt_zero _)
  | succ n ih =>
    obtain ⟨eaten, r, heaten, h⟩ := bind_ok h
    by_cases next : s.current.kind = sep
    · rw [eat_hit next] at heaten
      cases heaten
      obtain ⟨a, r, ha, h⟩ := bind_ok h
      obtain ⟨others, r', hothers, h⟩ := bind_ok h
      obtain ⟨rfl, rfl⟩ := pure_ok h
      cases whole with
      | nil => exact absurd Stops.text ((next.symm.trans hs.kind) ▸ inside)
      | cons w whole =>
        obtain rfl : w.1 = sep := hs.kind.symm.trans next
        obtain ⟨ws, between, rfl, hr, -, first⟩ := hitem s.advance whole a r hs.advance ha
        obtain ⟨us, left, rfl, ht, -, more⟩ := ih hr.shows (by simp at enough; omega) hothers
        refine ⟨w :: (ws ++ us), left, by simp, (hr.trans ht).ofAdvance hs, fun _ => List.cons_ne_nil _ _, ?_⟩
        intro m rest hrest short enough'
        simp only [List.cons_append, List.append_assoc, List.length_cons, List.length_append] at short enough'
        obtain ⟨k, rfl⟩ : ∃ k, m = k + 1 := ⟨m - 1, by omega⟩
        have readFirst := first (us ++ rest) (hrest.append _)
          (by simp only [List.nil_append, List.length_append]; omega)
        have readOthers := more k rest hrest (by rw [List.length_append]; omega) (by rw [List.length_append]; omega)
        refine .eatThen (readFirst.bind fun b hb => readOthers.close fun bs hbs => reads_pure ?_)
        rw [List.map_cons, List.map_cons, hb, hbs]
    · rw [eat_miss next] at heaten
      cases heaten
      obtain ⟨rfl, rfl⟩ := pure_ok h
      refine ⟨[], whole, rfl, .expecting (.refl hs.expecting), fun none => absurd rfl none, fun m rest hrest _ enough' => ?_⟩
      obtain ⟨k, rfl⟩ : ∃ k, m = k + 1 := ⟨m - 1, by omega⟩
      refine .eatElse (fun same => ?_) (reads_pure rfl)
      rcases hrest.nextKind with alike | stops
      · exact next (hs.kind.trans (alike.symm.trans same))
      · exact stops.ne inside same

theorem Rereads.followers (hitem : Rereads outer v [] d (fun _ => False) item item' view) (inside : ¬Stops outer sep) :
    Rereads outer v [] d (· ≠ []) (followers sep item) (followers sep item') (List.map view) := by
  intro s whole as t hs h
  have enough : whole.length < s.bound := by rw [State.Shows.bound hs]; exact Nat.lt_succ_self _
  obtain ⟨ws, us, rfl, ht, took, again⟩ := rereads_followersFor hitem inside hs enough h
  refine ⟨ws, us, rfl, ht, took, fun rest hrest short => .bounded ?_⟩
  exact again _ rest hrest short (Nat.lt_succ_self _)

theorem Rereads.sepBy (hitem : Rereads outer v [] d (fun _ => True) item item' view) (inside : ¬Stops outer sep) :
    Rereads outer v [] d (fun _ => True) (sepBy sep item) (sepBy sep item') (List.map view) := by
  refine hitem.first (fun a b hab => ?_) (Nat.le_succ d)
  refine (hitem.any.followers inside).any.bind fun as bs habs => rereads_pure ?_ id
  rw [List.map_cons, List.map_cons, hab, habs]

end Lists

/-! ### Names -/

section Names

variable {d : Nat}

theorem rereads_eatIdentifier : Rereads outer v [] d (·.isSome = true) eatIdentifier eatIdentifier id := by
  refine .expecting (.peek peeks_atIdentifier blind_isName (fun w name => ?_) ?_)
  · have name : isName v w = true := Bool.ne_false_iff.1 name
    rw [name]
    refine .advance (fun t t' ht ht' => rereads_pure ?_ id) (Nat.le_succ d)
    rw [show t'.text = t.text from congrArg Prod.snd (ht'.trans ht.symm)]
  · exact rereads_pure rfl Bool.false_ne_true

theorem identifier_hit {s : State} (name : isIdentifier v s.current = true) :
    identifier v s = .ok (Identifier.ofText s.current.text, s.advance) := by
  have found : eatIdentifier v s = .ok (some (Identifier.ofText s.current.text), s.advance) := by
    unfold eatIdentifier
    change (if isIdentifier v s.current = true then _ else _ : Parse (Option Identifier)) v _ = _
    rw [if_pos name, ← s.advance_expecting]
    rfl
  unfold identifier
  rw [bind_eq found]
  rfl

theorem rereads_identifier : Rereads outer v [] d (fun _ => True) identifier identifier id :=
  rereads_eatIdentifier.matched rereads_unexpected fun _ => rereads_pure rfl id

/-- Reading one more part of a dotted name, after the point. -/
theorem rereads_dottedPart {w : Word} {others : Parse (List Identifier)}
    (h : Rereads outer v [] d (fun _ => False) others others id) :
    Rereads outer v [w] d (fun _ => True) (do
      let _ ← advance
      let part ← identifier
      let others ← others
      return part :: others) (do
      let _ ← advance
      let part ← identifier
      let others ← others
      return part :: others) id := by
  refine .advance (fun _ _ _ _ => rereads_identifier.first (fun part b same => ?_) (Nat.le_succ d)) (Nat.le_succ d)
  obtain rfl : b = part := same
  exact h.bindSame fun others => rereads_pure rfl id

theorem rereads_dottedFor (n : Nat) : Rereads outer v [] d (fun _ => False) (dottedFor n) (dottedFor n) id := by
  induction n with
  | zero => exact rereads_pure rfl id
  | succ n ih =>
    intro s whole parts t hs h
    unfold dottedFor at h
    split at h
    · rename_i go
      simp only [Bool.and_eq_true, beq_iff_eq] at go
      obtain ⟨point, name⟩ := go
      cases whole with
      | nil => exact absurd (point.symm.trans hs.kind) (by intro same; cases same)
      | cons w whole =>
        obtain ⟨ws, us, rfl, ht, took, again⟩ := (rereads_dottedPart ih) s whole parts t hs h
        obtain ⟨u, ws, rfl⟩ := List.exists_cons_of_ne_nil (took trivial)
        refine ⟨w :: u :: ws, us, rfl, ht, False.elim, fun rest hrest short r hr => ?_⟩
        have go : (r.current.kind == .dot && isIdentifier v r.second) = true := by
          rw [isIdentifier_eq, hs.second] at name
          have kind : r.current.kind = w.1 := State.Shows.kind hr
          rw [isIdentifier_eq, State.Shows.second hr, name, Bool.and_true, beq_iff_eq, kind, ← point]
          exact hs.kind.symm
        unfold dottedFor
        rw [if_pos go]
        exact again rest hrest short r hr
    · rename_i stop
      cases h
      refine ⟨[], whole, rfl, .refl hs, False.elim, fun rest hrest _ r hr => ⟨[], r, ?_, hr, rfl⟩⟩
      -- `rest` begins as what was left did, with a clause, or not at all: no name and point come in.
      have stop' : ¬(r.current.kind == .dot && isIdentifier v r.second) = true := by
        simp only [Bool.and_eq_true, beq_iff_eq, not_and] at stop ⊢
        intro point name
        cases hrest with
        | ended => exact absurd (point.symm.trans (State.Shows.kind hr)) (by intro same; cases same)
        | clause stops => exact absurd ((State.Shows.kind hr).symm.trans point) (stops.ne (by rintro ⟨⟩))
        | next others =>
          have kind : r.current.kind = s.current.kind := (State.Shows.kind hr).trans hs.kind.symm
          refine stop (kind ▸ point) ?_
          rw [isIdentifier_eq, State.Shows.secondWord hr] at name
          rw [isIdentifier_eq, State.Shows.secondWord hs]
          rcases others.headD with same | stops
          · rwa [← same]
          · rw [not_isName _ stops] at name
            cases name
      unfold dottedFor
      rw [if_neg stop']

theorem rereads_dotted (n : Nat) : Rereads outer v [] d (fun _ => True) (dotted n) (dotted n) id := by
  refine rereads_identifier.first (fun i b same => ?_) (Nat.le_succ d)
  obtain rfl : b = i := same
  exact (rereads_dottedFor n).bindSame fun others => rereads_pure rfl id

end Names

/-! ### Checks -/

section Checks

variable {d : Nat} {o o' : Operand} {os os' : List Operand}

theorem rereads_checkNumeric (same : o'.Same o) :
    Rereads outer v [] d (fun _ => False) (checkNumeric o) (checkNumeric o') id := by
  unfold checkNumeric
  rw [same.isNumeric]
  exact .ite (fun _ => rereads_pure rfl id) fun _ => rereads_failAt

theorem rereads_checkString (same : o'.Same o) :
    Rereads outer v [] d (fun _ => False) (checkString o) (checkString o') id := by
  unfold checkString
  rw [same.isString]
  exact .ite (fun _ => rereads_pure rfl id) fun _ => rereads_failAt

theorem rereads_checkGeometry (same : o'.Same o) :
    Rereads outer v [] d (fun _ => False) (checkGeometry o) (checkGeometry o') id := by
  unfold checkGeometry
  rw [same.isGeometry]
  exact .ite (fun _ => rereads_pure rfl id) fun _ => rereads_failAt

theorem Rereads.checkedString {β : Type} {taken : List Word} {K : β → Prop} {f f' : Unit → Parse β} {view : β → γ}
    (same : o'.Same o) (h : Rereads outer v taken d K (f ()) (f' ()) view) :
    Rereads outer v taken d K (checkString o >>= f) (checkString o' >>= f') view := by
  unfold checkString
  rw [same.isString]
  split
  · exact h
  · exact rereads_fail fun _ _ _ h => by cases h

theorem rereads_checkAll {check : Operand → Parse Unit}
    (h : ∀ o o', Operand.Same o' o → Rereads outer v [] d (fun _ => False) (check o) (check o') id)
    (same : Operand.SameAll os' os) :
    Rereads outer v [] d (fun _ => False) (checkAll check os) (checkAll check os') id := by
  induction os generalizing os' with
  | nil =>
    obtain rfl : os' = [] := List.map_eq_nil_iff.1 same
    exact rereads_pure rfl id
  | cons o others ih =>
    cases os' with
    | nil => cases same
    | cons o' others' =>
      obtain ⟨first, rest⟩ := same.of_cons
      exact (h o o' first).bindSame fun _ => ih rest

end Checks

end Parse

end SkyQuery.Grammar
