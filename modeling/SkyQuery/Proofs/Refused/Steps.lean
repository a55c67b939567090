import SkyQuery.Proofs.Located.Ranges

/-!
# What readers complain about

A reader that fails points to tokens of the text. `Blames` says so of a reader from one token on; each
combinator of readers has a rule here. What a reader does where it succeeds comes from `Ends`, since a
later step may point to what an earlier one has read.
-/

namespace SkyQuery

open Grammar Parse

/-- The codes of characters and quoted texts that are no tokens. -/
def Code.isLexical : Code → Bool
  | .invalidCharacter | .openString | .openIdentifier => true
  | _ => false

/-- The codes with which the grammar refuses the tokens of a text. -/
def Code.isGrammatical (c : Code) : Bool := c.isSyntactic && !c.isLexical

namespace Grammar

/-- The span of some tokens of a text, of which the last may be its end. -/
def IsRange (tokens : List Token) (span : Option Span) : Prop :=
  ∃ i j, i < j ∧ j ≤ tokens.length ∧ span = some (spanOf tokens i j)

/-- The complaint is one of the grammar about some tokens of a text. -/
structure Accuses (tokens : List Token) (e : Diagnostic) : Prop where
  code : e.code.isGrammatical = true
  span : IsRange tokens e.span

section At

variable {tokens : List Token} {k : Nat} {s : State}

theorem State.At.lt (h : s.At tokens k) : k < tokens.length := by
  have left := congrArg List.length h.left
  rw [List.length_cons, List.length_drop] at left
  omega

theorem State.At.span (h : s.At tokens k) : s.current.span = spanOf tokens k (k + 1) := by
  have stop : stopBefore tokens (k + 1) = s.current.stop := by
    rw [stopBefore, List.take_add, ← h.left, List.take_succ_cons, List.take_zero, List.getLast?_concat]
    rfl
  rw [Token.span, spanOf, h.start, stop]

theorem State.At.range (h : s.At tokens k) : IsRange tokens (some s.current.span) :=
  ⟨k, k + 1, Nat.lt_succ_self k, h.lt, by rw [h.span]⟩

/-- The end of the text is the only token that is not passed. -/
theorem State.At.advance (h : s.At tokens k) (more : s.current.kind ≠ .endOfText) : s.advance.At tokens (k + 1) := by
  have some : (wordsBefore tokens).drop k ≠ [] := fun none => more ((none ▸ h.shows : s.Shows []).kind)
  obtain ⟨w, us, whole⟩ := List.exists_cons_of_ne_nil some
  have shows : s.Shows (w :: us) := whole ▸ h.shows
  exact (State.Takes.advance shows).at h whole

/-- The complaint about the next token. -/
theorem State.At.accuses (h : s.At tokens k) (v : Version) : Accuses tokens (s.unexpected v) := by
  unfold State.unexpected
  split <;> exact ⟨rfl, h.range⟩

end At

/-! ### Parts that were read -/

section Parts

variable {v : Version} {tokens : List Token} {i j : Nat} {o : Operand}

theorem isRange_of_lt (ij : i < j) (inside : j ≤ (wordsBefore tokens).length) : IsRange tokens (some (spanOf tokens i j)) := by
  rw [wordsBefore, List.length_map, List.length_dropLast] at inside
  exact ⟨i, j, ij, by omega, rfl⟩

theorem isRange_of_within (h : (Part.operand o).Within v tokens i j) : IsRange tokens o.span := by
  obtain ⟨-, -, -, inside, span, ⟨some, -⟩, -⟩ := h
  rw [show o.span = _ from span]
  exact isRange_of_lt (lt_of_piece_ne_nil some) inside

theorem lt_of_within (h : (Part.operand o).Within v tokens i j) : i < j := by
  obtain ⟨left, -, right, -, -, ⟨some, -⟩, -⟩ := h
  exact Nat.lt_of_le_of_lt left (Nat.lt_of_lt_of_le (lt_of_piece_ne_nil some) right)

end Parts

/-! ### Readers -/

variable {v : Version} {tokens : List Token} {i j k : Nat} {α β γ : Type} {p p' : Parse α} {Q : Nat → α → Prop}

theorem Ends.and {Q' : Nat → α → Prop} (h : Ends v tokens k p Q) (h' : Ends v tokens k p Q') :
    Ends v tokens k p fun j a => Q j a ∧ Q' j a := by
  intro s a t hs ha
  obtain ⟨j, kj, ht, hQ⟩ := h s a t hs ha
  obtain ⟨l, -, ht', hQ'⟩ := h' s a t hs ha
  obtain rfl := ht.unique ht'
  exact ⟨j, kj, ht, hQ, hQ'⟩

theorem moves_of_ends {Q : List Token → Nat → Nat → α → Prop} (h : ∀ tokens k, Ends v tokens k p (Q tokens k)) : Moves v p :=
  fun tokens k => (h tokens k).mono fun _ _ _ _ => trivial

/-- If the reader fails from the token `k` on, then its complaint is about some tokens of the text. -/
def Blames (v : Version) (tokens : List Token) (k : Nat) (p : Parse α) : Prop :=
  ∀ s e, s.At tokens k → p v s = .error e → Accuses tokens e

theorem blames_pure (a : α) : Blames v tokens k (pure a) := fun _ _ _ he => by cases he

theorem blames_unexpected : Blames v tokens k (unexpected : Parse α) := by
  intro s e hs he
  cases he
  exact hs.accuses v

theorem blames_failAt {code : Code} {message : String} {span : Option Span} (grammatical : code.isGrammatical = true)
    (range : IsRange tokens span) : Blames v tokens k (failAt code message span : Parse α) := by
  intro s e _ he
  cases he
  obtain ⟨i, j, ij, hj, rfl⟩ := range
  exact ⟨grammatical, i, j, ij, hj, rfl⟩

theorem Blames.bind {f : α → Parse β} (hp : Blames v tokens k p) (ends : Ends v tokens k p Q)
    (hf : ∀ j a, k ≤ j → Q j a → Blames v tokens j (f a)) : Blames v tokens k (p >>= f) := by
  intro s e hs he
  cases ha : p v s with
  | error e' =>
    obtain rfl := Except.error.inj ((bind_error ha).symm.trans he)
    exact hp s e' hs ha
  | ok r =>
    obtain ⟨a, t⟩ := r
    obtain ⟨j, kj, ht, hQ⟩ := ends s a t hs ha
    exact hf j a kj hQ t e ht ((bind_eq ha).symm.trans he)

/-- What is left to do never fails. -/
theorem Blames.finish {f : α → Parse β} (hp : Blames v tokens k p) (never : ∀ a s e, f a v s ≠ .error e) :
    Blames v tokens k (p >>= f) := by
  intro s e hs he
  cases ha : p v s with
  | error e' =>
    obtain rfl := Except.error.inj ((bind_error ha).symm.trans he)
    exact hp s e' hs ha
  | ok r => exact absurd ((bind_eq ha).symm.trans he) (never r.1 r.2 e)

theorem Blames.map {f : α → β} (hp : Blames v tokens k p) : Blames v tokens k (p >>= fun a => pure (f a)) :=
  hp.finish fun _ _ _ he => by cases he

theorem Blames.placed {make : α → Option Span → β} {start : Place} (hp : Blames v tokens k p) :
    Blames v tokens k (p >>= fun a => do return make a (← Parse.spanFrom start)) := hp.finish fun _ _ _ he => by cases he

theorem Blames.step {f : α → Parse β} (hp : Blames v tokens k p) (moves : Moves v p)
    (hf : ∀ j a, k ≤ j → Blames v tokens j (f a)) : Blames v tokens k (p >>= f) :=
  hp.bind (moves tokens k) fun j a kj _ => hf j a kj

/-- A reader that only looks never fails. -/
theorem Blames.look {f : α → Parse β} (never : ∀ s e, p v s ≠ .error e) (looks : Looks v p)
    (hf : ∀ a, Blames v tokens k (f a)) : Blames v tokens k (p >>= f) := by
  refine Blames.bind (Q := fun j _ => j = k) (fun s e _ he => absurd he (never s e)) (looks.ends fun _ => rfl) ?_
  rintro j a - rfl
  exact hf a

theorem Blames.version {f : Version → Parse β} (hf : ∀ u, Blames v tokens k (f u)) : Blames v tokens k (version >>= f) :=
  .look (fun _ _ he => by cases he) looks_version hf

theorem Blames.current {f : Token → Parse β} (hf : ∀ t, Blames v tokens k (f t)) : Blames v tokens k (current >>= f) :=
  .look (fun _ _ he => by cases he) looks_current hf

theorem Blames.second {f : Token → Parse β} (hf : ∀ t, Blames v tokens k (f t)) : Blames v tokens k (second >>= f) :=
  .look (fun _ _ he => by cases he) looks_second hf

theorem Blames.sees {kind : Kind} {f : Bool → Parse β} (hf : ∀ seen, Blames v tokens k (f seen)) :
    Blames v tokens k (sees kind >>= f) := .look (fun _ _ he => by cases he) (looks_sees kind) hf

theorem Blames.seesCall {f : Bool → Parse β} (hf : ∀ seen, Blames v tokens k (f seen)) :
    Blames v tokens k (seesCall >>= f) := .look (fun _ _ he => by cases he) looks_seesCall hf

theorem Blames.atIdentifier {f : Bool → Parse β} (hf : ∀ seen, Blames v tokens k (f seen)) :
    Blames v tokens k (atIdentifier >>= f) := .look (fun _ _ he => by cases he) looks_atIdentifier hf

theorem Blames.expecting {descriptions : List String} {f : Unit → Parse β} (hf : Blames v tokens k (f ())) :
    Blames v tokens k (expecting descriptions >>= f) := .look (fun _ _ he => by cases he) (looks_expecting descriptions) fun _ => hf

theorem Blames.place {f : Place → Parse β} (h : Blames v tokens k (f (startOf tokens k))) :
    Blames v tokens k (place >>= f) := by
  intro s e hs he
  rw [place_bind, hs.start] at he
  exact h s e hs he

theorem Blames.spanFrom {f : Option Span → Parse β} (h : Blames v tokens k (f (some (spanOf tokens i k)))) :
    Blames v tokens k (spanFrom (startOf tokens i) >>= f) := by
  intro s e hs he
  change f (some (.between (startOf tokens i) s.reached)) v s = _ at he
  rw [hs.reached] at he
  exact h s e hs he

/-- What was read since an earlier token is blamed. -/
theorem blames_failSince {code : Code} {message : String} (grammatical : code.isGrammatical = true) (ik : i < k) :
    Blames v tokens k (Parse.spanFrom (startOf tokens i) >>= failAt code message : Parse α) := by
  intro s e hs
  exact Blames.spanFrom (blames_failAt grammatical ⟨i, k, ik, Nat.le_of_lt hs.lt, rfl⟩) s e hs

theorem blames_placed {make : Option Span → α} {start : Place} :
    Blames v tokens k (do return make (← Parse.spanFrom start)) := fun _ _ _ he => by cases he

theorem Blames.advance {f : Token → Parse β} (hf : ∀ j t, k ≤ j → Blames v tokens j (f t)) :
    Blames v tokens k (advance >>= f) := .step (fun _ _ _ he => by cases he) moves_advance hf

theorem Blames.ite {c : Prop} [Decidable c] {q : Parse α} (hp : c → Blames v tokens k p)
    (hq : ¬c → Blames v tokens k q) : Blames v tokens k (if c then p else q) := by
  split
  · exact hp ‹_›
  · exact hq ‹_›

theorem Blames.bounded {p : Nat → Parse α} (h : ∀ n, Blames v tokens k (p n)) : Blames v tokens k (bounded p) :=
  fun s => h s.bound s

/-- The complaint that is kept is one of the two. -/
theorem Blames.either {q : Parse α} (hp : Blames v tokens k p) (hq : Blames v tokens k q) :
    Blames v tokens k (either p q) := by
  intro s e hs he
  unfold Parse.either at he
  split at he
  · cases he
  · rename_i first hfirst
    split at he
    · cases he
    · rename_i second hsecond
      cases he
      split
      · exact hp s first hs hfirst
      · exact hq s second hs hsecond

/-! ### Steps -/

theorem blames_eat (kind : Kind) : Blames v tokens k (eat kind) :=
  .sees fun _ => .ite (fun _ => .advance fun _ _ _ => blames_pure true) fun _ => blames_pure false

theorem Blames.eat {kind : Kind} {f : Bool → Parse β} (hf : ∀ j eaten, k ≤ j → Blames v tokens j (f eaten)) :
    Blames v tokens k (eat kind >>= f) := (blames_eat kind).step (moves_eat kind) hf

theorem Blames.eatIf {kind : Kind} {q r : Parse β} (hit : ∀ j, k ≤ j → Blames v tokens j q)
    (miss : ∀ j, k ≤ j → Blames v tokens j r) :
    Blames v tokens k (Parse.eat kind >>= fun eaten => if eaten then q else r) :=
  .eat fun j _ kj => .ite (fun _ => hit j kj) fun _ => miss j kj

theorem blames_expect (kind : Kind) : Blames v tokens k (expect kind) :=
  .sees fun _ => .ite (fun _ _ _ _ he => by cases he) fun _ => blames_unexpected

theorem ends_expect {kind : Kind} (inside : kind ≠ .endOfText) : Ends v tokens k (expect kind) fun j _ => k < j := by
  intro s t u hs h
  obtain ⟨here, h⟩ := expect_ok (f := pure) (bind_eq h)
  cases h
  exact ⟨k + 1, Nat.le_succ k, hs.advance (here ▸ inside), Nat.lt_succ_self k⟩

theorem Blames.expect {kind : Kind} {f : Token → Parse β} (inside : kind ≠ .endOfText)
    (hf : ∀ j t, k < j → Blames v tokens j (f t)) : Blames v tokens k (expect kind >>= f) :=
  (blames_expect kind).bind (ends_expect inside) fun j t _ kj => hf j t kj

theorem Parse.Rereads.passes {view : α → γ} (h : Rereads false v [] 0 (fun _ => True) p p' view) :
    Ends v tokens k p fun j _ => k < j := by
  intro s a t hs ha
  obtain ⟨ws, us, whole, ht, took, -⟩ := h s _ a t hs.shows ha
  have := List.length_pos_iff.2 (took trivial)
  exact ⟨k + ws.length, Nat.le_add_right .., ht.at hs whole, by omega⟩

/-! ### Names -/

theorem blames_eatIdentifier (k : Nat) : Blames v tokens k eatIdentifier := by
  refine .expecting (.atIdentifier fun _ => .ite (fun _ => ?_) fun _ => blames_pure none)
  exact .advance fun _ t _ => blames_pure (some (Identifier.ofText t.text))

theorem moves_eatIdentifier : Moves v eatIdentifier := by
  refine (looks_expecting _).moves.seq fun _ => looks_atIdentifier.moves.seq fun _ _ _ => .ite (fun _ => ?_) fun _ => ?_
  · exact moves_advance.bind fun _ _ _ => ends_pure trivial
  · exact ends_pure trivial

theorem blames_identifier (k : Nat) : Blames v tokens k identifier := by
  refine (blames_eatIdentifier k).step moves_eatIdentifier fun j found _ => ?_
  cases found with
  | some name => exact blames_pure name
  | none => exact blames_unexpected

theorem blames_dottedFor (n k : Nat) : Blames v tokens k (dottedFor n) := by
  induction n generalizing k with
  | zero => exact blames_pure []
  | succ n ih =>
    have more : Blames v tokens k (do
        let _ ← advance
        let part ← identifier
        let others ← dottedFor n
        return part :: others) := by
      refine .advance fun a _ _ => (blames_identifier a).step rereads_identifier.moves fun b part _ => ?_
      exact (ih b).map
    intro s e hs he
    unfold dottedFor at he
    split at he
    · exact more s e hs he
    · cases he

theorem blames_dotted (n k : Nat) : Blames v tokens k (dotted n) :=
  (blames_identifier k).step rereads_identifier.moves fun j _ _ => (blames_dottedFor n j).map

/-! ### Loops and lists -/

/-- A loop whose rounds rely on what those before have made. -/
theorem Blames.iterate {step : α → Parse (Option α)} {a : α} (start : Q k a)
    (next : ∀ j a, k ≤ j → Q j a → Ends v tokens j (step a) fun j' r => ∀ b ∈ r, Q j' b)
    (h : ∀ j a, k ≤ j → Q j a → Blames v tokens j (step a)) : Blames v tokens k (iterate step a) := by
  refine .bounded fun n => ?_
  induction n generalizing k a with
  | zero => exact blames_pure a
  | succ n ih =>
    refine (h k a (Nat.le_refl k) start).bind (next k a (Nat.le_refl k) start) fun j found kj kept => ?_
    cases found with
    | none => exact blames_pure a
    | some b =>
      exact ih (kept b rfl) (fun l c jl => next l c (Nat.le_trans kj jl)) fun l c jl => h l c (Nat.le_trans kj jl)

theorem moves_iterate {step : α → Parse (Option α)} (moves : ∀ a, Moves v (step a)) (a : α) : Moves v (iterate step a) :=
  fun _ _ => .rounds (fun j a _ => (moves a _ j).mono fun _ _ _ _ => trivial) trivial

/-- A loop whose rounds may start with anything. -/
theorem Blames.rounds {step : α → Parse (Option α)} (moves : ∀ a, Moves v (step a))
    (h : ∀ j a, Blames v tokens j (step a)) (a : α) : Blames v tokens k (Parse.iterate step a) :=
  .iterate (Q := fun _ _ => True) trivial (fun j a _ _ => (moves a tokens j).mono fun _ _ _ _ _ _ => trivial)
    fun j a _ _ => h j a

section Lists

variable {item : Parse α} {sep : Kind} (moves : Moves v item) (h : ∀ k, Blames v tokens k item)

include moves h

theorem blames_followers (k : Nat) : Blames v tokens k (followers sep item) := by
  refine .bounded fun n => ?_
  induction n generalizing k with
  | zero => exact blames_pure []
  | succ n ih =>
    exact .eatIf (fun j _ => (h j).step moves fun l a _ => (ih l).map) fun _ _ => blames_pure []

theorem blames_sepBy (k : Nat) : Blames v tokens k (sepBy sep item) :=
  (h k).step moves fun j _ _ => (blames_followers moves h j).map

end Lists

end Grammar

end SkyQuery
