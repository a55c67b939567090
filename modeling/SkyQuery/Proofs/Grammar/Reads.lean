import SkyQuery.Proofs.Tree.Words

/-!
# Reading words

`Reads v p ws rest P` says that `p` reads something with the property `P` from any tokens whose words
are `ws` and then `rest`, and stops before `rest`. Each combinator of readers has a rule here, as it
has for what it yields; `Grows` is the one for loops that group to the left.
-/

namespace SkyQuery

/-- How tightly a token holds on to what stands before it. A reader of level `r` goes on at a token
exactly if the token binds tighter than `r`. -/
def Kind.binding : Kind → Nat
  | .keyword .offsetKw => 1
  | .keyword .orderKw => 2
  | .keyword .unionKw | .keyword .exceptKw => 3
  | .keyword .intersectKw => 4
  | .keyword .havingKw => 5
  | .keyword .groupKw => 6
  | .keyword .whereKw => 7
  | .comma => 8
  | .keyword .crossKw | .keyword .naturalKw | .keyword .innerKw | .keyword .leftKw
  | .keyword .rightKw | .keyword .fullKw | .keyword .joinKw | .keyword .ascKw
  | .keyword .descKw => 9
  | .keyword .orKw | .keyword .asKw | .ident | .quotedIdent => 10
  | .keyword .andKw => 11
  | .concat => 12
  | .plus | .minus => 13
  | .star | .slash => 14
  | .dot | .leftParen | .string => 16
  | _ => 0

namespace Grammar

/-! ### What is left of a text -/

/-- The word of the end of a text. -/
def endWord : Word := (.endOfText, "")

/-- The tokens that are left have the words `ws`, and then the text ends. -/
def State.Shows (s : State) (ws : List Word) : Prop :=
  (s.current :: s.rest).map Token.word = ws ++ [endWord]

/-- The kind of the first of some words, or of the end of the text. -/
def nextKind (ws : List Word) : Kind := (ws.head?.map Prod.fst).getD .endOfText

@[simp] theorem nextKind_cons (w : Word) (ws : List Word) : nextKind (w :: ws) = w.1 := rfl

section Shows

variable {s : State} {w u : Word} {ws : List Word}

theorem State.Shows.current (h : s.Shows (w :: ws)) : s.current.word = w := (List.cons.inj h).1

theorem State.Shows.rest (h : s.Shows (w :: ws)) : s.rest.map Token.word = ws ++ [endWord] :=
  (List.cons.inj h).2

theorem State.Shows.kind (h : s.Shows ws) : s.current.kind = nextKind ws := by
  cases ws with
  | nil => exact congrArg Prod.fst (List.cons.inj h).1
  | cons w ws => exact congrArg Prod.fst h.current

theorem State.Shows.second (h : s.Shows (w :: u :: ws)) : s.second.word = u := by
  have rest := h.rest
  cases hrest : s.rest with
  | nil => rw [hrest] at rest; cases rest
  | cons t others =>
    rw [hrest] at rest
    simpa [State.second, hrest] using (List.cons.inj rest).1

theorem State.Shows.secondKind (h : s.Shows (w :: ws)) : s.second.kind = nextKind ws := by
  have rest := h.rest
  cases hrest : s.rest with
  | nil => rw [hrest] at rest; cases ws <;> cases rest
  | cons t others =>
    rw [hrest] at rest
    simp only [State.second, hrest, List.head?_cons, Option.getD_some]
    cases ws with
    | nil => exact congrArg Prod.fst (List.cons.inj rest).1
    | cons u ws => exact congrArg Prod.fst (List.cons.inj rest).1

theorem State.Shows.advance (h : s.Shows (w :: ws)) : s.advance.Shows ws := by
  have rest := h.rest
  unfold State.advance
  cases hrest : s.rest with
  | nil => rw [hrest] at rest; cases ws <;> cases rest
  | cons t others => rw [hrest] at rest; exact rest

theorem State.Shows.bound (h : s.Shows ws) : s.bound = ws.length + 1 := by
  have := congrArg List.length h
  simpa [State.bound] using this

theorem State.Shows.expecting {expected : List String} (h : s.Shows ws) :
    State.Shows { s with expected } ws := h

end Shows

/-! ### Total readers -/

namespace Parse

variable {α β : Type} {v : Version} {ws us rest : List Word} {w : Word} {P : α → Prop}
  {Q : β → Prop}

/-- From tokens with the words `ws` before `rest`, `p` reads all of `ws` and its result has `P`. -/
def Reads (v : Version) (p : Parse α) (ws rest : List Word) (P : α → Prop) : Prop :=
  ∀ s, s.Shows (ws ++ rest) → ∃ a t, p v s = .ok (a, t) ∧ t.Shows rest ∧ P a

theorem bind_eq {p : Parse α} {f : α → Parse β} {s t : State} {a : α} (h : p v s = .ok (a, t)) :
    (p >>= f) v s = f a v t := by
  simp only [bind, h]

theorem bind_error {p : Parse α} {f : α → Parse β} {s : State} {e : Diagnostic} (h : p v s = .error e) :
    (p >>= f) v s = .error e := by
  simp only [bind, h]

theorem eat_hit {kind : Kind} {s : State} (here : s.current.kind = kind) :
    eat kind v s = .ok (true, s.advance) := by
  unfold eat
  rw [bind_eq (a := s.current.kind == kind) rfl, if_pos (beq_iff_eq.2 here)]
  rfl

theorem eat_miss {kind : Kind} {s : State} (miss : s.current.kind ≠ kind) :
    eat kind v s = .ok (false, { s with expected := kind.describe :: s.expected }) := by
  unfold eat
  rw [bind_eq (a := s.current.kind == kind) rfl, if_neg (mt beq_iff_eq.1 miss)]
  rfl

theorem expect_hit {kind : Kind} {s : State} (here : s.current.kind = kind) :
    expect kind v s = .ok (s.current, s.advance) := by
  unfold expect
  rw [bind_eq (a := s.current.kind == kind) rfl, if_pos (beq_iff_eq.2 here)]
  rfl

theorem Reads.mono {p : Parse α} {P' : α → Prop} (h : Reads v p ws rest P) (imp : ∀ a, P a → P' a) :
    Reads v p ws rest P' := by
  intro s hs
  obtain ⟨a, t, ha, ht, hP⟩ := h s hs
  exact ⟨a, t, ha, ht, imp a hP⟩

theorem reads_pure {a : α} (h : P a) : Reads v (pure a) [] rest P :=
  fun s hs => ⟨a, s, rfl, hs, h⟩

theorem Reads.bind {p : Parse α} {f : α → Parse β} (hp : Reads v p ws (us ++ rest) P)
    (hf : ∀ a, P a → Reads v (f a) us rest Q) : Reads v (p >>= f) (ws ++ us) rest Q := by
  intro s hs
  rw [List.append_assoc] at hs
  obtain ⟨a, t, ha, ht, hP⟩ := hp s hs
  obtain ⟨b, r, hb, hr, hQ⟩ := hf a hP t ht
  exact ⟨b, r, (bind_eq ha).trans hb, hr, hQ⟩

/-- A reader that leaves the text alone comes first. -/
theorem Reads.andThen {p : Parse α} {f : α → Parse β} (hp : Reads v p [] (us ++ rest) P)
    (hf : ∀ a, P a → Reads v (f a) us rest Q) : Reads v (p >>= f) us rest Q := hp.bind hf

/-- A reader ends with one that leaves the text alone. -/
theorem Reads.close {p : Parse α} {f : α → Parse β} (hp : Reads v p ws rest P)
    (hf : ∀ a, P a → Reads v (f a) [] rest Q) : Reads v (p >>= f) ws rest Q := by
  have : Reads v (p >>= f) (ws ++ []) rest Q := hp.bind hf
  rwa [List.append_nil] at this

theorem Reads.place {f : Place → Parse α} (h : ∀ start, Reads v (f start) ws rest P) :
    Reads v (place >>= f) ws rest P := fun s hs => h s.current.start s hs

theorem Reads.spanFrom {start : Place} {f : Option Span → Parse α}
    (h : ∀ span, Reads v (f span) ws rest P) : Reads v (spanFrom start >>= f) ws rest P :=
  fun s hs => h (some (Span.between start s.reached)) s hs

theorem Reads.version {f : Version → Parse α} (h : Reads v (f v) ws rest P) :
    Reads v (version >>= f) ws rest P := h

theorem Reads.current {f : Token → Parse α}
    (h : ∀ t : Token, t.word = w → Reads v (f t) (w :: us) rest P) :
    Reads v (current >>= f) (w :: us) rest P := fun s hs => h s.current hs.current s hs

theorem Reads.second {f : Token → Parse α}
    (h : ∀ t : Token, t.kind = nextKind (us ++ rest) → Reads v (f t) (w :: us) rest P) :
    Reads v (second >>= f) (w :: us) rest P := fun s hs => h s.second hs.secondKind s hs

theorem Reads.expecting {descriptions : List String} {f : Unit → Parse α}
    (h : Reads v (f ()) ws rest P) : Reads v (expecting descriptions >>= f) ws rest P :=
  fun _ hs => h _ hs.expecting

theorem Reads.sees {kind : Kind} {f : Bool → Parse α}
    (h : Reads v (f (nextKind (ws ++ rest) == kind)) ws rest P) :
    Reads v (sees kind >>= f) ws rest P := by
  intro s hs
  rw [← hs.kind] at h
  exact h _ hs.expecting

theorem Reads.advance {f : Token → Parse α}
    (h : ∀ t : Token, t.word = w → Reads v (f t) us rest P) :
    Reads v (advance >>= f) (w :: us) rest P := fun s hs => h s.current hs.current s.advance hs.advance

theorem Reads.expect {kind : Kind} {text : String} {f : Token → Parse α}
    (h : ∀ t : Token, t.word = (kind, text) → Reads v (f t) us rest P) :
    Reads v (expect kind >>= f) ((kind, text) :: us) rest P := by
  intro s hs
  have here : s.current.kind = kind := congrArg Prod.fst hs.current
  rw [bind_eq (expect_hit here)]
  exact h s.current hs.current s.advance hs.advance

theorem Reads.eat {kind : Kind} {text : String} {f : Bool → Parse α} (h : Reads v (f true) us rest P) :
    Reads v (eat kind >>= f) ((kind, text) :: us) rest P := by
  intro s hs
  have here : s.current.kind = kind := congrArg Prod.fst hs.current
  rw [bind_eq (eat_hit here)]
  exact h s.advance hs.advance

theorem Reads.skip {kind : Kind} {f : Bool → Parse α} (miss : nextKind (ws ++ rest) ≠ kind)
    (h : Reads v (f false) ws rest P) : Reads v (Parse.eat kind >>= f) ws rest P := by
  intro s hs
  rw [bind_eq (eat_miss (hs.kind ▸ miss))]
  exact h _ hs.expecting

theorem Reads.eatThen {kind : Kind} {text : String} {p q : Parse α} (h : Reads v p us rest P) :
    Reads v (Parse.eat kind >>= fun eaten => if eaten then p else q) ((kind, text) :: us) rest P :=
  .eat h

theorem Reads.eatElse {kind : Kind} {p q : Parse α} (miss : nextKind (ws ++ rest) ≠ kind)
    (h : Reads v q ws rest P) :
    Reads v (Parse.eat kind >>= fun eaten => if eaten then p else q) ws rest P := .skip miss h

/-- A token that stands only if a condition holds, and is looked for. -/
theorem Reads.eatIf {condition : Bool} {kind : Kind} {text : String} {f : Bool → Parse α}
    (miss : nextKind (us ++ rest) ≠ kind) (h : Reads v (f condition) us rest P) :
    Reads v (Parse.eat kind >>= f) (wordsIf condition [(kind, text)] ++ us) rest P := by
  cases condition with
  | true => exact .eat h
  | false => exact .skip miss h

theorem Reads.bounded {p : Nat → Parse α} (h : Reads v (p ((ws ++ rest).length + 1)) ws rest P) :
    Reads v (bounded p) ws rest P := by
  intro s hs
  rw [← hs.bound] at h
  exact h s hs

theorem Reads.iteTrue {c : Prop} [Decidable c] {p q : Parse α} (hc : c) (h : Reads v p ws rest P) :
    Reads v (if c then p else q) ws rest P := by
  rwa [if_pos hc]

theorem Reads.iteFalse {c : Prop} [Decidable c] {p q : Parse α} (hc : ¬c) (h : Reads v q ws rest P) :
    Reads v (if c then p else q) ws rest P := by
  rwa [if_neg hc]

/-! ### Loops -/

/-- After `item`, some rounds of `step` read the words `ws`; no more than there are words. -/
def Grows (v : Version) (item : Parse α) (step : α → Parse (Option α)) (ws rest : List Word)
    (P : α → Prop) : Prop :=
  ∀ s, s.Shows (ws ++ rest) → ∃ k a t b r, item v s = .ok (a, t) ∧ k + r.bound ≤ t.bound ∧
    (∀ n, iterateFor step (k + n) a v t = iterateFor step n b v r) ∧ r.Shows rest ∧ P b

theorem Grows.base {item : Parse α} {step : α → Parse (Option α)} (h : Reads v item ws rest P) :
    Grows v item step ws rest P := by
  intro s hs
  obtain ⟨a, t, ha, ht, hP⟩ := h s hs
  exact ⟨0, a, t, a, t, ha, by omega, fun n => by rw [Nat.zero_add], ht, hP⟩

theorem Grows.grow {item : Parse α} {step : α → Parse (Option α)} {P' : α → Prop}
    (h : Grows v item step ws (us ++ rest) P) (nonempty : us ≠ [])
    (hstep : ∀ a, P a → Reads v (step a) us rest fun r => ∃ b, r = some b ∧ P' b) :
    Grows v item step (ws ++ us) rest P' := by
  intro s hs
  rw [List.append_assoc] at hs
  obtain ⟨k, a, t, b, r, ha, bound, rounds, hr, hP⟩ := h s hs
  obtain ⟨found, q, hq, hqs, c, rfl, hP'⟩ := hstep b hP r hr
  refine ⟨k + 1, a, t, c, q, ha, ?_, fun n => ?_, hqs, hP'⟩
  · have more := hr.bound
    rw [List.length_append] at more
    rw [hqs.bound]
    have := List.length_pos_iff.2 nonempty
    omega
  · rw [Nat.add_assoc, rounds, Nat.add_comm 1 n, iterateFor, bind_eq hq]

/-- The loop ends with a round that does not go on. -/
theorem Grows.finish {item : Parse α} {step : α → Parse (Option α)} (h : Grows v item step ws (us ++ rest) P)
    (hstep : ∀ a, P a → Reads v (step a) us rest (· = none)) : Reads v (item >>= iterate step) (ws ++ us) rest P := by
  intro s hs
  rw [List.append_assoc] at hs
  obtain ⟨k, a, t, b, r, ha, bound, rounds, hr, hP⟩ := h s hs
  obtain ⟨m, hm⟩ : ∃ m, t.bound = k + (m + 1) := by
    have := hr.bound
    exact ⟨t.bound - k - 1, by omega⟩
  obtain ⟨_, q, hq, hqs, rfl⟩ := hstep b hP r hr
  refine ⟨b, q, ?_, hqs, hP⟩
  rw [bind_eq ha, iterate, Parse.bounded, hm, rounds, iterateFor, bind_eq hq]
  rfl

/-- The loop ends where no round goes on. -/
theorem Grows.done {item : Parse α} {step : α → Parse (Option α)} (h : Grows v item step ws rest P)
    (hstep : ∀ a, P a → Reads v (step a) [] rest (· = none)) : Reads v (item >>= iterate step) ws rest P := by
  have : Reads v (item >>= iterate step) (ws ++ []) rest P := h.finish hstep
  rwa [List.append_nil] at this

/-! ### Lists -/

/-- The rest of a list is read if each item is read before a separator and before the end. -/
theorem reads_followersFor {item : Parse α} (view : α → β) {words : α → List Word} (sep : Word) (as : List α)
    (h : ∀ a ∈ as, ∀ after, (nextKind after).binding ≤ sep.1.binding →
      Reads v item (words a) after fun b => view b = view a)
    (ends : (nextKind rest).binding < sep.1.binding) {n : Nat} (enough : as.length ≤ n) :
    Reads v (followersFor sep.1 item n) (as.flatMap (sep :: words ·)) rest
      fun bs => bs.map view = as.map view := by
  have stop : nextKind rest ≠ sep.1 := fun same => by rw [same] at ends; exact Nat.lt_irrefl _ ends
  induction as generalizing n with
  | nil =>
    cases n with
    | zero => exact reads_pure rfl
    | succ n => exact .eatElse stop (reads_pure rfl)
  | cons a others ih =>
    obtain ⟨m, rfl⟩ := Nat.exists_eq_add_of_lt (Nat.lt_of_lt_of_le (Nat.zero_lt_succ _) enough)
    obtain ⟨first, more⟩ := List.forall_mem_cons.1 h
    have next : (nextKind (others.flatMap (sep :: words ·) ++ rest)).binding ≤ sep.1.binding := by
      cases others with
      | nil => exact Nat.le_of_lt ends
      | cons b others => exact Nat.le_refl _
    have enough : others.length ≤ 0 + m := by simpa using enough
    rw [List.flatMap_cons]
    refine .eatThen ((first _ next).bind fun b hb => (ih more enough).close fun bs hbs => reads_pure ?_)
    rw [List.map_cons, List.map_cons, hb, hbs]

theorem length_le_flatMap {γ : Type} (sep : Word) (words : γ → List Word) (as : List γ) :
    as.length ≤ (as.flatMap (sep :: words ·)).length := by
  induction as with
  | nil => simp
  | cons a rest ih => simp only [List.flatMap_cons, List.length_append, List.length_cons]; omega

theorem reads_followers {item : Parse α} (view : α → β) {words : α → List Word} (sep : Word) (as : List α)
    (h : ∀ a ∈ as, ∀ after, (nextKind after).binding ≤ sep.1.binding →
      Reads v item (words a) after fun b => view b = view a)
    (ends : (nextKind rest).binding < sep.1.binding) :
    Reads v (followers sep.1 item) (as.flatMap (sep :: words ·)) rest
      fun bs => bs.map view = as.map view := by
  refine .bounded (reads_followersFor view sep as h ends ?_)
  have := length_le_flatMap sep words as
  rw [List.length_append]
  omega

theorem reads_sepBy {item : Parse α} (view : α → β) {words : α → List Word} (sep : Word) {as : List α}
    (nonempty : as ≠ [])
    (h : ∀ a ∈ as, ∀ after, (nextKind after).binding ≤ sep.1.binding →
      Reads v item (words a) after fun b => view b = view a)
    (ends : (nextKind rest).binding < sep.1.binding) :
    Reads v (sepBy sep.1 item) (joined sep (as.map words)) rest
      fun bs => bs.map view = as.map view := by
  cases as with
  | nil => exact absurd rfl nonempty
  | cons a others =>
    obtain ⟨first, more⟩ := List.forall_mem_cons.1 h
    have next : (nextKind (others.flatMap (sep :: words ·) ++ rest)).binding ≤ sep.1.binding := by
      cases others with
      | nil => exact Nat.le_of_lt ends
      | cons b others => exact Nat.le_refl _
    rw [List.map_cons, joined, List.flatMap_map]
    refine (first _ next).bind fun b hb => ?_
    refine (reads_followers view sep others more ends).close fun bs hbs => reads_pure ?_
    rw [List.map_cons, List.map_cons, hb, hbs]

/-! ### Names -/

theorem isIdentifier_word {i : Identifier} {t : Token} (h : i.WellFormed v) (word : t.word = i.word) :
    isIdentifier v t = true := by
  obtain ⟨kind, text, start, stop⟩ := t
  obtain ⟨name, delimited⟩ := i
  cases delimited with
  | true =>
    cases word
    rfl
  | false =>
    obtain rfl : kind = .ident := congrArg Prod.fst word
    obtain rfl : text = name := congrArg Prod.snd word
    have regular : Reserved.isRegular v text = true := h.resolve_left Bool.false_ne_true
    simp only [Reserved.isRegular, Bool.and_eq_true] at regular
    exact regular.2

theorem isIdentifier_kind {t : Token} (ident : t.kind ≠ .ident) (quoted : t.kind ≠ .quotedIdent) :
    isIdentifier v t = false := by
  unfold isIdentifier
  split
  · exact absurd ‹_› quoted
  · exact absurd ‹_› ident
  · rfl

theorem ofText_render {i : Identifier} (h : i.WellFormed v) : Identifier.ofText i.render = i := by
  obtain ⟨name, delimited⟩ := i
  cases delimited with
  | true =>
    simp [Identifier.ofText, Identifier.render, Text.quoted, Identifier.unquoted?, Text.halved_doubled]
  | false =>
    have regular : Reserved.isRegular v name = true := h.resolve_left Bool.false_ne_true
    simp only [Reserved.isRegular, Bool.and_eq_true] at regular
    simp [Identifier.ofText, Identifier.render, unquoted?_of_isWord regular.1]

theorem ofText_word {i : Identifier} {t : Token} (h : i.WellFormed v) (word : t.word = i.word) :
    Identifier.ofText t.text = i := by
  have text : t.text = i.render := congrArg Prod.snd word
  rw [text, ofText_render h]

theorem Reads.atIdentifier {f : Bool → Parse α} {i : Identifier} (h : i.WellFormed v)
    (hf : Reads v (f true) (i.word :: us) rest P) :
    Reads v (atIdentifier >>= f) (i.word :: us) rest P := by
  intro s hs
  rw [← isIdentifier_word h hs.current] at hf
  exact hf s hs

theorem reads_eatIdentifier {i : Identifier} (h : i.WellFormed v) :
    Reads v eatIdentifier [i.word] rest (· = some i) := by
  refine .expecting (.atIdentifier h (.advance fun t ht => reads_pure ?_))
  rw [ofText_word h ht]

theorem reads_noIdentifier (next : (nextKind rest).binding ≠ Kind.ident.binding) :
    Reads v eatIdentifier [] rest (· = none) := by
  refine .expecting fun s hs => ⟨none, s, ?_, hs, rfl⟩
  have kind : s.current.kind = nextKind rest := hs.kind
  have miss : isIdentifier v s.current = false :=
    isIdentifier_kind (fun ident => next (by rw [← kind, ident]))
      (fun quoted => next (by rw [← kind, quoted]; rfl))
  rw [atIdentifier_bind, miss]
  rfl

theorem reads_identifier {i : Identifier} (h : i.WellFormed v) :
    Reads v identifier [i.word] rest (· = i) := by
  refine (reads_eatIdentifier h).close fun found hfound => ?_
  subst hfound
  exact reads_pure rfl

/-- Points after which no name stands end a dotted name. -/
theorem reads_dottedFor (parts : List Identifier) (h : ∀ i ∈ parts, i.WellFormed v) {n : Nat}
    (enough : parts.length ≤ n)
    (ends : nextKind rest ≠ .dot ∨ parts.length = n ∨
      (nextKind rest.tail).binding ≠ Kind.ident.binding) :
    Reads v (dottedFor n) (parts.flatMap fun i => [dotWord, i.word]) rest (· = parts) := by
  induction parts generalizing n with
  | nil =>
    cases n with
    | zero => exact reads_pure rfl
    | succ n =>
      intro s hs
      refine ⟨[], s, ?_, hs, rfl⟩
      -- No point follows, or no name behind it; that all `n` names were read is excluded here.
      have stop : ¬(s.current.kind == .dot && isIdentifier v s.second) = true := by
        rw [Bool.and_eq_true, not_and, beq_iff_eq]
        intro dot name
        rw [hs.kind] at dot
        rcases ends with ends | ends | ends
        · exact ends dot
        · cases ends
        · cases rest with
          | nil => cases dot
          | cons w rest =>
            have second := hs.secondKind
            rw [isIdentifier_kind] at name
            · cases name
            · rw [second]; rintro h; exact ends (by rw [List.tail_cons, h])
            · rw [second]; rintro h; exact ends (by rw [List.tail_cons, h]; rfl)
      unfold dottedFor
      rw [if_neg stop]
  | cons i others ih =>
    cases n with
    | zero => cases enough
    | succ n =>
      obtain ⟨first, more⟩ := List.forall_mem_cons.1 h
      have more := ih more (Nat.le_of_succ_le_succ enough) (by simpa using ends)
      intro s hs
      rw [List.flatMap_cons] at hs
      have go : (s.current.kind == .dot && isIdentifier v s.second) = true := by
        rw [Bool.and_eq_true, beq_iff_eq]
        exact ⟨congrArg Prod.fst hs.current, isIdentifier_word first hs.second⟩
      have read : Reads v (do
          let _ ← advance
          let part ← identifier
          let others ← dottedFor n
          return part :: others) (dotWord :: ([i.word] ++ others.flatMap fun i => [dotWord, i.word]))
          rest (· = i :: others) := by
        refine .advance fun t ht => (reads_identifier first).bind fun j hj => ?_
        refine more.close fun others hothers => reads_pure ?_
        rw [hj, hothers]
      unfold dottedFor
      rw [if_pos go]
      exact read s hs

theorem dottedWords_cons (i : Identifier) (others : List Identifier) :
    dottedWords (i :: others) = [i.word] ++ others.flatMap fun i => [dotWord, i.word] := by
  simp [dottedWords, joined, List.flatMap_map]

theorem reads_dotted {parts : List Identifier} (nonempty : parts ≠ []) (h : ∀ i ∈ parts, i.WellFormed v)
    {n : Nat} (enough : parts.length ≤ n + 1)
    (ends : nextKind rest ≠ .dot ∨ parts.length = n + 1 ∨
      (nextKind rest.tail).binding ≠ Kind.ident.binding) :
    Reads v (dotted n) (dottedWords parts) rest (· = parts) := by
  cases parts with
  | nil => exact absurd rfl nonempty
  | cons i others =>
    obtain ⟨first, more⟩ := List.forall_mem_cons.1 h
    rw [dottedWords_cons]
    refine (reads_identifier first).bind fun j hj => ?_
    have rest := reads_dottedFor others more (Nat.le_of_succ_le_succ enough) (by simpa using ends)
    refine rest.close fun others hothers => reads_pure ?_
    rw [hj, hothers]

/-! ### Choice and checks -/

/-- Every reading of the words fails. -/
def Fails (v : Version) (p : Parse α) (ws : List Word) : Prop :=
  ∀ s, s.Shows ws → ∃ e, p v s = .error e

section Fails

variable {p q : Parse α} {f : α → Parse β}

theorem fails_unexpected : Fails v (unexpected : Parse α) ws := fun _ _ => ⟨_, rfl⟩

theorem Fails.first (h : Fails v p ws) : Fails v (p >>= f) ws := fun s hs =>
  (h s hs).imp fun _ he => bind_error he

/-- What follows the words that are read fails. -/
theorem Reads.fails (hp : Reads v p ws us P) (hf : ∀ a, P a → Fails v (f a) us) :
    Fails v (p >>= f) (ws ++ us) := by
  intro s hs
  obtain ⟨a, t, ha, ht, hP⟩ := hp s hs
  obtain ⟨e, he⟩ := hf a hP t ht
  exact ⟨e, (bind_eq ha).trans he⟩

theorem Fails.place {g : Place → Parse β} (h : ∀ start, Fails v (g start) ws) : Fails v (place >>= g) ws :=
  fun s hs => h s.current.start s hs

theorem Fails.skip {kind : Kind} {g : Bool → Parse β} (miss : nextKind ws ≠ kind)
    (h : Fails v (g false) ws) : Fails v (Parse.eat kind >>= g) ws := by
  intro s hs
  obtain ⟨e, he⟩ := h _ hs.expecting
  exact ⟨e, (bind_eq (eat_miss (hs.kind ▸ miss))).trans he⟩

theorem Fails.eatElse {kind : Kind} {p q : Parse α} (miss : nextKind ws ≠ kind) (h : Fails v q ws) :
    Fails v (Parse.eat kind >>= fun eaten => if eaten then p else q) ws := .skip miss h

theorem Fails.current {g : Token → Parse β}
    (h : ∀ t : Token, t.kind = nextKind ws → Fails v (g t) ws) : Fails v (current >>= g) ws :=
  fun s hs => h s.current hs.kind s hs

theorem Fails.second {g : Token → Parse β} (h : ∀ t, Fails v (g t) ws) : Fails v (second >>= g) ws :=
  fun s hs => h s.second s hs

theorem Fails.bounded {p : Nat → Parse α} (h : ∀ n, Fails v (p n) ws) : Fails v (bounded p) ws :=
  fun s hs => h s.bound s hs

theorem Fails.ite {c : Prop} [Decidable c] (hp : c → Fails v p ws) (hq : ¬c → Fails v q ws) :
    Fails v (if c then p else q) ws := by
  split
  · exact hp ‹_›
  · exact hq ‹_›

theorem Fails.either (hp : Fails v p ws) (hq : Fails v q ws) : Fails v (either p q) ws := by
  intro s hs
  obtain ⟨e, he⟩ := hp s hs
  obtain ⟨e', he'⟩ := hq s hs
  exact ⟨_, by rw [Parse.either, he, he']⟩

end Fails

theorem Reads.eitherLeft {p q : Parse α} (h : Reads v p ws rest P) : Reads v (either p q) ws rest P := by
  intro s hs
  obtain ⟨a, t, ha, ht, hP⟩ := h s hs
  exact ⟨a, t, by rw [either, ha], ht, hP⟩

theorem Reads.eitherRight {p q : Parse α} (hp : Fails v p (ws ++ rest)) (h : Reads v q ws rest P) :
    Reads v (either p q) ws rest P := by
  intro s hs
  obtain ⟨e, he⟩ := hp s hs
  obtain ⟨a, t, ha, ht, hP⟩ := h s hs
  exact ⟨a, t, by rw [either, he, ha], ht, hP⟩

theorem reads_checkNumeric {o : Operand} (h : o.isNumeric = true) :
    Reads v (checkNumeric o) [] rest fun _ => True := .iteTrue h (reads_pure trivial)

theorem reads_checkString {o : Operand} (h : o.isString = true) :
    Reads v (checkString o) [] rest fun _ => True := .iteTrue h (reads_pure trivial)

theorem reads_checkGeometry {o : Operand} (h : o.isGeometry = true) :
    Reads v (checkGeometry o) [] rest fun _ => True := .iteTrue h (reads_pure trivial)

theorem reads_checkAll {check : Operand → Parse Unit} {os : List Operand}
    (h : ∀ o ∈ os, Reads v (check o) [] rest fun _ => True) :
    Reads v (checkAll check os) [] rest fun _ => True := by
  induction os with
  | nil => exact reads_pure trivial
  | cons o others ih =>
    obtain ⟨first, more⟩ := List.forall_mem_cons.1 h
    exact .andThen first fun _ _ => ih more

end Parse

end Grammar

end SkyQuery
