import SkyQuery.Proofs.Tree.WellFormed

/-!
# What readers yield

`Yields v p P` says that whatever `p` reads from tokens of the version `v` satisfies `P`. Each
combinator of readers has one rule here; the productions of the grammar are built from these.
-/

namespace SkyQuery

/-- What is known of a token of the version `v` from its kind. -/
def Token.Lexed (v : Version) (t : Token) : Prop :=
  match t.kind with
  | .ident => Text.isWord t.text.toList = true
  | .quotedIdent => ∃ inner, t.text.toList = '"' :: (inner ++ ['"'])
  | .integer | .decimal | .scientific => Lexer.IsNumber t.kind t.text.toList
  | .keyword word => word.availableIn v = true
  | _ => True

theorem Token.Lexed.isNumber {v : Version} {t : Token} (h : t.Lexed v) (number : t.kind.isNumber) :
    Lexer.IsNumber t.kind t.text.toList := by
  obtain ⟨kind, text, start, stop⟩ := t
  cases kind with
  | integer | decimal | scientific => exact h
  | _ => cases number

theorem Token.Lexed.word {v : Version} {t : Token} (h : t.Lexed v) (kind : t.kind = .ident) :
    Text.isWord t.text.toList = true := by
  simpa only [Token.Lexed, kind] using h

theorem Token.Lexed.available {v : Version} {t : Token} {word : Keyword} (h : t.Lexed v)
    (kind : t.kind = .keyword word) : word.availableIn v = true := by
  simpa only [Token.Lexed, kind] using h

namespace Grammar

/-- All tokens that are left are tokens of the version `v`. -/
def State.Lexed (v : Version) (s : State) : Prop := ∀ t ∈ s.current :: s.rest, t.Lexed v

theorem State.Lexed.current {v : Version} {s : State} (h : s.Lexed v) : s.current.Lexed v :=
  h _ List.mem_cons_self

theorem State.Lexed.advance {v : Version} {s : State} (h : s.Lexed v) : s.advance.Lexed v := by
  unfold State.advance
  split
  · exact h
  · rename_i t rest hrest
    intro u hu
    exact h u (List.mem_cons_of_mem _ (hrest ▸ hu))

theorem State.Lexed.expecting {v : Version} {s : State} {expected : List String} (h : s.Lexed v) :
    State.Lexed v { s with expected } := h

namespace Parse

variable {α β : Type} {v : Version} {s t : State}

/-- Whatever `p` reads from tokens of `v` satisfies `P`, and leaves tokens of `v`. -/
def Yields (v : Version) (p : Parse α) (P : α → Prop) : Prop :=
  ∀ s a t, s.Lexed v → p v s = .ok (a, t) → t.Lexed v ∧ P a

theorem bind_ok {p : Parse α} {f : α → Parse β} {b : β} (h : (p >>= f) v s = .ok (b, t)) :
    ∃ a r, p v s = .ok (a, r) ∧ f a v r = .ok (b, t) := by
  cases hp : p v s with
  | ok r =>
    simp only [bind, hp] at h
    exact ⟨r.1, r.2, rfl, h⟩
  | error e =>
    simp only [bind, hp] at h
    cases h

theorem pure_ok {a b : α} (h : (pure a : Parse α) v s = .ok (b, t)) : a = b ∧ s = t := by
  cases h
  exact ⟨rfl, rfl⟩

/-! ### Steps that leave the text alone -/

theorem place_bind (f : Place → Parse β) : (place >>= f) v s = f s.current.start v s := rfl

theorem current_bind (f : Token → Parse β) : (current >>= f) v s = f s.current v s := rfl

theorem atIdentifier_bind (f : Bool → Parse β) :
    (atIdentifier >>= f) v s = f (isIdentifier v s.current) v s := rfl

/-! ### Rules -/

theorem Yields.mono {p : Parse α} {P Q : α → Prop} (h : Yields v p P) (imp : ∀ a, P a → Q a) :
    Yields v p Q := fun s a t hs hp => (h s a t hs hp).imp_right (imp a)

theorem Yields.bind {p : Parse α} {f : α → Parse β} {P : α → Prop} {Q : β → Prop}
    (hp : Yields v p P) (hf : ∀ a, P a → Yields v (f a) Q) : Yields v (p >>= f) Q := by
  intro s b t hs h
  obtain ⟨a, r, ha, hb⟩ := bind_ok h
  obtain ⟨hr, hPa⟩ := hp s a r hs ha
  exact hf a hPa r b t hr hb

theorem yields_pure {a : α} {P : α → Prop} (h : P a) : Yields v (pure a) P := by
  intro s b t hs hb
  obtain ⟨rfl, rfl⟩ := pure_ok hb
  exact ⟨hs, h⟩

theorem Yields.ite {c : Prop} [Decidable c] {p q : Parse α} {P : α → Prop}
    (hp : c → Yields v p P) (hq : ¬c → Yields v q P) : Yields v (if c then p else q) P := by
  split
  · exact hp ‹_›
  · exact hq ‹_›

theorem yields_unexpected {P : α → Prop} : Yields v (unexpected : Parse α) P := by
  intro _ _ _ _ h
  cases h

theorem yields_failAt {code : Code} {message : String} {span : Option Span} {P : α → Prop} :
    Yields v (failAt code message span : Parse α) P := by
  intro _ _ _ _ h
  cases h

theorem yields_mismatch {o : Operand} {demanded : String} {code : Code} {P : α → Prop} :
    Yields v (mismatch o demanded code : Parse α) P := yields_failAt

theorem yields_place : Yields v place fun _ => True := by
  intro s a t hs h; cases h; exact ⟨hs, trivial⟩

theorem yields_version : Yields v version (· = v) := by
  intro s a t hs h; cases h; exact ⟨hs, rfl⟩

theorem yields_current : Yields v current (Token.Lexed v) := by
  intro s a t hs h; cases h; exact ⟨hs, hs.current⟩

theorem yields_second : Yields v second fun _ => True := by
  intro s a t hs h; cases h; exact ⟨hs, trivial⟩

theorem yields_spanFrom (start : Place) : Yields v (spanFrom start) (·.isSome = true) := by
  intro s a t hs h; cases h; exact ⟨hs, rfl⟩

theorem yields_expecting (descriptions : List String) :
    Yields v (expecting descriptions) fun _ => True := by
  intro s a t hs h; cases h; exact ⟨hs, trivial⟩

theorem yields_sees (kind : Kind) : Yields v (sees kind) fun _ => True := by
  intro s a t hs h; cases h; exact ⟨hs, trivial⟩

theorem yields_seesWord (word description : String) :
    Yields v (seesWord word description) fun _ => True := by
  intro s a t hs h; cases h; exact ⟨hs, trivial⟩

theorem yields_advance : Yields v advance (Token.Lexed v) := by
  intro s a t hs h; cases h; exact ⟨hs.advance, hs.current⟩

/-- A token that is eaten is one that the version has. -/
theorem yields_eat (kind : Kind) :
    Yields v (eat kind) fun eaten => eaten = true → ∀ word, kind = .keyword word →
      word.availableIn v = true := by
  intro s b t hs h
  obtain ⟨seen, r, hseen, h⟩ := bind_ok h
  cases hseen
  split at h
  · rename_i here
    cases h
    refine ⟨hs.advance, fun _ word hword => hs.current.available ?_⟩
    rw [← hword]
    exact eq_of_beq here
  · cases h
    exact ⟨hs, by simp⟩

theorem yields_expect (kind : Kind) :
    Yields v (expect kind) fun t => t.kind = kind ∧ t.Lexed v := by
  intro s a t hs h
  obtain ⟨seen, r, hseen, h⟩ := bind_ok h
  cases hseen
  split at h
  · rename_i here
    cases h
    exact ⟨hs.advance, eq_of_beq here, hs.current⟩
  · cases h

theorem Yields.bounded {p : Nat → Parse α} {P : α → Prop} (h : ∀ n, Yields v (p n) P) :
    Yields v (bounded p) P := fun s => h s.bound s

theorem Yields.iterate {step : α → Parse (Option α)} {a : α} {P : α → Prop} (ha : P a)
    (hstep : ∀ a, P a → Yields v (step a) fun r => ∀ b ∈ r, P b) : Yields v (iterate step a) P := by
  refine .bounded fun n => ?_
  induction n generalizing a with
  | zero => exact yields_pure ha
  | succ n ih =>
    refine (hstep a ha).bind fun r hr => ?_
    cases r with
    | none => exact yields_pure ha
    | some b => exact ih (hr b rfl)

theorem Yields.followers {separator : Kind} {item : Parse α} {P : α → Prop}
    (h : Yields v item P) : Yields v (followers separator item) fun as => ∀ a ∈ as, P a := by
  refine .bounded fun n => ?_
  induction n with
  | zero => exact yields_pure (by simp)
  | succ n ih =>
    refine (yields_eat separator).bind fun _ _ => .ite (fun _ => ?_) fun _ => yields_pure (by simp)
    refine h.bind fun a ha => ih.bind fun as has => yields_pure ?_
    exact List.forall_mem_cons.2 ⟨ha, has⟩

theorem Yields.sepBy {separator : Kind} {item : Parse α} {P : α → Prop} (h : Yields v item P) :
    Yields v (sepBy separator item) fun as => as ≠ [] ∧ ∀ a ∈ as, P a := by
  refine h.bind fun a ha => h.followers.bind fun as has => yields_pure ?_
  exact ⟨List.cons_ne_nil _ _, List.forall_mem_cons.2 ⟨ha, has⟩⟩

/-- The rest of a list has an item if its separator is next. -/
theorem followers_ne_nil {separator : Kind} {item : Parse α} {as : List α}
    (next : s.current.kind = separator) (h : followers separator item v s = .ok (as, t)) :
    as ≠ [] := by
  change followersFor separator item (s.rest.length + 1) v s = .ok (as, t) at h
  unfold followersFor at h
  obtain ⟨eaten, r, heaten, h⟩ := bind_ok h
  obtain ⟨seen, u, hseen, heaten⟩ := bind_ok heaten
  cases hseen
  rw [if_pos (by simp [next])] at heaten
  cases heaten
  obtain ⟨first, r, _, h⟩ := bind_ok h
  obtain ⟨others, r, _, h⟩ := bind_ok h
  cases h
  exact List.cons_ne_nil _ _

theorem Yields.either {p q : Parse α} {P : α → Prop} (hp : Yields v p P) (hq : Yields v q P) :
    Yields v (either p q) P := by
  intro s a t hs h
  unfold Parse.either at h
  split at h
  · rename_i r hr
    cases h
    exact hp s a t hs hr
  · split at h
    · rename_i r hr
      cases h
      exact hq s a t hs hr
    · cases h

/-! ### Checks -/

theorem yields_checkNumeric (o : Operand) : Yields v (checkNumeric o) fun _ => o.isNumeric :=
  .ite (fun h => yields_pure h) fun _ => yields_mismatch

theorem yields_checkString (o : Operand) : Yields v (checkString o) fun _ => o.isString :=
  .ite (fun h => yields_pure h) fun _ => yields_mismatch

theorem checkString_ok {o : Operand} {u : Unit} (h : checkString o v s = .ok (u, t)) :
    t = s ∧ o.isString := by
  unfold checkString at h
  split at h
  · cases h
    exact ⟨rfl, ‹_›⟩
  · cases h

theorem yields_checkGeometry (o : Operand) : Yields v (checkGeometry o) fun _ => o.isGeometry :=
  .ite (fun h => yields_pure h) fun _ => yields_mismatch

theorem yields_checkAll {check : Operand → Parse Unit} {P : Operand → Prop}
    (h : ∀ o, Yields v (check o) fun _ => P o) (os : List Operand) :
    Yields v (checkAll check os) fun _ => ∀ o ∈ os, P o := by
  induction os with
  | nil => exact yields_pure (by simp)
  | cons o rest ih =>
    refine (h o).bind fun _ ho => ih.mono fun _ hrest => ?_
    exact List.forall_mem_cons.2 ⟨ho, hrest⟩

/-! ### Names -/

theorem unquoted?_of_isWord {text : List Char} (word : Text.isWord text = true) :
    Identifier.unquoted? text = none := by
  unfold Identifier.unquoted?
  split
  · simp [Text.isWord, Text.isLetter] at word
  · rfl

theorem ofText_delimited {text : String} (word : Text.isWord text.toList = true) :
    (Identifier.ofText text).delimited = false := by
  simp [Identifier.ofText, unquoted?_of_isWord word]

theorem wellFormed_ofText {t : Token} (h : t.Lexed v) (name : isIdentifier v t) :
    (Identifier.ofText t.text).WellFormed v := by
  obtain ⟨kind, text, start, stop⟩ := t
  unfold isIdentifier at name
  split at name
  · rename_i hkind
    obtain rfl : kind = .quotedIdent := hkind
    obtain ⟨inner, hinner⟩ : ∃ inner, text.toList = '"' :: (inner ++ ['"']) := h
    left
    simp [Identifier.ofText, hinner, Identifier.unquoted?]
  · rename_i hkind
    obtain rfl : kind = .ident := hkind
    have hword : Text.isWord text.toList = true := h
    right
    simp only [Bool.not_eq_true'] at name
    simp [Identifier.ofText, unquoted?_of_isWord hword, Reserved.isRegular, hword, name]
  · cases name

theorem yields_eatIdentifier : Yields v eatIdentifier fun r => ∀ i ∈ r, i.WellFormed v := by
  refine (yields_expecting _).bind fun _ _ => ?_
  intro s r t hs h
  rw [atIdentifier_bind] at h
  split at h
  · rename_i name
    cases h
    refine ⟨hs.advance, fun i hi => ?_⟩
    cases hi
    exact wellFormed_ofText hs.current name
  · cases h
    exact ⟨hs, by simp⟩

theorem yields_identifier : Yields v identifier (Identifier.WellFormed v) := by
  refine yields_eatIdentifier.bind fun r hr => ?_
  cases r with
  | none => exact yields_unexpected
  | some i => exact yields_pure (hr i rfl)

theorem yields_dottedFor (n : Nat) :
    Yields v (dottedFor n) fun parts => parts.length ≤ n ∧ ∀ i ∈ parts, i.WellFormed v := by
  induction n with
  | zero => exact yields_pure (by simp)
  | succ n ih =>
    intro s parts t hs h
    unfold dottedFor at h
    split at h
    · have more : Yields v (do
          let _ ← advance
          let part ← identifier
          let others ← dottedFor n
          return part :: others) fun parts =>
            parts.length ≤ n + 1 ∧ ∀ i ∈ parts, i.WellFormed v := by
        refine yields_advance.bind fun _ _ => yields_identifier.bind fun i hi =>
          ih.bind fun others hothers => yields_pure ?_
        exact ⟨Nat.succ_le_succ hothers.1, List.forall_mem_cons.2 ⟨hi, hothers.2⟩⟩
      exact more s parts t hs h
    · cases h
      exact ⟨hs, by simp⟩

theorem yields_dotted (n : Nat) :
    Yields v (dotted n) fun parts =>
      (1 ≤ parts.length ∧ parts.length ≤ n + 1) ∧ ∀ i ∈ parts, i.WellFormed v := by
  refine yields_identifier.bind fun i hi => (yields_dottedFor n).bind fun others hothers =>
    yields_pure ?_
  exact ⟨⟨by simp, by simpa using hothers.1⟩, List.forall_mem_cons.2 ⟨hi, hothers.2⟩⟩

end Parse

open Parse

/-- A shape whose coordinate system stands apart, from a call with `given` arguments. -/
def fittedShape (v : Version) (fn : GeometryFn) (sys : Option Operand) (coordinates : List Operand) (given : Nat)
    (start : Place) : Parse Operand :=
  match shapeForm? v fn coordinates.length ((coordinates.head?.map isPointLike).getD false) with
  | some form => do
    checkShape form coordinates
    return .geometry fn sys coordinates (← spanFrom start)
  | none => wrongArity fn.name (shapeArityText fn v) given start

end Grammar

end SkyQuery
