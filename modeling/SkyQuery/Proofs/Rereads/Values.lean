import SkyQuery.Proofs.Rereads.Calls
import SkyQuery.Proofs.RoundTrip.Values

/-!
# Values are read again

`rereads_value`: a value is read again from the words that it was read from, whatever part of the rest
of the text is left after them.
-/

namespace SkyQuery.Grammar

open Parse

variable {v : Version} {outer : Bool} {d : Nat} {value value' : Parse Operand}

/-! ### First words -/

/-- The kinds of the words with which primaries start. -/
def Kind.opensPrimary (k : Kind) : Bool := k.opensValue && k != .minus

theorem opensPrimary_of_isIdentifier {t : Token} (h : isIdentifier v t = true) : Kind.opensPrimary t.kind = true := by
  obtain ⟨kind, text, start, stop⟩ := t
  cases kind <;> first | rfl | cases h

theorem primary_opens {call : Parse Operand} {s t : State} {o : Operand} (h : primary call value v s = .ok (o, t)) :
    Kind.opensPrimary s.current.kind = true := by
  unfold primary at h
  rw [place_bind, current_bind] at h
  split at h
  · rename_i number
    cases kind : s.current.kind <;> first | rfl | (rw [kind] at number; cases number)
  split at h
  · rename_i string
    rw [eq_of_beq string]
    rfl
  split at h
  · rename_i paren
    rw [eq_of_beq paren]
    rfl
  obtain ⟨called, r, hcalled, h⟩ := bind_ok h
  cases hcalled
  split at h
  · rename_i called
    simp only [Bool.or_eq_true, Bool.and_eq_true] at called
    rcases called with function | ⟨⟨-, name⟩, -⟩
    · cases kind : s.current.kind <;> rw [kind] at function <;> first | cases function | skip
      simpa [Kind.opensPrimary, Kind.opensValue, Kind.isFunction] using function
    · exact opensPrimary_of_isIdentifier name
  rw [atIdentifier_bind] at h
  split at h
  · exact opensPrimary_of_isIdentifier ‹_›
  · cases h

/-! ### Columns and literals -/

theorem rereads_columnRef : RereadsValue outer v d columnRef columnRef := by
  refine .place fun start start' => (rereads_dotted 3).first (fun parts parts' same => ?_) (Nat.le_succ d)
  obtain rfl : parts' = parts := same
  cases ColumnRef.ofParts? parts' with
  | none => exact rereads_unexpected
  | some ref => exact rereads_placed fun _ _ => rfl

theorem rereads_literalsFor (outer : Bool) {n : Nat} {s t : State} {whole : List Word} {text : String} (hs : s.Shows whole)
    (enough : whole.length < n) (h : literalsFor n v s = .ok (text, t)) :
    ∃ ws us, whole = ws ++ us ∧ s.Takes ws us t ∧ (nextKind whole = .string → ws ≠ []) ∧
      ∀ m rest, Follows outer us rest → (ws ++ rest).length < m → Reads v (literalsFor m) ws rest (· = text) := by
  induction n generalizing s whole text with
  | zero => exact absurd enough (Nat.not_lt_zero _)
  | succ n ih =>
    unfold literalsFor at h
    rw [current_bind] at h
    split at h
    · rename_i string
      obtain ⟨token, r, htoken, h⟩ := bind_ok h
      cases htoken
      obtain ⟨tail, r, htail, h⟩ := bind_ok h
      cases h
      cases whole with
      | nil => rw [hs.kind] at string; cases string
      | cons w whole =>
        obtain ⟨ws, us, rfl, ht, -, again⟩ := ih hs.advance (Nat.lt_of_succ_lt_succ enough) htail
        refine ⟨w :: ws, us, rfl, ht.ofAdvance hs, fun _ => List.cons_ne_nil w ws, fun m rest hrest enough' => ?_⟩
        rw [List.cons_append, List.length_cons] at enough'
        obtain ⟨k, rfl⟩ : ∃ k, m = k + 1 := ⟨m - 1, by omega⟩
        refine .current fun t ht => .iteTrue ?_ (.advance fun u hu => ?_)
        · rw [show t.kind = s.current.kind from congrArg Prod.fst (ht.trans hs.current.symm), string]
        · refine (again k rest hrest (by omega)).close fun tail' same => reads_pure ?_
          rw [same, show u.text = s.current.text from congrArg Prod.snd (hu.trans hs.current.symm)]
    · rename_i other
      cases h
      refine ⟨[], whole, rfl, .refl hs, fun string => absurd (beq_iff_eq.2 (hs.kind.trans string)) other, ?_⟩
      intro m rest hrest enough' r hr
      obtain ⟨k, rfl⟩ : ∃ k, m = k + 1 := ⟨m - 1, by omega⟩
      have other' : ¬(r.current.kind == .string) = true := by
        rw [beq_iff_eq, State.Shows.kind hr]
        rcases hrest.nextKind with same | stops
        · exact fun string => other (beq_iff_eq.2 (hs.kind.trans (same.symm.trans string)))
        · exact stops.ne (by rintro ⟨⟩)
      refine ⟨"", r, ?_, hr, rfl⟩
      unfold literalsFor
      rw [current_bind, if_neg other']
      rfl

/-- String literals that are next are taken. -/
theorem rereads_literals {w : Word} (string : w.1 = .string) :
    Rereads outer v [w] d (fun _ => False) (bounded literalsFor) (bounded literalsFor) id := by
  intro s whole text t hs h
  have enough : (w :: whole).length < s.bound := by rw [State.Shows.bound hs]; exact Nat.lt_succ_self _
  obtain ⟨ws, us, same, ht, took, again⟩ := rereads_literalsFor outer hs enough h
  obtain ⟨u, ws, rfl⟩ := List.exists_cons_of_ne_nil (took string)
  obtain ⟨rfl, rfl⟩ := List.cons.inj same
  exact ⟨ws, us, rfl, ht, False.elim, fun rest hrest _ => .bounded (again _ rest hrest (Nat.lt_succ_self _))⟩

/-! ### Primaries -/

/-- Whether the words of a text are those of a call. -/
def startsCall (v : Version) (w : Word) (us : List Word) : Bool :=
  w.1.isFunction || (w.1 == .ident && isName v w && nextKind us == .leftParen)

theorem seesCall_shows {s : State} {w : Word} {us : List Word} (hs : s.Shows (w :: us)) :
    seesCall v s = .ok (startsCall v w us, s) := by
  rw [seesCall, startsCall, isIdentifier_eq, hs.secondKind, hs.current, ← congrArg Prod.fst hs.current]
  rfl

/-- A call takes its name and the parenthesis after it; what is read otherwise takes no parenthesis. -/
theorem Parse.Rereads.called {α β : Type} {w : Word} {p p' q q' : Parse α} {view : α → β}
    (hit : Rereads outer v [w] d (fun _ => True) p p' view) (miss : Rereads outer v [w] d (fun _ => False) q q' view) :
    Rereads outer v [w] d (fun _ => False) (seesCall >>= fun called => if called then p else q)
      (seesCall >>= fun called => if called then p' else q') view := by
  intro s whole a t hs h
  have hs : s.Shows (w :: whole) := hs
  rw [bind_eq (seesCall_shows hs)] at h
  cases called : startsCall v w whole with
  | true =>
    rw [if_pos called] at h
    obtain ⟨ws, us, rfl, ht, took, again⟩ := hit s whole a t hs h
    obtain ⟨u, ws, rfl⟩ := List.exists_cons_of_ne_nil (took trivial)
    refine ⟨u :: ws, us, rfl, ht, False.elim, fun rest hrest short r hr => ?_⟩
    rw [bind_eq (seesCall_shows hr), if_pos (by exact called)]
    exact again rest hrest short r hr
  | false =>
    rw [if_neg (by rw [called]; exact Bool.false_ne_true)] at h
    obtain ⟨ws, us, rfl, ht, -, again⟩ := miss s whole a t hs h
    refine ⟨ws, us, rfl, ht, False.elim, fun rest hrest short r hr => ?_⟩
    have other : startsCall v w (ws ++ rest) = false := by
      rw [startsCall] at called ⊢
      rcases (hrest.append ws).nextKind with same | stops
      · rw [same, called]
      · rw [Bool.or_eq_false_iff] at called
        rw [called.1, show (nextKind (ws ++ rest) == .leftParen) = false from stops.beq nofun, Bool.and_false, Bool.or_false]
    have shows : r.Shows (w :: (ws ++ rest)) := hr
    rw [bind_eq (seesCall_shows shows), if_neg (by rw [other]; exact Bool.false_ne_true)]
    exact again rest hrest short r hr

theorem rereads_primary (hv : RereadsValue outer v d value value') :
    RereadsValue outer v (d + 1) (primary (call value) value) (primary (call value') value') := by
  refine .opening (fun s a t ended h => ?_) fun w => ?_
  · have opens := primary_opens h
    rw [ended] at opens
    cases opens
  refine .place fun start start' => .current fun next next' hnext hnext' => ?_
  have word : next'.word = next.word := hnext'.trans hnext.symm
  have kind : next.kind = w.1 := congrArg Prod.fst hnext
  rw [show next'.kind = next.kind from congrArg Prod.fst word]
  refine .ite (fun _ => ?_) fun _ => .ite (fun string => ?_) fun _ => .ite (fun _ => ?_) fun _ => ?_
  · refine .advance (fun _ _ _ _ => rereads_placed fun _ _ => ?_) (Nat.le_succ _)
    rw [show next'.text = next.text from congrArg Prod.snd word]
    rfl
  · exact (rereads_literals (kind ▸ eq_of_beq string)).bindSame fun text => rereads_placed fun _ _ => rfl
  · refine .advance (fun _ _ _ _ => hv.any.bind fun inner inner' same => ?_) (Nat.le_refl _)
    refine .expect (by nofun) (fun _ _ _ _ => rereads_placed fun _ _ => ?_) (Nat.le_succ d)
    exact congrArg (Operand.wrapped · none) same
  · refine .called (rereads_call hv w) (.peekTaken peeks_atIdentifier ?_)
    refine .ite (fun _ => rereads_columnRef.taking fun _ _ _ _ _ => trivial) fun _ => ?_
    exact .expecting rereads_unexpected

/-! ### Signs -/

variable {base base' : Parse Operand}

/-- What has no sign is read where signs are looked for. -/
theorem Parse.Reads.unsigned {ws rest : List Word} {P : Operand → Prop} (h : Reads v base ws rest P)
    (opens : Kind.opensPrimary (nextKind (ws ++ rest)) = true) (m : Nat) : Reads v (signedFor base m) ws rest P := by
  cases m with
  | zero => exact h
  | succ m =>
    have other {k : Kind} (sign : Kind.opensPrimary k = false) : nextKind (ws ++ rest) ≠ k := by
      rintro rfl
      rw [opens] at sign
      cases sign
    exact .place fun start => .eatElse (other rfl) (.eatElse (other rfl) h)

theorem rereads_signedFor (hbase : RereadsValue outer v d base base')
    (unsigned : ∀ s a t, base v s = .ok (a, t) → Kind.opensPrimary s.current.kind = true) (n m : Nat) :
    RereadsValue outer v (min d m) (signedFor base n) (signedFor base' m) := by
  induction n generalizing m with
  | zero =>
    intro s whole a t hs h
    obtain ⟨ws, us, rfl, ht, took, again⟩ := hbase s whole a t hs h
    refine ⟨ws, us, rfl, ht, took, fun rest hrest short => (again rest hrest (by omega)).unsigned ?_ m⟩
    obtain ⟨w, ws, rfl⟩ := List.exists_cons_of_ne_nil (took trivial)
    have opens := unsigned s a t h
    rwa [hs.kind] at opens
  | succ n ih =>
    have read (m : Nat) : RereadsValue outer v (min d (m + 1)) (signedFor base (n + 1)) (signedFor base' (m + 1)) := by
      have minus {start start' : Place} : RereadsValue outer v (min d m) (do
          let inner ← signedFor base n
          checkNumeric inner
          return .negative inner (← spanFrom start)) (do
          let inner ← signedFor base' m
          checkNumeric inner
          return .negative inner (← spanFrom start')) := by
        refine (ih m).first (fun o o' same => (rereads_checkNumeric same).bindSame fun _ => ?_) (Nat.le_succ _)
        exact rereads_placed fun _ _ => congrArg (Operand.negative · none) same
      have plus : RereadsValue outer v (min d m) (do
          let inner ← signedFor base n
          checkNumeric inner
          return inner) (do
          let inner ← signedFor base' m
          checkNumeric inner
          return inner) := by
        refine (ih m).first (fun o o' same => (rereads_checkNumeric same).bindSame fun _ => ?_) (Nat.le_succ _)
        exact rereads_pure same id
      refine .place fun start start' => .eat (by nofun) minus.any ?_ (by omega)
      exact .eat (by nofun) plus.any (hbase.shorter (Nat.min_le_left d _)) (by omega)
    cases m with
    | zero =>
      rw [Nat.min_zero]
      exact (read 0).vacuous
    | succ m => exact read m

theorem rereads_signed (hbase : RereadsValue outer v d base base')
    (unsigned : ∀ s a t, base v s = .ok (a, t) → Kind.opensPrimary s.current.kind = true) :
    RereadsValue outer v d (signed base) (signed base') := .bounded (rereads_signedFor hbase unsigned)

/-! ### Arithmetic -/

/-- The operator that a word is, if it is one of two. -/
def operatorOf (first second : Kind × ArithOp) (w : Word) : Option ArithOp :=
  if w.1 == first.1 then some first.2 else if w.1 == second.1 then some second.2 else none

theorem no_operator {first second : Kind × ArithOp} (hfirst : ¬Stops outer first.1) (hsecond : ¬Stops outer second.1)
    (w : Word) (stops : Stops outer w.1) : operatorOf first second w = none := by
  rw [operatorOf, stops.beq hfirst, stops.beq hsecond]
  rfl

theorem peeks_operator (first second : Kind × ArithOp) :
    Peeks v (arithmetic.operator first second) (operatorOf first second) :=
  .sees (peeks_pure _) (.sees (peeks_pure _) (peeks_pure _))

section Arithmetic

variable {first second : Kind × ArithOp} {item item' : Parse Operand}

theorem rereads_round {start start' : Place} {left left' : Operand}
    (inside : ∀ w, Stops outer w.1 → operatorOf first second w = none) (hitem : RereadsValue outer v d item item')
    (same : left'.unplaced = left.unplaced) :
    Rereads outer v [] d (·.isSome = true) (arithmetic.round first second item start left)
      (arithmetic.round first second item' start' left') (Option.map Operand.unplaced) := by
  have ended : operatorOf first second endWord = none := inside endWord .text
  refine .peek (peeks_operator first second) (fun w stops => (inside w stops).trans ended.symm) (fun w hit => ?_) ?_
  · rw [ended] at hit
    obtain ⟨op, hop⟩ := Option.ne_none_iff_exists'.1 hit
    rw [hop]
    refine .advance (fun _ _ _ _ => hitem.any.bind fun right right' same' => ?_) (Nat.le_succ d)
    refine (rereads_checkNumeric same).bindSame fun _ => (rereads_checkNumeric same').bindSame fun _ => ?_
    refine rereads_placed fun _ _ => ?_
    simp only [Option.map_some, Operand.unplaced, same, same']
  · rw [ended]
    exact rereads_pure rfl (by simp)

theorem rereads_arithmetic (inside : ∀ w, Stops outer w.1 → operatorOf first second w = none)
    (hitem : RereadsValue outer v d item item') :
    RereadsValue outer v d (arithmetic first second item) (arithmetic first second item') :=
  .place fun _ _ => hitem.loop fun _ _ same => rereads_round inside hitem same

/-- No round goes on at the end of a text. -/
theorem round_ended (ended : operatorOf first second endWord = none) (start : Place) (left : Operand) :
    Reads v (arithmetic.round first second item start left) [] [] (· = none) := by
  intro s hs
  obtain ⟨expected, seen⟩ := peeks_operator (v := v) first second s
  rw [hs.word, show ([] ++ [] : List Word).headD endWord = endWord from rfl, ended] at seen
  refine ⟨none, { s with expected }, ?_, hs, rfl⟩
  rw [arithmetic.round, bind_eq seen]
  rfl

end Arithmetic

theorem rereads_additive (hbase : RereadsValue outer v d base base')
    (unsigned : ∀ s a t, base v s = .ok (a, t) → Kind.opensPrimary s.current.kind = true) :
    RereadsValue outer v d (additive base) (additive base') := by
  have hsigned : RereadsValue outer v d (signed base) (signed base') := rereads_signed hbase unsigned
  exact rereads_arithmetic (no_operator (by nofun) (by nofun)) (rereads_arithmetic (no_operator (by nofun) (by nofun)) hsigned)

/-! ### Concatenations -/

theorem rereads_concatenation (hbase : RereadsValue outer v d base base')
    (unsigned : ∀ s a t, base v s = .ok (a, t) → Kind.opensPrimary s.current.kind = true) :
    RereadsValue outer v d (concatenation base) (concatenation base') := by
  have hadd := rereads_additive hbase unsigned
  have part : RereadsValue outer v d (do
      let part ← additive base
      checkString part
      return part) (do
      let part ← additive base'
      checkString part
      return part) :=
    hadd.first (fun o o' same => (rereads_checkString same).bindSame fun _ => rereads_pure same id) (Nat.le_succ d)
  refine .place fun start start' => hadd.first (fun o o' same => ?_) (Nat.le_succ d)
  refine .peek (peeks_sees .concat) (blind_sees nofun) (fun w hit => ?_) (rereads_pure same id)
  have concat : (w.1 == .concat) = true := Bool.ne_false_iff.1 hit
  rw [concat]
  refine .checkedString same ?_
  have parts : Rereads outer v [] d (· ≠ []) (followers .concat _) (followers .concat _) (List.map Operand.unplaced) :=
    part.any.followers (by nofun)
  refine (parts.taking fun s os t here h => ?_).bind fun os os' same' => ?_
  · exact followers_ne_nil ((congrArg Prod.fst here).trans (eq_of_beq concat)) h
  · have all : Operand.SameAll (o' :: os') (o :: os) := by
      rw [Operand.SameAll, List.map_cons, List.map_cons, same, same']
    exact rereads_placed fun _ _ => congrArg (Operand.concatenation · none) all.allUnplaced

/-! ### Values -/

theorem rereads_valueFor (n m : Nat) : RereadsValue outer v m (valueFor n) (valueFor m) := by
  induction n generalizing m with
  | zero => exact rereads_unexpected
  | succ n ih =>
    have read (m : Nat) : RereadsValue outer v (m + 1) (valueFor (n + 1)) (valueFor (m + 1)) :=
      rereads_concatenation (rereads_primary (ih m)) fun _ _ _ => primary_opens
    cases m with
    | zero => exact (read 0).vacuous
    | succ m => exact read m

theorem rereads_value : RereadsValue outer v d Grammar.value Grammar.value :=
  .bounded fun n m => (rereads_valueFor n m).shorter (Nat.min_le_right d m)

end SkyQuery.Grammar
