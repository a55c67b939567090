import SkyQuery.Proofs.Located.Texts
import SkyQuery.Proofs.Progress.Productions

/-!
# Reading ends

`reading_progresses`: from every token of a text the productions go on and stop at the end of the text at
the latest, their calls and loops come to an end, and only tokens of the text are looked at.
-/

namespace SkyQuery.Grammar

open Parse

variable {v : Version} {tokens : List Token} {k : Nat} {s : State}

/-! ### Where readers stand -/

/-- A reader may stand at each token of a text that ends, whatever was expected. -/
theorem exists_at (ended : tokens.getLast?.map Token.word = some endWord) (inside : k < tokens.length) (expected : List String) :
    ∃ s : State, s.At tokens k ∧ s.expected = expected := by
  obtain ⟨last, hlast, word⟩ := Option.map_eq_some_iff.1 ended
  have words : tokens.map Token.word = wordsBefore tokens ++ [endWord] := by
    obtain ⟨others, rfl⟩ := List.getLast?_eq_some_iff.1 hlast
    simp [wordsBefore, word]
  refine ⟨⟨tokens.get ⟨k, inside⟩, tokens.drop (k + 1), stopBefore tokens k, expected⟩, ⟨?_, ?_, rfl⟩, rfl⟩
  · have short : k ≤ (wordsBefore tokens).length := by
      rw [wordsBefore, List.length_map, List.length_dropLast]
      omega
    rw [State.Shows, ← List.drop_append_of_le_length short, ← words, ← List.map_drop]
    simp
  · simp

theorem State.At.current_get (h : s.At tokens k) : tokens[k]? = some s.current := by
  have left := congrArg (·[0]?) h.left
  simpa [List.getElem?_drop] using left.symm

theorem State.At.second_get (h : s.At tokens k) : tokens[min (k + 1) (tokens.length - 1)]? = some s.second := by
  have length := h.length
  cases rest : s.rest with
  | nil =>
    rw [State.bound, rest] at length
    rw [show min (k + 1) (tokens.length - 1) = k by simp_all, h.current_get, State.second, rest]
    rfl
  | cons t others =>
    have left := congrArg (·[1]?) h.left
    rw [State.bound, rest] at length
    rw [show min (k + 1) (tokens.length - 1) = k + 1 by simp at length; omega, State.second, rest]
    simpa [List.getElem?_drop, rest] using left.symm

/-- Where reading has come to is where the token before stops. -/
theorem State.At.reached_get (h : s.At tokens k) (more : 0 < k) : tokens[k - 1]?.map Token.stop = some s.reached := by
  have inside : k - 1 < tokens.length := by
    have := h.lt
    omega
  rw [h.reached, stopBefore, List.getLast?_take, if_neg (Nat.ne_of_gt more), List.getElem?_eq_getElem inside]
  rfl

/-- The token after is next, and the last one stays. -/
theorem State.At.next (h : s.At tokens k) : s.advance.At tokens (min (k + 1) (tokens.length - 1)) := by
  obtain ⟨j, -, hj, -⟩ := moves_advance (v := .v20) tokens k s s.current s.advance h rfl
  have before := h.length
  have after := hj.length
  obtain rfl : j = min (k + 1) (tokens.length - 1) := by
    cases rest : s.rest <;> simp only [State.advance, State.bound, rest, List.length_nil, List.length_cons] at before after <;> omega
  exact hj

/-! ### Groups that are none -/

/-- The state in which a parenthesis is tried as that of a group, and then as that of a value. -/
def beforeGroup (s : State) : State :=
  { s with expected := (Kind.keyword .existsKw).describe :: (Kind.keyword .notKw).describe :: s.expected }

/-- Where no group can be read, a predicate is read from the same token, with the same list of what was expected. -/
theorem negation_rewinds (hs : s.At tokens k) (paren : s.current.kind = .leftParen) (other : s.second.kind ≠ .keyword .selectKw)
    {e : Diagnostic} (fails : Production.read .group v (beforeGroup s) = .error e) :
    Production.read .negation v s = match Production.read .predicate v (beforeGroup s) with
      | .ok read => .ok read
      | .error e' => .error (if either.later e e' then e else e') := by
  have noNot : s.current.kind ≠ .keyword .notKw := by
    rw [paren]
    nofun
  have noExists : s.current.kind ≠ .keyword .existsKw := by
    rw [paren]
    nofun
  have opens : ((beforeGroup s).current.kind == .leftParen && (beforeGroup s).second.kind != .keyword .selectKw) = true :=
    Bool.and_eq_true_iff.2 ⟨beq_iff_eq.2 paren, bne_iff_ne.2 other⟩
  let afterNot : State := { s with expected := (Kind.keyword .notKw).describe :: s.expected }
  have missExists : eat (.keyword .existsKw) v afterNot = .ok (false, beforeGroup s) := eat_miss noExists
  rw [(read_unfolds .negation).same s hs]
  change negationOf (Production.read (.query false)) (Production.read .negation) (Production.read .group)
    (Production.read .predicate) v s = _
  rw [negationOf, place_bind, bind_eq (eat_miss noNot), if_neg Bool.false_ne_true, bind_eq missExists, if_neg Bool.false_ne_true]
  rw [current_bind, bind_eq (a := (beforeGroup s).second) rfl, if_pos opens, Parse.either, fails]
  cases Production.read .predicate v (beforeGroup s) <;> rfl

/-! ### Readings -/

/-- What reading the tokens of a text does. -/
structure Progresses (v : Version) (tokens : List Token) : Prop where
  /-- A text is read from its first token on. -/
  begins : ∀ text, tokensFor v text = .ok tokens → (State.ofTokens tokens).At tokens 0
  /-- A reader may stand at each token of a text that ends, whatever was expected. -/
  stands : tokens.getLast?.map Token.word = some endWord → ∀ k < tokens.length, ∀ expected,
    ∃ s : State, s.At tokens k ∧ s.expected = expected
  /-- The next token is in the text, and so are the one after it and the last that was read. -/
  sees : ∀ k (s : State), s.At tokens k → tokens[k]? = some s.current ∧
    tokens[min (k + 1) (tokens.length - 1)]? = some s.second ∧ (0 < k → tokens[k - 1]?.map Token.stop = some s.reached)
  /-- A token is passed unless it is the last one, and what is expected moves nothing. -/
  moves : ∀ k (s : State), s.At tokens k → s.advance.At tokens (min (k + 1) (tokens.length - 1)) ∧
    ∀ expected, State.At tokens k { s with expected }
  /-- A production that succeeds has taken a token, and has come to the last one at most. -/
  advances : ∀ (p : Production) k, Ends v tokens k p.read fun j _ => k < j ∧ j < tokens.length
  /-- A production calls others after a further token, or those of a lower level. -/
  calls : Descends v tokens Production.level Production.body Production.read
  /-- A round of a loop comes after a further token. -/
  rounds : ∀ {ι : Type} {R : ι → Type} {F : (∀ i, Parse (R i)) → ∀ i, Parse (R i)} {p : ∀ i, Parse (R i)},
    Loop F p → Descends v tokens (fun _ => 0) F p
  /-- The calls of a production come to an end: so many of them, one inside the other, read what it reads. -/
  callsEnd : ∀ (base : ∀ p : Production, Parse p.Result) (p : Production) k n,
    (tokens.length - k) * Production.levels + p.level ≤ n → Agree v tokens k p.read (Production.body^[n] base p)
  /-- A loop has no more rounds than there are tokens left. -/
  roundsEnd : ∀ {ι : Type} {R : ι → Type} {F : (∀ i, Parse (R i)) → ∀ i, Parse (R i)} {p : ∀ i, Parse (R i)},
    Loop F p → ∀ (base : ∀ i, Parse (R i)) i k n, tokens.length - k ≤ n → Agree v tokens k (p i) (F^[n] base i)
  /-- Where a parenthesis is not that of a group, it is read again from the same token, with the same list of
  what was expected; the complaint that lies further in the text is kept. -/
  rewinds : ∀ k (s : State) e, s.At tokens k → s.current.kind = .leftParen → s.second.kind ≠ .keyword .selectKw →
    Production.read .group v (beforeGroup s) = .error e → (beforeGroup s).At tokens k ∧
      Production.read .negation v s = match Production.read .predicate v (beforeGroup s) with
        | .ok read => .ok read
        | .error e' => .error (if either.later e e' then e else e')

/-- Reading a text always goes on, and so comes to an end. -/
theorem reading_progresses (v : Version) (tokens : List Token) : Progresses v tokens where
  begins _ h := State.ofTokens_at (cut_of_tokensFor h).ended_by
  stands ended _ inside expected := exists_at ended inside expected
  sees _ _ hs := ⟨hs.current_get, hs.second_get, hs.reached_get⟩
  moves _ _ hs := ⟨hs.next, fun _ => hs.expecting⟩
  advances p k := by
    intro s a t hs ha
    obtain ⟨j, le, ht, kj⟩ := read_passes p k s a t hs ha
    exact ⟨j, le, ht, kj, ht.lt⟩
  calls := descends_read
  rounds := descends_loop
  callsEnd base p k n enough := descends_read.depth Production.level_lt base enough
  roundsEnd h base i k n enough := (descends_loop h).depth (fun _ => Nat.zero_lt_one) base (by simpa using enough)
  rewinds _ _ _ hs paren other fails := ⟨hs.expecting, negation_rewinds hs paren other fails⟩

end SkyQuery.Grammar
