import SkyQuery.Proofs.Grammar.Yields
import SkyQuery.Proofs.Token.Literals

/-!
# Tokens are what their kinds say

`tokensFor_lexed`: each token of a text is one of the version, and its text has the form that its
kind promises.
-/

namespace SkyQuery

namespace Lexer

/-- What the text of a token has to do with its kind, whatever the version. -/
def Matches (kind : Kind) (text : List Char) : Prop :=
  match kind with
  | .ident | .keyword _ => Text.isWord text = true
  | .quotedIdent => ∃ inner, text = '"' :: (inner ++ ['"'])
  | .integer | .decimal | .scientific => IsNumber kind text
  | _ => True

theorem symbol_matches (c : Char) (next : Option Char) (text : List Char) :
    Matches (symbol c next).1 text := by
  unfold symbol
  split <;> try trivial
  dsimp only
  split <;> trivial

theorem wordKind_matches {word : List Char} (h : Text.isWord word = true) :
    Matches (wordKind word) word := by
  unfold wordKind
  split <;> exact h

theorem number_kind (cs : List Char) : (number cs).1 = .integer ∨ (number cs).1 = .decimal ∨
    (number cs).1 = .scientific := by
  rw [number_eq]
  split
  · unfold mantissa
    split
    · exact .inr (.inl rfl)
    · exact .inl rfl
  · exact .inr (.inr rfl)

theorem startsNumber_take (cs : List Char) {n : Nat} (h : startsNumber cs = true)
    (reach : number cs = ((number cs).1, n)) : 0 < n ∧ startsNumber (cs.take n) = true := by
  cases cs with
  | nil => cases h
  | cons c rest =>
    cases digit : c.isDigit with
    | true =>
      have pos : 0 < n := by
        have whole : 0 < run Char.isDigit (c :: rest) := by simp [run, digit]
        have := congrArg Prod.snd reach
        rw [number_eq] at this
        have long : 0 < (mantissa (c :: rest)).2 := by
          unfold mantissa
          split <;> dsimp only <;> omega
        split at this <;> dsimp only at this <;> omega
      obtain ⟨m, rfl⟩ := Nat.exists_eq_add_of_lt pos
      refine ⟨pos, ?_⟩
      simp [startsNumber, digit]
    | false =>
      simp only [startsNumber, digit, Bool.false_or, Bool.and_eq_true, beq_iff_eq] at h
      obtain ⟨rfl, next⟩ := h
      cases rest with
      | nil => cases next
      | cons d tail =>
        have next : d.isDigit = true := next
        have whole : run Char.isDigit ('.' :: d :: tail) = 0 := rfl
        have long : 2 ≤ (mantissa ('.' :: d :: tail)).2 := by
          have : 0 < run Char.isDigit (d :: tail) := by simp [run, next]
          simp only [mantissa, whole, List.drop_zero]
          omega
        have two : 2 ≤ n := by
          have := congrArg Prod.snd reach
          rw [number_eq] at this
          split at this <;> dsimp only at this <;> omega
        obtain ⟨m, rfl⟩ := Nat.exists_eq_add_of_le two
        refine ⟨by omega, ?_⟩
        rw [Nat.add_comm]
        simp [startsNumber, next]

/-- The first token of a text has the form that its kind promises. -/
theorem first_matches (c : Char) (rest : List Char) :
    Matches (first c rest).1 (c :: rest.take (first c rest).2) := by
  unfold first
  split
  · trivial
  split
  · trivial
  split
  · rename_i letter
    apply wordKind_matches
    simp [Text.isWord, letter, take_run]
  split
  · rename_i quote
    dsimp only
    split
    · rename_i closed
      obtain ⟨inner, hinner⟩ := quotedLength_closed closed
      exact ⟨inner, by rw [hinner, eq_of_beq quote]⟩
    · trivial
  split
  · dsimp only
    split <;> trivial
  split
  · rename_i starts
    have reach : number (c :: rest) = ((number (c :: rest)).1, (number (c :: rest)).2) := rfl
    obtain ⟨pos, started⟩ := startsNumber_take (c :: rest) starts reach
    have short := number_le (c :: rest)
    have text : c :: rest.take ((number (c :: rest)).2 - 1) = (c :: rest).take (number (c :: rest)).2 := by
      rw [← List.take_succ_cons, Nat.sub_add_cancel pos]
    have whole : IsNumber (number (c :: rest)).1 ((c :: rest).take (number (c :: rest)).2) := by
      refine ⟨started, ?_⟩
      rw [number_take (Nat.le_refl _), List.length_take, Nat.min_eq_left short]
    dsimp only
    rw [text]
    rcases number_kind (c :: rest) with kind | kind | kind <;> rw [kind] at whole ⊢ <;> exact whole
  · exact symbol_matches _ _ _

theorem symbol_ne_end (c : Char) (next : Option Char) : (symbol c next).1 ≠ .endOfText := by
  unfold symbol
  split
  case h_18 => split <;> decide
  all_goals decide

/-- No character starts the token of the end of a text. -/
theorem first_ne_end (c : Char) (rest : List Char) : (first c rest).1 ≠ .endOfText := by
  unfold first
  split
  · exact Kind.noConfusion
  split
  · exact Kind.noConfusion
  split
  · show wordKind _ ≠ _
    unfold wordKind
    split <;> exact Kind.noConfusion
  split
  · dsimp only
    split <;> exact Kind.noConfusion
  split
  · dsimp only
    split <;> exact Kind.noConfusion
  split
  · dsimp only
    rcases number_kind (c :: rest) with kind | kind | kind <;> rw [kind] <;> exact Kind.noConfusion
  · exact symbol_ne_end c rest.head?

theorem lexFrom_matches (p : Place) (cs : List Char) :
    ∀ t ∈ lexFrom p cs, Matches t.kind t.text.toList := by
  fun_induction lexFrom p cs with
  | case1 => simp
  | case2 p c rest kind n hfirst text stop ih =>
    have shape := first_matches c rest
    rw [hfirst] at shape
    refine List.forall_mem_cons.2 ⟨?_, ih⟩
    simpa [text] using shape

theorem lexFrom_ne_end (p : Place) (cs : List Char) : ∀ t ∈ lexFrom p cs, t.kind ≠ .endOfText := by
  fun_induction lexFrom p cs with
  | case1 => simp
  | case2 p c rest kind n hfirst text stop ih =>
    have inside := first_ne_end c rest
    rw [hfirst] at inside
    exact List.forall_mem_cons.2 ⟨inside, ih⟩

theorem significant_subset {stopAtSemicolon : Bool} {p : Place} {ts us : List Token}
    (h : significant stopAtSemicolon p ts = .ok us) :
    ∀ u ∈ us, u ∈ ts ∨ u.kind = .endOfText := by
  induction ts generalizing p us with
  | nil =>
    cases h
    simp [Token.atEnd]
  | cons t rest ih =>
    unfold significant at h
    split at h
    · intro u hu
      exact (ih h u hu).imp_left (List.mem_cons_of_mem t)
    split at h
    · cases h
    split at h
    · cases h
      simp [Token.atEnd]
    · cases hrest : significant stopAtSemicolon t.stop rest with
      | error e => simp [hrest, Except.map] at h
      | ok vs =>
        rw [hrest] at h
        cases h
        refine List.forall_mem_cons.2 ⟨.inl List.mem_cons_self, fun u hu => ?_⟩
        exact (ih hrest u hu).imp_left (List.mem_cons_of_mem t)

end Lexer

namespace Grammar

/-- The kind of a token for a version, to which keywords that it does not know are words. -/
def settle (v : Version) (kind : Kind) : Kind :=
  if kind.isKeyword && !kind.availableIn v then .ident else kind

theorem settle_token (v : Version) (t : Token) :
    (if t.kind.isKeyword && !t.kind.availableIn v then { t with kind := .ident } else t) =
      { t with kind := settle v t.kind } := by
  unfold settle
  split <;> rfl

theorem settle_ne_end {v : Version} {kind : Kind} (h : kind ≠ .endOfText) : settle v kind ≠ .endOfText := by
  unfold settle
  split
  · exact Kind.noConfusion
  · exact h

theorem settle_lexed {v : Version} {t : Token} (h : Lexer.Matches t.kind t.text.toList) :
    Token.Lexed v { t with kind := settle v t.kind } := by
  obtain ⟨kind, text, start, stop⟩ := t
  cases kind with
  | keyword word =>
    cases available : word.availableIn v with
    | true => simp [Token.Lexed, settle, Kind.isKeyword, Kind.availableIn, available]
    | false =>
      have word : Text.isWord text.toList = true := h
      simpa [Token.Lexed, settle, Kind.isKeyword, Kind.availableIn, available] using word
  | _ => exact h

theorem ofTokens_lexed {v : Version} {tokens : List Token} (h : ∀ t ∈ tokens, t.Lexed v) :
    (State.ofTokens tokens).Lexed v := by
  cases tokens with
  | nil =>
    intro t ht
    obtain rfl := List.mem_singleton.1 ht
    trivial
  | cons t rest => exact h

/-- The tokens of a text are tokens of the version. -/
theorem tokensFor_lexed {v : Version} {text : String} {tokens : List Token}
    (h : tokensFor v text = .ok tokens) : (State.ofTokens tokens).Lexed v := by
  unfold tokensFor at h
  cases hraw : Lexer.tokenize text false with
  | error e => simp [hraw, Except.map] at h
  | ok raw =>
    rw [hraw] at h
    cases h
    have all : ∀ t ∈ raw.map fun t =>
        if t.kind.isKeyword && !t.kind.availableIn v then { t with kind := .ident } else t,
        t.Lexed v := by
      simp only [List.mem_map]
      rintro _ ⟨t, ht, rfl⟩
      rw [settle_token]
      rcases Lexer.significant_subset hraw t ht with raw | last
      · exact settle_lexed (Lexer.lexFrom_matches _ _ t raw)
      · exact settle_lexed (by simp [Lexer.Matches, last])
    exact ofTokens_lexed all

end Grammar

end SkyQuery
