import SkyQuery.Proofs.Parallel.Queries
import SkyQuery.Proofs.RoundTrip.Texts
import SkyQuery.Proofs.Token.Spaced

/-!
# White space and comments say nothing

`Entry.read_spaced`: a text is read, as a query or as one of its clauses, as the row of its tokens with single
spaces between them is: as the same tree at other places, or it is refused with the same complaint about
another place. Two texts with the same tokens have their tokens in the same order, and that is all of their
places that a reader looks at.
-/

namespace SkyQuery

open Grammar Parse

/-- A complaint without the place it points to. -/
def Diagnostic.unplaced (e : Diagnostic) : Diagnostic := { e with span := none }

/-- What is read from a text, or the complaint about it, without places. -/
def Entry.readUnplaced (v : Version) (text : String) (entry : Entry) : Except Diagnostic Fragment :=
  ((entry.read v text).map Fragment.unplaced).mapError Diagnostic.unplaced

/-! ### Two texts with the same tokens -/

namespace Grammar

variable {v : Version} {p p' : Place} {cs cs' : List Char} {ts ts' : List Token} {a b : String}

/-- Later tokens start later, and not at the same place. -/
theorem Cut.startOf_before (h : Cut v p cs ts) {i j : Nat} (ij : i < j) (hj : j < ts.length) :
    (startOf ts i).Before (startOf ts j) := by
  induction h generalizing i j with
  | ended p => exact absurd (Nat.zero_lt_of_lt ij) (by simpa using hj)
  | trivia seen next ih => exact ih ij hj
  | @token p c rest ts seen sound next ih =>
    obtain ⟨l, rfl⟩ : ∃ l, j = l + 1 := ⟨j - 1, by omega⟩
    have hl : l < ts.length := Nat.lt_of_succ_lt_succ hj
    cases i with
    | zero =>
      obtain ⟨between, -, -, -, start⟩ := next.drop hl
      rw [← Place.advanceAll_append, List.cons_append] at start
      change p.Before (startOf ts l)
      rw [start]
      exact p.before_advanceAll c _
    | succ i => exact ih (Nat.lt_of_succ_lt_succ ij) hl

theorem Cut.ordered (h : Cut v p cs ts) {i j : Nat} (hi : i < ts.length) (hj : j < ts.length) :
    (startOf ts i).Before (startOf ts j) ↔ i < j := by
  refine ⟨fun before => ?_, fun ij => h.startOf_before ij hj⟩
  by_contra later
  exact h.startOf_mono (Nat.le_of_not_lt later) hi before

theorem Cut.ne_nil (h : Cut v p cs ts) : ts ≠ [] := by
  induction h with
  | ended | token => exact List.cons_ne_nil _ _
  | trivia _ _ ih => exact ih

/-- The tokens of two texts stand for each other by their number. -/
def Matching.ofCuts (h : Cut v p cs ts) (h' : Cut v p' cs' ts') : Matching where
  starts q q' := ∃ i, i < ts.length ∧ i < ts'.length ∧ startOf ts i = q ∧ startOf ts' i = q'
  ordered := by
    rintro _ _ _ _ ⟨i, hi, hi', rfl, rfl⟩ ⟨j, hj, hj', rfl, rfl⟩
    rw [h.ordered hi hj, h'.ordered hi' hj']

theorem startOf_getElem {i : Nat} (hi : i < ts.length) : startOf ts i = ts[i].start := by
  rw [startOf, List.head?_drop, List.getElem?_eq_getElem hi]
  rfl

theorem Matching.forall_ofCuts (h : Cut v p cs ts) (h' : Cut v p' cs' ts')
    (words : ts'.map Token.word = ts.map Token.word) :
    List.Forall₂ (Matching.ofCuts h h').Tokens ts ts' := by
  have length : ts'.length = ts.length := by simpa using congrArg List.length words
  refine List.forall₂_iff_get.2 ⟨length.symm, fun i hi hi' => ?_⟩
  have word : ts'[i].word = ts[i].word := by
    have same := List.getElem_of_eq words (show i < (ts'.map Token.word).length by simpa using hi')
    simpa using same
  refine ⟨congrArg Prod.fst word, congrArg Prod.snd word, i, hi, hi', startOf_getElem hi, startOf_getElem hi'⟩

/-- Texts with the same tokens have the same tokens in each version. -/
theorem tokensFor_words (h : Lexer.tokenize a false = .ok ts) (h' : Lexer.tokenize b false = .ok ts')
    (words : ts'.map Token.word = ts.map Token.word) (v : Version) :
    ∃ us us', tokensFor v a = .ok us ∧ tokensFor v b = .ok us' ∧ us'.map Token.word = us.map Token.word := by
  refine ⟨_, _, by rw [tokensFor, h]; rfl, by rw [tokensFor, h']; rfl, ?_⟩
  have settled (ts : List Token) : (ts.map fun t =>
      if t.kind.isKeyword && !t.kind.availableIn v then { t with kind := .ident } else t).map Token.word =
      (ts.map Token.word).map fun w => (settle v w.1, w.2) := by
    simp only [settle_token, List.map_map]
    rfl
  rw [settled, settled, words]

/-! ### Whole texts -/

theorem parallel_whole {m : Matching} {α β : Type} {Q : α → β → Prop} {q : Parse α} {q' : Parse β}
    (h : Parallel m v Q q q') : Parallel m v Q (whole q) (whole q') := by
  refine h.bind fun a a' found => .eatIf (.expect fun _ _ _ => parallel_pure found) ?_
  exact .seesIf (parallel_pure found) parallel_unexpected

/-- What a reader finds in a text, without places, it finds in every text with the same tokens. -/
theorem readWhole_words {α γ : Type} {reader : Parse α} {wrap : α → Fragment} {view : α → γ}
    (reads : ∀ m, Parallel m v (Alike view) reader reader)
    (views : ∀ x x', view x' = view x → (wrap x').unplaced = (wrap x).unplaced)
    (h : Lexer.tokenize a false = .ok ts) (h' : Lexer.tokenize b false = .ok ts')
    (words : ts'.map Token.word = ts.map Token.word) :
    (((readWhole reader v b).map wrap).map Fragment.unplaced).mapError Diagnostic.unplaced =
      (((readWhole reader v a).map wrap).map Fragment.unplaced).mapError Diagnostic.unplaced := by
  obtain ⟨us, us', hus, hus', words⟩ := tokensFor_words h h' words v
  have cut := cut_of_tokensFor hus
  have cut' := cut_of_tokensFor hus'
  -- The tokens at the same index match, and with them the states before the first token.
  have tokens := Matching.forall_ofCuts cut cut' words
  have states : (Matching.ofCuts cut cut').States (State.ofTokens us) (State.ofTokens us') := by
    cases tokens with
    | nil => exact absurd rfl cut.ne_nil
    | cons first rest => exact ⟨first, rest, rfl⟩
  have ends := parallel_whole (reads _) _ _ states
  rw [readWhole_tokens hus, readWhole_tokens hus']
  generalize whole reader v (State.ofTokens us) = r, whole reader v (State.ofTokens us') = r' at ends
  cases ends with
  | read found left => exact congrArg Except.ok (views _ _ found)
  | @refused e e' complaint =>
    refine congrArg Except.error ?_
    obtain ⟨code, message, hint, -⟩ := complaint
    obtain ⟨_, _, _, _⟩ := e
    obtain ⟨_, _, _, _⟩ := e'
    simp_all [Diagnostic.unplaced]

theorem parallel_whereClause {m : Matching} : ParallelCondition m v whereClause whereClause :=
  .expect fun _ _ _ => parallel_condition parallel_subquery

end Grammar

/-- A text that is cut into tokens, and the row of these tokens with single spaces between them, are cut into the same
tokens, and they are read alike in every version and as every kind of text. -/
theorem Entry.read_spaced {text : String} {tokens : List Token} (h : Lexer.tokenize text false = .ok tokens) :
    (∃ tokens', Lexer.tokenize (Lexer.spaced tokens) false = .ok tokens' ∧
      tokens'.map Token.word = tokens.map Token.word) ∧
    ∀ (entry : Entry) (v : Version), entry.readUnplaced v (Lexer.spaced tokens) = entry.readUnplaced v text := by
  have again := Lexer.tokenize_spaced h
  refine ⟨again, fun entry v => ?_⟩
  obtain ⟨tokens', h', words⟩ := again
  cases entry with
  | query => exact readWhole_words (fun _ => parallel_query) (fun _ _ => congrArg Fragment.query) h h' words
  | select => exact readWhole_words (fun _ => parallel_selectClause) (fun _ _ => congrArg Fragment.select) h h' words
  | source =>
    exact readWhole_words (fun _ => parallel_fromClause parallel_subquery) (fun _ _ => congrArg Fragment.source) h h' words
  | filter => exact readWhole_words (fun _ => parallel_whereClause) (fun _ _ => congrArg Fragment.filter) h h' words
  | orderBy => exact readWhole_words (fun _ => parallel_orderByClause) (fun _ _ => congrArg Fragment.orderBy) h h' words
  | groupBy => exact readWhole_words (fun _ => parallel_groupByClause) (fun _ _ => congrArg Fragment.groupBy) h h' words

/-- The comment goes, and the minus sign after it stays apart from what precedes it. -/
theorem Entry.read_spaced_comment :
    let text := "SELECT 1 - -- 2\n-a,'b'\t'c''d' FROM t"
    ∃ tokens, Lexer.tokenize text false = .ok tokens ∧ Lexer.spaced tokens = "SELECT 1 - - a , 'b' 'c''d' FROM t" ∧
      ∀ (entry : Entry) (v : Version), entry.readUnplaced v (Lexer.spaced tokens) = entry.readUnplaced v text := by
  intro text
  have row : (Lexer.tokenize text false).toOption.map Lexer.spaced = some "SELECT 1 - - a , 'b' 'c''d' FROM t" := by
    decide +kernel
  obtain ⟨tokens, cut, shown⟩ := Option.map_eq_some_iff.1 row
  have h := toOption_eq_some_iff.1 cut
  exact ⟨tokens, h, shown, (Entry.read_spaced h).2⟩

end SkyQuery
