import Mathlib.Tactic.ByContra
import SkyQuery.Proofs.Source.Places
import SkyQuery.Proofs.Token.Scan

/-!
# Slices of texts

`Span.slice` is the piece of a text that a span stands for. A slice from the start of one token to the
stop of a later one is cut into the same tokens again: `slice_of_cut`.
-/

namespace SkyQuery

/-! ### The piece of a text -/

namespace Span

/-- Whether a place lies in a span, whose last place is exclusive. -/
def holds (s : Span) (p : Place) : Bool := !before (p.line, p.column) s.first && before (p.line, p.column) s.last

/-- The characters of a text that starts at the place `p` whose places lie in a span. -/
def sliceFrom (s : Span) (p : Place) : List Char → List Char
  | [] => []
  | c :: rest => if s.holds p then c :: sliceFrom s (p.advance c) rest else sliceFrom s (p.advance c) rest

/-- The piece of a text that a span stands for. -/
def slice (s : Span) (text : String) : String := String.ofList (s.sliceFrom .origin text.toList)

theorem holds_between {first last p : Place} :
    (between first last).holds p = true ↔ ¬p.Before first ∧ p.Before last := by
  rw [holds, Bool.and_eq_true, Bool.not_eq_true', ← Bool.not_eq_true]
  exact and_congr (not_congr before_iff) before_iff

theorem sliceFrom_append (s : Span) (p : Place) (a b : List Char) :
    s.sliceFrom p (a ++ b) = s.sliceFrom p a ++ s.sliceFrom (p.advanceAll a) b := by
  induction a generalizing p with
  | nil => rfl
  | cons c rest ih =>
    have tail := ih (p.advance c)
    rw [List.cons_append, sliceFrom, sliceFrom, tail]
    split <;> rfl

theorem sliceFrom_before {first last : Place} (p : Place) (a : List Char) (h : first = p.advanceAll a) :
    (between first last).sliceFrom p a = [] := by
  induction a generalizing p with
  | nil => rfl
  | cons c rest ih =>
    rw [sliceFrom, if_neg, ih (p.advance c) h]
    rw [holds_between, h]
    exact fun inside => inside.1 (p.before_advanceAll c rest)

theorem sliceFrom_inside {first last : Place} (p : Place) (a : List Char) (from' : ¬p.Before first)
    (h : last = p.advanceAll a) : (between first last).sliceFrom p a = a := by
  induction a generalizing p with
  | nil => rfl
  | cons c rest ih =>
    have later : ¬(p.advance c).Before first := fun h => from' ((p.before_advance c).trans h)
    rw [sliceFrom, if_pos, ih (p.advance c) later h]
    rw [holds_between, h]
    exact ⟨from', p.before_advanceAll c rest⟩

theorem sliceFrom_after {first last : Place} (p : Place) (a : List Char) (h : ¬p.Before last) :
    (between first last).sliceFrom p a = [] := by
  induction a generalizing p with
  | nil => rfl
  | cons c rest ih =>
    have later : ¬(p.advance c).Before last := fun before => h ((p.before_advance c).trans before)
    rw [sliceFrom, if_neg, ih (p.advance c) later]
    rw [holds_between]
    exact fun inside => h inside.2

/-- The piece between two places of a text. -/
theorem sliceFrom_between (p : Place) (a b c : List Char) :
    (between (p.advanceAll a) (p.advanceAll (a ++ b))).sliceFrom p (a ++ b ++ c) = b := by
  have start : ¬(p.advanceAll a).Before (p.advanceAll a) := (p.advanceAll a).not_advanceAll_before []
  have stop : ¬(p.advanceAll (a ++ b)).Before (p.advanceAll (a ++ b)) :=
    (p.advanceAll (a ++ b)).not_advanceAll_before []
  rw [sliceFrom_append, sliceFrom_append, sliceFrom_before p a rfl, sliceFrom_after _ c stop,
    sliceFrom_inside _ b start (p.advanceAll_append a b), List.nil_append, List.append_nil]

/-- The piece stands in the text with exactly this span, and starts with a token. -/
structure Covers (s : Span) (text piece : String) : Prop where
  stands : ∃ before after, text = before ++ piece ++ after ∧
    s = between (Place.origin.advanceAll before.toList) (Place.origin.advanceAll (before ++ piece).toList)
  starts : ∃ c rest, piece.toList = c :: rest ∧ (Lexer.first c rest).1.isTrivia = false

end Span

/-! ### Tokens of a part of a text -/

namespace Lexer

theorem head?_take {α : Type} {n : Nat} (h : 0 < n) (as : List α) : (as.take n).head? = as.head? := by
  obtain ⟨m, rfl⟩ := Nat.exists_eq_add_of_lt h
  cases as <;> simp

theorem quotedLength_pos (quote c : Char) (rest : List Char) : 0 < (quotedLength quote (c :: rest)).1 := by
  cases rest with
  | nil => exact Nat.one_pos
  | cons d rest =>
    rw [quotedLength]
    repeat' split
    all_goals exact Nat.succ_pos _

/-- A closed quoted text is found again in any part of the text that holds it. -/
theorem quotedLength_take {quote : Char} {cs : List Char} {n : Nat} (closed : (quotedLength quote cs).2 = true)
    (h : (quotedLength quote cs).1 ≤ n) : quotedLength quote (cs.take n) = quotedLength quote cs := by
  fun_induction quotedLength quote cs generalizing n with
  | case1 => rw [List.take_nil, quotedLength]
  | case2 c => rw [List.take_of_length_le h, quotedLength]
  | case3 c d rest hc hd tail =>
    rename_i ih
    obtain ⟨m, rfl⟩ : ∃ m, n = m + 2 := ⟨n - 2, by omega⟩
    rw [List.take_succ_cons, List.take_succ_cons, quotedLength, if_pos hc, if_pos hd,
      ih closed (Nat.le_of_add_le_add_right h)]
  | case4 c d rest hc hd =>
    obtain _ | _ | n := n
    · cases h
    · exact Prod.ext rfl hc
    · rw [List.take_succ_cons, List.take_succ_cons, quotedLength, if_pos hc, if_neg hd]
  | case5 c d rest hc tail =>
    rename_i ih
    have some := quotedLength_pos quote d rest
    have h : (quotedLength quote (d :: rest)).1 + 1 ≤ n := h
    obtain ⟨m, rfl⟩ : ∃ m, n = m + 2 := ⟨n - 2, by omega⟩
    have same := ih closed (Nat.le_of_succ_le_succ h)
    rw [List.take_succ_cons] at same
    rw [List.take_succ_cons, List.take_succ_cons, quotedLength, if_neg hc, same]

theorem symbol_none {c : Char} {next : Option Char} (alone : (symbol c next).2 = false) : symbol c none = symbol c next := by
  unfold symbol at alone ⊢
  split at alone <;> first | rfl | (cases alone; done) | (split <;> first | rfl | simp_all)

/-- A number that starts with a point goes on with a digit. -/
theorem number_point {rest : List Char} (h : startsNumber ('.' :: rest) = true) : 2 ≤ (number ('.' :: rest)).2 := by
  have reach : number ('.' :: rest) = ((number ('.' :: rest)).1, (number ('.' :: rest)).2) := rfl
  obtain ⟨some, started⟩ := startsNumber_take ('.' :: rest) h reach
  by_contra short
  rw [show (number ('.' :: rest)).2 = 1 by omega] at started
  cases started

theorem closed_of_sound {kind : Kind} (sound : kind.isFault = false) : kind ≠ .openString ∧ kind ≠ .openIdent := by
  constructor <;> rintro rfl <;> cases sound

/-- A token that is no open literal is found again in any part of the text that holds it. -/
theorem first_take {c : Char} {rest : List Char} {n : Nat}
    (shut : (first c rest).1 ≠ .openString ∧ (first c rest).1 ≠ .openIdent)
    (h : (first c rest).2 ≤ n) : first c (rest.take n) = first c rest := by
  by_cases space : isSpace c = true
  · simp only [first, if_pos space] at h ⊢
    rw [run_take, Nat.min_eq_left h]
  by_cases dash : (c == '-' && rest.head? == some '-') = true
  · simp only [first, if_neg space, if_pos dash] at h ⊢
    have some : 0 < run (· != '\n') rest := by
      cases rest with
      | nil => simp at dash
      | cons d tail =>
        have next : d = '-' := by simpa using (Bool.and_eq_true_iff.1 dash).2
        simp [run, next]
    rw [head?_take (Nat.lt_of_lt_of_le some h), if_pos dash, run_take, Nat.min_eq_left h]
  -- The cut may take the second dash of a comment away, but adds none.
  have dash' : ¬(c == '-' && (rest.take n).head? == some '-') = true := by
    cases n with
    | zero => simp
    | succ n => rwa [head?_take (Nat.succ_pos n)]
  by_cases letter : Text.isLetter c = true
  · simp only [first, if_neg space, if_neg dash, if_neg dash', if_pos letter] at h ⊢
    rw [run_take, Nat.min_eq_left h, List.take_take, Nat.min_eq_left h]
  by_cases double : (c == '"') = true
  · simp only [first, if_neg space, if_neg dash, if_neg dash', if_neg letter, if_pos double] at shut h ⊢
    have closed : (quotedLength '"' rest).2 = true := (ite_ne_right_iff.1 shut.2).1
    rw [quotedLength_take closed h]
  by_cases single : (c == '\'') = true
  · simp only [first, if_neg space, if_neg dash, if_neg dash', if_neg letter, if_neg double, if_pos single] at shut h ⊢
    have closed : (quotedLength '\'' rest).2 = true := (ite_ne_right_iff.1 shut.1).1
    rw [quotedLength_take closed h]
  simp only [first, if_neg space, if_neg dash, if_neg dash', if_neg letter, if_neg double, if_neg single] at h ⊢
  have same (some : 0 < n) : (rest.take n).head? = rest.head? := head?_take some rest
  by_cases digits : (c.isDigit || (c == '.' && (rest.head?.map Char.isDigit).getD false)) = true
  · have digits' : (c.isDigit || (c == '.' && ((rest.take n).head?.map Char.isDigit).getD false)) = true := by
      rcases Bool.or_eq_true_iff.1 digits with digit | point
      · rw [digit, Bool.true_or]
      · obtain ⟨point, next⟩ := Bool.and_eq_true_iff.1 point
        obtain rfl := eq_of_beq point
        have long : 2 ≤ (number ('.' :: rest)).2 := number_point (by cases rest <;> simp_all [startsNumber])
        rw [if_pos digits] at h
        dsimp only at h
        rw [same (by omega)]
        exact digits
    rw [if_pos digits] at h
    rw [if_pos digits, if_pos digits', ← List.take_succ_cons, number_take (Nat.le_add_of_sub_le h)]
  · have digits' : ¬(c.isDigit || (c == '.' && ((rest.take n).head?.map Char.isDigit).getD false)) = true := by
      cases n with
      | zero => simp_all
      | succ n => rwa [same (Nat.succ_pos n)]
    rw [if_neg digits] at h
    rw [if_neg digits, if_neg digits']
    cases n with
    | succ n => rw [same (Nat.succ_pos n)]
    | zero =>
      -- Nothing may stand behind `c`, so it was a symbol of its own.
      have alone : (symbol c rest.head?).2 = false := by
        cases both : (symbol c rest.head?).2 with
        | false => rfl
        | true =>
          rw [both] at h
          exact absurd h (Nat.not_succ_le_zero 0)
      rw [List.take_zero, List.head?_nil, symbol_none alone]

end Lexer

/-! ### Tokens by their number -/

namespace Grammar

/-- The words of the tokens of a text, of which the last is the end of the text. -/
def wordsBefore (tokens : List Token) : List Word := tokens.dropLast.map Token.word

/-- The words of the tokens from `i` to `j`. -/
def piece (tokens : List Token) (i j : Nat) : List Word := ((wordsBefore tokens).drop i).take (j - i)

/-- Where the token `i` starts. -/
def startOf (tokens : List Token) (i : Nat) : Place := ((tokens.drop i).head?.map Token.start).getD .origin

/-- Where the last token before `j` stops. -/
def stopBefore (tokens : List Token) (j : Nat) : Place :=
  ((tokens.take j).getLast?.map Token.stop).getD (startOf tokens 0)

/-- The span of the tokens from `i` to `j`. -/
def spanOf (tokens : List Token) (i j : Nat) : Span := .between (startOf tokens i) (stopBefore tokens j)

/-- The tokens that the grammar reads from a text that starts at the place `p`. -/
inductive Cut (v : Version) : Place → List Char → List Token → Prop where
  | ended (p : Place) : Cut v p [] [.atEnd p]
  | trivia {p : Place} {c : Char} {rest : List Char} {ts : List Token} (seen : (Lexer.first c rest).1.isTrivia = true)
    (next : Cut v (p.advanceAll (c :: rest.take (Lexer.first c rest).2)) (rest.drop (Lexer.first c rest).2) ts) :
    Cut v p (c :: rest) ts
  | token {p : Place} {c : Char} {rest : List Char} {ts : List Token} (seen : (Lexer.first c rest).1.isTrivia = false)
    (sound : (Lexer.first c rest).1.isFault = false)
    (next : Cut v (p.advanceAll (c :: rest.take (Lexer.first c rest).2)) (rest.drop (Lexer.first c rest).2) ts) :
    Cut v p (c :: rest) (⟨settle v (Lexer.first c rest).1, String.ofList (c :: rest.take (Lexer.first c rest).2), p,
      p.advanceAll (c :: rest.take (Lexer.first c rest).2)⟩ :: ts)

variable {v : Version} {p : Place} {cs : List Char} {ts : List Token}

theorem cut_of_significant {us : List Token} (h : Lexer.significant false p (Lexer.lexFrom p cs) = .ok us) :
    Cut v p cs (us.map fun u => { u with kind := settle v u.kind }) := by
  fun_induction Lexer.lexFrom p cs generalizing us with
  | case1 p =>
    cases h
    exact .ended p
  | case2 p c rest kind n hfirst text stop =>
    rename_i ih
    obtain ⟨rfl, rfl⟩ : kind = (Lexer.first c rest).1 ∧ n = (Lexer.first c rest).2 := by rw [hfirst]; exact ⟨rfl, rfl⟩
    unfold Lexer.significant at h
    split at h
    · rename_i seen
      exact .trivia seen (ih h)
    split at h
    · cases h
    rename_i seen sound
    rw [Bool.false_and, if_neg Bool.false_ne_true] at h
    cases hus : Lexer.significant false stop (Lexer.lexFrom stop (rest.drop (Lexer.first c rest).2)) with
    | error e =>
      rw [hus] at h
      cases h
    | ok others =>
      rw [hus] at h
      cases h
      exact .token (Bool.not_eq_true _ ▸ seen) (Bool.not_eq_true _ ▸ sound) (ih hus)

theorem cut_of_tokensFor {text : String} (h : tokensFor v text = .ok ts) : Cut v .origin text.toList ts := by
  unfold tokensFor Lexer.tokenize Lexer.lex at h
  cases hus : Lexer.significant false .origin (Lexer.lexFrom .origin text.toList) with
  | error e =>
    rw [hus] at h
    cases h
  | ok us =>
    rw [hus] at h
    cases h
    simp only [settle_token]
    exact cut_of_significant hus

theorem cons_eq_of_drop {c : Char} {rest a b : List Char} {n : Nat} (cut : rest.drop n = a ++ b) :
    c :: rest = c :: rest.take n ++ a ++ b := by
  rw [List.append_assoc, ← cut, List.cons_append, List.take_append_drop]

/-- From the start of a token on the rest of the text is cut in the same way. -/
theorem Cut.drop (h : Cut v p cs ts) {i : Nat} (hi : i < ts.length) :
    ∃ a b, cs = a ++ b ∧ Cut v (p.advanceAll a) b (ts.drop i) ∧ startOf ts i = p.advanceAll a := by
  induction h generalizing i with
  | ended p =>
    obtain rfl : i = 0 := Nat.lt_one_iff.1 hi
    exact ⟨[], [], rfl, .ended p, rfl⟩
  | @trivia p c rest ts seen next ih =>
    obtain ⟨a, b, cut, later, start⟩ := ih hi
    refine ⟨c :: rest.take (Lexer.first c rest).2 ++ a, b, ?_, ?_, ?_⟩
    · exact cons_eq_of_drop cut
    · rwa [Place.advanceAll_append]
    · rwa [Place.advanceAll_append]
  | @token p c rest ts seen sound next ih =>
    cases i with
    | zero => exact ⟨[], c :: rest, rfl, .token seen sound next, rfl⟩
    | succ i =>
      obtain ⟨a, b, cut, later, start⟩ := ih (Nat.lt_of_succ_lt_succ hi)
      refine ⟨c :: rest.take (Lexer.first c rest).2 ++ a, b, ?_, ?_, ?_⟩
      · exact cons_eq_of_drop cut
      · rwa [Place.advanceAll_append]
      · rwa [Place.advanceAll_append]

/-- A token that a part of the text holds is the first token of that part. -/
theorem scan_token {c : Char} {rest a b : List Char} (sound : (Lexer.first c rest).1.isFault = false)
    (cut : rest.drop (Lexer.first c rest).2 = a ++ b) :
    scan v (c :: rest.take (Lexer.first c rest).2 ++ a) = if (Lexer.first c rest).1.isTrivia then scan v a
      else (scan v a).map
        ((settle v (Lexer.first c rest).1, String.ofList (c :: rest.take (Lexer.first c rest).2)) :: ·) := by
  have part : rest.take (Lexer.first c rest).2 ++ a = rest.take ((Lexer.first c rest).2 + a.length) := by
    rw [List.take_add, cut, List.take_left]
  have again := Lexer.first_take (Lexer.closed_of_sound sound) (Nat.le_add_right _ a.length)
  rw [List.cons_append, part, scan_cons, again, sound, List.drop_take, Nat.add_sub_cancel_left, cut, List.take_left,
    List.take_take, Nat.min_eq_left (Nat.le_add_right _ _)]
  rfl

theorem stopBefore_cons (t : Token) {n : Nat} (pos : 0 < n) (hn : n < ts.length) :
    stopBefore (t :: ts) (n + 1) = stopBefore ts n := by
  unfold stopBefore
  rw [List.take_succ_cons]
  cases part : ts.take n with
  | nil =>
    have length := congrArg List.length part
    rw [List.length_take, List.length_nil] at length
    omega
  | cons u others =>
    rw [List.getLast?_cons_cons, List.getLast?_eq_some_getLast (List.cons_ne_nil u others)]
    rfl

/-- Up to the stop of a token a text is cut into the same tokens. -/
theorem Cut.take (h : Cut v p cs ts) {n : Nat} (pos : 0 < n) (hn : n < ts.length) :
    ∃ a b, cs = a ++ b ∧ stopBefore ts n = p.advanceAll a ∧ scan v a = some ((ts.take n).map Token.word) := by
  induction h generalizing n with
  | ended p => exact absurd hn (by simp; omega)
  | @trivia p c rest ts seen next ih =>
    obtain ⟨a, b, cut, stop, words⟩ := ih pos hn
    have sound : (Lexer.first c rest).1.isFault = false := by
      cases kind : (Lexer.first c rest).1 <;> rw [kind] at seen <;> first | rfl | cases seen
    refine ⟨c :: rest.take (Lexer.first c rest).2 ++ a, b, ?_, ?_, ?_⟩
    · exact cons_eq_of_drop cut
    · rwa [Place.advanceAll_append]
    · rwa [scan_token sound cut, if_pos seen]
  | @token p c rest ts seen sound next ih =>
    obtain _ | _ | n := n
    · cases pos
    · refine ⟨c :: rest.take (Lexer.first c rest).2, rest.drop (Lexer.first c rest).2, ?_, rfl, ?_⟩
      · rw [List.cons_append, List.take_append_drop]
      · have alone := scan_token (v := v) (a := []) sound rfl
        rw [List.append_nil] at alone
        rw [alone, seen, scan_nil]
        rfl
    · have hn : n + 1 < ts.length := Nat.lt_of_succ_lt_succ hn
      obtain ⟨a, b, cut, stop, words⟩ := ih (Nat.succ_pos n) hn
      refine ⟨c :: rest.take (Lexer.first c rest).2 ++ a, b, ?_, ?_, ?_⟩
      · exact cons_eq_of_drop cut
      · rwa [Place.advanceAll_append, stopBefore_cons _ (Nat.succ_pos n) hn]
      · rw [scan_token sound cut, seen, words]
        rfl

theorem stopBefore_drop {i j : Nat} (ij : i < j) (hj : j < ts.length) :
    stopBefore (ts.drop i) (j - i) = stopBefore ts j := by
  induction i generalizing j ts with
  | zero => rfl
  | succ i ih =>
    cases ts with
    | nil => cases hj
    | cons t ts =>
      obtain ⟨l, rfl⟩ : ∃ l, j = l + 1 := ⟨j - 1, by omega⟩
      have il : i < l := Nat.lt_of_succ_lt_succ ij
      have hl : l < ts.length := Nat.lt_of_succ_lt_succ hj
      rw [List.drop_succ_cons, Nat.add_sub_add_right, ih il hl, stopBefore_cons t (Nat.zero_lt_of_lt il) hl]

theorem piece_eq {i j : Nat} (hj : j < ts.length) : piece ts i j = ((ts.drop i).take (j - i)).map Token.word := by
  have short : j - i ≤ ts.length - 1 - i := by omega
  rw [piece, wordsBefore, List.dropLast_eq_take, ← List.map_drop, ← List.map_take, List.drop_take, List.take_take,
    Nat.min_eq_left short]

theorem Cut.startOf_mono (h : Cut v p cs ts) {i j : Nat} (ij : i ≤ j) (hj : j < ts.length) :
    ¬(startOf ts j).Before (startOf ts i) := by
  obtain ⟨a, b, -, later, start⟩ := h.drop (Nat.lt_of_le_of_lt ij hj)
  obtain ⟨a', b', -, -, start'⟩ := later.drop (show j - i < (ts.drop i).length by rw [List.length_drop]; omega)
  have same : startOf (ts.drop i) (j - i) = startOf ts j := by
    rw [startOf, startOf, List.drop_drop, Nat.add_sub_cancel' ij]
  rw [← same, start', ← start]
  exact (startOf ts i).not_advanceAll_before a'

theorem Cut.stopBefore_mono (h : Cut v p cs ts) {i j : Nat} (ij : i ≤ j) (hj : j < ts.length) :
    ¬(stopBefore ts j).Before (stopBefore ts i) := by
  rcases Nat.eq_or_lt_of_le ij with rfl | later
  · exact (stopBefore ts i).not_advanceAll_before []
  clear ij
  cases i with
  | zero =>
    obtain ⟨a, b, -, next, start⟩ := h.drop (Nat.zero_lt_of_lt hj)
    obtain ⟨a', b', -, stop, -⟩ := next.take later hj
    rw [show stopBefore ts 0 = startOf ts 0 from rfl, start, show stopBefore ts j = _ from stop]
    exact (p.advanceAll a).not_advanceAll_before a'
  | succ i =>
    induction h generalizing i j with
    | ended p => exact absurd hj (by simp; omega)
    | trivia seen next ih => exact ih hj i later
    | token seen sound next ih =>
      obtain ⟨l, rfl⟩ : ∃ l, j = l + 1 := ⟨j - 1, by omega⟩
      have il : i < l := Nat.lt_of_succ_lt_succ later
      have hl := Nat.lt_of_succ_lt_succ hj
      rw [stopBefore_cons _ (Nat.zero_lt_of_lt il) hl]
      cases i with
      | zero =>
        obtain ⟨a, b, -, stop, -⟩ := next.take il hl
        rw [stop]
        exact Place.not_advanceAll_before _ a
      | succ i =>
        rw [stopBefore_cons _ (Nat.succ_pos i) (Nat.lt_trans il hl)]
        exact ih hl i il

/-- A range of tokens is cut out of the text from the start of its first token to the stop of its last. -/
theorem Cut.range {text : String} (h : Cut v .origin text.toList ts) {i j : Nat} (ij : i < j) (hj : j < ts.length) :
    ∃ a b c, text.toList = a ++ b ++ c ∧ startOf ts i = Place.origin.advanceAll a ∧
      stopBefore ts j = Place.origin.advanceAll (a ++ b) ∧ Cut v (Place.origin.advanceAll a) (b ++ c) (ts.drop i) ∧
      scan v b = some (piece ts i j) := by
  obtain ⟨a, rest, cut, later, start⟩ := h.drop (Nat.lt_trans ij hj)
  obtain ⟨b, c, rfl, stop, words⟩ := later.take (Nat.sub_pos_of_lt ij) (by rw [List.length_drop]; omega)
  rw [stopBefore_drop ij hj, ← Place.advanceAll_append] at stop
  exact ⟨a, b, c, by rw [cut, List.append_assoc], start, stop, later, by rw [words, piece_eq hj]⟩

theorem slice_of_range {text : String} {a b c : List Char} {i j : Nat} (cut : text.toList = a ++ b ++ c)
    (start : startOf ts i = Place.origin.advanceAll a) (stop : stopBefore ts j = Place.origin.advanceAll (a ++ b)) :
    (spanOf ts i j).slice text = String.ofList b := by
  rw [Span.slice, spanOf, start, stop, cut, Span.sliceFrom_between]

/-- A slice from the start of one token to the stop of a later one has the words of these tokens. -/
theorem slice_of_cut {text : String} (h : Cut v .origin text.toList ts) {i j : Nat} (ij : i < j) (hj : j < ts.length) :
    scan v ((spanOf ts i j).slice text).toList = some (piece ts i j) := by
  obtain ⟨a, b, c, cut, start, stop, -, words⟩ := h.range ij hj
  rw [slice_of_range cut start stop, String.toList_ofList, words]

/-! ### Pieces that start with a token -/

/-- Where the first token starts a text, it is the first thing that is found there. -/
theorem Cut.begins (h : Cut v p cs ts) (start : startOf ts 0 = p) (more : 1 < ts.length) :
    ∃ c rest, cs = c :: rest ∧ (Lexer.first c rest).1.isTrivia = false ∧ (Lexer.first c rest).1.isFault = false ∧
      stopBefore ts 1 = p.advanceAll (c :: rest.take (Lexer.first c rest).2) := by
  cases h with
  | ended => exact absurd more (by simp)
  | @trivia _ c rest _ seen next =>
    obtain ⟨a, b, -, -, later⟩ := next.drop (Nat.zero_lt_of_lt more)
    rw [start] at later
    have back := (p.advanceAll (c :: rest.take (Lexer.first c rest).2)).not_advanceAll_before a
    rw [← later] at back
    exact absurd (p.before_advanceAll c _) back
  | @token _ c rest _ seen sound next => exact ⟨c, rest, rfl, seen, sound, rfl⟩

/-- A piece that starts with a token still does where it is all of a text. -/
theorem Cut.begins_piece {b c : List Char} (h : Cut v p (b ++ c) ts) (start : startOf ts 0 = p) {n : Nat} (pos : 0 < n)
    (hn : n < ts.length) (stop : stopBefore ts n = p.advanceAll b) :
    ∃ x rest, b = x :: rest ∧ (Lexer.first x rest).1.isTrivia = false := by
  obtain ⟨x, rest, split, seen, sound, reach⟩ := h.begins start (Nat.lt_of_le_of_lt pos hn)
  have within : x :: rest.take (Lexer.first x rest).2 <+: b ++ c := by
    rw [split]
    exact List.cons_prefix_cons.2 ⟨rfl, List.take_prefix ..⟩
  have reached : ¬(p.advanceAll b).Before (p.advanceAll (x :: rest.take (Lexer.first x rest).2)) := by
    rw [← reach, ← stop]
    exact h.stopBefore_mono pos hn
  obtain ⟨others, rfl⟩ := Place.prefix_of_not_before within (List.prefix_append ..) reached
  have left : rest.drop (Lexer.first x rest).2 = others ++ c := by
    simp only [List.cons_append, List.append_assoc, List.cons.injEq, true_and] at split
    exact List.append_cancel_left ((List.take_append_drop _ _).trans split.symm)
  have part : rest.take ((Lexer.first x rest).2 + others.length) = rest.take (Lexer.first x rest).2 ++ others := by
    rw [List.take_add, left, List.take_left]
  refine ⟨x, rest.take (Lexer.first x rest).2 ++ others, rfl, ?_⟩
  rw [← part, Lexer.first_take (Lexer.closed_of_sound sound) (Nat.le_add_right ..)]
  exact seen

/-- The span of a range of tokens is that of a piece of the text, which starts with the first of them. -/
theorem Cut.covers {text : String} (h : Cut v .origin text.toList ts) {i j : Nat} (ij : i < j) (hj : j < ts.length) :
    (spanOf ts i j).Covers text ((spanOf ts i j).slice text) := by
  obtain ⟨a, b, c, cut, start, stop, later, -⟩ := h.range ij hj
  rw [slice_of_range cut start stop]
  constructor
  · refine ⟨String.ofList a, String.ofList c, ?_, ?_⟩
    · rw [← String.toList_inj]
      simp [cut]
    · rw [spanOf, start, stop]
      simp
  · have length : j - i < (ts.drop i).length := by
      rw [List.length_drop]
      omega
    rw [← stopBefore_drop ij hj, Place.advanceAll_append] at stop
    simpa only [String.toList_ofList] using later.begins_piece start (Nat.sub_pos_of_lt ij) length stop

end Grammar

end SkyQuery
