import SkyQuery.Proofs.Tree.WellFormed

/-!
# Literals

How far numbers and quoted texts reach. A number is found again in the text of its token, and it
ends before any character that separates tokens; a quoted text ends with the quote that closes it.
-/

namespace SkyQuery.Lexer

/-- A text that starts, if at all, with a character that separates tokens. -/
def Separates (after : List Char) : Prop :=
  ∀ c ∈ after.head?, c = ' ' ∨ c = '\n' ∨ c = '(' ∨ c = ')' ∨ c = ','

theorem separates_nil : Separates [] := by simp [Separates]

/-- The characters that can go on with a word, a number, a symbol or a text between single quotes. -/
def continues (c : Char) : Bool := Text.isWordChar c || ['.', '+', '-', '=', '>', '|', '\''].contains c

/-- A text that starts, if at all, with a character that goes on with no token, double quotes, comments and
white space apart. -/
def Breaks (after : List Char) : Prop := ∀ c ∈ after.head?, continues c = false

theorem Separates.breaks {after : List Char} (h : Separates after) : Breaks after := by
  intro c hc
  rcases h c hc with rfl | rfl | rfl | rfl | rfl <;> decide

theorem breaks_quote (rest : List Char) : Breaks ('"' :: rest) := by
  intro c hc
  obtain rfl := Option.some.inj hc
  decide

theorem Breaks.ne {after : List Char} (h : Breaks after) {c d : Char} (hd : d ∈ after.head?)
    (taken : continues c = true) : d ≠ c := by
  rintro rfl
  rw [h d hd] at taken
  cases taken

theorem Breaks.not_isWordChar {after : List Char} (h : Breaks after) : ∀ c ∈ after.head?, Text.isWordChar c = false :=
  fun c hc => (Bool.or_eq_false_iff.1 (h c hc)).1

theorem Breaks.not_isDigit {after : List Char} (h : Breaks after) : ∀ c ∈ after.head?, c.isDigit = false := by
  intro c hc
  have word := h.not_isWordChar c hc
  simp only [Text.isWordChar, Char.isAlphanum, Bool.or_eq_false_iff] at word
  exact word.1.2

/-! ### Runs -/

variable {p : Char → Bool}

theorem run_le (cs : List Char) : run p cs ≤ cs.length :=
  (List.takeWhile_prefix p).length_le

theorem take_run (cs : List Char) : cs.take (run p cs) = cs.takeWhile p :=
  (List.prefix_iff_eq_take.1 (List.takeWhile_prefix p)).symm

theorem drop_run (cs : List Char) : cs.drop (run p cs) = cs.dropWhile p := by
  have whole : cs.takeWhile p ++ cs.dropWhile p = cs := List.takeWhile_append_dropWhile
  calc cs.drop (run p cs)
    _ = (cs.takeWhile p ++ cs.dropWhile p).drop (cs.takeWhile p).length := by rw [whole, run]
    _ = cs.dropWhile p := List.drop_left

theorem run_stops (cs : List Char) : ∀ d ∈ (cs.drop (run p cs)).head?, p d = false := by
  intro d next
  have stops := List.head?_dropWhile_not p cs
  rw [drop_run] at next
  rw [next] at stops
  exact stops

theorem run_take (cs : List Char) (n : Nat) : run p (cs.take n) = min (run p cs) n := by
  induction cs generalizing n with
  | nil => simp [run]
  | cons c rest ih =>
    cases n with
    | zero => simp [run]
    | succ n =>
      cases h : p c with
      | false => simp [run, h]
      | true =>
        have := ih n
        simp only [run, List.take_succ_cons, List.takeWhile_cons, h, if_true, List.length_cons] at this ⊢
        omega

theorem run_append {a b : List Char} (hb : ∀ c ∈ b.head?, p c = false) :
    run p (a ++ b) = run p a := by
  induction a with
  | nil =>
    cases b with
    | nil => rfl
    | cons c rest => simp [run, hb c rfl]
  | cons c rest ih =>
    simp only [run] at ih
    cases h : p c with
    | false => simp [run, h]
    | true => simp [run, h, ih]

theorem run_append_of_lt {a b : List Char} (h : run p a < a.length) : run p (a ++ b) = run p a := by
  unfold run at h ⊢
  rw [List.takeWhile_append, if_neg (Nat.ne_of_lt h)]

theorem run_eq_length {cs : List Char} (h : ∀ c ∈ cs, p c = true) : run p cs = cs.length := by
  have all : (cs ++ []).takeWhile p = cs ++ [].takeWhile p := List.takeWhile_append_of_pos h
  simpa [run] using congrArg List.length all

/-! ### Numbers -/

/-- The length of the sign at the start of a text. -/
def sign : List Char → Nat
  | d :: _ => if d == '+' || d == '-' then 1 else 0
  | [] => 0

/-- The digits of an exponent, after its letter. -/
def exponentDigits (rest : List Char) : Nat := run Char.isDigit (rest.drop (sign rest))

theorem exponent_cons (c : Char) (rest : List Char) :
    exponent (c :: rest) = if c == 'e' || c == 'E' then
      if exponentDigits rest = 0 then 0 else 1 + sign rest + exponentDigits rest
      else 0 := rfl

theorem sign_le (cs : List Char) : sign cs ≤ cs.length := by
  unfold sign
  split
  · simp only [List.length_cons]
    split <;> omega
  · exact Nat.zero_le _

theorem sign_take {cs : List Char} {n : Nat} (h : 0 < n) : sign (cs.take n) = sign cs := by
  obtain ⟨m, rfl⟩ := Nat.exists_eq_add_of_lt h
  cases cs <;> simp [sign]

theorem exponent_le (cs : List Char) : exponent cs ≤ cs.length := by
  cases cs with
  | nil => exact Nat.le_refl _
  | cons c rest =>
    have digits : exponentDigits rest ≤ rest.length - sign rest := by
      rw [← List.length_drop]
      exact run_le _
    have := sign_le rest
    rw [exponent_cons, List.length_cons]
    repeat' split
    all_goals omega

/-- The exponent is found again in any part of the text that holds it. -/
theorem exponent_take {cs : List Char} {n : Nat} (h : exponent cs ≤ n) : exponent (cs.take n) = exponent cs := by
  cases cs with
  | nil => rw [List.take_nil]
  | cons c rest =>
    rw [exponent_cons] at h ⊢
    cases n with
    | zero =>
      rw [List.take_zero]
      exact (Nat.le_zero.1 h).symm
    | succ m =>
      rw [List.take_succ_cons, exponent_cons]
      split
      · rename_i he
        rw [if_pos he] at h
        cases m with
        | zero =>
          rw [List.take_zero, if_pos (show exponentDigits [] = 0 from rfl)]
          split at h <;> split <;> omega
        | succ m =>
          have same : sign (rest.take (m + 1)) = sign rest := sign_take (Nat.succ_pos m)
          have reach : run Char.isDigit (rest.drop (sign rest)) = exponentDigits rest := rfl
          have digits : exponentDigits (rest.take (m + 1)) = min (exponentDigits rest) (m + 1 - sign rest) := by
            rw [exponentDigits, same, List.drop_take, run_take, reach]
          rw [digits, same]
          split at h <;> split <;> omega
      · rfl

theorem sign_append {cs after : List Char} (breaks : Breaks after) : sign (cs ++ after) = sign cs := by
  cases cs with
  | cons d rest => rfl
  | nil =>
    cases after with
    | nil => rfl
    | cons c rest =>
      have plus : c ≠ '+' := breaks.ne rfl (by decide)
      have minus : c ≠ '-' := breaks.ne rfl (by decide)
      simp [sign, plus, minus]

theorem exponent_append {cs after : List Char} (breaks : Breaks after) : exponent (cs ++ after) = exponent cs := by
  cases cs with
  | nil =>
    cases after with
    | nil => rfl
    | cons c rest =>
      have lower : c ≠ 'e' := breaks.ne rfl (by decide)
      have upper : c ≠ 'E' := breaks.ne rfl (by decide)
      simp [exponent, lower, upper]
  | cons c rest =>
    have digits : exponentDigits (rest ++ after) = exponentDigits rest := by
      rw [exponentDigits, sign_append breaks, List.drop_append_of_le_length (sign_le rest),
        run_append breaks.not_isDigit, exponentDigits]
    rw [List.cons_append, exponent_cons, exponent_cons, sign_append breaks, digits]

/-- The part of a number before its exponent. -/
def mantissa (cs : List Char) : Kind × Nat :=
  match cs.drop (run Char.isDigit cs) with
  | '.' :: rest => (.decimal, run Char.isDigit cs + 1 + run Char.isDigit rest)
  | _ => (.integer, run Char.isDigit cs)

theorem number_eq (cs : List Char) :
    number cs = if exponent (cs.drop (mantissa cs).2) = 0 then mantissa cs
      else (.scientific, (mantissa cs).2 + exponent (cs.drop (mantissa cs).2)) := by
  unfold number
  dsimp only
  split
  · rename_i h
    have none : exponent (cs.drop (mantissa cs).2) = 0 := h
    rw [if_pos none]
    rfl
  · rename_i h
    have some : exponent (cs.drop (mantissa cs).2) ≠ 0 := h
    rw [if_neg some]
    rfl

theorem mantissa_le (cs : List Char) : (mantissa cs).2 ≤ cs.length := by
  have digits := run_le (p := Char.isDigit) cs
  unfold mantissa
  split
  · rename_i rest hrest
    have := congrArg List.length hrest
    have := run_le (p := Char.isDigit) rest
    simp only [List.length_drop, List.length_cons] at *
    omega
  · exact digits

theorem mantissa_take {cs : List Char} {n : Nat} (h : (mantissa cs).2 ≤ n) :
    mantissa (cs.take n) = mantissa cs := by
  unfold mantissa at h ⊢
  split at h
  · rename_i rest hrest
    have digits : run Char.isDigit (cs.take n) = run Char.isDigit cs := by
      rw [run_take]
      dsimp only at h
      omega
    rw [digits, List.drop_take, hrest]
    dsimp only at h
    rw [show n - run Char.isDigit cs = (n - run Char.isDigit cs - 1) + 1 by omega, List.take_succ_cons]
    simp only [run_take, Prod.mk.injEq, true_and]
    omega
  · rename_i other
    have digits : run Char.isDigit (cs.take n) = run Char.isDigit cs := by
      rw [run_take]
      dsimp only at h
      omega
    rw [digits, List.drop_take]
    split
    · rename_i rest hrest
      cases hcs : cs.drop (run Char.isDigit cs) with
      | nil => simp [hcs] at hrest
      | cons c tail =>
        rw [hcs] at hrest
        cases hn : n - run Char.isDigit cs with
        | zero => simp [hn] at hrest
        | succ m =>
          rw [hn, List.take_succ_cons] at hrest
          obtain ⟨rfl, -⟩ := List.cons.inj hrest
          exact (other _ hcs).elim
    · rfl

theorem mantissa_append {cs after : List Char} (breaks : Breaks after) :
    mantissa (cs ++ after) = mantissa cs := by
  unfold mantissa
  rw [run_append breaks.not_isDigit, List.drop_append_of_le_length (run_le cs)]
  cases hcs : cs.drop (run Char.isDigit cs) with
  | nil =>
    cases after with
    | nil => rfl
    | cons c rest =>
      have point : c ≠ '.' := breaks.ne rfl (by decide)
      simp [point]
  | cons c rest =>
    by_cases point : c = '.'
    · subst point
      simp [run_append breaks.not_isDigit]
    · simp [point]

/-- A number is found again in any part of the text that holds it. -/
theorem number_take {cs : List Char} {n : Nat} (h : (number cs).2 ≤ n) : number (cs.take n) = number cs := by
  rw [number_eq] at h ⊢
  have short : (mantissa cs).2 ≤ n := by
    split at h
    · exact h
    · exact Nat.le_trans (Nat.le_add_right _ _) h
  have tail : exponent (cs.drop (mantissa cs).2) ≤ n - (mantissa cs).2 := by
    split at h
    · omega
    · dsimp only at h
      omega
  rw [mantissa_take short, List.drop_take, exponent_take tail, number_eq]

theorem number_le (cs : List Char) : (number cs).2 ≤ cs.length := by
  have short := mantissa_le cs
  have tail := exponent_le (cs.drop (mantissa cs).2)
  rw [List.length_drop] at tail
  rw [number_eq]
  split
  · exact short
  · dsimp only
    omega

/-- A number ends before a character that breaks tokens. -/
theorem number_append {cs after : List Char} (breaks : Breaks after) : number (cs ++ after) = number cs := by
  rw [number_eq, number_eq, mantissa_append breaks, List.drop_append_of_le_length (mantissa_le cs),
    exponent_append breaks]

theorem IsNumber.append {k : Kind} {text after : List Char} (h : IsNumber k text)
    (sep : Separates after) : number (text ++ after) = (k, text.length) := (number_append sep.breaks).trans h.2

/-- A number without a point and exponent consists of digits. -/
theorem isDigit_of_isNumber {text : List Char} (h : IsNumber .integer text) : ∀ c ∈ text, c.isDigit = true := by
  obtain ⟨-, whole⟩ := h
  have length : run Char.isDigit text = text.length := by
    rw [number_eq] at whole
    split at whole
    · unfold mantissa at whole
      split at whole
      · cases (Prod.mk.inj whole).1
      · exact (Prod.mk.inj whole).2
    · cases (Prod.mk.inj whole).1
  have all : text.takeWhile Char.isDigit = text := by rw [← take_run, length, List.take_length]
  rw [← all]
  exact List.all_eq_true.1 List.all_takeWhile

/-! ### Quoted texts -/

/-- A quoted text that is closed ends with its quote. -/
theorem quotedLength_closed {quote : Char} {cs : List Char} (h : (quotedLength quote cs).2 = true) :
    ∃ inner, cs.take (quotedLength quote cs).1 = inner ++ [quote] := by
  fun_induction quotedLength quote cs with
  | case1 => cases h
  | case2 c => exact ⟨[], by simpa using h⟩
  | case3 c d rest hc hd tail ih =>
    obtain ⟨inner, hinner⟩ := ih h
    exact ⟨c :: d :: inner, by simp [tail, hinner]⟩
  | case4 c d rest hc hd => exact ⟨[], by simpa using hc⟩
  | case5 c d rest hc tail ih =>
    obtain ⟨inner, hinner⟩ := ih h
    exact ⟨c :: inner, by simp [tail, hinner]⟩

/-- Reading a text that was quoted takes all of it, if no quote follows. -/
theorem quotedLength_doubled (quote : Char) (cs : List Char) {after : List Char}
    (open' : ∀ c ∈ after.head?, c ≠ quote) :
    quotedLength quote (Text.doubled quote cs ++ quote :: after)
      = ((Text.doubled quote cs).length + 1, true) := by
  induction cs with
  | nil =>
    cases after with
    | nil => simp [Text.doubled, quotedLength]
    | cons c rest => simp [Text.doubled, quotedLength, open' c rfl]
  | cons c rest ih =>
    by_cases h : c = quote
    · subst h
      simp [Text.doubled, quotedLength, ih]
    · have step : quotedLength quote (c :: (Text.doubled quote rest ++ quote :: after))
          = ((quotedLength quote (Text.doubled quote rest ++ quote :: after)).1 + 1,
            (quotedLength quote (Text.doubled quote rest ++ quote :: after)).2) := by
        cases hrest : Text.doubled quote rest ++ quote :: after with
        | nil => simp at hrest
        | cons d tail => simp [quotedLength, h]
      simp [Text.doubled, h, step, ih]

end SkyQuery.Lexer
