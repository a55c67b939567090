import SkyQuery.Proofs.Token.Slices

/-!
# Visible tokens

`visible` lists the tokens of a text without its white space. Where a separator follows a text, its
tokens are the same, unless one of them takes in what follows (`visible_append`).
-/

namespace SkyQuery

/-- The kinds of tokens that take in what follows them. -/
def Kind.isLoose : Kind → Bool
  | .comment | .openString | .openIdent => true
  | _ => false

namespace Lexer

variable {c : Char} {rest after : List Char}

/-! ### Tokens before a separator -/

/-- The kinds of tokens that are no word, number or symbol. -/
def special : List Kind := [.blank, .comment, .quotedIdent, .string, .openIdent, .openString]

theorem wordKind_not_special (word : List Char) : wordKind word ∉ special := by
  unfold wordKind
  split <;> simp [special]

theorem number_not_special (cs : List Char) : (number cs).1 ∉ special := by
  rcases number_kind cs with kind | kind | kind <;> rw [kind] <;> decide

theorem symbol_not_special (c : Char) (next : Option Char) : (symbol c next).1 ∉ special := by
  unfold symbol
  split <;> first | decide | (dsimp only; split <;> decide)

/-- How a text can start, with the kind of its first token and how many characters that takes. -/
inductive Opening (c : Char) (rest : List Char) : Kind × Nat → Prop where
  | blank (space : isSpace c = true) : Opening c rest (.blank, run isSpace rest)
  | comment : Opening c rest (.comment, run (· != '\n') rest)
  | quotedIdent (quote : c = '"') (closed : (quotedLength '"' rest).2 = true) :
    Opening c rest (.quotedIdent, (quotedLength '"' rest).1)
  | openIdent (unclosed : (quotedLength '"' rest).2 = false) : Opening c rest (.openIdent, (quotedLength '"' rest).1)
  | string : Opening c rest (.string, (quotedLength '\'' rest).1)
  | openString (unclosed : (quotedLength '\'' rest).2 = false) : Opening c rest (.openString, (quotedLength '\'' rest).1)
  | plain {kind : Kind} {n : Nat} (other : kind ∉ special) : Opening c rest (kind, n)

theorem opening_first (c : Char) (rest : List Char) : Opening c rest (first c rest) := by
  unfold first
  split
  · rename_i space
    exact .blank space
  split
  · exact .comment
  split
  · exact .plain (wordKind_not_special _)
  split
  · rename_i quote
    dsimp only
    split
    · rename_i closed
      exact .quotedIdent (eq_of_beq quote) closed
    · rename_i unclosed
      exact .openIdent (Bool.eq_false_iff.2 unclosed)
  split
  · dsimp only
    split
    · exact .string
    · rename_i unclosed
      exact .openString (Bool.eq_false_iff.2 unclosed)
  split
  · exact .plain (number_not_special _)
  · exact .plain (symbol_not_special _ _)

/-- Only white space is blank. -/
theorem first_ne_blank (seen : isSpace c = false) (rest : List Char) : (first c rest).1 ≠ .blank := by
  intro blank
  have opening := opening_first c rest
  generalize first c rest = found at opening blank
  cases opening with
  | blank space =>
    rw [seen] at space
    cases space
  | plain other =>
    obtain rfl : _ = Kind.blank := blank
    exact other (by decide)
  | _ => cases blank

/-- A comment goes on to the end of its line. -/
theorem first_comment (h : (first c rest).1 = .comment) : ∀ d ∈ (rest.drop (first c rest).2).head?, d = '\n' := by
  have opening := opening_first c rest
  generalize first c rest = found at opening h ⊢
  cases opening with
  | comment =>
    intro d next
    simpa using run_stops rest d next
  | plain other =>
    obtain rfl : _ = Kind.comment := h
    exact absurd (by decide) other
  | _ => cases h

theorem first_quotedIdent (h : (first c rest).1 = .quotedIdent) :
    c = '"' ∧ quotedLength '"' rest = ((first c rest).2, true) := by
  have opening := opening_first c rest
  generalize first c rest = found at opening h ⊢
  cases opening with
  | quotedIdent quote closed => exact ⟨quote, Prod.ext rfl closed⟩
  | plain other =>
    obtain rfl : _ = Kind.quotedIdent := h
    exact absurd (by decide) other
  | _ => cases h

theorem quotedLength_unclosed {quote : Char} {cs : List Char} (h : (quotedLength quote cs).2 = false) :
    (quotedLength quote cs).1 = cs.length := by
  fun_induction quotedLength quote cs with
  | case1 => rfl
  | case2 c => rfl
  | case3 c d rest hc hd tail ih => exact congrArg (· + 2) (ih h)
  | case4 c d rest hc hd => cases h
  | case5 c d rest hc tail ih => exact congrArg (· + 1) (ih h)

/-- A literal that is not closed takes all of the text. -/
theorem first_open (h : (first c rest).1 = .openString ∨ (first c rest).1 = .openIdent) :
    (first c rest).2 = rest.length := by
  have opening := opening_first c rest
  generalize first c rest = found at opening h ⊢
  cases opening with
  | openIdent unclosed => exact quotedLength_unclosed unclosed
  | openString unclosed => exact quotedLength_unclosed unclosed
  | plain other =>
    rcases h with h | h
    · obtain rfl : _ = Kind.openString := h
      exact absurd (by decide) other
    · obtain rfl : _ = Kind.openIdent := h
      exact absurd (by decide) other
  | _ => rcases h with h | h <;> cases h

/-- A quoted text that is closed is closed there unless another quote follows. -/
theorem quotedLength_append {quote : Char} (other : ∀ d ∈ after.head?, d ≠ quote) {cs : List Char}
    (closed : (quotedLength quote cs).2 = true) : quotedLength quote (cs ++ after) = quotedLength quote cs := by
  fun_induction quotedLength quote cs with
  | case1 => cases closed
  | case2 c =>
    have ends : (c == quote) = true := closed
    cases after with
    | nil => rfl
    | cons d after =>
      have stops : (d == quote) = false := beq_eq_false_iff_ne.2 (other d rfl)
      simp [quotedLength, ends, stops]
  | case3 c d rest hc hd tail ih =>
    rw [List.cons_append, List.cons_append, quotedLength, if_pos hc, if_pos hd, ih closed]
  | case4 c d rest hc hd =>
    rw [List.cons_append, List.cons_append, quotedLength, if_pos hc, if_neg hd]
  | case5 c d rest hc tail ih =>
    have same := ih closed
    rw [List.cons_append] at same
    rw [List.cons_append, List.cons_append, quotedLength, if_neg hc, same]

theorem symbol_append (breaks : Breaks after) (c : Char) (rest : List Char) :
    symbol c (rest ++ after).head? = symbol c rest.head? := by
  cases rest with
  | cons d rest => rfl
  | nil =>
    cases after with
    | nil => rfl
    | cons d after =>
      refine (symbol_none ?_).symm
      rw [List.nil_append, List.head?_cons]
      have bar : d ≠ '|' := breaks.ne rfl (by decide)
      have equal : d ≠ '=' := breaks.ne rfl (by decide)
      have greater : d ≠ '>' := breaks.ne rfl (by decide)
      unfold symbol
      split <;> first | rfl | simp_all

/-- What is found at the start of a text is found there where a character follows that breaks tokens, unless
it takes in what follows. -/
theorem first_breaks (breaks : Breaks after)
    (blank : (first c rest).1 = .blank → ∀ d ∈ after.head?, isSpace d = false)
    (line : (first c rest).1 = .comment → (first c rest).2 < rest.length ∨ ∀ d ∈ after.head?, d = '\n')
    (quotes : (first c rest).1 = .quotedIdent → ∀ d ∈ after.head?, d ≠ '"')
    (closed : (first c rest).1 ≠ .openString ∧ (first c rest).1 ≠ .openIdent) :
    first c (rest ++ after) = first c rest := by
  have dash : ((rest ++ after).head? == some '-') = (rest.head? == some '-') := by
    cases rest with
    | cons d rest => rfl
    | nil =>
      cases after with
      | nil => rfl
      | cons d after =>
        have other : d ≠ '-' := breaks.ne rfl (by decide)
        simpa using other
  have digit : ((rest ++ after).head?.map Char.isDigit).getD false = (rest.head?.map Char.isDigit).getD false := by
    cases rest with
    | cons d rest => rfl
    | nil =>
      cases after with
      | nil => rfl
      | cons d after => exact breaks.not_isDigit d rfl
  have word : run Text.isWordChar (rest ++ after) = run Text.isWordChar rest :=
    run_append breaks.not_isWordChar
  have literal : number (c :: (rest ++ after)) = number (c :: rest) := by
    rw [← List.cons_append, number_append breaks]
  -- Branch by branch: each of the questions that `first` asks has the same answer with `after` behind it.
  unfold first at blank line quotes closed ⊢
  dsimp only at blank line quotes closed ⊢
  rw [dash, word, List.take_append_of_le_length (run_le rest), digit, literal, symbol_append breaks]
  split
  · rename_i space
    rw [if_pos space] at blank
    rw [run_append (blank rfl)]
  rename_i space
  rw [if_neg space] at line quotes closed
  split
  · rename_i dashes
    rw [if_pos dashes] at line
    rcases line rfl with within | next
    · rw [run_append_of_lt within]
    · rw [run_append fun d found => by simp [next d found]]
  rename_i plain
  rw [if_neg plain] at quotes closed
  split
  · rfl
  rename_i letter
  rw [if_neg letter] at quotes closed
  split
  · rename_i double
    rw [if_pos double] at quotes closed
    have shut : (quotedLength '"' rest).2 = true := (ite_ne_right_iff.1 closed.2).1
    rw [quotedLength_append (quotes (by simp [shut])) shut]
  rename_i double
  rw [if_neg double] at closed
  split
  · rename_i single
    rw [if_pos single] at closed
    have shut : (quotedLength '\'' rest).2 = true := (ite_ne_right_iff.1 closed.1).1
    rw [quotedLength_append (fun d found => breaks.ne found (by decide)) shut]
  · rfl

/-- Before a separator that is so unless it is blank. -/
theorem first_append (sep : Separates after) (seen : isSpace c = false)
    (closed : (first c rest).1 ≠ .openString ∧ (first c rest).1 ≠ .openIdent)
    (line : (first c rest).1 = .comment → ∀ d ∈ after.head?, d = '\n') : first c (rest ++ after) = first c rest := by
  refine first_breaks sep.breaks (fun blank => absurd blank (first_ne_blank seen rest))
    (fun comment => .inr (line comment)) (fun _ d found => ?_) closed
  rcases sep d found with rfl | rfl | rfl | rfl | rfl <;> decide

/-! ### Tokens inside a text -/

theorem quotedLength_le (quote : Char) (cs : List Char) : (quotedLength quote cs).1 ≤ cs.length := by
  fun_induction quotedLength quote cs with
  | case3 c d rest hc hd tail ih => exact Nat.add_le_add_right ih 2
  | case5 c d rest hc tail ih => exact Nat.succ_le_succ ih
  | _ => simp

theorem symbol_takes {next : Option Char} (h : (symbol c next).2 = true) : next.isSome = true := by
  unfold symbol at h
  split at h <;> first | rfl | cases h

/-- A token ends where its text does, or before that. -/
theorem first_le (c : Char) (rest : List Char) : (first c rest).2 ≤ rest.length := by
  unfold first
  split
  · exact run_le rest
  split
  · exact run_le rest
  split
  · exact run_le rest
  split
  · exact quotedLength_le '"' rest
  split
  · exact quotedLength_le '\'' rest
  split
  · exact Nat.sub_le_of_le_add (number_le (c :: rest))
  · dsimp only
    split
    · rename_i both
      cases rest with
      | nil => exact absurd (symbol_takes both) Bool.false_ne_true
      | cons d rest => exact Nat.succ_le_succ (Nat.zero_le _)
    · exact Nat.zero_le _

/-! ### The tokens of a text -/

/-- The tokens of a text without its white space. -/
def visible (cs : List Char) : List Word := ((lexFrom Place.origin cs).filter (·.kind != .blank)).map Token.word

theorem visible_place (p q : Place) (cs : List Char) :
    ((lexFrom p cs).filter (·.kind != .blank)).map Token.word = ((lexFrom q cs).filter (·.kind != .blank)).map Token.word := by
  fun_induction lexFrom p cs generalizing q with
  | case1 => simp [lexFrom]
  | case2 p c rest kind n found text stop ih =>
    rw [lexFrom, found, List.filter_cons, List.filter_cons]
    dsimp only
    split
    · rw [List.map_cons, List.map_cons, ih (q.advanceAll (c :: rest.take n))]
      rfl
    · exact ih _

theorem visible_nil : visible [] = [] := by simp [visible, lexFrom]

theorem visible_cons (c : Char) (rest : List Char) :
    visible (c :: rest) = if (first c rest).1 = .blank then visible (rest.drop (first c rest).2)
      else ((first c rest).1, String.ofList (c :: rest.take (first c rest).2)) :: visible (rest.drop (first c rest).2) := by
  unfold visible
  rw [lexFrom, List.filter_cons]
  dsimp only
  split
  · rename_i seen
    rw [if_neg (by simpa using seen), List.map_cons, visible_place _ Place.origin]
    rfl
  · rename_i blank
    rw [if_pos (by simpa using blank), visible_place _ Place.origin]

theorem visible_drop_run (cs : List Char) : visible (cs.drop (run isSpace cs)) = visible cs := by
  cases cs with
  | nil => rfl
  | cons c rest =>
    cases space : isSpace c with
    | true =>
      have blank : first c rest = (.blank, run isSpace rest) := by simp [first, space]
      rw [visible_cons, blank]
      simp [run, space]
    | false => simp [run, space]

theorem visible_space (space : isSpace c = true) (rest : List Char) : visible (c :: rest) = visible rest := by
  have blank : first c rest = (.blank, run isSpace rest) := by simp [first, space]
  rw [visible_cons, blank]
  exact visible_drop_run rest

theorem visible_first {kind : Kind} (text after : List Char) (h : first c (text ++ after) = (kind, text.length))
    (seen : kind ≠ .blank) : visible (c :: (text ++ after)) = (kind, String.ofList (c :: text)) :: visible after := by
  rw [visible_cons, h]
  simp [seen]

/-- The tokens of a text are found again where a separator follows, if none of them takes it in. -/
theorem visible_append {a : List Char} (closed : ∀ w ∈ visible a, w.1.isLoose = false) (sep : Separates after) :
    visible (a ++ after) = visible a ++ visible after := by
  induction length : a.length using Nat.strongRecOn generalizing a with
  | _ n ih =>
    subst length
    cases a with
    | nil => rw [visible_nil, List.nil_append, List.nil_append]
    | cons c rest =>
      cases space : isSpace c with
      | true =>
        rw [visible_space space] at closed ⊢
        rw [List.cons_append, visible_space space]
        exact ih rest.length (Nat.lt_succ_self _) closed rfl
      | false =>
        have seen := first_ne_blank space rest
        rw [visible_cons, if_neg seen, List.forall_mem_cons] at closed
        obtain ⟨tight, others⟩ := closed
        have same : first c (rest ++ after) = first c rest := by
          refine first_append sep space ⟨fun open' => ?_, fun open' => ?_⟩ fun comment => ?_
          all_goals simp_all [Kind.isLoose]
        have next := ih _ (by rw [List.length_drop, List.length_cons]; omega) others rfl
        rw [List.cons_append, visible_cons, visible_cons, same, if_neg seen, if_neg seen,
          List.drop_append_of_le_length (first_le c rest), List.take_append_of_le_length (first_le c rest), next,
          List.cons_append]

end Lexer

end SkyQuery
