import SkyQuery.Proofs.Grammar.Reads
import SkyQuery.Proofs.Token.Visible

/-!
# Tokens with spaces between them

White space and comments say nothing. Where the tokens of a text are written down with single spaces between
them, the new text is cut into the same tokens: `tokenize_spaced`.
-/

namespace SkyQuery.Lexer

open Grammar

variable {p : Place} {cs : List Char} {ts us : List Token} {w : Word} {text : String}

/-- The texts of the tokens of a text, up to its end, with single spaces between them. -/
def spaced (tokens : List Token) : String := joinWith " " (tokens.dropLast.map Token.text)

/-! ### Single tokens -/

/-- A word that the grammar reads, and whose text is one token where it stands alone. -/
structure Stands (w : Word) : Prop where
  seen : w.1.isTrivia = false
  sound : w.1.isFault = false
  alone : visible w.2.toList = [w]

theorem Stands.tight (h : Stands w) : w.1.isLoose = false := by
  have seen := h.seen
  have sound := h.sound
  cases kind : w.1 <;> rw [kind] at seen sound <;> first | rfl | (cases seen; done) | cases sound

theorem stands_first {c : Char} {rest : List Char} (seen : (first c rest).1.isTrivia = false)
    (sound : (first c rest).1.isFault = false) :
    Stands ((first c rest).1, String.ofList (c :: rest.take (first c rest).2)) := by
  refine ⟨seen, sound, ?_⟩
  have part : first c (rest.take (first c rest).2 ++ []) = ((first c rest).1, (rest.take (first c rest).2).length) := by
    rw [List.append_nil, first_take (closed_of_sound sound) (Nat.le_refl _), List.length_take,
      Nat.min_eq_left (first_le c rest)]
  have notBlank : (first c rest).1 ≠ .blank := fun blank => by rw [blank] at seen; cases seen
  have found := visible_first _ [] part notBlank
  rw [List.append_nil, visible_nil] at found
  rwa [String.toList_ofList]

/-- The tokens that the grammar reads from a text stand alone. -/
theorem stands_of_significant (h : significant false p (lexFrom p cs) = .ok us) :
    ∃ ws, us.map Token.word = ws ++ [endWord] ∧ ∀ w ∈ ws, Stands w := by
  fun_induction lexFrom p cs generalizing us with
  | case1 p =>
    cases h
    exact ⟨[], rfl, List.forall_mem_nil _⟩
  | case2 p c rest kind n hfirst text stop =>
    rename_i ih
    obtain ⟨rfl, rfl⟩ : kind = (first c rest).1 ∧ n = (first c rest).2 := by rw [hfirst]; exact ⟨rfl, rfl⟩
    unfold significant at h
    split at h
    · exact ih h
    split at h
    · cases h
    rename_i seen sound
    rw [Bool.false_and, if_neg Bool.false_ne_true] at h
    obtain ⟨others, hothers, rfl⟩ := ok_of_map h
    obtain ⟨ws, words, all⟩ := ih hothers
    refine ⟨_ :: ws, congrArg (List.cons _) words, List.forall_mem_cons.2 ⟨?_, all⟩⟩
    exact stands_first (Bool.eq_false_iff.2 seen) (Bool.eq_false_iff.2 sound)

/-! ### Rows of tokens -/

/-- Words that stand alone are found again in a row. -/
theorem visible_joinWith {ws : List Word} (h : ∀ w ∈ ws, Stands w) :
    visible (joinWith " " (ws.map Prod.snd)).toList = ws := by
  unfold joinWith
  induction ws with
  | nil => exact visible_nil
  | cons w ws ih =>
    obtain ⟨first, others⟩ := List.forall_mem_cons.1 h
    cases ws with
    | nil => exact first.alone
    | cons next ws =>
      rw [List.map_cons, List.map_cons, String.intercalate_cons_cons, String.toList_append, String.toList_append,
        List.append_assoc]
      have closed : ∀ u ∈ visible w.2.toList, u.1.isLoose = false := by
        rw [first.alone]
        exact List.forall_mem_singleton.2 first.tight
      change visible (w.2.toList ++ ' ' :: (String.intercalate " " (next.2 :: ws.map Prod.snd)).toList) = _
      rw [visible_append closed (by simp [Separates]), visible_space rfl, first.alone]
      exact congrArg (List.cons w) (ih others)

/-- A text all of whose visible tokens the grammar reads is accepted. -/
theorem significant_of_visible (h : ∀ t ∈ ts, t.kind ≠ .blank → t.kind.isTrivia = false ∧ t.kind.isFault = false) :
    ∃ us, significant false p ts = .ok us ∧
      us.map Token.word = (ts.filter (·.kind != .blank)).map Token.word ++ [endWord] := by
  induction ts generalizing p with
  | nil => exact ⟨_, rfl, rfl⟩
  | cons t ts ih =>
    obtain ⟨here, others⟩ := List.forall_mem_cons.1 h
    obtain ⟨us, hus, words⟩ := ih (p := t.stop) others
    rw [significant]
    by_cases blank : t.kind = .blank
    · rw [if_pos (by rw [blank]; rfl), List.filter_cons_of_neg (by simpa using blank)]
      exact ⟨us, hus, words⟩
    · obtain ⟨seen, sound⟩ := here blank
      rw [if_neg (by simp [seen]), if_neg (by simp [sound]), hus, List.filter_cons_of_pos (by simpa using blank)]
      exact ⟨t :: us, rfl, congrArg (List.cons t.word) words⟩

/-- With single spaces between them the tokens of a text are found again. -/
theorem tokenize_spaced (h : tokenize text false = .ok ts) :
    ∃ us, tokenize (spaced ts) false = .ok us ∧ us.map Token.word = ts.map Token.word := by
  obtain ⟨ws, words, stand⟩ := stands_of_significant h
  have texts : spaced ts = joinWith " " (ws.map Prod.snd) := by
    have inside : ts.dropLast.map Token.word = ws := by rw [List.map_dropLast, words, List.dropLast_concat]
    rw [spaced, ← inside, List.map_map]
    rfl
  have found : visible (spaced ts).toList = ws := texts ▸ visible_joinWith stand
  have readable : ∀ t ∈ lex (spaced ts), t.kind ≠ .blank → t.kind.isTrivia = false ∧ t.kind.isFault = false := by
    intro t ht notBlank
    have member : t.word ∈ visible (spaced ts).toList :=
      List.mem_map_of_mem (List.mem_filter.2 ⟨ht, by simpa using notBlank⟩)
    have stands := stand t.word (found ▸ member)
    exact ⟨stands.seen, stands.sound⟩
  obtain ⟨us, hus, again⟩ := significant_of_visible (p := .origin) readable
  exact ⟨us, hus, (again.trans (congrArg (· ++ [endWord]) found)).trans words.symm⟩

end SkyQuery.Lexer
