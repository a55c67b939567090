import Mathlib.Data.List.Forall2
import SkyQuery.Proofs.Token.Visible

/-!
# Texts of several lines

No token but white space reaches over the end of a line. A line that is cut into words by itself is cut
into the same words where others follow it: `scan_newline`, and `scan_lines` for any number of them.
-/

namespace SkyQuery

/-! ### Tokens at the end of a line -/

namespace Lexer

variable {c : Char} {rest after : List Char}

theorem separates_newline : Separates ('\n' :: after) := by simp [Separates]

/-- What is found at the start of a line is found there where another line follows, unless it is blank. -/
theorem first_newline (sound : (first c rest).1.isFault = false) (seen : isSpace c = false) :
    first c (rest ++ '\n' :: after) = first c rest := by
  exact first_append separates_newline seen (closed_of_sound sound) fun _ d found => (Option.some.inj found).symm

end Lexer

namespace Grammar

variable {v : Version}

/-! ### The last word -/

/-- Whether the last token of a text is a semicolon, white space and comments apart. -/
def endsInSemicolon (text : String) : Bool :=
  ((Lexer.lex text).filter (!·.kind.isTrivia)).getLast?.any (·.kind == .semicolon)

/-- The words of tokens that are no faults. -/
theorem eq_of_wordsOf {ts : List Token} {ws : List Word} (h : wordsOf v ts = some ws) :
    ws = (ts.filter (!·.kind.isTrivia)).map fun t => (settle v t.kind, t.text) := by
  induction ts generalizing ws with
  | nil =>
    cases h
    rfl
  | cons t others ih =>
    unfold wordsOf at h
    split at h
    · rename_i trivia
      rw [List.filter_cons_of_neg (by simp [trivia])]
      exact ih h
    split at h
    · cases h
    · rename_i seen _
      obtain ⟨us, hus, rfl⟩ := Option.map_eq_some_iff.1 h
      rw [List.filter_cons_of_pos (by simpa using seen), List.map_cons, ← ih hus]

theorem settle_ne_semicolon {kind : Kind} (h : kind ≠ .semicolon) : settle v kind ≠ .semicolon := by
  unfold settle
  split
  · nofun
  · exact h

/-- The last word of a text is no semicolon if its last token is none. -/
theorem last_ne_semicolon {text : String} {ws : List Word} (cut : scan v text.toList = some ws)
    (other : endsInSemicolon text = false) : ∀ w ∈ ws.getLast?, w.1 ≠ .semicolon := by
  intro w last
  rw [eq_of_wordsOf cut, List.getLast?_map] at last
  obtain ⟨t, ht, rfl⟩ := Option.map_eq_some_iff.1 last
  have plain : (t.kind == .semicolon) = false := by
    unfold endsInSemicolon Lexer.lex at other
    rwa [ht] at other
  exact settle_ne_semicolon (beq_eq_false_iff_ne.1 plain)

/-! ### Words of lines -/

/-- A line is cut into the same words where others follow it. -/
theorem scan_newline {a : List Char} {ws : List Word} (cut : scan v a = some ws) (after : List Char) :
    scan v (a ++ '\n' :: after) = (scan v after).map (ws ++ ·) := by
  induction length : a.length using Nat.strongRecOn generalizing a ws with
  | _ n ih =>
    subst length
    cases a with
    | nil =>
      rw [scan_nil] at cut
      cases cut
      simpa using scan_space (v := v) (c := '\n') rfl after
    | cons c rest =>
      cases blank : Lexer.isSpace c with
      | true =>
        rw [scan_space blank] at cut
        rw [List.cons_append, scan_space blank]
        exact ih rest.length (Nat.lt_succ_self _) cut rfl
      | false =>
        have next {us : List Word} (h : scan v (rest.drop (Lexer.first c rest).2) = some us) :
            scan v (rest.drop (Lexer.first c rest).2 ++ '\n' :: after) = (scan v after).map (us ++ ·) :=
          ih _ (by rw [List.length_drop, List.length_cons]; omega) h rfl
        have inside := Lexer.first_le c rest
        rw [scan_cons] at cut
        rw [List.cons_append, scan_cons]
        split at cut
        · rename_i trivia
          have sound : (Lexer.first c rest).1.isFault = false := by
            cases kind : (Lexer.first c rest).1 <;> rw [kind] at trivia <;> first | rfl | cases trivia
          rw [Lexer.first_newline sound blank, if_pos trivia, List.drop_append_of_le_length inside, next cut]
        · rename_i seen
          split at cut
          · cases cut
          · rename_i sound
            obtain ⟨us, others, rfl⟩ := Option.map_eq_some_iff.1 cut
            rw [Lexer.first_newline (Bool.not_eq_true _ ▸ sound) blank, if_neg seen, if_neg sound,
              List.drop_append_of_le_length inside, List.take_append_of_le_length inside, next others, Option.map_map]
            rfl

/-- Lines are cut into the words of each of them. -/
theorem scan_lines {lines : List String} {words : List (List Word)}
    (cut : List.Forall₂ (fun line ws => scan v line.toList = some ws) lines words) :
    scan v (joinWith "\n" lines).toList = some words.flatten := by
  unfold joinWith
  induction cut with
  | nil => exact scan_nil
  | @cons line ws lines words first others ih =>
    cases others with
    | nil => simpa using first
    | @cons next us lines words second others =>
      rw [String.intercalate_cons_cons, String.toList_append, String.toList_append, List.append_assoc]
      change scan v (line.toList ++ '\n' :: (String.intercalate "\n" (next :: lines)).toList) = _
      rw [scan_newline first, ih]
      rfl

end Grammar

end SkyQuery
