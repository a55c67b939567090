import Mathlib.Data.List.Basic
import SkyQuery.Proofs.Grammar.Reads
import SkyQuery.QuickFix

/-!
# Names that get quotes

A text without look-alikes and faults is changed by a quick fix exactly where one of its words is misused:
reserved, or the name of a function, and not before a parenthesis.
-/

namespace SkyQuery

namespace QuickFix

open Grammar

variable {v : Version} {w : Word} {ws : List Word} {t : Token} {ts : List Token}

/-- Whether a word before the kind `next` could not be a name and is not called. -/
def misused (v : Version) (w : Word) (next : Kind) : Bool :=
  next != .leftParen &&
    match w.1 with
    | .ident => Reserved.isReserved v w.2
    | .keyword word => word.isFunction
    | _ => false

/-- How many of some words are misused. -/
def misuses (v : Version) : List Word → Nat
  | [] => 0
  | w :: ws => (misused v w (nextKind ws)).toNat + misuses v ws

/-- The text has no character that a quick fix replaces or drops. -/
def NoLookAlikes (text : String) : Prop := ∀ c ∈ text.toList, plain c = some c

instance (text : String) : Decidable (NoLookAlikes text) := List.decidableBAll (fun c => plain c = some c) text.toList

/-! ### Tokens -/

theorem settle_eq_leftParen {kind : Kind} : settle v kind = .leftParen ↔ kind = .leftParen := by
  cases kind <;> simp [settle, Kind.isKeyword]
  split <;> simp

theorem nextSignificant_of_wordsOf (h : wordsOf v ts = some ws) :
    ((nextSignificant ts).any fun next => next.kind == .leftParen) = (nextKind ws == .leftParen) := by
  induction ts with
  | nil =>
    cases h
    rfl
  | cons t rest ih =>
    unfold wordsOf at h
    split at h
    · rename_i trivia
      rw [nextSignificant, List.find?_cons_of_neg (by simp [trivia])]
      exact ih h
    split at h
    · cases h
    · rename_i significant _
      obtain ⟨others, hothers, rfl⟩ := Option.map_eq_some_iff.1 h
      rw [nextSignificant, List.find?_cons_of_pos (by simpa using significant), nextKind_cons]
      exact Bool.eq_iff_iff.2 (by simp only [Option.any_some, beq_iff_eq, settle_eq_leftParen])

/-- Of what follows a token it only matters whether a parenthesis does. -/
theorem needsQuotes_of_next {next : Kind}
    (h : ((nextSignificant ts).any fun next => next.kind == .leftParen) = (next == .leftParen)) :
    needsQuotes v t ts = misused v (settle v t.kind, t.text) next := by
  rw [needsQuotes, h, misused]
  obtain ⟨kind, text, start, stop⟩ := t
  by_cases called : (next == .leftParen) = true
  · simp [called, bne]
  · rw [if_neg called, bne, Bool.eq_false_iff.2 called]
    cases kind with
    | keyword word =>
      by_cases available : word.availableIn v = true <;> by_cases function : word.isFunction = true <;>
        simp [settle, Kind.isKeyword, Kind.availableIn, available, function]
    | _ => simp [settle, Kind.isKeyword]

theorem needsQuotes_eq (h : wordsOf v ts = some ws) :
    needsQuotes v t ts = misused v (settle v t.kind, t.text) (nextKind ws) :=
  needsQuotes_of_next (nextSignificant_of_wordsOf h)

theorem not_isUnderscore (sound : t.kind.isFault = false) : isUnderscore t = false := by
  obtain ⟨kind, text, start, stop⟩ := t
  cases kind <;> first | rfl | cases sound

theorem not_isFault_of_isTrivia {kind : Kind} (trivia : kind.isTrivia = true) : kind.isFault = false := by
  cases kind <;> first | rfl | cases trivia

theorem length_enclose (text : String) : (enclose text).length = text.length + 2 := by
  have quote : "\"".length = 1 := rfl
  rw [enclose, String.length_append, String.length_append, quote]
  omega

theorem needsQuotes_trivia {rest : List Token} (trivia : t.kind.isTrivia = true) : needsQuotes v t rest = false := by
  obtain ⟨kind, text, start, stop⟩ := t
  unfold needsQuotes
  split
  · rfl
  · cases kind <;> first | rfl | cases trivia

theorem quoteNames_cons {rest : List Token} (word : isUnderscore t = false) :
    quoteNames v (t :: rest) = (if needsQuotes v t rest then enclose t.text else t.text) :: quoteNames v rest := by
  rw [quoteNames, if_neg (by simp [word])]

/-- Each misused word of some tokens gets two quotes, and all else stays as it is. -/
theorem quoteNames_of_wordsOf (h : wordsOf v ts = some ws) :
    (String.join (quoteNames v ts)).length = (String.join (ts.map Token.text)).length + 2 * misuses v ws ∧
      (misuses v ws = 0 → quoteNames v ts = ts.map Token.text) := by
  induction ts generalizing ws with
  | nil =>
    cases h
    simp [quoteNames, misuses]
  | cons t rest ih =>
    unfold wordsOf at h
    split at h
    · rename_i trivia
      obtain ⟨length, same⟩ := ih h
      rw [quoteNames_cons (not_isUnderscore (not_isFault_of_isTrivia trivia)), needsQuotes_trivia trivia, List.map_cons,
        if_neg Bool.false_ne_true, String.join_cons, String.join_cons, String.length_append, String.length_append, length]
      exact ⟨by omega, fun proper => by rw [same proper]⟩
    split at h
    · cases h
    · rename_i sound
      obtain ⟨others, hothers, rfl⟩ := Option.map_eq_some_iff.1 h
      obtain ⟨length, same⟩ := ih hothers
      rw [quoteNames_cons (not_isUnderscore (Bool.eq_false_iff.2 sound)), needsQuotes_eq hothers, List.map_cons, misuses]
      cases misused v (settle v t.kind, t.text) (nextKind others) with
      | false =>
        rw [if_neg Bool.false_ne_true, String.join_cons, String.join_cons, String.length_append, String.length_append,
          length, Bool.toNat_false]
        exact ⟨by omega, fun proper => by rw [same (by omega)]⟩
      | true =>
        rw [if_pos rfl, String.join_cons, String.join_cons, String.length_append, String.length_append, length,
          length_enclose, Bool.toNat_true]
        exact ⟨by omega, by omega⟩

/-! ### Texts -/

theorem texts_lexFrom (p : Place) (cs : List Char) :
    (String.join ((Lexer.lexFrom p cs).map Token.text)).toList = cs := by
  fun_induction Lexer.lexFrom p cs with
  | case1 => rfl
  | case2 p c rest kind n hfirst text stop ih =>
    rw [List.map_cons, String.join_cons, String.toList_append, ih, String.toList_ofList]
    simp [text]

theorem replaceLookAlikes_eq {text : String} (plain : NoLookAlikes text) :
    replaceLookAlikes text = text := by
  have same : text.toList.filterMap QuickFix.plain = text.toList := by
    rw [List.filterMap_congr plain, List.filterMap_some]
  rw [replaceLookAlikes, same, String.ofList_toList]

/-- A text without look-alikes is left as it is just when none of its words is misused. -/
theorem fix_eq_iff {text : String} (plain : NoLookAlikes text) (cut : scan v text.toList = some ws) :
    fix v text = text ↔ misuses v ws = 0 := by
  have texts : String.join ((Lexer.lex text).map Token.text) = text := String.toList_inj.1 (texts_lexFrom _ _)
  obtain ⟨length, same⟩ := quoteNames_of_wordsOf cut
  rw [← Lexer.lex] at length same
  rw [fix, replaceLookAlikes_eq plain]
  constructor
  · -- quotes make a text longer, so none were put if it is the same
    intro unchanged
    have lengths := congrArg String.length (unchanged.trans texts.symm)
    omega
  · intro proper
    rw [same proper, texts]

end QuickFix

end SkyQuery
