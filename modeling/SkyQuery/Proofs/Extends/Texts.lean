import SkyQuery.Proofs.Extends.Queries
import SkyQuery.Proofs.Located.Texts

/-!
# Version 2.1 extends version 2.0

`Entry.read_later`: whatever version 2.0 reads from a text, version 2.1 reads from it as well, with the same
places, if the text has none of the words that only one of the versions reserves.
-/

namespace SkyQuery

/-! ### Words that versions reserve -/

/-- The words that only one of the versions reserves. -/
def Reserved.disputed : List String := ["OFFSET", "ILIKE", "IN_UNIT", "REGION"]

theorem Reserved.isReserved_eq {word : String} (plain : Text.upper word ∉ disputed) :
    isReserved .v21 word = isReserved .v20 word := by
  have other (v : Version) : (particular v).contains (Text.upper word) = false := by
    cases v <;> simp_all [disputed, particular]
  rw [isReserved, isReserved, byLanguage, byLanguage, other, other]

/-- Version 2.1 has all keywords but the disputed ones; those that version 2.0 does not have, it reserves. -/
theorem Keyword.available_later {k : Keyword} (plain : Text.upper k.text ∉ Reserved.disputed) :
    k.availableIn .v21 = true ∧ (k.availableIn .v20 = false → k.text ∈ Reserved.later) := by
  cases k with
  | withKw | unionKw | intersectKw | exceptKw | lowerKw | upperKw | coalesceKw | castKw =>
    exact ⟨rfl, fun _ => by decide⟩
  | offsetKw | ilikeKw | inUnitKw => exact absurd (by decide) plain
  | geometry fn =>
    cases fn with
    | region => exact absurd (by decide) plain
    | _ => exact ⟨rfl, nofun⟩
  | _ => exact ⟨rfl, nofun⟩

namespace Lexer

theorem symbol_plain (c : Char) (next : Option Char) : (symbol c next).1.isKeyword = false := by
  unfold symbol
  split <;> try rfl
  dsimp only
  split <;> rfl

theorem number_plain (cs : List Char) : (number cs).1.isKeyword = false := by
  rcases number_kind cs with kind | kind | kind <;> rw [kind] <;> rfl

/-- Only a word is a keyword, namely the one that it spells. -/
theorem first_keyword {c : Char} {rest : List Char} {k : Keyword} (h : (first c rest).1 = .keyword k) :
    Keyword.ofWord? (String.ofList (c :: rest.take (first c rest).2)) = some k := by
  have plain {kind : Kind} (plain : kind.isKeyword = false) : kind ≠ .keyword k := by
    rintro rfl
    cases plain
  unfold first at h ⊢
  split at h
  · cases h
  split at h
  · cases h
  split at h
  · rename_i noBlank noComment letter
    rw [if_neg noBlank, if_neg noComment, if_pos letter]
    dsimp only [wordKind] at h
    split at h
    · rename_i found
      obtain rfl := Kind.keyword.inj h
      exact found
    · cases h
  split at h
  · dsimp only at h
    split at h <;> cases h
  split at h
  · dsimp only at h
    split at h <;> cases h
  split at h
  · exact absurd h (plain (number_plain _))
  · exact absurd h (plain (symbol_plain _ _))

theorem lexFrom_keyword (p : Place) (cs : List Char) :
    ∀ t ∈ lexFrom p cs, ∀ k, t.kind = .keyword k → Keyword.ofWord? t.text = some k := by
  fun_induction lexFrom p cs with
  | case1 => simp
  | case2 p c rest kind n hfirst text stop ih =>
    refine List.forall_mem_cons.2 ⟨fun k here => ?_, ih⟩
    have spelled : Keyword.ofWord? (String.ofList (c :: rest.take (first c rest).2)) = some k :=
      first_keyword (by rw [hfirst]; exact here)
    rwa [hfirst] at spelled

end Lexer

namespace Grammar

open Parse

variable {text : String}

/-- What the versions make of a token that is none of the disputed words. -/
theorem settle_becomes {t : Token} (spelled : ∀ k, t.kind = .keyword k → Keyword.ofWord? t.text = some k)
    (plain : Text.upper t.text ∉ Reserved.disputed) :
    Token.Becomes { t with kind := settle .v20 t.kind } { t with kind := settle .v21 t.kind } := by
  obtain ⟨kind, text, start, stop⟩ := t
  cases kind with
  | keyword k =>
    have same : Text.sameLetters k.text text = true := by simpa using List.find?_some (spelled k rfl)
    have agreed : Text.upper k.text ∉ Reserved.disputed := by rwa [Text.upper_eq_of_sameLetters same]
    obtain ⟨now, later⟩ := Keyword.available_later agreed
    cases known : k.availableIn .v20 with
    | true =>
      simp only [settle_keyword known, settle_keyword now]
      exact .same known rfl
    | false =>
      have word : settle .v20 (.keyword k) = .ident := by simp [settle, Kind.isKeyword, Kind.availableIn, known]
      simp only [word, settle_keyword now]
      refine .keyword rfl ?_ known (later known)
      simp only [isIdentifier, ← Reserved.isReserved_of_sameLetters same, ← Reserved.isReserved_eq agreed,
        Keyword.isReserved_text now, Bool.not_true]
  | ident =>
    refine .same rfl ?_
    change (!Reserved.isReserved .v21 text) = !Reserved.isReserved .v20 text
    rw [Reserved.isReserved_eq plain]
  | _ => exact .same rfl rfl

theorem State.ofTokens_becomes {tokens tokens' : List Token} {ws : List Word}
    (same : List.Forall₂ Token.Becomes tokens tokens') (ended : tokens'.map Token.word = ws ++ [endWord]) :
    (State.ofTokens tokens).Becomes (State.ofTokens tokens') := by
  cases same with
  | nil => cases ws <;> cases ended
  | cons first rest => exact ⟨first, rest, first.start, ws, State.ofTokens_shows ended⟩

theorem tokensFor_becomes {tokens : List Token}
    (plain : ∀ t ∈ Lexer.lex text, Text.upper t.text ∉ Reserved.disputed) (h : tokensFor .v20 text = .ok tokens) :
    ∃ tokens', tokensFor .v21 text = .ok tokens' ∧ (State.ofTokens tokens).Becomes (State.ofTokens tokens') := by
  cases hraw : Lexer.tokenize text false with
  | error e => simp [tokensFor, hraw, Except.map] at h
  | ok raw =>
    have cut (v : Version) : tokensFor v text = .ok (raw.map fun t => { t with kind := settle v t.kind }) := by
      simp only [tokensFor, hraw, Except.map, settle_token]
    rw [cut] at h
    cases h
    have each : ∀ t ∈ raw,
        Token.Becomes { t with kind := settle .v20 t.kind } { t with kind := settle .v21 t.kind } := by
      intro t ht
      rcases Lexer.significant_subset hraw t ht with lexed | last
      · exact settle_becomes (Lexer.lexFrom_keyword _ _ t lexed) (plain t lexed)
      · rw [last]
        exact .same rfl rfl
    refine ⟨_, cut .v21, State.ofTokens_becomes ?_ (cut_of_tokensFor (cut .v21)).ended_by⟩
    rw [List.forall₂_map_left_iff, List.forall₂_map_right_iff, List.forall₂_same]
    exact each

theorem carries_whole {α : Type} {p : Parse α} (h : Carries [] wordsAfter p) : Carries [] [] (whole p) :=
  h.bind fun _ => .eat (by decide) (.expect (by decide) fun _ => carries_pure)
    (.sees (by decide) carries_pure carries_unexpected)

theorem readWhole_later {α : Type} {p : Parse α} {a : α} (hp : Carries [] wordsAfter p)
    (plain : ∀ t ∈ Lexer.lex text, Text.upper t.text ∉ Reserved.disputed) (h : readWhole p .v20 text = .ok a) :
    readWhole p .v21 text = .ok a := by
  obtain ⟨tokens, t, htokens, hread⟩ := readWhole_ok_iff.1 h
  obtain ⟨tokens', htokens', same⟩ := tokensFor_becomes plain htokens
  obtain stuck | ⟨t', hread', -⟩ := (carries_whole hp).agrees same a t hread
  · exact absurd stuck.kind List.not_mem_nil
  · exact readWhole_ok_iff.2 ⟨tokens', t', htokens', hread'⟩

theorem carries_whereClause : Carries [] [] whereClause :=
  .expect (by decide) fun _ => carries_condition carries_subquery

end Grammar

open Grammar Parse

/-- What version 2.0 reads from a text, version 2.1 reads from it too. -/
theorem Entry.read_later {entry : Entry} {text : String} {f : Fragment}
    (plain : ∀ t ∈ Lexer.lex text, Text.upper t.text ∉ Reserved.disputed) (h : entry.read .v20 text = .ok f) :
    entry.read .v21 text = .ok f := by
  have later {α : Type} {p : Parse α} {wrap : α → Fragment} (hp : Carries [] wordsAfter p)
      (h : (readWhole p .v20 text).map wrap = .ok f) : (readWhole p .v21 text).map wrap = .ok f := by
    cases hread : readWhole p .v20 text with
    | error e => rw [hread] at h; cases h
    | ok a => rw [readWhole_later hp plain hread, ← hread]; exact h
  have clause {α : Type} {p : Parse α} {held : List Kind} (hp : Carries held [] p) : Carries [] wordsAfter p :=
    hp.fresh.mono (List.Subset.refl _) (List.nil_subset _)
  cases entry with
  | query => exact later carries_query.fresh h
  | select => exact later (clause carries_selectClause) h
  | source => exact later (clause (carries_fromClause carries_subquery)) h
  | filter => exact later (clause carries_whereClause) h
  | orderBy => exact later carries_orderByClause.fresh h
  | groupBy => exact later carries_groupByClause.fresh h

theorem Entry.read_later_ordered :
    let text := "SELECT POINT('', a, 1) FROM t GROUP BY a ORDER BY 1 DESC"
    (∀ t ∈ Lexer.lex text, Text.upper t.text ∉ Reserved.disputed) ∧
      ∃ f, Entry.query.read .v20 text = .ok f ∧ Entry.query.read .v21 text = .ok f := by
  intro text
  have given : (∀ t ∈ Lexer.lex text, Text.upper t.text ∉ Reserved.disputed) ∧
      (Entry.query.read .v20 text).toOption.isSome = true := by decide +kernel
  obtain ⟨f, read⟩ := exists_ok_of_isSome given.2
  exact ⟨given.1, f, read, Entry.read_later given.1 read⟩

end SkyQuery
