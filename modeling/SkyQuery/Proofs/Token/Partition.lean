import SkyQuery.Proofs.QuickFix.Quotes
import SkyQuery.Proofs.Refused.Texts
import SkyQuery.Proofs.Token.Patterns

/-!
# How a text is cut into tokens

`Lexes` cuts a text by its patterns alone: at each place the longest text that one of them matches, a keyword
being no name, or else a single character. `lex` finds the only such cut (`lexes_iff`), and its tokens lie side by
side from the start of the text to its end (`lex_partition`).
-/

namespace SkyQuery

/-- Where a token begins and ends, as 32-bit byte offsets. -/
def Token.range (t : Token) : UInt32 × UInt32 := (UInt32.ofNat t.start.offset, UInt32.ofNat t.stop.offset)

namespace Lexer

/-! ### The longest match -/

/-- What is found at the start of a text: the longest text that a pattern matches there, or one character if none
matches. Of two patterns for one text that of a keyword comes before that of a name. -/
inductive Longest (cs : List Char) : Kind → List Char → Prop where
  | matched {kind : Kind} {w : List Char} (start : w <+: cs) (fits : w ∈ pattern kind)
    (longest : ∀ other u, u <+: cs → u ∈ pattern other →
      u.length < w.length ∨ u = w ∧ (other = kind ∨ other = .ident ∧ kind.isKeyword = true)) : Longest cs kind w
  | stray {c : Char} (start : [c] <+: cs) (none : ∀ other u, u <+: cs → u ∉ pattern other) : Longest cs .strayChar [c]

/-- How the patterns cut a text into words. -/
inductive Lexes : List Char → List Word → Prop where
  | ended : Lexes [] []
  | token {w rest : List Char} {kind : Kind} {words : List Word} (found : Longest (w ++ rest) kind w)
    (next : Lexes rest words) : Lexes (w ++ rest) ((kind, String.ofList w) :: words)

variable {c : Char} {rest cs w u : List Char} {kind other : Kind} {p : Place}

theorem Longest.unique (h : Longest cs kind w) (h' : Longest cs other u) : other = kind ∧ u = w := by
  cases h with
  | matched start fits longest =>
    cases h' with
    | matched start' fits' longest' =>
      have before := longest other u start' fits'
      have after := longest' kind w start fits
      rcases before with shorter | ⟨same, before⟩
      · rcases after with shorter' | ⟨same, -⟩
        · omega
        · rw [same] at shorter
          exact absurd shorter (Nat.lt_irrefl _)
      · refine ⟨before.resolve_right ?_, same⟩
        rintro ⟨rfl, keyword⟩
        rcases after with shorter | ⟨-, rfl | ⟨rfl, -⟩⟩
        · rw [same] at shorter
          exact Nat.lt_irrefl _ shorter
        · cases keyword
        · cases keyword
    | stray start' none => exact absurd fits (none kind w start)
  | stray start none =>
    cases h' with
    | matched start' fits' longest' => exact absurd fits' (none other u start')
    | stray start' none' =>
      obtain ⟨tail, rfl⟩ := start
      obtain ⟨tail', same⟩ := start'
      exact ⟨rfl, congrArg (fun c => [c]) (List.cons.inj same).1⟩

theorem Longest.ne_nil (h : Longest cs kind w) : w ≠ [] := by
  cases h with
  | matched start fits longest => exact ne_nil_of_mem fits
  | stray => exact List.cons_ne_nil _ _

/-- A token is read again from its own text. -/
theorem first_self (c : Char) (rest : List Char) : first c (rest.take (first c rest).2) = first c rest := by
  by_cases unclosed : (first c rest).1 = .openString ∨ (first c rest).1 = .openIdent
  · rw [first_open unclosed, List.take_length]
  · exact first_take (not_or.1 unclosed) (Nat.le_refl _)

/-- A text of a pattern that is no shorter than the first token is this token. -/
theorem first_of_prefix (start : c :: u <+: c :: rest) (fits : c :: u ∈ pattern other)
    (long : (first c rest).2 ≤ u.length) : u = rest.take (first c rest).2 ∧
      ((first c rest).1 = other ∨ other = .ident ∧ (first c rest).1.isKeyword = true) := by
  have part : u = rest.take u.length := List.prefix_iff_eq_take.1 (List.cons_prefix_cons.1 start).2
  -- the first token ends within `c :: u`, so it is found there too, and there it is all of the text
  have same : first c u = first c rest := by
    rw [part]
    by_cases unclosed : (first c rest).1 = .openString ∨ (first c rest).1 = .openIdent
    · rw [List.take_of_length_le ((first_open unclosed).symm.trans_le long)]
    · exact first_take (not_or.1 unclosed) long
  obtain ⟨found, alone, known⟩ := first_of_mem fits
  rw [same] at alone
  rw [alone]
  exact ⟨part, known⟩

theorem longest_first (c : Char) (rest : List Char) :
    Longest (c :: rest) (first c rest).1 (c :: rest.take (first c rest).2) := by
  have start : c :: rest.take (first c rest).2 <+: c :: rest :=
    List.cons_prefix_cons.2 ⟨rfl, List.take_prefix _ _⟩
  rcases first_mem c rest with stray | fits
  · rw [stray]
    refine .stray (List.cons_prefix_cons.2 ⟨rfl, List.nil_prefix⟩) fun other u within fits => ?_
    obtain ⟨d, u, rfl⟩ := List.exists_cons_of_ne_nil (ne_nil_of_mem fits)
    obtain rfl := (List.cons_prefix_cons.1 within).1
    obtain ⟨-, same | ⟨-, keyword⟩⟩ := first_of_prefix within fits (by rw [stray]; exact Nat.zero_le _)
    · rw [← same, stray] at fits
      exact fits
    · rw [stray] at keyword
      cases keyword
  · refine .matched start fits fun other u within fits' => ?_
    obtain ⟨d, u, rfl⟩ := List.exists_cons_of_ne_nil (ne_nil_of_mem fits')
    obtain rfl := (List.cons_prefix_cons.1 within).1
    rw [List.length_cons, List.length_cons, List.length_take, Nat.min_eq_left (first_le d rest)]
    rcases Nat.lt_or_ge u.length (first d rest).2 with shorter | long
    · exact .inl (Nat.succ_lt_succ shorter)
    · obtain ⟨same, known⟩ := first_of_prefix within fits' long
      exact .inr ⟨congrArg (d :: ·) same, known.imp_left Eq.symm⟩

/-! ### The only cut -/

theorem lexes_lexFrom (p : Place) (cs : List Char) : Lexes cs ((lexFrom p cs).map Token.word) := by
  fun_induction lexFrom p cs with
  | case1 => exact .ended
  | case2 p c rest kind n hfirst text stop ih =>
    have found := longest_first c rest
    rw [hfirst] at found
    have whole : c :: rest = text ++ rest.drop n := by rw [List.cons_append, List.take_append_drop]
    rw [whole] at found ⊢
    exact .token found ih

theorem Lexes.unique {words others : List Word} (h : Lexes cs words) (h' : Lexes cs others) : others = words := by
  induction h generalizing others with
  | ended =>
    generalize nothing : [] = cs at h'
    cases h' with
    | ended => rfl
    | token found next => exact absurd (List.append_eq_nil_iff.1 nothing.symm).1 found.ne_nil
  | @token w rest kind words found next ih =>
    generalize split : w ++ rest = cs at h'
    cases h' with
    | ended => exact absurd (List.append_eq_nil_iff.1 split).1 found.ne_nil
    | @token w' rest' kind' words' found' next' =>
      rw [split] at found
      obtain ⟨rfl, rfl⟩ := found.unique found'
      obtain rfl := List.append_cancel_left split
      rw [ih next']

/-- The tokens of a text are the only words that its patterns cut it into. -/
theorem lexes_iff {text : String} {words : List Word} : Lexes text.toList words ↔ words = (lex text).map Token.word :=
  ⟨(lexes_lexFrom .origin text.toList).unique, fun h => h ▸ lexes_lexFrom .origin text.toList⟩

/-! ### Tokens side by side -/

/-- What a token is, told by what stands before it. -/
theorem mem_lexFrom : ∀ t ∈ lexFrom p cs, ∃ a c rest, cs = a ++ c :: rest ∧ t.kind = (first c rest).1 ∧
    t.text = String.ofList (c :: rest.take (first c rest).2) ∧ t.start = p.advanceAll a ∧
    t.stop = t.start.advanceAll t.text.toList := by
  fun_induction lexFrom p cs with
  | case1 => exact List.forall_mem_nil _
  | case2 p c rest kind n hfirst text stop ih =>
    obtain ⟨rfl, rfl⟩ : kind = (first c rest).1 ∧ n = (first c rest).2 := by rw [hfirst]; exact ⟨rfl, rfl⟩
    have whole : c :: rest = text ++ rest.drop (first c rest).2 := by rw [List.cons_append, List.take_append_drop]
    refine List.forall_mem_cons.2 ⟨⟨[], c, rest, rfl, rfl, rfl, rfl, by rw [String.toList_ofList]⟩, fun t ht => ?_⟩
    obtain ⟨a, d, others, split, kind, piece, start, reach⟩ := ih t ht
    exact ⟨text ++ a, d, others, by rw [whole, split, List.append_assoc], kind, piece,
      by rw [start, Place.advanceAll_append], reach⟩

theorem lexFrom_start (p : Place) (cs : List Char) : ∀ t ∈ (lexFrom p cs).head?, t.start = p := by
  cases cs with
  | nil => simp [lexFrom]
  | cons c rest =>
    rw [lexFrom]
    rintro t ⟨⟩
    rfl

theorem lexFrom_consecutive (p : Place) (cs : List Char) : (lexFrom p cs).IsChain fun t u => u.start = t.stop := by
  fun_induction lexFrom p cs with
  | case1 => exact .nil
  | case2 p c rest kind n hfirst text stop ih =>
    have next := lexFrom_start stop (rest.drop n)
    cases others : lexFrom stop (rest.drop n) with
    | nil => exact .singleton _
    | cons u others =>
      rw [others] at ih next
      exact List.isChain_cons_cons.2 ⟨next u rfl, ih⟩

theorem lexFrom_stop (p : Place) (cs : List Char) :
    ((lexFrom p cs).getLast?.map Token.stop).getD p = p.advanceAll cs := by
  fun_induction lexFrom p cs with
  | case1 => rfl
  | case2 p c rest kind n hfirst text stop ih =>
    have whole : c :: rest = text ++ rest.drop n := by rw [List.cons_append, List.take_append_drop]
    rw [whole, Place.advanceAll_append, ← ih, List.getLast?_cons]
    cases (lexFrom stop (rest.drop n)).getLast? <;> rfl

/-- Only the last token can be a literal without its closing quote. -/
theorem lexFrom_unclosed (p : Place) (cs : List Char) :
    ∀ t ∈ (lexFrom p cs).dropLast, t.kind ≠ .openString ∧ t.kind ≠ .openIdent := by
  fun_induction lexFrom p cs with
  | case1 => exact List.forall_mem_nil _
  | case2 p c rest kind n hfirst text stop ih =>
    by_cases last : lexFrom stop (rest.drop n) = []
    · rw [last]
      exact List.forall_mem_nil _
    rw [List.dropLast_cons_of_ne_nil last]
    refine List.forall_mem_cons.2 ⟨not_or.1 fun unclosed => last ?_, ih⟩
    obtain ⟨rfl, rfl⟩ : kind = (first c rest).1 ∧ n = (first c rest).2 := by rw [hfirst]; exact ⟨rfl, rfl⟩
    rw [first_open unclosed, List.drop_length, lexFrom]

theorem lexFrom_self (p : Place) (c : Char) (rest : List Char) :
    (lexFrom p (c :: rest.take (first c rest).2)).map Token.word =
      [((first c rest).1, String.ofList (c :: rest.take (first c rest).2))] := by
  rw [lexFrom, first_self]
  dsimp only
  rw [List.take_take, Nat.min_self, List.drop_take, Nat.sub_self, List.take_zero, lexFrom]
  rfl

/-- Tokens that a text is cut into: they lie side by side from its start to its end, each with its piece of the text,
which alone is this token, and are what the patterns find. -/
structure Partition (text : String) (tokens : List Token) : Prop where
  starts : ∀ t ∈ tokens.head?, t.range.1 = 0
  consecutive : tokens.IsChain fun t u => u.range.1 = t.range.2
  stops : (tokens.getLast?.map (·.range.2.toNat)).getD 0 = text.utf8ByteSize
  nonempty : ∀ t ∈ tokens, t.range.1 < t.range.2
  slices : ∀ t ∈ tokens, ∃ before after, text = before ++ t.text ++ after ∧
    before.utf8ByteSize = t.range.1.toNat ∧ (before ++ t.text).utf8ByteSize = t.range.2.toNat
  joined : String.join (tokens.map Token.text) = text
  stable : ∀ t ∈ tokens, (lex t.text).map Token.word = [t.word]
  unclosed : ∀ t ∈ tokens.dropLast, t.kind ≠ .openString ∧ t.kind ≠ .openIdent
  longest : ∀ words, Lexes text.toList words ↔ words = tokens.map Token.word

/-- The places of a token as byte offsets. -/
theorem offsets_of_mem {text : String} {t : Token} (ht : t ∈ lex text) :
    t.start.offset < t.stop.offset ∧ ∃ before after, text = before ++ t.text ++ after ∧
      before.utf8ByteSize = t.start.offset ∧ (before ++ t.text).utf8ByteSize = t.stop.offset := by
  obtain ⟨a, c, rest, split, kind, piece, start, stop⟩ := mem_lexFrom t ht
  have reach : t.stop.offset = t.start.offset + t.text.utf8ByteSize := by
    rw [stop, Place.offset_advanceAll, String.ofList_toList]
  have from' : (String.ofList a).utf8ByteSize = t.start.offset := by
    rw [start, Place.offset_advanceAll]
    exact (Nat.zero_add _).symm
  have some : 0 < t.text.utf8ByteSize := by
    rw [piece, utf8ByteSize_cons]
    exact Nat.lt_of_lt_of_le c.utf8Size_pos (Nat.le_add_right _ _)
  refine ⟨by omega, String.ofList a, String.ofList (rest.drop (first c rest).2), ?_, from', ?_⟩
  · rw [← String.toList_inj, split, piece]
    simp
  · rw [String.utf8ByteSize_append, from', reach]

/-- The tokens of a text that is short enough for 32-bit offsets are a partition of it. -/
theorem lex_partition {text : String} (short : text.utf8ByteSize < 2 ^ 32) : Partition text (lex text) := by
  -- The offsets of a token are those of a part of the text, so they are below 2 ^ 32 as it is.
  have fits (t : Token) (ht : t ∈ lex text) : t.range.1.toNat = t.start.offset ∧ t.range.2.toNat = t.stop.offset := by
    obtain ⟨order, before, after, split, start, stop⟩ := offsets_of_mem ht
    have whole : text.utf8ByteSize = (before ++ t.text).utf8ByteSize + after.utf8ByteSize := by
      rw [← String.utf8ByteSize_append, ← split]
    have small : t.stop.offset < UInt32.size := by
      rw [← stop]
      exact Nat.lt_of_le_of_lt (whole ▸ Nat.le_add_right _ _) short
    exact ⟨UInt32.toNat_ofNat_of_lt' (Nat.lt_trans order small), UInt32.toNat_ofNat_of_lt' small⟩
  constructor
  case starts =>
    intro t first
    rw [Token.range, lexFrom_start _ _ t first]
    rfl
  case consecutive =>
    exact (lexFrom_consecutive _ _).imp fun t u => congrArg fun p : Place => UInt32.ofNat p.offset
  case stops =>
    have stop := congrArg Place.offset (lexFrom_stop .origin text.toList)
    rw [Place.offset_advanceAll, String.ofList_toList] at stop
    change ((lex text).getLast?.map Token.stop |>.getD Place.origin).offset = 0 + text.utf8ByteSize at stop
    rw [Nat.zero_add] at stop
    rw [← stop]
    cases last : (lex text).getLast? with
    | none => rfl
    | some t => exact (fits t (List.mem_of_getLast? last)).2
  case nonempty =>
    intro t ht
    obtain ⟨first, last⟩ := fits t ht
    rw [UInt32.lt_iff_toNat_lt, first, last]
    exact (offsets_of_mem ht).1
  case slices =>
    intro t ht
    obtain ⟨first, last⟩ := fits t ht
    rw [first, last]
    exact (offsets_of_mem ht).2
  case joined => exact String.toList_inj.1 (QuickFix.texts_lexFrom _ _)
  case stable =>
    intro t ht
    obtain ⟨a, c, rest, -, kind, piece, -⟩ := mem_lexFrom t ht
    rw [lex, Token.word, kind, piece, String.toList_ofList]
    exact lexFrom_self .origin c rest
  case unclosed => exact lexFrom_unclosed _ _
  case longest => exact fun words => lexes_iff

theorem lex_partition_unclosed :
    let text := "SELECT -1.5e3x--\u00e9\n'it''s"
    Partition text (lex text) ∧ (lex text).map (·.kind) =
      [.keyword .selectKw, .blank, .minus, .scientific, .ident, .comment, .blank, .openString] :=
  ⟨lex_partition (by decide), by decide +kernel⟩

end Lexer

end SkyQuery
