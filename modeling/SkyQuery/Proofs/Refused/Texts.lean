import SkyQuery.Proofs.Located.Texts
import SkyQuery.Proofs.Refused.Queries
import SkyQuery.Proofs.Source.LineIndex

/-!
# Why texts are refused

`Entry.read_error`: whatever a text is to be read as, the complaint about it has a code of reading and the
span of a piece of the text, and it is a lexical one exactly for a text with a piece that is no token. The span
is one that a `LineIndex` finds in 32 bits, unless the text is as long as 32-bit offsets allow
(`Entry.read_error_range`).
-/

namespace SkyQuery

open Grammar Parse

/-! ### Spans of a text -/

/-- The span of a piece of a text: it begins and ends where a character does, or at the end of the text. -/
structure Span.InText (text : String) (s : Span) : Prop where
  stands : ∃ before piece after : String, text = before ++ piece ++ after ∧
    s = Lines.span text before.utf8ByteSize (before ++ piece).utf8ByteSize
  order : before s.last s.first = false

/-- The span between two places of a text. -/
theorem Span.inText_between {text : String} {a b c : List Char} (h : text.toList = a ++ b ++ c) :
    (between (Place.origin.advanceAll a) (Place.origin.advanceAll (a ++ b))).InText text := by
  constructor
  · have whole : text = String.ofList a ++ String.ofList b ++ String.ofList c := by
      rw [← String.toList_inj]
      simp [h]
    refine ⟨String.ofList a, String.ofList b, String.ofList c, whole, ?_⟩
    have first := Lines.lineColumn_append (String.ofList a) (String.ofList b ++ String.ofList c)
    have last := Lines.lineColumn_append (String.ofList a ++ String.ofList b) (String.ofList c)
    rw [← String.append_assoc, ← whole, String.toList_ofList] at first
    rw [← whole, ← String.ofList_append, String.toList_ofList] at last
    rw [Lines.span, ← String.ofList_append, first, last]
    rfl
  · rw [← Bool.not_eq_true, Span.before_iff, Place.advanceAll_append]
    exact Place.not_advanceAll_before _ b

/-- A span of a text is the one that an index of the text finds for a range of 32-bit offsets. -/
theorem Span.InText.exists_range {text : String} {s : Span} (h : s.InText text)
    (short : text.utf8ByteSize + 1 < 2 ^ 32) :
    ∃ start stop : UInt32, (LineIndex.ofText text).span? start stop = some s := by
  obtain ⟨before, piece, after, rfl, rfl⟩ := h.stands
  have sizes : (before ++ piece ++ after).utf8ByteSize = (before ++ piece).utf8ByteSize + after.utf8ByteSize :=
    String.utf8ByteSize_append
  have inner : (before ++ piece).utf8ByteSize = before.utf8ByteSize + piece.utf8ByteSize := String.utf8ByteSize_append
  have whole := Nat.lt_of_succ_lt short
  have first := LineIndex.toNat_ofNat_of_le whole (n := before.utf8ByteSize) (by omega)
  have last := LineIndex.toNat_ofNat_of_le whole (n := (before ++ piece).utf8ByteSize) (by omega)
  refine ⟨UInt32.ofNat before.utf8ByteSize, UInt32.ofNat (before ++ piece).utf8ByteSize, ?_⟩
  rw [LineIndex.span?_eq whole (by omega) (by omega), first, last]

/-! ### Lexical faults -/

namespace Lexer

theorem span_inText {text : String} : ∀ t ∈ lex text, t.span.InText text := by
  have places (p : Place) (cs : List Char) : ∀ t ∈ lexFrom p cs, ∃ a b c, cs = a ++ b ++ c ∧
      t.start = p.advanceAll a ∧ t.stop = p.advanceAll (a ++ b) := by
    fun_induction lexFrom p cs with
    | case1 => exact List.forall_mem_nil _
    | case2 p c rest kind n _ text stop ih =>
      have cut : c :: rest = text ++ rest.drop n := by rw [List.cons_append, List.take_append_drop]
      refine List.forall_mem_cons.2 ⟨⟨[], text, rest.drop n, cut, rfl, rfl⟩, fun t ht => ?_⟩
      obtain ⟨a, b, d, split, start, stop⟩ := ih t ht
      refine ⟨text ++ a, b, d, ?_, ?_, ?_⟩
      · rw [cut, split, List.append_assoc, List.append_assoc, List.append_assoc]
      · rw [Place.advanceAll_append, start]
      · rw [List.append_assoc, Place.advanceAll_append, stop]
  intro t ht
  obtain ⟨a, b, c, cut, start, stop⟩ := places .origin text.toList t ht
  rw [Token.span, start, stop]
  exact Span.inText_between cut

theorem fault_span (t : Token) : (fault t).span = some t.span := by
  unfold fault
  split <;> rfl

theorem fault_isLexical (t : Token) : (fault t).code.isLexical = true := by
  unfold fault
  split <;> rfl

variable {p : Place} {ts : List Token} {e : Diagnostic} {t : Token}

theorem significant_error (h : significant false p ts = .error e) : ∃ t ∈ ts, t.kind.isFault = true ∧ e = fault t := by
  induction ts generalizing p with
  | nil => cases h
  | cons t others ih =>
    unfold significant at h
    split at h
    · obtain ⟨u, hu, found⟩ := ih h
      exact ⟨u, List.mem_cons_of_mem t hu, found⟩
    split at h
    · rename_i faulty
      cases h
      exact ⟨t, List.mem_cons_self, faulty, rfl⟩
    rw [Bool.false_and, if_neg Bool.false_ne_true] at h
    cases later : significant false t.stop others with
    | error e' =>
      rw [later] at h
      cases h
      obtain ⟨u, hu, found⟩ := ih later
      exact ⟨u, List.mem_cons_of_mem t hu, found⟩
    | ok us =>
      rw [later] at h
      cases h

theorem significant_of_fault (ht : t ∈ ts) (faulty : t.kind.isFault = true) : ∃ e, significant false p ts = .error e := by
  induction ts generalizing p with
  | nil => cases ht
  | cons u others ih =>
    unfold significant
    rcases List.mem_cons.1 ht with rfl | ht
    · have seen : t.kind.isTrivia = false := by
        cases kind : t.kind <;> rw [kind] at faulty <;> first | rfl | cases faulty
      rw [if_neg (by rw [seen]; exact Bool.false_ne_true), if_pos faulty]
      exact ⟨_, rfl⟩
    · split
      · exact ih ht
      split
      · exact ⟨_, rfl⟩
      obtain ⟨e, he⟩ := ih (p := u.stop) ht
      rw [Bool.false_and, if_neg Bool.false_ne_true, he]
      exact ⟨e, rfl⟩

end Lexer

/-! ### Tokens of a text -/

namespace Grammar

variable {v : Version} {p : Place} {cs : List Char} {ts : List Token} {span : Option Span} {text : String}

/-- The last token is the end of the text. -/
theorem Cut.last (h : Cut v p cs ts) : ∃ t, ts.getLast? = some t ∧ t.stop = p.advanceAll cs := by
  induction h with
  | ended p => exact ⟨.atEnd p, rfl, rfl⟩
  | @trivia p c rest ts seen next ih =>
    obtain ⟨t, last, stop⟩ := ih
    refine ⟨t, last, ?_⟩
    rw [stop, ← Place.advanceAll_append, List.cons_append, List.take_append_drop]
  | @token p c rest ts seen sound next ih =>
    obtain ⟨t, last, stop⟩ := ih
    refine ⟨t, by rw [List.getLast?_cons, last]; rfl, ?_⟩
    rw [stop, ← Place.advanceAll_append, List.cons_append, List.take_append_drop]

/-- Some tokens of a text span a piece of it. -/
theorem Cut.inText (h : Cut v .origin text.toList ts) (range : IsRange ts span) : ∃ s, span = some s ∧ s.InText text := by
  obtain ⟨i, j, ij, hj, rfl⟩ := range
  refine ⟨_, rfl, ?_⟩
  rcases Nat.lt_or_eq_of_le hj with inside | rfl
  · obtain ⟨a, b, c, cut, start, stop, -⟩ := h.range ij inside
    rw [spanOf, start, stop]
    exact Span.inText_between cut
  · obtain ⟨a, b, cut, -, start⟩ := h.drop ij
    obtain ⟨t, last, stop⟩ := h.last
    have stop : stopBefore ts ts.length = Place.origin.advanceAll (a ++ b) := by
      rw [stopBefore, List.take_length, last, ← cut]
      exact stop
    rw [spanOf, start, stop]
    exact Span.inText_between (c := []) (by rw [cut, List.append_nil])

end Grammar

/-! ### Texts -/

/-- What the complaint about a text that cannot be read says. -/
structure Diagnostic.Refuses (text : String) (e : Diagnostic) : Prop where
  syntactic : e.code.isSyntactic = true
  placed : ∃ s, e.span = some s ∧ s.InText text
  lexical : e.code.isLexical = true ↔ ∃ t ∈ Lexer.lex text, t.kind.isFault = true

variable {v : Version} {text : String} {α : Type} {p : Parse α} {e : Diagnostic}

theorem tokensFor_error (h : tokensFor v text = .error e) : ∃ t ∈ Lexer.lex text, t.kind.isFault = true ∧ e = Lexer.fault t := by
  unfold tokensFor Lexer.tokenize at h
  cases cut : Lexer.significant false .origin (Lexer.lex text) with
  | error e' =>
    rw [cut] at h
    cases h
    exact Lexer.significant_error cut
  | ok us =>
    rw [cut] at h
    cases h

theorem tokensFor_of_fault {t : Token} (ht : t ∈ Lexer.lex text) (faulty : t.kind.isFault = true) :
    ∃ e, tokensFor v text = .error e := by
  obtain ⟨e, he⟩ := Lexer.significant_of_fault (p := .origin) ht faulty
  exact ⟨e, by rw [tokensFor, Lexer.tokenize, he]; rfl⟩

theorem Lexer.fault_refuses {t : Token} (ht : t ∈ lex text) (faulty : t.kind.isFault = true) : (fault t).Refuses text := by
  refine ⟨?_, ⟨t.span, fault_span t, span_inText t ht⟩, fun _ => ⟨t, ht, faulty⟩, fun _ => fault_isLexical t⟩
  have lexical := fault_isLexical t
  cases kind : (fault t).code <;> rw [kind] at lexical <;> first | rfl | cases lexical

theorem error_of_map {α β : Type} {r : Except Diagnostic α} {f : α → β} (h : r.map f = .error e) : r = .error e := by
  cases r <;> cases h
  rfl

theorem readWhole_refuses (moves : Moves v p) (blames : ∀ tokens, Blames v tokens 0 p) (h : readWhole p v text = .error e) :
    e.Refuses text := by
  cases htokens : tokensFor v text with
  | error e' =>
    obtain rfl := Except.error.inj ((readWhole_error htokens).symm.trans h)
    obtain ⟨t, ht, faulty, rfl⟩ := tokensFor_error htokens
    exact Lexer.fault_refuses ht faulty
  | ok tokens =>
    have all : Blames v tokens 0 (whole p) := by
      refine (blames tokens).step moves fun j a _ => .eatIf (fun _ _ => (blames_expect _).map) fun _ _ => ?_
      exact .sees fun _ => .ite (fun _ => blames_pure a) fun _ => blames_unexpected
    have refused : whole p v (State.ofTokens tokens) = .error e := error_of_map ((readWhole_tokens htokens).symm.trans h)
    have cut := cut_of_tokensFor htokens
    obtain ⟨code, range⟩ := all _ e (State.ofTokens_at cut.ended_by) refused
    obtain ⟨syntactic, other⟩ := Bool.and_eq_true_iff.1 code
    refine ⟨syntactic, cut.inText range, fun lexical => ?_, ?_⟩
    · rw [lexical] at other
      cases other
    · rintro ⟨t, ht, faulty⟩
      obtain ⟨e', he'⟩ := tokensFor_of_fault (v := v) ht faulty
      cases htokens.symm.trans he'

theorem Entry.read_refuses {entry : Entry} (h : entry.read v text = .error e) : e.Refuses text := by
  have condition : Moves v (condition subquery) := (rereads_condition (d := 0) rereads_subquery).moves
  cases entry with
  | query =>
    have moves : Moves v Grammar.query := moves_of_ends fun _ => query_located
    exact readWhole_refuses moves (fun _ => blames_query 0) (error_of_map h)
  | select => exact readWhole_refuses rereads_selectClause.moves (fun _ => blames_selectClause 0) (error_of_map h)
  | source =>
    exact readWhole_refuses (rereads_fromClause rereads_subquery).moves
      (fun _ => blames_fromClause (fun _ => rereads_subquery) blames_subquery 0) (error_of_map h)
  | filter =>
    refine readWhole_refuses ((moves_expect _).seq fun _ => condition) (fun _ => ?_) (error_of_map h)
    exact .expect (by nofun) fun j _ _ => blames_condition (fun _ => rereads_subquery) blames_subquery j
  | orderBy => exact readWhole_refuses rereads_orderByClause.moves (fun _ => blames_orderByClause 0) (error_of_map h)
  | groupBy => exact readWhole_refuses rereads_groupByClause.moves (fun _ => blames_groupByClause 0) (error_of_map h)

/-- The span of a complaint is the one that an index of the text finds for a range of 32-bit offsets. -/
theorem Entry.read_error_range {entry : Entry} (h : entry.read v text = .error e) (short : text.utf8ByteSize + 1 < 2 ^ 32) :
    ∃ start stop : UInt32, (LineIndex.ofText text).span? start stop = e.span := by
  obtain ⟨s, placed, inText⟩ := (read_refuses h).placed
  rw [placed]
  exact inText.exists_range short

theorem Entry.read_of_fault {entry : Entry} {t : Token} (ht : t ∈ Lexer.lex text) (faulty : t.kind.isFault = true) :
    ∃ e, entry.read v text = .error e := by
  obtain ⟨e, he⟩ := tokensFor_of_fault (v := v) ht faulty
  have refused {β : Type} (p : Parse β) : readWhole p v text = .error e := readWhole_error he
  refine ⟨e, ?_⟩
  cases entry with
  | query => exact congrArg (Except.map Fragment.query) (refused Grammar.query)
  | select => exact congrArg (Except.map Fragment.select) (refused selectClause)
  | source => exact congrArg (Except.map Fragment.source) (refused (fromClause subquery))
  | filter => exact congrArg (Except.map Fragment.filter) (refused whereClause)
  | orderBy => exact congrArg (Except.map Fragment.orderBy) (refused orderByClause)
  | groupBy => exact congrArg (Except.map Fragment.groupBy) (refused groupByClause)

/-- Whatever a text is read as, a complaint has a code of reading and the span of a piece of the text; it is
a lexical one exactly if some piece of the text is no token. -/
theorem Entry.read_error (entry : Entry) (v : Version) (text : String) :
    (∀ e, entry.read v text = .error e → e.code.isSyntactic = true ∧ ∃ s, e.span = some s ∧ s.InText text) ∧
    ((∃ e, entry.read v text = .error e ∧ e.code.isLexical = true) ↔ ∃ t ∈ Lexer.lex text, t.kind.isFault = true) := by
  refine ⟨fun e h => ⟨(read_refuses h).syntactic, (read_refuses h).placed⟩, ?_, ?_⟩
  · rintro ⟨e, h, lexical⟩
    exact (read_refuses h).lexical.1 lexical
  · rintro ⟨t, ht, faulty⟩
    obtain ⟨e, he⟩ : ∃ e, entry.read v text = .error e := read_of_fault ht faulty
    exact ⟨e, he, (read_refuses he).lexical.2 ⟨t, ht, faulty⟩⟩

/-- A call is blamed with all its arguments, on the line where it stands. -/
theorem Entry.read_error_arity :
    let text := "SELECT a,\n  SIN(b, 2) FROM t"
    ∃ e, Entry.query.read .v21 text = .error e ∧ e.code = .wrongArity ∧ e.code.isSyntactic = true ∧
      (∃ s, e.span = some s ∧ s.InText text) ∧ ¬∃ t ∈ Lexer.lex text, t.kind.isFault = true := by
  intro text
  have refused : ∃ e, (Entry.query.read .v21 text).map (fun _ => ()) = .error e ∧ e.code = .wrongArity := by
    let message := "Wrong number of parameters for the function \"SIN\": 1 expected, 2 given!"
    exact ⟨⟨.wrongArity, message, some ⟨2, 3, 2, 12⟩, none⟩, by decide +kernel, rfl⟩
  obtain ⟨e, he, code⟩ := refused
  have he := error_of_map he
  obtain ⟨located, lexical⟩ := Entry.read_error .query .v21 text
  refine ⟨e, he, code, (located e he).1, (located e he).2, fun faulty => ?_⟩
  obtain ⟨e', he', fault⟩ := lexical.2 faulty
  obtain rfl := Except.error.inj (he.symm.trans he')
  rw [code] at fault
  cases fault

end SkyQuery
