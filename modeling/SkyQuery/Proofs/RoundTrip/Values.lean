import SkyQuery.Proofs.RoundTrip.Calls

/-!
# Values are read back

Each level of the grammar of values reads back the expressions that bind at least as tightly as the
level demands. `value_reads` is the main statement.
-/

namespace SkyQuery.Grammar

open Parse

variable {v : Version} {n : Nat} {rest : List Word}

/-! ### Columns and literals -/

theorem ofParts?_columnParts {c : ColumnRef} (h : c.WellFormed v) : ColumnRef.ofParts? c.parts = some c := by
  obtain ⟨table, column⟩ := c
  cases table with
  | none => rfl
  | some t =>
    obtain ⟨catalog, schema, table⟩ := t
    have qualified := (h.2 _ rfl).2.2.2
    cases schema <;> cases catalog <;> first | rfl | cases qualified rfl

theorem columnParts_length (c : ColumnRef) : c.parts.length ≤ 4 := by
  obtain ⟨table, column⟩ := c
  cases table with
  | none => exact Nat.le_add_left 1 3
  | some t =>
    obtain ⟨catalog, schema, table⟩ := t
    cases schema <;> cases catalog <;> simp [ColumnRef.parts, TableName.parts]

theorem columnRef_reads {c : ColumnRef} (h : c.WellFormed v) (ends : (nextKind rest).binding ≤ 15)
    (span : Option Span) : Reads v columnRef (dottedWords c.parts) rest (·.Same (.column c span)) := by
  refine .place fun start => ?_
  have noDot : nextKind rest ≠ .dot := fun dot => by
    rw [dot] at ends
    exact absurd ends (by decide)
  have parts := reads_dotted c.parts_ne_nil h.parts (columnParts_length c) (.inl noDot)
  refine parts.close fun found hfound => ?_
  rw [hfound, ofParts?_columnParts h]
  exact .spanFrom fun _ => reads_pure rfl

theorem unquote_quoted (value : String) : unquote (Text.quoted '\'' value) = value := by
  simp [unquote, Text.quoted, Text.halved_doubled]

theorem literal_reads (value : String) (ends : nextKind rest ≠ .string) :
    Reads v (bounded literalsFor) [(.string, Text.quoted '\'' value)] rest (· = value) := by
  refine .bounded (.current fun t ht => ?_)
  have kind : t.kind = .string := congrArg Prod.fst ht
  refine .iteTrue (beq_iff_eq.2 kind) (.advance fun u hu => ?_)
  have text : u.text = Text.quoted '\'' value := congrArg Prod.snd hu
  have stop : ∀ m, Reads v (literalsFor m) [] rest (· = "") := by
    intro m
    cases m with
    | zero => exact reads_pure rfl
    | succ m =>
      intro s hs
      have other : ¬(s.current.kind == .string) = true := by
        rw [beq_iff_eq, hs.kind]
        exact ends
      refine ⟨"", s, ?_, hs, rfl⟩
      unfold literalsFor
      rw [current_bind, if_neg other]
      rfl
  refine (stop _).close fun tail htail => reads_pure ?_
  rw [text, htail, unquote_quoted, String.append_empty]

/-! ### Primaries -/

variable {value : Parse Operand}

theorem call_first {o : Operand} (h : o.WellFormed v) (called : isCall o = true) :
    ∃ w us, o.words = w :: openWord :: us ∧
      (w.1.isFunction = true ∨ w.1 = .ident ∧ ∃ i : Identifier, i.WellFormed v ∧ w = i.word) := by
  obtain ⟨rule, -⟩ := h
  cases o with
  | aggregate fn distinct arg span => cases arg <;> exact ⟨_, _, rfl, .inl rfl⟩
  | geometry fn sys args span => cases sys <;> exact ⟨_, _, rfl, .inl rfl⟩
  | userDefined name args span =>
    refine ⟨_, _, rfl, .inr ⟨?_, name, rule.2, rfl⟩⟩
    rw [Identifier.word, rule.1]
    rfl
  | math | lower | upper | coalesce | inUnit | cast => exact ⟨_, _, rfl, .inl rfl⟩
  | _ => cases called

theorem Parse.Reads.call {α : Type} {f : Bool → Parse α} {w : Word} {us : List Word} {P : α → Prop}
    (starts : w.1.isFunction = true ∨ w.1 = .ident ∧ ∃ i : Identifier, i.WellFormed v ∧ w = i.word)
    (h : Reads v (f true) (w :: openWord :: us) rest P) :
    Reads v (seesCall >>= f) (w :: openWord :: us) rest P := by
  intro s hs
  have here : (s.current.kind.isFunction ||
      (s.current.kind == .ident && isIdentifier v s.current && s.second.kind == .leftParen)) = true := by
    have kind : s.current.kind = w.1 := hs.kind
    have second : s.second.kind = .leftParen := hs.secondKind
    rcases starts with function | ⟨ident, i, hi, rfl⟩
    · rw [kind, function, Bool.true_or]
    · rw [kind, ident, isIdentifier_word hi hs.current, second]
      rfl
  rw [bind_eq (a := true) (by rw [seesCall, here])]
  exact h s hs

/-- A name without a parenthesis after it is no call. -/
theorem Parse.Reads.noCall {α : Type} {f : Bool → Parse α} {i : Identifier} {us : List Word} {P : α → Prop}
    (next : nextKind (us ++ rest) ≠ .leftParen) (h : Reads v (f false) (i.word :: us) rest P) :
    Reads v (seesCall >>= f) (i.word :: us) rest P := by
  intro s hs
  have here : (s.current.kind.isFunction ||
      (s.current.kind == .ident && isIdentifier v s.current && s.second.kind == .leftParen)) = false := by
    have kind : s.current.kind = i.word.1 := hs.kind
    have second : (s.second.kind == .leftParen) = false := by
      rw [hs.secondKind, beq_eq_false_iff_ne]
      exact next
    rw [kind, second, Bool.and_false, Bool.or_false, Identifier.word]
    cases i.delimited <;> rfl
  rw [bind_eq (a := false) (by rw [seesCall, here])]
  exact h s hs

theorem primary_readsBack (hv : ReadsBack v value n 0) :
    ReadsBack v (primary (call value) value) (n + 1) 4 := by
  intro o h tight short rest ends
  unfold primary
  -- `primary` looks for calls last: before them it asks for numbers, strings and parentheses.
  by_cases called : isCall o = true
  · have read : Reads v (call value) o.words rest (·.Same o) := call_reads hv h called short
    obtain ⟨w, us, hw, starts⟩ := call_first h called
    rw [hw] at read ⊢
    refine .place fun start => .current fun t ht => ?_
    have kind : t.kind = w.1 := congrArg Prod.fst ht
    have other : w.1.isNumber = false ∧ w.1 ≠ .string ∧ w.1 ≠ .leftParen := by
      rcases starts with function | ⟨ident, -⟩
      · cases hk : w.1 <;> simp_all [Kind.isFunction, Kind.isNumber]
      · rw [ident]
        exact ⟨rfl, (by intro same; cases same), (by intro same; cases same)⟩
    rw [← kind] at other
    refine .iteFalse (by rw [other.1]; exact Bool.false_ne_true) ?_
    refine .iteFalse (mt beq_iff_eq.1 other.2.1) (.iteFalse (mt beq_iff_eq.1 other.2.2) ?_)
    exact .call starts read
  · obtain ⟨rule, parts⟩ := h
    cases o with
    | numeric text span =>
      obtain ⟨k, number, whole⟩ := rule
      refine .place fun start => .current fun t ht => ?_
      have kind : t.kind = k := (congrArg Prod.fst ht).trans (congrArg Prod.fst whole.2)
      have htext : t.text = text := congrArg Prod.snd ht
      refine .iteTrue (by rw [kind]; exact number) (.advance fun _ _ => .spanFrom fun _ => reads_pure ?_)
      rw [htext]
      rfl
    | string value span =>
      refine .place fun start => .current fun t ht => ?_
      have kind : t.kind = .string := congrArg Prod.fst ht
      refine .iteFalse (by rw [kind]; exact Bool.false_ne_true) (.iteTrue (beq_iff_eq.2 kind) ?_)
      have next : nextKind rest ≠ .string := fun string => by
        rw [string] at ends
        exact absurd ends (by decide)
      exact (literal_reads value next).close fun text htext => .spanFrom fun _ => reads_pure (by rw [htext]; rfl)
    | wrapped inner span =>
      refine .place fun start => .current fun t ht => ?_
      have kind : t.kind = .leftParen := congrArg Prod.fst ht
      refine .iteFalse (by rw [kind]; exact Bool.false_ne_true) (.iteFalse ?_ (.iteTrue (beq_iff_eq.2 kind) ?_))
      · rw [kind]
        intro h
        cases h
      have shorter : inner.words.length ≤ n := by
        simp only [Operand.words, List.length_cons, List.length_append] at short
        omega
      refine .advance fun _ _ => ?_
      refine (hv inner (parts inner List.mem_cons_self) (Nat.zero_le _) shorter _ (Nat.zero_le _)).bind ?_
      exact fun b hb => .expect fun _ _ => .spanFrom fun _ => reads_pure (congrArg (Operand.wrapped · none) hb)
    | column ref span =>
      have read : Reads v columnRef (dottedWords ref.parts) rest (·.Same (.column ref span)) :=
        columnRef_reads rule ends span
      have names := rule.parts
      obtain ⟨i, others, hparts⟩ := List.exists_cons_of_ne_nil ref.parts_ne_nil
      rw [Operand.words]
      rw [hparts, dottedWords_cons] at read ⊢
      rw [hparts] at names
      refine .place fun start => .current fun t ht => ?_
      have kind : t.kind = i.word.1 := congrArg Prod.fst ht
      have other : i.word.1.isNumber = false ∧ i.word.1 ≠ .string ∧ i.word.1 ≠ .leftParen := by
        unfold Identifier.word
        cases i.delimited <;> exact ⟨rfl, (by intro same; cases same), (by intro same; cases same)⟩
      rw [← kind] at other
      refine .iteFalse (by rw [other.1]; exact Bool.false_ne_true) ?_
      refine .iteFalse (mt beq_iff_eq.1 other.2.1) (.iteFalse (mt beq_iff_eq.1 other.2.2) ?_)
      -- The only word after a column that could make it a call is an opening parenthesis.
      refine .noCall ?_ (.atIdentifier (names i List.mem_cons_self) read)
      cases others with
      | nil =>
        intro paren
        rw [show nextKind rest = .leftParen from paren] at ends
        exact absurd ends (by decide)
      | cons j others =>
        intro h
        cases h
    -- These bind less than a primary does.
    | negative inner span => exact absurd (show 4 ≤ 3 from tight) (by decide)
    | concatenation parts span => exact absurd (show 4 ≤ 0 from tight) (by decide)
    | operation left op right span =>
      have low : op.rank < 4 := by cases op <;> decide
      exact absurd (show 4 ≤ op.rank from tight) (by omega)
    | _ => exact absurd rfl called

/-! ### Signs -/

variable {base : Parse Operand}

theorem eq_negative_of_rank {o : Operand} (h : o.rank = 3) : ∃ inner span, o = .negative inner span := by
  cases o with
  | negative inner span => exact ⟨inner, span, rfl⟩
  | operation left op right span => cases op <;> cases h
  | _ => cases h

theorem eq_operation_of_rank {o : Operand} (h : 1 ≤ o.rank ∧ o.rank ≤ 2) :
    ∃ left op right span, o = .operation left op right span := by
  cases o with
  | operation left op right span => exact ⟨left, op, right, span, rfl⟩
  | _ => exact absurd h (by simp [Operand.rank])

theorem signedFor_reads (hbase : ReadsBack v base n 4) (m : Nat) {o : Operand} (h : o.WellFormed v)
    (tight : 3 ≤ o.rank) (short : o.words.length ≤ n) (enough : o.words.length ≤ m)
    (ends : (nextKind rest).binding ≤ 14) : Reads v (signedFor base m) o.words rest (·.Same o) := by
  induction m generalizing o with
  | zero => exact absurd (o.words_pos h) (by omega)
  | succ m ih =>
    rcases Nat.lt_or_eq_of_le tight with primary | negative
    · obtain ⟨w, us, hw, opens, noSign⟩ := o.first h
      have read := hbase o h primary short rest (Nat.le_succ_of_le ends)
      rw [hw] at read ⊢
      have noPlus : nextKind [w] ≠ .plus := ne_of_opensValue opens rfl
      exact .place fun start => .eatElse (noSign primary) (.eatElse noPlus read)
    · obtain ⟨inner, span, rfl⟩ := eq_negative_of_rank negative.symm
      obtain ⟨⟨numeric, innerTight⟩, parts⟩ := h
      have read := ih (parts inner List.mem_cons_self) innerTight (Nat.le_of_succ_le short)
        (Nat.le_of_succ_le_succ enough)
      refine .place fun start => .eatThen (read.close fun b hb => ?_)
      refine (reads_checkNumeric ?_).andThen fun _ _ => .spanFrom fun _ => reads_pure ?_
      · rw [hb.isNumeric, numeric]
      · exact congrArg (Operand.negative · none) hb

theorem signed_readsBack (hbase : ReadsBack v base n 4) : ReadsBack v (signed base) n 3 := by
  intro o h tight short rest ends
  refine .bounded (signedFor_reads hbase _ h tight short ?_ ends)
  rw [List.length_append]
  omega

/-! ### Arithmetic -/

theorem arithOp_binding (op : ArithOp) : op.word.1.binding = 12 + op.rank := by cases op <;> rfl

theorem arithOp_rank_le (op : ArithOp) : op.rank ≤ 2 := by cases op <;> decide

/-- The operators of one rank, each with its token. -/
structure AreOperators (first second : Kind × ArithOp) (r : Nat) : Prop where
  all : ∀ op : ArithOp, op.rank = r → (op.word.1, op) = first ∨ (op.word.1, op) = second
  distinct : first.1 ≠ second.1
  first_binding : first.1.binding = 12 + r
  second_binding : second.1.binding = 12 + r
  range : 1 ≤ r ∧ r ≤ 2

variable {first second : Kind × ArithOp} {item : Parse Operand} {r : Nat}

theorem operator_reads (operators : AreOperators first second r) {op : ArithOp} (rank : op.rank = r)
    {ws : List Word} : Reads v (arithmetic.operator first second) [] (op.word :: ws) (· = some op) := by
  rcases operators.all op rank with rfl | rfl
  · exact .sees (.iteTrue (beq_iff_eq.2 rfl) (reads_pure rfl))
  · refine .sees (.iteFalse (mt beq_iff_eq.1 ?_) (.sees (.iteTrue (beq_iff_eq.2 rfl) (reads_pure rfl))))
    exact operators.distinct.symm

theorem noOperator_reads (operators : AreOperators first second r) (ends : (nextKind rest).binding ≤ 11 + r) :
    Reads v (arithmetic.operator first second) [] rest (· = none) := by
  have hfirst := operators.first_binding
  have hsecond := operators.second_binding
  refine .sees (.iteFalse (mt beq_iff_eq.1 fun here => ?_)
    (.sees (.iteFalse (mt beq_iff_eq.1 fun here => ?_) (reads_pure rfl))))
  · rw [show nextKind rest = first.1 from here] at ends
    omega
  · rw [show nextKind rest = second.1 from here] at ends
    omega

/-- One more operator and its right side. -/
def arithmetic.round (first second : Kind × ArithOp) (item : Parse Operand) (start : Place) (left : Operand) :
    Parse (Option Operand) := do
  match ← arithmetic.operator first second with
  | none => return none
  | some op =>
    let _ ← advance
    let right ← item
    checkNumeric left
    checkNumeric right
    return some (.operation left op right (← spanFrom start))

theorem round_reads (operators : AreOperators first second r) (hitem : ReadsBack v item n (r + 1))
    {left right : Operand} {op : ArithOp} {span : Option Span} (rule : (Operand.operation left op right span).Rule v)
    (h : right.WellFormed v) (short : right.words.length ≤ n) (rank : op.rank = r)
    (ends : (nextKind rest).binding ≤ 12 + r) (start : Place) {a : Operand} (ha : a.Same left) :
    Reads v (arithmetic.round first second item start a) (op.word :: right.words) rest
      fun found => ∃ b, found = some b ∧ b.Same (.operation left op right span) := by
  obtain ⟨leftNumeric, rightNumeric, -, tight⟩ := rule
  refine (operator_reads operators rank).andThen fun found hfound => ?_
  subst hfound
  have read := hitem right h (by omega) short rest (by omega)
  refine .advance fun _ _ => read.close fun b hb => ?_
  refine (reads_checkNumeric ?_).andThen fun _ _ => (reads_checkNumeric ?_).andThen fun _ _ => ?_
  · rw [ha.isNumeric, leftNumeric]
  · rw [hb.isNumeric, rightNumeric]
  · refine .spanFrom fun _ => reads_pure ⟨_, rfl, ?_⟩
    change Operand.operation a.unplaced op b.unplaced none = Operand.operation left.unplaced op right.unplaced none
    rw [show a.unplaced = left.unplaced from ha, show b.unplaced = right.unplaced from hb]

theorem arithmetic_grows (operators : AreOperators first second r) (hitem : ReadsBack v item n (r + 1))
    (start : Place) {o : Operand} (h : o.WellFormed v) (loose : r ≤ o.rank) (short : o.words.length ≤ n)
    (ends : (nextKind rest).binding ≤ 12 + r) :
    Grows v item (arithmetic.round first second item start) o.words rest (·.Same o) := by
  induction h generalizing rest with
  | @intro o rule parts ih =>
    rcases Nat.lt_or_eq_of_le loose with tighter | rank
    · exact .base (hitem o ⟨rule, parts⟩ tighter short rest (by omega))
    · obtain ⟨left, op, right, span, rfl⟩ := eq_operation_of_rank (rank ▸ operators.range)
      have rank : op.rank = r := rank.symm
      rw [Operand.words, List.length_append, List.length_cons] at short
      have next : (nextKind (op.word :: right.words ++ rest)).binding ≤ 12 + r := by
        rw [List.cons_append, nextKind_cons, arithOp_binding]
        omega
      have grown := ih left List.mem_cons_self (by rw [← rank]; exact rule.2.2.1) (by omega) next
      refine grown.grow (List.cons_ne_nil _ _) fun a ha => ?_
      exact round_reads operators hitem rule (parts right (by simp [Operand.children])) (by omega) rank ends start ha

theorem arithmetic_readsBack (operators : AreOperators first second r) (hitem : ReadsBack v item n (r + 1)) :
    ReadsBack v (arithmetic first second item) n r := by
  intro o h loose short rest ends
  refine .place fun start => ?_
  have ends' : (nextKind rest).binding ≤ 12 + r := by omega
  refine (arithmetic_grows operators hitem start h loose short ends').done fun a _ => ?_
  exact (noOperator_reads operators ends).andThen fun found hfound => hfound ▸ reads_pure rfl

theorem additive_readsBack (hbase : ReadsBack v base n 4) : ReadsBack v (additive base) n 1 := by
  have products : AreOperators (.star, .mul) (.slash, .div) 2 :=
    ⟨fun op rank => by cases op <;> simp_all [ArithOp.rank, ArithOp.word], by simp, rfl, rfl, by decide⟩
  have sums : AreOperators (.plus, .add) (.minus, .sub) 1 :=
    ⟨fun op rank => by cases op <;> simp_all [ArithOp.rank, ArithOp.word], by simp, rfl, rfl, by decide⟩
  exact arithmetic_readsBack sums (arithmetic_readsBack products (signed_readsBack hbase))

/-! ### Concatenations -/

theorem concatenation_readsBack (hbase : ReadsBack v base n 4) : ReadsBack v (concatenation base) n 0 := by
  intro o h _ short rest ends
  have hitem := additive_readsBack hbase
  rcases Nat.eq_zero_or_pos o.rank with rank | tight
  · obtain ⟨parts, span, rfl⟩ : ∃ parts span, o = .concatenation parts span := by
      cases o with
      | concatenation parts span => exact ⟨parts, span, rfl⟩
      | operation left op right span => cases op <;> cases rank
      | _ => cases rank
    obtain ⟨⟨two, each⟩, wf⟩ := h
    rw [Operand.words, Operand.allWords_eq_map] at short ⊢
    obtain ⟨p, others, rfl⟩ := List.exists_cons_of_length_pos (Nat.lt_of_lt_of_le Nat.zero_lt_two two)
    have partShort {o : Operand} (member : o ∈ p :: others) : o.words.length ≤ n :=
      Nat.le_trans (length_le_joined (List.mem_map_of_mem member)) short
    have part {o : Operand} (member : o ∈ p :: others) (after : List Word)
        (hafter : (nextKind after).binding ≤ 12) : Reads v (additive base) o.words after (·.Same o) :=
      hitem o (wf o member) (each o member).2 (partShort member) after hafter
    have string {o a : Operand} (member : o ∈ p :: others) (ha : a.Same o) : a.isString = true := by
      rw [ha.isString, (each o member).1]
    obtain ⟨q, more, rfl⟩ := List.exists_cons_of_length_pos (Nat.lt_of_succ_lt_succ two)
    rw [List.map_cons, joined, List.flatMap_map]
    refine .place fun start => (part List.mem_cons_self _ ?_).bind fun a ha => ?_
    · exact Nat.le_refl _
    refine .sees (.iteTrue (beq_iff_eq.2 rfl) ((reads_checkString (string List.mem_cons_self ha)).andThen fun _ _ => ?_))
    refine (reads_followers Operand.unplaced (.concat, "||") _ (fun o ho after hafter => ?_) ?_).close ?_
    · refine (part (List.mem_cons_of_mem p ho) after hafter).close fun b hb => ?_
      exact (reads_checkString (string (List.mem_cons_of_mem p ho) hb)).andThen fun _ _ => reads_pure hb
    · exact Nat.lt_of_le_of_lt ends (by decide)
    · refine fun bs hbs => .spanFrom fun _ => reads_pure ?_
      have all : Operand.SameAll (a :: bs) (p :: q :: more) := by
        rw [Operand.SameAll, List.map_cons, List.map_cons, hbs, show a.unplaced = p.unplaced from ha]
      exact congrArg (Operand.concatenation · none) all.allUnplaced
  · refine .place fun start => (hitem o h tight short rest (Nat.le_succ_of_le ends)).close fun a ha => ?_
    refine .sees (.iteFalse (mt beq_iff_eq.1 fun here => ?_) (reads_pure ha))
    rw [show nextKind rest = .concat from here] at ends
    exact absurd ends (by decide)

/-! ### Values -/

theorem valueFor_readsBack (n : Nat) : ReadsBack v (valueFor n) n 0 := by
  induction n with
  | zero =>
    intro o h _ short rest ends
    exact absurd (o.words_pos h) (by omega)
  | succ n ih => exact concatenation_readsBack (primary_readsBack ih)

/-- The words of an expression are read as the same expression, before anything that does not go on
with it. -/
theorem value_reads {o : Operand} (h : o.WellFormed v) (ends : (nextKind rest).binding ≤ 11) :
    Reads v Grammar.value o.words rest (·.Same o) := by
  refine .bounded (valueFor_readsBack _ o h (Nat.zero_le _) ?_ rest ends)
  rw [List.length_append]
  omega

theorem values_reads {os : List Operand} (nonempty : os ≠ []) (h : ∀ o ∈ os, o.WellFormed v)
    (ends : (nextKind rest).binding < commaWord.1.binding) :
    Reads v (commaSeparated Grammar.value) (joined commaWord (os.map Operand.words)) rest
      (Operand.SameAll · os) := by
  refine reads_sepBy Operand.unplaced commaWord nonempty (fun o ho after hafter => ?_) ends
  exact value_reads (h o ho) (Nat.le_trans hafter (by decide))

end SkyQuery.Grammar
