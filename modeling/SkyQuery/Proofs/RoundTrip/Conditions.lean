import SkyQuery.Proofs.Rereads.Conditions

/-!
# Conditions are read back

`condition_reads`: conditions are read back if the reader of subqueries reads back the queries in
them. Where a parenthesis opens a value the attempt to read a group fails, and the value is read after
all.
-/

namespace SkyQuery

open Grammar

variable {v : Version}

/-! ### First words -/

theorem QueryBody.first : ∀ body : QueryBody, ∃ us, body.words = keywordWord .selectKw :: us
  | .select { .. } => ⟨_, rfl⟩
  | .set { left, .. } => by
    obtain ⟨us, hus⟩ := QueryBody.first left
    exact ⟨_, by rw [QueryBody.words, SetOperation.words, hus, List.cons_append]⟩

theorem Query.Nested.first {q : Query} (h : q.Nested v) : ∃ us, q.words = keywordWord .selectKw :: us := by
  obtain ⟨withItems, body, span⟩ := q
  obtain ⟨rfl, -⟩ := h
  exact body.first

/-- The kinds of the words with which conditions start. -/
def Kind.opensCondition (k : Kind) : Bool :=
  k.opensValue || k == .keyword .notKw || k == .keyword .existsKw

theorem opensCondition_append {o : Operand} (h : o.WellFormed v) (rest : List Word) :
    (nextKind (o.words ++ rest)).opensCondition = true := by
  rw [Kind.opensCondition, o.opensValue h rest]
  rfl

theorem Constraint.opensCondition : ∀ {c : Constraint}, c.WellFormed v → ∀ rest,
    (nextKind (c.words ++ rest)).opensCondition = true
  | .comparison left op right _, h, rest => by
    rw [words, List.append_assoc]
    exact opensCondition_append h.2.1 _
  | .between value low high negated _, h, rest => by
    rw [words, List.append_assoc]
    exact opensCondition_append h.1 _
  | .inValues value values negated _, h, rest => by
    rw [words, List.append_assoc]
    exact opensCondition_append h.2.1 _
  | .inQuery value query negated _, h, rest => by
    rw [words, List.append_assoc]
    exact opensCondition_append h.1 _
  | .isNull value negated _, h, rest => by
    rw [words, List.append_assoc]
    exact opensCondition_append h.2 _
  | .nonEmpty query _, h, rest => rfl
  | .not inner _, h, rest => rfl
  | .and left right _, h, rest => by
    rw [words, List.append_assoc]
    exact Constraint.opensCondition h.2.2.1 _
  | .or left right _, h, rest => by
    rw [words, List.append_assoc]
    exact Constraint.opensCondition h.2.1 _
  | .group inner _, h, rest => rfl

theorem Constraint.words_pos {c : Constraint} (h : c.WellFormed v) : 0 < c.words.length := by
  have opens := Constraint.opensCondition h []
  cases hw : c.words with
  | nil => rw [hw] at opens; cases opens
  | cons w us => exact Nat.zero_lt_succ _

namespace Grammar

open Parse

variable {query : Parse Query} {n : Nat} {ws rest : List Word}

/-- `p` reads back each well-formed query without `WITH` of at most `n` words, before what ends a
query. -/
def ReadsQueries (v : Version) (p : Parse Query) (n : Nat) : Prop :=
  ∀ q : Query, q.Nested v → q.words.length ≤ n → ∀ rest, (nextKind rest).binding = 0 →
    Reads v p q.words rest (·.unplaced = q.unplaced)

/-- `p` reads back each well-formed condition of at most `n` words that binds at least as tightly as
`r`. -/
def ReadsConditions (v : Version) (p : Parse Constraint) (n r : Nat) : Prop :=
  ∀ c : Constraint, c.WellFormed v → r ≤ c.rank → c.words.length ≤ n → ∀ rest,
    (nextKind rest).binding ≤ 9 + r → Reads v p c.words rest (·.unplaced = c.unplaced)

/-! ### Predicates -/

/-- Conditions that are neither groups nor made of other conditions, and start with a value. -/
def IsPredicate : Constraint → Prop
  | .comparison .. | .between .. | .inValues .. | .inQuery .. | .isNull .. => True
  | _ => False

theorem comparison_words {op : ComparisonOp} (h : op.isPattern = false) :
    ∃ k text, op.words = [(k, text)] ∧ (k, op) ∈ comparisons ∧ k.binding = 0 := by
  cases op with
  | eq => exact ⟨.eq, "=", rfl, by decide, rfl⟩
  | notEq => exact ⟨.notEq, "!=", rfl, by decide, rfl⟩
  | lt => exact ⟨.lt, "<", rfl, by decide, rfl⟩
  | ltEq => exact ⟨.ltEq, "<=", rfl, by decide, rfl⟩
  | gt => exact ⟨.gt, ">", rfl, by decide, rfl⟩
  | gtEq => exact ⟨.gtEq, ">=", rfl, by decide, rfl⟩
  | _ => cases h

theorem operator_of_mem {operators : List (Kind × ComparisonOp)} (distinct : operators.Pairwise (·.1 ≠ ·.1))
    {k : Kind} {op : ComparisonOp} (h : (k, op) ∈ operators) {text : String} :
    Reads v (eatOperator operators) [(k, text)] rest (· = some op) := by
  induction operators with
  | nil => cases h
  | cons entry others ih =>
    obtain ⟨first, more⟩ := List.pairwise_cons.1 distinct
    rcases List.mem_cons.1 h with rfl | h
    · exact .eatThen (reads_pure rfl)
    · exact .eatElse (first _ h).symm (ih more h)

theorem comparisonTail_reads {left right a : Operand} {op : ComparisonOp} (h : right.WellFormed v)
    (ha : a.Same left) (hcomparable : comparable left right = true) (ends : (nextKind rest).binding ≤ 11)
    (span : Option Span) (start : Place) :
    Reads v (comparisonTail a op start) right.words rest
      (·.unplaced = (Constraint.comparison left op right span).unplaced) := by
  refine (value_reads h ends).close fun b hb => .iteTrue ?_ (.spanFrom fun _ => reads_pure ?_)
  · rw [comparable_same ha hb, hcomparable]
  · simp only [Constraint.unplaced, ha.eq, hb.eq]

theorem patternTail_reads {matched pattern a : Operand} {op : ComparisonOp} (h : pattern.WellFormed v)
    (ha : a.Same matched) (strings : matched.isString ∧ pattern.isString) (ends : (nextKind rest).binding ≤ 11)
    (span : Option Span) (start : Place) :
    Reads v (patternTail a op start) pattern.words rest
      (·.unplaced = (Constraint.comparison matched op pattern span).unplaced) := by
  refine (value_reads h ends).close fun b hb => ?_
  refine (reads_checkString ?_).andThen fun _ _ => (reads_checkString ?_).andThen fun _ _ => ?_
  · rw [ha.isString, strings.1]
  · rw [hb.isString, strings.2]
  · refine .spanFrom fun _ => reads_pure ?_
    simp only [Constraint.unplaced, ha.eq, hb.eq]

theorem nullTail_reads {tested a : Operand} (ha : a.Same tested) (column : tested.asColumn?.isSome)
    (negated : Bool) (span : Option Span) (start : Place) :
    Reads v (nullTail a start) (wordsIf negated [keywordWord .notKw] ++ [keywordWord .nullKw]) rest
      (·.unplaced = (Constraint.isNull tested negated span).unplaced) := by
  refine .eatIf (by intro same; cases same) (.expect fun _ _ => .iteTrue ?_ (.spanFrom fun _ => reads_pure ?_))
  · rw [ha.asColumn?, column]
  · simp only [Constraint.unplaced, ha.eq]

theorem betweenTail_reads {tested low high a : Operand} (ha : a.Same tested) (hlow : low.WellFormed v)
    (hhigh : high.WellFormed v) (negated : Bool) (ends : (nextKind rest).binding ≤ 11) (span : Option Span)
    (start : Place) :
    Reads v (betweenTail a negated start) (low.words ++ keywordWord .andKw :: high.words) rest
      (·.unplaced = (Constraint.between tested low high negated span).unplaced) := by
  refine (value_reads hlow ?_).bind fun b hb => .expect fun _ _ => ?_
  · exact Nat.le_refl 11
  refine (value_reads hhigh ends).close fun c hc => .spanFrom fun _ => reads_pure ?_
  simp only [Constraint.unplaced, ha.eq, hb.eq, hc.eq]

theorem memberQuery_reads (hquery : ReadsQueries v query n) {tested a : Operand} (ha : a.Same tested) {q : Query}
    (h : q.Nested v) (short : q.words.length ≤ n) (negated : Bool) (span : Option Span) (start : Place) :
    Reads v (memberTail query a negated start) (openWord :: (q.words ++ [closeWord])) rest
      (·.unplaced = (Constraint.inQuery tested q negated span).unplaced) := by
  obtain ⟨us, hus⟩ := h.first
  refine .expect fun _ _ => .sees (.iteTrue ?_ ?_)
  · rw [hus]
    rfl
  · refine (hquery q h short _ rfl).bind fun p hp => .expect fun _ _ => .spanFrom fun _ => reads_pure ?_
    simp only [Constraint.unplaced, ha.eq, hp]

theorem memberValues_reads {tested a : Operand} (ha : a.Same tested) {values : List Operand}
    (nonempty : values ≠ []) (h : ∀ o ∈ values, o.WellFormed v) (negated : Bool) (span : Option Span)
    (start : Place) :
    Reads v (memberTail query a negated start)
      (openWord :: (joined commaWord (values.map Operand.words) ++ [closeWord])) rest
      (·.unplaced = (Constraint.inValues tested values negated span).unplaced) := by
  refine .expect fun _ _ => .sees (.iteFalse (mt beq_iff_eq.1 ?_) ?_)
  · obtain ⟨o, others, rfl⟩ := List.exists_cons_of_ne_nil nonempty
    rw [List.map_cons, joined, List.append_assoc, List.append_assoc]
    exact ne_of_opensValue (o.opensValue (h o List.mem_cons_self) _) rfl
  · refine (values_reads nonempty h ?_).bind fun bs hbs => .expect fun _ _ => .spanFrom fun _ => reads_pure ?_
    · exact Nat.zero_lt_succ _
    · simp only [Constraint.unplaced, ha.eq, show bs.map Operand.unplaced = values.map Operand.unplaced from hbs]

/-- The rest of a predicate whose value a keyword follows. -/
def keywordTail (query : Parse Query) (tested : Operand) (start : Place) : Parse Constraint := do
  if ← eat (.keyword .isKw) then nullTail tested start
  else
    let negated ← eat (.keyword .notKw)
    if ← eat (.keyword .betweenKw) then betweenTail tested negated start
    else if ← eat (.keyword .likeKw) then
      patternTail tested (if negated then .notLike else .like) start
    else if ← eat (.keyword .ilikeKw) then
      patternTail tested (if negated then .notIlike else .ilike) start
    else if ← eat (.keyword .inKw) then memberTail query tested negated start
    else unexpected

theorem comparisons_plain : ∀ entry ∈ comparisons, entry.1.isKeyword = false := by decide

theorem keyword_predicate_reads {tested : Operand} (h : tested.WellFormed v) {us : List Word} (k : Keyword)
    (next : nextKind (us ++ rest) = .keyword k) (loose : (Kind.keyword k).binding ≤ 11) {P : Constraint → Prop}
    (htail : ∀ start a, a.Same tested → Reads v (keywordTail query a start) us rest P) :
    Reads v (predicate query) (tested.words ++ us) rest P := by
  refine .place fun start => (value_reads h (next ▸ loose)).bind fun a ha => ?_
  have none : Reads v (eatOperator comparisons) [] (us ++ rest) (· = none) := by
    refine noOperator_of_kind fun entry member same => ?_
    have plain := comparisons_plain entry member
    rw [← same, next] at plain
    cases plain
  refine none.andThen fun found hfound => ?_
  subst hfound
  exact htail start a ha

theorem comparison_reads {left right : Operand} {op : ComparisonOp} (hleft : left.WellFormed v)
    (hright : right.WellFormed v) (rule : ComparisonRule v left op right) (span : Option Span)
    (ends : (nextKind rest).binding ≤ 11) :
    Reads v (predicate query) (left.words ++ (op.words ++ right.words)) rest
      (·.unplaced = (Constraint.comparison left op right span).unplaced) := by
  obtain ⟨-, types⟩ := rule
  cases pattern : op.isPattern with
  | false =>
    obtain ⟨k, text, words, member, binding⟩ := comparison_words pattern
    rw [pattern, if_neg Bool.false_ne_true] at types
    rw [words]
    refine .place fun start => (value_reads hleft ?_).bind fun a ha => ?_
    · exact binding ▸ Nat.zero_le 11
    refine (operator_of_mem (by decide) member).bind fun found hfound => ?_
    subst hfound
    exact comparisonTail_reads hright ha types ends span start
  | true =>
    rw [pattern, if_pos rfl] at types
    cases op with
    | like =>
      refine keyword_predicate_reads hleft .likeKw rfl (Nat.zero_le 11) fun start a ha => ?_
      refine .eatElse (by nofun) (.skip (by nofun) (.eatElse (by nofun) (.eatThen ?_)))
      exact patternTail_reads hright ha types ends span start
    | notLike =>
      refine keyword_predicate_reads hleft .notKw rfl (Nat.zero_le 11) fun start a ha => ?_
      refine .eatElse (by nofun) (.eat (.eatElse (by nofun) (.eatThen ?_)))
      exact patternTail_reads hright ha types ends span start
    | ilike =>
      refine keyword_predicate_reads hleft .ilikeKw rfl (Nat.zero_le 11) fun start a ha => ?_
      refine .eatElse (by nofun) (.skip (by nofun) (.eatElse (by nofun) (.eatElse (by nofun) (.eatThen ?_))))
      exact patternTail_reads hright ha types ends span start
    | notIlike =>
      refine keyword_predicate_reads hleft .notKw rfl (Nat.zero_le 11) fun start a ha => ?_
      refine .eatElse (by nofun) (.eat (.eatElse (by nofun) (.eatElse (by nofun) (.eatThen ?_))))
      exact patternTail_reads hright ha types ends span start
    | _ => cases pattern

/-- A predicate with a word that `NOT` may precede. -/
theorem negatable_reads {tested : Operand} (h : tested.WellFormed v) (negated : Bool) (k : Keyword) {us : List Word}
    (other : k ≠ .isKw ∧ k ≠ .notKw) (loose : (Kind.keyword k).binding ≤ 11) {P : Constraint → Prop}
    (htail : ∀ start a, a.Same tested → Reads v (do
      if ← eat (.keyword .betweenKw) then betweenTail a negated start
      else if ← eat (.keyword .likeKw) then
        patternTail a (if negated then .notLike else .like) start
      else if ← eat (.keyword .ilikeKw) then
        patternTail a (if negated then .notIlike else .ilike) start
      else if ← eat (.keyword .inKw) then memberTail query a negated start
      else unexpected) (keywordWord k :: us) rest P) :
    Reads v (predicate query)
      (tested.words ++ (wordsIf negated [keywordWord .notKw] ++ keywordWord k :: us)) rest P := by
  have tail (start : Place) (a : Operand) (ha : a.Same tested) :
      Reads v (keywordTail query a start) (wordsIf negated [keywordWord .notKw] ++ keywordWord k :: us) rest P := by
    refine .eatElse ?_ (.eatIf ?_ (htail start a ha))
    · cases negated with
      | true =>
        intro h
        cases h
      | false => exact fun same => other.1 (Kind.keyword.inj same)
    · exact fun same => other.2 (Kind.keyword.inj same)
  cases negated with
  | true => exact keyword_predicate_reads h .notKw rfl (Nat.zero_le 11) tail
  | false => exact keyword_predicate_reads h k rfl loose tail

theorem predicate_reads (hquery : ReadsQueries v query n) {c : Constraint} (h : c.WellFormed v)
    (predicated : IsPredicate c) (short : c.words.length ≤ n) (ends : (nextKind rest).binding ≤ 11) :
    Reads v (predicate query) c.words rest (·.unplaced = c.unplaced) := by
  have other {a b : Keyword} (ne : a ≠ b) : Kind.keyword a ≠ .keyword b := fun same => ne (Kind.keyword.inj same)
  cases c with
  | comparison left op right span => exact comparison_reads h.2.1 h.2.2 h.1 span ends
  | between tested low high negated span =>
    obtain ⟨htested, hlow, hhigh⟩ := h
    refine negatable_reads htested negated .betweenKw (by decide) (Nat.zero_le 11) fun start a ha => ?_
    exact .eatThen (betweenTail_reads ha hlow hhigh negated ends span start)
  | inValues tested values negated span =>
    obtain ⟨nonempty, htested, hvalues⟩ := h
    refine negatable_reads htested negated .inKw (by decide) (Nat.zero_le 11) fun start a ha => ?_
    refine .eatElse (other (by decide)) (.eatElse (other (by decide)) (.eatElse (other (by decide)) (.eatThen ?_)))
    exact memberValues_reads ha nonempty hvalues negated span start
  | inQuery tested q negated span =>
    have shorter : q.words.length ≤ n := by
      simp only [Constraint.words, List.length_append, List.length_cons] at short
      omega
    refine negatable_reads h.1 negated .inKw (by decide) (Nat.zero_le 11) fun start a ha => ?_
    refine .eatElse (other (by decide)) (.eatElse (other (by decide)) (.eatElse (other (by decide)) (.eatThen ?_)))
    exact memberQuery_reads hquery ha h.2 shorter negated span start
  | isNull tested negated span =>
    refine keyword_predicate_reads h.2 .isKw rfl (Nat.zero_le 11) fun start a ha => ?_
    exact .eatThen (nullTail_reads ha h.1 negated span start)
  | _ => cases predicated

/-! ### Conditions -/

variable {condition : Parse Constraint}

theorem grouped_reads (hcondition : ReadsConditions v condition n 0) {inner : Constraint} (h : inner.WellFormed v)
    (short : inner.words.length ≤ n) (span : Option Span) :
    Reads v (grouped condition) (openWord :: (inner.words ++ [closeWord])) rest
      (·.unplaced = (Constraint.group inner span).unplaced) := by
  refine .place fun start => .expect fun _ _ => (hcondition inner h (Nat.zero_le _) short _ ?_).bind fun c hc => ?_
  · exact Nat.zero_le 9
  · refine .expect fun _ _ => .spanFrom fun _ => reads_pure ?_
    simp only [Constraint.unplaced, hc]

theorem existsTail_reads (hquery : ReadsQueries v query n) {q : Query} (h : q.Nested v)
    (short : q.words.length ≤ n) (span : Option Span) (start : Place) :
    Reads v (existsTail query start) (openWord :: (q.words ++ [closeWord])) rest
      (·.unplaced = (Constraint.nonEmpty q span).unplaced) := by
  refine .expect fun _ _ => (hquery q h short _ rfl).bind fun p hp => .expect fun _ _ => ?_
  refine .spanFrom fun _ => reads_pure ?_
  simp only [Constraint.unplaced, hp]

theorem predicate_words {c : Constraint} (h : c.WellFormed v) (predicated : IsPredicate c) :
    ∃ o : Operand, o.WellFormed v ∧ ∃ us, c.words = o.words ++ us := by
  cases c with
  | comparison left op right span => exact ⟨left, h.2.1, _, rfl⟩
  | between tested low high negated span => exact ⟨tested, h.1, _, rfl⟩
  | inValues tested values negated span => exact ⟨tested, h.2.1, _, rfl⟩
  | inQuery tested q negated span => exact ⟨tested, h.1, _, rfl⟩
  | isNull tested negated span => exact ⟨tested, h.2, _, rfl⟩
  | _ => cases predicated

theorem negationFor_reads {k : Nat} (hquery : ReadsQueries v query k) (hcondition : ReadsConditions v condition n 0)
    (fails : ∀ {ws}, ValueEnclosed v ws → Fails v condition ws) (m : Nat) {c : Constraint} (h : c.WellFormed v)
    (tight : 2 ≤ c.rank) (short : c.words.length ≤ n + 1)
    (inQueries : c.words.length ≤ k) (enough : c.words.length ≤ m) (ends : (nextKind rest).binding ≤ 11) :
    Reads v (negationFor query condition m) c.words rest (·.unplaced = c.unplaced) := by
  induction m generalizing c with
  | zero => exact absurd (Constraint.words_pos h) (by omega)
  | succ m ih =>
    -- A predicate may begin with a parenthesis too. It is tried as a condition in parentheses first, and that
    -- fails, so that the other attempt decides.
    by_cases predicated : IsPredicate c
    · have read : Reads v (predicate query) c.words rest (·.unplaced = c.unplaced) :=
        predicate_reads hquery h predicated inQueries ends
      obtain ⟨o, ho, us, hus⟩ := predicate_words h predicated
      obtain ⟨w, ts, hw, opens, -⟩ := o.first ho
      have words : c.words = w :: (ts ++ us) := by rw [hus, hw, List.cons_append]
      have fails : Fails v (grouped condition) (c.words ++ rest) := fun s hs => by
        obtain ⟨a, t, ha, -⟩ := read s hs
        exact grouped_fails_of_predicate fails hs ha
      rw [words] at read fails ⊢
      have miss {k : Kind} (other : k.opensValue = false) : nextKind (w :: (ts ++ us) ++ rest) ≠ k :=
        ne_of_opensValue opens other
      refine .place fun start => .eatElse (miss rfl) (.eatElse (miss rfl) (.current fun t ht => .second fun u hu => ?_))
      by_cases both : (t.kind == .leftParen && u.kind != .keyword .selectKw) = true
      · exact .iteTrue both (.eitherRight fails read)
      · exact .iteFalse both read
    · cases c with
      | not inner span =>
        obtain ⟨innerTight, hinner⟩ := h
        have lengths : inner.words.length + 1 = (Constraint.not inner span).words.length := rfl
        have read := ih hinner innerTight (by omega) (by omega) (by omega)
        refine .place fun start => .eatThen (read.close fun d hd => .spanFrom fun _ => reads_pure ?_)
        simp only [Constraint.unplaced, hd]
      | nonEmpty q span =>
        simp only [Constraint.words, List.length_cons, List.length_append] at inQueries
        have other : Kind.keyword .existsKw ≠ .keyword .notKw := by decide
        exact .place fun start => .eatElse other (.eatThen (existsTail_reads hquery h (by omega) span start))
      | group inner span =>
        have hinner : inner.WellFormed v := h
        simp only [Constraint.words, List.length_cons, List.length_append, List.length_nil] at short
        have other {k : Keyword} : Kind.leftParen ≠ .keyword k := fun same => by cases same
        refine .place fun start => .eatElse other (.eatElse other ?_)
        refine .current fun t ht => .second fun u hu => ?_
        -- A subquery in parentheses is an operand, so `SELECT` after the parenthesis would mean a predicate.
        have second : u.kind ≠ .keyword .selectKw := by
          have opens := Constraint.opensCondition hinner ([closeWord] ++ rest)
          rw [List.append_assoc] at hu
          rw [hu]
          intro select
          rw [select] at opens
          cases opens
        refine .iteTrue ?_ (.eitherLeft (grouped_reads hcondition hinner (by omega) span))
        rw [Bool.and_eq_true, beq_iff_eq, bne_iff_ne]
        exact ⟨congrArg Prod.fst ht, second⟩
      | and left right span => exact absurd (show 2 ≤ 1 from tight) (by decide)
      | or left right span => exact absurd (show 2 ≤ 0 from tight) (by decide)
      | _ => exact absurd trivial predicated

/-- A word that connects conditions, with the node that it makes, of the rank `r`. -/
structure Connects (word : Keyword) (connect : Constraint → Constraint → Option Span → Constraint) (r : Nat) :
    Prop where
  split : ∀ c : Constraint, c.rank = r → ∃ left right span, c = connect left right span
  words : ∀ left right span, (connect left right span).words = left.words ++ keywordWord word :: right.words
  unplaced : ∀ left right span,
    (connect left right span).unplaced = connect left.unplaced right.unplaced none
  sides : ∀ {v left right span}, (connect left right span).WellFormed v →
    r ≤ left.rank ∧ r < right.rank ∧ left.WellFormed v ∧ right.WellFormed v
  binding : (Kind.keyword word).binding = 10 + r

theorem connects_or : Connects .orKw .or 0 where
  split c rank := by
    cases c with
    | or left right span => exact ⟨left, right, span, rfl⟩
    | _ => cases rank
  words _ _ _ := by rw [Constraint.words]
  unplaced _ _ _ := by rw [Constraint.unplaced]
  sides h := ⟨Nat.zero_le _, h⟩
  binding := rfl

theorem connects_and : Connects .andKw .and 1 where
  split c rank := by
    cases c with
    | and left right span => exact ⟨left, right, span, rfl⟩
    | _ => cases rank
  words _ _ _ := by rw [Constraint.words]
  unplaced _ _ _ := by rw [Constraint.unplaced]
  sides h := h
  binding := rfl

section Connected

variable {word : Keyword} {connect : Constraint → Constraint → Option Span → Constraint} {r : Nat}
  {item : Parse Constraint}

theorem connected_grows (connects : Connects word connect r) (hitem : ReadsConditions v item n (r + 1))
    (start : Place) {c : Constraint} (h : c.WellFormed v) (loose : r ≤ c.rank) (short : c.words.length ≤ n)
    (ends : (nextKind rest).binding ≤ 10 + r) :
    Grows v item (connected.round word connect item start) c.words rest (·.unplaced = c.unplaced) := by
  induction hlength : c.words.length using Nat.strongRecOn generalizing c rest with
  | _ length ih =>
    rcases Nat.lt_or_eq_of_le loose with tighter | rank
    · exact .base (hitem c h tighter short rest (by omega))
    · obtain ⟨left, right, span, rfl⟩ := connects.split c rank.symm
      obtain ⟨hloose, htight, hleft, hright⟩ := connects.sides h
      have lengths := congrArg List.length (connects.words left right span)
      rw [List.length_append, List.length_cons] at lengths
      have next : (nextKind (keywordWord word :: right.words ++ rest)).binding ≤ 10 + r :=
        Nat.le_of_eq connects.binding
      have grown := ih left.words.length (by omega) hleft hloose (by omega) next rfl
      rw [connects.words]
      refine grown.grow (List.cons_ne_nil _ _) fun a ha => ?_
      have read := hitem right hright htight (by omega) rest (by omega)
      refine .eatThen (read.close fun b hb => .spanFrom fun _ => reads_pure ⟨_, rfl, ?_⟩)
      rw [connects.unplaced, connects.unplaced, ha, hb]

theorem connected_readsBack (connects : Connects word connect r) (hitem : ReadsConditions v item n (r + 1)) :
    ReadsConditions v (connected word connect item) n r := by
  intro c h loose short rest ends
  have ends' : (nextKind rest).binding ≤ 10 + r := by omega
  refine .place fun start => (connected_grows connects hitem start h loose short ends').done fun a _ => ?_
  refine .eatElse (fun here => ?_) (reads_pure rfl)
  have := connects.binding
  rw [show nextKind rest = .keyword word from here] at ends
  omega

end Connected

theorem conditionFor_readsBack {k : Nat} (hquery : ReadsQueries v query k) (m : Nat) :
    ReadsConditions v (conditionFor query m) (min m k) 0 := by
  induction m with
  | zero =>
    intro c h _ short rest _
    exact absurd (Constraint.words_pos h) (by omega)
  | succ m ih =>
    have negations : ReadsConditions v (negation query (conditionFor query m)) (min (m + 1) k) 2 := by
      intro c h tight short rest ends
      refine .bounded (negationFor_reads hquery ih (conditionFor_fails m) _ h tight ?_ ?_ ?_ ends)
      · omega
      · omega
      · rw [List.length_append]
        omega
    exact connected_readsBack connects_or (connected_readsBack connects_and negations)

/-- The words of a condition are read as the same condition, before anything that does not go on
with it. -/
theorem condition_reads (hquery : ReadsQueries v query n) {c : Constraint} (h : c.WellFormed v)
    (short : c.words.length ≤ n) (ends : (nextKind rest).binding ≤ 9) :
    Reads v (Grammar.condition query) c.words rest (·.unplaced = c.unplaced) := by
  refine .bounded (conditionFor_readsBack hquery _ c h (Nat.zero_le _) ?_ rest ends)
  rw [List.length_append]
  omega

end Grammar

end SkyQuery
