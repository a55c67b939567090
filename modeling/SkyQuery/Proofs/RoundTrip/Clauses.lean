import SkyQuery.Proofs.RoundTrip.Conditions

/-!
# Clauses are read back

The items of each clause of a query are read back from their words, what a query reads from included.
-/

namespace SkyQuery.Grammar

open Parse

variable {v : Version} {query : Parse Query} {n : Nat} {rest : List Word}

theorem ne_of_binding_lt {k : Kind} (h : (nextKind rest).binding < k.binding) : nextKind rest ≠ k := by
  rintro rfl
  exact Nat.lt_irrefl _ h

/-! ### Tables -/

theorem ofParts?_tableParts {t : TableName} (h : t.WellFormed v) : TableName.ofParts? t.parts = some t := by
  obtain ⟨catalog, schema, table⟩ := t
  have qualified := h.2.2.2
  cases schema <;> cases catalog <;> first | rfl | cases qualified rfl

theorem tableParts_length (t : TableName) : t.parts.length ≤ 3 := by
  obtain ⟨catalog, schema, table⟩ := t
  cases schema <;> cases catalog <;> simp [TableName.parts]

theorem tableParts_ne_nil (t : TableName) : t.parts ≠ [] := by simp [TableName.parts]

theorem optionalAlias_reads {label : Option Identifier} (h : ∀ i ∈ label, i.WellFormed v)
    (ends : (nextKind rest).binding ≤ 9) : Reads v optionalAlias (aliasWords label) rest (· = label) := by
  cases label with
  | none =>
    refine .eatElse (ne_of_binding_lt (Nat.lt_succ_of_le ends)) (reads_noIdentifier ?_)
    exact Nat.ne_of_lt (Nat.lt_succ_of_le ends)
  | some label =>
    exact .eatThen ((reads_identifier (h label rfl)).close fun i hi => reads_pure (by rw [hi]))

theorem names_reads {names : List Identifier} (nonempty : names ≠ []) (h : ∀ i ∈ names, i.WellFormed v)
    (ends : (nextKind rest).binding < commaWord.1.binding) :
    Reads v (commaSeparated identifier) (joined commaWord (names.map fun i => [i.word])) rest (· = names) := by
  have read : Reads v (commaSeparated identifier) (joined commaWord (names.map fun i => [i.word])) rest
      (·.map id = names.map id) := reads_sepBy id commaWord nonempty (fun i hi after _ => reads_identifier (h i hi)) ends
  exact read.mono fun found hfound => by simpa using hfound

/-- What is neither a join nor part of one. -/
theorem tableRef_reads (hquery : ReadsQueries v query n) {item : FromItem} (h : item.WellFormed v)
    (single : item.isJoin = false) (short : item.words.length ≤ n) (ends : (nextKind rest).binding ≤ 9) :
    Reads v (tableRef query) item.words rest (·.unplaced = item.unplaced) := by
  cases item with
  | table name label span =>
    obtain ⟨hname, hlabel⟩ := h
    obtain ⟨i, others, hparts⟩ := List.exists_cons_of_ne_nil (tableParts_ne_nil name)
    have noDot : nextKind (aliasWords label ++ rest) ≠ .dot := by
      cases label with
      | none => exact ne_of_binding_lt (Nat.lt_of_le_of_lt ends (by decide))
      | some label =>
        intro h
        cases h
    have parts := reads_dotted (tableParts_ne_nil name) hname.parts (tableParts_length name) (.inl noDot)
    refine .place fun start => .eatElse ?_ (parts.bind fun found hfound => ?_)
    · rw [FromItem.words, hparts, dottedWords_cons]
      show i.word.1 ≠ _
      unfold Identifier.word
      cases i.delimited <;> intro h <;> cases h
    · rw [hfound, ofParts?_tableParts hname]
      refine (optionalAlias_reads hlabel ends).close fun l hl => .spanFrom fun _ => reads_pure ?_
      rw [hl]
      simp only [FromItem.unplaced]
  | subquery q label span =>
    obtain ⟨hq, hlabel⟩ := h
    simp only [FromItem.words, List.length_cons, List.length_append] at short
    refine .place fun start => .eatThen ((hquery q hq (by omega) _ rfl).bind fun p hp => ?_)
    refine .expect fun _ _ => .eat ((reads_identifier hlabel).close fun i hi => ?_)
    refine .spanFrom fun _ => reads_pure ?_
    simp only [FromItem.unplaced, hp, hi]
  | join left kind natural right condition span => cases single

/-! ### Joins -/

theorem eatJoin_reads {kind : JoinKind} (joins : kind ≠ .cross) :
    Reads v eatJoin (kind.keywords.map keywordWord) rest (· = some kind) := by
  have outer {word : Keyword} {kind : JoinKind} (notInner : word ≠ .innerKw) (notJoin : word ≠ .joinKw)
      (side : Reads v eatSide [keywordWord word] ([keywordWord .outerKw, keywordWord .joinKw] ++ rest) (· = some kind)) :
      Reads v eatJoin ([word, .outerKw, .joinKw].map keywordWord) rest (· = some kind) := by
    refine .eatElse (mt Kind.keyword.inj notInner) (.eatElse (mt Kind.keyword.inj notJoin) (side.bind fun found hfound => ?_))
    subst hfound
    exact .eat (.expect fun _ _ => reads_pure rfl)
  cases kind with
  | inner => exact .eatThen (.expect fun _ _ => reads_pure rfl)
  | leftOuter => exact outer (by nofun) (by nofun) (.eatThen (reads_pure rfl))
  | rightOuter => exact outer (by nofun) (by nofun) (.eatElse (by nofun) (.eatThen (reads_pure rfl)))
  | fullOuter =>
    exact outer (by nofun) (by nofun) (.eatElse (by nofun) (.eatElse (by nofun) (.eatThen (reads_pure rfl))))
  | cross => exact absurd rfl joins

theorem noJoin_reads (ends : (nextKind rest).binding ≤ 8) : Reads v eatJoin [] rest (· = none) := by
  have miss {k : Keyword} (h : (Kind.keyword k).binding = 9) : nextKind rest ≠ .keyword k :=
    ne_of_binding_lt (by omega)
  have side : Reads v eatSide [] rest (· = none) :=
    .eatElse (miss rfl) (.eatElse (miss rfl) (.eatElse (miss rfl) (reads_pure rfl)))
  refine .eatElse (miss rfl) (.eatElse (miss rfl) (side.andThen fun found hfound => ?_))
  subst hfound
  exact reads_pure rfl

theorem joinCondition_reads (hquery : ReadsQueries v query n) {condition : JoinCondition}
    (h : condition.WellFormed v) (stated : condition ≠ .unstated) (nonempty : condition ≠ .sharing [])
    (short : condition.words.length ≤ n) (ends : (nextKind rest).binding ≤ 9) :
    Reads v (joinCondition query) condition.words rest (·.unplaced = condition.unplaced) := by
  cases condition with
  | unstated => exact absurd rfl stated
  | on condition =>
    simp only [JoinCondition.words, List.length_cons] at short
    refine .eatThen ((condition_reads hquery h (by omega) ends).close fun c hc => reads_pure ?_)
    simp only [JoinCondition.unplaced, hc]
  | sharing columns =>
    have some : columns ≠ [] := fun empty => nonempty (by rw [empty])
    refine .eatElse (by nofun) (.eatThen (.expect fun _ _ => (names_reads some h ?_).bind fun names hnames => ?_))
    · exact Nat.zero_lt_succ _
    · exact .expect fun _ _ => reads_pure (by rw [hnames])

theorem joinTail_reads (hquery : ReadsQueries v query n) {left right a : FromItem} {kind : JoinKind} {natural : Bool}
    {condition : JoinCondition} {span : Option Span} (h : (FromItem.join left kind natural right condition span).WellFormed v)
    (short : right.words.length + condition.words.length ≤ n) (ends : (nextKind rest).binding ≤ 9)
    (ha : a.unplaced = left.unplaced) (start : Place) :
    Reads v (joinTail query start a) (wordsIf natural [keywordWord .naturalKw] ++ (kind.keywords.map keywordWord ++
        (right.words ++ condition.words))) rest
      fun found => ∃ b, found = some b ∧
        b.unplaced = (FromItem.join left kind natural right condition span).unplaced := by
  obtain ⟨rule, single, -, hright, hcondition⟩ := h
  have next : (nextKind (condition.words ++ rest)).binding ≤ 9 := by
    cases condition with
    | unstated => exact ends
    | on condition => exact Nat.zero_le 9
    | sharing columns => exact Nat.zero_le 9
  have side := tableRef_reads hquery hright single (by omega) next
  by_cases cross : kind = .cross
  · obtain ⟨rfl, rfl⟩ : condition = .unstated ∧ natural = false := by
      cases condition <;> simp_all [JoinRule]
    subst cross
    refine .eatThen (.expect fun _ _ => side.bind fun b hb => .spanFrom fun _ => reads_pure ⟨_, rfl, ?_⟩)
    simp only [FromItem.unplaced, JoinCondition.unplaced, ha, hb]
  · refine .eatElse ?_ (.eatIf ?_ ((eatJoin_reads cross).bind fun found hfound => ?_))
    · cases natural <;> cases kind <;> first | exact absurd rfl cross | (intro same; cases same)
    · cases kind <;> first | exact absurd rfl cross | (intro same; cases same)
    subst hfound
    cases natural with
    | true =>
      obtain rfl : condition = .unstated := by
        cases condition <;> simp_all [JoinRule]
      refine side.bind fun b hb => .iteTrue rfl ?_
      refine Reads.andThen (P := (· = .unstated)) (reads_pure rfl) fun c hc => ?_
      refine .spanFrom fun _ => reads_pure ⟨_, rfl, ?_⟩
      simp only [FromItem.unplaced, JoinCondition.unplaced, ha, hb, hc]
    | false =>
      have stated : condition ≠ .unstated ∧ condition ≠ .sharing [] := by
        constructor <;> rintro rfl <;> simp_all [JoinRule]
      refine side.bind fun b hb => .iteFalse Bool.false_ne_true ?_
      refine (joinCondition_reads hquery hcondition stated.1 stated.2 (by omega) ends).close fun c hc => ?_
      refine .spanFrom fun _ => reads_pure ⟨_, rfl, ?_⟩
      simp only [FromItem.unplaced, ha, hb, hc]

theorem fromItem_grows (hquery : ReadsQueries v query n) (start : Place) {item : FromItem} (h : item.WellFormed v)
    (short : item.words.length ≤ n) (ends : (nextKind rest).binding ≤ 9) :
    Grows v (tableRef query) (joinTail query start) item.words rest (·.unplaced = item.unplaced) := by
  induction hlength : item.words.length using Nat.strongRecOn generalizing item rest with
  | _ length ih =>
    cases item with
    | join left kind natural right condition span =>
      have words : (FromItem.join left kind natural right condition span).words = left.words ++
          (wordsIf natural [keywordWord .naturalKw] ++ (kind.keywords.map keywordWord ++
            (right.words ++ condition.words))) := by rw [FromItem.words]
      have lengths := congrArg List.length words
      simp only [List.length_append, List.length_map] at lengths
      have some : 0 < kind.keywords.length := by cases kind <;> decide
      rw [words]
      refine (ih left.words.length (by omega) h.2.2.1 (by omega) ?_ rfl).grow ?_ fun a ha => ?_
      · cases natural <;> cases kind <;> exact Nat.le_refl 9
      · cases natural <;> cases kind <;> exact List.cons_ne_nil _ _
      · exact joinTail_reads hquery h (by omega) ends ha start
    | table name label span => exact .base (tableRef_reads hquery h rfl short ends)
    | subquery q label span => exact .base (tableRef_reads hquery h rfl short ends)

theorem fromItem_reads (hquery : ReadsQueries v query n) {item : FromItem} (h : item.WellFormed v)
    (short : item.words.length ≤ n) (ends : (nextKind rest).binding ≤ 8) :
    Reads v (fromItem query) item.words rest (·.unplaced = item.unplaced) := by
  refine .place fun start => ?_
  refine (fromItem_grows hquery start h short (Nat.le_succ_of_le ends)).done fun a _ => ?_
  refine .eatElse (ne_of_binding_lt (Nat.lt_succ_of_le ends)) ?_
  refine .skip (ne_of_binding_lt (Nat.lt_succ_of_le ends)) ((noJoin_reads ends).andThen fun found hfound => ?_)
  subst hfound
  exact reads_pure rfl

/-- What a query reads from, after its first word. -/
def sourceWords (items : List FromItem) : List Word :=
  keywordWord .fromKw :: joined commaWord (items.map FromItem.words)

theorem fromClause_reads (hquery : ReadsQueries v query n) {items : List FromItem} (nonempty : items ≠ [])
    (h : ∀ item ∈ items, item.WellFormed v) (short : (sourceWords items).length ≤ n)
    (ends : (nextKind rest).binding ≤ 7) :
    Reads v (fromClause query) (sourceWords items) rest (·.map FromItem.unplaced = items.map FromItem.unplaced) := by
  refine .expect fun _ _ => reads_sepBy FromItem.unplaced commaWord nonempty (fun item member after hafter => ?_)
    (Nat.lt_succ_of_le ends)
  refine fromItem_reads hquery (h item member) ?_ hafter
  have fits : item.words.length ≤ (joined commaWord (items.map FromItem.words)).length :=
    length_le_joined (List.mem_map_of_mem member)
  rw [sourceWords, List.length_cons] at short
  omega

/-! ### Result columns -/

theorem tableStar_reads {t : TableName} (h : t.WellFormed v) :
    Reads v eatTableStar (dottedWords t.parts ++ [dotWord, (.star, "*")]) rest (· = some t) := by
  intro s hs
  rw [List.append_assoc] at hs
  have parts : Reads v (dotted 2) (dottedWords t.parts) ([dotWord, (.star, "*")] ++ rest) (· = t.parts) :=
    reads_dotted (tableParts_ne_nil t) h.parts (tableParts_length t) (.inr (.inr (by intro same; cases same)))
  obtain ⟨found, r, hfound, hr, rfl⟩ := parts s hs
  obtain ⟨i, others, hparts⟩ := List.exists_cons_of_ne_nil (tableParts_ne_nil t)
  have names := h.parts
  rw [hparts] at names
  rw [hparts, dottedWords_cons] at hs
  have here : (isIdentifier v s.current && s.second.kind == .dot) = true := by
    rw [isIdentifier_word (names i List.mem_cons_self) hs.current, hs.secondKind]
    cases others <;> rfl
  have star : (r.current.kind == .dot && r.second.kind == .star) = true := by
    rw [hr.kind, hr.secondKind]
    rfl
  refine ⟨some t, r.advance.advance, ?_, hr.advance.advance, rfl⟩
  unfold eatTableStar
  rw [if_pos here, hfound]
  simp only [star, if_true, ofParts?_tableParts h]

theorem noTableStar_of_kinds {ws : List Word}
    (h : (nextKind ws).binding ≠ Kind.ident.binding ∨ nextKind ws.tail ≠ .dot) :
    Reads v eatTableStar [] ws (· = none) := by
  intro s hs
  have hs : s.Shows ws := hs
  refine ⟨none, s, ?_, hs, rfl⟩
  have miss : ¬(isIdentifier v s.current && s.second.kind == .dot) = true := by
    rw [Bool.and_eq_true, beq_iff_eq, not_and]
    intro name dot
    cases ws with
    | nil =>
      rw [isIdentifier_kind (by rw [hs.kind]; decide) (by rw [hs.kind]; decide)] at name
      cases name
    | cons w us =>
      rcases h with h | h
      · rw [isIdentifier_kind] at name
        · cases name
        · rw [hs.kind]; rintro kind; exact h (by rw [kind])
        · rw [hs.kind]; rintro kind; exact h (by rw [kind]; rfl)
      · exact h (hs.secondKind.symm.trans dot)
  unfold eatTableStar
  rw [if_neg miss]

/-- No column is taken for the table of a star. -/
theorem noTableStar_column {c : ColumnRef} (h : c.WellFormed v) {after : List Word}
    (ends : (nextKind after).binding ≤ 15) :
    Reads v eatTableStar [] (dottedWords c.parts ++ after) (· = none) := by
  have noDot : nextKind after ≠ .dot := ne_of_binding_lt (Nat.lt_succ_of_le ends)
  have names := h.parts
  have short := columnParts_length c
  obtain ⟨i, others, hparts⟩ := List.exists_cons_of_ne_nil c.parts_ne_nil
  rw [hparts] at names short ⊢
  intro s hs
  have hs : s.Shows (dottedWords (i :: others) ++ after) := hs
  by_cases here : (isIdentifier v s.current && s.second.kind == .dot) = true
  · refine ⟨none, s, ?_, hs, rfl⟩
    unfold eatTableStar
    rw [if_pos here]
    rcases Nat.lt_or_ge (i :: others).length 4 with three | four
    · have parts : Reads v (dotted 2) (dottedWords (i :: others)) after (· = i :: others) :=
        reads_dotted (List.cons_ne_nil _ _) names (Nat.le_of_lt_succ three) (.inl noDot)
      obtain ⟨found, r, hfound, hr, -⟩ := parts s hs
      have other : ¬(r.current.kind == .dot && r.second.kind == .star) = true := by
        rw [Bool.and_eq_true, beq_iff_eq, hr.kind]
        exact fun both => noDot both.1
      rw [hfound]
      simp only [other]
      rfl
    · obtain ⟨j, k, l, rfl⟩ : ∃ j k l, others = [j, k, l] :=
        ⟨_, _, _, List.eq_getElem_of_length_eq_three others (by simpa using Nat.le_antisymm short four)⟩
      have three : ∀ p ∈ [i, j, k], p.WellFormed v := fun p hp => names p (List.mem_append_left [l] hp)
      have parts : Reads v (dotted 2) (dottedWords [i, j, k]) ([dotWord, l.word] ++ after) (· = [i, j, k]) :=
        reads_dotted (List.cons_ne_nil _ _) three (Nat.le_refl 3) (.inr (.inl rfl))
      obtain ⟨found, r, hfound, hr, -⟩ := parts s hs
      have other : ¬(r.current.kind == .dot && r.second.kind == .star) = true := by
        rw [Bool.and_eq_true, beq_iff_eq, beq_iff_eq, hr.secondKind]
        have name : l.word.1 ≠ .star := by
          unfold Identifier.word
          cases l.delimited <;> intro h <;> cases h
        exact fun both => name both.2
      rw [hfound]
      simp only [other]
      rfl
  · exact ⟨none, s, by unfold eatTableStar; rw [if_neg here], hs, rfl⟩

theorem noTableStar_reads {o : Operand} (h : o.WellFormed v) {after : List Word}
    (ends : (nextKind after).binding ≤ 15) : Reads v eatTableStar [] (o.words ++ after) (· = none) := by
  induction h generalizing after with
  | @intro o rule parts ih =>
    cases o with
    | numeric text span =>
      obtain ⟨k, number, whole⟩ := rule
      refine noTableStar_of_kinds (.inl ?_)
      rw [Operand.words, List.singleton_append, nextKind_cons, whole.2]
      cases k with
      | integer | decimal | scientific =>
        intro h
        cases h
      | _ => cases number
    | column ref span => exact noTableStar_column rule ends
    | operation left op right span =>
      rw [Operand.words, List.append_assoc]
      refine ih left List.mem_cons_self ?_
      rw [List.cons_append, nextKind_cons, arithOp_binding]
      have := arithOp_rank_le op
      omega
    | concatenation operands span =>
      obtain ⟨p, others, rfl⟩ := List.exists_cons_of_length_pos (Nat.lt_of_lt_of_le Nat.zero_lt_two rule.1)
      rw [Operand.words, Operand.allWords, joined, List.append_assoc]
      refine ih p List.mem_cons_self ?_
      cases others with
      | nil => exact ends
      | cons q others => exact (by decide : 12 ≤ 15)
    | userDefined name args span => exact noTableStar_of_kinds (.inr (by intro same; cases same))
    | aggregate fn distinct arg span => cases arg <;> exact noTableStar_of_kinds (.inl (by intro same; cases same))
    | geometry fn sys args span => cases sys <;> exact noTableStar_of_kinds (.inl (by intro same; cases same))
    | _ => exact noTableStar_of_kinds (.inl (by intro same; cases same))

theorem selectItem_next {item : SelectItem} (h : item.WellFormed v) (after : List Word) :
    (nextKind (item.words ++ after)).opensValue = true ∨ nextKind (item.words ++ after) = .star := by
  cases item with
  | all span => exact .inr rfl
  | allOf table span =>
    obtain ⟨i, -, us, hus⟩ := dottedWords_head (tableParts_ne_nil table)
    rw [SelectItem.words, hus]
    exact .inl i.word_opensValue
  | expr operand label =>
    rw [SelectItem.words, List.append_assoc]
    exact .inl (operand.opensValue h.1 _)

theorem selectItem_reads {item : SelectItem} (h : item.WellFormed v) (ends : (nextKind rest).binding ≤ 9) :
    Reads v selectItem item.words rest (·.unplaced = item.unplaced) := by
  cases item with
  | all span => exact .place fun start => .eatThen (.spanFrom fun _ => reads_pure rfl)
  | allOf table span =>
    refine .place fun start => .eatElse ?_ ((tableStar_reads h).close fun found hfound => ?_)
    · obtain ⟨i, -, us, hus⟩ := dottedWords_head (tableParts_ne_nil table)
      rw [SelectItem.words, hus]
      exact ne_of_opensValue i.word_opensValue rfl
    · subst hfound
      exact .spanFrom fun _ => reads_pure rfl
  | expr operand label =>
    obtain ⟨hoperand, hlabel⟩ := h
    have next : (nextKind (aliasWords label ++ rest)).binding ≤ 11 := by
      cases label with
      | none => exact Nat.le_trans ends (by decide)
      | some label => exact (by decide : 10 ≤ 11)
    refine .place fun start => .eatElse ?_ ?_
    · rw [SelectItem.words, List.append_assoc]
      exact ne_of_opensValue (operand.opensValue hoperand _) rfl
    · have star : Reads v eatTableStar [] (operand.words ++ aliasWords label ++ rest) (· = none) := by
        rw [List.append_assoc]
        exact noTableStar_reads hoperand (Nat.le_trans next (by decide))
      refine star.andThen fun found hfound => ?_
      subst hfound
      refine (value_reads hoperand next).bind fun a ha => ?_
      refine (optionalAlias_reads hlabel ends).close fun l hl => reads_pure ?_
      simp only [SelectItem.unplaced, show a.unplaced = operand.unplaced from ha, hl]

theorem rowCount_reads {m : Nat} (h : m < Nat.pow 2 64) (word : String) :
    Reads v (rowCount word) [numberWord m] rest (· = m) := by
  refine .place fun start => .expect fun t ht => ?_
  have text : t.text = toString m := congrArg Prod.snd ht
  simp only [text, digitsBelow?_toString h]
  exact reads_pure rfl

theorem topClause_reads {top : Option Nat} (h : ∀ m ∈ top, m < Nat.pow 2 64)
    (next : nextKind rest ≠ .keyword .topKw) : Reads v topClause (topWords top) rest (· = top) := by
  cases top with
  | none => exact .eatElse next (reads_pure rfl)
  | some m => exact .eatThen ((rowCount_reads (h m rfl) "TOP").close fun k hk => reads_pure (by rw [hk]))

theorem selectClause_reads {c : SelectClause} (h : c.WellFormed v) (ends : (nextKind rest).binding ≤ 7) :
    Reads v selectClause c.words rest (·.unplaced = c.unplaced) := by
  obtain ⟨distinct, top, items, span⟩ := c
  obtain ⟨htop, nonempty, hitems⟩ := h
  obtain ⟨item, others, rfl⟩ := List.exists_cons_of_ne_nil nonempty
  have miss {k : Keyword} (other : k.isFunction = false) :
      nextKind (joined commaWord ((item :: others).map SelectItem.words) ++ rest) ≠ .keyword k := by
    rw [List.map_cons, joined, List.append_assoc]
    rcases selectItem_next (hitems item List.mem_cons_self) _ with opens | star
    · exact ne_of_opensValue opens other
    · rw [star]
      intro h
      cases h
  have missTop {k : Keyword} (other : k.isFunction = false) (notTop : k ≠ .topKw) :
      nextKind (topWords top ++ joined commaWord ((item :: others).map SelectItem.words) ++ rest) ≠ .keyword k := by
    cases top with
    | none => exact miss other
    | some m => exact fun same => notTop (Kind.keyword.inj same).symm
  have quantifier : Reads v distinctness (wordsIf distinct [keywordWord .distinctKw])
      (topWords top ++ joined commaWord ((item :: others).map SelectItem.words) ++ rest) (· = distinct) :=
    quantifier_reads distinct (missTop rfl (by decide)) (missTop rfl (by decide))
  refine .place fun start => .expect fun _ _ => quantifier.bind fun d hd => ?_
  refine (topClause_reads htop (miss rfl)).bind fun m hm => ?_
  refine (reads_sepBy SelectItem.unplaced commaWord nonempty (fun i hi after hafter => ?_) (Nat.lt_succ_of_le ends)).close ?_
  · exact selectItem_reads (hitems i hi) (Nat.le_succ_of_le hafter)
  · refine fun found hfound => .spanFrom fun _ => reads_pure ?_
    simp only [SelectClause.unplaced, hd, hm, hfound]

/-! ### Grouping, order and offset -/

theorem column_of_isSome {o : Operand} (h : o.asColumn?.isSome) : ∃ ref span, o = .column ref span := by
  cases o with
  | column ref span => exact ⟨ref, span, rfl⟩
  | _ => cases h

theorem column_reads {o : Operand} (h : o.WellFormed v) (column : o.asColumn?.isSome)
    (ends : (nextKind rest).binding ≤ 11) : Reads v columnRef o.words rest (·.Same o) := by
  obtain ⟨ref, span, rfl⟩ := column_of_isSome column
  obtain ⟨rule, -⟩ := h
  exact columnRef_reads rule (Nat.le_trans ends (by decide)) span

theorem groupItem_reads {o : Operand} (h : GroupItem.WellFormed v o) (ends : (nextKind rest).binding ≤ 11) :
    Reads v groupItem o.words rest (·.Same o) := by
  refine .version ?_
  cases v with
  | v20 => exact .iteTrue rfl (column_reads h.1 (h.2 rfl) ends)
  | v21 => exact .iteFalse (by decide) (value_reads h.1 ends)

theorem groupByClause_reads {items : List Operand} (nonempty : items ≠ []) (h : ∀ o ∈ items, GroupItem.WellFormed v o)
    (ends : (nextKind rest).binding ≤ 7) :
    Reads v groupByClause (groupByWords items) rest (·.map Operand.unplaced = items.map Operand.unplaced) := by
  rw [groupByWords, if_neg (by simpa using nonempty)]
  refine .expect fun _ _ => .expect fun _ _ => ?_
  refine reads_sepBy Operand.unplaced commaWord nonempty (fun o ho after hafter => ?_) (Nat.lt_succ_of_le ends)
  exact groupItem_reads (h o ho) (Nat.le_trans hafter (by decide))

theorem orderKey_reads {o : OrderItem} (h : o.WellFormed v) (ends : (nextKind rest).binding ≤ 11) :
    Reads v orderKey o.expr.words rest (·.Same o.expr) := by
  obtain ⟨hexpr, keys⟩ := h
  refine .version ?_
  cases v with
  | v21 => exact .iteFalse (by decide) (value_reads hexpr ends)
  | v20 =>
    refine .iteTrue rfl ?_
    rcases keys rfl with column | ⟨text, span, same, number⟩
    · have read : Reads .v20 columnRef o.expr.words rest (·.Same o.expr) := column_reads hexpr column ends
      obtain ⟨ref, span, same⟩ := column_of_isSome column
      refine .sees (.iteFalse (mt beq_iff_eq.1 ?_) read)
      obtain ⟨i, -, us, hus⟩ := dottedWords_head ref.parts_ne_nil
      rw [same, Operand.words, hus]
      show i.word.1 ≠ _
      unfold Identifier.word
      cases i.delimited <;> intro h <;> cases h
    · rw [same, Operand.words, number.2]
      refine .sees (.iteTrue rfl (.place fun start => .advance fun t ht => .spanFrom fun _ => reads_pure ?_))
      have text : t.text = text := congrArg Prod.snd ht
      rw [text]
      rfl

theorem direction_reads (descending : Bool) (ends : (nextKind rest).binding ≤ 8) :
    Reads v direction (wordsIf descending [keywordWord .descKw]) rest (· = descending) := by
  cases descending with
  | true => exact .eatThen (reads_pure rfl)
  | false =>
    refine .eatElse (ne_of_binding_lt (Nat.lt_succ_of_le ends)) ?_
    exact .skip (ne_of_binding_lt (Nat.lt_succ_of_le ends)) (reads_pure rfl)

theorem orderItem_reads {o : OrderItem} (h : o.WellFormed v) (ends : (nextKind rest).binding ≤ 8) :
    Reads v orderItem o.words rest (·.unplaced = o.unplaced) := by
  have next : (nextKind (wordsIf o.descending [keywordWord .descKw] ++ rest)).binding ≤ 11 := by
    cases o.descending with
    | false => exact Nat.le_trans ends (by decide)
    | true => exact (by decide : 9 ≤ 11)
  refine .place fun start => (orderKey_reads h next).bind fun a ha => ?_
  refine (direction_reads _ ends).close fun d hd => .spanFrom fun _ => reads_pure ?_
  simp only [OrderItem.unplaced, show a.unplaced = o.expr.unplaced from ha, hd]

theorem orderByClause_reads {items : List OrderItem} (nonempty : items ≠ []) (h : ∀ o ∈ items, o.WellFormed v)
    (ends : (nextKind rest).binding ≤ 7) :
    Reads v orderByClause (orderByWords items) rest
      (·.map OrderItem.unplaced = items.map OrderItem.unplaced) := by
  rw [orderByWords, if_neg (by simpa using nonempty)]
  refine .expect fun _ _ => .expect fun _ _ => ?_
  refine reads_sepBy OrderItem.unplaced commaWord nonempty (fun o ho after hafter => ?_) (Nat.lt_succ_of_le ends)
  exact orderItem_reads (h o ho) hafter

theorem offsetClause_reads {offset : Option Offset} (h : ∀ o ∈ offset, o.WellFormed v)
    (ends : (nextKind rest).binding = 0) :
    Reads v offsetClause (offsetWords offset) rest (·.map Offset.unplaced = offset.map Offset.unplaced) := by
  refine .place fun start => ?_
  cases offset with
  | none =>
    refine .eatElse (ne_of_binding_lt ?_) (reads_pure rfl)
    change (nextKind rest).binding < 1
    omega
  | some offset =>
    refine .eatThen ((rowCount_reads (h offset rfl).2 "OFFSET").close fun m hm => .spanFrom fun _ => reads_pure ?_)
    rw [hm]
    rfl

end SkyQuery.Grammar
