import SkyQuery.Proofs.Grammar.Reads
import SkyQuery.Proofs.Text.Numbers

/-!
# Calls are read back

Each reader of a call reads the words of a well-formed call, and what it reads differs from the call
in places only, if the reader of its arguments does the same for what is nested in it.
-/

namespace SkyQuery

open Grammar

/-! ### First words -/

/-- The kinds of the words with which expressions start. -/
def Kind.opensValue : Kind → Bool
  | .integer | .decimal | .scientific | .string | .ident | .quotedIdent | .leftParen | .minus => true
  | .keyword word => word.isFunction
  | _ => false

theorem Kind.opensValue_of_isNumber {k : Kind} (h : k.isNumber = true) : k.opensValue = true := by
  cases k <;> first | rfl | cases h

variable {v : Version}

theorem Identifier.word_opensValue (i : Identifier) : i.word.1.opensValue = true := by
  unfold Identifier.word
  cases i.delimited <;> rfl

theorem ColumnRef.parts_ne_nil (c : ColumnRef) : c.parts ≠ [] := by simp [ColumnRef.parts]

theorem dottedWords_head {parts : List Identifier} (h : parts ≠ []) :
    ∃ i ∈ parts, ∃ us, dottedWords parts = i.word :: us := by
  cases parts with
  | nil => exact absurd rfl h
  | cons i others => exact ⟨i, List.mem_cons_self, _, rfl⟩

/-- An expression starts as values do; one that binds tightest starts with no sign. -/
theorem Operand.first {o : Operand} (h : o.WellFormed v) :
    ∃ w us, o.words = w :: us ∧ w.1.opensValue = true ∧ (3 < o.rank → w.1 ≠ .minus) := by
  induction h with
  | @intro o rule parts ih =>
    cases o with
    | numeric text span =>
      obtain ⟨k, number, whole⟩ := rule
      refine ⟨_, _, rfl, ?_, fun _ minus => ?_⟩
      · rw [whole.2]
        exact k.opensValue_of_isNumber number
      · rw [whole.2] at minus
        subst minus
        cases number
    | string value span => exact ⟨_, _, rfl, rfl, by intro _ same; cases same⟩
    | column ref span =>
      obtain ⟨i, -, us, words⟩ := dottedWords_head ref.parts_ne_nil
      refine ⟨i.word, us, words, i.word_opensValue, fun _ => ?_⟩
      unfold Identifier.word
      cases i.delimited <;> intro h <;> cases h
    | negative inner span => exact ⟨_, _, rfl, rfl, fun h => absurd h (Nat.lt_irrefl 3)⟩
    | operation left op right span =>
      obtain ⟨w, us, hw, opens, -⟩ := ih left List.mem_cons_self
      refine ⟨w, us ++ op.word :: right.words, by rw [words, hw]; rfl, opens, fun h => ?_⟩
      have low : op.rank < 3 := by cases op <;> decide
      exact absurd (show 3 < op.rank from h) (by omega)
    | concatenation operands span =>
      cases operands with
      | nil => exact absurd rule.1 (by decide)
      | cons o others =>
        obtain ⟨w, us, hw, opens, -⟩ := ih o List.mem_cons_self
        refine ⟨w, us ++ (allWords others).flatMap ((.concat, "||") :: ·), ?_, opens, fun h => ?_⟩
        · rw [words, allWords, joined, hw]
          rfl
        · exact absurd (show 3 < 0 from h) (by decide)
    | wrapped inner span => exact ⟨_, _, rfl, rfl, by intro _ same; cases same⟩
    | aggregate fn distinct arg span => cases arg <;> exact ⟨_, _, rfl, rfl, by intro _ same; cases same⟩
    | geometry fn sys args span => cases sys <;> exact ⟨_, _, rfl, rfl, by intro _ same; cases same⟩
    | userDefined name args span =>
      refine ⟨_, _, rfl, name.word_opensValue, fun _ => ?_⟩
      unfold Identifier.word
      cases name.delimited <;> intro h <;> cases h
    | _ => exact ⟨_, _, rfl, rfl, by intro _ same; cases same⟩

theorem Operand.opensValue {o : Operand} (h : o.WellFormed v) (rest : List Word) :
    (nextKind (o.words ++ rest)).opensValue = true := by
  obtain ⟨w, us, hw, opens, -⟩ := o.first h
  rw [hw]
  exact opens

theorem Operand.words_pos {o : Operand} (h : o.WellFormed v) : 0 < o.words.length := by
  obtain ⟨w, us, hw, -⟩ := o.first h
  rw [hw]
  exact Nat.zero_lt_succ _

namespace Grammar

open Parse

theorem ne_of_opensValue {ws : List Word} {k : Kind} (h : (nextKind ws).opensValue = true)
    (other : k.opensValue = false) : nextKind ws ≠ k := by
  rintro rfl
  rw [h] at other
  cases other

/-! ### Arguments -/

/-- `p` reads back each well-formed expression of at most `n` words that binds at least as tightly
as `r`, before whatever binds no tighter. -/
def ReadsBack (v : Version) (p : Parse Operand) (n r : Nat) : Prop :=
  ∀ o : Operand, o.WellFormed v → r ≤ o.rank → o.words.length ≤ n → ∀ rest,
    (nextKind rest).binding ≤ 11 + r → Reads v p o.words rest (·.Same o)

theorem length_le_joined {sep : Word} {ws : List Word} {all : List (List Word)} (h : ws ∈ all) :
    ws.length ≤ (joined sep all).length := by
  cases all with
  | nil => cases h
  | cons us others =>
    rw [joined, List.length_append]
    rcases List.mem_cons.1 h with rfl | h
    · exact Nat.le_add_right _ _
    · have part : (sep :: ws).Sublist (others.flatMap (sep :: ·)) :=
        List.sublist_flatten_of_mem (List.mem_map_of_mem h)
      have := part.length_le
      rw [List.length_cons] at this
      omega

variable {value : Parse Operand} {n : Nat} {rest : List Word} {args : List Operand}

theorem list_reads (hv : ReadsBack v value n 0) (nonempty : args ≠ []) (wf : ∀ a ∈ args, a.WellFormed v)
    (short : (joined commaWord (args.map Operand.words)).length ≤ n)
    (ends : (nextKind rest).binding < commaWord.1.binding) :
    Reads v (commaSeparated value) (joined commaWord (args.map Operand.words)) rest
      (Operand.SameAll · args) := by
  refine reads_sepBy Operand.unplaced commaWord nonempty (fun a ha after hafter => ?_) ends
  refine hv a (wf a ha) (Nat.zero_le _) ?_ after (Nat.le_trans hafter (by decide))
  exact Nat.le_trans (length_le_joined (List.mem_map_of_mem ha)) short

/-- The words of arguments, with the parentheses around them. -/
def argumentWords (args : List Operand) : List Word :=
  openWord :: (joined commaWord (args.map Operand.words) ++ [closeWord])

theorem arguments_reads (hv : ReadsBack v value n 0) (wf : ∀ a ∈ args, a.WellFormed v)
    (short : (joined commaWord (args.map Operand.words)).length ≤ n) :
    Reads v (arguments value) (argumentWords args) rest (Operand.SameAll · args) := by
  refine .expect fun _ _ => ?_
  cases args with
  | nil => exact .eatThen (reads_pure rfl)
  | cons a others =>
    refine .eatElse ?_ ((list_reads hv (List.cons_ne_nil a others) wf short ?_).bind fun bs hbs => ?_)
    · have opens := a.opensValue (wf a List.mem_cons_self)
        ((others.map Operand.words).flatMap (commaWord :: ·) ++ ([closeWord] ++ rest))
      rw [List.map_cons, joined, List.append_assoc, List.append_assoc]
      exact ne_of_opensValue opens rfl
    · exact Nat.zero_lt_succ _
    · exact .expect fun _ _ => reads_pure hbs

/-! ### Functions of numbers -/

theorem mathCall_reads (hv : ReadsBack v value n 0) (wf : ∀ a ∈ args, a.WellFormed v)
    (short : (joined commaWord (args.map Operand.words)).length ≤ n) {fn : MathFn} {span : Option Span}
    (rule : (Operand.math fn args span).Rule v) (start : Place) :
    Reads v (mathCall value fn start) (argumentWords args) rest (·.Same (.math fn args span)) := by
  obtain ⟨least, most, numeric⟩ := rule
  refine (arguments_reads hv wf short).close fun bs hbs => .iteFalse ?_ ?_
  · rw [hbs.length]
    simp only [Bool.or_eq_true, decide_eq_true_eq]
    omega
  · have checks := hbs.forall_mem Operand.isNumeric_unplaced numeric
    refine (reads_checkAll fun b hb => reads_checkNumeric (checks b hb)).andThen fun _ _ => ?_
    exact .spanFrom fun _ => reads_pure (congrArg (Operand.math fn · none) hbs.allUnplaced)

theorem quantifier_reads (distinct : Bool) (hdistinct : nextKind rest ≠ .keyword .distinctKw)
    (hall : nextKind rest ≠ .keyword .allKw) :
    Reads v aggregateCall.quantifier (wordsIf distinct [keywordWord .distinctKw]) rest (· = distinct) := by
  cases distinct with
  | true => exact .eatThen (reads_pure rfl)
  | false => exact .eatElse hdistinct (.skip hall (reads_pure rfl))

theorem countAll_reads (start : Place) (span : Option Span) :
    Reads v (aggregateCall value .count start) [openWord, (.star, "*"), closeWord] rest
      (·.Same (.aggregate .count false none span)) := by
  refine .expect fun _ _ => ?_
  refine (quantifier_reads false ?_ ?_).bind fun distinct hdistinct => ?_
  · intro h
    cases h
  · intro h
    cases h
  subst hdistinct
  have star : Reads v (aggregateCall.argument value .count false) [(.star, "*")] ([closeWord] ++ rest)
      (· = none) := by
    unfold aggregateCall.argument
    exact .iteTrue rfl (.eatThen (reads_pure rfl))
  refine star.bind fun arg harg => .expect fun _ _ => .spanFrom fun _ => reads_pure ?_
  rw [harg]
  rfl

theorem aggregateCall_reads (hv : ReadsBack v value n 0) {arg : Operand} (wf : arg.WellFormed v)
    (short : arg.words.length ≤ n) {fn : AggregateFn} (numeric : fn = .avg ∨ fn = .sum → arg.isNumeric = true)
    (distinct : Bool) (span : Option Span) (start : Place) :
    Reads v (aggregateCall value fn start)
      (openWord :: (wordsIf distinct [keywordWord .distinctKw] ++ (arg.words ++ [closeWord]))) rest
      (·.Same (.aggregate fn distinct (some arg) span)) := by
  have opens (k : Kind) (other : k.opensValue = false) : nextKind (arg.words ++ ([closeWord] ++ rest)) ≠ k :=
    ne_of_opensValue (arg.opensValue wf _) other
  refine .expect fun _ _ => (quantifier_reads distinct ?_ ?_).bind fun d hd => ?_
  · rw [List.append_assoc]
    exact opens _ rfl
  · rw [List.append_assoc]
    exact opens _ rfl
  subst hd
  have someValue : Reads v (do
      let arg ← value
      if fn == .avg || fn == .sum then checkNumeric arg
      return some arg) arg.words ([closeWord] ++ rest) fun r => ∃ b : Operand, r = some b ∧ b.Same arg := by
    refine (hv arg wf (Nat.zero_le _) short _ (Nat.zero_le _)).close fun b hb => ?_
    by_cases sum : (fn == .avg || fn == .sum) = true
    · refine .iteTrue sum ((reads_checkNumeric ?_).andThen fun _ _ => reads_pure ⟨b, rfl, hb⟩)
      rw [hb.isNumeric]
      exact numeric (by simpa using sum)
    · exact .iteFalse sum (reads_pure ⟨b, rfl, hb⟩)
  have argument : Reads v (aggregateCall.argument value fn d) arg.words ([closeWord] ++ rest)
      fun r => ∃ b : Operand, r = some b ∧ b.Same arg := by
    by_cases count : (fn == .count && !d) = true
    · exact .iteTrue count (.eatElse (opens _ rfl) someValue)
    · exact .iteFalse count someValue
  refine argument.bind fun r hr => .expect fun _ _ => .spanFrom fun _ => reads_pure ?_
  obtain ⟨b, rfl, hb⟩ := hr
  exact congrArg (Operand.aggregate fn d · none) (congrArg some hb)

/-! ### Casts -/

theorem typeLength_reads {m : Nat} (h : m < Nat.pow 2 32) :
    Reads v typeLength [openWord, numberWord m, closeWord] rest (· = some m) := by
  refine .eatThen (.place fun start => .expect fun t ht => ?_)
  have text : t.text = toString m := congrArg Prod.snd ht
  simp only [text, digitsBelow?_toString h]
  exact .expect fun _ _ => reads_pure rfl

theorem noLength_reads (h : nextKind rest ≠ .leftParen) : Reads v typeLength [] rest (· = none) :=
  .eatElse h (reads_pure rfl)

theorem Parse.Reads.word {α : Type} {word text description : String} {p q : Parse α} {us : List Word}
    {P : α → Prop} (same : Text.sameLetters text word = true) (h : Reads v p us rest P) :
    Reads v (eatWord word description >>= fun eaten => if eaten then p else q) (plainWord text :: us) rest P := by
  intro s hs
  have here : (s.current.kind == .ident && Text.sameLetters s.current.text word) = true := by
    have kind : s.current.kind = .ident := congrArg Prod.fst hs.current
    have word : s.current.text = text := congrArg Prod.snd hs.current
    rw [kind, word, same]
    rfl
  have hit : eatWord word description v s = .ok (true, s.advance) := by
    unfold eatWord
    rw [bind_eq (a := s.current.kind == .ident && Text.sameLetters s.current.text word) rfl, if_pos here]
    rfl
  rw [bind_eq hit]
  exact h _ hs.advance

theorem Parse.Reads.otherWord {α : Type} {word text description : String} {p q : Parse α} {us : List Word}
    {P : α → Prop} (other : Text.sameLetters text word = false)
    (h : Reads v q (plainWord text :: us) rest P) :
    Reads v (eatWord word description >>= fun eaten => if eaten then p else q) (plainWord text :: us) rest P := by
  intro s hs
  have here : ¬(s.current.kind == .ident && Text.sameLetters s.current.text word) = true := by
    have word : s.current.text = text := congrArg Prod.snd hs.current
    rw [word, other, Bool.and_false]
    exact Bool.false_ne_true
  have miss : eatWord word description v s =
      .ok (false, { s with expected := description :: s.expected }) := by
    unfold eatWord
    rw [bind_eq (a := s.current.kind == .ident && Text.sameLetters s.current.text word) rfl, if_neg here]
    rfl
  rw [bind_eq miss]
  exact h _ hs.expecting

theorem castType_reads {target : CastType} (h : target.WellFormed) (ends : nextKind rest ≠ .leftParen) :
    Reads v castType target.words rest (· = target) := by
  have length (make : Option Nat → CastType) (m : Nat) (hm : m < Nat.pow 2 32) :
      Reads v (do return make (← typeLength)) [openWord, numberWord m, closeWord] rest (· = make (some m)) :=
    (typeLength_reads hm).close fun r hr => reads_pure (congrArg make hr)
  have plain (make : Option Nat → CastType) :
      Reads v (do return make (← typeLength)) [] rest (· = make none) :=
    (noLength_reads ends).close fun r hr => reads_pure (congrArg make hr)
  unfold castType
  cases target with
  | smallInt => exact .word rfl (reads_pure rfl)
  | integer =>
    refine .otherWord rfl ?_
    exact .word rfl (reads_pure rfl)
  | bigInt =>
    iterate 2 refine .otherWord rfl ?_
    exact .word rfl (reads_pure rfl)
  | real =>
    iterate 3 refine .otherWord rfl ?_
    exact .word rfl (reads_pure rfl)
  | doublePrecision =>
    iterate 4 refine .otherWord rfl ?_
    exact .word rfl (.word rfl (reads_pure rfl))
  | char size =>
    cases size with
    | none =>
      iterate 5 refine .otherWord rfl ?_
      exact .word rfl (plain .char)
    | some m =>
      iterate 5 refine .otherWord rfl ?_
      exact .word rfl (length .char m h)
  | varChar size =>
    cases size with
    | none =>
      iterate 6 refine .otherWord rfl ?_
      exact .word rfl (plain .varChar)
    | some m =>
      iterate 6 refine .otherWord rfl ?_
      exact .word rfl (length .varChar m h)
  | timestamp =>
    iterate 7 refine .otherWord rfl ?_
    exact .word rfl (reads_pure rfl)

theorem castCall_reads (hv : ReadsBack v value n 0) {arg : Operand} (wf : arg.WellFormed v)
    (short : arg.words.length ≤ n) {target : CastType} (htarget : target.WellFormed) (span : Option Span)
    (start : Place) :
    Reads v (castCall value start)
      (openWord :: (arg.words ++ keywordWord .asKw :: (target.words ++ [closeWord]))) rest
      (·.Same (.cast arg target span)) := by
  have hasAs : (Kind.keyword .asKw).binding ≤ 11 := by decide
  refine .expect fun _ _ => (hv arg wf (Nat.zero_le _) short _ ?_).bind fun b hb => .expect fun _ _ => ?_
  · exact hasAs
  have read : Reads v castType target.words ([closeWord] ++ rest) (· = target) := castType_reads htarget (by intro same; cases same)
  refine read.bind fun t ht => .expect fun _ _ => .spanFrom fun _ => reads_pure ?_
  subst ht
  exact congrArg (Operand.cast · t none) hb

/-! ### Geometry -/

theorem takes_same {form : ShapeForm} {as bs : List Operand} (h : Operand.SameAll as bs)
    (takes : form.Takes bs) : form.Takes as := by
  cases form with
  | numbers => exact h.forall_mem Operand.isNumeric_unplaced takes
  | points => exact h.forall_mem Operand.isGeometry_unplaced takes
  | centred =>
    cases as with
    | nil => exact ⟨by simp, by simp⟩
    | cons a as =>
      cases bs with
      | nil => cases h
      | cons b bs =>
        obtain ⟨centre, lengths⟩ := h.of_cons
        refine ⟨fun c hc => ?_, lengths.forall_mem Operand.isNumeric_unplaced takes.2⟩
        cases hc
        rw [centre.isGeometry]
        exact takes.1 b rfl

theorem checkShape_reads {form : ShapeForm} {args : List Operand} (takes : form.Takes args) :
    Reads v (checkShape form args) [] rest fun _ => True := by
  cases form with
  | numbers => exact reads_checkAll fun a ha => reads_checkNumeric (takes a ha)
  | points => exact reads_checkAll fun a ha => reads_checkGeometry (takes a ha)
  | centred =>
    cases args with
    | nil => exact reads_pure trivial
    | cons centre lengths =>
      refine (reads_checkGeometry (takes.1 centre rfl)).andThen fun _ _ => ?_
      exact reads_checkAll fun a ha => reads_checkNumeric (takes.2 a ha)

/-- The arguments of a shape with its coordinate system, if it has one. -/
theorem shape_reads {fn : GeometryFn} {sys : Option Operand} {args bs : List Operand}
    (rule : ShapeRule v fn sys args) (h : Operand.SameAll bs (sys.toList ++ args)) (span : Option Span)
    (start : Place) :
    Reads v (shape fn bs start) [] rest (·.Same (.geometry fn sys args span)) := by
  obtain ⟨withSys, string, form, hform, takes⟩ := rule
  have fits (s : Option Operand) (coordinates : List Operand) (given : Nat)
      (hs : s.map Operand.unplaced = sys.map Operand.unplaced) (hcoordinates : Operand.SameAll coordinates args) :
      Reads v (fittedShape v fn s coordinates given start) [] rest (·.Same (.geometry fn sys args span)) := by
    unfold fittedShape
    rw [hcoordinates.length, hcoordinates.pointFirst, hform]
    refine (checkShape_reads (takes_same hcoordinates takes)).andThen fun _ _ => .spanFrom fun _ => ?_
    refine reads_pure ?_
    unfold Operand.Same
    cases s with
    | none =>
      cases sys with
      | none => exact congrArg (Operand.geometry fn none · none) hcoordinates.allUnplaced
      | some system => cases hs
    | some given =>
      cases sys with
      | none => cases hs
      | some system =>
        simp only [Operand.unplaced, Option.some.inj hs, hcoordinates.allUnplaced]
  unfold shape
  refine .version ?_
  rw [← h.startsWithCoordSys] at withSys
  cases sys with
  | none =>
    refine .iteFalse (by rw [← withSys]; exact Bool.false_ne_true) ?_
    exact fits none bs bs.length rfl h
  | some system =>
    refine .iteTrue withSys.symm ?_
    cases bs with
    | nil => cases h
    | cons b coordinates =>
      obtain ⟨first, others⟩ := h.of_cons
      refine (reads_checkString ?_).andThen fun _ _ => ?_
      · rw [first.isString]
        exact string system rfl
      · exact fits (some b) coordinates (coordinates.length + 1) (congrArg some first) others

theorem checkGeometryArgs_reads {fn : GeometryFn} {args bs : List Operand} (rule : GeometryArgsRule v fn args)
    (h : Operand.SameAll bs args) (start : Place) :
    Reads v (checkGeometryArgs fn bs start) [] rest fun _ => True := by
  have only (m : Nat) (text : String) {f : Operand → Bool} {check : Operand → Parse Unit}
      (inv : ∀ o, f o.unplaced = f o)
      (hcheck : ∀ o, f o = true → Reads v (check o) [] rest fun _ => True)
      (hargs : args.length = m ∧ ∀ a ∈ args, f a = true) :
      Reads v (if bs.length = m then checkAll check bs else wrongArity fn.name text bs.length start) [] rest
        fun _ => True := by
    refine .iteTrue (h.length.trans hargs.1) (reads_checkAll fun b hb => hcheck b ?_)
    exact h.forall_mem inv hargs.2 b hb
  have geometries := fun m text => only m text Operand.isGeometry_unplaced fun o => reads_checkGeometry
  cases fn with
  | contains | intersects => exact geometries 2 "2" rule
  | region => exact only 1 "1" Operand.isString_unplaced (fun o => reads_checkString) rule
  | distance =>
    refine .version ?_
    rcases rule with ⟨two, geometry⟩ | ⟨four, later, numeric⟩
    · refine .iteTrue (h.length.trans two) (reads_checkAll fun b hb => reads_checkGeometry ?_)
      exact h.forall_mem Operand.isGeometry_unplaced geometry b hb
    · have length : bs.length = 4 := h.length.trans four
      refine .iteFalse (by omega) (.iteTrue ?_ (reads_checkAll fun b hb => reads_checkNumeric ?_))
      · simp [length, later]
      · exact h.forall_mem Operand.isNumeric_unplaced numeric b hb
  | _ => exact geometries 1 "1" rule

theorem geometryCall_reads (hv : ReadsBack v value n 0) {fn : GeometryFn} {sys : Option Operand} {span : Option Span}
    (wf : ∀ a ∈ sys.toList ++ args, a.WellFormed v)
    (short : (joined commaWord ((sys.toList ++ args).map Operand.words)).length ≤ n)
    (rule : (Operand.geometry fn sys args span).Rule v) (start : Place) :
    Reads v (geometryCall value fn start) (argumentWords (sys.toList ++ args)) rest
      (·.Same (.geometry fn sys args span)) := by
  obtain ⟨-, rule⟩ := rule
  refine (arguments_reads hv wf short).close fun bs hbs => ?_
  by_cases isShape : fn.isShape = true
  · rw [if_pos isShape] at rule
    exact .iteTrue isShape (shape_reads rule hbs span start)
  · rw [if_neg isShape] at rule
    obtain ⟨rfl, rule⟩ := rule
    refine .iteFalse isShape ((checkGeometryArgs_reads rule hbs start).andThen fun _ _ => ?_)
    exact .spanFrom fun _ => reads_pure (congrArg (Operand.geometry fn none · none) hbs.allUnplaced)

/-! ### Other functions -/

theorem stringArgument_reads (hv : ReadsBack v value n 0) {arg : Operand} (wf : arg.WellFormed v)
    (short : arg.words.length ≤ n) (string : arg.isString = true) (name : String) (start : Place) :
    Reads v (stringArgument value name start) (openWord :: (arg.words ++ [closeWord])) rest (·.Same arg) := by
  have read : Reads v (arguments value) (argumentWords [arg]) rest (Operand.SameAll · [arg]) :=
    arguments_reads hv (by simpa using wf) (by simpa [joined] using short)
  simp only [argumentWords, List.map_cons, List.map_nil, joined, List.flatMap_nil, List.append_nil] at read
  refine read.close fun bs hbs => ?_
  obtain ⟨b, rfl⟩ := List.length_eq_one_iff.1 hbs.length
  have same := hbs.of_cons.1
  refine (reads_checkString ?_).andThen fun _ _ => reads_pure same
  rw [same.isString, string]

theorem inUnitCall_reads (hv : ReadsBack v value n 0) {arg unit : Operand} {span : Option Span}
    (wf : ∀ a ∈ [arg, unit], a.WellFormed v)
    (short : (joined commaWord ([arg, unit].map Operand.words)).length ≤ n)
    (numeric : arg.isNumeric = true) (string : unit.isString = true) (start : Place) :
    Reads v (inUnitCall value start) (argumentWords [arg, unit]) rest (·.Same (.inUnit arg unit span)) := by
  refine (arguments_reads hv wf short).close fun bs hbs => ?_
  obtain ⟨a, u, rfl⟩ : ∃ a u, bs = [a, u] := ⟨_, _, List.eq_getElem_of_length_eq_two bs hbs.length⟩
  have first := hbs.of_cons.1
  have second := hbs.of_cons.2.of_cons.1
  refine (reads_checkNumeric ?_).andThen fun _ _ => (reads_checkString ?_).andThen fun _ _ => ?_
  · rw [first.isNumeric, numeric]
  · rw [second.isString, string]
  · refine .spanFrom fun _ => reads_pure ?_
    change Operand.inUnit a.unplaced u.unplaced none = Operand.inUnit arg.unplaced unit.unplaced none
    rw [show a.unplaced = arg.unplaced from first, show u.unplaced = unit.unplaced from second]

theorem coalesceCall_reads (hv : ReadsBack v value n 0) (wf : ∀ a ∈ args, a.WellFormed v)
    (short : (joined commaWord (args.map Operand.words)).length ≤ n) (nonempty : args ≠ [])
    (span : Option Span) (start : Place) :
    Reads v (coalesceCall value start) (argumentWords args) rest (·.Same (.coalesce args span)) := by
  refine (arguments_reads hv wf short).close fun bs hbs => ?_
  cases bs with
  | nil =>
    cases args with
    | nil => exact absurd rfl nonempty
    | cons a others => cases hbs
  | cons b others =>
    exact .spanFrom fun _ => reads_pure (congrArg (Operand.coalesce · none) hbs.allUnplaced)

theorem userCall_reads (hv : ReadsBack v value n 0) (wf : ∀ a ∈ args, a.WellFormed v)
    (short : (joined commaWord (args.map Operand.words)).length ≤ n) (name : Identifier)
    (span : Option Span) (start : Place) :
    Reads v (do
      let args ← arguments value
      return Operand.userDefined name args (← spanFrom start)) (argumentWords args) rest
      (·.Same (.userDefined name args span)) := by
  refine (arguments_reads hv wf short).close fun bs hbs => .spanFrom fun _ => reads_pure ?_
  exact congrArg (Operand.userDefined name · none) hbs.allUnplaced

/-! ### Calls -/

/-- Whether an expression is a call. -/
def isCall : Operand → Bool
  | .math .. | .aggregate .. | .geometry .. | .lower .. | .upper .. | .coalesce .. | .inUnit .. | .cast ..
  | .userDefined .. => true
  | _ => false

theorem call_reads (hv : ReadsBack v value n 0) {o : Operand} (h : o.WellFormed v) (called : isCall o = true)
    (short : o.words.length ≤ n + 1) : Reads v (call value) o.words rest (·.Same o) := by
  obtain ⟨rule, parts⟩ := h
  -- The bound counts the name and the parentheses, so what stands between them is shorter.
  have inner (name : Word) (ws : List Word) (hw : (callWords name ws).length ≤ n + 1) : ws.length ≤ n := by
    simp only [callWords, List.length_cons, List.length_append] at hw
    omega
  unfold call
  cases o with
  | numeric | string | column | negative | operation | concatenation | wrapped => cases called
  | math fn args span =>
    rw [Operand.words, Operand.allWords_eq_map] at short ⊢
    refine .place fun start => .advance fun t ht => ?_
    have kind : t.kind = .keyword (.math fn) := congrArg Prod.fst ht
    simp only [kind]
    exact mathCall_reads hv parts (inner _ _ short) rule start
  | aggregate fn distinct arg span =>
    cases arg with
    | none =>
      obtain ⟨rfl, rfl⟩ := rule
      refine .place fun start => .advance fun t ht => ?_
      have kind : t.kind = .keyword (.aggregate .count) := congrArg Prod.fst ht
      simp only [kind]
      exact countAll_reads start span
    | some arg =>
      have all := inner _ _ short
      rw [List.length_append] at all
      rw [Operand.words, callWords, List.append_assoc]
      refine .place fun start => .advance fun t ht => ?_
      have kind : t.kind = .keyword (.aggregate fn) := congrArg Prod.fst ht
      simp only [kind]
      exact aggregateCall_reads hv (parts arg List.mem_cons_self) (by omega) rule distinct span start
  | geometry fn sys args span =>
    have words : (Operand.geometry fn sys args span).words =
        callWords (keywordWord (.geometry fn)) (joined commaWord ((sys.toList ++ args).map Operand.words)) := by
      cases sys <;> rw [Operand.words, Operand.allWords_eq_map] <;> rfl
    rw [words] at short ⊢
    refine .place fun start => .advance fun t ht => ?_
    have kind : t.kind = .keyword (.geometry fn) := congrArg Prod.fst ht
    simp only [kind]
    exact geometryCall_reads hv parts (inner _ _ short) rule start
  | lower arg span =>
    refine .place fun start => .advance fun t ht => ?_
    have kind : t.kind = .keyword .lowerKw := congrArg Prod.fst ht
    simp only [kind]
    refine (stringArgument_reads hv (parts arg List.mem_cons_self) (inner _ _ short) rule.2 _ start).close ?_
    exact fun b hb => .spanFrom fun _ => reads_pure (congrArg (Operand.lower · none) hb)
  | upper arg span =>
    refine .place fun start => .advance fun t ht => ?_
    have kind : t.kind = .keyword .upperKw := congrArg Prod.fst ht
    simp only [kind]
    refine (stringArgument_reads hv (parts arg List.mem_cons_self) (inner _ _ short) rule.2 _ start).close ?_
    exact fun b hb => .spanFrom fun _ => reads_pure (congrArg (Operand.upper · none) hb)
  | coalesce args span =>
    rw [Operand.words, Operand.allWords_eq_map] at short ⊢
    refine .place fun start => .advance fun t ht => ?_
    have kind : t.kind = .keyword .coalesceKw := congrArg Prod.fst ht
    simp only [kind]
    exact coalesceCall_reads hv parts (inner _ _ short) rule.2 span start
  | inUnit arg unit span =>
    have words : (Operand.inUnit arg unit span).words =
        callWords (keywordWord .inUnitKw) (joined commaWord ([arg, unit].map Operand.words)) := by
      simp [Operand.words, joined]
    rw [words] at short ⊢
    refine .place fun start => .advance fun t ht => ?_
    have kind : t.kind = .keyword .inUnitKw := congrArg Prod.fst ht
    simp only [kind]
    exact inUnitCall_reads hv parts (inner _ _ short) rule.2.1 rule.2.2 start
  | cast arg target span =>
    have all := inner _ _ short
    rw [List.length_append] at all
    rw [Operand.words, callWords, List.append_assoc]
    refine .place fun start => .advance fun t ht => ?_
    have kind : t.kind = .keyword .castKw := congrArg Prod.fst ht
    simp only [kind]
    exact castCall_reads hv (parts arg List.mem_cons_self) (by omega) rule.2 span start
  | userDefined name args span =>
    obtain ⟨delimited, wf⟩ := rule
    rw [Operand.words, Operand.allWords_eq_map] at short ⊢
    refine .place fun start => .advance fun t ht => ?_
    have kind : t.kind = name.word.1 := congrArg Prod.fst ht
    rw [Identifier.word, delimited] at kind
    simp only [kind, ofText_word wf ht, Bool.false_eq_true, if_false]
    exact userCall_reads hv parts (inner _ _ short) name span start

end Grammar

end SkyQuery
