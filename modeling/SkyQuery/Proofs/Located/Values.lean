import SkyQuery.Proofs.Located.Ranges

/-!
# Where values stand

`value_located`: a value that is read stands, with all values in it, where it was read, and the words
there are read as it. The values of one level of the grammar are values of all levels above it, at the
end of a text.
-/

namespace SkyQuery.Grammar

open Parse

variable {v : Version} {tokens : List Token} {i j k : Nat} {value : Parse Operand}

/-- What the reader reads stands where it is read. -/
abbrev Locates {α : Type} (v : Version) (tokens : List Token) (part : α → Part) (p : Parse α) : Prop :=
  ∀ k, Ends v tokens k p fun j a => (part a).Within v tokens k j

/-- Begun at the token `i`, the reader reads an expression with its span from there. -/
abbrev EndsOperand (v : Version) (tokens : List Token) (i k : Nat) (p : Parse Operand) : Prop :=
  Ends v tokens k p fun j o => (Part.operand o).Spans v tokens i j

theorem operand_spans {o : Operand} (here : o.span = some (spanOf tokens i j))
    (parts : ∀ c ∈ o.children, (Part.operand c).Within v tokens i j) : (Part.operand o).Spans v tokens i j := by
  refine ⟨here, fun p member => ?_⟩
  obtain ⟨c, hc, rfl⟩ := List.mem_map.1 member
  exact parts c hc

/-- What the words of a range are read as stands there, if its span and its parts do. -/
theorem operand_within {o : Operand} (here : (Part.operand o).Spans v tokens i j)
    (inside : j ≤ (wordsBefore tokens).length) (some : piece tokens i j ≠ [])
    (read : Reads v Grammar.value (piece tokens i j) [] (·.unplaced = o.unplaced)) :
    (Part.operand o).Within v tokens i j :=
  here.within (Nat.le_of_lt (lt_of_piece_ne_nil some)) inside ⟨some, read⟩

/-- What a reader ends with: the span of all that was read. -/
theorem ends_operand {make : Option Span → Operand} (here : ∀ span, (make span).span = span)
    (parts : ∀ span, ∀ c ∈ (make span).children, (Part.operand c).Within v tokens i k) :
    EndsOperand v tokens i k (do return make (← spanFrom (startOf tokens i))) :=
  .spanFrom (ends_pure (operand_spans (here _) (parts _)))

theorem ends_leaf {make : Option Span → Operand} (here : ∀ span, (make span).span = span)
    (alone : ∀ span, (make span).children = []) :
    EndsOperand v tokens i k (do return make (← spanFrom (startOf tokens i))) :=
  ends_operand here fun span c hc => by rw [alone] at hc; cases hc

theorem ends_single {make : Option Span → Operand} {o : Operand} (here : ∀ span, (make span).span = span)
    (alone : ∀ span, (make span).children = [o]) (ho : (Part.operand o).Within v tokens i k) :
    EndsOperand v tokens i k (do return make (← spanFrom (startOf tokens i))) := by
  refine ends_operand here fun span c hc => ?_
  rw [alone] at hc
  obtain rfl := List.mem_singleton.1 hc
  exact ho

theorem ends_wrongArity {α : Type} {name expected : String} {given : Nat} {start : Place} {Q : Nat → α → Prop} :
    Ends v tokens k (wrongArity name expected given start) Q := ends_fail fun _ _ _ h => by cases h

/-! ### Checks -/

theorem looks_checkNumeric (o : Operand) : Looks v (checkNumeric o) :=
  .ite (fun _ => looks_pure ()) fun _ => looks_failAt

theorem looks_checkString (o : Operand) : Looks v (checkString o) :=
  .ite (fun _ => looks_pure ()) fun _ => looks_failAt

theorem looks_checkGeometry (o : Operand) : Looks v (checkGeometry o) :=
  .ite (fun _ => looks_pure ()) fun _ => looks_failAt

theorem looks_checkAll {check : Operand → Parse Unit} (h : ∀ o, Looks v (check o)) (os : List Operand) :
    Looks v (checkAll check os) := by
  induction os with
  | nil => exact looks_pure ()
  | cons o others ih => exact (h o).seq fun _ => ih

theorem looks_checkShape (form : ShapeForm) (args : List Operand) : Looks v (checkShape form args) := by
  cases form with
  | numbers => exact looks_checkAll looks_checkNumeric args
  | points => exact looks_checkAll looks_checkGeometry args
  | centred =>
    cases args with
    | nil => exact looks_pure ()
    | cons centre lengths => exact (looks_checkGeometry centre).seq fun _ => looks_checkAll looks_checkNumeric lengths

theorem looks_wrongArity {α : Type} {name expected : String} {given : Nat} {start : Place} :
    Looks v (wrongArity name expected given start : Parse α) := looks_fail fun _ _ _ h => by cases h

theorem looks_checkGeometryArgs (fn : GeometryFn) (args : List Operand) (start : Place) :
    Looks v (checkGeometryArgs fn args start) := by
  unfold checkGeometryArgs
  cases fn with
  | contains | intersects => exact .ite (fun _ => looks_checkAll looks_checkGeometry args) fun _ => looks_wrongArity
  | distance =>
    refine looks_version.seq fun _ => .ite (fun _ => looks_checkAll looks_checkGeometry args) fun _ => ?_
    exact .ite (fun _ => looks_checkAll looks_checkNumeric args) fun _ => looks_wrongArity
  | region => exact .ite (fun _ => looks_checkAll looks_checkString args) fun _ => looks_wrongArity
  | _ => exact .ite (fun _ => looks_checkAll looks_checkGeometry args) fun _ => looks_wrongArity

/-! ### Calls -/

section Calls

variable {start : Place}

theorem arguments_located (hv : Locates v tokens .operand value) (k : Nat) :
    Ends v tokens k (arguments value) fun j args => ∀ a ∈ args, (Part.operand a).Within v tokens k j := by
  refine (moves_expect _).bind fun a _ ka => (moves_eat _).bind fun b _ ab => ?_
  refine .ite (fun _ => ends_pure (List.forall_mem_nil _)) fun _ => ?_
  refine (Ends.sepBy hv (fun l r h => h.widen l r) b).bind fun c args bc hargs => ?_
  refine (moves_expect _).bind fun j _ cj => ends_pure fun o ho => ?_
  exact (hargs o ho).widen (by omega) cj

theorem mathCall_located (hv : Locates v tokens .operand value) (fn : MathFn) (ik : i ≤ k) :
    EndsOperand v tokens i k (mathCall value fn (startOf tokens i)) := by
  refine (arguments_located hv k).bind fun a args ka hargs => .ite (fun _ => ends_wrongArity) fun _ => ?_
  refine (looks_checkAll looks_checkNumeric args).moves.bind fun j _ aj => ends_operand (fun _ => rfl) fun _ o ho => ?_
  exact (hargs o ho).widen ik aj

theorem argument_located (hv : Locates v tokens .operand value) (fn : AggregateFn) (distinct : Bool) (k : Nat) :
    Ends v tokens k (aggregateCall.argument value fn distinct)
      fun j arg => ∀ o ∈ arg, (Part.operand o).Within v tokens k j := by
  have given (k : Nat) : Ends v tokens k (do
      let arg ← value
      if fn == .avg || fn == .sum then checkNumeric arg
      return some arg) fun j arg => ∀ o ∈ arg, (Part.operand o).Within v tokens k j := by
    refine (hv k).bind fun a arg ka harg => ?_
    have found (j : Nat) (aj : a ≤ j) : Ends v tokens j (return some arg)
        fun j arg => ∀ o ∈ arg, (Part.operand o).Within v tokens k j := by
      refine ends_pure fun o ho => ?_
      obtain rfl := Option.some.inj ho
      exact harg.widen (Nat.le_refl k) aj
    exact .ite (fun _ => (looks_checkNumeric arg).moves.bind fun j _ aj => found j aj) fun _ => found a (Nat.le_refl a)
  unfold aggregateCall.argument
  refine .ite (fun _ => (moves_eat _).bind fun a _ ka => ?_) fun _ => given k
  refine .ite (fun _ => ends_pure (by simp)) fun _ => (given a).mono fun j arg _ h o ho => ?_
  exact (h o ho).widen ka (Nat.le_refl j)

theorem aggregateCall_located (hv : Locates v tokens .operand value) (fn : AggregateFn) (ik : i ≤ k) :
    EndsOperand v tokens i k (aggregateCall value fn (startOf tokens i)) := by
  refine (moves_expect _).bind fun a _ ka => rereads_quantifier.moves.bind fun b distinct ab => ?_
  refine (argument_located hv fn distinct b).bind fun c arg bc harg => (moves_expect _).bind fun j _ cj => ?_
  refine ends_operand (fun _ => rfl) fun _ o ho => ?_
  exact (harg o (by simpa [Operand.children] using ho)).widen (by omega) cj

theorem castCall_located (hv : Locates v tokens .operand value) (ik : i ≤ k) :
    EndsOperand v tokens i k (castCall value (startOf tokens i)) := by
  refine (moves_expect _).bind fun a _ ka => (hv a).bind fun b arg ab harg => (moves_expect _).bind fun c _ bc => ?_
  refine rereads_castType.moves.bind fun d target cd => (moves_expect _).bind fun j _ dj => ?_
  exact ends_single (fun _ => rfl) (fun _ => rfl) (harg.widen (by omega) (by omega))

theorem shape_located {fn : GeometryFn} {args : List Operand}
    (hargs : ∀ a ∈ args, (Part.operand a).Within v tokens i k) :
    EndsOperand v tokens i k (shape fn args (startOf tokens i)) := by
  have fits (sys : Option Operand) (coordinates : List Operand) (k : Nat)
      (parts : ∀ a ∈ sys.toList ++ coordinates, (Part.operand a).Within v tokens i k) :
      EndsOperand v tokens i k (fittedShape v fn sys coordinates args.length (startOf tokens i)) := by
    unfold fittedShape
    cases shapeForm? v fn coordinates.length ((coordinates.head?.map isPointLike).getD false) with
    | none => exact ends_wrongArity
    | some form =>
      refine (looks_checkShape form coordinates).moves.bind fun j _ kj => ends_operand (fun _ => rfl) fun _ o ho => ?_
      exact (parts o ho).widen (Nat.le_refl i) kj
  change Ends v tokens k (if v == .v20 || startsWithCoordSys fn args then _ else fittedShape v fn none args _ _ : Parse Operand) _
  refine .ite (fun _ => ?_) fun _ => fits none args k hargs
  cases args with
  | nil => exact ends_wrongArity
  | cons sys coordinates =>
    refine (looks_checkString sys).moves.bind fun j _ kj => fits (some sys) coordinates j fun a ha => ?_
    exact (hargs a ha).widen (Nat.le_refl i) kj

theorem geometryCall_located (hv : Locates v tokens .operand value) (fn : GeometryFn) (ik : i ≤ k) :
    EndsOperand v tokens i k (geometryCall value fn (startOf tokens i)) := by
  refine (arguments_located hv k).bind fun a args ka hargs => ?_
  have hargs : ∀ o ∈ args, (Part.operand o).Within v tokens i a := fun o ho => (hargs o ho).widen ik (Nat.le_refl a)
  refine .ite (fun _ => shape_located hargs) fun _ => (looks_checkGeometryArgs fn args _).moves.bind fun j _ aj => ?_
  exact ends_operand (fun _ => rfl) fun _ o ho => (hargs o ho).widen (Nat.le_refl i) aj

theorem stringArgument_located (hv : Locates v tokens .operand value) (name : String) (k : Nat) :
    Ends v tokens k (stringArgument value name start) fun j o => (Part.operand o).Within v tokens k j := by
  refine (arguments_located hv k).bind fun a args ka hargs => ?_
  split
  · rename_i arg
    refine (looks_checkString arg).moves.bind fun j _ aj => ends_pure ?_
    exact (hargs arg List.mem_cons_self).widen (Nat.le_refl k) aj
  · exact ends_wrongArity

theorem inUnitCall_located (hv : Locates v tokens .operand value) (ik : i ≤ k) :
    EndsOperand v tokens i k (inUnitCall value (startOf tokens i)) := by
  refine (arguments_located hv k).bind fun a args ka hargs => ?_
  split
  · rename_i arg unit
    refine (looks_checkNumeric arg).moves.bind fun b _ ab => (looks_checkString unit).moves.bind fun j _ bj => ?_
    exact ends_operand (fun _ => rfl) fun _ o ho => (hargs o ho).widen ik (Nat.le_trans ab bj)
  · exact ends_wrongArity

theorem coalesceCall_located (hv : Locates v tokens .operand value) (ik : i ≤ k) :
    EndsOperand v tokens i k (coalesceCall value (startOf tokens i)) := by
  refine (arguments_located hv k).bind fun j args kj hargs => ?_
  split
  · exact ends_wrongArity
  · exact ends_operand (fun _ => rfl) fun _ o ho => (hargs o ho).widen ik (Nat.le_refl j)

theorem call_located (hv : Locates v tokens .operand value) (k : Nat) : EndsOperand v tokens k k (call value) := by
  have string (name : String) (j : Nat) (kj : k ≤ j) {make : Operand → Option Span → Operand}
      (here : ∀ o span, (make o span).span = span) (alone : ∀ o span, (make o span).children = [o]) :
      EndsOperand v tokens k j (do
        return make (← stringArgument value name (startOf tokens k)) (← spanFrom (startOf tokens k))) := by
    refine (stringArgument_located hv name j).bind fun l o jl ho => ends_single (here o) (alone o) ?_
    exact ho.widen kj (Nat.le_refl l)
  refine .place (moves_advance.bind fun j name kj => ?_)
  split
  · exact aggregateCall_located hv _ kj
  · exact mathCall_located hv _ kj
  · exact geometryCall_located hv _ kj
  · exact string "LOWER" j kj (fun _ _ => rfl) fun _ _ => rfl
  · exact string "UPPER" j kj (fun _ _ => rfl) fun _ _ => rfl
  · exact coalesceCall_located hv kj
  · exact inUnitCall_located hv kj
  · exact castCall_located hv kj
  · refine (arguments_located hv j).bind fun l args jl hargs => ends_operand (fun _ => rfl) fun _ o ho => ?_
    exact (hargs o ho).widen kj (Nat.le_refl l)

end Calls

theorem moves_operator (first second : Kind × ArithOp) : Moves v (arithmetic.operator first second) := by
  intro tokens k s a t hs h
  obtain ⟨expected, seen⟩ := peeks_operator (v := v) first second s
  obtain ⟨rfl, rfl⟩ := Prod.mk.inj (Except.ok.inj (h.symm.trans seen))
  exact ⟨k, Nat.le_refl k, hs.expecting, trivial⟩

/-! ### Primaries -/

theorem columnRef_spans (k : Nat) : EndsOperand v tokens k k columnRef := by
  refine .place ((rereads_dotted 3).moves.bind fun j parts kj => ?_)
  cases ColumnRef.ofParts? parts with
  | none => exact ends_unexpected
  | some ref => exact ends_leaf (fun _ => rfl) fun _ => rfl

theorem moves_literals : Moves v (bounded literalsFor) := by
  intro tokens k s text t hs h
  have enough : ((wordsBefore tokens).drop k).length < s.bound := by rw [hs.shows.bound]; exact Nat.lt_succ_self _
  obtain ⟨ws, us, whole, takes, -⟩ := rereads_literalsFor false hs.shows enough h
  exact ⟨k + ws.length, Nat.le_add_right .., takes.at hs whole, trivial⟩

theorem primary_spans (hv : Locates v tokens .operand value) (k : Nat) :
    EndsOperand v tokens k k (primary (call value) value) := by
  refine .place (looks_current.bind fun next => .ite (fun _ => ?_) fun _ => .ite (fun _ => ?_) fun _ => ?_)
  · exact moves_advance.bind fun j _ kj => ends_leaf (fun _ => rfl) fun _ => rfl
  · exact moves_literals.bind fun j _ kj => ends_leaf (fun _ => rfl) fun _ => rfl
  refine .ite (fun _ => ?_) fun _ => looks_seesCall.bind fun called => .ite (fun _ => call_located hv k) fun _ => ?_
  · refine moves_advance.bind fun a _ ka => (hv a).bind fun b inner ab hinner => (moves_expect _).bind fun j _ bj => ?_
    exact ends_single (fun _ => rfl) (fun _ => rfl) (hinner.widen ka bj)
  refine looks_atIdentifier.bind fun named => .ite (fun _ => columnRef_spans k) fun _ => ?_
  exact (looks_expecting _).bind fun _ => ends_unexpected

/-! ### Values at the end of a text -/

/-- The reader of primaries with values in them nested at most `n` deep. -/
abbrev primaryFor (n : Nat) : Parse Operand := primary (call (valueFor n)) (valueFor n)

theorem rereads_primaryFor (n d : Nat) : RereadsValue false v (d + 1) (primaryFor n) (primaryFor d) :=
  rereads_primary (rereads_valueFor n d)

section Ended

variable {base item : Parse Operand} {ws : List Word} {P : Operand → Prop}

theorem arithmetic_of_item {first second : Kind × ArithOp} (h : Reads v item ws [] P)
    (inside : operatorOf first second endWord = none) : Reads v (arithmetic first second item) ws [] P :=
  .place fun start => (Grows.base h).done fun left _ => round_ended inside start left

theorem concatenation_of_additive (h : Reads v (additive base) ws [] P) : Reads v (concatenation base) ws [] P := by
  refine .place fun start => h.close fun first hfirst => .sees (.iteFalse ?_ (reads_pure hfirst))
  exact Bool.false_ne_true

theorem value_of_concatenation (h : Reads v (concatenation (primaryFor ws.length)) ws [] P) :
    Reads v Grammar.value ws [] P := by
  refine .bounded ?_
  rw [List.append_nil]
  exact h

theorem value_of_additive (h : Reads v (additive (primaryFor ws.length)) ws [] P) : Reads v Grammar.value ws [] P :=
  value_of_concatenation (concatenation_of_additive h)

theorem value_of_product (h : Reads v (arithmetic (.star, .mul) (.slash, .div) (signed (primaryFor ws.length))) ws [] P) :
    Reads v Grammar.value ws [] P := value_of_additive (arithmetic_of_item h rfl)

theorem value_of_signed (h : Reads v (signedFor (primaryFor ws.length) (ws.length + 1)) ws [] P) :
    Reads v Grammar.value ws [] P := by
  refine value_of_product (arithmetic_of_item (.bounded ?_) rfl)
  rw [List.append_nil]
  exact h

theorem value_of_primary (h : Reads v (primaryFor ws.length) ws [] P) (opens : Kind.opensPrimary (nextKind ws) = true) :
    Reads v Grammar.value ws [] P := by
  refine value_of_signed (h.unsigned ?_ _)
  rwa [List.append_nil]

end Ended

/-! ### Columns -/

theorem identifier_ok {s t : State} {name : Identifier} (h : identifier v s = .ok (name, t)) :
    isIdentifier v s.current = true := by
  unfold identifier eatIdentifier at h
  obtain ⟨found, r, hfound, h⟩ := bind_ok h
  obtain ⟨_, u, hexpecting, hfound⟩ := bind_ok hfound
  cases hexpecting
  rw [atIdentifier_bind] at hfound
  split at hfound
  · rename_i named
    exact named
  · cases hfound
    cases h

theorem kind_of_isIdentifier {t : Token} (h : isIdentifier v t = true) : t.kind = .ident ∨ t.kind = .quotedIdent := by
  obtain ⟨kind, text, start, stop⟩ := t
  cases kind <;> first | exact .inl rfl | exact .inr rfl | cases h

theorem columnRef_ok {s t : State} {o : Operand} (h : columnRef v s = .ok (o, t)) :
    isIdentifier v s.current = true ∧ ∃ parts, dotted 3 v s = .ok (parts, t) := by
  rw [columnRef, place_bind] at h
  obtain ⟨parts, r, hparts, h⟩ := bind_ok h
  obtain ⟨first, _, hfirst, -⟩ := bind_ok hparts
  have same : t = r := by
    cases found : ColumnRef.ofParts? parts <;> rw [found] at h <;> cases h
    rfl
  exact ⟨identifier_ok hfirst, parts, same ▸ hparts⟩

theorem dottedOf_other {n : Nat} {ws : List Word} (other : nextKind ws ≠ .dot) : dottedOf v n ws = ([], ws) := by
  match n, ws with
  | 0, _ | _ + 1, [] | _ + 1, [_] => rfl
  | n + 1, p :: w :: ws =>
    rw [dottedOf, if_neg]
    exact fun here => other (beq_iff_eq.1 (Bool.and_eq_true_iff.1 here).1)

/-- A name that a parenthesis follows is a column of its own. -/
theorem columnRef_call {s t : State} {ws : List Word} {o : Operand} (hs : s.Shows ws) (paren : s.second.kind = .leftParen)
    (h : columnRef v s = .ok (o, t)) : t.current.kind = .leftParen := by
  obtain ⟨name, parts, hparts⟩ := columnRef_ok h
  cases ws with
  | nil =>
    rw [isIdentifier_eq, hs.word] at name
    cases name
  | cons w us =>
    have next : nextKind us = .leftParen := hs.secondKind.symm.trans paren
    obtain ⟨r, ts, hr, -, takes⟩ := dotted_shows 3 hs (by rw [← hs.current]; exact name)
    obtain ⟨-, rfl⟩ := Prod.mk.inj (Except.ok.inj (hparts.symm.trans hr))
    rw [dottedOf_other (by rw [next]; intro same; cases same)] at takes
    exact takes.shows.kind.trans next

/-- A name that a parenthesis follows is not all of a column. -/
theorem columnRef_noCall {s t : State} {ws : List Word} {o : Operand} (hs : s.Shows ws) (ht : t.Shows [])
    (h : columnRef v s = .ok (o, t)) : s.second.kind ≠ .leftParen := by
  intro paren
  have next := columnRef_call hs paren h
  rw [ht.kind] at next
  cases next

/-- A name that no parenthesis follows starts a column. -/
theorem primary_column {call : Parse Operand} {s : State} (name : isIdentifier v s.current = true)
    (other : s.second.kind ≠ .leftParen) : primary call value v s = columnRef v s := by
  have plain : s.current.kind.isNumber = false ∧ s.current.kind ≠ .string ∧ s.current.kind ≠ .leftParen ∧
      s.current.kind.isFunction = false := by
    rcases kind_of_isIdentifier name with kind | kind <;> rw [kind] <;>
      exact ⟨rfl, (by intro same; cases same), (by intro same; cases same), rfl⟩
  have called : seesCall v s = .ok (false, s) := by
    rw [seesCall, plain.2.2.2, beq_eq_false_iff_ne.2 other, Bool.and_false, Bool.or_false]
  rw [primary, place_bind, current_bind, if_neg (by rw [plain.1]; exact Bool.false_ne_true),
    if_neg (mt beq_iff_eq.1 plain.2.1), if_neg (mt beq_iff_eq.1 plain.2.2.1), bind_eq called,
    if_neg Bool.false_ne_true, atIdentifier_bind, if_pos name]

/-- Where nothing follows, a column is no call. -/
theorem primary_of_columnRef {call : Parse Operand} {ws : List Word} {P : Operand → Prop} (h : Reads v columnRef ws [] P) :
    Reads v (primary call value) ws [] P := by
  intro s hs
  obtain ⟨o, t, ho, ht, hP⟩ := h s hs
  refine ⟨o, t, ?_, ht, hP⟩
  rw [primary_column (columnRef_ok ho).1 (columnRef_noCall hs ht ho)]
  exact ho

theorem columnRef_located : Locates v tokens .operand columnRef := by
  intro k s o t hs ho
  obtain ⟨j, kj, ht, here, inside, some, read⟩ := (columnRef_spans k).again (fun _ => rereads_columnRef) s o t hs ho
  refine ⟨j, kj, ht, operand_within here inside some (value_of_primary (primary_of_columnRef read) ?_)⟩
  rw [hs.nextKind some]
  exact opensPrimary_of_isIdentifier (columnRef_ok ho).1

/-! ### Values -/

theorem primaryFor_located (n : Nat) (hv : Locates v tokens .operand (valueFor n)) :
    Locates v tokens .operand (primaryFor n) := by
  intro k s o t hs ho
  obtain ⟨j, kj, ht, here, inside, some, read⟩ := (primary_spans hv k).again (rereads_primaryFor n) s o t hs ho
  refine ⟨j, kj, ht, operand_within here inside some (value_of_primary read ?_)⟩
  rw [hs.nextKind some]
  exact primary_opens ho

theorem signedFor_located (n : Nat) (hv : Locates v tokens .operand (valueFor n)) (m : Nat) :
    Locates v tokens .operand (signedFor (primaryFor n) m) := by
  induction m with
  | zero => exact primaryFor_located n hv
  | succ m ih =>
    intro k
    have read : Ends v tokens k (signedFor (primaryFor n) (m + 1))
        fun j o => (Part.operand o).Spans v tokens k j ∨ (Part.operand o).Within v tokens k j := by
      refine .place ((moves_eat _).bind fun a _ ka => .ite (fun _ => ?_) fun _ => (moves_eat _).bind fun b _ ab => ?_)
      · refine (ih a).bind fun b inner ab hinner => (looks_checkNumeric inner).moves.bind fun j _ bj => ?_
        refine Ends.mono ?_ fun _ _ _ => .inl
        exact ends_single (fun _ => rfl) (fun _ => rfl) (hinner.widen ka bj)
      refine .ite (fun _ => ?_) fun _ => ?_
      · refine (ih b).bind fun c inner bc hinner => (looks_checkNumeric inner).moves.bind fun j _ cj => ends_pure (.inr ?_)
        exact hinner.widen (Nat.le_trans ka ab) cj
      · exact (primaryFor_located n hv b).mono fun j o _ h => .inr (h.widen (Nat.le_trans ka ab) (Nat.le_refl j))
    have again (d : Nat) : RereadsValue false v (d + 1) (signedFor (primaryFor n) (m + 1)) (signedFor (primaryFor d) (d + 1)) := by
      have signed := rereads_signedFor (rereads_primaryFor n d) (fun _ _ _ => primary_opens (v := v)) (m + 1) (d + 1)
      rwa [Nat.min_self] at signed
    refine (read.again again).mono fun j o _ h => ?_
    obtain ⟨here | within, inside, some, read⟩ := h
    · exact operand_within here inside some (value_of_signed read)
    · exact within

theorem arithmetic_located {first second : Kind × ArithOp} (outside : ∀ w, Stops false w.1 → operatorOf first second w = none)
    {item : Parse Operand} {item' : Nat → Parse Operand} (hitem : Locates v tokens .operand item)
    (again : ∀ d, RereadsValue false v (d + 1) item (item' d))
    (close : ∀ {ws : List Word} {P : Operand → Prop}, Reads v (arithmetic first second (item' ws.length)) ws [] P →
      Reads v Grammar.value ws [] P) : Locates v tokens .operand (arithmetic first second item) := by
  intro k
  refine Ends.loop (arithmetic.round first second item) (fun d => arithmetic.round first second (item' d))
    (fun j o => (Part.operand o).Spans v tokens k j) again (fun d _ _ _ _ same => rereads_round outside (again d) same)
    (fun _ start left => round_ended (outside endWord .text) start left) (hitem k) (fun j left kj hleft => ?_)
    (fun j o here inside some read => operand_within here inside some (close (.place read)))
    fun j j' o jj' h => h.widen (Nat.le_refl k) jj'
  refine (moves_operator first second).bind fun a found ja => ?_
  cases found with
  | none => exact ends_pure (by simp)
  | some op =>
    refine moves_advance.bind fun b _ ab => (hitem b).bind fun c right bc hright => ?_
    refine (looks_checkNumeric left).moves.bind fun d _ cd => (looks_checkNumeric right).moves.bind fun l _ dl => ?_
    refine .spanFrom (ends_pure fun o made => ?_)
    obtain rfl := Option.some.inj made
    refine operand_spans rfl (List.forall_mem_cons.2 ⟨?_, List.forall_mem_singleton.2 ?_⟩)
    · exact hleft.widen (Nat.le_refl k) (by omega)
    · exact hright.widen (by omega) (by omega)

theorem concatenation_located {base : Parse Operand} {base' : Nat → Parse Operand}
    (hadditive : Locates v tokens .operand (additive base))
    (again : ∀ d, RereadsValue false v (d + 1) (concatenation base) (concatenation (base' d)))
    (close : ∀ {ws : List Word} {P : Operand → Prop}, Reads v (concatenation (base' ws.length)) ws [] P →
      Reads v Grammar.value ws [] P) : Locates v tokens .operand (concatenation base) := by
  intro k
  have part (k : Nat) : Ends v tokens k (do
      let part ← additive base
      checkString part
      return part) fun j o => (Part.operand o).Within v tokens k j := by
    refine (hadditive k).bind fun a o ka ho => (looks_checkString o).moves.bind fun j _ aj => ends_pure ?_
    exact ho.widen (Nat.le_refl k) aj
  have read : Ends v tokens k (concatenation base)
      fun j o => (Part.operand o).Spans v tokens k j ∨ (Part.operand o).Within v tokens k j := by
    refine .place ((hadditive k).bind fun a first ka hfirst => (looks_sees _).bind fun _ => .ite (fun _ => ?_) fun _ => ?_)
    · refine (looks_checkString first).moves.bind fun b _ ab => ?_
      refine (Ends.followers part (fun l r h => h.widen l r) b).bind fun j others bj hothers => ?_
      refine .spanFrom (ends_pure (.inl (operand_spans rfl (List.forall_mem_cons.2 ⟨?_, fun o ho => ?_⟩))))
      · exact hfirst.widen (Nat.le_refl k) (Nat.le_trans ab bj)
      · exact (hothers o ho).widen (Nat.le_trans ka ab) (Nat.le_refl j)
    · exact ends_pure (.inr hfirst)
  refine (read.again again).mono fun j o _ h => ?_
  obtain ⟨here | within, inside, some, read⟩ := h
  · exact operand_within here inside some (close read)
  · exact within

theorem rereads_signs (n d : Nat) : RereadsValue false v (d + 1) (signed (primaryFor n)) (signed (primaryFor d)) :=
  rereads_signed (rereads_primaryFor n d) fun _ _ _ => primary_opens

section Levels

variable {n : Nat} (hv : Locates v tokens .operand (valueFor n))

include hv

theorem signed_located : Locates v tokens .operand (signed (primaryFor n)) := fun k => .bounded fun m => signedFor_located n hv m k

theorem product_located : Locates v tokens .operand (arithmetic (.star, .mul) (.slash, .div) (signed (primaryFor n))) :=
  arithmetic_located (no_operator (by nofun) (by nofun)) (signed_located hv) (rereads_signs n) value_of_product

theorem additive_located : Locates v tokens .operand (additive (primaryFor n)) :=
  arithmetic_located (no_operator (by nofun) (by nofun)) (product_located hv)
    (fun d => rereads_arithmetic (no_operator (by nofun) (by nofun)) (rereads_signs n d)) value_of_additive

end Levels

theorem valueFor_located (n : Nat) : Locates v tokens .operand (valueFor n) := by
  induction n with
  | zero => exact fun _ => ends_unexpected
  | succ n ih =>
    exact concatenation_located (additive_located ih)
      (fun d => rereads_concatenation (rereads_primaryFor n d) fun _ _ _ => primary_opens) value_of_concatenation

theorem value_located : Locates v tokens .operand Grammar.value := fun k => .bounded fun n => valueFor_located n k

end SkyQuery.Grammar
