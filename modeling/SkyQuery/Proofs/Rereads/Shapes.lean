import SkyQuery.Proofs.Extends.Values
import SkyQuery.Proofs.Located.Texts

/-!
# Shapes without their coordinate system

In version 2.1 the coordinate system of a shape may be left out. What is left is then read as the same
shape, unless its first argument is taken for a coordinate system.
-/

namespace SkyQuery

open Grammar Parse

namespace Grammar

variable {v : Version} {fn : GeometryFn} {s t : State} {o : Operand}

/-! ### What is taken for a coordinate system -/

theorem isStringOnly_types {o : Operand} (h : isStringOnly o = true) : o.isNumeric = false ∧ o.isGeometry = false := by
  fun_induction isStringOnly o with
  | case5 inner _ ih => exact ih h
  | case6 fn =>
    obtain rfl : fn = .coordsys := eq_of_beq h
    exact ⟨rfl, rfl⟩
  | case7 => cases h
  | _ => exact ⟨rfl, rfl⟩

theorem not_isPointLike {o : Operand} (numeric : o.isNumeric = true) : isPointLike o = false := by
  refine Bool.eq_false_iff.2 fun point => ?_
  rw [isNumeric_of_isPointLike point] at numeric
  cases numeric

theorem not_isStringOnly {o : Operand} (typed : o.isNumeric = true ∨ o.isGeometry = true) : isStringOnly o = false := by
  refine Bool.eq_false_iff.2 fun string => ?_
  obtain ⟨notNumeric, notGeometry⟩ := isStringOnly_types string
  rw [notNumeric, notGeometry] at typed
  rcases typed with typed | typed <;> cases typed

/-- Of the first two of some arguments, only the second can only be a geometry. -/
def PointSecond : List Operand → Prop
  | first :: second :: _ => isPointLike first = false ∧ isPointLike second = true
  | _ => False

/-- Of the first two of some arguments, only the first can only be a geometry. -/
def PointFirst : List Operand → Prop
  | first :: second :: _ => isPointLike first = true ∧ isPointLike second = false
  | _ => False

theorem pointSecond_unplaced (args : List Operand) : PointSecond (args.map Operand.unplaced) ↔ PointSecond args := by
  obtain _ | ⟨a, _ | ⟨b, others⟩⟩ := args <;>
    simp only [List.map_nil, List.map_cons, PointSecond, Operand.isPointLike_unplaced]

theorem pointFirst_unplaced (args : List Operand) : PointFirst (args.map Operand.unplaced) ↔ PointFirst args := by
  obtain _ | ⟨a, _ | ⟨b, others⟩⟩ := args <;>
    simp only [List.map_nil, List.map_cons, PointFirst, Operand.isPointLike_unplaced]

/-- The arguments of a shape that has a coordinate system are themselves taken to start with one only
if they are those of a polygon, and which of the first two are geometries leads astray. -/
theorem startsWithCoordSys_iff {sys : Operand} {args : List Operand} (rule : ShapeRule .v21 fn (some sys) args) :
    startsWithCoordSys fn args = true ↔
      fn = .polygon ∧ (PointSecond args ∨ PointFirst args ∧ 7 ≤ args.length ∧ args.length % 2 = 1) := by
  obtain ⟨-, -, form, found, takes⟩ := rule
  obtain _ | ⟨a, _ | ⟨b, others⟩⟩ := args
  · cases fn <;> simp [shapeForm?] at found
  · cases fn <;> simp [shapeForm?] at found
  have plain : isStringOnly a = false := by
    refine not_isStringOnly ?_
    cases form with
    | numbers => exact .inl (takes a List.mem_cons_self)
    | points => exact .inr (takes a List.mem_cons_self)
    | centred => exact .inr (takes.1 a rfl)
  have second : form ≠ .points → isPointLike b = false := by
    intro numbers
    refine not_isPointLike ?_
    cases form with
    | numbers => exact takes b (by simp)
    | points => exact absurd rfl numbers
    | centred => exact takes.2 b (by simp)
  simp only [shapeForm?, List.head?_cons, Option.map_some, Option.getD_some, List.length_cons] at found
  simp only [startsWithCoordSys, plain, PointSecond, PointFirst, List.head?_cons, Option.map_some, Option.getD_some,
    List.length_cons]
  cases fn with
  | point | circle | box | polygon => grind
  | _ => cases found

theorem ShapeRule.without {sys : Operand} {args : List Operand} (rule : ShapeRule .v21 fn (some sys) args)
    (plain : startsWithCoordSys fn args = false) : ShapeRule .v21 fn none args :=
  ⟨by rw [Option.toList_none, List.nil_append, plain]; rfl, by simp, rule.2.2⟩

/-- The first argument of a polygon in the place of its coordinate system. -/
theorem ShapeRule.swallowed {sys first : Operand} {others : List Operand}
    (rule : ShapeRule .v21 .polygon (some sys) (first :: others)) (second : PointSecond (first :: others))
    (string : first.isString = true) (many : 3 ≤ others.length) : ShapeRule .v21 .polygon (some first) others := by
  have starts := (startsWithCoordSys_iff rule).2 ⟨rfl, .inl second⟩
  obtain ⟨-, -, form, found, takes⟩ := rule
  obtain _ | ⟨point, rest⟩ := others
  · exact second.elim
  obtain ⟨noPoint, isPoint⟩ := second
  have points : ShapeForm.points.Takes (first :: point :: rest) := by
    cases form with
    | points => exact takes
    | numbers =>
      rw [not_isPointLike (takes point (by simp))] at isPoint
      cases isPoint
    | centred =>
      rw [not_isPointLike (takes.2 point (by simp))] at isPoint
      cases isPoint
  refine ⟨by rw [Option.toList_some, List.singleton_append, starts]; rfl, by simpa using string, .points, ?_, ?_⟩
  · rw [List.length_cons] at many
    simp [shapeForm?, isPoint]
    omega
  · exact fun a member => points a (List.mem_cons_of_mem _ member)

/-- No polygon is read with its first argument as a system if that is no string or too few points are
left. -/
theorem shape_ok_of_pointSecond {first : Operand} {others bs : List Operand} {start : Place}
    (second : PointSecond (first :: others)) (same : Operand.SameAll bs (first :: others))
    (h : shape .polygon bs start .v21 s = .ok (o, t)) : first.isString = true ∧ 3 ≤ others.length := by
  obtain _ | ⟨b, bs⟩ := bs
  · cases same
  obtain ⟨sameFirst, sameOthers⟩ := same.of_cons
  have starts : startsWithCoordSys .polygon (first :: others) = true := by
    obtain _ | ⟨point, rest⟩ := others
    · exact second.elim
    · simp [startsWithCoordSys, second.1, second.2]
  rw [shape_withSys (by rw [same.startsWithCoordSys, starts]; rfl)] at h
  obtain ⟨u, r, string, h⟩ := bind_ok h
  refine ⟨sameFirst.isString ▸ (checkString_ok string).2, ?_⟩
  obtain _ | ⟨point, rest⟩ := others
  · exact second.elim
  have isPoint := second.2
  unfold fittedShape at h
  rw [sameOthers.length, sameOthers.pointFirst] at h
  by_contra few
  have none : shapeForm? .v21 .polygon (point :: rest).length true = none := by
    simp only [shapeForm?]
    rw [if_pos (by rfl), if_neg few]
  simp only [List.head?_cons, Option.map_some, Option.getD_some, isPoint, none] at h
  cases h

/-! ### Values that are one primary -/

variable {first second : Kind × ArithOp} {item base : Parse Operand}

theorem round_ok {start : Place} {left : Operand} {found : Option Operand}
    (h : arithmetic.round first second item start left v s = .ok (found, t)) :
    (found = none ∧ ∃ expected, t = { s with expected }) ∨ ∃ l op r span, found = some (.operation l op r span) := by
  obtain ⟨expected, seen⟩ := peeks_operator (v := v) first second s
  rw [arithmetic.round, bind_eq seen] at h
  cases operator : operatorOf first second s.current.word with
  | none =>
    rw [operator] at h
    cases h
    exact .inl ⟨rfl, expected, rfl⟩
  | some op =>
    rw [operator] at h
    obtain ⟨token, _, _, h⟩ := bind_ok h
    obtain ⟨right, _, _, h⟩ := bind_ok h
    obtain ⟨_, _, _, h⟩ := bind_ok h
    obtain ⟨_, _, _, h⟩ := bind_ok h
    obtain ⟨span, _, _, h⟩ := bind_ok h
    cases h
    exact .inr ⟨left, op, right, span, rfl⟩

/-- Rounds of arithmetic that were none leave their start; all others end in an operation. -/
theorem rounds_ok {start : Place} {n : Nat} {left : Operand}
    (h : iterateFor (arithmetic.round first second item start) n left v s = .ok (o, t)) :
    (o = left ∧ ∃ expected, t = { s with expected }) ∨ ∃ l op r span, o = .operation l op r span := by
  induction n generalizing left s with
  | zero =>
    cases h
    exact .inl ⟨rfl, _, rfl⟩
  | succ n ih =>
    obtain ⟨found, u, round, h⟩ := bind_ok h
    rcases round_ok round with ⟨rfl, same⟩ | ⟨l, op, r, span, rfl⟩
    · cases h
      exact .inl ⟨rfl, same⟩
    · rcases ih h with ⟨rfl, -⟩ | operation
      · exact .inr ⟨l, op, r, span, rfl⟩
      · exact .inr operation

theorem arithmetic_plain (h : arithmetic first second item v s = .ok (o, t))
    (plain : ∀ l op r span, o ≠ .operation l op r span) :
    ∃ u, item v s = .ok (o, u) ∧ ∃ expected, t = { u with expected } := by
  unfold arithmetic at h
  rw [place_bind] at h
  obtain ⟨left, u, hleft, h⟩ := bind_ok h
  rcases rounds_ok (n := u.bound) h with ⟨rfl, same⟩ | ⟨l, op, r, span, rfl⟩
  · exact ⟨u, hleft, same⟩
  · exact absurd rfl (plain l op r span)

/-- A value that starts with no sign starts with a primary. -/
theorem primary_before_value (opens : Kind.opensPrimary s.current.kind = true) (h : Grammar.value v s = .ok (o, t)) :
    ∃ o' u expected, primaryFor s.rest.length v { s with expected } = .ok (o', u) := by
  change concatenation (primaryFor s.rest.length) v s = .ok (o, t) at h
  unfold concatenation additive arithmetic at h
  rw [place_bind] at h
  obtain ⟨sum, r, hsum, -⟩ := bind_ok h
  rw [place_bind] at hsum
  obtain ⟨product, r, hproduct, -⟩ := bind_ok hsum
  rw [place_bind] at hproduct
  obtain ⟨o', u, hsigned, -⟩ := bind_ok hproduct
  obtain ⟨expected, unsigned⟩ := signed_unsigned (v := v) (primaryFor s.rest.length) opens
  exact ⟨o', u, expected, unsigned ▸ hsigned⟩

/-- A value that is no arithmetic, no concatenation and has no sign is a primary. -/
theorem primary_of_value (opens : Kind.opensPrimary s.current.kind = true) (tight : 3 < o.rank)
    (h : Grammar.value v s = .ok (o, t)) :
    ∃ u expected, primaryFor s.rest.length v { s with expected } = .ok (o, u) ∧ ∃ expected, t = { u with expected } := by
  have plain : ∀ l op r span, o ≠ .operation l op r span := by
    rintro l op r span rfl
    have := arithOp_rank_le op
    exact absurd tight (by simp only [Operand.rank]; omega)
  change concatenation (primaryFor s.rest.length) v s = .ok (o, t) at h
  unfold concatenation at h
  rw [place_bind] at h
  obtain ⟨sum, r, hsum, h⟩ := bind_ok h
  obtain ⟨_, r', hsees, h⟩ := bind_ok h
  cases hsees
  split at h
  · obtain ⟨_, _, _, h⟩ := bind_ok h
    obtain ⟨others, _, _, h⟩ := bind_ok h
    obtain ⟨span, _, _, h⟩ := bind_ok h
    cases h
    exact absurd tight (by simp [Operand.rank])
  · cases h
    obtain ⟨u, product, _, rfl⟩ := arithmetic_plain hsum plain
    obtain ⟨u', signed, _, rfl⟩ := arithmetic_plain product plain
    obtain ⟨expected, unsigned⟩ := signed_unsigned (v := v) (primaryFor s.rest.length) opens
    exact ⟨u', expected, unsigned ▸ signed, _, rfl⟩

/-! ### Calls of geometry functions -/

theorem primaryFor_geometry {n : Nat} (function : s.current.kind = .keyword (.geometry fn)) :
    primaryFor n v s = geometryCall (valueFor n) fn s.current.start v s.advance := by
  have called : seesCall v s = .ok (true, s) := by
    rw [seesCall, function]
    rfl
  have noNumber : ¬(Kind.keyword (.geometry fn)).isNumber = true := Bool.false_ne_true
  unfold primaryFor primary
  rw [place_bind, current_bind, function, if_neg noNumber, if_neg (by simp), if_neg (by simp), bind_eq called, if_pos rfl]
  unfold call
  rw [place_bind]
  rw [bind_eq (p := advance) (a := s.current) (t := s.advance) rfl]
  simp only [function]

variable {literal inside : List Word}

theorem literals_read (strings : ∀ w ∈ literal, w.1 = .string) {us : List Word} (ends : nextKind us ≠ .string) {n : Nat}
    (enough : literal.length ≤ n) : Reads v (literalsFor n) literal us fun _ => True := by
  induction literal generalizing n with
  | nil =>
    intro s hs
    cases n with
    | zero => exact ⟨"", s, rfl, hs, trivial⟩
    | succ n =>
      refine ⟨"", s, ?_, hs, trivial⟩
      rw [literalsFor, current_bind, if_neg (mt beq_iff_eq.1 ?_)]
      · rfl
      · rw [hs.kind]
        exact ends
  | cons w literal ih =>
    obtain ⟨string, strings⟩ := List.forall_mem_cons.1 strings
    obtain ⟨n, rfl⟩ : ∃ m, n = m + 1 := ⟨n - 1, by simp at enough; omega⟩
    refine .current fun t ht => .iteTrue ?_ (.advance fun _ _ => ?_)
    · rw [show t.kind = w.1 from congrArg Prod.fst ht, string]
      rfl
    · exact (ih strings (Nat.le_of_succ_le_succ enough)).close fun _ _ => reads_pure trivial

/-- String literals in a row are read as one literal, if no operator follows. -/
theorem literal_of_value {n : Nat} {us : List Word} (nonempty : literal ≠ []) (strings : ∀ w ∈ literal, w.1 = .string)
    (ends : Kind.goesOn (nextKind us) = false) (last : nextKind us ≠ .string) (hs : s.Shows (literal ++ us))
    (h : valueFor n v s = .ok (o, t)) : (∃ text span, o = .string text span) ∧ t.Shows us := by
  cases n with
  | zero => cases h
  | succ n =>
    have kind : s.current.kind = .string := by
      obtain ⟨w, literal, rfl⟩ := List.exists_cons_of_ne_nil nonempty
      exact hs.kind.trans (strings w List.mem_cons_self)
    obtain ⟨expected, unsigned⟩ := signed_unsigned (v := v) (s := s) (primaryFor n) (by rw [kind]; rfl)
    have shows : State.Shows { s with expected } (literal ++ us) := hs
    have enough : literal.length ≤ s.bound := by
      rw [hs.bound, List.length_append]
      omega
    obtain ⟨text, r, hread, hr, -⟩ := literals_read (v := v) strings last enough _ shows
    have primary : primaryFor n v { s with expected } = .ok (.string text (some (.between s.current.start r.reached)), r) := by
      have noNumber : ¬Kind.string.isNumber = true := Bool.false_ne_true
      unfold primaryFor primary
      rw [place_bind, current_bind, kind, if_neg noNumber, if_pos (by rfl), bind_eq (p := bounded literalsFor) hread]
      rfl
    obtain ⟨expected', whole⟩ := concatenation_alone (unsigned.trans primary) (by rw [hr.kind, ends])
    obtain ⟨rfl, rfl⟩ := Prod.mk.inj (Except.ok.inj ((show concatenation (primaryFor n) v s = _ from h).symm.trans whole))
    exact ⟨⟨_, _, rfl⟩, hr⟩

theorem opens_of_valueFor {n : Nat} {ws : List Word} (hs : s.Shows ws) (h : valueFor n v s = .ok (o, t)) :
    (nextKind ws).opensValue = true ∨ nextKind ws = .plus := by
  have again : RereadsValue false v (ws.length + 1) (valueFor n) Grammar.value :=
    .ofBounded fun m => (rereads_valueFor n m).shorter (Nat.min_le_right _ m)
  obtain ⟨ws, us, rfl, -, -, again⟩ := again s ws o t hs h
  obtain ⟨_, _, read, -⟩ := again us .refl (Nat.lt_succ_self _) s hs
  rw [← hs.kind]
  exact value_opens read

/-- Values in a list that a parenthesis closes are read again. -/
theorem list_of_values {n m fuel : Nat} {a : Operand} {args : List Operand} {r u : State}
    (hs : s.Shows (inside ++ [closeWord])) (first : valueFor n v s = .ok (a, r))
    (others : followersFor .comma (valueFor n) fuel v r = .ok (args, u)) (rounds : s.bound ≤ fuel)
    (close : u.current.kind = .rightParen) (ended : u.advance.Shows []) (enough : (inside ++ [closeWord]).length < m) :
    Reads v (commaSeparated (valueFor m)) inside [closeWord] (Operand.SameAll · (a :: args)) := by
  have rereads : RereadsValue false v m (valueFor n) (valueFor m) := rereads_valueFor n m
  obtain ⟨ws, between, same, hr, some, again⟩ := rereads s _ a r hs first
  replace same : inside ++ [closeWord] = ws ++ between := same
  have fewer : between.length < fuel := by
    have bound := hs.bound
    rw [same, List.length_append] at bound
    have := List.length_pos_of_ne_nil (some trivial)
    omega
  obtain ⟨us, left, rfl, hu, -, again'⟩ := rereads_followersFor rereads.any (by nofun) hr.shows fewer others
  obtain rfl : left = [closeWord] := by
    obtain _ | ⟨w, left⟩ := left
    · rw [hu.shows.kind] at close
      cases close
    · obtain rfl := hu.shows.advance.unique ended
      have lasts := congrArg List.getLast? same
      simp only [← List.append_assoc, List.getLast?_append, List.getLast?_singleton] at lasts
      simpa using lasts.symm
  obtain rfl : inside = ws ++ us := List.append_cancel_right
    (show inside ++ [closeWord] = ws ++ us ++ [closeWord] by rw [same, List.append_assoc])
  simp only [List.length_append] at enough
  have first : Reads v (valueFor m) ws (us ++ [closeWord]) (·.unplaced = a.unplaced) :=
    again _ .refl (by simpa [Nat.add_assoc] using enough)
  have others : Reads v (followers .comma (valueFor m)) us [closeWord] (·.map Operand.unplaced = args.map Operand.unplaced) :=
    .bounded (again' _ _ .refl (by rw [List.length_append]; omega) (Nat.lt_succ_self _))
  refine first.bind fun b hb => others.close fun bs hbs => reads_pure ?_
  rw [Operand.SameAll, List.map_cons, List.map_cons, hb, hbs]

/-- Arguments after a literal are read again without it. -/
theorem arguments_of_literal {n : Nat} {all : List Operand} (nonempty : literal ≠ []) (strings : ∀ w ∈ literal, w.1 = .string)
    (hs : s.Shows (openWord :: (literal ++ commaWord :: (inside ++ [closeWord]))))
    (h : arguments (valueFor n) v s = .ok (all, t)) (ended : t.Shows []) :
    ∃ text span args, all = .string text span :: args ∧ ∀ m, (inside ++ [closeWord]).length < m →
      Reads v (arguments (valueFor m)) (openWord :: (inside ++ [closeWord])) [] (Operand.SameAll · args) := by
  obtain ⟨-, h⟩ := expect_ok h
  have hs := hs.advance
  rcases eat_ok h with ⟨close, -⟩ | ⟨-, h⟩
  · obtain ⟨w, literal, rfl⟩ := List.exists_cons_of_ne_nil nonempty
    rw [hs.kind, List.cons_append, nextKind_cons, strings w List.mem_cons_self] at close
    cases close
  obtain ⟨given, r, hgiven, h⟩ := bind_ok h
  obtain ⟨first, r₁, hfirst, hgiven⟩ := bind_ok hgiven
  obtain ⟨⟨text, span, rfl⟩, hr₁⟩ := literal_of_value nonempty strings rfl (by simp [commaWord]) hs.expecting hfirst
  obtain ⟨others, r₂, hothers, hgiven⟩ := bind_ok hgiven
  obtain ⟨rfl, rfl⟩ := pure_ok hgiven
  obtain ⟨close, h⟩ := expect_ok h
  obtain ⟨rfl, rfl⟩ := pure_ok h
  change followersFor .comma (valueFor n) (r₁.rest.length + 1) v r₁ = _ at hothers
  rcases eat_ok hothers with ⟨-, hothers⟩ | ⟨other, -⟩
  swap
  · exact absurd hr₁.kind other
  obtain ⟨a, r₃, ha, hothers⟩ := bind_ok hothers
  obtain ⟨args, r₄, hargs, hothers⟩ := bind_ok hothers
  obtain ⟨rfl, rfl⟩ := pure_ok hothers
  have hinside : r₁.advance.Shows (inside ++ [closeWord]) := hr₁.advance
  have rounds : r₁.advance.bound ≤ r₁.rest.length := by
    have before := hr₁.bound
    have after := hinside.bound
    simp only [State.bound, List.length_cons] at before after ⊢
    omega
  refine ⟨text, span, a :: args, rfl, fun m enough => ?_⟩
  have list := list_of_values hinside ha hargs rounds close ended enough
  refine .expect fun _ _ => .eatElse ?_ (list.bind fun bs hbs => .expect fun _ _ => reads_pure hbs)
  rw [List.append_nil]
  intro closed
  have opens := opens_of_valueFor hinside ha
  rw [closed] at opens
  rcases opens with opens | opens <;> cases opens

/-! ### Shapes -/

theorem fittedShape_ok {sys : Option Operand} {args : List Operand} {given : Nat} {start : Place}
    (h : fittedShape v fn sys args given start v s = .ok (o, t)) :
    (∃ expected, t = { s with expected }) ∧ ∃ span, o = .geometry fn sys args span := by
  unfold fittedShape at h
  cases fits : shapeForm? v fn args.length ((args.head?.map isPointLike).getD false) with
  | none =>
    rw [fits] at h
    cases h
  | some form =>
    rw [fits] at h
    obtain ⟨_, r, check, h⟩ := bind_ok h
    have still := looks_checkShape form args s _ r check
    obtain ⟨span, r', hspan, h⟩ := bind_ok h
    cases hspan
    cases h
    exact ⟨still, _, rfl⟩

/-- A shape takes all its arguments, and reads nothing more. -/
theorem shape_ok {args : List Operand} {start : Place} (h : shape fn args start v s = .ok (o, t)) :
    (∃ expected, t = { s with expected }) ∧
      ∃ sys others span, o = .geometry fn sys others span ∧ args = sys.toList ++ others := by
  by_cases withSys : (v == .v20 || startsWithCoordSys fn args) = true
  · obtain _ | ⟨sys, others⟩ := args
    · change (if (v == .v20 || startsWithCoordSys fn []) = true then _ else _ : Parse Operand) v s = _ at h
      rw [if_pos withSys] at h
      cases h
    rw [shape_withSys withSys] at h
    obtain ⟨u, r, string, fitted⟩ := bind_ok h
    obtain ⟨rfl, -⟩ := checkString_ok string
    obtain ⟨still, span, rfl⟩ := fittedShape_ok fitted
    exact ⟨still, some sys, others, span, rfl, rfl⟩
  · change (if (v == .v20 || startsWithCoordSys fn args) = true then _ else fittedShape v fn none args args.length start :
      Parse Operand) v s = _ at h
    rw [if_neg withSys] at h
    obtain ⟨still, span, rfl⟩ := fittedShape_ok h
    exact ⟨still, none, args, span, rfl, rfl⟩

/-! ### Clauses of one value -/

/-- The clause that selects one value without a name. -/
def lone (o : Operand) : SelectClause := { distinct := false, top := none, items := [.expr o none], span := none }

theorem optionalAlias_ok (h : optionalAlias v s = .ok (none, t)) : ∃ expected, t = { s with expected } := by
  rcases eat_ok h with ⟨-, h⟩ | ⟨-, h⟩
  · obtain ⟨_, _, -, h⟩ := bind_ok h
    cases h
  · obtain ⟨_, r, hexpecting, h⟩ := bind_ok h
    cases hexpecting
    rw [atIdentifier_bind] at h
    split at h
    · cases h
    · cases h
      exact ⟨_, rfl⟩

theorem selectItem_ok {item : SelectItem} {ws : List Word} (hs : s.Shows ws) (opens : nextKind ws = .keyword (.geometry fn))
    (h : selectItem v s = .ok (item, t)) :
    ∃ s' o r label, s'.Shows ws ∧ Grammar.value v s' = .ok (o, r) ∧ item = .expr o label ∧
      (label = none → ∃ expected, t = { r with expected }) := by
  have kind : s.current.kind = .keyword (.geometry fn) := hs.kind.trans opens
  change (eat .star >>= _) v s = _ at h
  rcases eat_ok h with ⟨star, -⟩ | ⟨-, h⟩
  · rw [kind] at star
    cases star
  have noStar : eatTableStar v { s with expected := Kind.star.describe :: s.expected } =
      .ok (none, { s with expected := Kind.star.describe :: s.expected }) := by
    unfold eatTableStar
    rw [isIdentifier_kind (by rw [kind]; exact Kind.noConfusion) (by rw [kind]; exact Kind.noConfusion)]
    rfl
  rw [if_neg Bool.false_ne_true, bind_eq noStar] at h
  obtain ⟨o, r, hvalue, h⟩ := bind_ok h
  obtain ⟨label, r', hlabel, h⟩ := bind_ok h
  cases h
  refine ⟨_, o, r, label, hs.expecting, hvalue, rfl, ?_⟩
  rintro rfl
  exact optionalAlias_ok hlabel

/-- What is read after `SELECT`, if a call of a geometry function is next. -/
theorem items_of_selectClause {ws : List Word} {c : SelectClause} (opens : nextKind ws = .keyword (.geometry fn))
    (hs : s.Shows (keywordWord .selectKw :: ws)) (h : selectClause v s = .ok (c, t)) :
    ∃ s', s'.Shows ws ∧ commaSeparated selectItem v s' = .ok (c.items, t) := by
  unfold selectClause at h
  rw [place_bind] at h
  obtain ⟨-, h⟩ := expect_ok h
  have other {k : Kind} (other : k ≠ .keyword (.geometry fn)) : nextKind ws ≠ k := by
    rw [opens]
    exact other.symm
  have all : Reads v distinctness [] ws (· = false) := quantifier_reads false (other (by simp)) (other (by simp))
  have unbounded : Reads v topClause (topWords none) ws (· = none) :=
    topClause_reads (by intro _ bound; cases bound) (other (by simp))
  obtain ⟨_, s₁, hdistinct, hs₁, -⟩ := all _ hs.advance
  rw [bind_eq hdistinct] at h
  obtain ⟨_, s₂, htop, hs₂, -⟩ := unbounded _ hs₁
  rw [bind_eq htop] at h
  obtain ⟨items, s₃, hitems, h⟩ := bind_ok h
  cases h
  exact ⟨s₂, hs₂, hitems⟩

/-- What is read first after `SELECT`, if a call of a geometry function is next. -/
theorem item_of_readSelect {call : String} {ws : List Word} {c : SelectClause} (cut : scan v call.toList = some ws)
    (opens : nextKind ws = .keyword (.geometry fn)) (closes : ws.getLast? = some closeWord)
    (h : readSelect v ("SELECT " ++ call) = .ok c) :
    ∃ s o t label others, s.Shows ws ∧ Grammar.value v s = .ok (o, t) ∧ c.items = .expr o label :: others ∧
      (label = none → others = [] → t.Shows []) := by
  have select : Opens v "SELECT " [keywordWord .selectKw] := (opens_keyword (k := .selectKw) rfl).as rfl
  have cutAll : scan v ("SELECT " ++ call).toList = some (keywordWord .selectKw :: ws) := by
    rw [String.toList_append, select, cut]
    rfl
  obtain ⟨tokens, htokens, words⟩ := tokensFor_of_scan cutAll
  obtain ⟨tokens', t, htokens', hread⟩ := readWhole_ok_iff.1 h
  obtain rfl : tokens = tokens' := Except.ok.inj (htokens.symm.trans htokens')
  obtain ⟨r, hclause, ended⟩ := whole_ok hread
  obtain ⟨s, hs, hitems⟩ := items_of_selectClause opens (State.ofTokens_shows words) hclause
  obtain ⟨item, s₁, hitem, hitems⟩ := bind_ok hitems
  obtain ⟨others, s₂, hothers, hitems⟩ := bind_ok hitems
  obtain ⟨items, rfl⟩ := pure_ok hitems
  obtain ⟨s', o, u, label, hs', hvalue, rfl, still⟩ := selectItem_ok hs opens hitem
  have rereads : RereadsValue false v 0 Grammar.value Grammar.value := rereads_value
  obtain ⟨us, left, rfl, hu, -⟩ := rereads s' ws o u hs' hvalue
  refine ⟨s', o, u, label, others, hs', hvalue, items.symm, ?_⟩
  rintro rfl rfl
  obtain ⟨expected, rfl⟩ := still rfl
  rcases eat_ok hothers with ⟨-, hothers⟩ | ⟨-, hothers⟩
  · obtain ⟨_, _, -, hothers⟩ := bind_ok hothers
    obtain ⟨_, _, -, hothers⟩ := bind_ok hothers
    cases hothers
  cases hothers
  have hleft : u.Shows left := hu.shows
  obtain rfl := nil_of_closed cut (by rw [closes]; rintro w ⟨⟩; nofun) hleft ended
  exact hleft

/-- What is read as the arguments of a call that is all that follows `SELECT`. -/
theorem call_of_value {w : Word} {ws : List Word} {sys : Option Operand} {args : List Operand} {span : Option Span}
    (function : w.1 = .keyword (.geometry fn)) (isShape : fn.isShape = true) (hs : s.Shows (w :: ws))
    (h : Grammar.value v s = .ok (.geometry fn sys args span, t)) :
    ∃ s' n r, s'.Shows ws ∧ arguments (valueFor n) v s' = .ok (sys.toList ++ args, r) ∧ (t.Shows [] → r.Shows []) := by
  have kind : s.current.kind = .keyword (.geometry fn) := hs.kind.trans function
  obtain ⟨u, expected, primary, expected', rfl⟩ := primary_of_value (by rw [kind]; rfl) (by simp [Operand.rank]) h
  obtain ⟨all, r, hargs, hshape⟩ := bind_ok ((primaryFor_geometry (s := { s with expected }) kind).symm.trans primary)
  rw [if_pos isShape] at hshape
  obtain ⟨⟨_, rfl⟩, sys', args', span', same, rfl⟩ := shape_ok hshape
  cases same
  exact ⟨_, _, _, hs.expecting.advance, hargs, id⟩

/-- Arguments that are those of a shape are read as one after `SELECT`. -/
theorem shape_alone {w : Word} {ws : List Word} {sys : Option Operand} {args : List Operand} {call : String}
    (function : w.1 = .keyword (.geometry fn)) (isShape : fn.isShape = true) (cut : scan v call.toList = some (w :: ws))
    (rule : ShapeRule v fn sys args)
    (read : ∀ n, ws.length < n → Reads v (arguments (valueFor n)) ws [] (Operand.SameAll · (sys.toList ++ args))) :
    ∃ c, readSelect v ("SELECT " ++ call) = .ok c ∧
      c.unplaced = lone (.geometry fn (sys.map Operand.unplaced) (args.map Operand.unplaced) none) := by
  have select : Opens v "SELECT " [keywordWord .selectKw] := (opens_keyword (k := .selectKw) rfl).as rfl
  have cutAll : scan v ("SELECT " ++ call).toList = some (keywordWord .selectKw :: w :: ws) := by
    rw [String.toList_append, select, cut]
    rfl
  have primary : Reads v (primaryFor (w :: ws).length) (w :: ws) [] (·.Same (.geometry fn sys args none)) := by
    intro s hs
    rw [primaryFor_geometry (hs.kind.trans function)]
    have hs : s.advance.Shows (ws ++ []) := State.Shows.advance hs
    refine (read _ (Nat.lt_succ_self _)).close (fun bs hbs => ?_) s.advance hs
    exact .iteTrue isShape (shape_reads rule hbs none _)
  have value := value_of_primary primary (by rw [nextKind_cons, function]; rfl)
  obtain ⟨c, hc, o, span, same, rfl⟩ := readWhole_of_scan cutAll (selectClause_of_value value)
  refine ⟨_, hc, ?_⟩
  simp only [SelectClause.unplaced, List.map_cons, List.map_nil, SelectItem.unplaced, show o.unplaced = _ from same]
  cases sys <;> simp [lone, Operand.unplaced, Operand.allUnplaced_eq_map]

/-- The text of a call whose first argument is a string literal, and the text of the call without it. -/
structure LiteralCall (fn : GeometryFn) (call bare : String) where
  function : Word
  literal : List Word
  inside : List Word
  named : function.1 = .keyword (.geometry fn)
  nonempty : literal ≠ []
  strings : ∀ w ∈ literal, w.1 = .string
  withLiteral : scan .v21 call.toList = some (function :: openWord :: (literal ++ commaWord :: (inside ++ [closeWord])))
  without : scan .v21 bare.toList = some (function :: openWord :: (inside ++ [closeWord]))

variable {call bare : String} {c d : SelectClause} {sys : Operand} {args : List Operand} {span : Option Span}

/-- What follows the literal are the arguments of the call without it. -/
theorem LiteralCall.arguments_read (p : LiteralCall fn call bare) (isShape : fn.isShape = true)
    (h : readSelect .v21 ("SELECT " ++ call) = .ok c) (alone : c.items = [.expr (.geometry fn (some sys) args span) none])
    {n : Nat} (enough : (openWord :: (p.inside ++ [closeWord])).length < n) :
    Reads .v21 (arguments (valueFor n)) (openWord :: (p.inside ++ [closeWord])) [] (Operand.SameAll · args) := by
  have closes : (p.function :: openWord :: (p.literal ++ commaWord :: (p.inside ++ [closeWord]))).getLast? =
      some closeWord := by
    simp [List.getLast?_cons]
  obtain ⟨s, o, t, label, others, hs, hvalue, items, ended⟩ := item_of_readSelect p.withLiteral p.named closes h
  rw [alone] at items
  cases items
  obtain ⟨s', m, r, hs', hargs, done⟩ := call_of_value p.named isShape hs hvalue
  obtain ⟨_, _, given, same, again⟩ := arguments_of_literal p.nonempty p.strings hs' hargs (done (ended rfl rfl))
  cases same
  exact again n (Nat.lt_of_succ_lt enough)

/-- No polygon is read without the literal if its first argument is then taken for the system and is no
string, or too few points are left. -/
theorem LiteralCall.system_of_read (p : LiteralCall .polygon call bare) {first : Operand} {others : List Operand}
    (read : ∀ n, (openWord :: (p.inside ++ [closeWord])).length < n →
      Reads .v21 (arguments (valueFor n)) (openWord :: (p.inside ++ [closeWord])) [] (Operand.SameAll · (first :: others)))
    (second : PointSecond (first :: others)) (h : readSelect .v21 ("SELECT " ++ bare) = .ok d) :
    first.isString = true ∧ 3 ≤ others.length := by
  have closes : (p.function :: openWord :: (p.inside ++ [closeWord])).getLast? = some closeWord := by
    rw [← List.cons_append, ← List.cons_append, List.getLast?_concat]
  obtain ⟨s, o, t, _, _, hs, hvalue, -⟩ := item_of_readSelect p.without p.named closes h
  have kind : s.current.kind = .keyword (.geometry .polygon) := hs.kind.trans p.named
  obtain ⟨o', u, expected, primary⟩ := primary_before_value (by rw [kind]; rfl) hvalue
  obtain ⟨all, r, hargs, hshape⟩ := bind_ok ((primaryFor_geometry (s := { s with expected }) kind).symm.trans primary)
  have room : (openWord :: (p.inside ++ [closeWord])).length < s.rest.length := by
    have bound := hs.bound
    simp only [State.bound, List.length_cons] at bound ⊢
    omega
  have shows : State.Shows { s with expected } (p.function :: openWord :: (p.inside ++ [closeWord]) ++ []) := by
    rw [List.append_nil]
    exact hs
  obtain ⟨bs, r', hbs, -, same⟩ := read _ room _ (State.Shows.advance shows)
  obtain ⟨rfl, rfl⟩ := Prod.mk.inj (Except.ok.inj (hargs.symm.trans hbs))
  exact shape_ok_of_pointSecond second same hshape

theorem item_of_lone {o : Operand} (h : c.unplaced = lone o) :
    ∃ o', c.items = [.expr o' none] ∧ o'.unplaced = o := by
  have items : c.items.map SelectItem.unplaced = [.expr o none] := congrArg SelectClause.items h
  obtain ⟨item, hitem, same⟩ := List.map_eq_singleton_iff.1 items
  cases item with
  | expr o' label =>
    cases same
    exact ⟨o', hitem, rfl⟩
  | _ => cases same

theorem geometry_of_unplaced {o : Operand} (h : o.unplaced = .geometry fn (some sys) args none) :
    ∃ sys' args' span, o = .geometry fn (some sys') args' span ∧ args'.map Operand.unplaced = args := by
  cases o with
  | geometry fn' sys' args' span =>
    cases sys' with
    | none => cases h
    | some sys' =>
      simp only [Operand.unplaced, Operand.allUnplaced_eq_map] at h
      cases h
      exact ⟨sys', args', span, rfl, rfl⟩
  | aggregate _ _ arg => cases arg <;> cases h
  | _ => cases h

theorem lone_read {o : Operand} (formed : o.WellFormed v) (cut : scan v call.toList = some o.words) :
    ∃ c, readSelect v ("SELECT " ++ call) = .ok c ∧ c.unplaced = lone o.unplaced := by
  have select : Opens v "SELECT " [keywordWord .selectKw] := (opens_keyword (k := .selectKw) rfl).as rfl
  have cutAll : scan v ("SELECT " ++ call).toList = some (keywordWord .selectKw :: o.words) := by
    rw [String.toList_append, select, cut]
    rfl
  obtain ⟨c, hc, a, span, same, rfl⟩ := readWhole_of_scan cutAll (selectClause_of_value (value_reads formed (Nat.zero_le _)))
  exact ⟨_, hc, by simp only [SelectClause.unplaced, List.map_cons, List.map_nil, SelectItem.unplaced, lone,
    show a.unplaced = _ from same]⟩

theorem shape_wellFormed {sys : Option Operand} (available : (Keyword.geometry fn).availableIn v = true)
    (isShape : fn.isShape = true) (rule : ShapeRule v fn sys args) (parts : ∀ a ∈ sys.toList ++ args, a.WellFormed v) :
    (Operand.geometry fn sys args none).WellFormed v := .intro ⟨available, by rwa [if_pos isShape]⟩ parts

theorem string_wellFormed (value : String) : (Operand.string value none).WellFormed v :=
  .intro trivial (by simp [Operand.children])

def numeral (n : Nat) : Operand := .numeric (toString n) none

theorem numeral_wellFormed (n : Nat) : (numeral n).WellFormed v :=
  .intro ⟨.integer, rfl, isNumber_toString n⟩ (by simp [numeral, Operand.children])

/-- A point of two whole numbers. -/
def pointOf (x y : Nat) : Operand := .geometry .point none [numeral x, numeral y] none

theorem pointOf_wellFormed (x y : Nat) : (pointOf x y).WellFormed .v21 := by
  refine shape_wellFormed rfl rfl ⟨rfl, by simp, .numbers, rfl, ?_⟩ ?_
  · simp [ShapeForm.Takes, numeral, Operand.isNumeric]
  · simp [numeral_wellFormed]

/-- The column `c`, without a table. -/
def columnC : Operand := .column { table := none, column := { name := "c", delimited := false } } none

theorem columnC_wellFormed : columnC.WellFormed .v21 :=
  .intro ⟨.inr (by decide +kernel), by simp⟩ (by simp [columnC, Operand.children])

theorem circle_wellFormed :
    (Operand.geometry .circle (some (.string "ICRS" none)) [columnC, numeral 1] none).WellFormed .v21 := by
  refine shape_wellFormed rfl rfl ⟨rfl, by simp [Operand.isString], .centred, rfl, ?_⟩ ?_
  · simp [ShapeForm.Takes, columnC, numeral, Operand.isNumeric, Operand.isGeometry]
  · simp [string_wellFormed, columnC_wellFormed, numeral_wellFormed]

/-- In version 2.1 a call with a literal as coordinate system is read without it, as a call with the same
arguments and no coordinate system, unless it is a polygon whose first two arguments are told apart by
which of them is a point. Where only the second is one, the first is the coordinate system then, if it is a
string and enough points are left, and nothing is read otherwise. -/
theorem LiteralCall.read_without (p : LiteralCall fn call bare) (h : readSelect .v21 ("SELECT " ++ call) = .ok c)
    (alone : c.unplaced = lone (.geometry fn (some sys) args none)) :
    (¬(fn = .polygon ∧ (PointSecond args ∨ PointFirst args ∧ 7 ≤ args.length ∧ args.length % 2 = 1)) →
      ∃ d, readSelect .v21 ("SELECT " ++ bare) = .ok d ∧ d.unplaced = lone (.geometry fn none args none)) ∧
    ∀ first others, fn = .polygon → args = first :: others → PointSecond args →
      if first.isString = true ∧ 3 ≤ others.length then
        ∃ d, readSelect .v21 ("SELECT " ++ bare) = .ok d ∧ d.unplaced = lone (.geometry .polygon (some first) others none)
      else ∀ d, readSelect .v21 ("SELECT " ++ bare) ≠ .ok d := by
  obtain ⟨o, items, same⟩ := item_of_lone alone
  obtain ⟨sys', args', span, rfl, rfl⟩ := geometry_of_unplaced same
  have formed := (readWhole_ok selectClause_yields h).2.2
  rw [items] at formed
  obtain ⟨⟨⟨-, rule⟩, -⟩, -⟩ := formed _ List.mem_cons_self
  have isShape : fn.isShape = true := by
    by_contra other
    rw [if_neg other] at rule
    cases rule.1
  replace rule : ShapeRule .v21 fn (some sys') args' := by rwa [if_pos isShape] at rule
  have read {n : Nat} := p.arguments_read isShape h items (n := n)
  refine ⟨fun plain => ?_, ?_⟩
  · rw [pointSecond_unplaced, pointFirst_unplaced, List.length_map] at plain
    have noSys : startsWithCoordSys fn args' = false :=
      Bool.eq_false_iff.2 fun starts => plain ((startsWithCoordSys_iff rule).1 starts)
    exact shape_alone p.named isShape p.without (ShapeRule.without rule noSys) fun _ => read
  · rintro first others rfl parts second
    rw [pointSecond_unplaced] at second
    obtain ⟨first, others, rfl, rfl, rfl⟩ := List.map_eq_cons_iff.1 parts
    rw [Operand.isString_unplaced, List.length_map]
    split
    · rename_i fits
      exact shape_alone p.named isShape p.without (ShapeRule.swallowed rule second fits.1 fits.2) fun _ => read
    · rename_i misfit
      exact fun d found => misfit (p.system_of_read (fun _ => read) second found)

/-- A circle around a column is read without its system. -/
theorem LiteralCall.read_without_circle :
    let call := "CIRCLE('ICRS', c, 1)"
    let bare := "CIRCLE(c, 1)"
    ∃ (_ : LiteralCall .circle call bare) (c : SelectClause), readSelect .v21 ("SELECT " ++ call) = .ok c ∧
      c.unplaced = lone (.geometry .circle (some (.string "ICRS" none)) [columnC, numeral 1] none) ∧
      ∃ d, readSelect .v21 ("SELECT " ++ bare) = .ok d ∧
        d.unplaced = lone (.geometry .circle none [columnC, numeral 1] none) := by
  intro call bare
  have p : LiteralCall .circle call bare :=
    { function := keywordWord (.geometry .circle), literal := [(.string, "'ICRS'")]
      inside := [(.ident, "c"), commaWord, numberWord 1], named := rfl, nonempty := by simp, strings := by simp
      withLiteral := by decide +kernel, without := by decide +kernel }
  obtain ⟨c, read, same⟩ := lone_read circle_wellFormed (show scan _ call.toList = _ by decide +kernel)
  exact ⟨p, c, read, same, (p.read_without read same).1 (by simp)⟩

/-- The first column of a polygon is taken for the system that was left out. -/
theorem LiteralCall.read_without_swallows :
    let call := "POLYGON('', c, POINT(1, 2), POINT(3, 4), POINT(5, 6))"
    let bare := "POLYGON(c, POINT(1, 2), POINT(3, 4), POINT(5, 6))"
    let points := [pointOf 1 2, pointOf 3 4, pointOf 5 6]
    ∃ c d, readSelect .v21 ("SELECT " ++ call) = .ok c ∧ readSelect .v21 ("SELECT " ++ bare) = .ok d ∧
      c.unplaced = lone (.geometry .polygon (some (.string "" none)) (columnC :: points) none) ∧
      d.unplaced = lone (.geometry .polygon (some columnC) points none) := by
  intro call bare points
  have withLiteral : (Operand.geometry .polygon (some (.string "" none)) (columnC :: points) none).WellFormed .v21 := by
    refine shape_wellFormed rfl rfl ⟨rfl, by simp [Operand.isString], .points, rfl, ?_⟩ ?_
    · simp [ShapeForm.Takes, points, columnC, pointOf, Operand.isGeometry, GeometryFn.isGeometry, GeometryFn.isShape]
    · simp [points, string_wellFormed, columnC_wellFormed, pointOf_wellFormed]
  have without : (Operand.geometry .polygon (some columnC) points none).WellFormed .v21 := by
    refine shape_wellFormed rfl rfl ⟨rfl, by simp [columnC, Operand.isString], .points, rfl, ?_⟩ ?_
    · simp [ShapeForm.Takes, points, pointOf, Operand.isGeometry, GeometryFn.isGeometry, GeometryFn.isShape]
    · simp [points, columnC_wellFormed, pointOf_wellFormed]
  obtain ⟨c, hc, sameC⟩ := lone_read withLiteral (show scan _ call.toList = _ by decide +kernel)
  obtain ⟨d, hd, sameD⟩ := lone_read without (show scan _ bare.toList = _ by decide +kernel)
  exact ⟨c, d, hc, hd, sameC, sameD⟩

end Grammar

end SkyQuery
