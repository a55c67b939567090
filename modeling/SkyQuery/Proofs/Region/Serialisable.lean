import SkyQuery.Proofs.Region.RoundTrip
import SkyQuery.Proofs.Sql.Expressible
import SkyQuery.Proofs.Tree.Roots
import SkyQuery.Region.OfOperand

/-!
# Which regions of a tree can be written

A region is read back from its STC-S form exactly if its numbers are finite (`parse_renderStcs_iff`), as
all numbers are that are read from such a form. A literal of a query may exceed the doubles and is infinite
then, so a region that an operand describes is read back exactly if none of its literals does
(`ofOperand_read_iff`).
-/

namespace SkyQuery

open Grammar

/-! ### Finite doubles -/

section Doubles

open Float.Model.UnpackedFloat

/-- A double is finite unless all bits of its exponent are set. -/
theorem isFinite_unpack {spec : Float.Model.Format} (b : BitVec spec.numBits) :
    (unpack spec b).isFinite = true ↔ unpackExponent b ≠ -1#_ := by
  unfold unpack
  dsimp only
  split
  · rename_i ones
    split <;> simp [isFinite, ones]
  · rename_i finite
    split
    · split <;> simp [isFinite, finite]
    · simp [isFinite, finite]

theorem exponent_pack_neg {spec : Float.Model.Format} (x : Float.Model.UnpackedFloat) :
    unpackExponent (x.neg.pack spec) = unpackExponent (x.pack spec) := by
  cases x with
  | notANumber => rfl
  | infinity s => simp [neg, pack, packedInfinity]
  | zero s => simp [neg, pack, packedZero]
  | finite s m e positive =>
    simp only [neg, pack]
    split
    · simp [packedInfinity]
    · split <;> simp

theorem isFinite_neg (x : Float) : x.neg.isFinite = true ↔ x.isFinite = true := by
  let bits : BitVec Float.Model.Format.binary64.numBits := x.toBits.toBitVec
  have own : unpackExponent ((unpack .binary64 bits).pack .binary64) = unpackExponent bits :=
    congrArg unpackExponent (pack_unpack_of_valid x.toModel.valid)
  change (unpack .binary64 ((unpack .binary64 bits).neg.pack .binary64)).isFinite = true ↔
    (unpack .binary64 bits).isFinite = true
  rw [isFinite_unpack, isFinite_unpack, exponent_pack_neg, own]

end Doubles

namespace Decimal

/-- What is read as a double is finite if it is a decimal text in their range. -/
theorem isFinite_of_readReal {text : String} {x : Float} (h : readReal text = some x) :
    x.isFinite = true ↔ (readFinite text).isSome = true := by
  unfold readReal at h
  cases read : readDecimal text with
  | some y =>
    rw [read] at h
    cases h
    cases finite : x.isFinite <;> simp [readFinite, read, Option.filter, finite]
  | none =>
    have infinite (negative : Bool) : (ofParts negative infinityBits).isFinite = false := by
      cases negative <;> decide
    have noNumber : notANumber.isFinite = false := by decide
    rw [read] at h
    dsimp only at h
    split at h
    · cases h
      simp [readFinite, read, infinite]
    · split at h
      · cases h
        simp [readFinite, read, noNumber]
      · cases h

end Decimal

/-! ### Regions that are read -/

namespace Region

theorem isFinite_iff {r : Region} :
    r.IsFinite ↔ (∀ x ∈ r.numbers, x.isFinite = true) ∧ ∀ m ∈ r.members, m.IsFinite := by
  unfold IsFinite
  rw [walk_eq, List.forall_mem_append, List.forall_mem_singleton, List.forall_mem_flatMap]

theorem finite_points (ps : List Pair) :
    ∀ x ∈ (ps.map Pair.point).flatMap (fun p => [p.x, p.y]), x.isFinite = true := by
  intro x member
  obtain ⟨_, hp, hx⟩ := List.mem_flatMap.1 member
  obtain ⟨p, -, rfl⟩ := List.mem_map.1 hp
  rcases List.mem_pair.1 hx with rfl | rfl
  · exact p.x.finite
  · exact p.y.finite

mutual

theorem Phrase.isFinite (p : Phrase) : p.region.IsFinite := by
  cases p with
  | position kind sys point =>
    refine isFinite_iff.2 ⟨?_, List.forall_mem_nil _⟩
    simpa [Phrase.region, numbers, points] using finite_points [point]
  | circle kind sys centre radius =>
    refine isFinite_iff.2 ⟨List.forall_mem_append.2 ⟨finite_points [centre], ?_⟩, List.forall_mem_nil _⟩
    exact List.forall_mem_singleton.2 radius.finite
  | box kind sys centre width height =>
    refine isFinite_iff.2 ⟨List.forall_mem_append.2 ⟨finite_points [centre], ?_⟩, List.forall_mem_nil _⟩
    exact List.forall_mem_cons.2 ⟨width.finite, List.forall_mem_singleton.2 height.finite⟩
  | polygon kind sys first second third others =>
    refine isFinite_iff.2 ⟨?_, List.forall_mem_nil _⟩
    simpa [Phrase.region, numbers, points] using finite_points (first :: second :: third :: others)
  | combination op kind sys first second others =>
    refine isFinite_iff.2 ⟨List.forall_mem_nil _, ?_⟩
    exact List.forall_mem_cons.2 ⟨first.isFinite, List.forall_mem_cons.2 ⟨second.isFinite, Phrase.allFinite others⟩⟩
  | not kind inner => exact isFinite_iff.2 ⟨List.forall_mem_nil _, List.forall_mem_singleton.2 inner.isFinite⟩

theorem Phrase.allFinite (ps : List Phrase) : ∀ r ∈ Phrase.allRegions ps, r.IsFinite := by
  cases ps with
  | nil => exact List.forall_mem_nil _
  | cons p rest => exact List.forall_mem_cons.2 ⟨p.isFinite, Phrase.allFinite rest⟩

end

theorem DaliPhrase.isFinite (d : DaliPhrase) : d.region.IsFinite := by
  cases d with
  | position point =>
    refine isFinite_iff.2 ⟨?_, List.forall_mem_nil _⟩
    simpa [DaliPhrase.region, numbers, points] using finite_points [point]
  | circle centre radius =>
    refine isFinite_iff.2 ⟨List.forall_mem_append.2 ⟨finite_points [centre], ?_⟩, List.forall_mem_nil _⟩
    exact List.forall_mem_singleton.2 radius.finite
  | polygon first second third others =>
    refine isFinite_iff.2 ⟨?_, List.forall_mem_nil _⟩
    simpa [DaliPhrase.region, numbers, points] using finite_points (first :: second :: third :: others)

/-- No number of a region that is read exceeds the doubles. -/
theorem isFinite_of_parse {text : String} {r : Region} (h : parse text = .ok r) : r.IsFinite := by
  obtain ⟨d, -, rfl⟩ := parse_ok_iff.1 h
  cases d with
  | stcs p => exact p.isFinite
  | dali d => exact d.isFinite

theorem parse_renderStcs_iff {r : Region} : parse r.renderStcs = .ok r ↔ r.IsFinite :=
  ⟨isFinite_of_parse, parse_renderStcs⟩

end Region

/-! ### Literals -/

/-- Whether an expression is no number that exceeds the doubles. -/
def Operand.fits : Operand → Bool
  | .numeric text _ => (Decimal.readFinite text).isSome
  | _ => true

/-- No number that is written in an expression exceeds the doubles. -/
def Operand.InRange (o : Operand) : Prop := ∀ part ∈ o.nodes, part.fits = true

instance (o : Operand) : Decidable o.InRange := inferInstanceAs (Decidable (∀ part ∈ o.nodes, part.fits = true))

theorem Operand.inRange_iff {o : Operand} (plain : o.fits = true) : o.InRange ↔ ∀ c ∈ o.children, c.InRange := by
  unfold InRange
  rw [nodes_eq, List.forall_mem_cons, List.forall_mem_flatMap]
  exact and_iff_right plain

theorem Operand.isFinite_asNumber? {o : Operand} {x : Float} (h : o.asNumber? = some x) :
    x.isFinite = true ↔ o.InRange := by
  fun_induction asNumber? generalizing x with
  | case1 text span =>
    have alone : (numeric text span).InRange ↔ (Decimal.readFinite text).isSome = true := List.forall_mem_singleton
    rw [Decimal.isFinite_of_readReal h, alone]
  | case2 inner span ih =>
    obtain ⟨y, hy, rfl⟩ := Option.map_eq_some_iff.1 h
    rw [isFinite_neg, ih hy, inRange_iff (o := .negative inner span) rfl]
    exact List.forall_mem_singleton.symm
  | case3 => cases h

def Point.IsFinite (p : Point) : Prop := p.x.isFinite = true ∧ p.y.isFinite = true

namespace Region

/-! ### Numbers of arguments -/

variable {args : List Operand} {sys : Option Operand}

theorem numberOf_finite {o : Operand} {x : Float} (h : numberOf o = .ok x) : x.isFinite = true ↔ o.InRange := by
  unfold numberOf at h
  split at h
  · rename_i found
    cases h
    exact Operand.isFinite_asNumber? found
  · cases h

theorem oneNumber_finite {x : Float} (h : oneNumber args = .ok x) :
    x.isFinite = true ↔ ∀ a ∈ args.take 1, a.InRange := by
  cases args with
  | nil => cases h
  | cons a rest =>
    rw [numberOf_finite h]
    exact List.forall_mem_singleton.symm

theorem twoNumbers_finite {p : Point} (h : twoNumbers args = .ok p) :
    p.IsFinite ↔ ∀ a ∈ args.take 2, a.InRange := by
  obtain _ | ⟨a, _ | ⟨b, rest⟩⟩ := args
  · cases h
  · cases h
  · obtain ⟨x, hx, h⟩ := ok_of_bind h
    obtain ⟨y, hy, h⟩ := ok_of_bind h
    cases h
    rw [Point.IsFinite, numberOf_finite hx, numberOf_finite hy]
    simp

theorem coordinatesOf_finite {ps : List Point} (h : coordinatesOf args = .ok ps) :
    (∀ p ∈ ps, p.IsFinite) ↔ ∀ a ∈ args, a.InRange := by
  fun_induction coordinatesOf generalizing ps with
  | case1 =>
    cases h
    simp
  | case2 => cases h
  | case3 a b rest ih =>
    obtain ⟨p, hp, h⟩ := ok_of_bind h
    obtain ⟨others, hothers, h⟩ := ok_of_bind h
    cases h
    rw [List.forall_mem_cons, twoNumbers_finite hp, ih hothers]
    simp [and_assoc]

/-- A coordinate system is a text, in which no number is a literal of the query. -/
theorem sysOf_inRange {c : CoordSys} (h : sysOf sys = .ok c) : ∀ s ∈ sys, s.InRange := by
  rintro s ⟨⟩
  cases s with
  | string value span => exact (Operand.inRange_iff rfl).2 (List.forall_mem_nil _)
  | _ => cases h

variable {v : Version}

/-- The coordinates of a point are all numbers that are written in it. -/
theorem pointOf_finite {o : Operand} {c : CoordSys} {p : Point} (formed : o.WellFormed v)
    (point : asPoint? o = some (sys, args)) (h : pointOf sys args = .ok (c, p)) : p.IsFinite ↔ o.InRange := by
  fun_induction asPoint? with
  | case1 inner span ih =>
    obtain ⟨-, parts⟩ := formed
    rw [ih (parts inner List.mem_cons_self) point, Operand.inRange_iff (o := .wrapped inner span) rfl]
    exact List.forall_mem_singleton.symm
  | case2 sys' args' span =>
    cases point
    obtain ⟨c', hsys, h⟩ := ok_of_bind h
    obtain ⟨p', hp, h⟩ := ok_of_bind h
    cases h
    have two : args.length = 2 := Sql.PgSphere.length_of_wellFormed formed
    rw [twoNumbers_finite hp, List.take_of_length_le (Nat.le_of_eq two), Operand.inRange_iff rfl]
    simp only [Operand.children, List.mem_append, Option.mem_toList, or_imp, forall_and]
    exact (and_iff_right (sysOf_inRange hsys)).symm
  | case3 => cases point

/-- A centre is a point, of which it takes the coordinates, or two numbers, and the lengths follow it. -/
theorem centreOf_ok {c : CoordSys} {p : Point} {lengths : List Operand} (h : centreOf sys args = .ok (c, p, lengths)) :
    (∀ s ∈ sys, s.InRange) ∧
      ((∃ centre pointSys coordinates inner, args = centre :: lengths ∧
          asPoint? centre = some (pointSys, coordinates) ∧ pointOf pointSys coordinates = .ok (inner, p)) ∨
        twoNumbers args = .ok p ∧ lengths = args.drop 2) := by
  unfold centreOf at h
  split at h
  · rename_i pointSys coordinates first
    obtain ⟨centre, here, point⟩ := Option.bind_eq_some_iff.1 first
    obtain ⟨rest, rfl⟩ := List.head?_eq_some_iff.1 here
    obtain ⟨⟨inner, q⟩, hq, h⟩ := ok_of_bind h
    cases sys with
    | none =>
      cases h
      exact ⟨by simp, .inl ⟨centre, pointSys, coordinates, _, rfl, point, hq⟩⟩
    | some o =>
      obtain ⟨c', hsys, h⟩ := ok_of_bind h
      cases h
      exact ⟨sysOf_inRange hsys, .inl ⟨centre, pointSys, coordinates, inner, rfl, point, hq⟩⟩
  · obtain ⟨c', hsys, h⟩ := ok_of_bind h
    obtain ⟨q, hq, h⟩ := ok_of_bind h
    cases h
    exact ⟨sysOf_inRange hsys, .inr ⟨hq, rfl⟩⟩

/-- The centre and what is left after it hold all numbers of the arguments. -/
theorem centreOf_finite {c : CoordSys} {p : Point} {lengths : List Operand} (formed : ∀ a ∈ args, a.WellFormed v)
    (h : centreOf sys args = .ok (c, p, lengths)) :
    (∀ s ∈ sys, s.InRange) ∧ ((p.IsFinite ∧ ∀ l ∈ lengths, l.InRange) ↔ ∀ a ∈ args, a.InRange) := by
  obtain ⟨given, ⟨centre, pointSys, coordinates, inner, rfl, point, hq⟩ | ⟨hp, rfl⟩⟩ := centreOf_ok h
  · rw [pointOf_finite (formed centre List.mem_cons_self) point hq, List.forall_mem_cons]
    exact ⟨given, Iff.rfl⟩
  · rw [twoNumbers_finite hp, ← List.forall_mem_append, List.take_append_drop]
    exact ⟨given, Iff.rfl⟩

theorem verticesOf_finite {ps : List (CoordSys × Point)} (formed : ∀ a ∈ args, a.WellFormed v)
    (h : verticesOf args = .ok ps) : (∀ p ∈ ps.map Prod.snd, p.IsFinite) ↔ ∀ a ∈ args, a.InRange := by
  induction args generalizing ps with
  | nil =>
    cases h
    simp
  | cons o rest ih =>
    obtain ⟨here, formed⟩ := List.forall_mem_cons.1 formed
    unfold verticesOf at h
    split at h
    · cases h
    · rename_i point
      obtain ⟨⟨c, p⟩, hp, h⟩ := ok_of_bind h
      obtain ⟨others, hothers, h⟩ := ok_of_bind h
      cases h
      rw [List.map_cons, List.forall_mem_cons, List.forall_mem_cons, pointOf_finite here point hp, ih formed hothers]

/-! ### Numbers of shapes -/

theorem isFinite_position {c : CoordSys} {p : Point} : (position c p).IsFinite ↔ p.IsFinite := by
  rw [isFinite_iff]
  simp [numbers, points, members, Point.IsFinite]

theorem isFinite_circle {c : CoordSys} {p : Point} {radius : Float} :
    (circle c p radius).IsFinite ↔ p.IsFinite ∧ radius.isFinite = true := by
  rw [isFinite_iff]
  simp [numbers, points, members, Point.IsFinite, and_assoc]

theorem isFinite_box {c : CoordSys} {p size : Point} :
    (box c p size.x size.y).IsFinite ↔ p.IsFinite ∧ size.IsFinite := by
  rw [isFinite_iff]
  simp [numbers, points, members, Point.IsFinite, and_assoc]

theorem isFinite_polygonOf {c : CoordSys} {ps : List Point} {r : Region} (h : polygonOf c ps = .ok r) :
    r.IsFinite ↔ ∀ p ∈ ps, p.IsFinite := by
  unfold polygonOf at h
  split at h
  · rename_i first second third others
    cases h
    have written : (polygon c first second third others).numbers =
        (first :: second :: third :: others).flatMap fun p => [p.x, p.y] := List.append_nil _
    have alone (ps : List Point) :
        (∀ x ∈ ps.flatMap (fun p => [p.x, p.y]), x.isFinite = true) ↔ ∀ p ∈ ps, p.IsFinite := by
      rw [List.forall_mem_flatMap]
      simp [Point.IsFinite]
    rw [isFinite_iff, written, alone]
    exact and_iff_left (List.forall_mem_nil _)
  · cases h

/-! ### Shapes -/

theorem isNumeric_of_asPoint? {o : Operand} {found : Option Operand × List Operand} (h : asPoint? o = some found) :
    o.isNumeric = false := by
  fun_induction asPoint? with
  | case1 inner span ih => exact ih h
  | case2 => rfl
  | case3 => cases h

/-- The number of lengths that a shape with a centre has. -/
def lengthCount : GeometryFn → Nat
  | .circle => 1
  | .box => 2
  | _ => 0

theorem form_of_centred {fn : GeometryFn} {n : Nat} {pointFirst : Bool} {form : ShapeForm} (centred : fn = .circle ∨ fn = .box)
    (h : shapeForm? v fn n pointFirst = some form) :
    form = .numbers ∧ n = lengthCount fn + 2 ∨ form = .centred ∧ n = lengthCount fn + 1 := by
  unfold shapeForm? at h
  rcases centred with rfl | rfl <;> simp only [lengthCount] at h ⊢ <;> grind

/-- After its centre a shape has its lengths and nothing else. -/
theorem length_of_centreOf {fn : GeometryFn} {span : Option Span} {c : CoordSys} {p : Point} {lengths : List Operand}
    (formed : (Operand.geometry fn sys args span).WellFormed v) (centred : fn = .circle ∨ fn = .box)
    (h : centreOf sys args = .ok (c, p, lengths)) : lengths.length ≤ lengthCount fn := by
  have rule : ShapeRule v fn sys args := by
    obtain ⟨⟨-, rule⟩, -⟩ := formed
    rcases centred with rfl | rfl <;> exact rule
  obtain ⟨-, -, form, found, takes⟩ := rule
  obtain ⟨-, ⟨centre, pointSys, coordinates, inner, rfl, point, -⟩ | ⟨-, rfl⟩⟩ := centreOf_ok h
  · rcases form_of_centred centred found with ⟨rfl, -⟩ | ⟨-, count⟩
    · -- a point is not one of the numbers that this form takes
      have numeric := takes centre List.mem_cons_self
      rw [isNumeric_of_asPoint? point] at numeric
      cases numeric
    · rw [List.length_cons] at count
      omega
  · rw [List.length_drop]
    rcases form_of_centred centred found with ⟨-, count⟩ | ⟨-, count⟩ <;> omega

theorem polygonOfArgs_finite {r : Region} (formed : ∀ a ∈ args, a.WellFormed v) (h : polygonOfArgs sys args = .ok r) :
    (∀ s ∈ sys, s.InRange) ∧ (r.IsFinite ↔ ∀ a ∈ args, a.InRange) := by
  obtain ⟨own, hsys, h⟩ := ok_of_bind h
  refine ⟨sysOf_inRange hsys, ?_⟩
  split at h
  · obtain ⟨vertices, hvertices, h⟩ := ok_of_bind h
    exact (isFinite_polygonOf h).trans (verticesOf_finite formed hvertices)
  · split at h
    · cases h
    · obtain ⟨vertices, hvertices, h⟩ := ok_of_bind h
      exact (isFinite_polygonOf h).trans (coordinatesOf_finite hvertices)

/-- A region that a text literal holds is read from it. -/
theorem ofLiteral_finite {r : Region} (h : ofLiteral args = .ok r) : r.IsFinite ∧ ∀ a ∈ args, a.InRange := by
  unfold ofLiteral at h
  split at h
  · rename_i arg
    split at h
    · cases h
    · rename_i text literal
      refine ⟨isFinite_of_parse (ok_of_mapError h), List.forall_mem_singleton.2 ?_⟩
      cases arg with
      | string value span => exact (Operand.inRange_iff rfl).2 (List.forall_mem_nil _)
      | _ => cases literal
  · cases h

theorem ofCall_finite {fn : GeometryFn} {span : Option Span} {r : Region}
    (formed : (Operand.geometry fn sys args span).WellFormed v) (h : ofCall fn sys args = .ok r) :
    r.IsFinite ↔ (Operand.geometry fn sys args span).InRange := by
  have parts : ∀ a ∈ args, a.WellFormed v := by
    obtain ⟨-, parts⟩ := formed
    exact fun a member => parts a (List.mem_append_right _ member)
  have whole : (Operand.geometry fn sys args span).InRange ↔ (∀ s ∈ sys, s.InRange) ∧ ∀ a ∈ args, a.InRange := by
    rw [Operand.inRange_iff rfl]
    simp only [Operand.children, List.mem_append, Option.mem_toList, or_imp, forall_and]
    rfl
  unfold ofCall at h
  -- Each shape takes all of its arguments, so no number in the call is left out of the region.
  cases fn with
  | point =>
    obtain ⟨⟨c, p⟩, hp, h⟩ := ok_of_bind h
    cases h
    exact isFinite_position.trans (pointOf_finite formed rfl hp)
  | circle =>
    obtain ⟨⟨c, p, lengths⟩, hp, h⟩ := ok_of_bind h
    obtain ⟨radius, hradius, h⟩ := ok_of_bind h
    cases h
    obtain ⟨given, all⟩ := centreOf_finite parts hp
    have short : lengths.length ≤ 1 := length_of_centreOf formed (.inl rfl) hp
    rw [isFinite_circle, oneNumber_finite hradius, List.take_of_length_le short, all, whole]
    exact (and_iff_right given).symm
  | box =>
    obtain ⟨⟨c, p, lengths⟩, hp, h⟩ := ok_of_bind h
    obtain ⟨size, hsize, h⟩ := ok_of_bind h
    cases h
    obtain ⟨given, all⟩ := centreOf_finite parts hp
    have short : lengths.length ≤ 2 := length_of_centreOf formed (.inr rfl) hp
    rw [isFinite_box, twoNumbers_finite hsize, List.take_of_length_le short, all, whole]
    exact (and_iff_right given).symm
  | polygon =>
    obtain ⟨given, all⟩ := polygonOfArgs_finite parts h
    rw [all, whole]
    exact (and_iff_right given).symm
  | region =>
    obtain ⟨finite, all⟩ := ofLiteral_finite h
    obtain ⟨⟨-, rfl, -⟩, -⟩ := formed
    exact iff_of_true finite (whole.2 ⟨by simp, all⟩)
  | _ => cases h

theorem ofOperand_finite {o : Operand} {r : Region} (formed : o.WellFormed v) (h : ofOperand o = .ok r) :
    r.IsFinite ↔ o.InRange := by
  fun_induction ofOperand with
  | case1 inner span ih =>
    obtain ⟨-, parts⟩ := formed
    rw [ih (parts inner List.mem_cons_self) h, Operand.inRange_iff (o := .wrapped inner span) rfl]
    exact List.forall_mem_singleton.symm
  | case2 fn sys args span => exact ofCall_finite formed (ok_of_mapError h)
  | case3 => cases h

/-! ### Regions of a tree -/

/-- A region that an operand of a tree describes has finite numbers, and is read back from its STC-S form,
exactly if no literal in the operand exceeds the doubles. -/
theorem ofOperand_read_iff {entry : Entry} {text : String} {f : Fragment} {o : Operand} {r : Region}
    (read : entry.read v text = .ok f) (member : o ∈ f.operands) (h : ofOperand o = .ok r) :
    (r.IsFinite ↔ o.InRange) ∧ (parse r.renderStcs = .ok r ↔ o.InRange) := by
  obtain ⟨root, hroot, inside⟩ := Fragment.mem_operands_iff.1 member
  have formed : o.WellFormed v := (Entry.read_wellFormed read root hroot).all _ inside
  have finite := ofOperand_finite formed h
  exact ⟨finite, parse_renderStcs_iff.trans finite⟩

/-- A region that some operand of a clause describes. -/
theorem exists_described (v : Version) (text : String) (good : Operand → Bool)
    (h : ((Entry.select.read v text).toOption.bind fun f =>
      f.operands.find? fun o => (ofOperand o).toOption.isSome && good o).isSome = true) :
    ∃ f o r, Entry.select.read v text = .ok f ∧ o ∈ f.operands ∧ ofOperand o = .ok r ∧ good o = true := by
  obtain ⟨o, found⟩ := Option.isSome_iff_exists.1 h
  obtain ⟨f, read, found⟩ := Option.bind_eq_some_iff.1 found
  have holds := List.find?_some found
  obtain ⟨described, right⟩ := Bool.and_eq_true_iff.1 holds
  obtain ⟨r, made⟩ := exists_ok_of_isSome described
  exact ⟨f, o, r, toOption_eq_some_iff.1 read, List.mem_of_find?_eq_some found, made, right⟩

theorem ofOperand_read_iff_circle :
    let text := "SELECT (CIRCLE(POINT('GALACTIC', 1.5e2, - -.25), 1e-400))"
    ∃ f o r, Entry.select.read .v21 text = .ok f ∧ o ∈ f.operands ∧ ofOperand o = .ok r ∧
      r.IsFinite ∧ parse r.renderStcs = .ok r := by
  intro text
  obtain ⟨f, o, r, read, member, made, fits⟩ :=
    exists_described .v21 text (fun o => decide o.InRange) (by decide +kernel)
  have fits := of_decide_eq_true fits
  obtain ⟨finite, again⟩ := ofOperand_read_iff read member made
  exact ⟨f, o, r, read, member, made, finite.2 fits, again.2 fits⟩

/-- A literal that exceeds the doubles is taken for an infinite coordinate. -/
theorem ofOperand_read_overflow :
    ¬∀ (v : Version) (entry : Entry) (text : String) (f : Fragment) (o : Operand) (r : Region),
      entry.read v text = .ok f → o ∈ f.operands → ofOperand o = .ok r →
        r.IsFinite ∧ parse r.renderStcs = .ok r := by
  intro claim
  obtain ⟨f, o, r, read, member, made, exceeds⟩ :=
    exists_described .v21 "SELECT POINT(1e400, 2)" (fun o => !decide o.InRange) (by decide +kernel)
  have finite := (claim _ _ _ f o r read member made).1
  obtain ⟨root, hroot, inside⟩ := Fragment.mem_operands_iff.1 member
  have formed := (Entry.read_wellFormed read root hroot).all _ inside
  rw [decide_eq_true ((ofOperand_finite formed made).1 finite)] at exceeds
  cases exceeds

end Region

end SkyQuery
