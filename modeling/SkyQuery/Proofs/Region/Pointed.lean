import SkyQuery.Proofs.Check.Parentheses
import SkyQuery.Region.OfOperand

/-!
# Shapes of points and shapes of numbers

The centre of a circle or box and the vertices of a polygon are points or pairs of numbers. Both spellings
describe the same region, whose coordinate system is that of the shape or else that of the first point
(`Region.ofOperand_pointed`).
-/

namespace SkyQuery.Region

open Operand

/-- A point of a shape, in any number of parentheses. Its first coordinate is a number, which can be anything
but a point. -/
structure Vertex where
  sys : Option Operand
  x : Operand
  y : Operand
  written : Operand
  point : ∃ span, InParentheses (.geometry .point sys [x, y] span) written
  number : asPoint? x = none

namespace Vertex

def coordinates (p : Vertex) : List Operand := [p.x, p.y]

/-- The point with a numeric literal for its first coordinate, without parentheses. -/
def ofLiteral (sys : Option Operand) (text : String) (y : Operand) : Vertex where
  sys := sys
  x := .numeric text none
  y := y
  written := .geometry .point sys [.numeric text none, y] none
  point := ⟨none, .none⟩
  number := rfl

/-- The point in one more pair of parentheses. -/
def wrapped (p : Vertex) : Vertex where
  sys := p.sys
  x := p.x
  y := p.y
  written := .wrapped p.written none
  point := p.point.imp fun _ h => .more h
  number := p.number

end Vertex

/-- The points and lengths that a shape of a kind is written with. -/
inductive Pointed : GeometryFn → List Vertex → List Operand → Prop where
  | circle (centre : Vertex) (radius : Operand) : Pointed .circle [centre] [radius]
  | box (centre : Vertex) (width height : Operand) : Pointed .box [centre] [width, height]
  | polygon (vertices : List Vertex) : Pointed .polygon vertices []

/-- The coordinate system of a shape: its own or else that of its first point. -/
def givenSys (own : Option Operand) (vertices : List Vertex) : Option Operand :=
  own.or (vertices.head?.bind (·.sys))

/-- All coordinate systems of a shape of points are valid. -/
def ValidSystems (own : Option Operand) (vertices : List Vertex) : Prop :=
  ∀ sys ∈ own :: vertices.map (·.sys), ∃ c, sysOf sys = .ok c

variable {own sys : Option Operand} {p : Vertex} {vertices : List Vertex} {lengths : List Operand}

/-! ### Points -/

theorem asPoint?_inParentheses {inner o : Operand} (h : InParentheses inner o) : asPoint? o = asPoint? inner := by
  induction h with
  | none => rfl
  | more _ ih => exact ih

theorem Vertex.asPoint?_written (p : Vertex) : asPoint? p.written = some (p.sys, p.coordinates) := by
  obtain ⟨span, h⟩ := p.point
  exact asPoint?_inParentheses h

/-- A point with a valid system is read as its coordinates are. -/
theorem pointOf_coordinates {c : CoordSys} (valid : sysOf p.sys = .ok c) :
    pointOf p.sys p.coordinates = (twoNumbers p.coordinates).map (c, ·) := by
  unfold pointOf
  rw [valid]
  change (twoNumbers p.coordinates >>= fun q => Except.ok (c, q)) = _
  cases twoNumbers p.coordinates <;> rfl

theorem sysOf_givenSys (valid : ValidSystems own (p :: vertices)) :
    ∃ c inner, sysOf (givenSys own (p :: vertices)) = .ok c ∧ sysOf p.sys = .ok inner ∧
      (match own with
        | some o => CoordSys.ofOperand o
        | none => .ok inner) = .ok c := by
  obtain ⟨inner, point⟩ := valid p.sys (by simp)
  cases own with
  | none => exact ⟨inner, inner, point, point, rfl⟩
  | some o =>
    obtain ⟨c, given⟩ := valid (some o) (by simp)
    exact ⟨c, inner, given, point, given⟩

/-! ### Centres -/

/-- A centre that is a point stands for its coordinates. -/
theorem centreOf_pointed (valid : ValidSystems own [p]) :
    centreOf own (p.written :: lengths) = centreOf (givenSys own [p]) (p.coordinates ++ lengths) := by
  obtain ⟨c, inner, given, point, chosen⟩ := sysOf_givenSys valid
  have flat : (p.coordinates ++ lengths).head?.bind asPoint? = none := p.number
  have first : (p.written :: lengths).head?.bind asPoint? = some (p.sys, p.coordinates) := p.asPoint?_written
  have numbers : twoNumbers (p.coordinates ++ lengths) = twoNumbers p.coordinates := rfl
  unfold centreOf
  rw [first, flat, given, numbers]
  dsimp only
  rw [pointOf_coordinates point]
  cases own with
  | none =>
    cases chosen
    cases twoNumbers p.coordinates <;> rfl
  | some o =>
    dsimp only at chosen ⊢
    rw [chosen]
    cases twoNumbers p.coordinates <;> rfl

/-- A centre is read only if the systems of the point and of the shape are valid. -/
theorem validSystems_of_centreOf {found : CoordSys × Point × List Operand}
    (h : centreOf own (p.written :: lengths) = .ok found) : ValidSystems own [p] := by
  have first : (p.written :: lengths).head?.bind asPoint? = some (p.sys, p.coordinates) := p.asPoint?_written
  unfold centreOf at h
  rw [first] at h
  obtain ⟨⟨inner, q⟩, read, h⟩ := ok_of_bind h
  obtain ⟨inner, point, -⟩ := ok_of_bind read
  refine List.forall_mem_cons.2 ⟨?_, List.forall_mem_singleton.2 ⟨inner, point⟩⟩
  cases own with
  | none => exact ⟨.default, rfl⟩
  | some o =>
    obtain ⟨c, chosen, -⟩ := ok_of_bind h
    exact ⟨c, chosen⟩

/-! ### Vertices -/

/-- Vertices with valid systems are read as their coordinates are, with the systems beside them. -/
theorem verticesOf_written (valid : ∀ p ∈ vertices, ∃ c, sysOf p.sys = .ok c) :
    ∃ systems : List CoordSys, systems.length = vertices.length ∧
      (∀ p ∈ vertices.head?, sysOf p.sys = .ok (systems.headD .default)) ∧
      verticesOf (vertices.map (·.written)) =
        (coordinatesOf (vertices.flatMap (·.coordinates))).map (systems.zip ·) := by
  induction vertices with
  | nil => exact ⟨[], rfl, by simp, rfl⟩
  | cons p rest ih =>
    obtain ⟨⟨c, here⟩, others⟩ := List.forall_mem_cons.1 valid
    obtain ⟨systems, length, -, read⟩ := ih others
    refine ⟨c :: systems, congrArg (· + 1) length, by simpa using here, ?_⟩
    have flat : coordinatesOf ((p :: rest).flatMap (·.coordinates)) =
        (do let q ← twoNumbers p.coordinates
            let qs ← coordinatesOf (rest.flatMap (·.coordinates))
            return q :: qs) := rfl
    rw [List.map_cons, verticesOf, p.asPoint?_written, flat]
    dsimp only
    rw [pointOf_coordinates here, read]
    cases twoNumbers p.coordinates with
    | error => rfl
    | ok q => cases coordinatesOf (rest.flatMap (·.coordinates)) <;> rfl

theorem length_of_coordinatesOf {args : List Operand} {ps : List Point} (h : coordinatesOf args = .ok ps) :
    args.length = 2 * ps.length := by
  fun_induction coordinatesOf generalizing ps with
  | case1 => cases h; rfl
  | case2 => cases h
  | case3 a b rest ih =>
    obtain ⟨q, -, h⟩ := ok_of_bind h
    obtain ⟨others, more, h⟩ := ok_of_bind h
    cases h
    simp only [List.length_cons, ih more]
    omega

theorem length_coordinates (vertices : List Vertex) :
    (vertices.flatMap (·.coordinates)).length = 2 * vertices.length := by
  induction vertices with
  | nil => rfl
  | cons p rest ih =>
    rw [List.flatMap_cons, List.length_append, ih, Vertex.coordinates]
    simp only [List.length_cons, List.length_nil]
    omega

/-- Vertices are read only if the systems of all of them are valid. -/
theorem validSystems_of_verticesOf {found : List (CoordSys × Point)}
    (h : verticesOf (vertices.map (·.written)) = .ok found) : ∀ p ∈ vertices, ∃ c, sysOf p.sys = .ok c := by
  induction vertices generalizing found with
  | nil => simp
  | cons p rest ih =>
    rw [List.map_cons, verticesOf, p.asPoint?_written] at h
    obtain ⟨q, read, h⟩ := ok_of_bind h
    obtain ⟨c, here, -⟩ := ok_of_bind read
    obtain ⟨others, more, -⟩ := ok_of_bind h
    exact List.forall_mem_cons.2 ⟨⟨c, here⟩, ih more⟩

/-- A polygon of points is one of their coordinates. -/
theorem polygonOfArgs_pointed (valid : ValidSystems own vertices) :
    polygonOfArgs own (vertices.map (·.written)) =
      polygonOfArgs (givenSys own vertices) (vertices.flatMap (·.coordinates)) := by
  cases vertices with
  | nil => cases own <;> rfl
  | cons p rest =>
    have even : ((p :: rest).flatMap (·.coordinates)).length % 2 = 0 := by
      rw [length_coordinates, Nat.mul_mod_right]
    have flat : ((p :: rest).flatMap (·.coordinates)).head?.bind asPoint? = none := p.number
    have first : ((p :: rest).map (·.written)).head?.bind asPoint? = some (p.sys, p.coordinates) := p.asPoint?_written
    obtain ⟨c, inner, given, point, chosen⟩ := sysOf_givenSys valid
    have known (q) (member : q ∈ p :: rest) := valid q.sys (List.mem_cons_of_mem own (List.mem_map_of_mem member))
    obtain ⟨systems, length, heads, read⟩ := verticesOf_written known
    obtain ⟨own', ownValid⟩ := valid own List.mem_cons_self
    unfold polygonOfArgs
    rw [first, flat, given, ownValid, read]
    simp only [Option.isSome_some, Option.isSome_none, even, if_true, bne_self_eq_false, Bool.false_eq_true, if_false]
    change ((Except.map _ _) >>= _) = (coordinatesOf _ >>= fun qs => polygonOf c qs)
    cases coordinates : coordinatesOf ((p :: rest).flatMap (·.coordinates)) with
    | error e => rfl
    | ok qs =>
      have same : systems.length = qs.length := by
        have both := (length_coordinates (p :: rest)).symm.trans (length_of_coordinatesOf coordinates)
        omega
      change polygonOf _ ((systems.zip qs).map (·.2)) = polygonOf c qs
      rw [List.map_snd_zip (Nat.le_of_eq same.symm)]
      congr 1
      obtain ⟨head, systems, rfl⟩ := List.exists_cons_of_length_eq_add_one length
      obtain ⟨q, qs, rfl⟩ := List.exists_cons_of_length_eq_add_one (same.symm.trans length)
      obtain rfl : inner = head := Except.ok.inj (point.symm.trans (heads p rfl))
      cases own with
      | none => exact Except.ok.inj chosen
      | some o => exact Except.ok.inj (ownValid.symm.trans chosen)

theorem validSystems_of_polygonOfArgs {r : Region} (h : polygonOfArgs own (vertices.map (·.written)) = .ok r) :
    ValidSystems own vertices := by
  obtain ⟨c, ownValid, h⟩ := ok_of_bind h
  have others : ∀ p ∈ vertices, ∃ c, sysOf p.sys = .ok c := by
    cases vertices with
    | nil => simp
    | cons p rest =>
      have first : ((p :: rest).map (·.written)).head?.bind asPoint? = some (p.sys, p.coordinates) := p.asPoint?_written
      rw [first, if_pos (by rfl)] at h
      obtain ⟨found, read, -⟩ := ok_of_bind h
      exact validSystems_of_verticesOf read
  exact List.forall_mem_cons.2 ⟨⟨c, ownValid⟩, List.forall_mem_map.2 others⟩

/-! ### Shapes -/

/-- A shape of points is the shape of their coordinates, in its own coordinate system or else in that of its
first point, if all coordinate systems are valid; it fails if one is not. -/
theorem ofOperand_pointed {fn : GeometryFn} (shape : Pointed fn vertices lengths) (own : Option Operand)
    (span : Option Span) :
    let pointed := Operand.geometry fn own (vertices.map (·.written) ++ lengths) span
    let flat := Operand.geometry fn (givenSys own vertices) (vertices.flatMap (·.coordinates) ++ lengths) span
    (ValidSystems own vertices → ofOperand pointed = ofOperand flat) ∧
      ∀ r, ofOperand pointed = .ok r ↔ ValidSystems own vertices ∧ ofOperand flat = .ok r := by
  intro pointed flat
  have same (valid : ValidSystems own vertices) : ofOperand pointed = ofOperand flat := by
    refine congrArg (Except.mapError fun e : Diagnostic => e.orAt span) ?_
    cases shape with
    | circle centre radius => exact congrArg (· >>= _) (centreOf_pointed valid)
    | box centre width height => exact congrArg (· >>= _) (centreOf_pointed valid)
    | polygon vertices =>
      rw [List.append_nil, List.append_nil]
      exact polygonOfArgs_pointed valid
  have needed (r : Region) (h : ofOperand pointed = .ok r) : ValidSystems own vertices := by
    have read := ok_of_mapError h
    cases shape with
    | circle centre radius =>
      obtain ⟨found, centred, -⟩ := ok_of_bind read
      exact validSystems_of_centreOf centred
    | box centre width height =>
      obtain ⟨found, centred, -⟩ := ok_of_bind read
      exact validSystems_of_centreOf centred
    | polygon vertices =>
      rw [List.append_nil] at read
      exact validSystems_of_polygonOfArgs read
  exact ⟨same, fun r => ⟨fun h => ⟨needed r h, (same (needed r h)).symm.trans h⟩, fun h => (same h.1).trans h.2⟩⟩

/-- The system of the first point, which stands in parentheses, is the one of the polygon. -/
theorem ofOperand_pointed_polygon :
    let zero := Operand.numeric "0" none
    let first := Vertex.wrapped (.ofLiteral (some (.string "GALACTIC" none)) "0" zero)
    let vertices := [first, .ofLiteral none "1" zero, .ofLiteral (some (.string "ICRS" none)) "0" (.numeric "1" none)]
    let corners := vertices.flatMap (·.coordinates)
    ∃ r, ofOperand (.geometry .polygon none (vertices.map (·.written)) none) = .ok r ∧
      ofOperand (.geometry .polygon (some (.string "GALACTIC" none)) corners none) = .ok r := by
  intro zero first vertices corners
  have valid : ValidSystems none vertices := by
    have read : ∀ sys ∈ none :: vertices.map (·.sys), (sysOf sys).toOption.isSome = true := by decide +kernel
    exact fun sys member => exists_ok_of_isSome (read sys member)
  obtain ⟨same, -⟩ := ofOperand_pointed (.polygon vertices) none none
  obtain ⟨r, read⟩ := exists_ok_of_isSome
    (r := ofOperand (.geometry .polygon none (vertices.map (·.written)) none)) (by decide +kernel)
  rw [List.append_nil, List.append_nil] at same
  exact ⟨r, read, (same valid).symm.trans read⟩

end SkyQuery.Region
