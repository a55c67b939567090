import SkyQuery.Proofs.Region.Records

/-!
# The fields of stored regions

A stored region could hold any fields. `RegionRecord.Fit` says which of them a kind has and how many. The records
that are read from texts, described by operands or made by the constructors, and all those they are made of, are
exactly the ones that fit (`RegionRecord.obtained_iff_fit`), so that a point has a first pair of coordinates wherever
a call takes it.
-/

namespace SkyQuery

open Vocabulary

/-- Whether a region of a kind has so many pairs of coordinates. -/
def RegionKind.HasPoints : RegionKind → Nat → Prop
  | .position, n | .circle, n | .box, n => n = 1
  | .polygon, n => 3 ≤ n
  | .union, n | .intersection, n | .not, n => n = 0

/-- Whether a region of a kind has so many members. -/
def RegionKind.HasMembers : RegionKind → Nat → Prop
  | .position, n | .circle, n | .box, n | .polygon, n => n = 0
  | .union, n | .intersection, n => 2 ≤ n
  | .not, n => n = 1

/-! ### Coordinate systems -/

namespace SysRecord

variable {c : SysRecord}

/-- A cartesian system has the frame and the reference position that stand where none is written. -/
def Fit (c : SysRecord) : Prop := c.flavor.isCartesian = true → c.frame = unstated ∧ c.refPos = unstated

/-- A coordinate system that is the default one, made of parts, or read from a text or a literal. -/
inductive Obtained : SysRecord → Prop where
  | default : Obtained {}
  | made {frame : Frame} {refPos : RefPos} {flavor : Flavor} {c : SysRecord} (h : new frame refPos flavor = .ok c) :
    Obtained c
  | parsed {text : String} {c : SysRecord} (h : parse text = .ok c) : Obtained c
  | literal {o : Operand} {c : SysRecord} (h : ofOperand o = .ok c) : Obtained c

theorem record_fit (c : CoordSys) : c.record.Fit := c.unframed

theorem new_of_fit (h : c.Fit) : new c.frame c.refPos c.flavor = .ok c := by
  have valid : CoordSys.ofParts c.frame c.refPos c.flavor = .ok ⟨c.frame, c.refPos, c.flavor, h⟩ := dif_pos h
  rw [new_eq, valid]
  rfl

theorem fit_of_map {ε : Type} {x : Except ε CoordSys} (h : x.map CoordSys.record = .ok c) : c.Fit := by
  cases x with
  | error e => cases h
  | ok s =>
    cases h
    exact record_fit s

theorem obtained_iff : c.Obtained ↔ c.Fit := by
  constructor
  · intro h
    cases h with
    | default => exact record_fit .default
    | made h => exact fit_of_map (new_eq _ _ _ ▸ h)
    | parsed h => exact fit_of_map (parse_eq _ ▸ h)
    | literal h => exact fit_of_map (ofOperand_eq _ ▸ h)
  · exact fun h => .made (new_of_fit h)

end SysRecord

/-! ### Regions -/

namespace RegionRecord

variable {r : RegionRecord} {sys : SysRecord}

/-- The fields are those of a region of the kind, and the others are left out. -/
structure Fit (r : RegionRecord) : Prop where
  points : r.kind.HasPoints r.points.length
  radius : r.kind ≠ .circle → r.radius.isNaN = true
  width : r.kind ≠ .box → r.width.isNaN = true
  height : r.kind ≠ .box → r.height.isNaN = true
  regions : r.kind.HasMembers r.regions.length
  sys : r.sys = none ↔ r.kind = .not
  unframed : ∀ c ∈ r.sys, c.Fit

/-- A region that is read from a text, described by an operand, or made by a constructor. -/
inductive Obtained : RegionRecord → Prop where
  | parsed {text : String} {r : RegionRecord} (h : parse text = .ok r) : Obtained r
  | described {o : Operand} {r : RegionRecord} (h : ofOperand o = .ok r) : Obtained r
  | position {sys : SysRecord} (h : sys.Obtained) (p : Point) : Obtained (.position sys p)
  | circle {sys : SysRecord} (h : sys.Obtained) (centre : Point) (radius : Float) : Obtained (.circle sys centre radius)
  | box {sys : SysRecord} (h : sys.Obtained) (centre : Point) (width height : Float) :
    Obtained (.box sys centre width height)
  | polygon {sys : SysRecord} {vertices : List Point} {r : RegionRecord} (h : sys.Obtained)
    (made : polygonOf sys vertices = .ok r) : Obtained r
  | combination {op : Combination} {sys : SysRecord} {regions : List RegionRecord} {r : RegionRecord} (h : sys.Obtained)
    (nested : ∀ m ∈ regions, Obtained m) (made : combinationOf op sys regions = .ok r) : Obtained r
  | negation {r : RegionRecord} (h : Obtained r) : Obtained (.negation r)

/-! ### What the constructors make -/

theorem isNaN_notANumber : Decimal.notANumber.isNaN = true := by decide

/-- A record with the points and the members of its kind, and without lengths. -/
theorem shape_fit {kind : RegionKind} {points : List Point} {regions : List RegionRecord} (h : sys.Fit)
    (shaped : kind ≠ .not) (pairs : kind.HasPoints points.length) (members : kind.HasMembers regions.length) :
    ({ shape kind sys points with regions } : RegionRecord).Fit where
  points := pairs
  radius _ := isNaN_notANumber
  width _ := isNaN_notANumber
  height _ := isNaN_notANumber
  regions := members
  sys := ⟨nofun, fun not => absurd not shaped⟩
  unframed := by
    rintro c ⟨⟩
    exact h

theorem position_fit (h : sys.Fit) (p : Point) : (position sys p).Fit := shape_fit h nofun rfl rfl

theorem circle_fit (h : sys.Fit) (centre : Point) (radius : Float) : (circle sys centre radius).Fit :=
  have bare : (shape .circle sys [centre]).Fit := shape_fit h nofun rfl rfl
  { bare with radius := fun other => absurd rfl other }

theorem box_fit (h : sys.Fit) (centre : Point) (width height : Float) : (box sys centre width height).Fit :=
  have bare : (shape .box sys [centre]).Fit := shape_fit h nofun rfl rfl
  { bare with
    width := fun other => absurd rfl other
    height := fun other => absurd rfl other }

theorem polygonOf_ok_iff {vertices : List Point} :
    polygonOf sys vertices = .ok r ↔ 3 ≤ vertices.length ∧ shape .polygon sys vertices = r := by
  unfold polygonOf
  split
  · simp
    omega
  · simp
    omega

theorem polygonOf_fit {vertices : List Point} (h : sys.Fit) (made : polygonOf sys vertices = .ok r) : r.Fit := by
  obtain ⟨many, rfl⟩ := polygonOf_ok_iff.1 made
  exact shape_fit h nofun many rfl

theorem combinationOf_ok_iff {op : Combination} {regions : List RegionRecord} :
    combinationOf op sys regions = .ok r ↔ 2 ≤ regions.length ∧ { shape op.kind sys [] with regions } = r := by
  unfold combinationOf
  split
  · simp
    omega
  · simp
    omega

theorem combinationOf_fit {op : Combination} {regions : List RegionRecord} (h : sys.Fit)
    (made : combinationOf op sys regions = .ok r) : r.Fit ∧ r.regions = regions := by
  obtain ⟨several, rfl⟩ := combinationOf_ok_iff.1 made
  cases op with
  | union => exact ⟨shape_fit h nofun rfl several, rfl⟩
  | intersection => exact ⟨shape_fit h nofun rfl several, rfl⟩

theorem negation_fit (inner : RegionRecord) : (negation inner).Fit where
  points := rfl
  radius _ := isNaN_notANumber
  width _ := isNaN_notANumber
  height _ := isNaN_notANumber
  regions := rfl
  sys := ⟨fun _ => rfl, fun _ => rfl⟩
  unframed := nofun

/-! ### Records at any depth -/

theorem walk_fit_iff : (∀ part ∈ r.walk, part.Fit) ↔ r.Fit ∧ ∀ m ∈ r.regions, ∀ part ∈ m.walk, part.Fit := by
  rw [walk_eq, List.forall_mem_cons, List.forall_mem_flatMap]

theorem record_fit (s : Region) : s.record.Fit := by
  cases s with
  | position sys p => exact position_fit (SysRecord.record_fit sys) p
  | circle sys centre radius => exact circle_fit (SysRecord.record_fit sys) centre radius
  | box sys centre width height => exact box_fit (SysRecord.record_fit sys) centre width height
  | polygon sys first second third others =>
    exact polygonOf_fit (SysRecord.record_fit sys) (polygonOf_eq sys (first :: second :: third :: others))
  | combination op sys first second others =>
    have made := combinationOf_eq op sys (first :: second :: others)
    exact (combinationOf_fit (SysRecord.record_fit sys) made).1
  | not inner => exact negation_fit inner.record

/-- What is stored of a region fits at any depth, so what producers of records share with those of regions does. -/
theorem walk_fit_of_map {ε : Type} {x : Except ε Region} (h : x.map Region.record = .ok r) : ∀ part ∈ r.walk, part.Fit := by
  cases x with
  | error e => cases h
  | ok s =>
    cases h
    rw [walk_record, List.forall_mem_map]
    exact fun part _ => record_fit part

theorem refuse_ok_iff {α : Type} {x : Except Diagnostic α} {a : α} : refuse x = .ok a ↔ x = .ok a := by
  cases x <;> simp [refuse, Except.mapError]

theorem refuse_ne_outOfBounds {α : Type} {x : Except Diagnostic α} : refuse x ≠ .error .outOfBounds := by
  cases x <;> simp [refuse, Except.mapError]

theorem Obtained.walk_fit (h : r.Obtained) : ∀ part ∈ r.walk, part.Fit := by
  induction h with
  | parsed h => exact walk_fit_of_map (parse_eq _ ▸ h)
  | described h => exact walk_fit_of_map (refuse_ok_iff.1 (ofOperand_eq _ ▸ h))
  | position h p => exact walk_fit_iff.2 ⟨position_fit (SysRecord.obtained_iff.1 h) p, List.forall_mem_nil _⟩
  | circle h centre radius =>
    exact walk_fit_iff.2 ⟨circle_fit (SysRecord.obtained_iff.1 h) centre radius, List.forall_mem_nil _⟩
  | box h centre width height =>
    exact walk_fit_iff.2 ⟨box_fit (SysRecord.obtained_iff.1 h) centre width height, List.forall_mem_nil _⟩
  | polygon h made =>
    refine walk_fit_iff.2 ⟨polygonOf_fit (SysRecord.obtained_iff.1 h) made, ?_⟩
    obtain ⟨-, rfl⟩ := polygonOf_ok_iff.1 made
    exact List.forall_mem_nil _
  | combination h nested made ih =>
    obtain ⟨fit, regions⟩ := combinationOf_fit (SysRecord.obtained_iff.1 h) made
    exact walk_fit_iff.2 ⟨fit, regions ▸ ih⟩
  | negation h ih => exact walk_fit_iff.2 ⟨negation_fit _, List.forall_mem_singleton.2 ih⟩

theorem sizeOf_lt_of_mem_regions (r : RegionRecord) : ∀ m ∈ r.regions, sizeOf m < sizeOf r := by
  intro m h
  have smaller := List.sizeOf_lt_of_mem h
  obtain ⟨kind, sys, points, radius, width, height, regions⟩ := r
  simp only [RegionRecord.mk.sizeOf_spec] at smaller ⊢
  omega

/-- What holds of a record if it holds of those it is made of holds of all records. -/
theorem byRegions {P : RegionRecord → Prop} (step : ∀ r, (∀ m ∈ r.regions, P m) → P r) (r : RegionRecord) : P r :=
  (wellFounded_of_shrinks sizeOf_lt_of_mem_regions).induction r step

theorem eq_notANumber {x : Float} (h : x.isNaN = true) : x = Decimal.notANumber := by
  rw [Region.notANumber_eq]
  exact Region.isNaN_iff.1 h

theorem Fit.exists_sys (h : r.Fit) (shaped : r.kind ≠ .not) : ∃ c, r.sys = some c ∧ c.Obtained := by
  cases system : r.sys with
  | none => exact absurd (h.sys.1 system) shaped
  | some c => exact ⟨c, rfl, SysRecord.obtained_iff.2 (h.unframed c system)⟩

theorem Fit.no_lengths (h : r.Fit) (round : r.kind ≠ .circle) (square : r.kind ≠ .box) :
    r.radius = Decimal.notANumber ∧ r.width = Decimal.notANumber ∧ r.height = Decimal.notANumber :=
  ⟨eq_notANumber (h.radius round), eq_notANumber (h.width square), eq_notANumber (h.height square)⟩

/-- What fits is made by the constructor of its kind. -/
theorem Fit.obtained (h : r.Fit) (nested : ∀ m ∈ r.regions, m.Obtained) : r.Obtained := by
  have noRadius := fun other => eq_notANumber (h.radius other)
  have noWidth := fun other => eq_notANumber (h.width other)
  have noHeight := fun other => eq_notANumber (h.height other)
  have noLengths := h.no_lengths
  have system := h.exists_sys
  obtain ⟨pairs, -, -, -, members, unplaced, -⟩ := h
  obtain ⟨kind, sys, points, radius, width, height, regions⟩ := r
  -- The fields that a kind does not have are empty or no number, as its constructor leaves them.
  cases kind with
  | not =>
    obtain rfl := List.eq_nil_of_length_eq_zero pairs
    obtain ⟨inner, rfl⟩ := List.length_eq_one_iff.1 members
    obtain rfl := unplaced.2 rfl
    obtain ⟨rfl, rfl, rfl⟩ := noLengths nofun nofun
    exact .negation (nested inner List.mem_cons_self)
  | position =>
    obtain ⟨c, rfl, made⟩ := system nofun
    obtain ⟨p, rfl⟩ := List.length_eq_one_iff.1 pairs
    obtain rfl := List.eq_nil_of_length_eq_zero members
    obtain ⟨rfl, rfl, rfl⟩ := noLengths nofun nofun
    exact .position made p
  | circle =>
    obtain ⟨c, rfl, made⟩ := system nofun
    obtain ⟨p, rfl⟩ := List.length_eq_one_iff.1 pairs
    obtain rfl := List.eq_nil_of_length_eq_zero members
    obtain rfl := noWidth nofun
    obtain rfl := noHeight nofun
    exact .circle made p radius
  | box =>
    obtain ⟨c, rfl, made⟩ := system nofun
    obtain ⟨p, rfl⟩ := List.length_eq_one_iff.1 pairs
    obtain rfl := List.eq_nil_of_length_eq_zero members
    obtain rfl := noRadius nofun
    exact .box made p width height
  | polygon =>
    obtain ⟨c, rfl, made⟩ := system nofun
    obtain rfl := List.eq_nil_of_length_eq_zero members
    obtain ⟨rfl, rfl, rfl⟩ := noLengths nofun nofun
    exact .polygon made (polygonOf_ok_iff.2 ⟨pairs, rfl⟩)
  | union =>
    obtain ⟨c, rfl, made⟩ := system nofun
    obtain rfl := List.eq_nil_of_length_eq_zero pairs
    obtain ⟨rfl, rfl, rfl⟩ := noLengths nofun nofun
    have combined : combinationOf .union c regions = .ok { shape .union c [] with regions } :=
      combinationOf_ok_iff.2 ⟨members, rfl⟩
    exact .combination made nested combined
  | intersection =>
    obtain ⟨c, rfl, made⟩ := system nofun
    obtain rfl := List.eq_nil_of_length_eq_zero pairs
    obtain ⟨rfl, rfl, rfl⟩ := noLengths nofun nofun
    have combined : combinationOf .intersection c regions = .ok { shape .intersection c [] with regions } :=
      combinationOf_ok_iff.2 ⟨members, rfl⟩
    exact .combination made nested combined

theorem obtained_of_walk_fit (h : ∀ part ∈ r.walk, part.Fit) : r.Obtained := by
  induction r using byRegions with
  | step r ih =>
    obtain ⟨fit, nested⟩ := walk_fit_iff.1 h
    exact fit.obtained fun m member => ih m member (nested m member)

/-- The records that are read, described or made fit their kinds at any depth, and all that do can be made. No call
takes a point that is not there. -/
theorem obtained_iff_fit :
    (∀ r : RegionRecord, r.Obtained ↔ ∀ part ∈ r.walk, part.Fit) ∧
      (∀ (fn : GeometryFn) (sys : Option Operand) (args : List Operand), ofCall fn sys args ≠ .error .outOfBounds) ∧
      ∀ o : Operand, ofOperand o ≠ .error .outOfBounds := by
  refine ⟨fun r => ⟨Obtained.walk_fit, obtained_of_walk_fit⟩, fun fn sys args => ?_, fun o => ?_⟩
  · rw [ofCall_eq]
    exact refuse_ne_outOfBounds
  · rw [ofOperand_eq]
    exact refuse_ne_outOfBounds

end RegionRecord

end SkyQuery
