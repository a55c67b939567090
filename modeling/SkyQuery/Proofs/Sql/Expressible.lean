import SkyQuery.Proofs.Sql.Exact
import SkyQuery.Proofs.WellFormed.Texts
import SkyQuery.Sql.PgSphere

/-!
# What has no form in PostgreSQL

A query has no text in PostgreSQL exactly if it asks for geometry, for units or for a random number
from a seed. With pgSphere, geometry has one, except for the names of coordinate systems and for
regions that are not literals of one shape (`Sql.query_error_iff`).
-/

namespace SkyQuery

open Grammar

variable {v : Version}

theorem Part.contents_eq (p : Part) :
    (∃ fn sys args span, p = .operand (.geometry fn sys args span)) ∨ p.contents = p.children := by
  cases p with
  | operand o =>
    cases o with
    | geometry fn sys args span => exact .inl ⟨fn, sys, args, span, rfl⟩
    | _ => exact .inr rfl
  | _ => exact .inr rfl

/-- How many arguments a form of a shape takes. -/
theorem Grammar.length_of_shapeForm {fn : GeometryFn} {n : Nat} {pointFirst : Bool} {form : ShapeForm}
    (h : shapeForm? v fn n pointFirst = some form) :
    match fn with
    | .point => n = 2
    | .circle => n = 2 ∨ n = 3
    | .box => n = 3 ∨ n = 4
    | _ => True := by
  unfold shapeForm? at h
  cases fn <;> simp only at h ⊢ <;> grind

namespace Sql

/-! ### PostgreSQL alone -/

theorem postgres_exact : postgres.Exact (fun _ _ => True) fun _ => True where
  contents _ _ _ := trivial
  geometry _ := by simp [postgres]
  comparison _ := Dialect.succeeds_plainComparison

/-- Where every geometry call is lacking, the coordinate systems in them need no look. -/
theorem forall_contents_iff (p : Part) :
    (∀ c ∈ p.allContents, ¬ Lacks (fun _ _ => True) c) ↔ ∀ c ∈ p.all, ¬ Lacks (fun _ _ => True) c := by
  have below := wellFounded_of_shrinks Part.sizeOf_lt_of_mem_children
  induction p using below.induction with
  | h p ih =>
    rw [Part.allContents, Part.all, forall_mem_descent, forall_mem_descent]
    refine and_congr_right fun here => ?_
    obtain ⟨fn, sys, args, span, rfl⟩ | same := p.contents_eq
    · exact (here trivial).elim
    · rw [same]
      exact forall₂_congr ih

/-! ### PostgreSQL with pgSphere -/

namespace PgSphere

/-- A literal of a region that is one shape. -/
def IsShapeLiteral (arg : Operand) : Prop :=
  ∃ text r, arg.asString? = some text ∧ Region.parse text = .ok r ∧ r.kind ∉ [.union, .intersection, .not]

/-- The geometry calls without form: names of coordinate systems, and regions that are not literals
of one shape. -/
def NoForm (fn : GeometryFn) (args : List Operand) : Prop :=
  fn = .coordsys ∨ fn = .region ∧ ∃ arg ∈ args, ¬ IsShapeLiteral arg

theorem succeeds_region {r : Region} : Succeeds (region r) ↔ r.kind ∉ [.union, .intersection, .not] := by
  cases r with
  | combination op => cases op <;> simp [region, Region.kind, Combination.kind]
  | _ => simp [region, Region.kind]

theorem succeeds_regionLiteral {arg : Operand} : Succeeds (regionLiteral arg) ↔ IsShapeLiteral arg := by
  unfold regionLiteral IsShapeLiteral
  cases arg.asString? with
  | none => simp
  | some text => cases read : Region.parse text <;> simp [read, succeeds_region]

theorem succeeds_pairUp {l : List SqlText} (even : l.length % 2 = 0) :
    (∀ t ∈ pairUp l, Succeeds t) ↔ ∀ t ∈ l, Succeeds t := by
  induction l using pairUp.induct with
  | case1 x y rest ih =>
    have even : (rest.length + 2) % 2 = 0 := even
    have ih := ih (by omega)
    simp [pairUp, point, ih, and_assoc]
  | case2 l short =>
    match l, short with
    | [], _ => rfl
    | [_], _ => simp at even
    | x :: y :: rest, short => exact (short x y rest rfl).elim

theorem succeeds_polygon {args : List Operand} {operand : Operand → SqlText} :
    Succeeds (polygon (if isCoordinateList args then pairUp (args.map operand) else args.map operand)) ↔
      ∀ a ∈ args, Succeeds (operand a) := by
  have plain (l : List SqlText) : Succeeds (polygon l) ↔ ∀ t ∈ l, Succeeds t := by simp [polygon]
  rw [plain]
  split
  next coordinates =>
    have even : args.length % 2 = 0 := by
      simp only [isCoordinateList, Bool.and_eq_true, beq_iff_eq] at coordinates
      exact coordinates.1.2
    rw [succeeds_pairUp (by simpa using even), List.forall_mem_map]
  next => rw [List.forall_mem_map]

theorem succeeds_predicate {symbol call : String} {texts : List SqlText} (two : texts.length = 2) :
    Succeeds (predicate symbol call texts) ↔ ∀ t ∈ texts, Succeeds t := by
  obtain ⟨a, b, rfl⟩ := List.length_eq_two.1 two
  simp [predicate]

/-- How many arguments a geometry function takes. -/
theorem length_of_wellFormed {fn : GeometryFn} {sys : Option Operand} {args : List Operand} {span : Option Span}
    (formed : (Operand.geometry fn sys args span).WellFormed v) :
    match fn with
    | .point | .contains | .intersects => args.length = 2
    | .circle => args.length = 2 ∨ args.length = 3
    | .box => args.length = 3 ∨ args.length = 4
    | .distance => args.length = 2 ∨ args.length = 4
    | .polygon => True
    | _ => args.length = 1 := by
  obtain ⟨⟨-, rule⟩, -⟩ := formed
  cases fn with
  | point | circle | box | polygon =>
    obtain ⟨-, -, form, found, -⟩ := rule
    exact length_of_shapeForm found
  | distance => exact rule.2.imp And.left And.left
  | _ => exact rule.2.1

theorem succeeds_geometry {fn : GeometryFn} {sys : Option Operand} {args : List Operand} {span : Option Span}
    (formed : (Operand.geometry fn sys args span).WellFormed v) :
    Succeeds (geometry fn sys args (args.map pgSphere.operand)) ↔
      ¬ NoForm fn args ∧ ∀ a ∈ args, Succeeds (pgSphere.operand a) := by
  have arity := length_of_wellFormed formed
  -- The number of arguments is known from `formed`, so the writers that take other numbers of them are left out.
  cases fn with
  | polygon => simpa [geometry, NoForm] using succeeds_polygon
  | contains | intersects =>
    have two : (args.map pgSphere.operand).length = 2 := by simpa using arity
    simp [geometry, geometry.holds, NoForm, succeeds_predicate two]
  | point =>
    obtain ⟨x, y, rfl⟩ := List.length_eq_two.1 arity
    simp [geometry, point, NoForm]
  | circle =>
    obtain two | three := arity
    · obtain ⟨centre, radius, rfl⟩ := List.length_eq_two.1 two
      simp [geometry, circle, NoForm]
    · obtain ⟨x, y, radius, rfl⟩ := List.length_eq_three.1 three
      simp [geometry, circle, point, NoForm]
  | box =>
    obtain three | four := arity
    · obtain ⟨centre, width, height, rfl⟩ := List.length_eq_three.1 three
      simp [geometry, boxAt, NoForm]
    · obtain ⟨x, y, width, height, rfl⟩ : ∃ a b c d, args = [a, b, c, d] := by
        match args, four with
        | [a, b, c, d], _ => exact ⟨a, b, c, d, rfl⟩
      simp [geometry, boxAround, NoForm]
  | distance =>
    obtain two | four := arity
    · obtain ⟨a, b, rfl⟩ := List.length_eq_two.1 two
      simp [geometry, geometry.distance, NoForm]
    · obtain ⟨x, y, x', y', rfl⟩ : ∃ a b c d, args = [a, b, c, d] := by
        match args, four with
        | [a, b, c, d], _ => exact ⟨a, b, c, d, rfl⟩
      simp [geometry, geometry.distance, point, NoForm]
  | region =>
    obtain ⟨arg, rfl⟩ := List.length_eq_one_iff.1 arity
    have written (literal : IsShapeLiteral arg) : Succeeds (pgSphere.operand arg) := by
      obtain ⟨text, r, isString, -⟩ := literal
      cases arg <;> simp [Operand.asString?] at isString
      exact succeeds_ok _
    simpa [geometry, NoForm, succeeds_regionLiteral] using written
  | coordsys =>
    obtain ⟨arg, rfl⟩ := List.length_eq_one_iff.1 arity
    simp [geometry, NoForm]
  | area | centroid | coord1 | coord2 =>
    obtain ⟨arg, rfl⟩ := List.length_eq_one_iff.1 arity
    simp [geometry, NoForm]

theorem succeeds_of_asNumber {value : Operand} (number : value.asNumber?.isSome = true) :
    Succeeds (pgSphere.operand value) := by
  cases value with
  | numeric text span => exact succeeds_ok _
  | negative inner span =>
    simp only [Operand.asNumber?, Option.isSome_map] at number
    simpa [Dialect.operand] using succeeds_of_asNumber number
  | _ => cases number

theorem succeeds_of_asked {op : ComparisonOp} {value : Operand} {holds : Bool} (asked : asked? op value = some holds) :
    Succeeds (pgSphere.operand value) := by
  refine succeeds_of_asNumber ?_
  unfold asked? at asked
  split at asked <;> simp_all

/-- A predicate has a text if its call has one as a value. -/
theorem succeeds_predicateCall {o : Operand} {symbol call : String} {args : List Operand} (formed : o.WellFormed v)
    (found : predicateCall? o = some (symbol, call, args)) :
    Succeeds (predicate symbol call (args.map pgSphere.operand)) ↔ Succeeds (pgSphere.operand o) := by
  cases o with
  | geometry fn sys inner span =>
    have value := succeeds_geometry formed
    rw [← Dialect.operands_eq] at value
    have arity := length_of_wellFormed formed
    cases fn <;> simp [predicateCall?, predicateSymbol?] at found
    case contains | intersects =>
      obtain ⟨-, -, rfl⟩ := found
      refine Iff.trans ?_ value.symm
      rw [succeeds_predicate (by simpa using arity)]
      simp [NoForm]
  | _ => cases found

theorem succeeds_comparison {left right : Operand} {op : ComparisonOp} (hl : left.WellFormed v) (hr : right.WellFormed v) :
    Succeeds (comparison pgSphere.operand left op right) ↔
      Succeeds (pgSphere.operand left) ∧ Succeeds (pgSphere.operand right) := by
  have plain : Succeeds (plainComparison pgSphere.operand left op right) ↔ _ := Dialect.succeeds_plainComparison
  unfold comparison
  cases onLeft : predicateCall? left with
  | some found =>
    obtain ⟨symbol, call, args⟩ := found
    cases asked : asked? op right with
    | none => simpa only [asked] using plain
    | some holds => simp [asked, succeeds_predicateCall hl onLeft, succeeds_of_asked asked]
  | none =>
    cases onRight : predicateCall? right with
    | none => exact plain
    | some found =>
      obtain ⟨symbol, call, args⟩ := found
      cases asked : asked? op left with
      | none => simpa only [Option.map_some, asked] using plain
      | some holds => simp [asked, succeeds_predicateCall hr onRight, succeeds_of_asked asked]

end PgSphere

theorem pgSphere_exact : pgSphere.Exact PgSphere.NoForm (Part.WellFormed v) where
  contents formed c member := Part.WellFormed.children formed c (Part.contents_subset _ member)
  geometry formed := PgSphere.succeeds_geometry formed
  comparison formed := PgSphere.succeeds_comparison formed.2.1 formed.2.2

/-! ### Queries -/

/-- A query cannot be written exactly if the dialect lacks something in it: in PostgreSQL, geometry,
units and random numbers from a seed, wherever they stand in any tree; with pgSphere, in a query that
was read, only the geometry without form instead, wherever it stands but in the coordinate system of
a shape. -/
theorem query_error_iff :
    (∀ q, (∃ e, postgres.query q = .error e) ↔ ∃ c ∈ (Part.query q).all, Lacks (fun _ _ => True) c) ∧
    ∀ v text q, readQuery v text = .ok q →
      ((∃ e, pgSphere.query q = .error e) ↔ ∃ c ∈ (Part.query q).allContents, Lacks PgSphere.NoForm c) := by
  refine ⟨fun q => ?_, fun v text q read => pgSphere_exact.fails_iff (readQuery_wellFormed read)⟩
  have alike := not_congr (forall_contents_iff (.query q))
  rw [postgres_exact.fails_iff trivial]
  simpa using alike

/-- The argument of `REGION` is a literal of a shape, and the name of a coordinate system only stands
where one is not looked at. -/
theorem query_error_iff_read :
    let text := "SELECT POINT(LOWER('ICRS'), 1, 2) FROM t WHERE 1 = CONTAINS(p, REGION('CIRCLE 1 2 3'))"
    ∃ q, readQuery .v21 text = .ok q ∧
      ((∃ e, pgSphere.query q = .error e) ↔ ∃ c ∈ (Part.query q).allContents, Lacks PgSphere.NoForm c) := by
  intro text
  obtain ⟨q, read⟩ := exists_ok_of_isSome (r := readQuery .v21 text) (by decide +kernel)
  exact ⟨q, read, query_error_iff.2 .v21 text q read⟩

end Sql

end SkyQuery
