import Mathlib
import SkyQuery.Proofs.Check.Complete
import SkyQuery.Proofs.Sql.Expressible

/-!
# Polygons in pgSphere

Reading a polygon tells whether its arguments are coordinates or points. Writing it for pgSphere tells
so again, from another rule: coordinates come in pairs, three pairs at least, and none of them is the
call of a geometry function. `Sql.polygon_written_iff` says when both come to the same.
-/

namespace SkyQuery

open Grammar Sql

variable {v : Version}

/-- The vertices of a polygon whose arguments were read in a form. -/
def Grammar.ShapeForm.vertices : ShapeForm → List SqlText → List SqlText
  | .numbers, texts => PgSphere.pairUp texts
  | _, texts => texts

/-- Whether the form of a polygon can be told from the number of its arguments and from which of them
are calls of geometry functions. -/
def Grammar.ShapeForm.Shows : ShapeForm → List Operand → Prop
  | .numbers, args => ∀ a ∈ args, PgSphere.isGeometryCall a = false
  | _, args => args.length < 6 ∨ args.length % 2 = 1 ∨ ∃ a ∈ args, PgSphere.isGeometryCall a = true

/-- A polygon has coordinates, at least three pairs of them, or at least three points. -/
theorem Grammar.polygon_of_shapeForm {n : Nat} {pointFirst : Bool} {form : ShapeForm}
    (h : shapeForm? v .polygon n pointFirst = some form) :
    form = .numbers ∧ 6 ≤ n ∧ n % 2 = 0 ∨ form = .points ∧ 3 ≤ n := by
  unfold shapeForm? at h
  grind

namespace Sql

theorem length_joinWith (separator first : String) (others : List String) :
    (joinWith separator (first :: others)).length =
      ((first :: others).map String.length).sum + others.length * separator.length := by
  unfold joinWith
  induction others generalizing first with
  | nil => simp
  | cons second others ih =>
    rw [String.intercalate_cons_cons, String.length_append, String.length_append, ih, List.length_cons,
      Nat.succ_mul, List.map_cons (a := first), List.sum_cons]
    omega

theorem exists_texts {l : List SqlText} (h : ∀ t ∈ l, Succeeds t) : ∃ texts : List String, l = texts.map .ok := by
  induction l with
  | nil => exact ⟨[], rfl⟩
  | cons t rest ih =>
    obtain ⟨⟨first, rfl⟩, others⟩ := List.forall_mem_cons.1 h
    obtain ⟨texts, rfl⟩ := ih others
    exact ⟨first :: texts, rfl⟩

theorem sequence_ok (texts : List String) : Dialect.sequence (texts.map .ok) = .ok texts := by
  induction texts with
  | nil => rfl
  | cons first rest ih =>
    rw [List.map_cons, Dialect.sequence, ih]
    rfl

namespace PgSphere

theorem polygon_ok (texts : List String) :
    polygon (texts.map .ok) = .ok ("spoly('\x7b' || " ++ joinWith " || ',' || " texts ++ " || '\x7d')") := by
  rw [polygon, sequence_ok]
  rfl

/-- The first coordinate without text is missed in a list of pairs, too. -/
theorem sequence_pairUp {l : List SqlText} {e : Inexpressible} (even : l.length % 2 = 0)
    (h : Dialect.sequence l = .error e) : Dialect.sequence (pairUp l) = .error e := by
  induction l using pairUp.induct with
  | case1 x y rest ih =>
    have even : (rest.length + 2) % 2 = 0 := even
    cases x with
    | error e' => exact h
    | ok a =>
      cases y with
      | error e' => exact h
      | ok b =>
        cases others : Dialect.sequence rest with
        | ok texts =>
          simp only [Dialect.sequence, others] at h
          cases h
        | error e' =>
          simp only [Dialect.sequence, others] at h
          cases h
          rw [pairUp, Dialect.sequence, ih (by omega) others]
          rfl
  | case2 l short =>
    obtain _ | ⟨x, _ | ⟨y, rest⟩⟩ := l
    · cases h
    · cases even
    · exact (short x y rest rfl).elim

/-- A pair of coordinates is longer than both together. -/
theorem exists_pairs {texts : List String} (even : texts.length % 2 = 0) :
    ∃ pairs : List String, pairUp (texts.map .ok) = pairs.map .ok ∧ pairs.length * 2 = texts.length ∧
      (pairs.map String.length).sum = (texts.map String.length).sum + 28 * pairs.length := by
  obtain ⟨n, size⟩ : ∃ n, texts.length = n * 2 := ⟨texts.length / 2, by omega⟩
  clear even
  induction n generalizing texts with
  | zero =>
    obtain rfl := List.length_eq_zero_iff.1 size
    exact ⟨[], rfl, rfl, rfl⟩
  | succ n ih =>
    obtain _ | ⟨x, _ | ⟨y, rest⟩⟩ := texts
    · simp at size
    · simp at size
      omega
    · have size : rest.length + 2 = (n + 1) * 2 := size
      obtain ⟨pairs, paired, count, total⟩ := ih (show rest.length = n * 2 by omega)
      refine ⟨("spoint(RADIANS(" ++ x ++ "), RADIANS(" ++ y ++ "))") :: pairs, ?_, ?_, ?_⟩
      · rw [List.map_cons, List.map_cons, pairUp, paired]
        rfl
      · simp only [List.length_cons]
        omega
      · have brackets : "spoint(RADIANS(".length = 15 ∧ "), RADIANS(".length = 11 ∧ "))".length = 2 := by decide
        simp only [List.map_cons, List.sum_cons, List.length_cons, String.length_append, total, brackets]
        omega

/-- Coordinates as pairs and coordinates as points make the same polygon only if there is none. -/
theorem polygon_pairUp_iff {l : List SqlText} (some : l ≠ []) (even : l.length % 2 = 0) :
    polygon (pairUp l) = polygon l ↔ ∃ t ∈ l, ¬ Succeeds t := by
  constructor
  · intro same
    by_contra written
    obtain ⟨texts, rfl⟩ := exists_texts (fun t member => by_contra fun fails => written ⟨t, member, fails⟩)
    obtain ⟨pairs, paired, count, total⟩ := exists_pairs (show texts.length % 2 = 0 by simpa using even)
    obtain _ | ⟨first, others⟩ := texts
    · exact some rfl
    obtain _ | ⟨pair, pairs⟩ := pairs
    · cases count
    -- a pair adds 28 characters and saves one separator of 11, so the texts have different lengths
    rw [paired, polygon_ok, polygon_ok, Except.ok.injEq] at same
    have lengths := congrArg String.length same
    have separator : " || ',' || ".length = 11 := by decide
    simp only [String.length_append, length_joinWith, total, separator, List.length_cons] at lengths count
    omega
  · rintro ⟨t, member, fails⟩
    have none : ¬ Succeeds (Dialect.sequence l) := fun written => fails (succeeds_sequence.1 written t member)
    obtain ⟨e, he⟩ := not_succeeds_iff.1 none
    rw [polygon, polygon, he, sequence_pairUp even he]

end PgSphere

/-- A form shows if the arguments are taken for coordinates exactly where they were read so. -/
theorem shows_iff {pointFirst : Bool} {form : ShapeForm} {args : List Operand}
    (h : shapeForm? v .polygon args.length pointFirst = some form) :
    form.Shows args ↔ PgSphere.isCoordinateList args = decide (form = .numbers) := by
  obtain ⟨rfl, many, even⟩ | ⟨rfl, -⟩ := polygon_of_shapeForm h
  · simp [PgSphere.isCoordinateList, ShapeForm.Shows, many, even]
  · simp only [PgSphere.isCoordinateList, ShapeForm.Shows, show decide (ShapeForm.points = .numbers) = false from rfl]
    rw [Bool.and_eq_false_iff, Bool.and_eq_false_iff, List.all_eq_false, or_assoc]
    simp

/-- Where the two rules differ there are coordinates in pairs to choose between. -/
theorem pairs_of_not_shows {pointFirst : Bool} {form : ShapeForm} {args : List Operand}
    (h : shapeForm? v .polygon args.length pointFirst = some form) (other : ¬ form.Shows args) :
    6 ≤ args.length ∧ args.length % 2 = 0 := by
  obtain ⟨rfl, many, even⟩ | ⟨rfl, -⟩ := polygon_of_shapeForm h
  · exact ⟨many, even⟩
  · simp only [ShapeForm.Shows, not_or] at other
    omega

/-- A polygon of a query that was read is written from the form in which its arguments were read exactly
if the form shows, or if an argument has no text and the polygon has none, too. -/
theorem polygon_written_iff {text : String} {q : Query} {sys : Option Operand} {args : List Operand} {span : Option Span}
    (read : readQuery v text = .ok q) (member : .operand (.geometry .polygon sys args span) ∈ (Part.query q).all) :
    ∃ form, shapeForm? v .polygon args.length ((args.head?.map isPointLike).getD false) = some form ∧ form.Takes args ∧
      (pgSphere.operand (.geometry .polygon sys args span) =
          PgSphere.polygon (form.vertices (args.map pgSphere.operand)) ↔
        (∃ a ∈ args, ¬ Succeeds (pgSphere.operand a)) ∨ form.Shows args) := by
  obtain ⟨⟨-, rule⟩, -⟩ := Part.WellFormed.all (p := .query q) (readQuery_wellFormed read) _ member
  obtain ⟨-, -, form, found, takes⟩ := rule
  refine ⟨form, found, takes, ?_⟩
  have polygonal : form = .numbers ∨ form = .points := (polygon_of_shapeForm found).imp And.left And.left
  have written : pgSphere.operand (.geometry .polygon sys args span) = PgSphere.polygon
      (if PgSphere.isCoordinateList args then PgSphere.pairUp (args.map pgSphere.operand)
        else args.map pgSphere.operand) := by
    rw [Dialect.operand, Dialect.operands_eq]
    rfl
  rw [written]
  by_cases shows : form.Shows args
  · rw [(shows_iff found).1 shows]
    obtain rfl | rfl := polygonal
    · exact iff_of_true rfl (.inr shows)
    · exact iff_of_true rfl (.inr shows)
  -- Where the form does not show, the writer takes the other one: pairs for points, or points for pairs.
  · obtain ⟨many, even⟩ := pairs_of_not_shows found shows
    have differs := PgSphere.polygon_pairUp_iff (l := args.map pgSphere.operand)
      (by simpa using List.ne_nil_of_length_pos (by omega)) (by simpa using even)
    rw [or_iff_left shows]
    rw [shows_iff found] at shows
    obtain rfl | rfl := polygonal
    · rw [if_neg (by simpa using shows), eq_comm]
      simpa [ShapeForm.vertices] using differs
    · rw [if_pos (by simpa using shows)]
      simpa [ShapeForm.vertices] using differs

theorem polygon_of_feature {o : Operand} (h : o.feature? = some (.standard .geometry "POLYGON")) :
    ∃ sys args span, o = .geometry .polygon sys args span := by
  cases o with
  | geometry fn sys args span =>
    have named : fn.name = "POLYGON" := by simpa [Operand.feature?, Feature.standard] using h
    cases fn with
    | polygon => exact ⟨sys, args, span, rfl⟩
    | _ => exact absurd named (by decide)
  | _ => simp [Operand.feature?, Feature.standard, Feature.ofCall] at h

/-- A point first shows that all arguments are points, however many there are. -/
theorem polygon_written_iff_points :
    let text := "SELECT POLYGON(POINT(1, 2), a, b, c, d, e) FROM t"
    ∃ q sys args span, readQuery .v21 text = .ok q ∧ .operand (.geometry .polygon sys args span) ∈ (Part.query q).all ∧
      ∃ form, shapeForm? .v21 .polygon args.length ((args.head?.map isPointLike).getD false) = some form ∧
        form.Takes args ∧
        (pgSphere.operand (.geometry .polygon sys args span) =
            PgSphere.polygon (form.vertices (args.map pgSphere.operand)) ↔
          (∃ a ∈ args, ¬ Succeeds (pgSphere.operand a)) ∨ form.Shows args) := by
  intro text
  have found : ((readQuery .v21 text).toOption.bind fun q => (Fragment.query q).operands.find? fun o =>
      o.feature? == some (.standard .geometry "POLYGON")).isSome = true := by decide +kernel
  obtain ⟨o, found⟩ := Option.isSome_iff_exists.1 found
  obtain ⟨q, read, found⟩ := Option.bind_eq_some_iff.1 found
  rw [toOption_eq_some_iff] at read
  obtain ⟨sys, args, span, rfl⟩ := polygon_of_feature (eq_of_beq (List.find?_eq_some_iff_append.1 found).1)
  have member := List.mem_of_find?_eq_some found
  rw [Query.operands_eq, List.mem_filterMap] at member
  obtain ⟨p, visited, here⟩ := member
  cases p with
  | operand o =>
    cases here
    have below := Part.mem_all_of_mem_walk visited
    exact ⟨q, sys, args, span, read, below, polygon_written_iff read below⟩
  | _ => cases here

/-- Coordinates that functions give are written as points, and points in parentheses as coordinates. -/
theorem polygon_misread :
    (readQuery .v21 "SELECT POLYGON(COORD1(p), COORD2(p), 1, 2, 3, 4) FROM t").toOption.map pgSphere.query =
      some (.ok ("SELECT spoly('\x7b' || DEGREES(long(p)) || ',' || DEGREES(lat(p)) || ',' || 1 || ',' || 2 || ',' || " ++
        "3 || ',' || 4 || '\x7d')\nFROM t")) ∧
    (readQuery .v21 "SELECT POLYGON((POINT(1, 2)), a, b, c, d, e) FROM t").toOption.map pgSphere.query =
      some (.ok ("SELECT spoly('\x7b' || spoint(RADIANS((spoint(RADIANS(1), RADIANS(2)))), RADIANS(a)) || ',' || " ++
        "spoint(RADIANS(b), RADIANS(c)) || ',' || spoint(RADIANS(d), RADIANS(e)) || '\x7d')\nFROM t")) := by
  decide +kernel

end Sql

end SkyQuery
