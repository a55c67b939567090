import SkyQuery.Proofs.Decimal.Characters
import SkyQuery.Proofs.Sql.Composed
import SkyQuery.Proofs.Sql.Expressible

/-!
# What no text for a database holds

A query that was read has no text in PostgreSQL, with pgSphere or without, that hides or takes in what
follows it, or that leaves a parenthesis open; without pgSphere its strings and delimited names are those
of the query (`Sql.query_tidy`).
-/

namespace SkyQuery.Sql

open Dialect

variable {v : Version} {track : Bool} {a b : String} {qs rs : List Quote} {x y z w : SqlText}

theorem writes_plainComparison {operand : Operand → SqlText} {left right : Operand} {op : ComparisonOp}
    (hl : Writes track (operand left) qs) (hr : Writes track (operand right) rs) :
    Writes track (plainComparison operand left op right) (qs ++ rs) :=
  hl.bind fun l tl => hr.bind fun r tr =>
    gives_ok ((((tl.link " " 0 (by decide)).word (tidy_comparisonOp op)).link " " 0 (by decide)).text tr)

theorem postgres_isTidy : postgres.IsTidy true v where
  identifier := rfl
  rows := rfl
  geometry _ _ := gives_unsupported _
  comparison operands left right := writes_plainComparison (operands _ left) (operands _ right)

/-! ### Geometry -/

/-- Where quotes are not looked at, any can be told. -/
theorem Tidy.untracked {o : Nat} (h : Tidy false a o qs) : Tidy false a o rs := ⟨h.safe, h.nests, nofun⟩

theorem Ready.untracked {o : Nat} (h : Ready false a o qs) : Ready false a o rs :=
  { h.toTidy.untracked with ends := h.ends }

theorem Gives.untracked (h : Writes false x qs) : Writes false x rs := fun text written => (h text written).untracked

namespace PgSphere

theorem writes_point (hx : Writes false x qs) (hy : Writes false y qs) : Writes false (point x y) qs := by
  refine hx.bind fun x tx => hy.bind fun y ty => gives_ok ?_
  have first := (Ready.start "spoint(RADIANS(" 2 (by decide)).text tx
  exact ((first.link "), RADIANS(" 2 (by decide)).text ty).close "))" 0 (by decide) |>.untracked

theorem writes_circle (hx : Writes false x qs) (hy : Writes false y qs) : Writes false (circle x y) qs := by
  refine hx.bind fun x tx => hy.bind fun y ty => gives_ok ?_
  have first := (Ready.start "scircle(" 1 (by decide)).text tx
  exact ((first.link ", RADIANS(" 2 (by decide)).text ty).close "))" 0 (by decide) |>.untracked

theorem tidy_box (ha : Tidy false a 0 qs) (hb : Tidy false b 0 qs) : Tidy false ("sbox(" ++ a ++ ", " ++ b ++ ")") 0 qs :=
  ((((Ready.start "sbox(" 1 (by decide)).text ha).link ", " 1 (by decide)).text hb).close ")" 0 (by decide) |>.untracked

theorem tidy_sign {sign : String} (h : sign ∈ ["-", "+"]) : Tidy track sign 0 [] := by
  obtain rfl | rfl : sign = "-" ∨ sign = "+" := by simpa using h
  · exact tidy_literal "-" (by decide)
  · exact tidy_literal "+" (by decide)

theorem writes_boxAround (hx : Writes false x qs) (hy : Writes false y qs) (hz : Writes false z qs)
    (hw : Writes false w qs) : Writes false (boxAround x y z w) qs := by
  refine hx.bind fun x tx => hy.bind fun y ty => hz.bind fun z tz => hw.bind fun w tw => gives_ok ?_
  have corner {sign : String} (h : sign ∈ ["-", "+"]) :
      Tidy false ("spoint(RADIANS((" ++ x ++ ") " ++ sign ++ " (" ++ z ++ ") / 2), RADIANS((" ++ y ++ ") " ++ sign ++
        " (" ++ w ++ ") / 2))") 0 qs := by
    have longitude := (((Ready.start "spoint(RADIANS((" 3 (by decide)).text tx).link ") " 2 (by decide)).word (tidy_sign h)
    have width := ((longitude.link " (" 3 (by decide)).text tz).link ") / 2), RADIANS((" 3 (by decide)
    have latitude := ((width.text ty).link ") " 2 (by decide)).word (tidy_sign h)
    exact ((latitude.link " (" 3 (by decide)).text tw).close ") / 2))" 0 (by decide) |>.untracked
  exact tidy_box (corner (by simp)) (corner (by simp))

theorem writes_boxAt (hx : Writes false x qs) (hy : Writes false y qs) (hz : Writes false z qs) :
    Writes false (boxAt x y z) qs := by
  refine hx.bind fun x tx => hy.bind fun y ty => hz.bind fun z tz => gives_ok ?_
  have corner {sign : String} (h : sign ∈ ["-", "+"]) :
      Tidy false ("spoint(long(" ++ x ++ ") " ++ sign ++ " RADIANS(" ++ y ++ ") / 2, lat(" ++ x ++ ") " ++ sign ++
        " RADIANS(" ++ z ++ ") / 2)") 0 qs := by
    have longitude := (((Ready.start "spoint(long(" 2 (by decide)).text tx).link ") " 1 (by decide)).word (tidy_sign h)
    have width := ((longitude.link " RADIANS(" 2 (by decide)).text ty).link ") / 2, lat(" 2 (by decide)
    have latitude := ((width.text tx).link ") " 1 (by decide)).word (tidy_sign h)
    exact ((latitude.link " RADIANS(" 2 (by decide)).text tz).close ") / 2)" 0 (by decide) |>.untracked
  exact tidy_box (corner (by simp)) (corner (by simp))

theorem writes_polygon {vertices : List SqlText} (h : ∀ t ∈ vertices, Writes false t qs) :
    Writes false (polygon vertices) qs := by
  have brace : Ready false "spoly('\x7b' || " 1 [.string "\x7b"] :=
    ((Ready.start "spoly(" 1 (by decide)).text (tidy_string "\x7b")).link " || " 1 (by decide)
  have comma {a : String} {qs : List Quote} (ha : Tidy false a 0 qs) : Ready false (a ++ " || ',' || ") 0 qs := by
    have whole := ((ha.link " || " 0 (by decide)).text (tidy_string ",")).link " || " 0 (by decide)
    rw [String.append_assoc, String.append_assoc] at whole
    exact whole.untracked
  rw [← List.map_id vertices]
  refine (gives_sequence h).bind fun texts each => gives_ok ?_
  have points : Tidy false _ 0 _ := tidy_joined comma each
  have whole := (((brace.text points).link " || " 1 (by decide)).text (tidy_string "\x7d")).close ")" 0 (by decide)
  rw [String.append_assoc, String.append_assoc] at whole
  exact whole.untracked

theorem writes_pairUp {texts : List SqlText} (h : ∀ t ∈ texts, Writes false t qs) :
    ∀ t ∈ pairUp texts, Writes false t qs := by
  fun_induction pairUp texts with
  | case1 x y rest ih =>
    obtain ⟨hx, hy, others⟩ : Writes false x qs ∧ Writes false y qs ∧ ∀ t ∈ rest, Writes false t qs := by simpa using h
    exact List.forall_mem_cons.2 ⟨writes_point hx hy, ih others⟩
  | case2 => simp

theorem writes_predicate {symbol call : String} {texts : List SqlText} (hsymbol : symbol ∈ ["@", "&&"])
    (h : ∀ t ∈ texts, Writes false t qs) : Writes false (predicate symbol call texts) qs := by
  fun_cases predicate symbol call texts with
  | case1 a b =>
    obtain ⟨ha, hb⟩ : Writes false a qs ∧ Writes false b qs := by simpa using h
    have operator : Tidy false symbol 0 [] := by
      obtain rfl | rfl : symbol = "@" ∨ symbol = "&&" := by simpa using hsymbol
      · exact tidy_literal "@" (by decide)
      · exact tidy_literal "&&" (by decide)
    refine ha.bind fun a ta => hb.bind fun b tb => gives_ok ?_
    exact (((ta.link " " 0 (by decide)).word operator).link " " 0 (by decide)).text tb |>.untracked
  | case2 => exact gives_unsupported _

/-! ### Regions -/

/-- A text without single quotes. -/
def Unquoted (text : String) : Prop := ∀ c ∈ text.toList, c ≠ '\''

theorem Unquoted.append (ha : Unquoted a) (hb : Unquoted b) : Unquoted (a ++ b) := by
  rw [Unquoted, String.toList_append, List.forall_mem_append]
  exact ⟨ha, hb⟩

theorem unquoted_join {texts : List String} (h : ∀ t ∈ texts, Unquoted t) : Unquoted (joinWith "," texts) := by
  unfold joinWith
  induction texts with
  | nil => simp [Unquoted]
  | cons t rest ih =>
    obtain ⟨here, others⟩ := List.forall_mem_cons.1 h
    cases rest with
    | nil => simpa using here
    | cons u rest =>
      rw [String.intercalate_cons_cons]
      exact (here.append (by simp [Unquoted])).append (ih others)

theorem unquoted_write (x : Float) : Unquoted (Region.numberFormat.write x) := by
  refine Region.numberFormat.forall_mem_write ?_ (by decide) (by decide) (by simp [Region.numberFormat]) x
  rintro c digit rfl
  cases digit

theorem unquoted_degrees (p : Point) : Unquoted (degrees p) := by
  have start : Unquoted "(" := by simp [Unquoted]
  have between : Unquoted "d," := by simp [Unquoted]
  have stop : Unquoted "d)" := by simp [Unquoted]
  exact (((start.append (unquoted_write p.x)).append between).append (unquoted_write p.y)).append stop

/-- A literal of a shape: the name of its type and a string. -/
theorem tidy_shape (type inner : String) {text : String} (opening : Ready false (type ++ " ") 0 []) (plain : Unquoted inner)
    (whole : text.toList = type.toList ++ " '".toList ++ inner.toList ++ ['\'']) : Tidy false text 0 qs := by
  have quoted : text = type ++ " " ++ Text.quoted '\'' inner :=
    String.toList_inj.1 (by simp [whole, Text.quoted, Text.doubled_of_forall plain])
  rw [quoted]
  exact (opening.text (tidy_string inner)).untracked

theorem writes_region (r : Region) : Writes false (region r) qs := by
  have comma : Unquoted "," := by simp [Unquoted]
  cases r with
  | position sys p => exact gives_ok (tidy_shape "spoint" (degrees p) (.start _ 0 (by decide)) (unquoted_degrees p) (by simp))
  | circle sys p radius =>
    have start : Unquoted "<" := by simp [Unquoted]
    have stop : Unquoted "d>" := by simp [Unquoted]
    have inner := (((start.append (unquoted_degrees p)).append comma).append (unquoted_write radius)).append stop
    exact gives_ok (tidy_shape "scircle" _ (.start _ 0 (by decide)) inner (by simp))
  | box sys p width height =>
    have start : Unquoted "(" := by simp [Unquoted]
    have stop : Unquoted ")" := by simp [Unquoted]
    have inner (a b : Point) := (((start.append (unquoted_degrees a)).append comma).append (unquoted_degrees b)).append stop
    have corners := inner ⟨p.x - width / 2, p.y - height / 2⟩ ⟨p.x + width / 2, p.y + height / 2⟩
    exact gives_ok (tidy_shape "sbox" _ (.start _ 0 (by decide)) corners (by simp))
  | polygon sys first second third others =>
    have start : Unquoted "\x7b" := by simp [Unquoted]
    have stop : Unquoted "\x7d" := by simp [Unquoted]
    have points : ∀ t ∈ (first :: second :: third :: others).map degrees, Unquoted t := by
      rw [List.forall_mem_map]
      exact fun p _ => unquoted_degrees p
    have inner := (start.append (unquoted_join points)).append stop
    exact gives_ok (tidy_shape "spoly" _ (.start _ 0 (by decide)) inner (by simp))
  | combination op | not inner => exact gives_unsupported _

theorem writes_regionLiteral (arg : Operand) : Writes false (regionLiteral arg) qs := by
  unfold regionLiteral
  split
  · exact gives_unsupported _
  · split
    · exact writes_region _
    · rintro text ⟨⟩

/-! ### Functions -/

theorem writes_holds {fn : GeometryFn} {sys : Option Operand} {args : List Operand} {symbol : String} {texts : List SqlText}
    (hsymbol : symbol ∈ ["@", "&&"]) (h : ∀ t ∈ texts, Writes false t qs) :
    Writes false (geometry.holds fn sys args symbol texts) qs :=
  (writes_predicate hsymbol h).between "CAST((" 2 ") AS INTEGER)" (by decide) (by decide)

theorem writes_distance (hx : Writes false x qs) (hy : Writes false y qs) : Writes false (geometry.distance x y) qs := by
  refine hx.bind fun x tx => hy.bind fun y ty => gives_ok ?_
  have opening := ((Ready.start "DEGREES(" 1 (by decide)).text tx).link " <-> " 1 (by decide)
  exact (opening.text ty).close ")" 0 (by decide) |>.untracked

theorem writes_geometry {fn : GeometryFn} {sys : Option Operand} {args : List Operand} {texts : List SqlText}
    (h : ∀ t ∈ texts, Writes false t qs) : Writes false (geometry fn sys args texts) qs := by
  fun_cases geometry fn sys args texts with
  | case1 => exact writes_point (h _ (by simp)) (h _ (by simp))
  | case2 => exact writes_circle (h _ (by simp)) (h _ (by simp))
  | case3 => exact writes_circle (writes_point (h _ (by simp)) (h _ (by simp))) (h _ (by simp))
  | case4 => exact writes_boxAround (h _ (by simp)) (h _ (by simp)) (h _ (by simp)) (h _ (by simp))
  | case5 => exact writes_boxAt (h _ (by simp)) (h _ (by simp)) (h _ (by simp))
  | case6 =>
    refine writes_polygon ?_
    split
    · exact writes_pairUp h
    · exact h
  | case7 => exact writes_holds (by simp) h
  | case8 => exact writes_holds (by simp) h
  | case9 => exact writes_distance (h _ (by simp)) (h _ (by simp))
  | case10 =>
    exact writes_distance (writes_point (h _ (by simp)) (h _ (by simp))) (writes_point (h _ (by simp)) (h _ (by simp)))
  | case11 =>
    exact (h _ (List.mem_singleton_self _)).between "DEGREES(DEGREES(area(" 3 ")))" (by decide) (by decide)
  | case12 =>
    exact (h _ (List.mem_singleton_self _)).between "center(" 1 ")" (by decide) (by decide)
  | case13 =>
    exact (h _ (List.mem_singleton_self _)).between "DEGREES(long(" 2 "))" (by decide) (by decide)
  | case14 =>
    exact (h _ (List.mem_singleton_self _)).between "DEGREES(lat(" 2 "))" (by decide) (by decide)
  | case15 => exact writes_regionLiteral _
  | case16 => exact gives_unsupported _
  | case17 => exact gives_unsupported _

/-! ### Comparisons -/

theorem writes_predicateCall {operand : Operand → SqlText} {o : Operand} {symbol call : String} {args : List Operand}
    (operands : ∀ o, o.WellFormed v → Writes false (operand o) qs) (formed : o.WellFormed v)
    (found : predicateCall? o = some (symbol, call, args)) : Writes false (predicate symbol call (args.map operand)) qs := by
  cases o with
  | geometry fn sys inner span =>
    obtain ⟨-, parts⟩ := formed
    simp only [predicateCall?, Option.map_eq_some_iff, Prod.mk.injEq] at found
    obtain ⟨symbol, known, rfl, -, rfl⟩ := found
    have hsymbol : symbol ∈ ["@", "&&"] := by cases fn <;> simp_all [predicateSymbol?]
    exact writes_predicate hsymbol (List.forall_mem_map.2 fun a member =>
      operands a (parts a (List.mem_append_right _ member)))
  | _ => cases found

theorem writes_asked (h : Writes false x qs) (holds : Bool) :
    Writes false (do let text ← x; return if holds then text else "NOT (" ++ text ++ ")") qs := by
  cases holds with
  | true => exact h.bind fun text tidy => gives_ok tidy
  | false => exact h.between "NOT (" 1 ")" (by decide) (by decide)

theorem writes_comparison {operand : Operand → SqlText} {left right : Operand} {op : ComparisonOp}
    (operands : ∀ o, o.WellFormed v → Writes false (operand o) qs) (hl : left.WellFormed v) (hr : right.WellFormed v) :
    Writes false (comparison operand left op right) qs := by
  have plain : Writes false (plainComparison operand left op right) qs :=
    (writes_plainComparison (operands left hl) (operands right hr)).untracked
  unfold comparison
  cases onLeft : predicateCall? left with
  | some found =>
    obtain ⟨symbol, call, args⟩ := found
    cases asks : asked? op right with
    | none => simpa only [asks] using plain
    | some holds => simpa only [asks] using writes_asked (writes_predicateCall operands hl onLeft) holds
  | none =>
    cases onRight : predicateCall? right with
    | none => exact plain
    | some found =>
      obtain ⟨symbol, call, args⟩ := found
      cases asks : asked? op left with
      | none => simpa only [Option.map_some, asks] using plain
      | some holds => simpa only [Option.map_some, asks] using writes_asked (writes_predicateCall operands hr onRight) holds

end PgSphere

theorem pgSphere_isTidy : pgSphere.IsTidy false v where
  identifier := rfl
  rows := rfl
  geometry _ args := by
    refine PgSphere.writes_geometry (List.forall_mem_map.2 fun a member => ?_)
    exact (args a member).untracked
  comparison operands left right := PgSphere.writes_comparison (fun o formed => (operands o formed).untracked) left right

/-! ### Queries -/

/-- No token of a text hides or takes in what follows it or is outside ASCII, and every parenthesis is
closed that is opened. -/
def IsSafe (sql : String) : Prop :=
  (∀ t ∈ Lexer.lex sql, t.kind ∉ [.comment, .openString, .openIdent, .nonAscii]) ∧
    openAfter 0 ((Lexer.lex sql).map Token.kind) = some 0

/-- What the tokens of a text quote. -/
def quotesIn (sql : String) : List Quote := (Lexer.lex sql).filterMap fun t => Quote.ofWord? t.word

theorem Tidy.isSafe (h : Tidy track a 0 qs) : IsSafe a := by
  obtain ⟨safe, nests, -⟩ := h.lex
  refine ⟨fun t member listed => ?_, nests⟩
  have plain := safe t member
  simp only [List.mem_cons, List.not_mem_nil, or_false] at listed
  obtain kind | kind | kind | kind := listed <;> rw [kind] at plain <;> cases plain

/-- The texts of a query that was read are safe in PostgreSQL, with pgSphere or without; without it, they
quote the strings and the delimited names of the query, in the same order. -/
theorem query_tidy {text : String} {q : Query} (read : readQuery v text = .ok q) :
    (∀ d ∈ [postgres, pgSphere], ∀ sql, d.query q = .ok sql → IsSafe sql) ∧
      ∀ sql, postgres.query q = .ok sql → quotesIn sql = q.quotes := by
  have formed : (Part.query q).WellFormed v := readQuery_wellFormed read
  have alone := postgres_isTidy.part formed
  have extended := pgSphere_isTidy.part formed
  refine ⟨?_, fun sql written => (alone sql written).lex.2.2 rfl⟩
  simp only [List.forall_mem_cons, List.not_mem_nil, false_implies, implies_true, and_true]
  exact ⟨fun sql written => (alone sql written).isSafe, fun sql written => (extended sql written).isSafe⟩

/-- Two signs, and quotes inside a string and a name. -/
theorem query_tidy_signs :
    let text := "SELECT - -a, 'it''s' FROM \"s\"\"t\""
    let sql := "SELECT -(-a), 'it''s'\nFROM \"s\"\"t\""
    ∃ q, readQuery .v20 text = .ok q ∧ postgres.query q = .ok sql ∧ IsSafe sql ∧ quotesIn sql = q.quotes := by
  intro text sql
  have found : (readQuery .v20 text).toOption.map (fun q => (postgres.query q).toOption) = some (some sql) := by
    decide +kernel
  cases read : readQuery .v20 text with
  | error e => simp [read, Except.toOption] at found
  | ok q =>
    cases written : postgres.query q with
    | error e => simp [read, written, Except.toOption] at found
    | ok text' =>
      obtain rfl : text' = sql := by simpa [read, written, Except.toOption] using found
      obtain ⟨safe, quotes⟩ := query_tidy read
      exact ⟨q, rfl, written, safe _ (by simp) _ written, quotes _ written⟩

end SkyQuery.Sql
