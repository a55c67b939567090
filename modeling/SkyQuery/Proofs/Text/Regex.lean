import Mathlib.Computability.Language
import SkyQuery.Text.Regex

/-!
# What regular expressions match

`Writes s texts` says what a piece `s` of notation adds to an expression without regard to letter case:
after what was matched before it, a text of the language `texts`. Literals write themselves
(`writes_literal`), a group writes any of its alternatives (`writes_group`), and the expression for a
whole text matches exactly the texts of its alternatives (`parse?_whole`).
-/

namespace SkyQuery.Regex

/-! ### Places in a text -/

/-- The text `t` stands between two places. -/
structure Cursor.Passes (p : Cursor) (t : List Char) (q : Cursor) : Prop where
  rest : p.rest = t ++ q.rest
  atStart : q.atStart = (p.atStart && t.isEmpty)

theorem passes_nil {p q : Cursor} : p.Passes [] q ↔ q = p := by
  obtain ⟨start, left⟩ := p
  obtain ⟨start', left'⟩ := q
  constructor
  · rintro ⟨rest, atStart⟩
    simp_all
  · rintro ⟨⟩
    exact ⟨rfl, by simp⟩

theorem passes_append {p q : Cursor} {t u : List Char} :
    p.Passes (t ++ u) q ↔ ∃ m, p.Passes t m ∧ m.Passes u q := by
  constructor
  · rintro ⟨rest, atStart⟩
    exact ⟨⟨p.atStart && t.isEmpty, u ++ q.rest⟩, ⟨by simpa using rest, rfl⟩, rfl, by cases t <;> simp_all⟩
  · rintro ⟨m, first, second⟩
    constructor
    · rw [first.rest, second.rest, List.append_assoc]
    · rw [second.atStart, first.atStart]
      cases t <;> simp

/-! ### Matches -/

variable {p q : Cursor} {first second : Regex}

theorem mem_ends_seq : q ∈ (seq first second).ends p ↔ ∃ m ∈ first.ends p, q ∈ second.ends m := by
  simp [ends]

theorem mem_ends_either : q ∈ (either first second).ends p ↔ q ∈ first.ends p ∨ q ∈ second.ends p := by
  simp [ends]

theorem mem_ends_char {c : Char} {anyCase : Bool} :
    q ∈ (char c anyCase).ends p ↔ ∃ d, sameChar anyCase c d = true ∧ p.Passes [d] q := by
  obtain ⟨start, left⟩ := p
  obtain ⟨start', left'⟩ := q
  cases left with
  | nil =>
    constructor
    · intro member
      cases member
    · rintro ⟨d, -, rest, -⟩
      cases rest
  | cons d rest =>
    simp only [ends]
    split
    · rename_i same
      rw [List.mem_singleton]
      constructor
      · rintro ⟨⟩
        exact ⟨d, same, rfl, by simp⟩
      · rintro ⟨d', -, rest', atStart⟩
        cases rest'
        simp_all
    · rename_i other
      constructor
      · intro member
        cases member
      · rintro ⟨d', same, rest', -⟩
        cases rest'
        exact absurd same other

theorem isMatchFrom_iff {e : Regex} {start : Bool} {cs : List Char} :
    e.isMatchFrom start cs = true ↔ ∃ u v q, cs = u ++ v ∧ q ∈ e.ends ⟨start && u.isEmpty, v⟩ := by
  have found (p : Cursor) : (!(e.ends p).isEmpty) = true ↔ ∃ q, q ∈ e.ends p := by
    cases e.ends p <;> simp
  induction cs generalizing start with
  | nil =>
    rw [isMatchFrom, found]
    constructor
    · rintro ⟨q, member⟩
      exact ⟨[], [], q, rfl, by simpa using member⟩
    · rintro ⟨u, v, q, empty, member⟩
      obtain ⟨rfl, rfl⟩ := List.append_eq_nil_iff.1 empty.symm
      exact ⟨q, by simpa using member⟩
  | cons c rest ih =>
    rw [isMatchFrom, Bool.or_eq_true, found]
    constructor
    · rintro (⟨q, member⟩ | later)
      · exact ⟨[], c :: rest, q, rfl, by simpa using member⟩
      · obtain ⟨u, v, q, rfl, member⟩ := ih.1 later
        exact ⟨c :: u, v, q, rfl, by simpa using member⟩
    · rintro ⟨u, v, q, whole, member⟩
      cases u with
      | nil =>
        obtain rfl : c :: rest = v := whole
        exact .inl ⟨q, by simpa using member⟩
      | cons d u =>
        obtain ⟨rfl, rfl⟩ := List.cons.inj whole
        exact .inr (ih.2 ⟨u, v, q, rfl, by simpa using member⟩)

/-! ### Literals -/

/-- The notation `s`, where letter case is ignored, adds the texts of a language. -/
def Writes (s : List Char) (texts : Language Char) : Prop :=
  ∀ (g : Group) (outer : List Group) (rest : List Char), g.anyCase = true →
    ∃ e, readFrom (s ++ rest) g outer = readFrom rest { g with last := e } outer ∧
      ∀ p q, q ∈ e.ends p ↔ ∃ m ∈ g.last.ends p, ∃ t ∈ texts, m.Passes t q

theorem writes_nil : Writes [] 1 := by
  intro g outer rest _
  refine ⟨g.last, rfl, fun p q => ?_⟩
  simp [Language.mem_one, passes_nil]

theorem Writes.append {s s' : List Char} {texts texts' : Language Char} (h : Writes s texts)
    (h' : Writes s' texts') : Writes (s ++ s') (texts * texts') := by
  intro g outer rest ignores
  obtain ⟨e, read, ends⟩ := h g outer (s' ++ rest) ignores
  obtain ⟨e', read', ends'⟩ := h' { g with last := e } outer rest ignores
  refine ⟨e', by rw [List.append_assoc, read, read'], fun p q => ?_⟩
  rw [ends']
  constructor
  · rintro ⟨m, member, u, hu, second⟩
    obtain ⟨n, before, t, ht, first⟩ := (ends p m).1 member
    exact ⟨n, before, t ++ u, Language.append_mem_mul ht hu, passes_append.2 ⟨m, first, second⟩⟩
  · rintro ⟨n, before, _, both, passes⟩
    obtain ⟨t, ht, u, hu, rfl⟩ := Language.mem_mul.1 both
    obtain ⟨m, first, second⟩ := passes_append.1 passes
    exact ⟨m, (ends p m).2 ⟨n, before, t, ht, first⟩, u, hu, second⟩

/-- The texts that are equal to one up to letter case. -/
def spelled (w : List Char) : Language Char := {t | t.map Char.toLower = w.map Char.toLower}

theorem mem_spelled {w t : List Char} : t ∈ spelled w ↔ t.map Char.toLower = w.map Char.toLower := Iff.rfl

theorem spelled_nil : spelled [] = 1 := by
  ext t
  rw [mem_spelled, Language.mem_one, List.map_nil, List.map_eq_nil_iff]

theorem spelled_append (a b : List Char) : spelled (a ++ b) = spelled a * spelled b := by
  ext t
  rw [Language.mem_mul, mem_spelled, List.map_append, List.map_eq_append_iff]
  constructor
  · rintro ⟨x, y, rfl, hx, hy⟩
    exact ⟨x, hx, y, hy, rfl⟩
  · rintro ⟨x, hx, y, hy, rfl⟩
    exact ⟨x, y, rfl, hx, hy⟩

/-- The characters that stand for themselves. -/
def IsLiteral (c : Char) : Prop := c ∉ ['(', ')', '|', '^', '$'] ∧ isReserved c = false

instance : DecidablePred IsLiteral := fun c =>
  inferInstanceAs (Decidable (c ∉ ['(', ')', '|', '^', '$'] ∧ isReserved c = false))

theorem literal_of_all {cs : List Char} (h : cs.all (fun c => decide (IsLiteral c)) = true) : ∀ c ∈ cs, IsLiteral c :=
  fun c member => of_decide_eq_true (List.all_eq_true.1 h c member)

theorem readFrom_literal {c : Char} (literal : IsLiteral c) (g : Group) (outer : List Group) (rest : List Char) :
    readFrom (c :: rest) g outer = readFrom rest (g.add (.char c g.anyCase)) outer := by
  obtain ⟨plain, known⟩ := literal
  simp only [List.mem_cons, List.not_mem_nil, or_false, not_or] at plain
  obtain ⟨opening, closing, bar, start, stop⟩ := plain
  rw [readFrom.eq_def]
  simp only [if_neg opening, if_neg closing, if_neg bar, known, Bool.false_eq_true, if_false, Group.sign, if_neg start,
    if_neg stop]

theorem writes_char {c : Char} (literal : IsLiteral c) : Writes [c] (spelled [c]) := by
  intro g outer rest ignores
  refine ⟨.seq g.last (.char c g.anyCase), readFrom_literal literal g outer rest, fun p q => ?_⟩
  · have same (d : Char) : sameChar true c d = true ↔ d.toLower = c.toLower := by
      simp only [sameChar, Bool.true_and, Bool.or_eq_true, beq_iff_eq]
      constructor
      · rintro (rfl | same)
        · rfl
        · exact same.symm
      · exact fun same => .inr same.symm
    simp only [mem_ends_seq, mem_ends_char, ignores, same]
    constructor
    · rintro ⟨m, member, d, lower, passes⟩
      exact ⟨m, member, [d], by simp [mem_spelled, lower], passes⟩
    · rintro ⟨m, member, t, ht, passes⟩
      obtain ⟨d, rfl, lower⟩ := List.map_eq_singleton_iff.1 (mem_spelled.1 ht)
      exact ⟨m, member, d, lower, passes⟩

theorem writes_literal {w : List Char} (literal : ∀ c ∈ w, IsLiteral c) : Writes w (spelled w) := by
  induction w with
  | nil =>
    rw [spelled_nil]
    exact writes_nil
  | cons c w ih =>
    obtain ⟨first, others⟩ := List.forall_mem_cons.1 literal
    have both := (writes_char first).append (ih others)
    rwa [← spelled_append] at both

/-! ### Groups -/

section Alternatives

variable {α : Type} {source : α → String} {texts : α → Language Char} {as : List α}

/-- Alternatives are added to those before the last bar. -/
theorem readFrom_alternatives (nonempty : as ≠ []) (h : ∀ a ∈ as, Writes (source a).toList (texts a))
    (before : Option Regex) (outer : List Group) (rest : List Char) :
    ∃ g, readFrom ((String.intercalate "|" (as.map source)).toList ++ rest) { before, anyCase := true } outer =
        readFrom rest g outer ∧
      ∀ p q, q ∈ g.close.ends p ↔
        (∃ e ∈ before, q ∈ e.ends p) ∨ ∃ a ∈ as, ∃ t ∈ texts a, p.Passes t q := by
  -- `before` holds the alternatives up to the last bar; closing the group adds the one behind it.
  have closed (e : Regex) (p q : Cursor) :
      q ∈ (Group.close { before, last := e, anyCase := true }).ends p ↔ (∃ e ∈ before, q ∈ e.ends p) ∨ q ∈ e.ends p := by
    cases before <;> simp [Group.close, mem_ends_either]
  induction as generalizing before with
  | nil => exact absurd rfl nonempty
  | cons a as ih =>
    obtain ⟨here, others⟩ := List.forall_mem_cons.1 h
    cases as with
    | nil =>
      obtain ⟨e, read, ends⟩ := here { before, anyCase := true } outer rest rfl
      refine ⟨{ before, last := e, anyCase := true }, ?_, fun p q => ?_⟩
      · rw [List.map_singleton, String.intercalate_singleton, read]
      · rw [closed, ends]
        simp [Regex.ends]
    | cons b as =>
      obtain ⟨e, read, ends⟩ := here { before, anyCase := true } outer
        ('|' :: ((String.intercalate "|" ((b :: as).map source)).toList ++ rest)) rfl
      have bar (cs : List Char) : readFrom ('|' :: cs) { before, last := e, anyCase := true } outer =
          readFrom cs { before := some (Group.close { before, last := e, anyCase := true }), anyCase := true } outer := by
        rw [readFrom.eq_def]
        rfl
      obtain ⟨g, read', ends'⟩ := ih (List.cons_ne_nil b as) others
        (some (Group.close { before, last := e, anyCase := true })) fun e' p q => by simp [Group.close, mem_ends_either]
      refine ⟨g, ?_, fun p q => ?_⟩
      · have text : (String.intercalate "|" ((a :: b :: as).map source)).toList ++ rest =
            (source a).toList ++ '|' :: ((String.intercalate "|" ((b :: as).map source)).toList ++ rest) := by
          rw [List.map_cons, List.map_cons, String.intercalate_cons_cons]
          simp
        rw [text, read, bar, read']
      · have here' : q ∈ e.ends p ↔ ∃ t ∈ texts a, p.Passes t q := by simpa [Regex.ends] using ends p q
        have earlier : (∃ e' ∈ some (Group.close { before, last := e, anyCase := true }), q ∈ e'.ends p) ↔
            (∃ e' ∈ before, q ∈ e'.ends p) ∨ ∃ t ∈ texts a, p.Passes t q := by
          rw [← here', ← closed]
          simp
        rw [ends', earlier, or_assoc]
        simp only [List.exists_mem_cons_iff]

/-- A group adds what any of its alternatives does. -/
theorem writes_group (nonempty : as ≠ []) (h : ∀ a ∈ as, Writes (source a).toList (texts a)) :
    Writes ("(?:" ++ String.intercalate "|" (as.map source) ++ ")").toList {t | ∃ a ∈ as, t ∈ texts a} := by
  intro g outer rest ignores
  obtain ⟨inner, read, ends⟩ := readFrom_alternatives nonempty h none (g :: outer) (')' :: rest)
  refine ⟨.seq g.last inner.close, ?_, fun p q => ?_⟩
  · have text : ("(?:" ++ String.intercalate "|" (as.map source) ++ ")").toList ++ rest =
        '(' :: '?' :: ':' :: ((String.intercalate "|" (as.map source)).toList ++ ')' :: rest) := by
      simp [String.toList_append]
    have opened (cs : List Char) : readFrom ('(' :: '?' :: ':' :: cs) g outer =
        readFrom cs { anyCase := g.anyCase } (g :: outer) := rfl
    have shut : readFrom (')' :: rest) inner (g :: outer) = readFrom rest (g.add inner.close) outer := by
      rw [readFrom.eq_def]
      rfl
    rw [text, opened, ignores, read, shut, Group.add, ignores]
  · simp only [mem_ends_seq, ends, Option.not_mem_none, false_and, exists_false, false_or]
    constructor
    · rintro ⟨m, member, a, ha, t, ht, passes⟩
      exact ⟨m, member, t, ⟨a, ha, ht⟩, passes⟩
    · rintro ⟨m, member, t, ⟨a, ha, ht⟩, passes⟩
      exact ⟨m, member, a, ha, t, ht, passes⟩

theorem writes_only {s : String} {language : Language Char} (h : Writes s.toList language) :
    Writes ("(?:" ++ s ++ ")").toList language := by
  have alone : Writes ("(?:" ++ String.intercalate "|" ([s].map id) ++ ")").toList {t | ∃ a ∈ [s], t ∈ language} :=
    writes_group (List.cons_ne_nil s []) (List.forall_mem_singleton.2 h)
  have only : ({t | ∃ a ∈ [s], t ∈ language} : Language Char) = language := by
    ext t
    exact ⟨fun ⟨_, _, member⟩ => member, fun member => ⟨s, List.mem_singleton_self s, member⟩⟩
  rwa [List.map_id, String.intercalate_singleton, only] at alone

/-- The expression for a whole text matches the texts of its alternatives and no others. -/
theorem parse?_whole (nonempty : as ≠ []) (h : ∀ a ∈ as, Writes (source a).toList (texts a)) :
    ∃ e, parse? ("^(?i:" ++ String.intercalate "|" (as.map source) ++ ")$") = some e ∧
      ∀ text, e.isMatch text = true ↔ ∃ a ∈ as, text.toList ∈ texts a := by
  obtain ⟨inner, read, ends⟩ := readFrom_alternatives nonempty h none [{ last := .seq .empty .textStart }] [')', '$']
  refine ⟨.seq (.seq (.seq .empty .textStart) inner.close) .textEnd, ?_, fun text => ?_⟩
  · have whole : ("^(?i:" ++ String.intercalate "|" (as.map source) ++ ")$").toList =
        '^' :: '(' :: '?' :: 'i' :: ':' :: ((String.intercalate "|" (as.map source)).toList ++ [')', '$']) := by
      simp [String.toList_append]
    rw [parse?, whole]
    exact read
  · rw [isMatch, isMatchFrom_iff]
    simp only [mem_ends_seq, ends, Option.not_mem_none, false_and, exists_false, false_or]
    constructor
    · rintro ⟨u, v, q, whole, m, ⟨n, started, a, ha, t, ht, passes⟩, ended⟩
      have empty : u = [] := by
        cases u with
        | nil => rfl
        | cons c u => simp [Regex.ends] at started
      have begins : n = ⟨true, v⟩ := by simpa [Regex.ends, empty] using started
      have finish : m.rest = [] := by
        cases left : m.rest with
        | nil => rfl
        | cons c cs => simp [Regex.ends, left] at ended
      have exact' : v = t := by simpa [begins, finish] using passes.rest
      exact ⟨a, ha, by rw [whole, empty, exact']; exact ht⟩
    · rintro ⟨a, ha, ht⟩
      refine ⟨[], text.toList, ⟨text.toList.isEmpty, []⟩, rfl, ⟨text.toList.isEmpty, []⟩, ⟨⟨true, text.toList⟩, ?_, a, ha,
        text.toList, ht, ?_⟩, ?_⟩
      · simp [Regex.ends]
      · exact ⟨by simp, by simp⟩
      · simp [Regex.ends]

end Alternatives

end SkyQuery.Regex
