import SkyQuery.Proofs.Region.Unique

/-!
# Regions are read by their grammar

A text is read as a region exactly if its words have a derivation, and they have one at most
(`parse_iff_derivation`). The first word tells which of the two forms a text is in, since numbers
begin with no letter.
-/

namespace SkyQuery.Region

open Text

/-! ### The DALI form -/

theorem mapM_readFinite_iff {words : List String} {xs : List Float} :
    words.mapM Decimal.readFinite = some xs ↔
      ∃ ns : List Decimal.Numeral, ns.map Decimal.Numeral.word = words ∧ ns.map Decimal.Numeral.value = xs := by
  induction words generalizing xs with
  | nil =>
    constructor
    · rintro ⟨⟩
      exact ⟨[], rfl, rfl⟩
    · rintro ⟨ns, words, rfl⟩
      obtain rfl := List.map_eq_nil_iff.1 words
      rfl
  | cons w words ih =>
    rw [List.mapM_cons]
    simp only [Option.bind_eq_bind, Option.bind_eq_some_iff, ih, Decimal.readFinite_eq_some_iff]
    constructor
    · rintro ⟨_, ⟨n, rfl, rfl⟩, _, ⟨ns, rfl, rfl⟩, ⟨⟩⟩
      exact ⟨n :: ns, rfl, rfl⟩
    · rintro ⟨ns, words, rfl⟩
      cases ns with
      | nil => cases words
      | cons n ns =>
        obtain ⟨rfl, rfl⟩ := List.cons.inj words
        exact ⟨_, ⟨n, rfl, rfl⟩, _, ⟨ns, rfl, rfl⟩, rfl⟩

def Pair.numerals (p : Pair) : List Decimal.Numeral := [p.x, p.y]

theorem exists_pairs (ns : List Decimal.Numeral) (even : ns.length % 2 = 0) :
    ∃ ps : List Pair, ns = ps.flatMap Pair.numerals := by
  match ns with
  | [] => exact ⟨[], rfl⟩
  | [n] => cases even
  | x :: y :: ns =>
    simp only [List.length_cons] at even
    obtain ⟨ps, rfl⟩ := exists_pairs ns (by omega)
    exact ⟨⟨x, y⟩ :: ps, rfl⟩

theorem pairUp_values (ps : List Pair) :
    pairUp ((ps.flatMap Pair.numerals).map Decimal.Numeral.value) = ps.map Pair.point := by
  induction ps with
  | nil => rfl
  | cons p ps ih =>
    rw [List.map_cons, ← ih]
    rfl

theorem words_pairs (ps : List Pair) :
    (ps.flatMap Pair.numerals).map Decimal.Numeral.word = ps.flatMap Pair.words := by
  rw [List.map_flatMap]
  rfl

theorem length_numerals (ps : List Pair) :
    ((ps.flatMap Pair.numerals).map Decimal.Numeral.value).length = 2 * ps.length := by
  induction ps with
  | nil => rfl
  | cons p ps ih =>
    rw [List.flatMap_cons, List.map_append, List.length_append, ih, List.length_cons]
    change 2 + _ = _
    omega

theorem readDali_many {words : List String} {numbers : List Float}
    (read : words.mapM Decimal.readFinite = some numbers) (many : 6 ≤ numbers.length)
    (even : numbers.length % 2 = 0) : readDali words = polygonOf .default (pairUp numbers) := by
  have nonempty : ¬words.isEmpty = true := by
    intro empty
    rw [List.isEmpty_iff.1 empty] at read
    cases read
    cases many
  unfold readDali
  rw [if_neg nonempty, read]
  split
  · rename_i two
    cases two
    simp at many
  · rename_i three
    cases three
    simp at many
  · rename_i same
    cases same
    rw [if_pos (by simp [many, even])]
  · rename_i none
    cases none

theorem readDali_ok_iff {words : List String} {r : Region} :
    readDali words = .ok r ↔ ∃ d : DaliPhrase, d.words = words ∧ d.region = r := by
  unfold readDali
  constructor
  · intro h
    split at h
    · cases h
    -- Two numbers are a point and three a circle. What is left are the vertices of a polygon, in pairs.
    split at h
    · rename_i found
      obtain ⟨ns, rfl, values⟩ := mapM_readFinite_iff.1 found
      obtain ⟨x, _, rfl, rfl, second⟩ := List.map_eq_cons_iff.1 values
      obtain ⟨y, _, rfl, rfl, none⟩ := List.map_eq_cons_iff.1 second
      obtain rfl := List.map_eq_nil_iff.1 none
      exact ⟨.position ⟨x, y⟩, rfl, Except.ok.inj h⟩
    · rename_i found
      obtain ⟨ns, rfl, values⟩ := mapM_readFinite_iff.1 found
      obtain ⟨x, _, rfl, rfl, second⟩ := List.map_eq_cons_iff.1 values
      obtain ⟨y, _, rfl, rfl, third⟩ := List.map_eq_cons_iff.1 second
      obtain ⟨radius, _, rfl, rfl, none⟩ := List.map_eq_cons_iff.1 third
      obtain rfl := List.map_eq_nil_iff.1 none
      exact ⟨.circle ⟨x, y⟩ radius, rfl, Except.ok.inj h⟩
    · rename_i found
      obtain ⟨ns, rfl, rfl⟩ := mapM_readFinite_iff.1 found
      split at h
      · rename_i fits
        simp only [List.length_map, Bool.and_eq_true, decide_eq_true_eq, beq_iff_eq] at fits
        obtain ⟨ps, rfl⟩ := exists_pairs ns fits.2
        rw [pairUp_values] at h
        rw [words_pairs]
        match ps with
        | [] | [_] | [_, _] => simp [Pair.numerals] at fits
        | first :: second :: third :: others => exact ⟨.polygon first second third others, rfl, Except.ok.inj h⟩
      · cases h
    · cases h
  · rintro ⟨d, rfl, rfl⟩
    cases d with
    | position p =>
      have read : (DaliPhrase.position p).words.mapM Decimal.readFinite = some [p.x.value, p.y.value] :=
        mapM_readFinite_iff.2 ⟨p.numerals, rfl, rfl⟩
      rw [if_neg (by exact Bool.false_ne_true), read]
      rfl
    | circle p radius =>
      have read : (DaliPhrase.circle p radius).words.mapM Decimal.readFinite =
          some [p.x.value, p.y.value, radius.value] :=
        mapM_readFinite_iff.2 ⟨p.numerals ++ [radius], rfl, rfl⟩
      rw [if_neg (by exact Bool.false_ne_true), read]
      rfl
    | polygon first second third others =>
      have read : (DaliPhrase.polygon first second third others).words.mapM Decimal.readFinite =
          some (((first :: second :: third :: others).flatMap Pair.numerals).map Decimal.Numeral.value) :=
        mapM_readFinite_iff.2 ⟨_, words_pairs _, rfl⟩
      have count := length_numerals (first :: second :: third :: others)
      refine (readDali_many read ?_ ?_).trans ?_
      · rw [count, List.length_cons, List.length_cons, List.length_cons]
        omega
      · rw [count]
        omega
      · rw [pairUp_values]
        rfl

/-! ### Texts -/

theorem DaliPhrase.exists_number (d : DaliPhrase) :
    ∃ (n : Decimal.Numeral) (ws : List String), d.words = n.word :: ws := by
  cases d with
  | position p | circle p _ | polygon p _ _ _ => exact ⟨p.x, _, rfl⟩

/-- The number of words, by which alone the shapes differ. -/
def DaliPhrase.count : DaliPhrase → Nat
  | position _ => 2
  | circle _ _ => 3
  | polygon _ _ _ others => 2 * (others.length + 3)

theorem DaliPhrase.length_words (d : DaliPhrase) : d.words.length = d.count := by
  cases d with
  | position p => rfl
  | circle p radius => rfl
  | polygon first second third others => exact length_pairWords (first :: second :: third :: others)

theorem DaliPhrase.unique {d e : DaliPhrase} (h : d.words = e.words) : d = e := by
  have lengths := congrArg List.length h
  rw [length_words, length_words] at lengths
  cases d with
  | position p =>
    cases e with
    | position q =>
      have same : p.words ++ [] = q.words ++ [] := congrArg (· ++ []) h
      rw [(Pair.unique same).1]
    | circle q radius => cases lengths
    | polygon =>
      simp only [count] at lengths
      omega
  | circle p radius =>
    cases e with
    | position q => cases lengths
    | circle q radius' =>
      obtain ⟨rfl, last⟩ := Pair.unique h
      rw [Decimal.Numeral.eq_of_word (List.cons.inj last).1]
    | polygon =>
      simp only [count] at lengths
      omega
  | polygon first second third others =>
    cases e with
    | position | circle =>
      simp only [count] at lengths
      omega
    | polygon first' second' third' others' =>
      have same := congrArg (· ++ []) h
      have all := (pairs_unique (by simp [NoNumber]) (by simp [NoNumber]) same).1
      simp only [List.cons.injEq] at all
      obtain ⟨rfl, rfl, rfl, rfl⟩ := all
      rfl

theorem KindWord.ne_number {k : RegionKind} (kind : KindWord k) (n : Decimal.Numeral) : kind.word ≠ n.word := by
  intro same
  have letter := kind.letter
  rw [same, beginsWithLetter_numeral] at letter
  cases letter

theorem Phrase.words_ne_dali (p : Phrase) (d : DaliPhrase) : p.words ≠ d.words := by
  obtain ⟨kind, ws, words⟩ := p.exists_kind
  obtain ⟨n, ws', words'⟩ := d.exists_number
  rw [words, words']
  exact fun same => kind.ne_number n (List.cons.inj same).1

/-- The words of a text make a region in one way at most. -/
theorem Derivation.unique {d e : Derivation} (h : d.words = e.words) : d = e := by
  cases d with
  | stcs p =>
    cases e with
    | stcs q =>
      have same : p.words ++ [] = q.words ++ [] := congrArg (· ++ []) h
      rw [(p.unique (by simp [NoNumber]) (by simp [NoNumber]) same).1]
    | dali q => exact absurd h (p.words_ne_dali q)
  | dali p =>
    cases e with
    | stcs q => exact absurd h.symm (q.words_ne_dali p)
    | dali q => rw [DaliPhrase.unique h]

theorem stcs_ok_iff {ws : List String} {r : Region} :
    (stcs ws).map (·.1) = .ok r ↔ ∃ p : Phrase, p.words = ws ∧ p.region = r := by
  constructor
  · intro h
    cases read : stcs ws with
    | error e =>
      rw [read] at h
      cases h
    | ok found =>
      obtain ⟨r', rest⟩ := found
      rw [read] at h
      cases h
      obtain ⟨_, mid, first, read⟩ := bind_ok_iff.1 read
      obtain ⟨_, _, seen, read⟩ := bind_ok_iff.1 read
      cases seen
      cases mid with
      | nil =>
        obtain ⟨rfl, rfl⟩ := pure_ok_iff.1 read
        obtain ⟨p, words, region⟩ := stcsFor_sound _ first
        exact ⟨p, by rw [words, List.append_nil], region⟩
      | cons w mid => cases read
  · rintro ⟨p, rfl, rfl⟩
    have first : stcsFor (p.words.length + 1) (p.words ++ []) = .ok (p.region, []) :=
      stcsFor_words p (Nat.le_succ p.words.length) (by simp [NoNumber])
    rw [List.append_nil] at first
    have read : stcs p.words = .ok (p.region, []) := bind_ok_iff.2 ⟨_, _, first, rfl⟩
    rw [read]
    rfl

theorem parse_ok_iff {text : String} {r : Region} :
    parse text = .ok r ↔ ∃ d : Derivation, d.words = cut text ∧ d.region = r := by
  unfold parse
  dsimp only
  constructor
  · intro h
    split at h
    · obtain ⟨p, words, region⟩ := stcs_ok_iff.1 h
      exact ⟨.stcs p, words, region⟩
    · obtain ⟨d, words, region⟩ := readDali_ok_iff.1 h
      exact ⟨.dali d, words, region⟩
  · rintro ⟨d, words, rfl⟩
    rw [← words]
    cases d with
    | stcs p =>
      obtain ⟨kind, ws, begins⟩ := p.exists_kind
      have keyword : ((p.words.head?.bind RegionKind.ofWord?).isSome) = true := by
        rw [begins, List.head?_cons, Option.bind_some, kind.kind]
        rfl
      rw [Derivation.words, if_pos keyword]
      exact stcs_ok_iff.2 ⟨p, rfl, rfl⟩
    | dali d =>
      obtain ⟨n, ws, begins⟩ := d.exists_number
      have number : ¬((d.words.head?.bind RegionKind.ofWord?).isSome) = true := by
        rw [begins, List.head?_cons, Option.bind_some, ofWord?_eq_none (beginsWithLetter_numeral n)]
        exact Bool.false_ne_true
      rw [Derivation.words, if_neg number]
      exact readDali_ok_iff.2 ⟨d, rfl, rfl⟩

/-- A text is read as a region exactly if its words have a derivation, and no text has two. -/
theorem parse_iff_derivation (text : String) :
    (∀ r, parse text = .ok r ↔ ∃ d : Derivation, SplitsInto text.toList d.words ∧ d.region = r) ∧
      Subsingleton { d : Derivation // SplitsInto text.toList d.words } := by
  constructor
  · intro r
    rw [parse_ok_iff]
    exact exists_congr fun d => and_congr_left' (by rw [← cut_eq_iff, eq_comm])
  · refine ⟨fun ⟨d, hd⟩ ⟨e, he⟩ => Subtype.ext ?_⟩
    rw [← cut_eq_iff] at hd he
    exact Derivation.unique (hd.symm.trans he)

end SkyQuery.Region
