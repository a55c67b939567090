import SkyQuery.Region.Reader

/-!
# Words of a region

`SplitsInto` says what the words of a text are: each parenthesis, and each longest run of characters
that are neither blank nor a parenthesis. `cut` finds them (`cut_eq_iff`), and gives back words that
were joined by spaces (`cut_intercalate`).
-/

namespace SkyQuery.Region

abbrev IsParen (c : Char) : Prop := c = '(' ∨ c = ')'

/-- The characters that a word longer than a parenthesis is made of. -/
def IsPlain (c : Char) : Prop := Text.isBlank c = false ∧ ¬IsParen c

instance : DecidablePred IsPlain := fun c => inferInstanceAs (Decidable (Text.isBlank c = false ∧ ¬IsParen c))

theorem plain_of_all {cs : List Char} (h : cs.all (fun c => decide (IsPlain c)) = true) : ∀ c ∈ cs, IsPlain c :=
  fun c member => of_decide_eq_true (List.all_eq_true.1 h c member)

/-- The words of a text. A run ends where the text does or before a character that is not plain. -/
inductive SplitsInto : List Char → List String → Prop
  | done : SplitsInto [] []
  | blank {c cs ws} (blank : Text.isBlank c = true) (rest : SplitsInto cs ws) : SplitsInto (c :: cs) ws
  | paren {c cs ws} (paren : IsParen c) (rest : SplitsInto cs ws) :
    SplitsInto (c :: cs) (String.ofList [c] :: ws)
  | run {w cs ws} (nonempty : w ≠ []) (plain : ∀ c ∈ w, IsPlain c) (ends : ∀ c ∈ cs.head?, ¬IsPlain c)
    (rest : SplitsInto cs ws) : SplitsInto (w ++ cs) (String.ofList w :: ws)

/-! ### One character at a time -/

/-- The pieces that `cut` makes words of. -/
def pieces (cs : List Char) : List (List Char) := (Text.cutWords cs).flatMap cutParens

theorem cut_eq (text : String) : cut text = (pieces text.toList).map String.ofList := by
  rw [cut, pieces, List.map_flatMap]

theorem not_blank_of_paren {c : Char} (h : IsParen c) : Text.isBlank c = false := by
  rcases h with rfl | rfl <;> decide

theorem cutWords_blank {c : Char} (blank : Text.isBlank c = true) (cs : List Char) :
    Text.cutWords (c :: cs) = Text.cutWords cs := by
  rw [Text.cutWords.eq_def]
  exact if_pos blank

theorem cutWords_head {d : Char} (solid : Text.isBlank d = false) (cs : List Char) :
    ∃ w ws, Text.cutWords (d :: cs) = (d :: w) :: ws := by
  rw [Text.cutWords.eq_def]
  dsimp only
  rw [if_neg (by simp [solid])]
  cases cs with
  | nil => exact ⟨_, _, rfl⟩
  | cons e es =>
    dsimp only
    split
    · exact ⟨_, _, rfl⟩
    · cases Text.cutWords (e :: es) <;> exact ⟨_, _, rfl⟩

theorem cutWords_word {c d : Char} {cs w : List Char} {ws : List (List Char)}
    (solid : Text.isBlank c = false) (h : Text.cutWords (d :: cs) = (d :: w) :: ws)
    (next : Text.isBlank d = false) : Text.cutWords (c :: d :: cs) = (c :: d :: w) :: ws := by
  rw [Text.cutWords.eq_def]
  simp [solid, next, h]

theorem cutWords_alone {c : Char} {cs : List Char} (solid : Text.isBlank c = false)
    (next : ∀ d ∈ cs.head?, Text.isBlank d = true) : Text.cutWords (c :: cs) = [c] :: Text.cutWords cs := by
  rw [Text.cutWords.eq_def]
  cases cs with
  | nil => simp only [solid, Bool.false_eq_true, if_false]; rfl
  | cons d ds =>
    have blank : Text.isBlank d = true := next d rfl
    simp [solid, blank]

theorem cutParens_paren {c : Char} (h : IsParen c) (cs : List Char) :
    cutParens (c :: cs) = [c] :: cutParens cs := by
  rw [cutParens.eq_def]
  exact if_pos h

theorem cutParens_before {c d : Char} (h : ¬IsParen c) (next : IsParen d) (cs : List Char) :
    cutParens (c :: d :: cs) = [c] :: cutParens (d :: cs) := by
  rw [cutParens.eq_def]
  dsimp only
  rw [if_neg h]
  exact if_pos next

theorem cutParens_head {d : Char} (h : ¬IsParen d) (cs : List Char) :
    ∃ w ws, cutParens (d :: cs) = (d :: w) :: ws := by
  rw [cutParens.eq_def]
  dsimp only
  rw [if_neg h]
  cases cs with
  | nil => exact ⟨_, _, rfl⟩
  | cons e es =>
    dsimp only
    split
    · exact ⟨_, _, rfl⟩
    · cases cutParens (e :: es) <;> exact ⟨_, _, rfl⟩

theorem cutParens_join {c d : Char} (h : ¬IsParen c) (next : ¬IsParen d) {cs w : List Char}
    {ws : List (List Char)} (rest : cutParens (d :: cs) = w :: ws) :
    cutParens (c :: d :: cs) = (c :: w) :: ws := by
  rw [cutParens.eq_def]
  dsimp only
  rw [if_neg h, if_neg next, rest]

theorem pieces_blank {c : Char} (blank : Text.isBlank c = true) (cs : List Char) :
    pieces (c :: cs) = pieces cs := by rw [pieces, cutWords_blank blank, pieces]

theorem pieces_paren {c : Char} (paren : IsParen c) (cs : List Char) :
    pieces (c :: cs) = [c] :: pieces cs := by
  have solid := not_blank_of_paren paren
  cases cs with
  | nil => rw [pieces, cutWords_alone solid (by simp), List.flatMap_cons, cutParens_paren paren]; rfl
  | cons d ds =>
    cases next : Text.isBlank d with
    | true =>
      rw [pieces, cutWords_alone solid (by simpa using next), List.flatMap_cons, cutParens_paren paren]
      rfl
    | false =>
      obtain ⟨w, ws, first⟩ := cutWords_head next ds
      rw [pieces, cutWords_word solid first next, List.flatMap_cons, cutParens_paren paren, pieces, first,
        List.flatMap_cons, List.cons_append]

theorem pieces_last {c : Char} (plain : IsPlain c) {cs : List Char} (ends : ∀ d ∈ cs.head?, ¬IsPlain d) :
    pieces (c :: cs) = [c] :: pieces cs := by
  obtain ⟨solid, whole⟩ := plain
  have alone : cutParens [c] = [[c]] := by
    rw [cutParens.eq_def]
    exact if_neg whole
  cases cs with
  | nil => rw [pieces, cutWords_alone solid (by simp), List.flatMap_cons, alone]; rfl
  | cons d ds =>
    cases next : Text.isBlank d with
    | true =>
      rw [pieces, cutWords_alone solid (by simpa using next), List.flatMap_cons, alone]
      rfl
    | false =>
      have paren : IsParen d := Classical.not_not.1 fun other => ends d rfl ⟨next, other⟩
      obtain ⟨w, ws, first⟩ := cutWords_head next ds
      rw [pieces, cutWords_word solid first next, List.flatMap_cons, cutParens_before whole paren, pieces,
        first, List.flatMap_cons, List.cons_append]

theorem pieces_more {c d : Char} (plain : IsPlain c) (next : IsPlain d) {cs w : List Char}
    {ws : List (List Char)} (rest : pieces (d :: cs) = w :: ws) :
    pieces (c :: d :: cs) = (c :: w) :: ws := by
  obtain ⟨x, xs, first⟩ := cutWords_head next.1 cs
  obtain ⟨y, ys, inner⟩ := cutParens_head next.2 x
  rw [pieces, first, List.flatMap_cons, inner, List.cons_append, List.cons.injEq] at rest
  obtain ⟨rfl, rfl⟩ := rest
  rw [pieces, cutWords_word plain.1 first next.1, List.flatMap_cons, cutParens_join plain.2 next.2 inner,
    List.cons_append]

theorem pieces_run {w cs : List Char} (nonempty : w ≠ []) (plain : ∀ c ∈ w, IsPlain c)
    (ends : ∀ c ∈ cs.head?, ¬IsPlain c) : pieces (w ++ cs) = w :: pieces cs := by
  induction w with
  | nil => exact absurd rfl nonempty
  | cons c w ih =>
    have here : IsPlain c := plain c List.mem_cons_self
    cases w with
    | nil => exact pieces_last here ends
    | cons d w =>
      have rest := ih (List.cons_ne_nil d w) fun e member => plain e (List.mem_cons_of_mem c member)
      exact pieces_more here (plain d (by simp)) rest

/-! ### The words of a text -/

theorem SplitsInto.pieces_eq {cs : List Char} {ws : List String} (h : SplitsInto cs ws) :
    ws = (pieces cs).map String.ofList := by
  induction h with
  | done => rfl
  | blank blank _ ih => rw [ih, pieces_blank blank]
  | paren paren _ ih => rw [ih, pieces_paren paren, List.map_cons]
  | run nonempty plain ends _ ih => rw [ih, pieces_run nonempty plain ends, List.map_cons]

/-- A text starts with the longest run of plain characters that it can. -/
theorem exists_run (cs : List Char) :
    ∃ w rest, cs = w ++ rest ∧ (∀ c ∈ w, IsPlain c) ∧ ∀ c ∈ rest.head?, ¬IsPlain c := by
  induction cs with
  | nil => exact ⟨[], [], rfl, by simp, by simp⟩
  | cons c cs ih =>
    by_cases plain : IsPlain c
    · obtain ⟨w, rest, rfl, all, ends⟩ := ih
      exact ⟨c :: w, rest, rfl, by simpa [plain] using all, ends⟩
    · exact ⟨[], c :: cs, rfl, by simp, by simpa using plain⟩

theorem splitsInto_pieces (cs : List Char) : SplitsInto cs ((pieces cs).map String.ofList) := by
  match cs with
  | [] => exact .done
  | c :: cs =>
    by_cases blank : Text.isBlank c = true
    · rw [pieces_blank blank]
      exact .blank blank (splitsInto_pieces cs)
    by_cases paren : IsParen c
    · rw [pieces_paren paren, List.map_cons]
      exact .paren paren (splitsInto_pieces cs)
    · obtain ⟨w, rest, whole, all, ends⟩ := exists_run cs
      have here : IsPlain c := ⟨Bool.eq_false_iff.2 blank, paren⟩
      have plain : ∀ d ∈ c :: w, IsPlain d := List.forall_mem_cons.2 ⟨here, all⟩
      have shorter : rest.length ≤ cs.length := by rw [whole, List.length_append]; omega
      rw [whole, ← List.cons_append, pieces_run (List.cons_ne_nil c w) plain ends, List.map_cons]
      exact .run (List.cons_ne_nil c w) plain ends (splitsInto_pieces rest)
termination_by cs.length
decreasing_by all_goals simp only [List.length_cons]; omega

theorem cut_eq_iff {text : String} {ws : List String} : cut text = ws ↔ SplitsInto text.toList ws := by
  rw [cut_eq]
  constructor
  · rintro rfl
    exact splitsInto_pieces text.toList
  · exact fun h => h.pieces_eq.symm

/-! ### Words joined by spaces -/

/-- Texts that are one word. -/
def IsWord (w : String) : Prop :=
  (∃ c, IsParen c ∧ w = String.ofList [c]) ∨ w.toList ≠ [] ∧ ∀ c ∈ w.toList, IsPlain c

theorem IsWord.splits {w : String} (h : IsWord w) {cs : List Char} {ws : List String}
    (ends : ∀ c ∈ cs.head?, ¬IsPlain c) (rest : SplitsInto cs ws) :
    SplitsInto (w.toList ++ cs) (w :: ws) := by
  rcases h with ⟨c, paren, rfl⟩ | ⟨nonempty, plain⟩
  · simpa using SplitsInto.paren paren rest
  · simpa using SplitsInto.run nonempty plain ends rest

theorem cut_intercalate {ws : List String} (words : ∀ w ∈ ws, IsWord w) :
    cut (String.intercalate " " ws) = ws := by
  rw [cut_eq_iff]
  induction ws with
  | nil => exact .done
  | cons w ws ih =>
    have first := words w List.mem_cons_self
    have others := ih fun x member => words x (List.mem_cons_of_mem w member)
    cases ws with
    | nil => simpa using first.splits (by simp) .done
    | cons x xs =>
      have spaced : (String.intercalate " " (w :: x :: xs)).toList =
          w.toList ++ ' ' :: (String.intercalate " " (x :: xs)).toList := by
        rw [String.intercalate_cons_cons]
        simp
      rw [spaced]
      exact first.splits (by simp [IsPlain, Text.isBlank]) (.blank (by decide) others)

end SkyQuery.Region
