import Mathlib.Data.List.DropRight
import SkyQuery.Source.Lines

/-!
# Places in texts

A place moves on with each character that is read: to a later byte offset, and to a later line or column
(`Place.before_advanceAll`). Its line counts the line feeds that were read and its column the characters after
the last of them. `Lines.lineColumn` finds the place of an offset again.
-/

namespace SkyQuery

variable {p q r : Place} {c : Char} {cs : List Char}

/-! ### Places in order -/

/-- Whether a place comes before another, by lines and then columns. -/
def Place.Before (p q : Place) : Prop := p.line < q.line ∨ p.line = q.line ∧ p.column < q.column

namespace Place

theorem before_advance (p : Place) (c : Char) : p.Before (p.advance c) := by
  unfold advance
  split
  · exact .inl (Nat.lt_succ_self _)
  · exact .inr ⟨rfl, Nat.lt_succ_self _⟩

theorem Before.trans (h : p.Before q) (h' : q.Before r) : p.Before r := by
  unfold Before at *
  omega

theorem not_advanceAll_before (p : Place) (cs : List Char) : ¬(p.advanceAll cs).Before p := by
  induction cs generalizing p with
  | nil => exact fun h => by unfold Before at h; simp [advanceAll] at h
  | cons c rest ih => exact fun h => ih (p.advance c) (Before.trans h (p.before_advance c))

theorem before_advanceAll (p : Place) (c : Char) (rest : List Char) : p.Before (p.advanceAll (c :: rest)) := by
  have step := p.before_advance c
  have later := not_advanceAll_before (p.advance c) rest
  change p.Before ((p.advance c).advanceAll rest)
  unfold Before at *
  omega

theorem advanceAll_append (p : Place) (a b : List Char) : p.advanceAll (a ++ b) = (p.advanceAll a).advanceAll b :=
  List.foldl_append

/-- Of two beginnings of a text the one that does not stop later is a beginning of the other. -/
theorem prefix_of_not_before {a b cs : List Char} (ha : a <+: cs) (hb : b <+: cs)
    (h : ¬(p.advanceAll b).Before (p.advanceAll a)) : a <+: b := by
  rcases List.prefix_or_prefix_of_prefix ha hb with within | ⟨others, rfl⟩
  · exact within
  · cases others with
    | nil => exact (List.append_nil b).symm ▸ List.prefix_refl b
    | cons c rest =>
      rw [advanceAll_append] at h
      exact absurd ((p.advanceAll b).before_advanceAll c rest) h

/-! ### Lines and columns, counted -/

theorem line_advanceAll (p : Place) (cs : List Char) : (p.advanceAll cs).line = p.line + cs.count '\n' := by
  induction cs generalizing p with
  | nil => rfl
  | cons c rest ih =>
    change ((p.advance c).advanceAll rest).line = _
    rw [ih, List.count_cons]
    unfold advance
    by_cases feed : c = '\n'
    · simp [feed]
      omega
    · simp [feed]

/-- The column of a place counts the characters after the last line feed, or from the start of the text. -/
theorem column_advanceAll_origin (cs : List Char) :
    (origin.advanceAll cs).column = 1 + (cs.rtakeWhile (· ≠ '\n')).length := by
  induction cs using List.reverseRecOn with
  | nil => rfl
  | append_singleton cs c ih =>
    rw [advanceAll_append, List.rtakeWhile_concat]
    change ((origin.advanceAll cs).advance c).column = _
    unfold advance
    by_cases feed : c = '\n'
    · simp [feed]
    · simp [feed, ih]
      omega

end Place

/-! ### Places by byte offsets -/

theorem utf8ByteSize_cons : (String.ofList (c :: cs)).utf8ByteSize = c.utf8Size + (String.ofList cs).utf8ByteSize := by
  rw [← List.singleton_append, String.ofList_append, String.utf8ByteSize_append]
  exact congrArg (· + _) String.utf8ByteSize_singleton

theorem Place.offset_advance (p : Place) (c : Char) : (p.advance c).offset = p.offset + c.utf8Size := by
  unfold advance
  split <;> rfl

theorem Place.offset_advanceAll (p : Place) (cs : List Char) :
    (p.advanceAll cs).offset = p.offset + (String.ofList cs).utf8ByteSize := by
  induction cs generalizing p with
  | nil => rfl
  | cons c cs ih =>
    rw [utf8ByteSize_cons, ← Nat.add_assoc, ← p.offset_advance]
    exact ih (p.advance c)

theorem Place.offset_advanceAll_origin (text : String) :
    (origin.advanceAll text.toList).offset = text.utf8ByteSize := by
  rw [offset_advanceAll, String.ofList_toList]
  exact Nat.zero_add _

namespace Lines

/-- A search reads on until it reaches the offset. -/
theorem locate_append {offset : Nat} (p : Place) (a b : List Char) (reached : (p.advanceAll a).offset ≤ offset) :
    locate offset p (a ++ b) = locate offset (p.advanceAll a) b := by
  induction a generalizing p with
  | nil => rfl
  | cons c a ih =>
    have beyond : p.offset + c.utf8Size ≤ offset := by
      rw [p.offset_advanceAll, utf8ByteSize_cons] at reached
      omega
    have some := c.utf8Size_pos
    rw [List.cons_append, locate, if_neg (by omega), if_neg (by omega)]
    exact ih (p.advance c) reached

/-- The line and column of the end of a beginning of a text. -/
theorem locate_advanceAll (p : Place) (a b : List Char) :
    locate (p.advanceAll a).offset p (a ++ b) = ((p.advanceAll a).line, (p.advanceAll a).column) := by
  rw [locate_append p a b (Nat.le_refl _)]
  cases b with
  | nil => rfl
  | cons c b => exact if_pos (Nat.le_refl _)

theorem lineColumn_append (a b : String) : lineColumn (a ++ b) a.utf8ByteSize =
    ((Place.origin.advanceAll a.toList).line, (Place.origin.advanceAll a.toList).column) := by
  rw [lineColumn, String.toList_append, ← Place.offset_advanceAll_origin a, locate_advanceAll]

/-- Lines and columns go up by no more than the bytes that are read. -/
theorem locate_le (offset : Nat) {p : Place} (counts : 0 < p.column) (cs : List Char) :
    (locate offset p cs).1 ≤ p.line + (offset - p.offset) ∧ (locate offset p cs).2 ≤ p.column + (offset - p.offset) := by
  fun_induction locate offset p cs with
  | case1 p => exact ⟨Nat.le_add_right _ _, Nat.le_add_right _ _⟩
  | case2 p c rest here => exact ⟨Nat.le_add_right _ _, Nat.le_add_right _ _⟩
  | case3 p c rest past inside => exact ⟨Nat.le_add_right _ _, Nat.le_add_right_of_le counts⟩
  | case4 p c rest past beyond ih =>
    have width := c.utf8Size_pos
    have moved : 0 < (p.advance c).column ∧ (p.advance c).line ≤ p.line + 1 ∧
        (p.advance c).column ≤ p.column + 1 := by
      unfold Place.advance
      split
      · exact ⟨Nat.one_pos, Nat.le_refl _, Nat.le_add_left _ _⟩
      · exact ⟨Nat.succ_pos _, Nat.le_succ _, Nat.le_refl _⟩
    have rest := ih moved.1
    rw [p.offset_advance] at rest
    omega

theorem lineColumn_le (text : String) (offset : Nat) :
    (lineColumn text offset).1 ≤ 1 + offset ∧ (lineColumn text offset).2 ≤ 1 + offset :=
  locate_le offset Nat.one_pos text.toList

end Lines

end SkyQuery
