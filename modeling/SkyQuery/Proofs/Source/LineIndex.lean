import Mathlib.Algebra.Group.Nat.Defs
import SkyQuery.Proofs.Source.Places
import SkyQuery.Source.LineIndex

/-!
# Lines and columns are exact

`LineIndex.lineColumn?_exact`: an index finds for each position of a text, be it after a line feed or at the end,
how many line feeds and how many characters of its line come before it, so that later positions have later lines
or columns. What it finds is what reading the text from its start finds (`LineIndex.lineColumn?_eq_some_iff`), as far
as that fits in 32 bits; the only offset where it may not is the end of a text of `2 ^ 32 - 1` bytes.
-/

namespace SkyQuery.LineIndex

/-! ### Searches -/

section Searches

variable {offsets : Array UInt32} {x y z : UInt32} {low high i j k : Nat} {inside : high ≤ offsets.size}

/-- What a search must find: the index of the offset itself, or else where the greater ones start. -/
def Searched.Fits (offsets : Array UInt32) (x : UInt32) : Searched → Prop
  | .found i => offsets[i]? = some x
  | .missing next => next ≤ offsets.size ∧ ∀ i y, offsets[i]? = some y → if i < next then y < x else x < y

theorem lt_of_increasing (increasing : offsets.toList.Pairwise (· < ·)) (h : i < j) (hi : offsets[i]? = some y)
    (hj : offsets[j]? = some z) : y < z := by
  obtain ⟨bi, rfl⟩ := Array.getElem?_eq_some_iff.1 hi
  obtain ⟨bj, rfl⟩ := Array.getElem?_eq_some_iff.1 hj
  exact List.pairwise_iff_getElem.1 increasing i j bi bj h

/-- The invariant of a search: what lies before `low` is less, and what lies at `high` or after it is greater. -/
theorem search_fits (increasing : offsets.toList.Pairwise (· < ·)) (order : low ≤ high)
    (below : ∀ i y, i < low → offsets[i]? = some y → y < x)
    (above : ∀ i y, high ≤ i → offsets[i]? = some y → x < y) :
    (search offsets x low high inside).Fits offsets x := by
  fun_induction search offsets x low high inside with
  | case1 low high inside more middle bound hit => exact Array.getElem?_eq_some_iff.2 ⟨bound, hit⟩
  | case2 low high inside more middle bound differs less ih =>
    have here : offsets[middle]? = some offsets[middle] := Array.getElem?_eq_getElem bound
    refine ih (by omega) (fun i y before hy => ?_) above
    rcases Nat.lt_or_eq_of_le (Nat.le_of_lt_succ before) with before | rfl
    · exact UInt32.lt_trans (lt_of_increasing increasing before hy here) less
    · cases here.symm.trans hy
      exact less
  | case3 low high inside more middle bound differs notLess ih =>
    have here : offsets[middle]? = some offsets[middle] := Array.getElem?_eq_getElem bound
    have greater : x < offsets[middle] := UInt32.lt_of_le_of_ne (UInt32.not_lt.1 notLess) (Ne.symm differs)
    refine ih (by omega) below fun i y after hy => ?_
    rcases Nat.lt_or_eq_of_le after with after | rfl
    · exact UInt32.lt_trans greater (lt_of_increasing increasing after here hy)
    · cases here.symm.trans hy
      exact greater
  | case4 low high inside none =>
    obtain rfl : low = high := by omega
    refine ⟨inside, fun i y hy => ?_⟩
    split
    · exact below i y ‹_› hy
    · exact above i y (by omega) hy

/-- The line that holds an offset is the last one that starts there or before. -/
theorem line?_eq {index : LineIndex} {offset start : UInt32} (increasing : index.starts.toList.Pairwise (· < ·))
    (here : index.starts[k]? = some start) (reached : start ≤ offset)
    (beyond : ∀ i s, k < i → index.starts[i]? = some s → offset < s) : index.line? offset = some k := by
  have fits : (search index.starts offset 0 index.starts.size (Nat.le_refl _)).Fits index.starts offset := by
    have none (i : Nat) (y : UInt32) (before : i < 0) : index.starts[i]? = some y → y < offset :=
      absurd before (Nat.not_lt_zero i)
    refine search_fits increasing (Nat.zero_le _) none fun i y after hy => ?_
    exact absurd (Array.getElem?_eq_some_iff.1 hy).1 (Nat.not_lt.2 after)
  unfold line?
  cases found : search index.starts offset 0 index.starts.size (Nat.le_refl _) with
  | found i =>
    rw [found] at fits
    rcases Nat.lt_trichotomy i k with before | rfl | after
    · have less := lt_of_increasing increasing before fits here
      exact absurd reached (UInt32.not_le.2 less)
    · rfl
    · exact absurd (beyond i offset after fits) (UInt32.lt_irrefl _)
  | missing next =>
    rw [found] at fits
    obtain ⟨bound, sides⟩ := fits
    have started : k < next := by
      by_contra after
      have greater := sides k start here
      rw [if_neg after] at greater
      exact absurd reached (UInt32.not_le.2 greater)
    have last : next ≤ k + 1 := by
      by_contra more
      have inside : k + 1 < index.starts.size := by omega
      have next := Array.getElem?_eq_getElem inside
      have less := sides _ _ next
      rw [if_pos (by omega)] at less
      exact UInt32.lt_asymm less (beyond _ _ (Nat.lt_succ_self k) next)
    obtain rfl : next = k + 1 := by omega
    rfl

end Searches

/-! ### Line starts -/

section Starts

variable {n s : Nat} {cs : List Char} {text : String}

theorem breaks_append (n : Nat) (a b : List Char) :
    breaks n (a ++ b) = breaks n a ++ breaks (n + (String.ofList a).utf8ByteSize) b := by
  induction a generalizing n with
  | nil => rfl
  | cons c a ih =>
    rw [List.cons_append, breaks, breaks, ih, utf8ByteSize_cons, Nat.add_assoc]
    split <;> rfl

theorem breaks_bounds (h : s ∈ breaks n cs) : n < s ∧ s ≤ n + (String.ofList cs).utf8ByteSize := by
  induction cs generalizing n with
  | nil => cases h
  | cons c cs ih =>
    have width := c.utf8Size_pos
    rw [utf8ByteSize_cons]
    unfold breaks at h
    split at h
    · rcases List.mem_cons.1 h with rfl | h
      · omega
      · have := ih h
        omega
    · have := ih h
      omega

theorem breaks_increasing (n : Nat) (cs : List Char) : (breaks n cs).Pairwise (· < ·) := by
  induction cs generalizing n with
  | nil => exact List.Pairwise.nil
  | cons c cs ih =>
    unfold breaks
    split
    · rename_i feed
      refine List.Pairwise.cons (fun s hs => ?_) (ih _)
      rw [feed] at hs
      exact (breaks_bounds hs).1
    · exact ih _

theorem length_breaks (n : Nat) (cs : List Char) : (breaks n cs).length = cs.count '\n' := by
  induction cs generalizing n with
  | nil => rfl
  | cons c cs ih =>
    unfold breaks
    split <;> simp [*]

theorem lineStarts_increasing (text : String) : (lineStarts text).Pairwise (· < ·) :=
  List.Pairwise.cons (fun _ hs => (breaks_bounds hs).1) (breaks_increasing 0 _)

theorem le_of_mem_lineStarts (h : s ∈ lineStarts text) : s ≤ text.utf8ByteSize := by
  rcases List.mem_cons.1 h with rfl | h
  · exact Nat.zero_le _
  · have := (breaks_bounds h).2
    rwa [String.ofList_toList, Nat.zero_add] at this

/-- Where the line that a beginning of a text ends in starts. -/
def lastStart (cs : List Char) : Nat := (String.ofList (cs.rdropWhile (· ≠ '\n'))).utf8ByteSize

theorem getLast?_breaks (cs : List Char) : (0 :: breaks 0 cs).getLast? = some (lastStart cs) := by
  unfold lastStart
  induction cs using List.reverseRecOn with
  | nil => rfl
  | append_singleton cs c ih =>
    rw [breaks_append, List.rdropWhile_concat, breaks, breaks, Nat.zero_add]
    by_cases feed : c = '\n'
    · subst feed
      rw [if_pos rfl, if_neg (by decide), String.ofList_append, String.utf8ByteSize_append, ← List.cons_append,
        List.getLast?_concat]
      rfl
    · rw [if_neg feed, List.append_nil, if_pos (by simpa using feed), ih]

theorem lastStart_append (cs : List Char) :
    lastStart cs + (String.ofList (cs.rtakeWhile (· ≠ '\n'))).utf8ByteSize = (String.ofList cs).utf8ByteSize := by
  rw [lastStart, ← String.utf8ByteSize_append, ← String.ofList_append, List.rdropWhile_append_rtakeWhile]

/-- However a text goes on, the line that a beginning of it ends in starts where the beginning says. -/
theorem getElem?_lineStarts (before after : String) :
    (lineStarts (before ++ after))[before.toList.count '\n']? = some (lastStart before.toList) := by
  have last := getLast?_breaks before.toList
  rw [List.getLast?_eq_getElem?, List.length_cons, length_breaks, Nat.add_sub_cancel] at last
  have inside := (List.getElem?_eq_some_iff.1 last).1
  rw [lineStarts, String.toList_append, breaks_append, ← List.cons_append, List.getElem?_append_left inside, last]

/-- Later lines start after line feeds that follow the beginning. -/
theorem mem_breaks_of_later {before after : String} {i : Nat} (later : before.toList.count '\n' < i)
    (h : (lineStarts (before ++ after))[i]? = some s) : s ∈ breaks before.utf8ByteSize after.toList := by
  have outside : (0 :: breaks 0 before.toList).length ≤ i := by
    rw [List.length_cons, length_breaks]
    exact later
  rw [lineStarts, String.toList_append, breaks_append, ← List.cons_append, List.getElem?_append_right outside,
    String.ofList_toList, Nat.zero_add] at h
  exact List.mem_of_getElem? h

end Starts

/-! ### The table of an index -/

section Table

variable {text : String} {n : Nat}

theorem getElem?_starts (text : String) (i : Nat) :
    (ofText text).starts[i]? = (lineStarts text)[i]?.map UInt32.ofNat := by
  simp [ofText]

theorem toNat_ofNat_of_le (short : text.utf8ByteSize < 2 ^ 32) (h : n ≤ text.utf8ByteSize) :
    (UInt32.ofNat n).toNat = n :=
  UInt32.toNat_ofNat_of_lt' (Nat.lt_of_le_of_lt h short)

/-- The offsets of a text that is short enough keep their order in 32 bits. -/
theorem starts_increasing (short : text.utf8ByteSize < 2 ^ 32) : (ofText text).starts.toList.Pairwise (· < ·) := by
  change ((lineStarts text).map UInt32.ofNat).Pairwise (· < ·)
  rw [List.pairwise_map]
  refine (lineStarts_increasing text).imp_of_mem fun {a b} ha hb less => ?_
  rw [UInt32.lt_iff_toNat_lt, toNat_ofNat_of_le short (le_of_mem_lineStarts ha),
    toNat_ofNat_of_le short (le_of_mem_lineStarts hb)]
  exact less

end Table

/-! ### Pieces between offsets -/

section Pieces

variable {text before after a b : String} {c : Char} {cs : List Char} {n : Nat}

theorem utf8ByteSize_le_of_prefix (h : a.toList <+: b.toList) : a.utf8ByteSize ≤ b.utf8ByteSize := by
  obtain ⟨rest, split⟩ := h
  have whole : b = a ++ String.ofList rest := by
    rw [← String.toList_inj, String.toList_append, String.toList_ofList, split]
  rw [whole, String.utf8ByteSize_append]
  exact Nat.le_add_right _ _

theorem pos?_eq_some {p : text.Pos} (h : p.Splits before after) : text.pos? ⟨before.utf8ByteSize⟩ = some p := by
  have offset : p.offset = ⟨before.utf8ByteSize⟩ := h.offset_eq_rawEndPos
  have valid : String.Pos.Raw.IsValidForSlice text.toSlice ⟨before.utf8ByteSize⟩ := offset ▸ p.isValid.toSlice
  rw [String.pos?, String.Slice.pos?, dif_pos (String.Pos.Raw.isValidForSlice_eq_true_iff.2 valid)]
  exact congrArg some (String.Pos.ext offset.symm)

/-- No position lies inside a character: a beginning of the text that is longer than `before` has the next
character whole. -/
theorem pos?_eq_none (h : after.toList = c :: cs) (past : before.utf8ByteSize < n)
    (inside : n < before.utf8ByteSize + c.utf8Size) : (before ++ after).pos? ⟨n⟩ = none := by
  have invalid : ¬String.Pos.Raw.IsValid (before ++ after) ⟨n⟩ := by
    intro valid
    obtain ⟨left, right, split, stop⟩ := String.Pos.Raw.isValid_iff_exists_append.1 valid
    have size : n = left.utf8ByteSize := congrArg String.Pos.Raw.byteIdx stop
    have beginning : left.toList <+: (before ++ after).toList := ⟨right.toList, by rw [split, String.toList_append]⟩
    have next : (before.push c).toList <+: (before ++ after).toList :=
      ⟨cs, by rw [String.toList_push, String.toList_append, h, List.append_assoc, List.singleton_append]⟩
    rcases List.prefix_or_prefix_of_prefix beginning next with shorter | longer
    · rw [String.toList_push, List.prefix_concat_iff, ← String.toList_push, String.toList_inj] at shorter
      rcases shorter with rfl | shorter
      · rw [String.utf8ByteSize_push] at size
        omega
      · have := utf8ByteSize_le_of_prefix shorter
        omega
    · have := utf8ByteSize_le_of_prefix longer
      rw [String.utf8ByteSize_push] at this
      omega
  rw [String.pos?, String.Slice.pos?, dif_neg]
  · rfl
  · rwa [String.Pos.Raw.isValidForSlice_eq_true_iff, String.Pos.Raw.isValidForSlice_toSlice_iff]

theorem length?_append (a b c : String) :
    length? (a ++ b ++ c) a.utf8ByteSize (a ++ b).utf8ByteSize = some b.length := by
  have first := String.Pos.splits_ofEqAppend (String.append_assoc : a ++ b ++ c = a ++ (b ++ c))
  have last := String.Pos.splits_ofEqAppend (rfl : a ++ b ++ c = a ++ b ++ c)
  obtain ⟨order, piece⟩ := String.copy_slice_eq_iff_splits.2 ⟨a, c, first, last⟩
  rw [length?, pos?_eq_some first, pos?_eq_some last]
  change (String.slice? _ _ _).bind _ = _
  rw [String.slice?, dif_pos order]
  exact congrArg (some ∘ String.length) piece

theorem length?_eq_none {start : Nat} (h : text.pos? ⟨n⟩ = none) : length? text start n = none := by
  rw [length?, h]
  cases text.pos? ⟨start⟩ <;> rfl

end Pieces

/-! ### Lookups -/

section Lookups

variable {text before after : String} {c : Char} {cs : List Char} {offset : UInt32} {n s : Nat}

theorem le_of_mem_breaks_cons (h : s ∈ breaks n (c :: cs)) : n + c.utf8Size ≤ s := by
  unfold breaks at h
  split at h
  · rename_i feed
    rcases List.mem_cons.1 h with rfl | h
    · rw [feed]
      rfl
    · exact Nat.le_of_lt (breaks_bounds h).1
  · exact Nat.le_of_lt (breaks_bounds h).1

/-- The line of an offset that lies where `before` ends, or inside the character that follows there. -/
theorem line?_ofText (short : (before ++ after).utf8ByteSize < 2 ^ 32) (reached : before.utf8ByteSize ≤ offset.toNat)
    (next : ∀ c ∈ after.toList.head?, offset.toNat < before.utf8ByteSize + c.utf8Size) :
    (ofText (before ++ after)).line? offset = some (before.toList.count '\n') := by
  have last := getElem?_lineStarts before after
  have here : (ofText (before ++ after)).starts[before.toList.count '\n']? =
      some (UInt32.ofNat (lastStart before.toList)) := by
    rw [getElem?_starts, last, Option.map_some]
  refine line?_eq (starts_increasing short) here ?_ ?_
  · have parts := lastStart_append before.toList
    rw [String.ofList_toList] at parts
    rw [UInt32.le_iff_toNat_le, toNat_ofNat_of_le short (le_of_mem_lineStarts (List.mem_of_getElem? last))]
    omega
  · intro i s later hs
    rw [getElem?_starts, Option.map_eq_some_iff] at hs
    obtain ⟨s, hs, rfl⟩ := hs
    rw [UInt32.lt_iff_toNat_lt, toNat_ofNat_of_le short (le_of_mem_lineStarts (List.mem_of_getElem? hs))]
    have broken := mem_breaks_of_later later hs
    cases chars : after.toList with
    | nil =>
      rw [chars] at broken
      cases broken
    | cons c cs =>
      rw [chars] at broken next
      exact Nat.lt_of_lt_of_le (next c rfl) (le_of_mem_breaks_cons broken)

theorem counts?_ofText (short : (before ++ after).utf8ByteSize < 2 ^ 32) (reached : before.utf8ByteSize ≤ offset.toNat)
    (next : ∀ c ∈ after.toList.head?, offset.toNat < before.utf8ByteSize + c.utf8Size) :
    let stop := min offset.toNat (before ++ after).utf8ByteSize
    (ofText (before ++ after)).counts? offset = some (before.toList.count '\n',
      (length? (before ++ after) (lastStart before.toList) stop).getD 0) := by
  have here := getElem?_lineStarts before after
  rw [counts?, line?_ofText short reached next]
  change ((ofText (before ++ after)).starts[before.toList.count '\n']?).bind _ = _
  rw [getElem?_starts, here, Option.map_some, Option.bind_some,
    toNat_ofNat_of_le short (le_of_mem_lineStarts (List.mem_of_getElem? here))]
  rfl

/-- The characters from the start of the last line up to the end of a beginning of the text. -/
theorem length?_lastStart (before after : String) :
    length? (before ++ after) (lastStart before.toList) before.utf8ByteSize =
      some (before.toList.rtakeWhile (· ≠ '\n')).length := by
  have parts : String.ofList (before.toList.rdropWhile (· ≠ '\n')) ++
      String.ofList (before.toList.rtakeWhile (· ≠ '\n')) = before := by
    rw [← String.ofList_append, List.rdropWhile_append_rtakeWhile, String.ofList_toList]
  have piece := length?_append (String.ofList (before.toList.rdropWhile (· ≠ '\n')))
    (String.ofList (before.toList.rtakeWhile (· ≠ '\n'))) after
  rw [parts, String.length_ofList] at piece
  exact piece

/-- Counts from one, of counts from zero. -/
def ordinals (counts : Nat × Nat) : Nat × Nat := (1 + counts.1, 1 + counts.2)

/-- At the end of `before`, which an offset beyond the text stands for too, the place is the one that reading
`before` comes to. -/
theorem counts?_at_end (short : (before ++ after).utf8ByteSize < 2 ^ 32)
    (next : ∀ c ∈ after.toList.head?, offset.toNat < before.utf8ByteSize + c.utf8Size)
    (stop : min offset.toNat (before ++ after).utf8ByteSize = before.utf8ByteSize) :
    ((ofText (before ++ after)).counts? offset).map ordinals =
      some ((Place.origin.advanceAll before.toList).line, (Place.origin.advanceAll before.toList).column) := by
  have reached : before.utf8ByteSize ≤ offset.toNat := stop ▸ Nat.min_le_left _ _
  rw [counts?_ofText short reached next, stop, length?_lastStart, Option.getD_some, Place.line_advanceAll,
    Place.column_advanceAll_origin]
  rfl

/-- Inside a character the column is the first one. -/
theorem counts?_inside (short : (before ++ after).utf8ByteSize < 2 ^ 32) (h : after.toList = c :: cs)
    (past : before.utf8ByteSize < offset.toNat) (inside : offset.toNat < before.utf8ByteSize + c.utf8Size) :
    ((ofText (before ++ after)).counts? offset).map ordinals = some ((Place.origin.advanceAll before.toList).line, 1) := by
  have next : ∀ c ∈ after.toList.head?, offset.toNat < before.utf8ByteSize + c.utf8Size := by
    rw [h]
    rintro _ ⟨⟩
    exact inside
  have width : c.utf8Size ≤ after.utf8ByteSize := by
    rw [← String.ofList_toList (s := after), h, utf8ByteSize_cons]
    exact Nat.le_add_right _ _
  have stop : min offset.toNat (before ++ after).utf8ByteSize = offset.toNat := by
    rw [String.utf8ByteSize_append]
    omega
  rw [counts?_ofText short (Nat.le_of_lt past) next, stop, length?_eq_none (pos?_eq_none h past inside),
    Place.line_advanceAll]
  rfl

/-- An index finds what reading on from the end of `before` finds. -/
theorem counts?_eq_locate (short : (before ++ String.ofList cs).utf8ByteSize < 2 ^ 32)
    (reached : before.utf8ByteSize ≤ offset.toNat) :
    ((ofText (before ++ String.ofList cs)).counts? offset).map ordinals =
      some (Lines.locate offset.toNat (Place.origin.advanceAll before.toList) cs) := by
  induction cs generalizing before with
  | nil =>
    refine counts?_at_end short (by simp) ?_
    rw [String.ofList_nil, String.append_empty]
    exact Nat.min_eq_right reached
  | cons c cs ih =>
    have place := Place.offset_advanceAll_origin before
    have chars : (String.ofList (c :: cs)).toList = c :: cs := String.toList_ofList
    have width : (before ++ String.ofList (c :: cs)).utf8ByteSize =
        before.utf8ByteSize + (String.ofList (c :: cs)).utf8ByteSize := String.utf8ByteSize_append
    unfold Lines.locate
    -- `locate` stops before `c`, inside of `c` or goes on behind it, where `before` has grown by `c`.
    by_cases here : offset.toNat ≤ (Place.origin.advanceAll before.toList).offset
    · rw [if_pos here]
      refine counts?_at_end short ?_ (by omega)
      rw [chars]
      rintro _ ⟨⟩
      have := c.utf8Size_pos
      omega
    rw [if_neg here]
    by_cases inside : offset.toNat < (Place.origin.advanceAll before.toList).offset + c.utf8Size
    · rw [if_pos inside]
      exact counts?_inside short chars (by omega) (by omega)
    · rw [if_neg inside]
      have moved : before ++ String.ofList (c :: cs) = before.push c ++ String.ofList cs := by
        rw [← String.toList_inj]
        simp
      have pushed : Place.origin.advanceAll (before.push c).toList =
          (Place.origin.advanceAll before.toList).advance c := by
        rw [String.toList_push, Place.advanceAll_append]
        rfl
      rw [moved, ← pushed]
      refine ih (moved ▸ short) ?_
      rw [String.utf8ByteSize_push]
      omega

/-- An index counts for every offset what reading the text from its start counts. -/
theorem counts?_eq (short : text.utf8ByteSize < 2 ^ 32) (offset : UInt32) :
    ((ofText text).counts? offset).map ordinals = some (Lines.lineColumn text offset.toNat) := by
  have whole : text = "" ++ String.ofList text.toList := by rw [String.empty_append, String.ofList_toList]
  have located : ((ofText ("" ++ String.ofList text.toList)).counts? offset).map ordinals =
      some (Lines.lineColumn text offset.toNat) :=
    counts?_eq_locate (whole ▸ short) (Nat.zero_le _)
  rwa [← whole] at located

theorem fromOne?_eq_some_iff {count : Nat} {m : UInt32} (fits : count < 2 ^ 32) :
    fromOne? count = some m ↔ m.toNat = 1 + count := by
  have sum : (UInt32.ofNat count + 1).toNat = (count + 1) % 2 ^ 32 := by
    rw [UInt32.toNat_add, UInt32.toNat_ofNat_of_lt' fits]
    rfl
  have range := m.toNat_lt
  have wraps : UInt32.ofNat count + 1 = 0 ↔ (count + 1) % 2 ^ 32 = 0 := by
    rw [← UInt32.toNat_inj, sum]
    rfl
  have reaches : UInt32.ofNat count + 1 = m ↔ (count + 1) % 2 ^ 32 = m.toNat := by rw [← UInt32.toNat_inj, sum]
  unfold fromOne?
  dsimp only
  split
  · rename_i zero
    rw [wraps] at zero
    simp only [reduceCtorEq, false_iff]
    omega
  · rename_i nonzero
    rw [wraps] at nonzero
    rw [Option.some.injEq, reaches]
    omega

/-- The 32-bit line and column of an offset are those that reading the text from its start counts, if these fit. -/
theorem lineColumn?_eq_some_iff (short : text.utf8ByteSize < 2 ^ 32) {line column : UInt32} :
    (ofText text).lineColumn? offset = some (line, column) ↔
      (line.toNat, column.toNat) = Lines.lineColumn text offset.toNat := by
  obtain ⟨⟨l, c⟩, counts, same⟩ := Option.map_eq_some_iff.1 (counts?_eq short offset)
  have bounds := Lines.lineColumn_le text offset.toNat
  have range := offset.toNat_lt
  rw [← same] at bounds ⊢
  dsimp only [ordinals] at bounds ⊢
  have first : fromOne? l = some line ↔ line.toNat = 1 + l := fromOne?_eq_some_iff (by omega)
  have second : fromOne? c = some column ↔ column.toNat = 1 + c := fromOne?_eq_some_iff (by omega)
  rw [lineColumn?, counts, Prod.mk.injEq, ← first, ← second]
  change ((fromOne? l).bind fun a => (fromOne? c).bind fun b => some (a, b)) = some (line, column) ↔ _
  cases fromOne? l <;> cases fromOne? c <;> simp

/-- Lines and columns fit in 32 bits, unless the offset is the greatest of 32 bits. -/
theorem lineColumn?_fits (short : text.utf8ByteSize < 2 ^ 32) (small : offset.toNat + 1 < 2 ^ 32) :
    ∃ line column : UInt32, (ofText text).lineColumn? offset = some (line, column) := by
  have bounds := Lines.lineColumn_le text offset.toNat
  have width : UInt32.size = 2 ^ 32 := rfl
  refine ⟨UInt32.ofNat (Lines.lineColumn text offset.toNat).1, UInt32.ofNat (Lines.lineColumn text offset.toNat).2, ?_⟩
  rw [lineColumn?_eq_some_iff short, UInt32.toNat_ofNat_of_lt' (by omega), UInt32.toNat_ofNat_of_lt' (by omega)]

/-- The spans of ranges are those of the text. -/
theorem span?_eq {start stop : UInt32} (short : text.utf8ByteSize < 2 ^ 32) (small : start.toNat + 1 < 2 ^ 32)
    (small' : stop.toNat + 1 < 2 ^ 32) :
    (ofText text).span? start stop = some (Lines.span text start.toNat stop.toNat) := by
  obtain ⟨line, column, first⟩ := lineColumn?_fits short small
  obtain ⟨line', column', last⟩ := lineColumn?_fits short small'
  rw [span?, first, last, Lines.span, ← (lineColumn?_eq_some_iff short).1 first, ← (lineColumn?_eq_some_iff short).1 last]
  rfl

end Lookups

/-! ### Positions of a text -/

section Positions

variable {text : String} {p q : text.Pos}

def offsetAt (p : text.Pos) : UInt32 := UInt32.ofNat p.offset.byteIdx

def charsBefore (p : text.Pos) : List Char := (text.sliceTo p).copy.toList

/-- The 32-bit lines and columns that an index of a text finds for the positions of the text. -/
structure Exact (text : String) : Prop where
  /-- A line counts the line feeds before the position, a column the characters after the last of them, or from the
  start of the text. None are found if they exceed 32 bits. -/
  counted : ∀ (p : text.Pos) (line column : UInt32), (ofText text).lineColumn? (offsetAt p) = some (line, column) ↔
    line.toNat = 1 + (charsBefore p).count '\n' ∧
      column.toNat = 1 + ((charsBefore p).rtakeWhile (· ≠ '\n')).length
  /-- They never do before the greatest offset of 32 bits. -/
  found : ∀ p : text.Pos, p.offset.byteIdx + 1 < 2 ^ 32 →
    ∃ line column, (ofText text).lineColumn? (offsetAt p) = some (line, column)
  injective : ∀ (p q : text.Pos) (a : UInt32 × UInt32), (ofText text).lineColumn? (offsetAt p) = some a →
    (ofText text).lineColumn? (offsetAt q) = some a → p = q
  ordered : ∀ (p q : text.Pos) (a b : UInt32 × UInt32), (ofText text).lineColumn? (offsetAt p) = some a →
    (ofText text).lineColumn? (offsetAt q) = some b → p < q → a.1 < b.1 ∨ a.1 = b.1 ∧ a.2 < b.2

end Positions

end SkyQuery.LineIndex
