import SkyQuery.Proofs.Decimal.Written

/-!
# Characters of written numbers

A written number has no characters but digits, points, minus signs and those of the marks and names of its
format (`Decimal.Format.forall_mem_write`).
-/

namespace SkyQuery.Decimal

theorem allDigits_shortest (mantissa shift : Nat) : AllDigits (shortest mantissa shift).digits := by
  unfold shortest
  dsimp only
  split
  · rename_i d power found
    obtain ⟨n, digits⟩ := exists_stripZeros (Nat.toDigits 10 d)
    have all := allDigits_toDigits d
    rw [digits, AllDigits, List.all_append, Bool.and_eq_true] at all
    exact all.1
  · rfl

section Characters

variable {p : Char → Prop} (digit : ∀ c, c.isDigit = true → p c)

include digit

theorem AllDigits.forall_mem {cs : List Char} (all : AllDigits cs) : ∀ c ∈ cs, p c :=
  fun c member => digit c (List.all_eq_true.1 all c member)

theorem forall_mem_toString (minus : p '-') (n : Int) : ∀ c ∈ (toString n).toList, p c := by
  have digits (k : Nat) : ∀ c ∈ (toString k).toList, p c := by
    rw [Nat.toString_eq_ofList_toDigits, String.toList_ofList]
    exact (allDigits_toDigits k).forall_mem digit
  cases n with
  | ofNat k => exact digits k
  | negSucc k =>
    have text : toString (Int.negSucc k) = "-" ++ toString (k + 1) := rfl
    rw [text, String.toList_append]
    exact List.forall_mem_cons.2 ⟨minus, digits (k + 1)⟩

theorem forall_mem_positional (point : p '.') {d : Digits} (all : AllDigits d.digits) :
    ∀ c ∈ (positional d).toList, p c := by
  have zeros (n : Nat) := (allDigits_zeros n).forall_mem digit
  unfold positional
  split
  · rw [String.toList_ofList]
    simp only [List.forall_mem_append, List.forall_mem_cons]
    exact ⟨⟨⟨digit '0' rfl, point, by simp⟩, zeros _⟩, all.forall_mem digit⟩
  · rw [String.toList_ofList]
    simp only [List.forall_mem_append, List.forall_mem_singleton]
    exact ⟨⟨⟨(all.take _).forall_mem digit, zeros _⟩, point⟩, (all.fraction _).forall_mem digit⟩

theorem forall_mem_withExponent (point : p '.') (minus : p '-') {mark : String} (marks : ∀ c ∈ mark.toList, p c)
    {d : Digits} (all : AllDigits d.digits) : ∀ c ∈ (withExponent mark d).toList, p c := by
  unfold withExponent
  simp only [String.toList_append, String.toList_ofList, List.forall_mem_append, List.forall_mem_singleton]
  exact ⟨⟨⟨⟨(all.take 1).forall_mem digit, point⟩, (all.fraction 1).forall_mem digit⟩, marks⟩,
    forall_mem_toString digit minus d.exponent⟩

/-- What holds of digits, points, minus signs and the texts of a format holds of all characters of its numbers. -/
theorem Format.forall_mem_write (f : Format) (point : p '.') (minus : p '-')
    (marks : ∀ c ∈ (f.exponentMark ++ f.nan ++ f.infinity).toList, p c) (x : Float) : ∀ c ∈ (f.write x).toList, p c := by
  simp only [String.toList_append, List.forall_mem_append] at marks
  obtain ⟨⟨mark, nan⟩, infinity⟩ := marks
  have sign (negative : Bool) : ∀ c ∈ (if negative = true then "-" else "").toList, p c := by
    cases negative with
    | false => simp
    | true => exact List.forall_mem_singleton.2 minus
  unfold write
  obtain ⟨negative, magnitude⟩ := parts x
  cases magnitude with
  | nan => exact nan
  | infinite =>
    rw [String.toList_append, List.forall_mem_append]
    exact ⟨sign negative, infinity⟩
  | finite mantissa shift =>
    have all := allDigits_shortest mantissa shift
    dsimp only
    split
    · rw [String.toList_append, List.forall_mem_append]
      refine ⟨sign negative, (?_ : ∀ c ∈ ['0', '.', '0'], p c)⟩
      simp [digit '0' rfl, point]
    · rw [String.toList_append, List.forall_mem_append]
      refine ⟨sign negative, ?_⟩
      split
      · exact forall_mem_positional digit point all
      · exact forall_mem_withExponent digit point minus mark all

end Characters

end SkyQuery.Decimal
