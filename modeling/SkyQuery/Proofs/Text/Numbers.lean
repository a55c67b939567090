import SkyQuery.Grammar.Parse

/-!
# Numbers in digits

A natural number is written in digits and read from them again, if it is below the limit of the reader.
-/

namespace SkyQuery

theorem Text.digits_toString (n : Nat) :
    (toString n).toList ≠ [] ∧ ∀ c ∈ (toString n).toList, c.isDigit = true := by
  rw [Nat.toString_eq_ofList_toDigits, String.toList_ofList]
  exact ⟨Nat.toDigits_ne_nil, fun c member => Nat.isDigit_of_mem_toDigits (by decide) (by decide) member⟩

namespace Grammar.Parse

variable {limit n : Nat}

theorem digitsBelow?_toString (h : n < limit) : digitsBelow? limit (toString n) = some n := by
  have value : (toString n).toList.foldl (fun n c => 10 * n + (c.toNat - '0'.toNat)) 0 = n := by
    rw [Nat.toString_eq_ofList_toDigits, String.toList_ofList, ← Nat.ofDigitChars_eq_foldl]
    exact Nat.ofDigitChars_ten_toDigits
  unfold digitsBelow?
  rw [value]
  exact if_pos h

theorem digitsBelow?_lt {text : String} (h : digitsBelow? limit text = some n) : n < limit := by
  dsimp only [digitsBelow?] at h
  split at h
  · rename_i below
    exact Option.some.inj h ▸ below
  · cases h

end Grammar.Parse

end SkyQuery
