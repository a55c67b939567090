import SkyQuery.Proofs.Located.Queries

/-!
# Rows of parts

`InRow` says that parts stand one after the other between two tokens, and in each of them its own parts do,
at any depth. What a row lists in the order of `Part.all` therefore begins at later and later tokens
(`InRow.begins`). `Ordered` follows a reader that reads a row.
-/

namespace SkyQuery

open Grammar Parse

variable {v : Version} {tokens : List Token} {i j k : Nat}

/-- The parts stand between the tokens `i` and `j` one after the other, each with its own parts in it. -/
inductive InRow (tokens : List Token) : Nat → Nat → List Part → Prop where
  | nil {i j : Nat} (le : i ≤ j) : InRow tokens i j []
  | cons {i a b j : Nat} {p : Part} {ps : List Part} (left : i ≤ a) (span : p.span = some (spanOf tokens a b))
    (parts : InRow tokens a b p.children) (rest : InRow tokens b j ps) : InRow tokens i j (p :: ps)

namespace InRow

variable {p : Part} {ps qs : List Part}

theorem le (h : InRow tokens i j ps) : i ≤ j := by
  induction h with
  | nil le => exact le
  | cons left _ _ _ order rest => exact Nat.le_trans left (Nat.le_trans order rest)

theorem widen {a b : Nat} (h : InRow tokens a b ps) (left : i ≤ a) (right : b ≤ j) : InRow tokens i j ps := by
  induction h generalizing i with
  | nil le => exact .nil (by omega)
  | cons left' span parts _ _ ih => exact .cons (Nat.le_trans left left') span parts (ih (Nat.le_refl _) right)

theorem earlier (h : InRow tokens k j ps) (ik : i ≤ k) : InRow tokens i j ps := h.widen ik (Nat.le_refl j)

theorem later (h : InRow tokens i k ps) (kj : k ≤ j) : InRow tokens i j ps := h.widen (Nat.le_refl i) kj

theorem append {a : Nat} (h : InRow tokens i a ps) (h' : InRow tokens k j qs) (gap : a ≤ k) :
    InRow tokens i j (ps ++ qs) := by
  induction h with
  | nil le => exact h'.earlier (Nat.le_trans le gap)
  | cons left span parts _ _ ih => exact .cons left span parts (ih gap)

/-- A part in its own range. -/
theorem single (span : p.span = some (spanOf tokens i j)) (parts : InRow tokens i j p.children) : InRow tokens i j [p] :=
  .cons (Nat.le_refl i) span parts (.nil (Nat.le_refl j))

/-- What a row starts with is a row. -/
theorem start (h : InRow tokens i j (ps ++ qs)) : InRow tokens i j ps := by
  induction ps generalizing i with
  | nil => exact .nil h.le
  | cons p ps ih =>
    cases h with
    | cons left span parts rest => exact .cons left span parts (ih rest)

/-- The parts of a part that stands alone. -/
theorem parts (h : InRow tokens i j [p]) : InRow tokens i j p.children := by
  cases h with
  | cons left _ parts rest => exact parts.widen left rest.le

/-- The parts of a row, each before its own, begin at tokens that never go back. -/
theorem begins (h : InRow tokens i j ps) : ∃ starts : List Nat,
    (ps.flatMap Part.all).map (fun p => p.span.map Span.first) =
        starts.map (fun a => some ((startOf tokens a).line, (startOf tokens a).column)) ∧
      starts.Pairwise (· ≤ ·) ∧ ∀ a ∈ starts, i ≤ a ∧ a ≤ j := by
  induction h with
  | nil le => exact ⟨[], rfl, .nil, List.forall_mem_nil _⟩
  | @cons i a b j p ps left span parts rest ihParts ihRest =>
    obtain ⟨inner, innerFirst, innerSorted, innerBounds⟩ := ihParts
    obtain ⟨others, othersFirst, othersSorted, othersBounds⟩ := ihRest
    have ab := parts.le
    have bj := rest.le
    refine ⟨a :: (inner ++ others), ?_, ?_, ?_⟩
    · rw [List.flatMap_cons, Part.all, descent_eq, List.cons_append, List.map_cons, List.map_append, List.map_cons,
        List.map_append, ← innerFirst, ← othersFirst, span]
      rfl
    · rw [List.pairwise_cons, List.pairwise_append]
      refine ⟨fun c member => ?_, innerSorted, othersSorted, fun c hc d hd => ?_⟩
      · rcases List.mem_append.1 member with member | member
        · exact (innerBounds c member).1
        · exact Nat.le_trans ab (othersBounds c member).1
      · exact Nat.le_trans (innerBounds c hc).2 (othersBounds d hd).1
    · refine List.forall_mem_cons.2 ⟨⟨left, Nat.le_trans ab bj⟩, fun c member => ?_⟩
      rcases List.mem_append.1 member with member | member
      · have := innerBounds c member
        omega
      · have := othersBounds c member
        omega

end InRow

/-! ### Readers of rows -/

namespace Grammar

variable {α : Type} {part : α → Part} {row : α → List Part}

/-- What the reader reads stands in a row where it is read. -/
def Ordered (v : Version) (tokens : List Token) (row : α → List Part) (p : Parse α) : Prop :=
  ∀ k, Ends v tokens k p fun j a => InRow tokens k j (row a)

/-- What a reader ends with: a part with the span of all that was read. -/
theorem ends_part (part : α → Part) {make : Option Span → α} {ps : List Part} (here : ∀ span, (part (make span)).span = span)
    (parts : ∀ span, (part (make span)).children = ps) (h : InRow tokens i k ps) :
    Ends v tokens k (do return make (← spanFrom (startOf tokens i))) fun j a => InRow tokens i j [part a] := by
  refine .spanFrom (ends_pure (.single (here _) ?_))
  rwa [parts]

section Lists

variable {item : Parse α} {sep : Kind} (hitem : Ordered v tokens row item)

include hitem

theorem Ordered.followers : Ordered v tokens (fun as => as.flatMap row) (followers sep item) := by
  refine fun k => .bounded fun n => ?_
  induction n generalizing k with
  | zero => exact ends_pure (.nil (Nat.le_refl k))
  | succ n ih =>
    refine (moves_eat sep).bind fun j eaten kj => .ite (fun _ => ?_) fun _ => ends_pure (.nil kj)
    refine (hitem j).bind fun j' a jj' ha => (ih j').bind fun l as jl has => ends_pure ?_
    exact (ha.append has (Nat.le_refl j')).earlier kj

theorem Ordered.sepBy : Ordered v tokens (fun as => as.flatMap row) (sepBy sep item) := by
  intro k
  refine (hitem k).bind fun j a kj ha => (hitem.followers j).bind fun l as jl has => ends_pure ?_
  exact ha.append has (Nat.le_refl j)

end Lists

section Single

variable {item : Parse α} {sep : Kind} (hitem : Ordered v tokens (fun a => [part a]) item)

include hitem

theorem Ordered.followers_single : Ordered v tokens (fun as => as.map part) (Parse.followers sep item) := by
  simpa only [List.map_eq_flatMap] using hitem.followers

theorem Ordered.sepBy_single : Ordered v tokens (fun as => as.map part) (Parse.sepBy sep item) := by
  simpa only [List.map_eq_flatMap] using hitem.sepBy

end Single

end Grammar

end SkyQuery
