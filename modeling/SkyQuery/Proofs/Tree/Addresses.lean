import SkyQuery.Proofs.Tree.Parts

/-!
# Addresses in trees

An address says, level by level, which child to take. All that is below a root stands at one address each,
and `descent` lists it in the lexicographic order of the addresses (`exists_addresses`): whatever has other
things below it comes before them, and after all that is below its elder siblings.
-/

namespace SkyQuery

variable {α β : Type} {children : α → List α}

/-- What stands at an address below `a`. -/
def below? (children : α → List α) : α → List Nat → Option α
  | a, [] => some a
  | a, n :: address => (children a)[n]?.bind fun c => below? children c address

/-- What stands at an address in a row of trees, of which the first number chooses one. -/
def standing? (children : α → List α) (roots : List α) : List Nat → Option α
  | [] => none
  | n :: address => roots[n]?.bind fun a => below? children a address

/-- The addresses of what is listed, in their order; `get?` finds nothing anywhere else. -/
structure Addressed (get? : List Nat → Option α) (addresses : List (List Nat)) (listed : List α) : Prop where
  found : addresses.map get? = listed.map some
  every : ∀ address, (get? address).isSome = true → address ∈ addresses
  sorted : addresses.Pairwise (· < ·)

namespace Addressed

variable {get? : List Nat → Option α} {addresses : List (List Nat)} {listed : List α}

/-- What passes a filter stands where it stood. -/
theorem filterMap (h : Addressed get? addresses listed) (pick : α → Option β) :
    Addressed (fun address => (get? address).bind pick)
      (addresses.filter fun address => ((get? address).bind pick).isSome) (listed.filterMap pick) := by
  refine ⟨?_, fun address some => ?_, h.sorted.filter _⟩
  · have found := h.found
    clear h
    induction addresses generalizing listed with
    | nil =>
      obtain rfl := List.map_eq_nil_iff.1 found.symm
      rfl
    | cons address rest ih =>
      obtain ⟨a, others, rfl, here, found⟩ := List.map_eq_cons_iff.1 found.symm
      have rest := ih found.symm
      cases picked : pick a with
      | none => simp [← here, picked, rest]
      | some b => simp [← here, picked, rest]
  · obtain ⟨a, here, -⟩ := Option.bind_eq_some_iff.1 (Option.some_get some).symm
    exact List.mem_filter.2 ⟨h.every address (by rw [here]; rfl), some⟩

theorem isSome (h : Addressed get? addresses listed) : ∀ address ∈ addresses, (get? address).isSome = true := by
  intro address member
  have here : get? address ∈ listed.map some := h.found ▸ List.mem_map_of_mem member
  obtain ⟨a, -, same⟩ := List.mem_map.1 here
  rw [← same]
  rfl

theorem nodup (h : Addressed get? addresses listed) : addresses.Nodup :=
  h.sorted.imp fun before same => absurd (same ▸ before) (List.lt_irrefl _)

/-- What is later is not above what is earlier. -/
theorem parentsFirst (h : Addressed get? addresses listed) : addresses.Pairwise fun p q => ¬q <+: p :=
  h.sorted.imp fun before above => above.le before

end Addressed

/-! ### Rows of trees -/

/-- The same address in the next tree of a row. -/
def nextTree : List Nat → List Nat
  | [] => []
  | n :: address => (n + 1) :: address

theorem nextTree_lt {p q : List Nat} (h : p < q) : nextTree p < nextTree q := by
  cases p with
  | nil =>
    cases q with
    | nil => exact h
    | cons m q => exact List.nil_lt_cons _ _
  | cons n p =>
    cases q with
    | nil => exact absurd h (List.not_lt_nil _)
    | cons m q =>
      rw [List.cons_lt_cons_iff] at h
      rw [nextTree, nextTree, List.cons_lt_cons_iff]
      exact h.imp Nat.succ_lt_succ fun ⟨same, before⟩ => ⟨congrArg Nat.succ same, before⟩

theorem standing?_nextTree {a : α} {rest : List α} (address : List Nat) :
    standing? children (a :: rest) (nextTree address) = standing? children rest address := by
  cases address <;> rfl

/-- An address in a row of trees says in which of them. -/
theorem exists_cons_of_standing {roots : List α} {address : List Nat}
    (h : (standing? children roots address).isSome = true) : ∃ n below, address = n :: below := by
  cases address with
  | nil => cases h
  | cons n below => exact ⟨n, below, rfl⟩

theorem addressed_cons {lists : List α} {a : α} {rest others : List α} {here there : List (List Nat)}
    (first : Addressed (below? children a) here lists) (later : Addressed (standing? children rest) there others) :
    Addressed (standing? children (a :: rest)) (here.map (0 :: ·) ++ there.map nextTree) (lists ++ others) := by
  refine ⟨?_, fun address some => ?_, ?_⟩
  · rw [List.map_append, List.map_append, ← first.found, ← later.found, List.map_map, List.map_map]
    exact congrArg _ (List.map_congr_left fun address _ => standing?_nextTree address)
  · obtain ⟨n, below, rfl⟩ := exists_cons_of_standing some
    cases n with
    | zero => exact List.mem_append_left _ (List.mem_map_of_mem (first.every below some))
    | succ n => exact List.mem_append_right _ (List.mem_map_of_mem (later.every (n :: below) some))
  · rw [List.pairwise_append, List.pairwise_map, List.pairwise_map]
    refine ⟨first.sorted.imp fun before => ?_, later.sorted.imp nextTree_lt, ?_⟩
    · exact List.cons_lt_cons_iff.2 (.inr ⟨rfl, before⟩)
    · simp only [List.forall_mem_map]
      intro p _ q member
      obtain ⟨n, below, rfl⟩ := exists_cons_of_standing (later.isSome q member)
      exact List.cons_lt_cons_iff.2 (.inl (Nat.succ_pos n))

theorem addressed_row {lists : α → List α} {roots : List α}
    (each : ∀ a ∈ roots, ∃ addresses, Addressed (below? children a) addresses (lists a)) :
    ∃ addresses, Addressed (standing? children roots) addresses (roots.flatMap lists) := by
  induction roots with
  | nil =>
    refine ⟨[], rfl, fun address some => ?_, .nil⟩
    cases address <;> cases some
  | cons a rest ih =>
    obtain ⟨here, first⟩ := each a List.mem_cons_self
    obtain ⟨there, later⟩ := ih fun b member => each b (List.mem_cons_of_mem _ member)
    exact ⟨_, addressed_cons first later⟩

variable {below : WellFounded fun c a => c ∈ children a}

theorem addressed_below (a : α) : ∃ addresses, Addressed (below? children a) addresses (descent children below a) := by
  induction a using below.induction with
  | h a ih =>
    obtain ⟨addresses, row⟩ := addressed_row ih
    have inside : ∀ p ∈ addresses, below? children a p = standing? children (children a) p ∧ [] < p := by
      intro p member
      obtain ⟨n, rest, rfl⟩ := exists_cons_of_standing (row.isSome p member)
      exact ⟨rfl, List.nil_lt_cons n rest⟩
    refine ⟨[] :: addresses, ?_, fun address some => ?_, ?_⟩
    · rw [descent_eq, List.map_cons, List.map_cons, ← row.found]
      exact congrArg _ (List.map_congr_left fun p member => (inside p member).1)
    · cases address with
      | nil => exact List.mem_cons_self
      | cons n rest => exact List.mem_cons_of_mem _ (row.every (n :: rest) some)
    · exact List.pairwise_cons.2 ⟨fun p member => (inside p member).2, row.sorted⟩

/-- All that is below some roots stands at one address each, in the order of `descent`. -/
theorem exists_addresses (roots : List α) :
    ∃ addresses, Addressed (standing? children roots) addresses (roots.flatMap (descent children below)) :=
  addressed_row fun a _ => addressed_below a

end SkyQuery
