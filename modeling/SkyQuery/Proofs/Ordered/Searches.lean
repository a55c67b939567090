import SkyQuery.Proofs.Located.Texts
import SkyQuery.Proofs.Ordered.Queries
import SkyQuery.Proofs.Tree.Addresses
import SkyQuery.Proofs.Tree.Roots

/-!
# Searches are in document order

`Entry.read_searched`: the operands and the conditions that a tree lists, as many of them as pass any test,
are those at some addresses, each once, parents before their descendants, and the places in the text where
they begin never go back.
-/

namespace SkyQuery

open Grammar Parse

variable {v : Version} {text : String} {entry : Entry} {f : Fragment}

/-- What stands at an address in the trees of a fragment. -/
def Fragment.at? (f : Fragment) : List Nat → Option Part := standing? Part.children f.roots

/-- All that `pick` finds in the parts of a fragment is listed, from the addresses in their order. -/
structure Fragment.Search {α : Type} (f : Fragment) (pick : Part → Option α) (span : α → Option Span)
    (addresses : List (List Nat)) (found : List α) : Prop where
  listed : addresses.map (fun address => (f.at? address).bind pick) = found.map some
  every : ∀ address, ((f.at? address).bind pick).isSome = true → address ∈ addresses
  once : addresses.Nodup
  /-- No later address is above an earlier one. -/
  parentsFirst : addresses.Pairwise fun p q => ¬q <+: p
  /-- The lines and columns where what is listed begins. -/
  ordered : ∃ begins : List (Nat × Nat), found.map (fun a => (span a).map Span.first) = begins.map some ∧
    begins.Pairwise fun a b => Span.before b a = false

/-! ### Rows of roots -/

theorem Grammar.whereClause_ordered {tokens : List Token} :
    Ordered v tokens (fun c => [.constraint c]) whereClause :=
  fun _ => (moves_expect _).bind fun a _ ka => (condition_ordered subquery_ordered a).mono fun _ _ _ h => h.earlier ka

/-- The trees of whatever is read stand in a row of its tokens. -/
theorem Entry.read_row (h : entry.read v text = .ok f) : ∃ tokens j,
    Cut v .origin text.toList tokens ∧ j ≤ (wordsBefore tokens).length ∧ InRow tokens 0 j f.roots := by
  have clause {α : Type} {p : Parse α} {wrap : α → Fragment} (h : (readWhole p v text).map wrap = .ok f)
      (hp : ∀ tokens, Ordered v tokens (fun a => (wrap a).roots) p) : ∃ tokens j,
      Cut v .origin text.toList tokens ∧ j ≤ (wordsBefore tokens).length ∧ InRow tokens 0 j f.roots := by
    obtain ⟨a, read, rfl⟩ := ok_of_map h
    exact readWhole_ends (fun tokens => (hp tokens 0).inside) read
  cases entry with
  | query => exact clause h fun _ => query_ordered
  | select => exact clause h fun _ => selectClause_ordered
  | source => exact clause h fun _ => fromClause_ordered subquery_ordered
  | filter => exact clause h fun _ => whereClause_ordered
  | orderBy => exact clause h fun _ => orderByClause_ordered
  | groupBy => exact clause h fun _ => groupByClause_ordered

/-- The parts of whatever is read, each before its own, begin at places that never go back. -/
theorem Entry.read_begins (h : entry.read v text = .ok f) : ∃ begins : List (Nat × Nat),
    (f.roots.flatMap Part.all).map (fun p => p.span.map Span.first) = begins.map some ∧
      begins.Pairwise fun a b => Span.before b a = false := by
  obtain ⟨tokens, j, cut, inside, row⟩ := Entry.read_row h
  obtain ⟨starts, first, sorted, bounds⟩ := row.begins
  refine ⟨starts.map fun a => ((startOf tokens a).line, (startOf tokens a).column), ?_, ?_⟩
  · rw [first, List.map_map]
    rfl
  · rw [List.pairwise_map]
    refine sorted.imp_of_mem fun {a b} _ member le => Bool.eq_false_iff.2 fun before => ?_
    have within : b < tokens.length := lt_length_of_words (Nat.le_trans (bounds b member).2 inside) cut.ended_by
    exact cut.startOf_mono le within (Span.before_iff.1 before)

/-! ### Searches -/

/-- What is picked out of parts begins where they do. -/
theorem begins_filterMap {α : Type} {pick : Part → Option α} {span : α → Option Span}
    (own : ∀ p a, pick p = some a → span a = p.span) (ps : List Part) :
    ((ps.filterMap pick).map fun a => (span a).map Span.first).Sublist (ps.map fun p => p.span.map Span.first) := by
  induction ps with
  | nil => exact .slnil
  | cons p rest ih =>
    rw [List.map_cons]
    cases picked : pick p with
    | none =>
      rw [List.filterMap_cons_none picked]
      exact ih.cons _
    | some a =>
      rw [List.filterMap_cons_some picked, List.map_cons, own p a picked]
      exact ih.cons_cons _

theorem Entry.read_search {α : Type} {pick : Part → Option α} {span : α → Option Span}
    (own : ∀ p a, pick p = some a → span a = p.span) (h : entry.read v text = .ok f) :
    ∃ addresses, f.Search pick span addresses ((f.roots.flatMap Part.all).filterMap pick) := by
  obtain ⟨addresses, addressed⟩ : ∃ addresses, Addressed f.at? addresses (f.roots.flatMap Part.all) :=
    exists_addresses f.roots
  have searched := addressed.filterMap pick
  obtain ⟨begins, first, sorted⟩ := Entry.read_begins h
  refine ⟨_, searched.found, searched.every, searched.nodup, searched.parentsFirst, ?_⟩
  have some := begins_filterMap own (f.roots.flatMap Part.all)
  rw [first, List.sublist_map_iff] at some
  obtain ⟨picked, sublist, same⟩ := some
  exact ⟨picked, same, sorted.sublist sublist⟩

/-- Searching what was read from a text for operands or conditions that pass a test lists all of them at any
depth, each once, in document order. -/
theorem Entry.read_searched (h : entry.read v text = .ok f) (wanted : Operand → Bool) (sought : Constraint → Bool) :
    (∃ addresses, f.Search (fun p => p.operand?.filter wanted) Operand.span addresses (f.operands.filter wanted)) ∧
      ∃ addresses, f.Search (fun p => p.constraint?.filter sought) Constraint.span addresses
        (f.constraints.filter sought) := by
  constructor
  · rw [f.operands_eq, List.filter_filterMap]
    refine Entry.read_search (fun p o found => ?_) h
    cases p with
    | operand o' =>
      obtain ⟨⟨⟩, -⟩ := Option.filter_eq_some_iff.1 found
      rfl
    | _ => cases found
  · rw [f.constraints_eq, List.filter_filterMap]
    refine Entry.read_search (fun p c found => ?_) h
    cases p with
    | constraint c' =>
      obtain ⟨⟨⟩, -⟩ := Option.filter_eq_some_iff.1 found
      rfl
    | _ => cases found

theorem Entry.read_searched_columns :
    let text := "WITH w AS (SELECT a FROM t)\nSELECT -b FROM w JOIN u ON w.a = u.d\nWHERE c IN (SELECT e FROM v) UNION SELECT a FROM t ORDER BY a"
    let column (o : Operand) : Bool := o.asColumn?.isSome
    let member (c : Constraint) : Bool := !c.subqueries.isEmpty
    ∃ f, Entry.query.read .v21 text = .ok f ∧
      (f.operands.filter column).map (fun o => o.span.map Span.first) =
        [(1, 19), (2, 9), (2, 28), (2, 34), (3, 7), (3, 20), (3, 43), (3, 61)].map some ∧
      (∃ addresses, f.Search (fun p => p.operand?.filter column) Operand.span addresses (f.operands.filter column)) ∧
      ∃ addresses, f.Search (fun p => p.constraint?.filter member) Constraint.span addresses
        (f.constraints.filter member) := by
  intro text column member
  have found : ((Entry.query.read .v21 text).toOption.map fun f =>
      (f.operands.filter column).map fun o => o.span.map Span.first) =
      some ([(1, 19), (2, 9), (2, 28), (2, 34), (3, 7), (3, 20), (3, 43), (3, 61)].map some) := by
    decide +kernel
  obtain ⟨f, read, begins⟩ := Option.map_eq_some_iff.1 found
  have read := toOption_eq_some_iff.1 read
  obtain ⟨operands, constraints⟩ := Entry.read_searched read column member
  exact ⟨f, read, begins, operands, constraints⟩

end SkyQuery
