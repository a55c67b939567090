import SkyQuery.Proofs.Token.Visible
import SkyQuery.Proofs.Tree.Quotes

/-!
# Tidy texts

A text is `Tidy` if nothing in its tokens hides or takes in what follows it, if it leaves as many
parentheses open as it says, and if its quoted tokens say what they should. A text is put together piece
by piece: a literal after a tidy text starts with a separator (`Tidy.link`, `Tidy.close`), and a tidy text
stands after a literal that ends with a blank or an opening parenthesis (`Ready.text`).
-/

namespace SkyQuery

open Lexer

/-! ### Kinds of tokens -/

/-- The kinds that no text for a database may hold. -/
def Kind.isUnsafe (k : Kind) : Bool := k.isLoose || k == .nonAscii

/-- How many parentheses are open after a token where `n` are open before, unless it closes one that is
not open. -/
def Kind.nest (k : Kind) (n : Nat) : Option Nat :=
  if k = .leftParen then some (n + 1)
  else if k = .rightParen then if n = 0 then none else some (n - 1)
  else some n

/-- How many parentheses are open after some tokens where `n` are open before, unless one is closed that
is not open. -/
def openAfter (n : Nat) : List Kind → Option Nat
  | [] => some n
  | k :: rest => (k.nest n).bind fun m => openAfter m rest

theorem openAfter_append (n : Nat) (ks ls : List Kind) :
    openAfter n (ks ++ ls) = (openAfter n ks).bind fun m => openAfter m ls := by
  induction ks generalizing n with
  | nil => rfl
  | cons k rest ih => simp only [List.cons_append, openAfter, ih, Option.bind_assoc]

theorem Kind.nest_add {n m : Nat} {k : Kind} (h : k.nest n = some m) (more : Nat) : k.nest (n + more) = some (m + more) := by
  unfold nest at h ⊢
  split
  · rename_i left
    rw [if_pos left] at h
    obtain rfl := Option.some.inj h
    rw [Nat.add_right_comm]
  rename_i left
  rw [if_neg left] at h
  split
  · rename_i right
    rw [if_pos right] at h
    split at h
    · cases h
    · rename_i inside
      obtain rfl := Option.some.inj h
      rw [if_neg (by omega), Nat.sub_add_comm (Nat.one_le_iff_ne_zero.2 inside)]
  · rename_i right
    rw [if_neg right] at h
    obtain rfl := Option.some.inj h
    rfl

/-- Parentheses that are open further out do not matter. -/
theorem openAfter_add {n m : Nat} {ks : List Kind} (h : openAfter n ks = some m) (more : Nat) :
    openAfter (n + more) ks = some (m + more) := by
  induction ks generalizing n with
  | nil =>
    obtain rfl := Option.some.inj h
    rfl
  | cons k rest ih =>
    obtain ⟨between, first, others⟩ := Option.bind_eq_some_iff.1 h
    rw [openAfter, Kind.nest_add first more, Option.bind_some]
    exact ih others

/-- White space opens and closes nothing. -/
theorem openAfter_filter (n : Nat) (ks : List Kind) : openAfter n (ks.filter (· != .blank)) = openAfter n ks := by
  induction ks generalizing n with
  | nil => rfl
  | cons k rest ih =>
    by_cases blank : k = .blank
    · subst blank
      exact ih n
    · rw [List.filter_cons_of_pos (by simpa using blank), openAfter, openAfter]
      simp only [ih]

/-! ### Outlines -/

/-- The kind of a token without a look at which word it is. -/
def Kind.outline : Kind → Kind
  | .keyword _ => .ident
  | k => k

theorem Kind.isLoose_outline (k : Kind) : k.outline.isLoose = k.isLoose := by cases k <;> rfl

theorem Kind.isUnsafe_outline (k : Kind) : k.outline.isUnsafe = k.isUnsafe := by cases k <;> rfl

theorem Kind.nest_outline (k : Kind) (n : Nat) : k.outline.nest n = k.nest n := by cases k <;> rfl

theorem openAfter_outline (n : Nat) (ks : List Kind) : openAfter n (ks.map Kind.outline) = openAfter n ks := by
  induction ks generalizing n with
  | nil => rfl
  | cons k rest ih => simp only [List.map_cons, openAfter, Kind.nest_outline, ih]

namespace Lexer

/-- The outline of the token that starts with `c`, and how many characters of `rest` it takes. To see
which word a token is takes long. -/
def sketch (c : Char) (rest : List Char) : Kind × Nat :=
  if Text.isLetter c then (.ident, run Text.isWordChar rest) else ((first c rest).1.outline, (first c rest).2)

theorem sketch_eq (c : Char) (rest : List Char) : sketch c rest = ((first c rest).1.outline, (first c rest).2) := by
  unfold sketch
  split
  · rename_i letter
    have space : isSpace c = false := by
      cases space : isSpace c with
      | false => rfl
      | true =>
        simp only [isSpace, Bool.or_eq_true, beq_iff_eq] at space
        obtain (((rfl | rfl) | rfl) | rfl) | rfl := space <;> exact absurd letter (by decide)
    have dash : (c == '-') = false := by
      rw [beq_eq_false_iff_ne]
      rintro rfl
      exact absurd letter (by decide)
    have word : (wordKind (c :: rest.take (run Text.isWordChar rest))).outline = .ident := by
      unfold wordKind
      split <;> rfl
    simp [first, space, dash, letter, word]
  · rfl

/-- The outlines of the tokens of a text without its white space, where `n` characters belong to a token
that is already seen. -/
def outlines : Nat → List Char → List Kind
  | _, [] => []
  | n + 1, _ :: rest => outlines n rest
  | 0, c :: rest =>
    if (sketch c rest).1 = .blank then outlines (sketch c rest).2 rest
    else (sketch c rest).1 :: outlines (sketch c rest).2 rest

theorem outlines_eq (n : Nat) (cs : List Char) : outlines n cs = (visible (cs.drop n)).map fun w => w.1.outline := by
  have blank (k : Kind) : k.outline = .blank ↔ k = .blank := by cases k <;> simp [Kind.outline]
  fun_induction outlines n cs with
  | case1 => rw [List.drop_nil, visible_nil, List.map_nil]
  | case2 n c rest ih => rw [ih, List.drop_succ_cons]
  | case3 c rest seen ih =>
    rw [sketch_eq] at seen ih ⊢
    rw [List.drop_zero, visible_cons, if_pos ((blank _).1 seen), ih]
  | case4 c rest seen ih =>
    rw [sketch_eq] at seen ih ⊢
    rw [List.drop_zero, visible_cons, if_neg (mt (blank _).2 seen), List.map_cons, ih]

end Lexer

namespace Sql

/-- A text without unsafe tokens that leaves `o` parentheses open; if `track`, its quoted tokens say `qs`. -/
structure Tidy (track : Bool) (text : String) (o : Nat) (qs : List Quote) : Prop where
  safe : ∀ w ∈ visible text.toList, w.1.isUnsafe = false
  nests : openAfter 0 ((visible text.toList).map Prod.fst) = some o
  quotes : track = true → (visible text.toList).filterMap Quote.ofWord? = qs

/-- A tidy text after which any other can stand. -/
structure Ready (track : Bool) (text : String) (o : Nat) (qs : List Quote) : Prop extends Tidy track text o qs where
  ends : ∀ rest, visible (text.toList ++ rest) = visible text.toList ++ visible rest

/-- A tidy text without open parentheses that is empty or starts with a separator. -/
structure Trails (track : Bool) (text : String) (qs : List Quote) : Prop extends Tidy track text 0 qs where
  apart : Separates text.toList

variable {track : Bool} {a b : String} {m n o : Nat} {qs rs : List Quote}

theorem Tidy.closed (h : Tidy track a o qs) : ∀ w ∈ visible a.toList, w.1.isLoose = false := by
  intro w member
  have safe := h.safe w member
  rw [Kind.isUnsafe, Bool.or_eq_false_iff] at safe
  exact safe.1

theorem Tidy.lex (h : Tidy track a o qs) :
    (∀ t ∈ Lexer.lex a, t.kind.isUnsafe = false) ∧ openAfter 0 ((Lexer.lex a).map Token.kind) = some o ∧
      (track = true → (Lexer.lex a).filterMap (fun t => Quote.ofWord? t.word) = qs) := by
  have seen : visible a.toList = ((Lexer.lex a).filter (·.kind != .blank)).map Token.word := rfl
  obtain ⟨safe, nests, quotes⟩ := h
  rw [seen] at safe nests quotes
  refine ⟨fun t member => ?_, ?_, fun tracked => ?_⟩
  · cases blank : t.kind == .blank with
    | true =>
      rw [beq_iff_eq.1 blank]
      rfl
    | false => exact safe t.word (List.mem_map_of_mem (List.mem_filter.2 ⟨member, by simp [bne, blank]⟩))
  · rw [← openAfter_filter, List.filter_map]
    rwa [List.map_map] at nests
  · rw [← quotes tracked, List.filterMap_map, List.filterMap_filter]
    refine List.filterMap_congr fun t _ => ?_
    split
    · rfl
    · rename_i blank
      have kind : t.kind = .blank := by simpa using blank
      rw [Token.word, kind]
      rfl

/-! ### Literals -/

/-- Whether a text ends with a blank, or with an opening parenthesis, that no token takes in. -/
def leads (text : String) : Bool :=
  (outlines 0 text.toList.dropLast).all (!·.isLoose) &&
    [' ', '\n', '('].any fun c => text.toList.getLast? == some c

/-- Whether a text starts with a separator. -/
def parts (text : String) : Bool := text.toList.head?.any fun c => [' ', '\n', '(', ')', ','].contains c

/-- Whether a text is tidy where `m` parentheses are open, leaves `o` open and quotes nothing. -/
def isTidy (text : String) (m o : Nat) : Bool :=
  let kinds := outlines 0 text.toList
  kinds.all (fun k => !k.isUnsafe && k != .string && k != .quotedIdent) && openAfter m kinds == some o

theorem visible_leads (h : leads a = true) (rest : List Char) :
    visible (a.toList ++ rest) = visible a.toList ++ visible rest := by
  rw [leads, Bool.and_eq_true, List.any_eq_true] at h
  obtain ⟨closed, c, member, last⟩ := h
  have closed : ∀ w ∈ visible a.toList.dropLast, w.1.isLoose = false := by
    simpa [outlines_eq, Kind.isLoose_outline] using closed
  have split : a.toList.dropLast ++ [c] = a.toList := by
    obtain ⟨front, whole⟩ := List.getLast?_eq_some_iff.1 (beq_iff_eq.1 last)
    rw [whole, List.dropLast_concat]
  have apart (rest : List Char) : Separates (c :: rest) := by
    intro d found
    obtain rfl := Option.some.inj found
    simp only [List.mem_cons, List.not_mem_nil, or_false] at member
    rcases member with rfl | rfl | rfl <;> simp
  have alone : visible (c :: rest) = visible [c] ++ visible rest := by
    simp only [List.mem_cons, List.not_mem_nil, or_false] at member
    rcases member with rfl | rfl | rfl
    · rw [visible_space rfl, visible_space rfl, visible_nil, List.nil_append]
    · rw [visible_space rfl, visible_space rfl, visible_nil, List.nil_append]
    · have whole (rest : List Char) : visible ('(' :: rest) = (.leftParen, "(") :: visible rest :=
        visible_first [] rest (Grammar.first_symbol (by decide) rest) (by decide)
      rw [whole, whole, visible_nil, List.singleton_append]
  rw [← split, List.append_assoc, List.singleton_append, visible_append closed (apart rest), alone,
    visible_append closed (apart []), List.append_assoc]

theorem separates_of_parts (h : parts a = true) (rest : List Char) : Separates (a.toList ++ rest) := by
  intro c found
  rw [parts, Option.any_eq_true] at h
  obtain ⟨d, head, member⟩ := h
  rw [List.head?_append, head] at found
  obtain rfl : d = c := Option.some.inj found
  simpa using member

/-- What is told of a literal without a look at which words it is made of. -/
theorem visible_of_isTidy (h : isTidy a m o = true) :
    (∀ w ∈ visible a.toList, w.1.isUnsafe = false) ∧ openAfter m ((visible a.toList).map Prod.fst) = some o ∧
      (visible a.toList).filterMap Quote.ofWord? = [] := by
  simp only [isTidy, outlines_eq, List.drop_zero, Bool.and_eq_true, List.all_map, List.all_eq_true, Function.comp_apply,
    Kind.isUnsafe_outline, beq_iff_eq, Bool.not_eq_true', bne_iff_ne, ne_eq] at h
  obtain ⟨each, nests⟩ := h
  refine ⟨fun w member => (each w member).1.1, ?_, List.filterMap_eq_nil_iff.2 fun w member => ?_⟩
  · rwa [← openAfter_outline, List.map_map]
  · obtain ⟨⟨-, noString⟩, noName⟩ := each w member
    obtain ⟨kind, text⟩ := w
    cases kind <;> first | rfl | simp [Kind.outline] at noString noName

/-! ### Pieces -/

/-- What follows a tidy text, where it is seen as it is alone. -/
theorem Tidy.extend (ha : Tidy track a m qs) (apart : visible (a ++ b).toList = visible a.toList ++ visible b.toList)
    (safe : ∀ w ∈ visible b.toList, w.1.isUnsafe = false) (nests : openAfter m ((visible b.toList).map Prod.fst) = some o)
    (quotes : track = true → (visible b.toList).filterMap Quote.ofWord? = rs) : Tidy track (a ++ b) o (qs ++ rs) where
  safe := by
    rw [apart, List.forall_mem_append]
    exact ⟨ha.safe, safe⟩
  nests := by
    rw [apart, List.map_append, openAfter_append, ha.nests]
    exact nests
  quotes tracked := by rw [apart, List.filterMap_append, ha.quotes tracked, quotes tracked]

/-- A text without open parentheses may stand inside of others. -/
theorem Tidy.within (ha : Tidy track a m qs) (hb : Tidy track b 0 rs)
    (apart : visible (a ++ b).toList = visible a.toList ++ visible b.toList) : Tidy track (a ++ b) m (qs ++ rs) := by
  have nests := openAfter_add hb.nests m
  rw [Nat.zero_add] at nests
  exact ha.extend apart hb.safe nests hb.quotes

theorem Ready.text (ha : Ready track a m qs) (hb : Tidy track b 0 rs) : Tidy track (a ++ b) m (qs ++ rs) :=
  ha.within hb (by rw [String.toList_append, ha.ends])

theorem Ready.word (ha : Ready track a m qs) (hb : Tidy track b 0 []) : Tidy track (a ++ b) m qs := by
  have whole := ha.text hb
  rwa [List.append_nil] at whole

theorem Tidy.trail (ha : Tidy track a m qs) (hb : Trails track b rs) : Tidy track (a ++ b) m (qs ++ rs) :=
  ha.within hb.toTidy (by rw [String.toList_append, visible_append ha.closed hb.apart])

section Literals

variable (l : String) (o : Nat)

theorem Ready.start (h : isTidy l 0 o ∧ leads l) : Ready track l o [] := by
  obtain ⟨safe, nests, quotes⟩ := visible_of_isTidy h.1
  exact { safe, nests, quotes := fun _ => quotes, ends := visible_leads h.2 }

/-- A literal at the end of a text, after which `o` parentheses are open. -/
theorem Tidy.close (ha : Tidy track a m qs) (h : isTidy l m o ∧ parts l) : Tidy track (a ++ l) o qs := by
  obtain ⟨safe, nests, quotes⟩ := visible_of_isTidy h.1
  have apart := visible_append ha.closed (separates_of_parts h.2 [])
  rw [List.append_nil, ← String.toList_append] at apart
  have whole := ha.extend apart safe nests fun _ => quotes
  rwa [List.append_nil] at whole

theorem Ready.finish (ha : Ready track a m qs) (h : isTidy l m o) : Tidy track (a ++ l) o qs := by
  obtain ⟨safe, nests, quotes⟩ := visible_of_isTidy h
  have whole := ha.extend (by rw [String.toList_append, ha.ends]) safe nests fun _ => quotes
  rwa [List.append_nil] at whole

theorem Ready.literal (ha : Ready track a m qs) (h : isTidy l m o ∧ leads l) : Ready track (a ++ l) o qs := by
  refine { ha.finish l o h.1 with ends := fun rest => ?_ }
  rw [String.toList_append, List.append_assoc, ha.ends, visible_leads h.2, ha.ends, List.append_assoc]

/-- A literal inside a text, after which `o` parentheses are open. -/
theorem Tidy.link (ha : Tidy track a m qs) (h : isTidy l m o ∧ parts l ∧ leads l) : Ready track (a ++ l) o qs := by
  obtain ⟨tidy, starts, ends⟩ := h
  have separates := separates_of_parts starts
  have alone := visible_append ha.closed (separates [])
  rw [List.append_nil] at alone
  refine { ha.close l o ⟨tidy, starts⟩ with ends := fun rest => ?_ }
  rw [String.toList_append, List.append_assoc, visible_append ha.closed (separates rest), visible_leads ends,
    ← List.append_assoc, alone]

theorem Tidy.between (ha : Tidy track a 0 qs) (r : String) (opens : isTidy l 0 o ∧ leads l)
    (closes : isTidy r o 0 ∧ parts r) : Tidy track (l ++ a ++ r) 0 qs := ((Ready.start l o opens).text ha).close r 0 closes

theorem Ready.textIf (ha : Ready track a m qs) (condition : Bool) (h : isTidy l m m ∧ leads l) :
    Ready track (a ++ textIf condition l) m qs := by
  cases condition with
  | false => simpa [SkyQuery.textIf] using ha
  | true => exact ha.literal l m h

theorem tidy_literal (h : isTidy l 0 0) : Tidy track l 0 [] := by
  obtain ⟨safe, nests, quotes⟩ := visible_of_isTidy h
  exact ⟨safe, nests, fun _ => quotes⟩

end Literals

/-! ### Texts that may be missing -/

theorem tidy_empty : Tidy track "" 0 [] := tidy_literal "" (by decide)

theorem trails_empty : Trails track "" [] := { tidy_empty with apart := separates_nil }

theorem Trails.append (ha : Trails track a qs) (hb : Trails track b rs) : Trails track (a ++ b) (qs ++ rs) := by
  refine { ha.toTidy.trail hb with apart := ?_ }
  rw [String.toList_append]
  cases chars : a.toList with
  | nil => exact hb.apart
  | cons c rest =>
    have apart := ha.apart
    rw [chars] at apart
    exact apart

/-- A tidy text that starts with a separator. -/
theorem Tidy.trails {l : String} (h : Tidy track (l ++ b) 0 qs) (starts : parts l) :
    Trails track (l ++ b) qs := by
  have apart := separates_of_parts starts b.toList
  rw [← String.toList_append] at apart
  exact { h with apart }

theorem trails_textIf (condition : Bool) (l : String) (h : isTidy l 0 0 ∧ parts l) :
    Trails track (textIf condition l) [] := by
  cases condition with
  | false => exact trails_empty
  | true =>
    have apart := separates_of_parts h.2 []
    rw [List.append_nil] at apart
    exact { tidy_literal l h.1 with apart }

end Sql

end SkyQuery
