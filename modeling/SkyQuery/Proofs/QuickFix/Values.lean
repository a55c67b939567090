import Mathlib
import SkyQuery.Proofs.Located.Values
import SkyQuery.Proofs.QuickFix.Quotes
import SkyQuery.Proofs.Rereads.Shapes

/-!
# Misused words of values

The words that a reader takes although a quick fix would quote them are those of the types of casts, where
no length follows. `Pays` counts them along a reader: `value_pays` says that a value is read from as many
of them as its casts have.
-/

namespace SkyQuery

/-! ### Bare types -/

/-- The reserved words of a type without a length. -/
def CastType.bareWords : CastType → Nat
  | .bigInt | .char (some _) | .varChar (some _) => 0
  | .doublePrecision => 2
  | _ => 1

def Part.ownBareWords : Part → Nat
  | .operand (.cast _ target _) => target.bareWords
  | _ => 0

/-- The reserved words of the types without a length to which a part casts, at any depth. -/
def Part.bareWords (p : Part) : Nat := (p.all.map Part.ownBareWords).sum

theorem Part.bareWords_eq (p : Part) : p.bareWords = p.ownBareWords + (p.children.map Part.bareWords).sum := by
  have below (ps : List Part) : ((ps.flatMap Part.all).map ownBareWords).sum = (ps.map bareWords).sum := by
    induction ps with
    | nil => rfl
    | cons p ps ih => rw [List.flatMap_cons, List.map_append, List.sum_append, ih, List.map_cons, List.sum_cons, bareWords]
  rw [bareWords, Part.all, descent_eq, List.map_cons, List.sum_cons]
  exact congrArg _ (below p.children)

def Operand.bareWords (o : Operand) : Nat := (Part.operand o).bareWords

theorem Operand.bareWords_eq (o : Operand) :
    o.bareWords = (Part.operand o).ownBareWords + (o.children.map Operand.bareWords).sum := by
  rw [Operand.bareWords, Part.bareWords_eq, Part.children, List.map_map]
  rfl

namespace Grammar

open Parse QuickFix

variable {α β : Type} {v : Version} {tokens : List Token} {i j k n : Nat} {s t : State} {value p : Parse α}

/-! ### Misused words ahead -/

/-- How many words are misused from the token `k` on. -/
def ahead (v : Version) (tokens : List Token) (k : Nat) : Nat := misuses v ((wordsBefore tokens).drop k)

/-- The next word is taken for what it is before the word after it. -/
theorem ahead_of_advance (hs : s.At tokens k) : ∃ j, k ≤ j ∧ s.advance.At tokens j ∧ ahead v tokens k =
    (misused v s.current.word (nextKind ((wordsBefore tokens).drop j))).toNat + ahead v tokens j := by
  obtain ⟨j, kj, ht, -⟩ := moves_advance (v := v) tokens k s s.current s.advance hs rfl
  refine ⟨j, kj, ht, ?_⟩
  have shows := hs.shows
  unfold ahead
  cases left : (wordsBefore tokens).drop k with
  | nil =>
    -- the end of the text is never passed
    have past : (wordsBefore tokens).drop j = [] := by
      rw [← Nat.add_sub_cancel' kj, ← List.drop_drop, left, List.drop_nil]
    rw [left] at shows
    have ended : s.current.word = endWord := (List.cons.inj shows).1
    rw [past, ended]
    rfl
  | cons w ws =>
    rw [left] at shows
    rw [ht.shows.unique shows.advance, misuses, shows.current]

/-- A word that is never misused is taken for free. -/
theorem ahead_of_proper (hs : s.At tokens k) (proper : ∀ next, misused v s.current.word next = false) :
    ∃ j, k ≤ j ∧ s.advance.At tokens j ∧ ahead v tokens k = ahead v tokens j := by
  obtain ⟨j, kj, ht, taken⟩ := ahead_of_advance (v := v) hs
  exact ⟨j, kj, ht, by rw [taken, proper, Bool.toNat_false, Nat.zero_add]⟩

/-- The reader takes no word that is misused. -/
def Keeps (v : Version) (p : Parse α) : Prop :=
  ∀ tokens k, Ends v tokens k p fun j _ => ahead v tokens k = ahead v tokens j

/-- The reader takes as many misused words as what it reads is worth. -/
abbrev Pays (v : Version) (tokens : List Token) (worth : α → Nat) (p : Parse α) : Prop :=
  ∀ k, Ends v tokens k p fun j a => ahead v tokens k = worth a + ahead v tokens j

theorem Keeps.bind {f : α → Parse β} {R : Nat → β → Prop} (hp : Keeps v p)
    (hf : ∀ j a, ahead v tokens k = ahead v tokens j → Ends v tokens j (f a) R) : Ends v tokens k (p >>= f) R :=
  Ends.bind (hp tokens k) fun j a _ same => hf j a same

theorem Keeps.seq {f : α → Parse β} (hp : Keeps v p) (hf : ∀ a, Keeps v (f a)) : Keeps v (p >>= f) :=
  fun tokens _ => hp.bind fun j a same => same ▸ hf a tokens j

theorem keeps_pure (a : α) : Keeps v (pure a) := fun _ _ => ends_pure rfl

theorem Keeps.ite {c : Prop} [Decidable c] {q : Parse α} (hp : c → Keeps v p) (hq : ¬c → Keeps v q) :
    Keeps v (if c then p else q) := fun tokens k => .ite (fun h => hp h tokens k) fun h => hq h tokens k

theorem Looks.keeps (h : Looks v p) : Keeps v p := fun _ _ => h.ends fun _ => rfl

/-- The kinds of words that are never misused. -/
def Kind.staysPlain : Kind → Bool
  | .ident => false
  | .keyword word => !word.isFunction
  | _ => true

theorem misused_of_staysPlain {w : Word} {next : Kind} (plain : Kind.staysPlain w.1 = true) : misused v w next = false := by
  obtain ⟨kind, text⟩ := w
  cases kind with
  | ident => cases plain
  | keyword word => simpa [misused, Kind.staysPlain] using fun _ => plain
  | _ => simp [misused]

/-- A word of a kind that is never misused is taken for free. -/
theorem ahead_of_plain {kind : Kind} (plain : Kind.staysPlain kind = true) (hs : s.At tokens k)
    (here : s.current.kind = kind) : ∃ j, k ≤ j ∧ s.advance.At tokens j ∧ ahead v tokens k = ahead v tokens j :=
  ahead_of_proper hs fun _ => misused_of_staysPlain (show Kind.staysPlain s.current.kind = true by rw [here, plain])

theorem nextKind_of_at (hs : s.At tokens k) : nextKind ((wordsBefore tokens).drop k) = s.current.kind :=
  hs.shows.kind.symm

theorem Ends.advance {f : Token → Parse β} {R : Nat → β → Prop}
    (plain : Kind.staysPlain (nextKind ((wordsBefore tokens).drop k)) = true)
    (hf : ∀ name j, ahead v tokens k = ahead v tokens j → Ends v tokens j (f name) R) :
    Ends v tokens k (advance >>= f) R := by
  intro s b t hs h
  obtain ⟨name, r, hname, read⟩ := bind_ok h
  cases hname
  obtain ⟨j, kj, hj, same⟩ := ahead_of_plain (v := v) plain hs (nextKind_of_at hs).symm
  obtain ⟨l, jl, hl, hR⟩ := hf _ j same _ b t hj read
  exact ⟨l, Nat.le_trans kj jl, hl, hR⟩

theorem Ends.current {f : Token → Parse β} {R : Nat → β → Prop}
    (h : ∀ next, nextKind ((wordsBefore tokens).drop k) = next.kind → Ends v tokens k (f next) R) :
    Ends v tokens k (current >>= f) R := by
  intro s b t hs read
  rw [current_bind] at read
  exact h s.current (nextKind_of_at hs) s b t hs read

theorem Ends.sees {kind : Kind} {f : Bool → Parse β} {R : Nat → β → Prop}
    (h : Ends v tokens k (f (nextKind ((wordsBefore tokens).drop k) == kind)) R) : Ends v tokens k (sees kind >>= f) R := by
  intro s b t hs read
  rw [nextKind_of_at hs] at h
  exact h { s with expected := kind.describe :: s.expected } b t hs.expecting read

theorem keeps_eat {kind : Kind} (plain : Kind.staysPlain kind = true) : Keeps v (eat kind) := by
  intro tokens k s a t hs h
  by_cases here : s.current.kind = kind
  · cases h.symm.trans (eat_hit here)
    exact ahead_of_plain plain hs here
  · cases h.symm.trans (eat_miss here)
    exact ⟨k, Nat.le_refl k, hs.expecting, rfl⟩

theorem keeps_expect {kind : Kind} (plain : Kind.staysPlain kind = true) : Keeps v (expect kind) := by
  intro tokens k s a t hs h
  obtain ⟨here, ended⟩ := expect_ok (f := pure) (bind_eq h)
  obtain ⟨rfl, rfl⟩ := pure_ok ended
  exact ahead_of_plain plain hs here

theorem misused_of_isIdentifier {t : Token} {next : Kind} (name : isIdentifier v t = true) :
    misused v t.word next = false := by
  obtain ⟨kind, text, start, stop⟩ := t
  cases kind with
  | ident =>
    have free : Reserved.isReserved v text = false := by simpa [isIdentifier] using name
    simp [misused, Token.word, free]
  | quotedIdent => simp [misused, Token.word]
  | _ => cases name

theorem keeps_eatIdentifier : Keeps v eatIdentifier := by
  intro tokens k s a t hs h
  obtain ⟨_, r, hexpecting, h⟩ := bind_ok h
  cases hexpecting
  rw [atIdentifier_bind] at h
  split at h
  · rename_i name
    cases h
    exact ahead_of_proper hs.expecting fun _ => misused_of_isIdentifier name
  · cases h
    exact ⟨k, Nat.le_refl k, hs.expecting, rfl⟩

theorem keeps_unexpected : Keeps v (unexpected : Parse α) := fun _ _ => ends_unexpected

theorem keeps_identifier : Keeps v identifier := by
  refine keeps_eatIdentifier.seq fun name => ?_
  cases name with
  | none => exact keeps_unexpected
  | some name => exact keeps_pure name

/-! ### Loops and lists -/

theorem Keeps.bounded {p : Nat → Parse α} (h : ∀ n, Keeps v (p n)) : Keeps v (bounded p) :=
  fun tokens k => .bounded fun n => h n tokens k

section Loops

variable {worth : α → Nat} {item : Parse α} {sep : Kind}

/-- A loop whose rounds pay for what they add. -/
theorem pays_iterate {step : α → Parse (Option α)}
    (next : ∀ k a, Ends v tokens k (step a) fun j r => worth a + ahead v tokens k = worth (r.getD a) + ahead v tokens j)
    {a : α} (start : n = worth a + ahead v tokens k) :
    Ends v tokens k (iterate step a) fun j b => n = worth b + ahead v tokens j :=
  .rounds (fun k a paid => (next k a).mono fun _ _ _ same => paid.trans same) start

theorem pays_followers (plain : Kind.staysPlain sep = true) (hitem : Pays v tokens worth item) :
    Pays v tokens (fun as => (as.map worth).sum) (followers sep item) := by
  refine fun k => .bounded fun m => ?_
  induction m generalizing k with
  | zero => exact ends_pure (by simp)
  | succ m ih =>
    refine (keeps_eat plain).bind fun a eaten ka => .ite (fun _ => ?_) fun _ => ends_pure (by simpa using ka)
    refine (hitem a).bind fun b first _ hfirst => (ih b).bind fun c others _ hothers => ends_pure ?_
    simp only [List.map_cons, List.sum_cons] at hothers ⊢
    omega

theorem pays_sepBy (plain : Kind.staysPlain sep = true) (hitem : Pays v tokens worth item) :
    Pays v tokens (fun as => (as.map worth).sum) (sepBy sep item) := by
  refine fun k => (hitem k).bind fun a first _ hfirst => ?_
  refine (pays_followers plain hitem a).bind fun b others _ hothers => ends_pure ?_
  simp only [List.map_cons, List.sum_cons] at hothers ⊢
  omega

theorem Keeps.sepBy (plain : Kind.staysPlain sep = true) (hitem : Keeps v item) : Keeps v (sepBy sep item) := by
  intro tokens k
  have free : Pays v tokens (fun _ => 0) item := fun k => (hitem tokens k).mono fun j _ _ same => by simpa using same
  exact (pays_sepBy plain free k).mono fun j as _ same => by simpa using same

end Loops

/-! ### Calls -/

section Calls

variable {value : Parse Operand} {start : Place}

/-- What a reader ends with: a part that casts nothing itself. -/
theorem part_paid (part : α → Part) {make : Option Span → α} (own : ∀ span, (part (make span)).ownBareWords = 0)
    (parts : ∀ span, n = ((part (make span)).children.map Part.bareWords).sum + ahead v tokens k) :
    Ends v tokens k (do return make (← spanFrom start)) fun j a => n = (part a).bareWords + ahead v tokens j := by
  refine (looks_spanFrom start).bind fun span => ends_pure ?_
  rw [Part.bareWords_eq, own, Nat.zero_add]
  exact parts span

theorem ends_paid {make : Option Span → Operand} (own : ∀ span, (Part.operand (make span)).ownBareWords = 0)
    (parts : ∀ span, n = ((make span).children.map Operand.bareWords).sum + ahead v tokens k) :
    Ends v tokens k (do return make (← spanFrom start)) fun j o => n = o.bareWords + ahead v tokens j := by
  refine part_paid .operand own fun span => ?_
  rw [Part.children, List.map_map]
  exact parts span

theorem arguments_pay (hv : Pays v tokens Operand.bareWords value) :
    Pays v tokens (fun args => (args.map Operand.bareWords).sum) (arguments value) := by
  refine fun k => (keeps_expect rfl).bind fun a _ ka => (keeps_eat rfl).bind fun b closed ab => ?_
  refine .ite (fun _ => ends_pure (by simp; omega)) fun _ => ?_
  refine (pays_sepBy rfl hv b).bind fun c args _ hargs => (keeps_expect rfl).bind fun j _ cj => ends_pure ?_
  omega

theorem mathCall_pays (hv : Pays v tokens Operand.bareWords value) (fn : MathFn) :
    Pays v tokens Operand.bareWords (mathCall value fn start) := by
  refine fun k => (arguments_pay hv k).bind fun a args _ hargs => .ite (fun _ => ends_wrongArity) fun _ => ?_
  exact (looks_checkAll looks_checkNumeric args).bind fun _ => ends_paid (fun _ => rfl) fun _ => hargs

theorem argument_pays (hv : Pays v tokens Operand.bareWords value) (fn : AggregateFn) (distinct : Bool) :
    Pays v tokens (fun arg => (arg.toList.map Operand.bareWords).sum) (aggregateCall.argument value fn distinct) := by
  have given : Pays v tokens (fun arg => (arg.toList.map Operand.bareWords).sum) (do
      let arg ← value
      if fn == .avg || fn == .sum then checkNumeric arg
      return some arg) := by
    refine fun k => (hv k).bind fun j arg _ harg => ?_
    have found : Ends v tokens j (return some arg)
        fun l arg => ahead v tokens k = (arg.toList.map Operand.bareWords).sum + ahead v tokens l :=
      ends_pure (by simpa using harg)
    exact .ite (fun _ => (looks_checkNumeric arg).bind fun _ => found) fun _ => found
  intro k
  unfold aggregateCall.argument
  refine .ite (fun _ => (keeps_eat rfl).bind fun a star ka => ?_) fun _ => given k
  refine .ite (fun _ => ends_pure (by simpa using ka)) fun _ => ?_
  rw [ka]
  exact given a

theorem keeps_quantifier : Keeps v aggregateCall.quantifier :=
  (keeps_eat rfl).seq fun _ => .ite (fun _ => keeps_pure true) fun _ => (keeps_eat rfl).seq fun _ => keeps_pure false

theorem aggregateCall_pays (hv : Pays v tokens Operand.bareWords value) (fn : AggregateFn) :
    Pays v tokens Operand.bareWords (aggregateCall value fn start) := by
  refine fun k => (keeps_expect rfl).bind fun a _ ka => keeps_quantifier.bind fun b distinct ab => ?_
  refine (argument_pays hv fn distinct b).bind fun c arg _ harg => (keeps_expect rfl).bind fun j _ cj => ?_
  refine ends_paid (fun _ => rfl) fun _ => ?_
  simp only [Operand.children] at harg ⊢
  omega

/-! ### Types -/

theorem Ends.eatNext {kind : Kind} {p q : Parse β} {R : Nat → β → Prop} (plain : Kind.staysPlain kind = true)
    (hit : ∀ j, nextKind ((wordsBefore tokens).drop k) = kind → ahead v tokens k = ahead v tokens j → Ends v tokens j p R)
    (miss : nextKind ((wordsBefore tokens).drop k) ≠ kind → Ends v tokens k q R) :
    Ends v tokens k (eat kind >>= fun eaten => if eaten then p else q) R := by
  intro s b t hs h
  rcases eat_ok h with ⟨here, read⟩ | ⟨other, read⟩
  · obtain ⟨j, kj, hj, same⟩ := ahead_of_plain (v := v) plain hs here
    obtain ⟨l, jl, hl, hR⟩ := hit j ((nextKind_of_at hs).trans here) same _ b t hj read
    exact ⟨l, Nat.le_trans kj jl, hl, hR⟩
  · exact miss (nextKind_of_at hs ▸ other) { s with expected := kind.describe :: s.expected } b t
      hs.expecting read

/-- A word of a type costs what it is worth before the next word. -/
theorem Ends.eatWord {word description : String} {p q : Parse β} {R : Nat → β → Prop}
    (hit : ∀ j, nextKind ((wordsBefore tokens).drop k) = .ident →
      ahead v tokens k = (misused v (.ident, word) (nextKind ((wordsBefore tokens).drop j))).toNat + ahead v tokens j →
      Ends v tokens j p R) (miss : Ends v tokens k q R) :
    Ends v tokens k (eatWord word description >>= fun eaten => if eaten then p else q) R := by
  intro s b t hs h
  obtain ⟨eaten, r, heaten, read⟩ := bind_ok h
  unfold Grammar.eatWord at heaten
  obtain ⟨seen, u, hseen, heaten⟩ := bind_ok heaten
  cases hseen
  split at heaten
  · rename_i here
    cases heaten
    obtain ⟨ident, same⟩ := Bool.and_eq_true_iff.1 here
    obtain ⟨j, kj, hj, taken⟩ := ahead_of_advance (v := v) hs
    have spelled : misused v s.current.word = misused v (.ident, word) := by
      unfold misused
      rw [Token.word, eq_of_beq ident, Reserved.isReserved_of_sameLetters same]
    obtain ⟨l, jl, hl, hR⟩ := hit j ((nextKind_of_at hs).trans (eq_of_beq ident)) (spelled ▸ taken) _ b t hj read
    exact ⟨l, Nat.le_trans kj jl, hl, hR⟩
  · cases heaten
    exact miss { s with expected := description :: s.expected } b t hs.expecting read

theorem typeLength_keeps : Ends v tokens k typeLength fun j length =>
    ahead v tokens k = ahead v tokens j ∧ (length.isSome = true ↔ nextKind ((wordsBefore tokens).drop k) = .leftParen) := by
  refine .eatNext rfl (fun a here ka => ?_) fun other => ends_pure ⟨rfl, by simpa using other⟩
  refine looks_place.bind fun _ => (keeps_expect rfl).bind fun b token ab => ?_
  dsimp only
  cases digitsBelow? (Nat.pow 2 32) token.text with
  | none => exact (looks_spanFrom _).bind fun _ => ends_failAt
  | some n => exact (keeps_expect rfl).bind fun j _ bj => ends_pure ⟨by omega, by simpa using here⟩

theorem misused_of_reserved {word : String} {next : Kind} (reserved : Reserved.isReserved v word = true)
    (bare : next ≠ .leftParen) : misused v (.ident, word) next = true := by
  simpa [misused, reserved] using bare

/-- A type is read from its bare words, if no parenthesis follows it. -/
theorem castType_pays : Ends v tokens k castType fun j target =>
    nextKind ((wordsBefore tokens).drop j) ≠ .leftParen → ahead v tokens k = target.bareWords + ahead v tokens j := by
  have single {word : String} {target : CastType} (worth : target.bareWords = 1)
      (reserved : Reserved.isReserved v word = true) {a : Nat}
      (taken : ahead v tokens k = (misused v (.ident, word) (nextKind ((wordsBefore tokens).drop a))).toNat +
        ahead v tokens a) :
      Ends v tokens a (pure target) fun j target => nextKind ((wordsBefore tokens).drop j) ≠ .leftParen →
        ahead v tokens k = target.bareWords + ahead v tokens j := by
    refine ends_pure fun bare => ?_
    rw [taken, misused_of_reserved reserved bare, worth, Bool.toNat_true]
  have sized {word : String} {make : Option Nat → CastType}
      (worth : ∀ length, (make length).bareWords = (!length.isSome).toNat)
      (reserved : Reserved.isReserved v word = true) {a : Nat}
      (taken : ahead v tokens k = (misused v (.ident, word) (nextKind ((wordsBefore tokens).drop a))).toNat +
        ahead v tokens a) :
      Ends v tokens a (do return make (← typeLength)) fun j target =>
        nextKind ((wordsBefore tokens).drop j) ≠ .leftParen → ahead v tokens k = target.bareWords + ahead v tokens j := by
    refine typeLength_keeps.bind fun j length _ ⟨same, paren⟩ => ends_pure fun _ => ?_
    rw [taken, worth, same]
    cases length with
    | none => rw [misused_of_reserved reserved (by simpa using paren)]; rfl
    | some n => rw [paren.1 rfl]; rfl
  refine .eatWord (fun a _ taken => single rfl (by cases v <;> decide +kernel) taken) ?_
  refine .eatWord (fun a _ taken => single rfl (by cases v <;> decide +kernel) taken) ?_
  refine .eatWord (fun a _ taken => ends_pure fun _ => ?_) ?_
  · -- the only type that is no reserved word
    have free : Reserved.isReserved v "BIGINT" = false := by cases v <;> decide +kernel
    simp [taken, misused, free, CastType.bareWords]
  refine .eatWord (fun a _ taken => single rfl (by cases v <;> decide +kernel) taken) ?_
  refine .eatWord (fun a _ taken => .eatWord (fun b ident taken' => ends_pure fun bare => ?_) ends_unexpected) ?_
  · rw [taken, misused_of_reserved (by cases v <;> decide +kernel) (by rw [ident]; exact Kind.noConfusion), taken',
      misused_of_reserved (by cases v <;> decide +kernel) bare, ← Nat.add_assoc]
    rfl
  refine .eatWord (fun a _ taken => sized (fun n => by cases n <;> rfl) (by cases v <;> decide +kernel) taken) ?_
  refine .eatWord (fun a _ taken => sized (fun n => by cases n <;> rfl) (by cases v <;> decide +kernel) taken) ?_
  exact .eatWord (fun a _ taken => single rfl (by cases v <;> decide +kernel) taken) ends_unexpected

/-- A type that takes a length is no bare word when it has one. -/
example : misused .v21 (.ident, "VARCHAR") .rightParen = true ∧
    misused .v21 (.ident, "VARCHAR") .leftParen = false := by decide +kernel

theorem castCall_pays (hv : Pays v tokens Operand.bareWords value) :
    Pays v tokens Operand.bareWords (castCall value start) := by
  refine fun k => (keeps_expect rfl).bind fun a _ ka => (hv a).bind fun b arg _ harg => ?_
  refine (keeps_expect rfl).bind fun c _ bc => ?_
  refine castType_pays.bind fun d target _ htarget => ?_
  -- `castType_pays` needs to know what is next: the end of the call, or nothing is read
  intro s o t hs h
  have closes := (expect_ok h).1
  have paid := htarget (by rw [nextKind_of_at hs, closes]; exact Kind.noConfusion)
  refine ((keeps_expect rfl).bind fun j _ dj => (looks_spanFrom start).bind fun span => ends_pure ?_ :
    Ends v tokens d _ fun j o => ahead v tokens k = o.bareWords + ahead v tokens j) s o t hs h
  rw [Operand.bareWords_eq]
  simp only [Part.ownBareWords, Operand.children, List.map_cons, List.map_nil, List.sum_cons, List.sum_nil]
  omega

/-! ### Geometries -/

theorem shape_pays {fn : GeometryFn} {args : List Operand} (paid : n = (args.map Operand.bareWords).sum + ahead v tokens k) :
    Ends v tokens k (shape fn args start) fun j o => n = o.bareWords + ahead v tokens j := by
  intro s o t hs h
  obtain ⟨⟨expected, rfl⟩, sys, others, span, rfl, rfl⟩ := shape_ok h
  have parts : (Operand.geometry fn sys others span).bareWords = ((sys.toList ++ others).map Operand.bareWords).sum :=
    (Operand.bareWords_eq _).trans (Nat.zero_add _)
  exact ⟨k, Nat.le_refl k, hs.expecting, paid.trans (congrArg (· + _) parts.symm)⟩

theorem geometryCall_pays (hv : Pays v tokens Operand.bareWords value) (fn : GeometryFn) :
    Pays v tokens Operand.bareWords (geometryCall value fn start) := by
  refine fun k => (arguments_pay hv k).bind fun a args _ hargs => .ite (fun _ => shape_pays hargs) fun _ => ?_
  exact (looks_checkGeometryArgs fn args start).bind fun _ => ends_paid (fun _ => rfl) fun _ => hargs

theorem stringArgument_pays (hv : Pays v tokens Operand.bareWords value) (name : String) :
    Pays v tokens Operand.bareWords (stringArgument value name start) := by
  refine fun k => (arguments_pay hv k).bind fun a args _ hargs => ?_
  split
  · rename_i arg
    exact (looks_checkString arg).bind fun _ => ends_pure (by simpa using hargs)
  · exact ends_wrongArity

theorem inUnitCall_pays (hv : Pays v tokens Operand.bareWords value) :
    Pays v tokens Operand.bareWords (inUnitCall value start) := by
  refine fun k => (arguments_pay hv k).bind fun a args _ hargs => ?_
  split
  · rename_i arg unit
    refine (looks_checkNumeric arg).bind fun _ => (looks_checkString unit).bind fun _ => ?_
    exact ends_paid (fun _ => rfl) fun _ => hargs
  · exact ends_wrongArity

theorem coalesceCall_pays (hv : Pays v tokens Operand.bareWords value) :
    Pays v tokens Operand.bareWords (coalesceCall value start) := by
  refine fun k => (arguments_pay hv k).bind fun a args _ hargs => ?_
  split
  · exact ends_wrongArity
  · exact ends_paid (fun _ => rfl) fun _ => hargs

/-! ### Names of functions -/

/-- The reader reads nothing but what starts with a parenthesis. -/
def OpensParen (v : Version) (p : Parse α) : Prop := ∀ s a t, p v s = .ok (a, t) → s.current.kind = .leftParen

theorem opensParen_expect {f : Token → Parse β} : OpensParen v (expect .leftParen >>= f) :=
  fun _ _ _ h => (expect_ok h).1

theorem OpensParen.bind {f : α → Parse β} (hp : OpensParen v p) : OpensParen v (p >>= f) := by
  intro s b r h
  obtain ⟨a, t, ha, -⟩ := bind_ok h
  exact hp s a t ha

theorem arguments_open : OpensParen v (arguments value) := opensParen_expect

/-- A name before a parenthesis is taken for free, whatever it is. -/
theorem Ends.called {f : Token → Parse β} {R : Nat → β → Prop} (opens : ∀ name, OpensParen v (f name))
    (hf : ∀ name j, ahead v tokens k = ahead v tokens j → Ends v tokens j (f name) R) :
    Ends v tokens k (Parse.advance >>= f) R := by
  intro s b t hs h
  obtain ⟨name, r, hname, read⟩ := bind_ok h
  cases hname
  obtain ⟨j, kj, hj, taken⟩ := ahead_of_advance (v := v) hs
  have free : misused v s.current.word .leftParen = false := rfl
  rw [nextKind_of_at hj, opens _ _ _ _ read, free, Bool.toNat_false, Nat.zero_add] at taken
  obtain ⟨l, jl, hl, hR⟩ := hf _ j taken _ b t hj read
  exact ⟨l, Nat.le_trans kj jl, hl, hR⟩

theorem call_pays (hv : Pays v tokens Operand.bareWords value) : Pays v tokens Operand.bareWords (call value) := by
  have string (name : String) (start : Place) {make : Operand → Option Span → Operand}
      (own : ∀ o span, (Part.operand (make o span)).ownBareWords = 0) (alone : ∀ o span, (make o span).children = [o]) :
      Pays v tokens Operand.bareWords (do return make (← stringArgument value name start) (← spanFrom start)) := by
    refine fun k => (stringArgument_pays hv name k).bind fun j o _ ho => ends_paid (own o) fun span => ?_
    rw [alone]
    simpa using ho
  refine fun k => looks_place.bind fun start => .called (fun name => ?_) fun name j kj => ?_
  · split
    · exact opensParen_expect
    · exact arguments_open.bind
    · exact arguments_open.bind
    · exact arguments_open.bind.bind
    · exact arguments_open.bind.bind
    · exact arguments_open.bind
    · exact arguments_open.bind
    · exact opensParen_expect
    · exact arguments_open.bind
  · rw [kj]
    split
    · exact aggregateCall_pays hv _ j
    · exact mathCall_pays hv _ j
    · exact geometryCall_pays hv _ j
    · exact string "LOWER" start (fun _ _ => rfl) (fun _ _ => rfl) j
    · exact string "UPPER" start (fun _ _ => rfl) (fun _ _ => rfl) j
    · exact coalesceCall_pays hv j
    · exact inUnitCall_pays hv j
    · exact castCall_pays hv j
    · exact (arguments_pay hv j).bind fun l args _ hargs => ends_paid (fun _ => rfl) fun _ => hargs

end Calls

/-! ### Primaries -/

theorem keeps_dottedFor (n : Nat) : Keeps v (dottedFor n) := by
  induction n with
  | zero => exact keeps_pure []
  | succ n ih =>
    intro tokens k s parts t hs h
    unfold dottedFor at h
    split at h
    · rename_i here
      have dot : s.current.kind = .dot := eq_of_beq (Bool.and_eq_true_iff.1 here).1
      have others : Keeps v (do
          let part ← identifier
          let others ← dottedFor n
          return part :: others) := keeps_identifier.seq fun part => ih.seq fun others => keeps_pure _
      have read : Ends v tokens k (Parse.advance >>= fun _ => _) fun j _ => ahead v tokens k = ahead v tokens j :=
        .advance (by rw [nextKind_of_at hs, dot]; rfl) fun _ j kj => kj ▸ others tokens j
      exact read s parts t hs h
    · cases h
      exact ⟨k, Nat.le_refl k, hs, rfl⟩

theorem keeps_dotted (n : Nat) : Keeps v (dotted n) :=
  keeps_identifier.seq fun _ => (keeps_dottedFor n).seq fun _ => keeps_pure _

theorem columnRef_pays : Pays v tokens Operand.bareWords columnRef := by
  refine fun k => looks_place.bind fun start => (keeps_dotted 3).bind fun j parts kj => ?_
  cases ColumnRef.ofParts? parts with
  | none => exact ends_unexpected
  | some ref => exact ends_paid (fun _ => rfl) fun _ => by simpa [Operand.children] using kj

theorem keeps_literalsFor (n : Nat) : Keeps v (literalsFor n) := by
  induction n with
  | zero => exact keeps_pure ""
  | succ n ih =>
    refine fun tokens k => .current fun next hnext => .ite (fun string => ?_) fun _ => ends_pure rfl
    refine .advance (by rw [hnext, eq_of_beq string]; rfl) fun _ j kj => ?_
    rw [kj]
    exact ih.seq (fun others => keeps_pure _) tokens j

section Values

variable {call value base item : Parse Operand}

theorem primary_pays (hc : Pays v tokens Operand.bareWords call) (hv : Pays v tokens Operand.bareWords value) :
    Pays v tokens Operand.bareWords (primary call value) := by
  refine fun k => looks_place.bind fun start => .current fun next hnext => ?_
  refine .ite (fun number => ?_) fun _ => .ite (fun _ => ?_) fun _ => .ite (fun paren => ?_) fun _ => ?_
  · have plain : Kind.staysPlain next.kind = true := by
      cases kind : next.kind <;> first | rfl | (rw [kind] at number; cases number)
    refine .advance (hnext ▸ plain) fun _ j kj => ends_paid (fun _ => rfl) fun _ => ?_
    simpa [Operand.children] using kj
  · refine (Keeps.bounded keeps_literalsFor).bind fun j text kj => ends_paid (fun _ => rfl) fun _ => ?_
    simpa [Operand.children] using kj
  · refine .advance (by rw [hnext, eq_of_beq paren]; rfl) fun _ a ka => (hv a).bind fun b inner _ hinner => ?_
    refine (keeps_expect rfl).bind fun j _ bj => ends_paid (fun _ => rfl) fun _ => ?_
    simp only [Operand.children, List.map_cons, List.map_nil, List.sum_cons, List.sum_nil]
    omega
  refine looks_seesCall.bind fun called => .ite (fun _ => hc k) fun _ => ?_
  refine looks_atIdentifier.bind fun named => .ite (fun _ => columnRef_pays k) fun _ => ?_
  exact (looks_expecting _).bind fun _ => ends_unexpected

/-! ### Signs and operators -/

theorem signedFor_pays (hbase : Pays v tokens Operand.bareWords base) (n : Nat) :
    Pays v tokens Operand.bareWords (signedFor base n) := by
  induction n with
  | zero => exact hbase
  | succ n ih =>
    refine fun k => looks_place.bind fun start => (keeps_eat rfl).bind fun a minus ka => ?_
    refine .ite (fun _ => ?_) fun _ => (keeps_eat rfl).bind fun b plus ab => ?_
    · refine (ih a).bind fun b inner _ hinner => (looks_checkNumeric inner).bind fun _ => ?_
      refine ends_paid (fun _ => rfl) fun _ => ?_
      simp only [Operand.children, List.map_cons, List.map_nil, List.sum_cons, List.sum_nil]
      omega
    rw [ka, ab]
    refine .ite (fun _ => ?_) fun _ => hbase b
    exact (ih b).bind fun c inner _ hinner => (looks_checkNumeric inner).bind fun _ => ends_pure hinner

theorem operator_plain {first second : Kind × ArithOp} (plain : Kind.staysPlain first.1 = true)
    (plain' : Kind.staysPlain second.1 = true) : Ends v tokens k (arithmetic.operator first second) fun j found =>
      j = k ∧ (found.isSome = true → Kind.staysPlain (nextKind ((wordsBefore tokens).drop k)) = true) := by
  intro s found t hs h
  obtain ⟨expected, seen⟩ := peeks_operator (v := v) first second s
  obtain ⟨rfl, rfl⟩ := Prod.mk.inj (Except.ok.inj (h.symm.trans seen))
  refine ⟨k, Nat.le_refl k, hs.expecting, rfl, fun some => ?_⟩
  rw [nextKind_of_at hs, show s.current.kind = s.current.word.1 from rfl]
  unfold operatorOf at some
  split at some
  · rename_i here
    rwa [eq_of_beq here]
  split at some
  · rename_i here
    rwa [eq_of_beq here]
  · cases some

theorem arithmetic_pays {first second : Kind × ArithOp} (plain : Kind.staysPlain first.1 = true)
    (plain' : Kind.staysPlain second.1 = true) (hitem : Pays v tokens Operand.bareWords item) :
    Pays v tokens Operand.bareWords (arithmetic first second item) := by
  refine fun k => looks_place.bind fun start => (hitem k).bind fun a left _ hleft => pays_iterate (fun k left => ?_) hleft
  refine (operator_plain plain plain').bind fun a found _ ⟨ka, sign⟩ => ?_
  subst ka
  cases found with
  | none => exact ends_pure rfl
  | some op =>
    refine .advance (sign rfl) fun _ b ab => (hitem b).bind fun c right _ hright => ?_
    refine (looks_checkNumeric left).bind fun _ => (looks_checkNumeric right).bind fun _ => ?_
    refine (looks_spanFrom start).bind fun span => ends_pure ?_
    rw [Option.getD_some, Operand.bareWords_eq (.operation left op right span)]
    simp only [Part.ownBareWords, Operand.children, List.map_cons, List.map_nil, List.sum_cons, List.sum_nil]
    omega

theorem concatenation_pays (hadditive : Pays v tokens Operand.bareWords (additive base)) :
    Pays v tokens Operand.bareWords (concatenation base) := by
  have part : Pays v tokens Operand.bareWords (do
      let part ← additive base
      checkString part
      return part) :=
    fun k => (hadditive k).bind fun j o _ ho => (looks_checkString o).bind fun _ => ends_pure ho
  refine fun k => looks_place.bind fun start => (hadditive k).bind fun a first _ hfirst => ?_
  refine (looks_sees _).bind fun _ => ?_
  refine .ite (fun _ => (looks_checkString first).bind fun _ => ?_) fun _ => ends_pure hfirst
  refine (pays_followers rfl part a).bind fun j others _ hothers => ends_paid (fun _ => rfl) fun _ => ?_
  simp only [Operand.children, List.map_cons, List.sum_cons] at hothers ⊢
  omega

theorem valueFor_pays (n : Nat) : Pays v tokens Operand.bareWords (valueFor n) := by
  induction n with
  | zero => exact fun _ => ends_unexpected
  | succ n ih =>
    have hsigned : Pays v tokens Operand.bareWords (signed (primaryFor n)) :=
      fun k => .bounded fun m => signedFor_pays (primary_pays (call_pays ih) ih) m k
    exact concatenation_pays (arithmetic_pays rfl rfl (arithmetic_pays rfl rfl hsigned))

/-- A value is read from as many misused words as its casts have in their types. -/
theorem value_pays : Pays v tokens Operand.bareWords Grammar.value := fun k => .bounded fun n => valueFor_pays n k

end Values

end Grammar

end SkyQuery
