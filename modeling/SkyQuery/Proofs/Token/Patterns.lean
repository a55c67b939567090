import Mathlib.Computability.Language
import SkyQuery.Proofs.Token.Visible

/-!
# Patterns of tokens

The regular language of each kind of token (`pattern`). The text of a token is in the language of its kind
(`first_mem`), and a text of such a language is one token of this kind, or a keyword in place of a name
(`first_of_mem`).
-/

namespace SkyQuery.Lexer

open Computability

/-! ### Languages -/

/-- The texts of a single character of a class. -/
def oneOf (p : Char → Bool) : Language Char := {w | ∃ c, p c = true ∧ w = [c]}

def exactly (s : String) : Language Char := {s.toList}

/-- The texts that are equal to one up to letter case. -/
def anyCase (s : String) : Language Char := {w | Text.sameLetters s (String.ofList w) = true}

def digits : Language Char := oneOf Char.isDigit * (oneOf Char.isDigit)∗

/-- What can stand after an opening quote: other characters, and quotes two by two. -/
def unquoted (quote : Char) : Language Char := (oneOf (· != quote) + {[quote, quote]})∗

def exponents : Language Char :=
  (exactly "e" + exactly "E") * (1 + exactly "+" + exactly "-") * digits

/-- The texts that are tokens of a kind. Those that none of them matches have no pattern, and neither has the end
of a text. -/
def pattern : Kind → Language Char
  | .blank => oneOf isSpace * (oneOf isSpace)∗
  | .comment => exactly "--" * (oneOf (· != '\n'))∗
  | .ident => oneOf Text.isLetter * (oneOf Text.isWordChar)∗
  | .quotedIdent => exactly "\"" * unquoted '"' * exactly "\""
  | .openIdent => exactly "\"" * unquoted '"'
  | .string => exactly "'" * unquoted '\'' * exactly "'"
  | .openString => exactly "'" * unquoted '\''
  | .integer => digits
  | .decimal => digits * exactly "." * (oneOf Char.isDigit)∗ + exactly "." * digits
  | .scientific => (digits * (1 + exactly "." * (oneOf Char.isDigit)∗) + exactly "." * digits) * exponents
  | .concat => exactly "||"
  | .notEq => exactly "!=" + exactly "<>"
  | .ltEq => exactly "<="
  | .gtEq => exactly ">="
  | .leftParen => exactly "("
  | .rightParen => exactly ")"
  | .comma => exactly ","
  | .dot => exactly "."
  | .semicolon => exactly ";"
  | .star => exactly "*"
  | .plus => exactly "+"
  | .minus => exactly "-"
  | .slash => exactly "/"
  | .eq => exactly "="
  | .lt => exactly "<"
  | .gt => exactly ">"
  | .nonAscii => oneOf fun c => 128 ≤ c.toNat
  | .keyword word => anyCase word.text
  | .strayChar | .endOfText => 0

section Languages

variable {p : Char → Bool} {w : List Char} {quote : Char}

theorem mem_exactly {s : String} : w ∈ exactly s ↔ w = s.toList := Iff.rfl

theorem mem_oneOf_mul {l : Language Char} : w ∈ oneOf p * l ↔ ∃ c u, p c = true ∧ u ∈ l ∧ w = c :: u := by
  rw [Language.mem_mul]
  constructor
  · rintro ⟨_, ⟨c, holds, rfl⟩, u, hu, rfl⟩
    exact ⟨c, u, holds, hu, rfl⟩
  · rintro ⟨c, u, holds, hu, rfl⟩
    exact ⟨[c], ⟨c, holds, rfl⟩, u, hu, rfl⟩

theorem mem_exactly_mul {s : String} {l : Language Char} : w ∈ exactly s * l ↔ ∃ u ∈ l, w = s.toList ++ u := by
  rw [Language.mem_mul]
  constructor
  · rintro ⟨_, rfl, u, hu, rfl⟩
    exact ⟨u, hu, rfl⟩
  · rintro ⟨u, hu, rfl⟩
    exact ⟨s.toList, rfl, u, hu, rfl⟩

theorem mem_star_oneOf : w ∈ (oneOf p)∗ ↔ ∀ c ∈ w, p c = true := by
  rw [Language.mem_kstar]
  constructor
  · rintro ⟨parts, rfl, single⟩ c member
    obtain ⟨part, inside, member⟩ := List.mem_flatten.1 member
    obtain ⟨d, holds, rfl⟩ := single part inside
    rwa [List.mem_singleton.1 member]
  · intro all
    have whole : w = (w.map fun c => [c]).flatten := by rw [← List.flatMap_def, List.flatMap_singleton']
    exact ⟨_, whole, List.forall_mem_map.2 fun c member => ⟨c, all c member, rfl⟩⟩

theorem mem_digits : w ∈ digits ↔ w ≠ [] ∧ ∀ c ∈ w, c.isDigit = true := by
  rw [digits, mem_oneOf_mul]
  constructor
  · rintro ⟨c, u, digit, others, rfl⟩
    exact ⟨List.cons_ne_nil c u, List.forall_mem_cons.2 ⟨digit, mem_star_oneOf.1 others⟩⟩
  · rintro ⟨some, all⟩
    obtain ⟨c, u, rfl⟩ := List.exists_cons_of_ne_nil some
    obtain ⟨digit, others⟩ := List.forall_mem_cons.1 all
    exact ⟨c, u, digit, mem_star_oneOf.2 others, rfl⟩

theorem nil_mem_unquoted : [] ∈ unquoted quote := Language.nil_mem_kstar _

theorem unquoted_eq (quote : Char) :
    unquoted quote = 1 + (oneOf (· != quote) + {[quote, quote]}) * unquoted quote :=
  (Language.one_add_self_mul_kstar_eq_kstar _).symm

theorem cons_mem_unquoted {c : Char} (other : c ≠ quote) (h : w ∈ unquoted quote) : c :: w ∈ unquoted quote := by
  have single : [c] ∈ oneOf (· != quote) + {[quote, quote]} := .inl ⟨c, bne_iff_ne.2 other, rfl⟩
  rw [unquoted_eq]
  exact .inr (Language.append_mem_mul single h)

theorem pair_mem_unquoted (h : w ∈ unquoted quote) : quote :: quote :: w ∈ unquoted quote := by
  have pair : [quote, quote] ∈ oneOf (· != quote) + {[quote, quote]} := .inr rfl
  rw [unquoted_eq]
  exact .inr (Language.append_mem_mul pair h)

/-- Induction over a text whose quotes stand two by two. -/
theorem unquoted_induction {motive : List Char → Prop} (nil : motive [])
    (cons : ∀ c u, c ≠ quote → motive u → motive (c :: u)) (pair : ∀ u, motive u → motive (quote :: quote :: u))
    (h : w ∈ unquoted quote) : motive w := by
  obtain ⟨parts, rfl, each⟩ := Language.mem_kstar.1 h
  clear h
  induction parts with
  | nil => exact nil
  | cons part parts ih =>
    obtain ⟨first, others⟩ := List.forall_mem_cons.1 each
    have later := ih others
    rcases first with ⟨c, other, rfl⟩ | rfl
    · exact cons c _ (bne_iff_ne.1 other) later
    · exact pair _ later

end Languages

/-! ### Quoted texts -/

section Quoted

variable {quote : Char} {cs u : List Char}

/-- A text whose quotes stand two by two is passed over. -/
theorem quotedLength_unquoted (h : u ∈ unquoted quote) (after : List Char) :
    quotedLength quote (u ++ after) =
      (u.length + (quotedLength quote after).1, (quotedLength quote after).2) := by
  refine unquoted_induction (motive := fun u => quotedLength quote (u ++ after) =
    (u.length + (quotedLength quote after).1, (quotedLength quote after).2)) ?_ (fun c u other ih => ?_) (fun u ih => ?_) h
  · simp
  · have step : quotedLength quote (c :: (u ++ after)) =
        ((quotedLength quote (u ++ after)).1 + 1, (quotedLength quote (u ++ after)).2) := by
      cases u ++ after with
      | nil => simp [quotedLength, other]
      | cons d rest => simp [quotedLength, other]
    rw [List.cons_append, step, ih, List.length_cons]
    exact Prod.ext (by omega) rfl
  · rw [List.cons_append, List.cons_append, quotedLength, if_pos (beq_self_eq_true _), if_pos (beq_self_eq_true _), ih,
      List.length_cons, List.length_cons]
    exact Prod.ext (by dsimp only; omega) rfl

/-- What is read after an opening quote, up to the end of the text or with the quote that closes it. -/
theorem take_quotedLength (quote : Char) (cs : List Char) : ∃ u ∈ unquoted quote,
    cs.take (quotedLength quote cs).1 = if (quotedLength quote cs).2 then u ++ [quote] else u := by
  fun_induction quotedLength quote cs with
  | case1 => exact ⟨[], nil_mem_unquoted, rfl⟩
  | case2 c =>
    by_cases closes : c = quote
    · exact ⟨[], nil_mem_unquoted, by simp [closes]⟩
    · exact ⟨[c], cons_mem_unquoted closes nil_mem_unquoted, by simp [closes]⟩
  | case3 c d rest hc hd tail ih =>
    obtain ⟨u, hu, read⟩ := ih
    obtain rfl : c = quote := eq_of_beq hc
    obtain rfl : d = c := eq_of_beq hd
    refine ⟨d :: d :: u, pair_mem_unquoted hu, ?_⟩
    rw [List.take_succ_cons, List.take_succ_cons, read]
    split <;> rfl
  | case4 c d rest hc hd => exact ⟨[], nil_mem_unquoted, by simp [eq_of_beq hc]⟩
  | case5 c d rest hc tail ih =>
    obtain ⟨u, hu, read⟩ := ih
    refine ⟨c :: u, cons_mem_unquoted (fun closes => hc (beq_iff_eq.2 closes)) hu, ?_⟩
    rw [List.take_succ_cons, read]
    split <;> rfl

end Quoted

/-! ### Numbers -/

theorem all_take_run {p : Char → Bool} (cs : List Char) : ∀ c ∈ cs.take (run p cs), p c = true := by
  rw [take_run]
  exact List.all_eq_true.1 List.all_takeWhile

section Numbers

variable {cs w a b after : List Char}

theorem mem_decimal : w ∈ pattern .decimal ↔
    ∃ a b, (∀ c ∈ a, c.isDigit = true) ∧ (∀ c ∈ b, c.isDigit = true) ∧ (a ≠ [] ∨ b ≠ []) ∧ w = a ++ '.' :: b := by
  rw [pattern, Language.mem_add, mem_exactly_mul, mul_assoc, Language.mem_mul]
  simp only [mem_exactly_mul, mem_star_oneOf, mem_digits]
  constructor
  · rintro (⟨a, ⟨some, whole⟩, _, ⟨b, part, rfl⟩, rfl⟩ | ⟨b, ⟨some, part⟩, rfl⟩)
    · exact ⟨a, b, whole, part, .inl some, rfl⟩
    · exact ⟨[], b, List.forall_mem_nil _, part, .inr some, rfl⟩
  · rintro ⟨a, b, whole, part, some, rfl⟩
    cases a with
    | nil => exact .inr ⟨b, ⟨some.resolve_left (· rfl), part⟩, rfl⟩
    | cons c a => exact .inl ⟨c :: a, ⟨List.cons_ne_nil c a, whole⟩, _, ⟨b, part, rfl⟩, rfl⟩

theorem scientific_eq : pattern .scientific = (pattern .integer + pattern .decimal) * exponents := by
  simp only [pattern, mul_add, mul_one, mul_assoc, add_assoc]

theorem mem_exponents : w ∈ exponents ↔ ∃ c s u, (c = 'e' ∨ c = 'E') ∧ (s = [] ∨ s = ['+'] ∨ s = ['-']) ∧ u ∈ digits ∧
    w = c :: (s ++ u) := by
  rw [exponents, mul_assoc, Language.mem_mul]
  simp only [Language.mem_mul, Language.mem_add, Language.mem_one, mem_exactly]
  constructor
  · rintro ⟨_, rfl | rfl, _, ⟨s, hs, u, hu, rfl⟩, rfl⟩
    · exact ⟨'e', s, u, .inl rfl, or_assoc.1 hs, hu, rfl⟩
    · exact ⟨'E', s, u, .inr rfl, or_assoc.1 hs, hu, rfl⟩
  · rintro ⟨c, s, u, rfl | rfl, hs, hu, rfl⟩
    · exact ⟨['e'], .inl rfl, _, ⟨s, or_assoc.2 hs, u, hu, rfl⟩, rfl⟩
    · exact ⟨['E'], .inr rfl, _, ⟨s, or_assoc.2 hs, u, hu, rfl⟩, rfl⟩

/-- Digits end where something else follows. -/
theorem run_digits (all : ∀ c ∈ a, c.isDigit = true) (ends : ∀ c ∈ after.head?, c.isDigit = false) :
    run Char.isDigit (a ++ after) = a.length := by
  rw [run_append ends, run_eq_length all]

theorem mantissa_integer (whole : ∀ c ∈ a, c.isDigit = true) (ends : ∀ c ∈ after.head?, c.isDigit = false ∧ c ≠ '.') :
    mantissa (a ++ after) = (.integer, a.length) := by
  rw [mantissa, run_digits whole fun c hc => (ends c hc).1, List.drop_left]
  cases after with
  | nil => rfl
  | cons c after =>
    have other := (ends c rfl).2
    split
    · rename_i same
      exact absurd (List.cons.inj same).1 other
    · rfl

theorem mantissa_decimal (whole : ∀ c ∈ a, c.isDigit = true) (part : ∀ c ∈ b, c.isDigit = true)
    (ends : ∀ c ∈ after.head?, c.isDigit = false) :
    mantissa (a ++ '.' :: (b ++ after)) = (.decimal, (a ++ '.' :: b).length) := by
  have stops : ∀ c ∈ ('.' :: (b ++ after)).head?, c.isDigit = false := by
    rintro c ⟨⟩
    rfl
  rw [mantissa, run_digits whole stops, List.drop_left]
  simp only [run_digits part ends, List.length_append, List.length_cons, Prod.mk.injEq, true_and]
  omega

theorem exponent_of_mem (h : w ∈ exponents) : exponent w = w.length := by
  obtain ⟨c, s, u, letter, signed, hu, rfl⟩ := mem_exponents.1 h
  obtain ⟨some, all⟩ := mem_digits.1 hu
  have signs : sign (s ++ u) = s.length := by
    rcases signed with rfl | rfl | rfl
    · obtain ⟨d, u, rfl⟩ := List.exists_cons_of_ne_nil some
      have digit := all d List.mem_cons_self
      have plus : d ≠ '+' := by rintro rfl; cases digit
      have minus : d ≠ '-' := by rintro rfl; cases digit
      simp [sign, plus, minus]
    · rfl
    · rfl
  have count : exponentDigits (s ++ u) = u.length := by
    rw [exponentDigits, signs, List.drop_left, run_eq_length all]
  have positive : u.length ≠ 0 := fun none => some (List.length_eq_zero_iff.1 none)
  have marked : (c == 'e' || c == 'E') = true := by rcases letter with rfl | rfl <;> rfl
  rw [exponent_cons, if_pos marked, count, if_neg positive, signs, List.length_cons, List.length_append]
  omega

theorem take_exponent (some : exponent cs ≠ 0) : cs.take (exponent cs) ∈ exponents := by
  cases cs with
  | nil => exact absurd rfl some
  | cons c rest =>
    rw [exponent_cons] at some ⊢
    split at some
    · rename_i letter
      split at some
      · exact absurd rfl some
      rename_i positive
      rw [if_pos letter, if_neg positive]
      have signed : rest.take (sign rest) = [] ∨ rest.take (sign rest) = ['+'] ∨ rest.take (sign rest) = ['-'] := by
        unfold sign
        split
        · split
          · rename_i d _ mark
            rcases Bool.or_eq_true_iff.1 mark with plus | minus
            · exact .inr (.inl (by rw [eq_of_beq plus]; rfl))
            · exact .inr (.inr (by rw [eq_of_beq minus]; rfl))
          · exact .inl rfl
        · exact .inl rfl
      have marked : c = 'e' ∨ c = 'E' := by simpa using letter
      refine mem_exponents.2 ⟨c, _, (rest.drop (sign rest)).take (exponentDigits rest), marked, signed, ?_, ?_⟩
      · refine mem_digits.2 ⟨fun none => positive ?_, all_take_run _⟩
        have length := congrArg List.length none
        rw [List.length_take, exponentDigits, Nat.min_eq_left (run_le _)] at length
        exact length
      · have length : 1 + sign rest + exponentDigits rest = sign rest + exponentDigits rest + 1 := by omega
        rw [length, List.take_succ_cons, List.take_add]
    · exact absurd rfl some

theorem take_mantissa (starts : startsNumber cs = true) : cs.take (mantissa cs).2 ∈ pattern (mantissa cs).1 := by
  have whole := all_take_run (p := Char.isDigit) cs
  unfold mantissa
  split
  · rename_i rest split
    refine mem_decimal.2 ⟨_, _, whole, all_take_run rest, ?_, ?_⟩
    · cases cs with
      | nil => cases starts
      | cons c cs =>
        by_cases digit : c.isDigit = true
        · exact .inl (by simp [run, digit])
        · have none : run Char.isDigit (c :: cs) = 0 := by simp [run, digit]
          rw [none, List.drop_zero] at split
          cases split
          rw [startsNumber] at starts
          cases rest with
          | nil => cases starts
          | cons d rest =>
            have next : d.isDigit = true := by simpa using starts
            exact .inr (by simp [run, next])
    · dsimp only
      rw [Nat.add_assoc, List.take_add, split, Nat.add_comm, List.take_succ_cons]
  · rename_i other
    refine mem_digits.2 ⟨fun none => ?_, whole⟩
    cases cs with
    | nil => cases starts
    | cons c cs =>
      by_cases digit : c.isDigit = true
      · simp [run, digit] at none
      · have point : c = '.' := by
          have none : c.isDigit = false := Bool.not_eq_true _ ▸ digit
          rw [startsNumber, none, Bool.false_or, Bool.and_eq_true, beq_iff_eq] at starts
          exact starts.1
        exact other cs (by simp [run, point])

/-- The text of a number is in the language of its kind. -/
theorem take_number (starts : startsNumber cs = true) : cs.take (number cs).2 ∈ pattern (number cs).1 := by
  have before := take_mantissa starts
  rw [number_eq]
  split
  · exact before
  · rename_i some
    rw [scientific_eq, List.take_add]
    refine Language.append_mem_mul ?_ (take_exponent some)
    unfold mantissa at before ⊢
    split at before
    · exact .inr before
    · exact .inl before

theorem startsNumber_of_mantissa (h : w ∈ pattern .integer + pattern .decimal) (after : List Char) :
    startsNumber (w ++ after) = true := by
  rcases h with h | h
  · obtain ⟨some, all⟩ := mem_digits.1 h
    obtain ⟨c, w, rfl⟩ := List.exists_cons_of_ne_nil some
    simp [startsNumber, all c List.mem_cons_self]
  · obtain ⟨a, b, whole, part, some, rfl⟩ := mem_decimal.1 h
    cases a with
    | cons c a => simp [startsNumber, whole c List.mem_cons_self]
    | nil =>
      obtain ⟨d, b, rfl⟩ := List.exists_cons_of_ne_nil (some.resolve_left (· rfl))
      simp [startsNumber, part d List.mem_cons_self]

/-- What an exponent follows is read apart from it. -/
theorem mantissa_of_mem {kind : Kind} (number : kind = .integer ∨ kind = .decimal) (h : w ∈ pattern kind)
    (ends : ∀ c ∈ after.head?, c.isDigit = false ∧ c ≠ '.') : mantissa (w ++ after) = (kind, w.length) := by
  rcases number with rfl | rfl
  · exact mantissa_integer (mem_digits.1 h).2 ends
  · obtain ⟨a, b, whole, part, -, rfl⟩ := mem_decimal.1 h
    rw [List.append_assoc, List.cons_append]
    exact mantissa_decimal whole part fun c hc => (ends c hc).1

/-- A text in the language of a kind of number is one number. -/
theorem isNumber_of_mem {kind : Kind} (number : kind.isNumber = true) (h : w ∈ pattern kind) : IsNumber kind w := by
  have plain (known : kind = .integer ∨ kind = .decimal) : IsNumber kind w := by
    have before : w ∈ pattern .integer + pattern .decimal := by
      rcases known with rfl | rfl
      · exact .inl h
      · exact .inr h
    have starts := startsNumber_of_mantissa before []
    have all : mantissa (w ++ []) = (kind, w.length) := mantissa_of_mem known h (by simp)
    rw [List.append_nil] at starts all
    have none : exponent (w.drop (mantissa w).2) = 0 := by
      rw [all]
      dsimp only
      rw [List.drop_length]
      rfl
    exact ⟨starts, by rw [number_eq, if_pos none, all]⟩
  cases kind with
  | integer => exact plain (.inl rfl)
  | decimal => exact plain (.inr rfl)
  | scientific =>
    rw [scientific_eq] at h
    obtain ⟨a, before, u, later, rfl⟩ := Language.mem_mul.1 h
    have ends : ∀ c ∈ u.head?, c.isDigit = false ∧ c ≠ '.' := by
      obtain ⟨c, s, v, rfl | rfl, -, -, rfl⟩ := mem_exponents.1 later <;> rintro d ⟨⟩ <;> decide
    have length : (mantissa (a ++ u)).2 = a.length := by
      rcases before with integer | decimal
      · rw [mantissa_of_mem (.inl rfl) integer ends]
      · rw [mantissa_of_mem (.inr rfl) decimal ends]
    have some : exponent u ≠ 0 := by
      rw [exponent_of_mem later]
      obtain ⟨c, s, v, -, -, -, rfl⟩ := mem_exponents.1 later
      exact Nat.succ_ne_zero _
    refine ⟨startsNumber_of_mantissa before u, ?_⟩
    rw [number_eq, length, List.drop_left, if_neg some, exponent_of_mem later, List.length_append]
  | _ => cases number

end Numbers

/-! ### Words -/

/-- Only letters have a case, which is a letter again. -/
theorem toLower_eq_or (c : Char) : c.toLower = c ∨ c.isAlpha = true ∧ c.toLower.isAlpha = true := by
  by_cases upper : c.val ≥ 'A'.val ∧ c.val ≤ 'Z'.val
  · right
    have range : 65 ≤ c.val.toNat ∧ c.val.toNat ≤ 90 := by
      simpa [ge_iff_le, UInt32.le_iff_toNat_le] using upper
    have lowered : c.toLower.val.toNat = c.val.toNat + 32 := by
      unfold Char.toLower
      rw [dif_pos upper]
      change (c.val + 32).toNat = c.val.toNat + 32
      rw [UInt32.toNat_add, show (32 : UInt32).toNat = 32 from rfl]
      omega
    constructor
    · have capital : c.isUpper = true := by
        unfold Char.isUpper
        simpa using upper
      unfold Char.isAlpha
      rw [capital, Bool.true_or]
    · have lower : c.toLower.isLower = true := by
        unfold Char.isLower
        simp only [UInt32.le_iff_toNat_le, lowered, ge_iff_le, decide_eq_true_eq, Bool.and_eq_true,
          show ('a'.val).toNat = 97 from rfl, show ('z'.val).toNat = 122 from rfl]
        omega
      unfold Char.isAlpha
      rw [lower, Bool.or_true]
  · exact .inl (dif_neg upper)

theorem isLetter_toLower (c : Char) : Text.isLetter c.toLower = Text.isLetter c := by
  rcases toLower_eq_or c with same | ⟨letter, lower⟩
  · rw [same]
  · exact lower.trans letter.symm

theorem isWordChar_toLower (c : Char) : Text.isWordChar c.toLower = Text.isWordChar c := by
  rcases toLower_eq_or c with same | ⟨letter, lower⟩
  · rw [same]
  · rw [Text.isWordChar_of_isAlpha letter, Text.isWordChar_of_isAlpha lower]

/-- Whether a text is a word does not depend on letter case. -/
theorem isWord_of_toLower {u w : List Char} (same : u.map Char.toLower = w.map Char.toLower) :
    Text.isWord u = Text.isWord w := by
  have lowered (u : List Char) : Text.isWord (u.map Char.toLower) = Text.isWord u := by
    cases u with
    | nil => rfl
    | cons c u =>
      have others : (u.map Char.toLower).all Text.isWordChar = u.all Text.isWordChar := by
        rw [List.all_map, show Text.isWordChar ∘ Char.toLower = Text.isWordChar from funext isWordChar_toLower]
      rw [List.map_cons, Text.isWord, Text.isWord, isLetter_toLower, others]
  rw [← lowered, same, lowered]

theorem mem_ident {w : List Char} : w ∈ pattern .ident ↔ Text.isWord w = true := by
  rw [pattern, mem_oneOf_mul]
  simp only [mem_star_oneOf]
  constructor
  · rintro ⟨c, u, letter, others, rfl⟩
    rw [Text.isWord, letter, Bool.true_and, List.all_eq_true]
    exact others
  · intro word
    obtain ⟨c, u, rfl, letter, others⟩ := Text.exists_of_isWord word
    exact ⟨c, u, letter, others, rfl⟩

/-- A keyword in any letter case is one. -/
theorem wordKind_of_mem {k : Keyword} {w : List Char} (h : w ∈ pattern (.keyword k)) :
    Text.isWord w = true ∧ wordKind w = .keyword k := by
  have same : Text.sameLetters k.text (String.ofList w) = true := h
  constructor
  · rw [Text.sameLetters, beq_iff_eq, String.toList_ofList] at same
    rw [← isWord_of_toLower same, k.isWord_text]
  · have spelled : Keyword.ofWord? (String.ofList w) = Keyword.ofWord? k.text := by
      unfold Keyword.ofWord?
      congr 1
      funext other
      rw [Bool.eq_iff_iff]
      simp only [Text.sameLetters, beq_iff_eq] at same ⊢
      rw [same]
    rw [wordKind, spelled, k.ofWord?_text]

theorem mem_wordKind {w : List Char} (word : Text.isWord w = true) : w ∈ pattern (wordKind w) := by
  unfold wordKind
  split
  · rename_i k found
    exact List.find?_some (p := fun k : Keyword => Text.sameLetters k.text (String.ofList w)) found
  · exact mem_ident.2 word

/-! ### Tokens -/

variable {c : Char} {rest : List Char}

theorem symbol_mem (c : Char) (next : Option Char) : symbol c next = (.strayChar, false) ∨
    c :: (if (symbol c next).2 then next.toList else []) ∈ pattern (symbol c next).1 := by
  unfold symbol
  split
  case h_3 => exact .inr (.inr rfl)
  case h_2 => exact .inr (.inl rfl)
  case h_18 =>
    split
    · exact .inl rfl
    · rename_i beyond
      exact .inr ⟨c, by simpa using beyond, rfl⟩
  all_goals exact .inr rfl

/-- The first token of a text is in the language of its kind, unless it is a stray character. -/
theorem first_mem (c : Char) (rest : List Char) : first c rest = (.strayChar, 0) ∨
    c :: rest.take (first c rest).2 ∈ pattern (first c rest).1 := by
  unfold first
  split
  · rename_i space
    exact .inr (mem_oneOf_mul.2 ⟨c, _, space, mem_star_oneOf.2 (all_take_run rest), rfl⟩)
  split
  · rename_i dashes
    obtain ⟨dash, next⟩ := Bool.and_eq_true_iff.1 dashes
    obtain ⟨tail, rfl⟩ := List.head?_eq_some_iff.1 (eq_of_beq next)
    obtain rfl := eq_of_beq dash
    have line : tail.takeWhile (· != '\n') ∈ (oneOf (· != '\n'))∗ :=
      mem_star_oneOf.2 (List.all_eq_true.1 List.all_takeWhile)
    refine .inr (mem_exactly_mul.2 ⟨_, line, ?_⟩)
    rw [take_run]
    rfl
  split
  · rename_i letter
    refine .inr (mem_wordKind ?_)
    simp [Text.isWord, letter, take_run]
  split
  · rename_i quote
    obtain ⟨u, body, read⟩ := take_quotedLength '"' rest
    rw [eq_of_beq quote]
    dsimp only
    rw [read]
    split
    · exact .inr (Language.append_mem_mul (mem_exactly_mul.2 ⟨u, body, rfl⟩) rfl)
    · exact .inr (mem_exactly_mul.2 ⟨u, body, rfl⟩)
  split
  · rename_i quote
    obtain ⟨u, body, read⟩ := take_quotedLength '\'' rest
    rw [eq_of_beq quote]
    dsimp only
    rw [read]
    split
    · exact .inr (Language.append_mem_mul (mem_exactly_mul.2 ⟨u, body, rfl⟩) rfl)
    · exact .inr (mem_exactly_mul.2 ⟨u, body, rfl⟩)
  split
  · rename_i starts
    have reach : number (c :: rest) = ((number (c :: rest)).1, (number (c :: rest)).2) := rfl
    obtain ⟨some, -⟩ := startsNumber_take (c :: rest) starts reach
    dsimp only
    rw [← List.take_succ_cons, Nat.sub_add_cancel some]
    exact .inr (take_number starts)
  · have next : rest.take (if (symbol c rest.head?).2 then 1 else 0) =
        if (symbol c rest.head?).2 then rest.head?.toList else [] := by
      split <;> cases rest <;> rfl
    dsimp only
    rw [next]
    rcases symbol_mem c rest.head? with stray | fits
    · exact .inl (by rw [stray]; rfl)
    · exact .inr fits

/-- A literal without its closing quote goes on to the end. -/
theorem quotedLength_open {quote : Char} {u : List Char} (h : u ∈ unquoted quote) :
    quotedLength quote u = (u.length, false) := by
  have all := quotedLength_unquoted h []
  rwa [List.append_nil] at all

theorem quotedLength_close {quote : Char} {u : List Char} (h : u ∈ unquoted quote) :
    quotedLength quote (u ++ [quote]) = ((u ++ [quote]).length, true) := by
  rw [quotedLength_unquoted h, quotedLength, List.length_append]
  simp

theorem cons_mem_exactly_mul {s : String} {l : Language Char} (d : Char) (single : s.toList = [d]) :
    c :: rest ∈ exactly s * l ↔ c = d ∧ rest ∈ l := by
  simp [mem_exactly_mul, single, and_comm]

theorem first_double (rest : List Char) : first '"' rest =
    (if (quotedLength '"' rest).2 then .quotedIdent else .openIdent, (quotedLength '"' rest).1) := rfl

theorem first_single (rest : List Char) : first '\'' rest =
    (if (quotedLength '\'' rest).2 then .string else .openString, (quotedLength '\'' rest).1) := rfl

theorem first_nonAscii (beyond : 128 ≤ c.toNat) : first c [] = (.nonAscii, 0) := by
  have other (d : Char) (ascii : d.toNat < 128) : c ≠ d := by
    rintro rfl
    omega
  have number : c.toNat = c.val.toNat := rfl
  have space : isSpace c = false := by simp [isSpace, other]
  have letter : Text.isLetter c = false := by
    unfold Text.isLetter Char.isAlpha Char.isUpper Char.isLower
    simp only [ge_iff_le, UInt32.le_iff_toNat_le, Char.reduceVal, UInt32.reduceToNat, Bool.or_eq_false_iff,
      Bool.and_eq_false_imp, decide_eq_true_eq, decide_eq_false_iff_not]
    omega
  have digit : c.isDigit = false := by
    simp only [Char.isDigit, ge_iff_le, UInt32.le_iff_toNat_le, Char.reduceVal, UInt32.reduceToNat, Bool.and_eq_false_imp,
      decide_eq_true_eq, decide_eq_false_iff_not]
    omega
  have mark : symbol c none = (.nonAscii, false) := by
    unfold symbol
    split
    case h_18 => rw [if_neg (Nat.not_lt.2 beyond)]
    all_goals exact absurd beyond (by decide)
  simp [first, space, letter, digit, other, mark]

/-- A text in the language of a kind is one token of this kind, or a keyword in place of a name. -/
theorem first_of_mem {kind : Kind} (h : c :: rest ∈ pattern kind) : ∃ found, first c rest = (found, rest.length) ∧
    (found = kind ∨ kind = .ident ∧ found.isKeyword = true) := by
  have number (literal : kind.isNumber = true) (h : c :: rest ∈ pattern kind) : first c rest = (kind, rest.length) := by
    have found : first c (rest ++ []) = (kind, rest.length) := Grammar.first_number (isNumber_of_mem literal h) separates_nil
    rwa [List.append_nil] at found
  have word (word : Text.isWord (c :: rest) = true) : first c rest = (wordKind (c :: rest), rest.length) := by
    have found : first c (rest ++ []) = (wordKind (c :: rest), rest.length) := Grammar.first_word word (by simp)
    rwa [List.append_nil] at found
  -- The kinds that are left at the end are symbols, of which each has a single text.
  cases kind with
  | blank =>
    obtain ⟨_, _, space, others, ⟨⟩⟩ := mem_oneOf_mul.1 h
    exact ⟨_, by rw [first, if_pos space, run_eq_length (mem_star_oneOf.1 others)], .inl rfl⟩
  | comment =>
    obtain ⟨u, line, ⟨⟩⟩ := mem_exactly_mul.1 h
    have all : ∀ d ∈ '-' :: u, (d != '\n') = true := List.forall_mem_cons.2 ⟨rfl, mem_star_oneOf.1 line⟩
    exact ⟨_, Prod.ext rfl (run_eq_length all), .inl rfl⟩
  | ident =>
    have found := word (mem_ident.1 h)
    refine ⟨_, found, ?_⟩
    unfold wordKind
    split
    · exact .inr ⟨rfl, rfl⟩
    · exact .inl rfl
  | keyword k =>
    obtain ⟨letters, keyword⟩ := wordKind_of_mem h
    exact ⟨_, word letters, .inl keyword⟩
  | quotedIdent =>
    rw [pattern, mul_assoc] at h
    obtain ⟨rfl, body⟩ := (cons_mem_exactly_mul '"' rfl).1 h
    obtain ⟨u, inside, last, closing, rfl⟩ := Language.mem_mul.1 body
    obtain rfl : last = ['"'] := closing
    exact ⟨_, by rw [first_double, quotedLength_close inside, if_pos rfl], .inl rfl⟩
  | openIdent =>
    obtain ⟨rfl, body⟩ := (cons_mem_exactly_mul '"' rfl).1 h
    exact ⟨_, by rw [first_double, quotedLength_open body, if_neg Bool.false_ne_true], .inl rfl⟩
  | string =>
    rw [pattern, mul_assoc] at h
    obtain ⟨rfl, body⟩ := (cons_mem_exactly_mul '\'' rfl).1 h
    obtain ⟨u, inside, last, closing, rfl⟩ := Language.mem_mul.1 body
    obtain rfl : last = ['\''] := closing
    exact ⟨_, by rw [first_single, quotedLength_close inside, if_pos rfl], .inl rfl⟩
  | openString =>
    obtain ⟨rfl, body⟩ := (cons_mem_exactly_mul '\'' rfl).1 h
    exact ⟨_, by rw [first_single, quotedLength_open body, if_neg Bool.false_ne_true], .inl rfl⟩
  | integer => exact ⟨_, number rfl h, .inl rfl⟩
  | decimal => exact ⟨_, number rfl h, .inl rfl⟩
  | scientific => exact ⟨_, number rfl h, .inl rfl⟩
  | notEq =>
    rcases h with h | h <;> cases h <;> exact ⟨_, rfl, .inl rfl⟩
  | nonAscii =>
    obtain ⟨_, beyond, ⟨⟩⟩ := h
    exact ⟨_, first_nonAscii (of_decide_eq_true beyond), .inl rfl⟩
  | strayChar => exact h.elim
  | endOfText => exact h.elim
  | _ =>
    cases h
    exact ⟨_, rfl, .inl rfl⟩

theorem ne_nil_of_mem {kind : Kind} {w : List Char} (h : w ∈ pattern kind) : w ≠ [] := by
  rintro rfl
  have started (l : Language Char) (s : String) (some : s.toList ≠ []) : [] ∉ exactly s * l := by
    intro member
    obtain ⟨u, -, split⟩ := mem_exactly_mul.1 member
    exact some (List.append_eq_nil_iff.1 split.symm).1
  cases kind with
  | blank =>
    obtain ⟨_, _, _, _, ⟨⟩⟩ := mem_oneOf_mul.1 h
  | comment => exact started _ _ (by decide) h
  | ident => cases mem_ident.1 h
  | keyword k => cases (wordKind_of_mem h).1
  | quotedIdent =>
    rw [pattern, mul_assoc] at h
    exact started _ _ (by decide) h
  | openIdent => exact started _ _ (by decide) h
  | string =>
    rw [pattern, mul_assoc] at h
    exact started _ _ (by decide) h
  | openString => exact started _ _ (by decide) h
  | integer => cases (isNumber_of_mem rfl h).1
  | decimal => cases (isNumber_of_mem rfl h).1
  | scientific => cases (isNumber_of_mem rfl h).1
  | notEq => rcases h with h | h <;> cases h
  | nonAscii =>
    obtain ⟨_, _, ⟨⟩⟩ := h
  | _ => cases h

end SkyQuery.Lexer
