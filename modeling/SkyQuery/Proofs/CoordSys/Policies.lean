import SkyQuery.Proofs.CoordSys.Patterns

/-!
# Policies

A policy is read if and only if each of its patterns is a phrase, and allows what one of the phrases
accepts (`patterns_meaning`).
-/

namespace SkyQuery

open Text

namespace Policy

open Pattern

/-- A pattern with blanks around it reads as a phrase. -/
def Reads (text : String) (p : PatternPhrase) : Prop := words (trim text) = p.words

theorem compile_ok_iff {text source : String} : compile text = .ok source ↔ source? text = some source := by
  rw [compile]
  split
  · rename_i found
    rw [found]
    simp
  · rename_i missing
    rw [missing]
    simp

theorem mapM_compile {texts : List String} {phrases : List PatternPhrase}
    (read : List.Forall₂ (fun text p => words text = p.words) texts phrases) :
    texts.mapM compile = .ok (phrases.map PatternPhrase.source) := by
  induction read with
  | nil => rfl
  | cons first _ ih =>
    rw [List.mapM_cons, compile_ok_iff.2 (source?_phrase first), ih]
    rfl

theorem exists_phrases {texts sources : List String} (compiled : texts.mapM compile = .ok sources) :
    ∃ phrases : List PatternPhrase, List.Forall₂ (fun text p => words text = p.words) texts phrases := by
  induction texts generalizing sources with
  | nil => exact ⟨[], .nil⟩
  | cons text texts ih =>
    rw [List.mapM_cons] at compiled
    cases first : compile text with
    | error e =>
      rw [first] at compiled
      cases compiled
    | ok source =>
      cases others : texts.mapM compile with
      | error e =>
        rw [first, others] at compiled
        cases compiled
      | ok rest =>
        obtain ⟨p, phrase⟩ := exists_phrase (compile_ok_iff.1 first)
        obtain ⟨phrases, read⟩ := ih others
        exact ⟨p :: phrases, .cons phrase read⟩

/-- Where every pattern is a phrase, there is a policy, which allows what one of them accepts. -/
theorem parse_phrases {patterns : List String} {phrases : List PatternPhrase} (nonempty : patterns ≠ [])
    (read : List.Forall₂ Reads patterns phrases) :
    ∃ p, parse patterns = .ok p ∧ ∀ c, p.allows c = true ↔ ∃ phrase ∈ phrases, phrase.Accepts c := by
  have some : phrases ≠ [] := by
    rintro rfl
    exact nonempty (List.forall₂_nil_right_iff.1 read)
  obtain ⟨e, found, matched⟩ := Regex.parse?_whole some fun p _ => writes_source p
  refine ⟨⟨patterns.map trim, e⟩, ?_, fun c => ?_⟩
  · have compiled := mapM_compile (List.forall₂_map_left_iff.2 read)
    have stated : (patterns.map trim).isEmpty = false := by simpa using nonempty
    unfold parse
    simp only [stated, compiled, wholeSource, Bool.false_eq_true, if_false, bind, Except.bind, found]
    rfl
  · rw [allows]
    dsimp only
    rw [matched]
    simp only [PatternPhrase.renderFull_mem_texts]

/-- What one of the phrases accepts, one of the patterns does. -/
theorem exists_accepts_iff {patterns : List String} {phrases : List PatternPhrase}
    (read : List.Forall₂ Reads patterns phrases) (c : CoordSys) :
    (∃ phrase ∈ phrases, phrase.Accepts c) ↔ ∃ text ∈ patterns, ∃ phrase, Reads text phrase ∧ phrase.Accepts c := by
  induction read with
  | nil => simp
  | @cons text phrase _ _ here _ ih =>
    have first : phrase.Accepts c ↔ ∃ phrase, Reads text phrase ∧ phrase.Accepts c := by
      constructor
      · exact fun accepts => ⟨phrase, here, accepts⟩
      · rintro ⟨other, there, accepts⟩
        exact (PatternPhrase.accepts_congr (here.symm.trans there) c).2 accepts
    rw [List.exists_mem_cons_iff, List.exists_mem_cons_iff, ih, first]

theorem exists_reads_of_parse {patterns : List String} {p : Policy} (parsed : parse patterns = .ok p) :
    ∃ phrases, List.Forall₂ Reads patterns phrases := by
  by_cases empty : patterns = []
  · exact ⟨[], empty ▸ .nil⟩
  cases compiled : (patterns.map trim).mapM compile with
  | error e =>
    have stated : (patterns.map trim).isEmpty = false := by simpa using empty
    unfold parse at parsed
    simp only [stated, compiled, bind, Except.bind, Bool.false_eq_true, if_false] at parsed
    cases parsed
  | ok sources =>
    obtain ⟨phrases, read⟩ := exists_phrases compiled
    have trimmed : List.Forall₂ (fun text p => words (trim text) = PatternPhrase.words p) patterns phrases :=
      List.forall₂_map_left_iff.1 read
    exact ⟨phrases, trimmed⟩

theorem exists_forall₂_reads {patterns : List String} (read : ∀ text ∈ patterns, ∃ phrase, Reads text phrase) :
    ∃ phrases, List.Forall₂ Reads patterns phrases := by
  induction patterns with
  | nil => exact ⟨[], .nil⟩
  | cons text patterns ih =>
    obtain ⟨⟨phrase, first⟩, others⟩ := List.forall_mem_cons.1 read
    obtain ⟨phrases, rest⟩ := ih others
    exact ⟨phrase :: phrases, .cons first rest⟩

theorem parse_nil : parse [] = .ok ⟨[], none⟩ := rfl

theorem allows_of_parse {patterns : List String} {p : Policy} (parsed : parse patterns = .ok p) (c : CoordSys) :
    p.allows c = true ↔
      patterns = [] ∧ c = .default ∨ ∃ text ∈ patterns, ∃ phrase, Reads text phrase ∧ phrase.Accepts c := by
  by_cases empty : patterns = []
  · subst empty
    obtain rfl := Except.ok.inj (parse_nil.symm.trans parsed)
    simp [allows, CoordSys.isDefault]
  · obtain ⟨phrases, read⟩ := exists_reads_of_parse parsed
    obtain ⟨q, again, allowed⟩ := parse_phrases empty read
    obtain rfl := Except.ok.inj (again.symm.trans parsed)
    rw [allowed, exists_accepts_iff read]
    simp [empty]

theorem parse_of_reads {patterns : List String} (read : ∀ text ∈ patterns, ∃ phrase, Reads text phrase) :
    ∃ p, parse patterns = .ok p := by
  by_cases empty : patterns = []
  · exact ⟨_, empty ▸ parse_nil⟩
  · obtain ⟨phrases, together⟩ := exists_forall₂_reads read
    obtain ⟨p, parsed, -⟩ := parse_phrases empty together
    exact ⟨p, parsed⟩

theorem reads_of_parse {patterns : List String} {p : Policy} (parsed : parse patterns = .ok p) :
    ∀ text ∈ patterns, ∃ phrase, Reads text phrase := by
  obtain ⟨phrases, read⟩ := exists_reads_of_parse parsed
  clear parsed
  induction read with
  | nil => simp
  | cons first _ ih => exact List.forall_mem_cons.2 ⟨⟨_, first⟩, ih⟩

theorem allows_default {patterns : List String} {p : Policy} (parsed : parse patterns = .ok p) :
    p.allows .default = true := by
  rw [allows_of_parse parsed]
  cases patterns with
  | nil => exact .inl ⟨rfl, rfl⟩
  | cons text patterns =>
    obtain ⟨phrase, first⟩ := reads_of_parse parsed text List.mem_cons_self
    exact .inr ⟨text, List.mem_cons_self, phrase, first, phrase.accepts_default⟩

theorem allows_of_subset {patterns more : List String} {p q : Policy} (parsed : parse patterns = .ok p)
    (subset : patterns ⊆ more) (parsedMore : parse more = .ok q) {c : CoordSys} (allowed : p.allows c = true) :
    q.allows c = true := by
  rcases (allows_of_parse parsed c).1 allowed with ⟨-, rfl⟩ | ⟨text, member, accepted⟩
  · exact allows_default parsedMore
  · exact (allows_of_parse parsedMore c).2 (.inr ⟨text, subset member, accepted⟩)

/-- Patterns make a policy if and only if each is a phrase. The policy allows the systems that one of
them accepts, or the default system where there are none; so it always allows the default system, and
what it allows no further pattern forbids. -/
theorem patterns_meaning (patterns : List String) :
    ((∃ p, parse patterns = .ok p) ↔ ∀ text ∈ patterns, ∃ phrase, Reads text phrase) ∧
      ∀ p, parse patterns = .ok p →
        (∀ c, p.allows c = true ↔
          patterns = [] ∧ c = .default ∨ ∃ text ∈ patterns, ∃ phrase, Reads text phrase ∧ phrase.Accepts c) ∧
        p.allows .default = true ∧
        ∀ more q, patterns ⊆ more → parse more = .ok q → ∀ c, p.allows c = true → q.allows c = true := by
  constructor
  · exact ⟨fun ⟨_, parsed⟩ => reads_of_parse parsed, parse_of_reads⟩
  · intro p parsed
    exact ⟨allows_of_parse parsed, allows_default parsed,
      fun more q subset parsedMore c => allows_of_subset parsed subset parsedMore⟩

/-- A list in both letter cases, between more blanks than it needs. -/
theorem patterns_meaning_list :
    ∃ p, parse [" (icrs|Fk4)  * SPHERICAL2"] = .ok p ∧ p.allows .default = true ∧
      p.allows { frame := .fk4, refPos := .lsr } = true ∧ p.allows { frame := .fk5 } = false := by
  have answers : (match parse [" (icrs|Fk4)  * SPHERICAL2"] with
      | .ok p => (p.allows { frame := .fk4, refPos := .lsr }, p.allows { frame := .fk5 })
      | .error _ => (false, false)) = (true, false) := by decide +kernel
  cases parsed : parse [" (icrs|Fk4)  * SPHERICAL2"] with
  | error e =>
    rw [parsed] at answers
    cases answers
  | ok p =>
    rw [parsed] at answers
    obtain ⟨-, default, -⟩ := (patterns_meaning [" (icrs|Fk4)  * SPHERICAL2"]).2 p parsed
    exact ⟨p, rfl, default, congrArg Prod.fst answers, congrArg Prod.snd answers⟩

end Policy

end SkyQuery
