import SkyQuery.Proofs.Token.Lexed
import SkyQuery.Proofs.WellFormed.Queries

/-!
# Texts are read as well-formed trees

`readQuery_wellFormed`: every query that is read from a text is well formed at every depth.
-/

namespace SkyQuery

open Grammar Parse

variable {v : Version} {text : String}

theorem Grammar.whole_yields {α : Type} {p : Parse α} {P : α → Prop} (h : Yields v p P) :
    Yields v (whole p) P := by
  refine h.bind fun a ha => (yields_eat _).bind fun _ _ => .ite (fun _ => ?_) fun _ => ?_
  · exact (yields_expect _).bind fun _ _ => yields_pure ha
  · exact (yields_sees _).bind fun _ _ => .ite (fun _ => yields_pure ha) fun _ => yields_unexpected

theorem Grammar.readWhole_error {α : Type} {p : Parse α} {e : Diagnostic} (h : tokensFor v text = .error e) :
    readWhole p v text = .error e := by
  rw [readWhole, h]
  rfl

theorem Grammar.readWhole_tokens {α : Type} {p : Parse α} {tokens : List Token} (h : tokensFor v text = .ok tokens) :
    readWhole p v text = (whole p v (State.ofTokens tokens)).map Prod.fst := by
  rw [readWhole, h]
  change (whole p v (State.ofTokens tokens) >>= fun r => pure r.1) = _
  cases whole p v (State.ofTokens tokens) <;> rfl

/-- A text is read if it is cut into tokens and these are read to their end. -/
theorem Grammar.readWhole_ok_iff {α : Type} {p : Parse α} {a : α} : readWhole p v text = .ok a ↔
    ∃ tokens t, tokensFor v text = .ok tokens ∧ whole p v (State.ofTokens tokens) = .ok (a, t) := by
  cases htokens : tokensFor v text with
  | error e => simp [readWhole_error htokens]
  | ok tokens =>
    rw [readWhole_tokens htokens]
    cases hread : whole p v (State.ofTokens tokens) <;> simp [hread, Except.map, Prod.ext_iff]

/-- Whatever is read from a whole text has the properties that its reader yields. -/
theorem Grammar.readWhole_ok {α : Type} {p : Parse α} {P : α → Prop} {a : α} (hp : Yields v p P)
    (h : readWhole p v text = .ok a) : P a := by
  obtain ⟨tokens, t, htokens, hread⟩ := readWhole_ok_iff.1 h
  exact (whole_yields hp _ a t (tokensFor_lexed htokens) hread).2

/-- Every query that is read is well formed: operands have the types and ranks that their places
demand, calls have the arguments that their functions take, conditions and set operations nest by
precedence, and `WITH`, order and offset stand outermost only. -/
theorem readQuery_wellFormed {q : Query} (h : readQuery v text = .ok q) : q.WellFormed v :=
  readWhole_ok query_yields h

theorem readQuery_wellFormed_grouped :
    let text := "SELECT -a * (b + 2) FROM t WHERE NOT (a = 1 OR 'x' || c LIKE 'y')"
    ∃ q, readQuery .v21 text = .ok q ∧ q.WellFormed .v21 := by
  intro text
  obtain ⟨q, read⟩ := exists_ok_of_isSome (r := readQuery .v21 text) (by decide +kernel)
  exact ⟨q, read, readQuery_wellFormed read⟩

end SkyQuery
