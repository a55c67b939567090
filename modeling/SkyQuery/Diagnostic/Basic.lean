import SkyQuery.Diagnostic.Code
import SkyQuery.Source.Span

/-!
# Diagnostics

A `Diagnostic` says what is wrong with a text, where, and perhaps how to mend it. `Report` is a list
of them from one validation, and `Diagnostic.sort` puts such a list into the order of the text.
-/

namespace SkyQuery

structure Diagnostic where
  code : Code
  message : String
  span : Option Span := none
  hint : Option String := none
  deriving DecidableEq, Repr

namespace Diagnostic

/-- A diagnostic with the code's own message where none is given. -/
def build (code : Code) (message : Option String) (span : Option Span) (hint : Option String) :
    Diagnostic :=
  ⟨code, message.getD code.defaultMessage, span, hint⟩

/-- The diagnostic, placed at `span` unless it has a place already. -/
def orAt (d : Diagnostic) (span : Option Span) : Diagnostic :=
  if d.span.isNone then { d with span := span } else d

def render (d : Diagnostic) : String :=
  match d.hint with
  | some hint => d.message ++ " " ++ hint
  | none => d.message

def format (d : Diagnostic) : String :=
  let place := match d.span with
    | some span => " " ++ span.render
    | none => ""
  let hint := match d.hint with
    | some hint => "\n  hint: " ++ hint
    | none => ""
  d.code.id ++ ": " ++ d.message ++ place ++ hint

/-- Whether `a` may stand before `b`: spans go up and what has no span comes last. -/
def notAfter (a b : Diagnostic) : Bool :=
  match a.span, b.span with
  | some s, some t => !t.precedes s
  | some _, none => true
  | none, some _ => false
  | none, none => true

/-- The diagnostics in the order of the text; those at one place keep their order. -/
def sort (ds : List Diagnostic) : List Diagnostic := ds.mergeSort notAfter

end Diagnostic

abbrev Report := List Diagnostic

namespace Report

def render (r : Report) : String :=
  toString r.length ++ " unresolved identifiers!" ++
    String.join (r.map fun d => "\n  - " ++ d.render)

/-- Nothing to report is success. -/
def toExcept (r : Report) : Except Report Unit := if r.isEmpty then .ok () else .error r

end Report

/-- Why a text was refused: it could not be read, or what was read did not pass validation. -/
inductive Refusal where
  | unreadable (cause : Diagnostic)
  | invalid (report : Report)
  deriving DecidableEq, Repr

namespace Refusal

def diagnostics : Refusal → List Diagnostic
  | .unreadable cause => [cause]
  | .invalid report => report

def render : Refusal → String
  | .unreadable cause => cause.render
  | .invalid report => report.render

end Refusal

/-! ### Results instead of errors -/

section Results

variable {ε α β : Type}

theorem ok_of_bind {r : Except ε α} {f : α → Except ε β} {b : β} (h : (r >>= f) = .ok b) :
    ∃ a, r = .ok a ∧ f a = .ok b := by
  cases r with
  | error e => cases h
  | ok a => exact ⟨a, rfl, h⟩

theorem ok_of_map {r : Except ε α} {wrap : α → β} {b : β} (h : r.map wrap = .ok b) : ∃ a, r = .ok a ∧ wrap a = b := by
  cases r with
  | error e => cases h
  | ok a => exact ⟨a, rfl, Except.ok.inj h⟩

theorem ok_of_mapError {r : Except ε α} {f : ε → β} {a : α} (h : r.mapError f = .ok a) : r = .ok a := by
  cases r with
  | error e => cases h
  | ok b =>
    cases h
    rfl

end Results

end SkyQuery
