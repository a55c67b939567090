import SkyQuery.Grammar.Query

/-!
# Reading whole texts

A text holds a query or one clause of a query, perhaps with a semicolon at its end. `Fragment` is
what was read.
-/

namespace SkyQuery

/-- What a text is read as. -/
inductive Entry where
  | query | select | source | filter | orderBy | groupBy
  deriving DecidableEq, Repr

/-- A query or one of its clauses. -/
inductive Fragment where
  | query (query : Query)
  | select (clause : SelectClause)
  | source (items : List FromItem)
  | filter (condition : Constraint)
  | orderBy (items : List OrderItem)
  | groupBy (items : List Operand)

namespace Grammar

open Parse

/-- The tokens of a text for a version; keywords that the version does not know are words. -/
def tokensFor (v : Version) (text : String) : Except Diagnostic (List Token) :=
  (Lexer.tokenize text false).map fun tokens => tokens.map fun t =>
    if t.kind.isKeyword && !t.kind.availableIn v then { t with kind := .ident } else t

/-- What a reader reads, with nothing after it but a semicolon. -/
def whole {α : Type} (p : Parse α) : Parse α := do
  let a ← p
  if ← eat .semicolon then
    let _ ← expect .endOfText
    return a
  else if ← sees .endOfText then return a
  else unexpected

/-- Reads a text to its end. -/
def readWhole {α : Type} (p : Parse α) (v : Version) (text : String) : Except Diagnostic α := do
  let tokens ← tokensFor v text
  let (a, _) ← whole p v (State.ofTokens tokens)
  return a

/-- `WHERE condition` -/
def whereClause : Parse Constraint := do
  let _ ← expect (.keyword .whereKw)
  condition subquery

end Grammar

open Grammar

/-- Reads a query. -/
def readQuery : Version → String → Except Diagnostic Query := readWhole query

/-- Reads a clause `SELECT ...`. -/
def readSelect : Version → String → Except Diagnostic SelectClause := readWhole selectClause

/-- Reads a clause `FROM ...`. -/
def readFrom : Version → String → Except Diagnostic (List FromItem) :=
  readWhole (fromClause subquery)

/-- Reads a clause `WHERE ...`. -/
def readWhere : Version → String → Except Diagnostic Constraint := readWhole whereClause

/-- Reads a clause `ORDER BY ...`. -/
def readOrderBy : Version → String → Except Diagnostic (List OrderItem) := readWhole orderByClause

/-- Reads a clause `GROUP BY ...`. -/
def readGroupBy : Version → String → Except Diagnostic (List Operand) := readWhole groupByClause

/-- Reads a text as what `entry` says. -/
def Entry.read (v : Version) (text : String) : Entry → Except Diagnostic Fragment
  | .query => (readQuery v text).map .query
  | .select => (readSelect v text).map .select
  | .source => (readFrom v text).map .source
  | .filter => (readWhere v text).map .filter
  | .orderBy => (readOrderBy v text).map .orderBy
  | .groupBy => (readGroupBy v text).map .groupBy

theorem toOption_eq_some_iff {ε α : Type} {r : Except ε α} {a : α} : r.toOption = some a ↔ r = .ok a := by
  cases r <;> simp [Except.toOption]

theorem exists_ok_of_isSome {ε α : Type} {r : Except ε α} (h : r.toOption.isSome = true) : ∃ a, r = .ok a := by
  simpa only [Option.isSome_iff_exists, toOption_eq_some_iff] using h

end SkyQuery
