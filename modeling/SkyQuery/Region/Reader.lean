import SkyQuery.Decimal.Reader
import SkyQuery.Region.Basic

/-!
# Reading regions

```text
region = POSITION [sys] pair
       | CIRCLE [sys] pair radius
       | BOX [sys] pair width height
       | POLYGON [sys] pair pair pair pair*
       | (UNION | INTERSECTION) [sys] ( region region region* )
       | NOT ( region )
dali   = x y | x y radius | x y x y x y (x y)*
```

A text that starts with none of the words above is read as DALI. A coordinate system is the longest
run of words after the first that can be one; parentheses are words of their own.
-/

namespace SkyQuery.Region

/-- A word cut around its parentheses, each of which is a piece of its own. -/
def cutParens : List Char → List (List Char)
  | [] => []
  | c :: rest =>
    if c = '(' ∨ c = ')' then [c] :: cutParens rest
    else
      match rest with
      | [] => [[c]]
      | d :: _ =>
        if d = '(' ∨ d = ')' then [c] :: cutParens rest
        else
          match cutParens rest with
          | [] => [[c]]
          | piece :: pieces => (c :: piece) :: pieces

/-- The words of a text, parentheses apart. -/
def cut (text : String) : List String :=
  (Text.cutWords text.toList).flatMap fun word => (cutParens word).map String.ofList

abbrev Reader (α : Type) : Type := StateT (List String) (Except Diagnostic) α

def fault {α : Type} (message : String) : Reader α :=
  throw { code := .invalidStcs, message }

/-- How a region of a kind is to be written, for messages. -/
def formText (k : RegionKind) : String := "Expected syntax: \"" ++ k.form ++ "\"."

/-- The next word of a region of a kind, which must not end here. -/
def next (k : RegionKind) : Reader String := do
  match ← get with
  | [] => fault ("Unexpected End Of Expression! " ++ formText k)
  | word :: rest =>
    set rest
    return word

/-- Reads a number, which messages call `what`. -/
def number (k : RegionKind) (what : String) : Reader Float := do
  let word ← next k
  match Decimal.readFinite word with
  | some x => return x
  | none =>
    fault ("Incorrect syntax: " ++ what ++ " was expected instead of \"" ++ word ++ "\"! " ++
      formText k)

def length (k : RegionKind) : Reader Float := number k "a numeric"

def pair (k : RegionKind) : Reader Point := do
  let what := "a coordinates pair (2 numerics separated by one or more spaces)"
  let x ← number k what
  let y ← number k what
  return ⟨x, y⟩

/-- Reads pairs as long as a number is next; at most `n` of them. -/
def pairsFor (k : RegionKind) : Nat → Reader (List Point)
  | 0 => return []
  | n + 1 => do
    if ((← get).head?.bind Decimal.readFinite).isSome then
      let first ← pair k
      let others ← pairsFor k n
      return first :: others
    else return []

def paren (k : RegionKind) (expected : String) : Reader Unit := do
  let word ← next k
  if word = expected then return ()
  else
    fault ("Incorrect syntax: \"" ++ expected ++ "\" was expected instead of \"" ++ word ++
      "\"! " ++ formText k)

/-- Reads the coordinate system that is next, if there is one. -/
def system : Reader CoordSys := fun words => CoordSys.ofWords words

/-- Reads regions up to a closing parenthesis or the end; at most `n` of them. -/
def membersFor {ρ : Type} (region : Reader ρ) : Nat → Reader (List ρ)
  | 0 => return []
  | n + 1 => do
    match ← get with
    | [] => return []
    | word :: _ =>
      if word = ")" then return []
      else
        let first ← region
        let others ← membersFor region n
        return first :: others

/-- Runs a reader that is given a bound on the number of words it can read. -/
def bounded {α : Type} (p : Nat → Reader α) : Reader α := fun words => p words.length words

/-- Reads `( region region region* )` into a combination. -/
def combinationBody (region : Reader Region) (op : Combination) : Reader Region := do
  let sys ← system
  paren op.kind "("
  let first ← region
  let second ← region
  let others ← bounded (membersFor region)
  paren op.kind ")"
  return .combination op sys first second others

/-- Reads what follows the word of a kind, with the reader of members. -/
def body (region : Reader Region) : RegionKind → Reader Region
  | .position => do
    let sys ← system
    let p ← pair .position
    return .position sys p
  | .circle => do
    let sys ← system
    let p ← pair .circle
    let radius ← length .circle
    return .circle sys p radius
  | .box => do
    let sys ← system
    let p ← pair .box
    let width ← length .box
    let height ← length .box
    return .box sys p width height
  | .polygon => do
    let sys ← system
    let first ← pair .polygon
    let second ← pair .polygon
    let third ← pair .polygon
    let others ← bounded (pairsFor .polygon)
    return .polygon sys first second third others
  | .union => combinationBody region .union
  | .intersection => combinationBody region .intersection
  | .not => do
    paren .not "("
    let inner ← region
    paren .not ")"
    return .not inner

/-- Reads a region nested at most `n` deep. -/
def stcsFor : Nat → Reader Region
  | 0 => fault "Unexpected End Of Expression! A region was expected."
  | n + 1 => do
    match ← get with
    | [] => fault "Unexpected End Of Expression! A region was expected."
    | word :: rest =>
      match RegionKind.ofWord? word with
      | some k =>
        set rest
        body (stcsFor n) k
      | none =>
        fault ("Incorrect syntax: \"" ++ word ++ "\" was unexpected! A region (POSITION, CIRCLE, " ++
          "BOX, POLYGON, UNION, INTERSECTION or NOT) was expected.")

/-- Reads the STC-S form, to the last word. -/
def stcs : Reader Region := do
  let r ← fun words => stcsFor (words.length + 1) words
  match ← get with
  | [] => return r
  | word :: _ =>
    fault ("Incorrect syntax: \"" ++ word ++ "\" was unexpected after the region \"" ++
      r.renderStcs ++ "\"!")

/-- Numbers two by two; a last one alone is left out. -/
def pairUp : List Float → List Point
  | x :: y :: rest => ⟨x, y⟩ :: pairUp rest
  | _ => []

/-- Reads the DALI form, whose shape the count of numbers tells. -/
def readDali (words : List String) : Except Diagnostic Region :=
  if words.isEmpty then
    .error { code := .invalidDali, message := "Missing DALI expression to parse!" }
  else
    match words.mapM Decimal.readFinite with
    | some [x, y] => .ok (.position .default ⟨x, y⟩)
    | some [x, y, radius] => .ok (.circle .default ⟨x, y⟩ radius)
    | some numbers =>
      if numbers.length ≥ 6 && numbers.length % 2 == 0 then polygonOf .default (pairUp numbers)
      else incorrect
    | none => incorrect
where
  incorrect : Except Diagnostic Region :=
    .error { code := .invalidDali, message := "Incorrect DALI region!" }

def parse (text : String) : Except Diagnostic Region :=
  let words := cut text
  if (words.head?.bind RegionKind.ofWord?).isSome then (stcs words).map (·.1)
  else readDali words

end SkyQuery.Region
