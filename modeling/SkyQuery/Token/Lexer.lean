import SkyQuery.Diagnostic.Basic
import SkyQuery.Token.Basic

/-!
# Lexer

`lex` cuts a text into tokens, each the longest that the patterns of the language allow at its
place; a word that is a keyword is never a name. A character that starts no token is a token of its
own. `tokenize` leaves out white space and comments and refuses lexical faults.
-/

namespace SkyQuery.Lexer

/-- The white space of the language; other blanks are faults. -/
def isSpace (c : Char) : Bool :=
  c == ' ' || c == '\t' || c == '\r' || c == '\n' || c == '\x0c'

/-- The number of characters at the start of a text that satisfy `p`. -/
def run (p : Char → Bool) (cs : List Char) : Nat := (cs.takeWhile p).length

/-- The length of the exponent at the start of a text, zero when it has none. -/
def exponent : List Char → Nat
  | c :: rest =>
    if c == 'e' || c == 'E' then
      let sign := match rest with
        | d :: _ => if d == '+' || d == '-' then 1 else 0
        | [] => 0
      let digits := run Char.isDigit (rest.drop sign)
      if digits = 0 then 0 else 1 + sign + digits
    else 0
  | [] => 0

/-- The number at the start of a text that starts with a digit, or with a point before a digit. -/
def number (cs : List Char) : Kind × Nat :=
  let whole := run Char.isDigit cs
  let mantissa := match cs.drop whole with
    | '.' :: rest => (Kind.decimal, whole + 1 + run Char.isDigit rest)
    | _ => (Kind.integer, whole)
  match exponent (cs.drop mantissa.2) with
  | 0 => mantissa
  | n => (.scientific, mantissa.2 + n)

/-- The length of a quoted text after its opening quote, and whether it is closed. Two quotes in a
row do not close it. -/
def quotedLength (quote : Char) : List Char → Nat × Bool
  | [] => (0, false)
  | [c] => (1, c == quote)
  | c :: d :: rest =>
    if c == quote then
      if d == quote then
        let tail := quotedLength quote rest
        (tail.1 + 2, tail.2)
      else (1, true)
    else
      let tail := quotedLength quote (d :: rest)
      (tail.1 + 1, tail.2)

/-- The kind of a word: a keyword in any letter case, or a name. -/
def wordKind (word : List Char) : Kind :=
  match Keyword.ofWord? (String.ofList word) with
  | some keyword => .keyword keyword
  | none => .ident

/-- The kind of the symbol `c` when `next` follows it, and whether it takes `next`. -/
def symbol (c : Char) (next : Option Char) : Kind × Bool :=
  match c, next with
  | '|', some '|' => (.concat, true)
  | '!', some '=' => (.notEq, true)
  | '<', some '>' => (.notEq, true)
  | '<', some '=' => (.ltEq, true)
  | '>', some '=' => (.gtEq, true)
  | '(', _ => (.leftParen, false)
  | ')', _ => (.rightParen, false)
  | ',', _ => (.comma, false)
  | '.', _ => (.dot, false)
  | ';', _ => (.semicolon, false)
  | '*', _ => (.star, false)
  | '+', _ => (.plus, false)
  | '-', _ => (.minus, false)
  | '/', _ => (.slash, false)
  | '=', _ => (.eq, false)
  | '<', _ => (.lt, false)
  | '>', _ => (.gt, false)
  | _, _ => (if c.toNat < 128 then .strayChar else .nonAscii, false)

/-- The kind of the token that starts with `c`, and how many characters of `rest` it takes. -/
def first (c : Char) (rest : List Char) : Kind × Nat :=
  if isSpace c then (.blank, run isSpace rest)
  else if c == '-' && rest.head? == some '-' then (.comment, run (· != '\n') rest)
  else if Text.isLetter c then
    let n := run Text.isWordChar rest
    (wordKind (c :: rest.take n), n)
  else if c == '"' then
    let tail := quotedLength '"' rest
    (if tail.2 then .quotedIdent else .openIdent, tail.1)
  else if c == '\'' then
    let tail := quotedLength '\'' rest
    (if tail.2 then .string else .openString, tail.1)
  else if c.isDigit || (c == '.' && (rest.head?.map Char.isDigit).getD false) then
    let literal := number (c :: rest)
    (literal.1, literal.2 - 1)
  else
    let mark := symbol c rest.head?
    (mark.1, if mark.2 then 1 else 0)

/-- The tokens of a text that starts at the place `p`. -/
def lexFrom (p : Place) : List Char → List Token
  | [] => []
  | c :: rest =>
    let (kind, n) := first c rest
    let text := c :: rest.take n
    let stop := p.advanceAll text
    ⟨kind, String.ofList text, p, stop⟩ :: lexFrom stop (rest.drop n)
termination_by cs => cs.length
decreasing_by simp only [List.length_drop, List.length_cons]; omega

/-- The tokens of a text, nothing left out. -/
def lex (text : String) : List Token := lexFrom Place.origin text.toList

/-- What is wrong with a token that is a lexical fault. -/
def fault (t : Token) : Diagnostic :=
  let place := "l." ++ toString t.start.line ++ ", c." ++ toString t.start.column
  match t.kind with
  | .openString =>
    ⟨.openString, "Incomplete string literal starting at " ++ place ++ "!", some t.span,
      some "Possible cause: a string literal must end with a simple quote (')."⟩
  | .openIdent =>
    ⟨.openIdentifier, "Incomplete delimited identifier starting at " ++ place ++ "!", some t.span,
      some "Possible cause: a delimited identifier must end with a double quote (\")."⟩
  | _ =>
    let c := (t.text.toList.head?).getD '?'
    let message := "Incorrect character encountered at " ++ place ++ ": \"" ++ c.toString ++
      "\" (" ++ toString c.toNat ++ ")!"
    let hint :=
      if 128 ≤ c.toNat then
        some "Possible cause: a non-ASCII character (solution: remove/replace it)."
      else if c = '_' then
        some ("Possible cause: a regular identifier must start with a letter (solution: write " ++
          "the identifier between double quotes).")
      else none
    ⟨.invalidCharacter, message, some t.span, hint⟩

/-- The tokens that the grammar reads, up to the first semicolon if `stopAtSemicolon`. They end
with the token for the end of the text, which then stands where the semicolon was. -/
def significant (stopAtSemicolon : Bool) (p : Place) : List Token → Except Diagnostic (List Token)
  | [] => .ok [Token.atEnd p]
  | t :: rest =>
    if t.kind.isTrivia then significant stopAtSemicolon t.stop rest
    else if t.kind.isFault then .error (fault t)
    else if stopAtSemicolon && t.kind == .semicolon then .ok [Token.atEnd t.start]
    else (significant stopAtSemicolon t.stop rest).map (t :: ·)

/-- The significant tokens of a text, or its first lexical fault. -/
def tokenize (text : String) (stopAtSemicolon : Bool) : Except Diagnostic (List Token) :=
  significant stopAtSemicolon Place.origin (lex text)

end SkyQuery.Lexer
