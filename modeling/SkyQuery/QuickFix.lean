import SkyQuery.Token.Lexer
import SkyQuery.Token.Reserved

/-!
# Quick fixes

Two mistakes are mended without reading a query: characters that look like those of the language,
as word processors put them, and names that must stand between double quotes because they are
reserved or begin with an underscore.
-/

namespace SkyQuery.QuickFix

/-! ### Look-alikes -/

/-- What stands for a character: itself, a character that it looks like, or nothing. -/
def plain (c : Char) : Option Char :=
  let n := c.toNat
  if [0x2018, 0x2019, 0x201A, 0x201B, 0x2032, 0x2035].contains n then some '\''
  else if [0x201C, 0x201D, 0x201E, 0x201F, 0x2033, 0x2036].contains n then some '"'
  else if [0xA0, 0x1680, 0x202F, 0x205F, 0x3000].contains n || (0x2000 ≤ n && n ≤ 0x200A) then
    some ' '
  else if [0x2212, 0xFE63, 0xFF0D].contains n || (0x2010 ≤ n && n ≤ 0x2015) then some '-'
  else if [0x200B, 0x200C, 0x200D, 0x2060, 0xFEFF].contains n then none
  else some c

/-- The text with look-alikes replaced and invisible characters left out. -/
def replaceLookAlikes (text : String) : String := String.ofList (text.toList.filterMap plain)

/-! ### Quotes -/

/-- Whether a token is an underscore, which starts no token of the language. -/
def isUnderscore (t : Token) : Bool := t.kind == .strayChar && t.text == "_"

/-- Whether a token can be part of a name that begins with an underscore. -/
def isWordPart (t : Token) : Bool :=
  isUnderscore t || t.kind == .ident || t.kind == .integer || t.kind.isKeyword

/-- The first of some tokens that is neither white space nor a comment. -/
def nextSignificant (tokens : List Token) : Option Token :=
  tokens.find? fun t => !t.kind.isTrivia

/-- Whether a token is a name that needs quotes, given the tokens after it. A name before a
parenthesis is a call and needs none. -/
def needsQuotes (v : Version) (t : Token) (rest : List Token) : Bool :=
  if (nextSignificant rest).any fun next => next.kind == .leftParen then false
  else
    match t.kind with
    | .ident => Reserved.isReserved v t.text
    | .keyword word =>
      if word.isFunction then word.availableIn v || Reserved.isReserved v t.text
      else !word.availableIn v && Reserved.isReserved v t.text
    | _ => false

def enclose (text : String) : String := "\"" ++ text ++ "\""

/-- The texts of the tokens, with quotes where they are needed. An underscore makes one name with
the word parts after it. -/
def quoteNames (v : Version) : List Token → List String
  | [] => []
  | t :: rest =>
    if isUnderscore t then
      enclose (t.text ++ String.join ((rest.takeWhile isWordPart).map Token.text)) ::
        quoteNames v (rest.dropWhile isWordPart)
    else (if needsQuotes v t rest then enclose t.text else t.text) :: quoteNames v rest
termination_by tokens => tokens.length
decreasing_by
  · have := (List.dropWhile_suffix (l := rest) isWordPart).length_le
    simp only [List.length_cons]
    omega
  · simp

/-- The text with all mistakes mended. -/
def fix (v : Version) (text : String) : String :=
  String.join (quoteNames v (Lexer.lex (replaceLookAlikes text)))

end SkyQuery.QuickFix
