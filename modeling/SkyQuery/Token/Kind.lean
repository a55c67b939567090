import SkyQuery.Builtin
import SkyQuery.Version

/-!
# Kinds of tokens

A `Keyword` is a word to which the grammar of some version gives a meaning; a `Kind` tells keywords,
names, literals, punctuation and lexical faults apart.
-/

namespace SkyQuery

/-- The words to which the grammar of some version gives a meaning. -/
inductive Keyword where
  | selectKw | fromKw | whereKw | groupKw | byKw | havingKw | orderKw | ascKw | descKw | allKw
  | distinctKw | topKw | asKw | andKw | orKw | notKw | isKw | nullKw | likeKw | ilikeKw
  | betweenKw | inKw | existsKw | joinKw | naturalKw | innerKw | leftKw | rightKw | fullKw
  | outerKw | crossKw | onKw | usingKw | withKw | unionKw | intersectKw | exceptKw | offsetKw
  | aggregate (fn : AggregateFn)
  | math (fn : MathFn)
  | geometry (fn : GeometryFn)
  | lowerKw | upperKw | coalesceKw | inUnitKw | castKw
  deriving DecidableEq, Repr

namespace Keyword

def all : List Keyword :=
  [.selectKw, .fromKw, .whereKw, .groupKw, .byKw, .havingKw, .orderKw, .ascKw, .descKw, .allKw,
    .distinctKw, .topKw, .asKw, .andKw, .orKw, .notKw, .isKw, .nullKw, .likeKw, .ilikeKw,
    .betweenKw, .inKw, .existsKw, .joinKw, .naturalKw, .innerKw, .leftKw, .rightKw, .fullKw,
    .outerKw, .crossKw, .onKw, .usingKw, .withKw, .unionKw, .intersectKw, .exceptKw,
    .offsetKw] ++
  AggregateFn.all.map aggregate ++ MathFn.all.map math ++ GeometryFn.all.map geometry ++
  [.lowerKw, .upperKw, .coalesceKw, .inUnitKw, .castKw]

def text : Keyword → String
  | .selectKw => "SELECT"
  | .fromKw => "FROM"
  | .whereKw => "WHERE"
  | .groupKw => "GROUP"
  | .byKw => "BY"
  | .havingKw => "HAVING"
  | .orderKw => "ORDER"
  | .ascKw => "ASC"
  | .descKw => "DESC"
  | .allKw => "ALL"
  | .distinctKw => "DISTINCT"
  | .topKw => "TOP"
  | .asKw => "AS"
  | .andKw => "AND"
  | .orKw => "OR"
  | .notKw => "NOT"
  | .isKw => "IS"
  | .nullKw => "NULL"
  | .likeKw => "LIKE"
  | .ilikeKw => "ILIKE"
  | .betweenKw => "BETWEEN"
  | .inKw => "IN"
  | .existsKw => "EXISTS"
  | .joinKw => "JOIN"
  | .naturalKw => "NATURAL"
  | .innerKw => "INNER"
  | .leftKw => "LEFT"
  | .rightKw => "RIGHT"
  | .fullKw => "FULL"
  | .outerKw => "OUTER"
  | .crossKw => "CROSS"
  | .onKw => "ON"
  | .usingKw => "USING"
  | .withKw => "WITH"
  | .unionKw => "UNION"
  | .intersectKw => "INTERSECT"
  | .exceptKw => "EXCEPT"
  | .offsetKw => "OFFSET"
  | .lowerKw => "LOWER"
  | .upperKw => "UPPER"
  | .coalesceKw => "COALESCE"
  | .inUnitKw => "IN_UNIT"
  | .castKw => "CAST"
  | .aggregate fn => fn.name
  | .math fn => fn.name
  | .geometry fn => fn.name

/-- The keyword that a word spells, in any letter case. -/
def ofWord? (word : String) : Option Keyword := all.find? fun k => Text.sameLetters k.text word

def isFunction : Keyword → Bool
  | .aggregate _ | .math _ | .geometry _ | .lowerKw | .upperKw | .coalesceKw | .inUnitKw
  | .castKw => true
  | _ => false

/-- Whether the grammar of a version gives the word its meaning. -/
def availableIn : Keyword → Version → Bool
  | .withKw, v | .unionKw, v | .intersectKw, v | .exceptKw, v | .offsetKw, v | .ilikeKw, v
  | .lowerKw, v | .upperKw, v | .coalesceKw, v | .inUnitKw, v | .castKw, v => v == .v21
  | .geometry .region, v => v == .v20
  | _, _ => true

end Keyword

inductive Kind where
  | blank | comment
  | ident | quotedIdent | integer | decimal | scientific | string
  | leftParen | rightParen | comma | dot | semicolon | star | plus | minus | slash | concat
  | eq | notEq | lt | ltEq | gt | gtEq
  | keyword (word : Keyword)
  | strayChar | nonAscii | openString | openIdent
  | endOfText
  deriving DecidableEq, Repr

namespace Kind

/-- White space and comments, which the grammar does not see. -/
def isTrivia : Kind → Bool
  | .blank | .comment => true
  | _ => false

def isKeyword : Kind → Bool
  | .keyword _ => true
  | _ => false

/-- Keywords that name a built-in function. -/
def isFunction : Kind → Bool
  | .keyword word => word.isFunction
  | _ => false

/-- The kinds that no text with a meaning holds. -/
def isFault : Kind → Bool
  | .strayChar | .nonAscii | .openString | .openIdent => true
  | _ => false

def isNumber : Kind → Bool
  | .integer | .decimal | .scientific => true
  | _ => false

/-- Whether a version knows the kind; only keywords depend on it. -/
def availableIn : Kind → Version → Bool
  | .keyword word, v => word.availableIn v
  | _, _ => true

def describe : Kind → String
  | .blank => "<WHITESPACE>"
  | .comment => "<COMMENT>"
  | .ident => "<REGULAR_IDENTIFIER_CANDIDATE>"
  | .quotedIdent => "<DELIMITED_IDENTIFIER>"
  | .integer => "<UNSIGNED_INTEGER>"
  | .decimal => "<UNSIGNED_FLOAT>"
  | .scientific => "<SCIENTIFIC_NUMBER>"
  | .string => "<STRING_LITERAL>"
  | .leftParen => "\"(\""
  | .rightParen => "\")\""
  | .comma => "\",\""
  | .dot => "\".\""
  | .semicolon => "\";\""
  | .star => "\"*\""
  | .plus => "\"+\""
  | .minus => "\"-\""
  | .slash => "\"/\""
  | .concat => "\"||\""
  | .eq => "\"=\""
  | .notEq => "\"!=\""
  | .lt => "\"<\""
  | .ltEq => "\"<=\""
  | .gt => "\">\""
  | .gtEq => "\">=\""
  | .keyword word => "\"" ++ word.text ++ "\""
  | .strayChar | .nonAscii | .openString | .openIdent => "<INVALID>"
  | .endOfText => "<EOF>"

end Kind

end SkyQuery
