import SkyQuery.Token.Kind

/-!
# Reserved words

A word is reserved in a version by the language itself or by SQL; it can then be a name only between
double quotes. `hint` says so where a reserved word stands in the place of a name.
-/

namespace SkyQuery.Reserved

/-- The words that the language reserves in every version. -/
def common : List String :=
  ["ABS", "ACOS", "AREA", "ASIN", "ATAN", "ATAN2", "BOX", "CEILING", "CENTROID", "CIRCLE",
    "CONTAINS", "COORD1", "COORD2", "COORDSYS", "COS", "COT", "DEGREES", "DISTANCE", "EXP",
    "FLOOR", "INTERSECTS", "LOG", "LOG10", "MOD", "PI", "POINT", "POLYGON", "POWER", "RADIANS",
    "RAND", "ROUND", "SIN", "SQRT", "TAN", "TOP", "TRUNCATE"]

/-- The words that the language reserves in one version only. -/
def particular : Version → List String
  | .v20 => ["REGION"]
  | .v21 => ["ILIKE", "IN_UNIT", "OFFSET"]

/-- The reserved words of SQL-92, without `DEC`, the usual name of a declination. -/
def sql : List String :=
  ["ABSOLUTE", "ACTION", "ADD", "ALL", "ALLOCATE", "ALTER", "AND", "ANY", "ARE", "AS", "ASC",
    "ASSERTION", "AT", "AUTHORIZATION", "AVG", "BEGIN", "BETWEEN", "BIT", "BIT_LENGTH", "BOTH",
    "BY", "CASCADE", "CASCADED", "CASE", "CAST", "CATALOG", "CHAR", "CHARACTER", "CHAR_LENGTH",
    "CHARACTER_LENGTH", "CHECK", "CLOSE", "COALESCE", "COLLATE", "COLLATION", "COLUMN", "COMMIT",
    "CONNECT", "CONNECTION", "CONSTRAINT", "CONSTRAINTS", "CONTINUE", "CONVERT", "CORRESPONDING",
    "COUNT", "CREATE", "CROSS", "CURRENT", "CURRENT_DATE", "CURRENT_TIME", "CURRENT_TIMESTAMP",
    "CURRENT_USER", "CURSOR", "DATE", "DAY", "DEALLOCATE", "DECIMAL", "DECLARE", "DEFAULT",
    "DEFERRABLE", "DEFERRED", "DELETE", "DESC", "DESCRIBE", "DESCRIPTOR", "DIAGNOSTICS",
    "DISCONNECT", "DISTINCT", "DOMAIN", "DOUBLE", "DROP", "ELSE", "END", "ESCAPE", "EXCEPT",
    "EXCEPTION", "EXEC", "EXECUTE", "EXISTS", "EXTERNAL", "EXTRACT", "FALSE", "FETCH", "FIRST",
    "FLOAT", "FOR", "FOREIGN", "FOUND", "FROM", "FULL", "GET", "GLOBAL", "GO", "GOTO", "GRANT",
    "GROUP", "HAVING", "HOUR", "IDENTITY", "IMMEDIATE", "IN", "INDICATOR", "INITIALLY", "INNER",
    "INPUT", "INSENSITIVE", "INSERT", "INT", "INTEGER", "INTERSECT", "INTERVAL", "INTO", "IS",
    "ISOLATION", "JOIN", "KEY", "LANGUAGE", "LAST", "LEADING", "LEFT", "LEVEL", "LIKE", "LOCAL",
    "LOWER", "MATCH", "MAX", "MIN", "MINUTE", "MODULE", "MONTH", "NAMES", "NATIONAL", "NATURAL",
    "NCHAR", "NEXT", "NO", "NOT", "NULL", "NULLIF", "NUMERIC", "OCTET_LENGTH", "OF", "ON", "ONLY",
    "OPEN", "OPTION", "OR", "ORDER", "OUTER", "OUTPUT", "OVERLAPS", "PAD", "PARTIAL", "POSITION",
    "PRECISION", "PREPARE", "PRESERVE", "PRIMARY", "PRIOR", "PRIVILEGES", "PROCEDURE", "PUBLIC",
    "READ", "REAL", "REFERENCES", "RELATIVE", "RESTRICT", "REVOKE", "RIGHT", "ROLLBACK", "ROWS",
    "SCHEMA", "SCROLL", "SECOND", "SECTION", "SELECT", "SESSION", "SESSION_USER", "SET", "SIZE",
    "SMALLINT", "SOME", "SPACE", "SQL", "SQLCODE", "SQLERROR", "SQLSTATE", "SUBSTRING", "SUM",
    "SYSTEM_USER", "TABLE", "TEMPORARY", "THEN", "TIME", "TIMESTAMP", "TIMEZONE_HOUR",
    "TIMEZONE_MINUTE", "TO", "TRAILING", "TRANSACTION", "TRANSLATE", "TRANSLATION", "TRIM",
    "TRUE", "UNION", "UNIQUE", "UNKNOWN", "UPDATE", "UPPER", "USAGE", "USER", "USING", "VALUE",
    "VALUES", "VARCHAR", "VARYING", "VIEW", "WHEN", "WHENEVER", "WHERE", "WITH", "WORK", "WRITE",
    "YEAR", "ZONE"]

/-- The words of SQL to which only the later version gives a meaning. -/
def later : List String :=
  ["WITH", "UNION", "INTERSECT", "EXCEPT", "LOWER", "UPPER", "COALESCE", "CAST"]

/-- Whether the language reserves a word, in any letter case. -/
def byLanguage (v : Version) (word : String) : Bool :=
  let word := Text.upper word
  common.contains word || (particular v).contains word

/-- Whether SQL reserves a word, in any letter case. -/
def bySql (word : String) : Bool := sql.contains (Text.upper word)

def isReserved (v : Version) (word : String) : Bool := byLanguage v word || bySql word

/-- Whether a word can be a name without double quotes. -/
def isRegular (v : Version) (word : String) : Bool :=
  Text.isWord word.toList && !isReserved v word

/-- Why a word cannot be a name; `inGrammar` tells that the grammar itself uses it. -/
def reason (v : Version) (word : String) (inGrammar : Bool) : Option String :=
  let word := Text.upper word
  if byLanguage v word || inGrammar then
    some ("\"" ++ word ++ "\" is a reserved ADQL word in " ++ v.name)
  else if v == .v20 && later.contains word then
    some ("\"" ++ word ++ "\" is not supported in ADQL " ++ v.name ++
      ", but is however a reserved word")
  else if bySql word then
    some ("\"" ++ word ++ "\" is not an ADQL word, but is however a reserved SQL word")
  else none

/-- The hint for a reserved word that stands in the place of a name. -/
def hint (v : Version) (word : String) (inGrammar : Bool) : Option String :=
  (reason v word inGrammar).map fun reason =>
    "(HINT: " ++ reason ++ ". To use it as a column/table/schema name/alias, write it between " ++
      "double quotes.)"

end SkyQuery.Reserved
