/-!
# Kinds of diagnostics

Each diagnostic has a code. The first two digits of its number give the category: `01` lexical,
`02` grammar, `03` features, `04` coordinate systems, `05` regions, `06` types, `07` names and `09`
the rest.
-/

namespace SkyQuery

/-- What a diagnostic is about. -/
inductive Code where
  | invalidCharacter
  | openString
  | openIdentifier
  | invalidNumber
  | unexpectedToken
  | unexpectedEnd
  | wrongArity
  | invalidDefinition
  | unsupportedFeature
  | invalidCoordSys
  | framedCartesian
  | forbiddenCoordSys
  | nonLiteralCoordSys
  | invalidPattern
  | invalidStcs
  | invalidDali
  | unsupportedShape
  | nonNumericArgument
  | nonStringArgument
  | unsupportedSerialization
  | notAShape
  | invalidRegion
  | numericExpected
  | stringExpected
  | geometryExpected
  | incompatibleTypes
  | unknownTable
  | unknownColumn
  | ambiguousColumn
  | checkFailed
  | internal
  deriving DecidableEq, Repr

namespace Code

/-- All codes, in the order of their numbers. -/
def all : List Code :=
  [.invalidCharacter, .openString, .openIdentifier, .invalidNumber, .unexpectedToken,
    .unexpectedEnd, .wrongArity, .invalidDefinition, .unsupportedFeature, .invalidCoordSys,
    .framedCartesian, .forbiddenCoordSys, .nonLiteralCoordSys, .invalidPattern, .invalidStcs,
    .invalidDali, .unsupportedShape, .nonNumericArgument, .nonStringArgument,
    .unsupportedSerialization, .notAShape, .invalidRegion, .numericExpected, .stringExpected,
    .geometryExpected, .incompatibleTypes, .unknownTable, .unknownColumn, .ambiguousColumn,
    .checkFailed, .internal]

theorem mem_all (c : Code) : c ∈ all := by cases c <;> decide

/-- The number by which a code is known. -/
def id : Code → String
  | .invalidCharacter => "E0101"
  | .openString => "E0102"
  | .openIdentifier => "E0103"
  | .invalidNumber => "E0104"
  | .unexpectedToken => "E0201"
  | .unexpectedEnd => "E0202"
  | .wrongArity => "E0203"
  | .invalidDefinition => "E0204"
  | .unsupportedFeature => "E0301"
  | .invalidCoordSys => "E0401"
  | .framedCartesian => "E0402"
  | .forbiddenCoordSys => "E0403"
  | .nonLiteralCoordSys => "E0404"
  | .invalidPattern => "E0405"
  | .invalidStcs => "E0501"
  | .invalidDali => "E0502"
  | .unsupportedShape => "E0503"
  | .nonNumericArgument => "E0504"
  | .nonStringArgument => "E0505"
  | .unsupportedSerialization => "E0506"
  | .notAShape => "E0507"
  | .invalidRegion => "E0508"
  | .numericExpected => "E0601"
  | .stringExpected => "E0602"
  | .geometryExpected => "E0603"
  | .incompatibleTypes => "E0604"
  | .unknownTable => "E0701"
  | .unknownColumn => "E0702"
  | .ambiguousColumn => "E0703"
  | .checkFailed => "E0901"
  | .internal => "E0999"

/-- The code with a given number. -/
def ofId? (text : String) : Option Code := all.find? (·.id == text)

def category : Code → String
  | .invalidCharacter | .openString | .openIdentifier | .invalidNumber => "lexical error"
  | .unexpectedToken | .unexpectedEnd | .wrongArity | .invalidDefinition => "syntax error"
  | .unsupportedFeature => "unsupported feature"
  | .invalidCoordSys | .framedCartesian | .forbiddenCoordSys | .nonLiteralCoordSys
  | .invalidPattern => "coordinate system error"
  | .invalidStcs | .invalidDali | .unsupportedShape | .nonNumericArgument | .nonStringArgument
  | .unsupportedSerialization | .notAShape | .invalidRegion => "region error"
  | .numericExpected | .stringExpected | .geometryExpected | .incompatibleTypes => "type mismatch"
  | .unknownTable | .unknownColumn | .ambiguousColumn => "unresolved identifier"
  | .checkFailed | .internal => "error"

/-- The message of a diagnostic that has none of its own. -/
def defaultMessage : Code → String
  | .invalidCharacter => "invalid character"
  | .openString => "unterminated string literal"
  | .openIdentifier => "unterminated delimited identifier"
  | .invalidNumber => "invalid numeric literal"
  | .unexpectedToken => "unexpected token"
  | .unexpectedEnd => "unexpected end of query"
  | .wrongArity => "wrong number of parameters"
  | .invalidDefinition => "invalid function definition"
  | .unsupportedFeature => "unsupported ADQL feature"
  | .invalidCoordSys => "incorrect coordinate system"
  | .framedCartesian => "cartesian coordinate system with a frame or reference position"
  | .forbiddenCoordSys => "coordinate system not allowed"
  | .nonLiteralCoordSys => "coordinate system is not a string literal"
  | .invalidPattern => "invalid coordinate system pattern"
  | .invalidStcs => "incorrect STC-S region"
  | .invalidDali => "incorrect DALI region"
  | .unsupportedShape => "unsupported region type"
  | .nonNumericArgument => "non numeric region argument"
  | .nonStringArgument => "non string region argument"
  | .unsupportedSerialization => "unsupported region serialization"
  | .notAShape => "unknown region type"
  | .invalidRegion => "invalid region"
  | .numericExpected => "numeric value expected"
  | .stringExpected => "string value expected"
  | .geometryExpected => "geometry value expected"
  | .incompatibleTypes => "incompatible types"
  | .unknownTable => "unknown table"
  | .unknownColumn => "unknown column"
  | .ambiguousColumn => "ambiguous column"
  | .checkFailed => "query check failed"
  | .internal => "internal error"

/-- The codes with which reading a text can fail: lexical, grammar and type errors, but not those
of function definitions. -/
def isSyntactic : Code → Bool
  | .invalidCharacter | .openString | .openIdentifier | .invalidNumber | .unexpectedToken
  | .unexpectedEnd | .wrongArity | .numericExpected | .stringExpected | .geometryExpected
  | .incompatibleTypes => true
  | _ => false

end Code

end SkyQuery
