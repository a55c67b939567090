import SkyQuery.Tree.Basic

/-!
# Types of expressions

What the form of an expression tells about its value: a number, a text or a geometry. A column and a
function of the user's own can be any of them.
-/

namespace SkyQuery.Operand

mutual

def isNumeric : Operand → Bool
  | .numeric .. | .negative .. | .operation .. | .column .. => true
  | .string .. | .concatenation .. => false
  | .wrapped inner _ => inner.isNumeric
  | .math .. | .inUnit .. => true
  | .aggregate .min _ (some arg) _ | .aggregate .max _ (some arg) _ => arg.isNumeric
  | .aggregate .. => true
  | .geometry fn .. => fn.isNumeric
  | .lower .. | .upper .. => false
  | .coalesce args _ => allNumeric args
  | .cast _ target _ => target.isNumeric
  | .userDefined .. => true

def allNumeric : List Operand → Bool
  | [] => true
  | o :: rest => o.isNumeric && allNumeric rest

end

mutual

def isString : Operand → Bool
  | .string .. | .concatenation .. | .column .. => true
  | .numeric .. | .negative .. | .operation .. => false
  | .wrapped inner _ => inner.isString
  | .math .. | .inUnit .. => false
  | .aggregate .min _ (some arg) _ | .aggregate .max _ (some arg) _ => arg.isString
  | .aggregate .. => false
  | .geometry fn .. => fn == .coordsys
  | .lower .. | .upper .. => true
  | .coalesce args _ => allString args
  | .cast _ target _ => !target.isNumeric
  | .userDefined .. => true

def allString : List Operand → Bool
  | [] => true
  | o :: rest => o.isString && allString rest

end

mutual

def isGeometry : Operand → Bool
  | .column .. | .userDefined .. => true
  | .wrapped inner _ => inner.isGeometry
  | .geometry fn .. => fn.isGeometry
  | .coalesce args _ => allGeometry args
  | .numeric .. | .string .. | .negative .. | .operation .. | .concatenation .. | .math ..
  | .aggregate .. | .lower .. | .upper .. | .inUnit .. | .cast .. => false

def allGeometry : List Operand → Bool
  | [] => true
  | o :: rest => o.isGeometry && allGeometry rest

end

end SkyQuery.Operand
