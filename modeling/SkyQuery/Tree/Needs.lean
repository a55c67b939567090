import SkyQuery.Feature.Basic
import SkyQuery.Tree.Walk

/-!
# What a tree needs

The optional features that the nodes of a tree use, each with the place of its use.
-/

namespace SkyQuery

/-- The feature that an operand itself uses, its parts left aside. -/
def Operand.feature? : Operand → Option Feature
  | .geometry fn .. => some (.standard .geometry fn.name)
  | .lower .. => some (.standard .strings "LOWER")
  | .upper .. => some (.standard .strings "UPPER")
  | .coalesce .. => some (.standard .conditionals "COALESCE")
  | .inUnit .. => some (.standard .units "IN_UNIT")
  | .cast .. => some (.standard .types "CAST")
  | .userDefined name args _ => some (.ofCall name.name args.length)
  | .numeric .. | .string .. | .column .. | .negative .. | .operation .. | .concatenation ..
  | .wrapped .. | .math .. | .aggregate .. => none

def Constraint.feature? : Constraint → Option Feature
  | .comparison _ op _ _ => if op.ignoresCase then some (.standard .strings "ILIKE") else none
  | _ => none

def WithItem.feature : Feature := .standard .commonTables "WITH"

def Offset.feature : Feature := .standard .offset "OFFSET"

def SetOperation.feature (o : SetOperation) : Feature := .standard .sets o.op.word

/-- The use of a feature, if there is one. -/
def useOf (feature : Option Feature) (span : Option Span) : List (Feature × Option Span) :=
  feature.toList.map fun f => (f, span)

/-- The features that a node uses, in the order of the text. -/
def Node.uses : Node → List (Feature × Option Span)
  | .operand o => o.nodes.flatMap fun o => useOf o.feature? o.span
  | .constraint c => useOf c.feature? c.span
  | .withItem item => [(WithItem.feature, item.span)]
  | .setOperation o => [(o.feature, o.span)]
  | .offset o => [(Offset.feature, o.span)]

/-- The features that a tree uses, in the order of the text. -/
def Fragment.uses (f : Fragment) : List (Feature × Option Span) := f.nodes.flatMap Node.uses

end SkyQuery
