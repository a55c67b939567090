import SkyQuery.Scope.Tables
import SkyQuery.Tree.Walk

/-!
# Resolving names

Every query opens a scope: the relations that it reads from, which are tables, named queries and
subqueries with an alias. A column is looked for in the innermost scope first and then in those
around it. Grouping and order may also name the result columns. `resolve` lists the tables and
columns of a query for which there is nothing, or more than one thing.
-/

namespace SkyQuery

/-- What a query can read from: a name and the columns under it. -/
structure Relation where
  name : TableName
  columns : List Identifier
  deriving DecidableEq, Repr

def Relation.hasColumn (r : Relation) (column : Identifier) : Bool :=
  r.columns.any fun c => c.denotes column

abbrev Scope : Type := List Relation

namespace Scope

def unknownTable (name : TableName) (span : Option Span) : Diagnostic :=
  { code := .unknownTable, message := "Unknown table \"" ++ name.render ++ "\"!", span }

def unknownColumn (ref : ColumnRef) (span : Option Span) : Diagnostic :=
  { code := .unknownColumn, message := "Unknown column \"" ++ ref.render ++ "\"!", span }

/-! ### Columns -/

/-- The fault of a column without qualifier, looked for in the scopes from the innermost one and
then among the result columns. -/
def plainFault? (results : List Identifier) (column : Identifier) (span : Option Span) :
    List Scope → Option Diagnostic
  | [] =>
    if results.any fun r => r.denotes column then none else some (unknownColumn { column } span)
  | scope :: outer =>
    match scope.countP fun r => r.hasColumn column with
    | 0 => plainFault? results column span outer
    | 1 => none
    | _ =>
      some
        { code := .ambiguousColumn
          message := "Ambiguous column name \"" ++ ({ column } : ColumnRef).render ++ "\"!"
          span }

/-- The relation that a qualifier names, in the innermost scope that has one. -/
def relation? (scopes : List Scope) (table : TableName) : Option Relation :=
  scopes.findSome? fun scope => scope.find? fun r => r.name.denotedBy table

def columnFault? (scopes : List Scope) (results : List Identifier) (ref : ColumnRef)
    (span : Option Span) : Option Diagnostic :=
  match ref.table with
  | none => plainFault? results ref.column span scopes
  | some table =>
    match relation? scopes table with
    | none => some (unknownTable table span)
    | some r => if r.hasColumn ref.column then none else some (unknownColumn ref span)

def columnFaults (scopes : List Scope) (results : List Identifier) (operands : List Operand) :
    List Diagnostic :=
  (Operand.allNodes operands).filterMap fun o =>
    o.asColumn?.bind fun ref => columnFault? scopes results ref o.span

/-! ### Tables -/

/-- The relation for which a name in a query stands: of the named queries, the latest first, or of
the published tables, of which there must be exactly one. -/
def tableRelation (tables : List Table) (named : List Relation) (name : TableName)
    (span : Option Span) : Except Diagnostic Relation :=
  let plain := name.schema.isNone && name.catalog.isNone
  match named.find? fun r => plain && r.name.table.denotes name.table with
  | some r => .ok r
  | none =>
    match Table.named tables name with
    | [] => .error (unknownTable name span)
    | [t] => .ok ⟨t.toName, t.columns.map fun column => ⟨column, false⟩⟩
    | _ =>
      .error
        { code := .ambiguousColumn
          message := "Ambiguous table name \"" ++ name.render ++ "\"!"
          span }

/-- A relation under the name by which a query refers to it. -/
def aliased (r : Relation) : Option Identifier → Relation
  | some label => { r with name := { table := label } }
  | none => r

end Scope

/-! ### Parts of a query -/

/-- The operands of a condition, those of its subqueries left out. -/
def Constraint.ownOperands : Constraint → List Operand
  | .comparison left _ right _ => [left, right]
  | .between value low high _ _ => [value, low, high]
  | .inValues value values _ _ => value :: values
  | .inQuery value _ _ _ | .isNull value _ _ => [value]
  | .nonEmpty _ _ => []
  | .not inner _ | .group inner _ => inner.ownOperands
  | .and left right _ | .or left right _ => left.ownOperands ++ right.ownOperands

/-- The operands of the join conditions of an item. -/
def FromItem.ownOperands : FromItem → List Operand
  | .join left _ _ right condition _ =>
    left.ownOperands ++ right.ownOperands ++
      match condition with
      | .on condition => condition.ownOperands
      | .unstated | .sharing _ => []
  | .table .. | .subquery .. => []

/-- The columns that the joins of an item share. -/
def FromItem.sharedColumns : FromItem → List Identifier
  | .join left _ _ right condition _ =>
    left.sharedColumns ++ right.sharedColumns ++
      match condition with
      | .sharing columns => columns
      | .unstated | .on _ => []
  | .table .. | .subquery .. => []

def SelectItem.ownOperands : SelectItem → List Operand
  | .expr operand _ => [operand]
  | .all _ | .allOf _ _ => []

/-- The names of the result columns of an item; an expression has none without alias. -/
def SelectItem.resultColumns (scope : Scope) : SelectItem → List Identifier
  | .all _ => scope.flatMap Relation.columns
  | .allOf table _ =>
    (scope.filter fun r => r.name.denotedBy table).flatMap Relation.columns
  | .expr _ (some label) => [label]
  | .expr operand none => (operand.asColumn?.map ColumnRef.column).toList

/-- The fault of an item that stands for all columns of a table that is not there. -/
def SelectItem.fault? (scope : Scope) : SelectItem → Option Diagnostic
  | .allOf table span =>
    if scope.any fun r => r.name.denotedBy table then none
    else some (Scope.unknownTable table span)
  | .all _ | .expr _ _ => none

/-- The fault of a shared column that no relation has. -/
def Scope.sharedFault? (scope : Scope) (column : Identifier) : Option Diagnostic :=
  if scope.any fun r => r.hasColumn column then none
  else some (Scope.unknownColumn { column } none)

/-! ### Queries -/

/-- What resolving a query gives: the names of its result columns, and faults. -/
structure Resolution where
  columns : List Identifier
  faults : List Diagnostic

variable (tables : List Table)

mutual

/-- Resolves a query that can read from the `named` queries, inside the `outer` scopes. -/
def Query.resolution (named : List Relation) (outer : List Scope) : Query → Resolution
  | { withItems, body, .. } =>
    let (named, faults) := WithItem.relations named outer withItems
    let inner := body.resolution named outer
    ⟨inner.columns, faults ++ inner.faults⟩

/-- The named queries with those of some items before them, the latest first. Each item can read
from those before it. -/
def WithItem.relations (named : List Relation) (outer : List Scope) :
    List WithItem → List Relation × List Diagnostic
  | [] => (named, [])
  | { name, columns, query, .. } :: rest =>
    let inner := query.resolution named outer
    let columns := if columns.isEmpty then inner.columns else columns
    let (named, faults) := WithItem.relations (⟨{ table := name }, columns⟩ :: named) outer rest
    (named, inner.faults ++ faults)

def QueryBody.resolution (named : List Relation) (outer : List Scope) : QueryBody → Resolution
  | .select query => query.resolution named outer
  | .set operation => operation.resolution named outer

/-- The left side gives the result columns, which the order may name. -/
def SetOperation.resolution (named : List Relation) (outer : List Scope) :
    SetOperation → Resolution
  | { left, right, orderBy, .. } =>
    let first := left.resolution named outer
    let second := right.resolution named outer
    ⟨first.columns, first.faults ++ second.faults ++
      Scope.columnFaults [] first.columns (orderBy.map OrderItem.expr)⟩

def SelectQuery.resolution (named : List Relation) (outer : List Scope) : SelectQuery → Resolution
  | { clause, source, filter, groupBy, having, orderBy, .. } =>
    let (scope, sourceFaults) := FromItem.relations named outer source
    let scopes := scope :: outer
    let own := source.flatMap FromItem.ownOperands ++
      clause.items.flatMap SelectItem.ownOperands ++
      (match filter with
        | some condition => condition.ownOperands
        | none => []) ++
      (match having with
        | some condition => condition.ownOperands
        | none => [])
    let subqueryFaults := FromItem.subqueryFaults named scopes source ++
      (match filter with
        | some condition => condition.subqueryFaults named scopes
        | none => []) ++
      (match having with
        | some condition => condition.subqueryFaults named scopes
        | none => [])
    let results := clause.items.flatMap (SelectItem.resultColumns scope)
    ⟨results, sourceFaults ++
      (source.flatMap FromItem.sharedColumns).filterMap scope.sharedFault? ++
      clause.items.filterMap (SelectItem.fault? scope) ++
      Scope.columnFaults scopes [] own ++ subqueryFaults ++
      Scope.columnFaults scopes results (groupBy ++ orderBy.map OrderItem.expr)⟩

/-- The relations of some items. A subquery sees the outer scopes, but not its neighbours. -/
def FromItem.relations (named : List Relation) (outer : List Scope) :
    List FromItem → Scope × List Diagnostic
  | [] => ([], [])
  | item :: rest =>
    let (first, faults) := item.ownRelations named outer
    let (others, otherFaults) := FromItem.relations named outer rest
    (first ++ others, faults ++ otherFaults)

def FromItem.ownRelations (named : List Relation) (outer : List Scope) :
    FromItem → Scope × List Diagnostic
  | .table name label span =>
    match Scope.tableRelation tables named name span with
    | .ok r => ([Scope.aliased r label], [])
    | .error e => ([], [e])
  | .subquery query label _ =>
    let inner := query.resolution named outer
    ([⟨{ table := label }, inner.columns⟩], inner.faults)
  | .join left _ _ right _ _ =>
    let (first, faults) := left.ownRelations named outer
    let (second, otherFaults) := right.ownRelations named outer
    (first ++ second, faults ++ otherFaults)

/-- The faults of the subqueries in the join conditions of some items. -/
def FromItem.subqueryFaults (named : List Relation) (scopes : List Scope) :
    List FromItem → List Diagnostic
  | [] => []
  | item :: rest =>
    item.ownSubqueryFaults named scopes ++ FromItem.subqueryFaults named scopes rest

def FromItem.ownSubqueryFaults (named : List Relation) (scopes : List Scope) :
    FromItem → List Diagnostic
  | .join left _ _ right condition _ =>
    left.ownSubqueryFaults named scopes ++ right.ownSubqueryFaults named scopes ++
      condition.subqueryFaults named scopes
  | .table .. | .subquery .. => []

def JoinCondition.subqueryFaults (named : List Relation) (scopes : List Scope) :
    JoinCondition → List Diagnostic
  | .on condition => condition.subqueryFaults named scopes
  | .unstated | .sharing _ => []

/-- The faults of the subqueries of a condition, which see the given scopes. -/
def Constraint.subqueryFaults (named : List Relation) (scopes : List Scope) :
    Constraint → List Diagnostic
  | .comparison .. | .between .. | .inValues .. | .isNull .. => []
  | .inQuery _ query _ _ | .nonEmpty query _ => (query.resolution named scopes).faults
  | .not inner _ | .group inner _ => inner.subqueryFaults named scopes
  | .and left right _ | .or left right _ =>
    left.subqueryFaults named scopes ++ right.subqueryFaults named scopes

end

/-- The faults of the names of a query, in the order of the text. -/
def Query.resolve (q : Query) : Report := Diagnostic.sort (q.resolution tables [] []).faults

end SkyQuery
