import SkyQuery.Proofs.Tree.Walk
import SkyQuery.Proofs.Tree.Words

/-!
# What trees quote

The values of the strings and the delimited names of a tree, in the order of the text.
-/

namespace SkyQuery

/-- Something between quotes: the value of a string, or a delimited name. -/
inductive Quote where
  | string (value : String)
  | name (name : String)
  deriving DecidableEq, Repr

/-- What a token quotes. -/
def Quote.ofWord? : Word → Option Quote
  | (.string, text) => some (.string (Grammar.unquote text))
  | (.quotedIdent, text) => some (.name (Identifier.ofText text).name)
  | _ => none

/-! ### Names and expressions -/

def Identifier.quotes (i : Identifier) : List Quote := if i.delimited then [.name i.name] else []

def TableName.quotes (t : TableName) : List Quote := t.parts.flatMap Identifier.quotes

def ColumnRef.quotes (c : ColumnRef) : List Quote := c.parts.flatMap Identifier.quotes

/-- What an expression quotes itself, its parts left aside. -/
def Operand.ownQuotes : Operand → List Quote
  | .string value _ => [.string value]
  | .column ref _ => ref.quotes
  | .userDefined name _ _ => name.quotes
  | _ => []

def Operand.quotes (o : Operand) : List Quote := o.nodes.flatMap Operand.ownQuotes

theorem Operand.quotes_eq (o : Operand) : o.quotes = o.ownQuotes ++ o.children.flatMap quotes := by
  rw [quotes, nodes_eq, List.flatMap_cons, List.flatMap_assoc]
  rfl

theorem Operand.quotes_of_children {o : Operand} (own : o.ownQuotes = []) : o.quotes = o.children.flatMap quotes := by
  rw [quotes_eq, own, List.nil_append]

theorem Operand.quotes_of_child {o c : Operand} (own : o.ownQuotes = []) (child : o.children = [c]) : o.quotes = c.quotes := by
  rw [quotes_of_children own, child, List.flatMap_singleton]

/-! ### Clauses and queries -/

def SelectItem.quotes : SelectItem → List Quote
  | .all _ => []
  | .allOf table _ => table.quotes
  | .expr operand label => operand.quotes ++ label.toList.flatMap Identifier.quotes

def OrderItem.quotes (o : OrderItem) : List Quote := o.expr.quotes

mutual

def Constraint.quotes : Constraint → List Quote
  | .comparison left _ right _ => left.quotes ++ right.quotes
  | .between value low high _ _ => value.quotes ++ (low.quotes ++ high.quotes)
  | .inValues value values _ _ => value.quotes ++ values.flatMap Operand.quotes
  | .inQuery value query _ _ => value.quotes ++ query.quotes
  | .isNull value _ _ => value.quotes
  | .nonEmpty query _ => query.quotes
  | .not inner _ | .group inner _ => inner.quotes
  | .and left right _ | .or left right _ => left.quotes ++ right.quotes

def FromItem.quotes : FromItem → List Quote
  | .table name label _ => name.quotes ++ label.toList.flatMap Identifier.quotes
  | .subquery query label _ => query.quotes ++ label.quotes
  | .join left _ _ right condition _ => left.quotes ++ (right.quotes ++ condition.quotes)

def JoinCondition.quotes : JoinCondition → List Quote
  | .unstated => []
  | .on condition => condition.quotes
  | .sharing columns => columns.flatMap Identifier.quotes

def SelectQuery.quotes : SelectQuery → List Quote
  | { clause, source, filter, groupBy, having, orderBy, .. } =>
    clause.items.flatMap SelectItem.quotes ++ (FromItem.allQuotes source ++ (Constraint.quotesOf filter ++
      (groupBy.flatMap Operand.quotes ++ (Constraint.quotesOf having ++ orderBy.flatMap OrderItem.quotes))))

def SetOperation.quotes : SetOperation → List Quote
  | { left, right, orderBy, .. } => left.quotes ++ (right.quotes ++ orderBy.flatMap OrderItem.quotes)

def QueryBody.quotes : QueryBody → List Quote
  | .select query => query.quotes
  | .set operation => operation.quotes

def WithItem.quotes : WithItem → List Quote
  | { name, columns, query, .. } => name.quotes ++ (columns.flatMap Identifier.quotes ++ query.quotes)

def Query.quotes : Query → List Quote
  | { withItems, body, .. } => WithItem.allQuotes withItems ++ body.quotes

def Constraint.quotesOf : Option Constraint → List Quote
  | none => []
  | some condition => condition.quotes

def FromItem.allQuotes : List FromItem → List Quote
  | [] => []
  | item :: rest => item.quotes ++ FromItem.allQuotes rest

def WithItem.allQuotes : List WithItem → List Quote
  | [] => []
  | item :: rest => item.quotes ++ WithItem.allQuotes rest

end

theorem FromItem.allQuotes_eq (items : List FromItem) : FromItem.allQuotes items = items.flatMap FromItem.quotes := by
  induction items with
  | nil => rfl
  | cons item rest ih => rw [FromItem.allQuotes, ih, List.flatMap_cons]

theorem WithItem.allQuotes_eq (items : List WithItem) : WithItem.allQuotes items = items.flatMap WithItem.quotes := by
  induction items with
  | nil => rfl
  | cons item rest ih => rw [WithItem.allQuotes, ih, List.flatMap_cons]

/-- What a part quotes. -/
def Part.quotes : Part → List Quote
  | .operand o => o.quotes
  | .constraint c => c.quotes
  | .fromItem item => item.quotes
  | .offset _ => []
  | .select q => q.quotes
  | .set o => o.quotes
  | .withItem item => item.quotes
  | .query q => q.quotes

theorem QueryBody.quotes_part (b : QueryBody) : b.part.quotes = b.quotes := by
  cases b <;> rw [QueryBody.quotes] <;> rfl

end SkyQuery
