import SkyQuery.Proofs.Token.Scan
import SkyQuery.Proofs.Tree.Unplaced

/-!
# Words of trees

The words that the printer writes for each node, in the order of the text.
-/

namespace SkyQuery

open Grammar

/-- Lists of words with the word `sep` between them. -/
def joined (sep : Word) : List (List Word) → List Word
  | [] => []
  | ws :: rest => ws ++ rest.flatMap (sep :: ·)

def commaWord : Word := (.comma, ",")

def dotWord : Word := (.dot, ".")

def openWord : Word := (.leftParen, "(")

def closeWord : Word := (.rightParen, ")")

/-- Words that stand only if a condition holds. -/
def wordsIf (condition : Bool) (ws : List Word) : List Word := if condition then ws else []

/-! ### Names and literals -/

def Identifier.word (i : Identifier) : Word :=
  (if i.delimited then .quotedIdent else .ident, i.render)

def TableName.parts (t : TableName) : List Identifier :=
  t.catalog.toList ++ t.schema.toList ++ [t.table]

def ColumnRef.parts (c : ColumnRef) : List Identifier :=
  (c.table.map TableName.parts).getD [] ++ [c.column]

theorem TableName.WellFormed.parts {v : Version} {t : TableName} (h : t.WellFormed v) :
    ∀ i ∈ t.parts, i.WellFormed v := by
  obtain ⟨table, schema, catalog, -⟩ := h
  intro i hi
  simp only [TableName.parts, List.mem_append, Option.mem_toList, List.mem_singleton] at hi
  rcases hi with (hi | hi) | rfl
  · exact catalog i hi
  · exact schema i hi
  · exact table

theorem ColumnRef.WellFormed.parts {v : Version} {c : ColumnRef} (h : c.WellFormed v) :
    ∀ i ∈ c.parts, i.WellFormed v := by
  obtain ⟨column, table⟩ := h
  intro i hi
  simp only [ColumnRef.parts, List.mem_append, List.mem_singleton] at hi
  rcases hi with hi | rfl
  · cases ht : c.table with
    | none => simp [ht] at hi
    | some t => exact (table t ht).parts i (by simpa [ht] using hi)
  · exact column

/-- The words of a dotted name. -/
def dottedWords (parts : List Identifier) : List Word := joined dotWord (parts.map fun i => [i.word])

def numberWord (n : Nat) : Word := (.integer, toString n)

/-- A word of a type name. -/
def plainWord (text : String) : Word := (.ident, text)

def ArithOp.word : ArithOp → Word
  | .add => (.plus, "+")
  | .sub => (.minus, "-")
  | .mul => (.star, "*")
  | .div => (.slash, "/")

def CastType.words : CastType → List Word
  | .smallInt => [plainWord "SMALLINT"]
  | .integer => [plainWord "INTEGER"]
  | .bigInt => [plainWord "BIGINT"]
  | .real => [plainWord "REAL"]
  | .doublePrecision => [plainWord "DOUBLE", plainWord "PRECISION"]
  | .timestamp => [plainWord "TIMESTAMP"]
  | .char none => [plainWord "CHAR"]
  | .char (some n) => [plainWord "CHAR", openWord, numberWord n, closeWord]
  | .varChar none => [plainWord "VARCHAR"]
  | .varChar (some n) => [plainWord "VARCHAR", openWord, numberWord n, closeWord]

/-! ### Expressions -/

/-- The words of a call of the function that a word names. -/
def callWords (name : Word) (args : List Word) : List Word := name :: openWord :: (args ++ [closeWord])

mutual

def Operand.words : Operand → List Word
  | .numeric text _ => [((Lexer.number text.toList).1, text)]
  | .string value _ => [(.string, Text.quoted '\'' value)]
  | .column ref _ => dottedWords ref.parts
  | .negative inner _ => (.minus, "-") :: inner.words
  | .operation left op right _ => left.words ++ op.word :: right.words
  | .concatenation parts _ => joined (.concat, "||") (Operand.allWords parts)
  | .wrapped inner _ => openWord :: (inner.words ++ [closeWord])
  | .math fn args _ => callWords (keywordWord (.math fn)) (joined commaWord (Operand.allWords args))
  | .aggregate fn distinct (some arg) _ =>
    callWords (keywordWord (.aggregate fn)) (wordsIf distinct [keywordWord .distinctKw] ++ arg.words)
  | .aggregate fn distinct none _ =>
    callWords (keywordWord (.aggregate fn)) (wordsIf distinct [keywordWord .distinctKw] ++ [(.star, "*")])
  | .geometry fn (some sys) args _ =>
    callWords (keywordWord (.geometry fn)) (joined commaWord (sys.words :: Operand.allWords args))
  | .geometry fn none args _ =>
    callWords (keywordWord (.geometry fn)) (joined commaWord (Operand.allWords args))
  | .lower value _ => callWords (keywordWord .lowerKw) value.words
  | .upper value _ => callWords (keywordWord .upperKw) value.words
  | .coalesce args _ => callWords (keywordWord .coalesceKw) (joined commaWord (Operand.allWords args))
  | .inUnit value unit _ =>
    callWords (keywordWord .inUnitKw) (value.words ++ commaWord :: unit.words)
  | .cast value target _ =>
    callWords (keywordWord .castKw) (value.words ++ keywordWord .asKw :: target.words)
  | .userDefined name args _ => callWords name.word (joined commaWord (Operand.allWords args))

def Operand.allWords : List Operand → List (List Word)
  | [] => []
  | o :: rest => o.words :: Operand.allWords rest

end

/-! ### Clauses without conditions -/

def aliasWords : Option Identifier → List Word
  | some label => [keywordWord .asKw, label.word]
  | none => []

def SelectItem.words : SelectItem → List Word
  | .all _ => [(.star, "*")]
  | .allOf table _ => dottedWords table.parts ++ [dotWord, (.star, "*")]
  | .expr operand label => operand.words ++ aliasWords label

def topWords : Option Nat → List Word
  | some n => [keywordWord .topKw, numberWord n]
  | none => []

def SelectClause.words (c : SelectClause) : List Word :=
  keywordWord .selectKw :: (wordsIf c.distinct [keywordWord .distinctKw] ++
    (topWords c.top ++ joined commaWord (c.items.map SelectItem.words)))

def OrderItem.words (o : OrderItem) : List Word :=
  o.expr.words ++ wordsIf o.descending [keywordWord .descKw]

def orderByWords (items : List OrderItem) : List Word :=
  if items.isEmpty then []
  else keywordWord .orderKw :: keywordWord .byKw :: joined commaWord (items.map OrderItem.words)

def offsetWords : Option Offset → List Word
  | some offset => [keywordWord .offsetKw, numberWord offset.value]
  | none => []

def tailWords (orderBy : List OrderItem) (offset : Option Offset) : List Word :=
  orderByWords orderBy ++ offsetWords offset

def groupByWords (items : List Operand) : List Word :=
  if items.isEmpty then []
  else keywordWord .groupKw :: keywordWord .byKw :: joined commaWord (items.map Operand.words)

/-! ### Conditions and queries -/

def ComparisonOp.words : ComparisonOp → List Word
  | .eq => [(.eq, "=")]
  | .notEq => [(.notEq, "!=")]
  | .lt => [(.lt, "<")]
  | .ltEq => [(.ltEq, "<=")]
  | .gt => [(.gt, ">")]
  | .gtEq => [(.gtEq, ">=")]
  | .like => [keywordWord .likeKw]
  | .notLike => [keywordWord .notKw, keywordWord .likeKw]
  | .ilike => [keywordWord .ilikeKw]
  | .notIlike => [keywordWord .notKw, keywordWord .ilikeKw]

def JoinKind.keywords : JoinKind → List Keyword
  | .inner => [.innerKw, .joinKw]
  | .leftOuter => [.leftKw, .outerKw, .joinKw]
  | .rightOuter => [.rightKw, .outerKw, .joinKw]
  | .fullOuter => [.fullKw, .outerKw, .joinKw]
  | .cross => [.crossKw, .joinKw]

def SetOperator.keyword : SetOperator → Keyword
  | .union => .unionKw
  | .intersect => .intersectKw
  | .except => .exceptKw

/-- The words of names in parentheses. -/
def namesWords (names : List Identifier) : List Word :=
  openWord :: (joined commaWord (names.map fun i => [i.word]) ++ [closeWord])

mutual

def Constraint.words : Constraint → List Word
  | .comparison left op right _ => left.words ++ (op.words ++ right.words)
  | .between value low high negated _ =>
    value.words ++ (wordsIf negated [keywordWord .notKw] ++ keywordWord .betweenKw ::
      (low.words ++ keywordWord .andKw :: high.words))
  | .inValues value values negated _ =>
    value.words ++ (wordsIf negated [keywordWord .notKw] ++ keywordWord .inKw :: openWord ::
      (joined commaWord (values.map Operand.words) ++ [closeWord]))
  | .inQuery value query negated _ =>
    value.words ++ (wordsIf negated [keywordWord .notKw] ++ keywordWord .inKw :: openWord ::
      (query.words ++ [closeWord]))
  | .isNull value negated _ =>
    value.words ++ keywordWord .isKw :: (wordsIf negated [keywordWord .notKw] ++ [keywordWord .nullKw])
  | .nonEmpty query _ => keywordWord .existsKw :: openWord :: (query.words ++ [closeWord])
  | .not inner _ => keywordWord .notKw :: inner.words
  | .and left right _ => left.words ++ keywordWord .andKw :: right.words
  | .or left right _ => left.words ++ keywordWord .orKw :: right.words
  | .group inner _ => openWord :: (inner.words ++ [closeWord])

def FromItem.words : FromItem → List Word
  | .table name label _ => dottedWords name.parts ++ aliasWords label
  | .subquery query label _ => openWord :: (query.words ++ closeWord :: aliasWords (some label))
  | .join left kind natural right condition _ =>
    left.words ++ (wordsIf natural [keywordWord .naturalKw] ++ (kind.keywords.map keywordWord ++
      (right.words ++ condition.words)))

def JoinCondition.words : JoinCondition → List Word
  | .unstated => []
  | .on condition => keywordWord .onKw :: condition.words
  | .sharing columns => keywordWord .usingKw :: namesWords columns

def SelectQuery.words : SelectQuery → List Word
  | { clause, source, filter, groupBy, having, orderBy, offset, .. } =>
    clause.words ++ (keywordWord .fromKw :: (joined commaWord (FromItem.allWords source) ++
      (Constraint.clauseWords .whereKw filter ++ (groupByWords groupBy ++
        (Constraint.clauseWords .havingKw having ++ tailWords orderBy offset)))))

def SetOperation.words : SetOperation → List Word
  | { left, op, all, right, orderBy, offset, .. } =>
    left.words ++ (keywordWord op.keyword :: (wordsIf all [keywordWord .allKw] ++
      (right.words ++ tailWords orderBy offset)))

def QueryBody.words : QueryBody → List Word
  | .select query => query.words
  | .set operation => operation.words

def WithItem.words : WithItem → List Word
  | { name, columns, query, .. } =>
    name.word :: ((if columns.isEmpty then [] else namesWords columns) ++ keywordWord .asKw ::
      openWord :: (query.words ++ [closeWord]))

def Query.words : Query → List Word
  | { withItems, body, .. } =>
    (if withItems.isEmpty then [] else keywordWord .withKw :: joined commaWord (WithItem.allWords withItems)) ++
      body.words

/-- The words of a condition after the word of its clause, if there is one. -/
def Constraint.clauseWords (word : Keyword) : Option Constraint → List Word
  | none => []
  | some condition => keywordWord word :: condition.words

def FromItem.allWords : List FromItem → List (List Word)
  | [] => []
  | item :: rest => item.words :: FromItem.allWords rest

def WithItem.allWords : List WithItem → List (List Word)
  | [] => []
  | item :: rest => item.words :: WithItem.allWords rest

end

/-! ### Lists -/

theorem Operand.allWords_eq_map (os : List Operand) : Operand.allWords os = os.map Operand.words := by
  induction os with
  | nil => rfl
  | cons o rest ih => rw [Operand.allWords, ih, List.map_cons]

theorem FromItem.allWords_eq_map (items : List FromItem) :
    FromItem.allWords items = items.map FromItem.words := by
  induction items with
  | nil => rfl
  | cons item rest ih => rw [FromItem.allWords, ih, List.map_cons]

theorem WithItem.allWords_eq_map (items : List WithItem) :
    WithItem.allWords items = items.map WithItem.words := by
  induction items with
  | nil => rfl
  | cons item rest ih => rw [WithItem.allWords, ih, List.map_cons]

theorem FromItem.renderAll_eq_map (items : List FromItem) :
    FromItem.renderAll items = items.map FromItem.render := by
  induction items with
  | nil => rfl
  | cons item rest ih => rw [FromItem.renderAll, ih, List.map_cons]

theorem WithItem.renderAll_eq_map (items : List WithItem) :
    WithItem.renderAll items = items.map WithItem.render := by
  induction items with
  | nil => rfl
  | cons item rest ih => rw [WithItem.renderAll, ih, List.map_cons]

end SkyQuery
