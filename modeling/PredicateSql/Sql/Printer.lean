import PredicateSql.Sql.Dialect
import PredicateSql.Sql.Query

/-!
# Statements as text

* `Printer`: the choices that a statement leaves open.
* `Printer.identifier`: a name, quoted where the choice or the name asks for it.
* `Printer.writeTerm`, `Printer.writeQuery`: how terms and statements are written, with any way to
  write the values in them. The order of operations is kept by parentheses around every operator.
* `Printer.printTerm?`, `Printer.printQuery?`: their texts. There is none if a value has no literal
  form.
* `Printer.term`, `Printer.query`: the same texts, in which such a value leaves nothing.
-/

namespace PredicateSql.Sql

/-- The choices that a statement leaves open. -/
structure Printer where
  dialect : Dialect := .postgres
  /-- Quote every name, and not only those that need it. -/
  quoteIdentifiers : Bool := true
  /-- End every statement with a semicolon. -/
  terminate : Bool := true
  deriving Repr, DecidableEq, Inhabited

/-! ### Identifiers -/

/-- Names that cannot stand without quotes. -/
def reservedNames : List String :=
  ["all", "and", "as", "by", "case", "from", "group", "limit", "not", "null", "or", "order",
    "select", "table", "user", "where"]

/-- A character that a plain name may start with. Upper case letters are not among them, because
a name without quotes loses its case. -/
def isPlainStart (c : Char) : Bool :=
  c.isLower || c == '_'

/-- A name of lower case letters, digits and underscores that does not start with a digit. -/
def isPlain : List Char → Bool
  | [] => false
  | c :: rest => isPlainStart c && rest.all fun c => isPlainStart c || c.isDigit

namespace Printer

/-- A name of a table or a column. -/
def identifier (p : Printer) (name : String) : String :=
  if p.quoteIdentifiers || !isPlain name.toList || reservedNames.contains name then
    Text.quoted '"' name
  else name

/-! ### Terms -/

section

variable {m : Type → Type} [Monad m]

mutual

/-- Writes a term, and the values in it by `literal`. -/
def writeTerm (p : Printer) (literal : Value → m String) : Term → m String
  | .literal value => literal value
  | .column table name => return table ++ "." ++ p.identifier name
  | .binary left op right parenthesized => do
    let text := (← p.writeTerm literal left) ++ op.token ++ (← p.writeTerm literal right)
    return if parenthesized then "(" ++ text ++ ")" else text
  | .negative operand =>
    return "(" ++ Operator.negative.token ++ (← p.writeTerm literal operand) ++ ")"
  | .not operand => return "(NOT " ++ (← p.writeTerm literal operand) ++ ")"
  | .isNull operand op => return "(" ++ (← p.writeTerm literal operand) ++ ")" ++ op.token
  | .inList item list negated =>
    return "(" ++ (← p.writeTerm literal item) ++ (if negated then " NOT " else " ") ++ "IN (" ++
      ", ".intercalate (← p.writeTerms literal list) ++ "))"
  | .like item pattern negated escaped =>
    return "(" ++ (← p.writeTerm literal item) ++ (if negated then " NOT " else " ") ++ "LIKE " ++
      (← p.writeTerm literal pattern) ++ (if escaped then " ESCAPE '\\'" else "") ++ ")"
  | .concat parts => return "(" ++ " || ".intercalate (← p.writeTerms literal parts) ++ ")"
  | .conditional test ifTrue ifFalse =>
    return "CASE WHEN " ++ (← p.writeTerm literal test) ++ " THEN " ++
      (← p.writeTerm literal ifTrue) ++ " ELSE " ++ (← p.writeTerm literal ifFalse) ++ " END"
  | .call function args =>
    return function ++ "(" ++ ", ".intercalate (← p.writeTerms literal args) ++ ")"

/-- Writes some terms. -/
def writeTerms (p : Printer) (literal : Value → m String) : List Term → m (List String)
  | [] => return []
  | t :: rest => return (← p.writeTerm literal t) :: (← p.writeTerms literal rest)

end

end

/-! ### Statements -/

/-- A projected column. A label may hold dots, so it is always quoted. -/
def selectColumn (p : Printer) (c : SelectColumn) : String :=
  c.table ++ "." ++ p.identifier c.name ++
    match c.label with
    | none => ""
    | some label => " AS " ++ Text.quoted '"' label

/-- What a statement selects. -/
def projection (p : Printer) : Projection → String
  | .columns columns => ", ".intercalate (columns.map p.selectColumn)
  | .count => "COUNT(*)"
  | .one => "1"

/-- A join, with a space before it. -/
def join (p : Printer) (j : Join) : String :=
  " LEFT JOIN " ++ p.identifier j.table ++ " AS " ++ j.aliasName ++ " ON " ++ j.aliasName ++ "." ++
    p.identifier j.key ++ " = " ++ j.parentAlias ++ "." ++ p.identifier j.foreignKey

section

variable {m : Type → Type} [Monad m]

/-- Writes the filter of a statement, if it has one. -/
def writeFilter (p : Printer) (literal : Value → m String) : Option Term → m String
  | none => return ""
  | some filter => return " WHERE " ++ (← p.writeTerm literal filter)

/-- Writes a key of an order, with its direction. -/
def writeOrderBy (p : Printer) (literal : Value → m String) (o : OrderBy) : m String :=
  return (← p.writeTerm literal o.key) ++ (if o.descending then " DESC" else " ASC")

/-- Writes the order of a statement, if it has one. -/
def writeOrder (p : Printer) (literal : Value → m String) (order : List OrderBy) : m String :=
  if order.isEmpty then return ""
  else return " ORDER BY " ++ ", ".intercalate (← order.mapM (p.writeOrderBy literal))

/-- Writes a statement. Only the filter and the order have values in them. -/
def writeQuery (p : Printer) (literal : Value → m String) (q : Query) : m String := do
  let filter ← p.writeFilter literal q.filter
  let order ← p.writeOrder literal q.order
  return "SELECT " ++ p.projection q.projection ++ " FROM " ++ p.identifier q.table ++ " AS " ++
    q.aliasName ++ String.join (q.joins.map p.join) ++ filter ++ order ++
    p.dialect.ending q.limit q.offset p.terminate

end

/-! ### Texts -/

/-- The text of a term, if every value in it has a literal form. -/
def printTerm? (p : Printer) (t : Term) : Option String :=
  p.writeTerm p.dialect.literal? t

/-- The text of a statement, if every value in it has a literal form. -/
def printQuery? (p : Printer) (q : Query) : Option String :=
  p.writeQuery p.dialect.literal? q

/-- The text of a term, in which values without a literal form leave nothing. -/
def term (p : Printer) (t : Term) : String :=
  Id.run (p.writeTerm p.dialect.literal t)

/-- The texts of some terms. -/
def terms (p : Printer) (list : List Term) : List String :=
  Id.run (p.writeTerms p.dialect.literal list)

/-- The text of a key of an order. -/
def orderBy (p : Printer) (o : OrderBy) : String :=
  Id.run (p.writeOrderBy p.dialect.literal o)

/-- The text of a statement, in which values without a literal form leave nothing. -/
def query (p : Printer) (q : Query) : String :=
  Id.run (p.writeQuery p.dialect.literal q)

end Printer

end PredicateSql.Sql
