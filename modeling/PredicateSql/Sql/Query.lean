import PredicateSql.Sql.Operator

/-!
# Queries

* `Term`: an expression of SQL.
* `Query`: a `SELECT` statement over one table, the tables joined to it, and a filter.
* `Term.unparenthesized`: a term at the root of a clause, where an operator needs no parentheses.
-/

namespace PredicateSql.Sql

/-- An expression of SQL. -/
inductive Term where
  | literal (value : Value)
  /-- A column of the table with an alias. -/
  | column (table name : String)
  | binary (left : Term) (op : Operator) (right : Term) (parenthesized : Bool)
  | negative (operand : Term)
  | not (operand : Term)
  /-- A test against `NULL`, whose two forms are operators written after their operand. -/
  | isNull (operand : Term) (op : Operator)
  | inList (item : Term) (list : List Term) (negated : Bool)
  /-- A match against a pattern. In an escaped pattern a backslash makes the character after it
  stand for itself. -/
  | like (item pattern : Term) (negated escaped : Bool)
  | concat (parts : List Term)
  | conditional (test ifTrue ifFalse : Term)
  | call (function : String) (args : List Term)
  deriving Repr, Inhabited

namespace Term

/-- An operator between parentheses. -/
def operation (left : Term) (op : Operator) (right : Term) : Term :=
  .binary left op right true

/-- A text. -/
def text (s : String) : Term :=
  .literal (.string s)

/-- The term without parentheses around its outermost operator. -/
def unparenthesized : Term → Term
  | .binary left op right _ => .binary left op right false
  | t => t

/-- The parts that a term adds to a concatenation. -/
def concatParts : Term → List Term
  | .concat parts => parts
  | t => [t]

end Term

/-- A projected column. It has a label where its name in the result is not that of the column. -/
structure SelectColumn where
  table : String
  name : String
  label : Option String
  deriving Repr, DecidableEq, Inhabited

/-- What a query selects. -/
inductive Projection where
  | columns (columns : List SelectColumn)
  | count
  /-- The number one, to see whether there are rows. -/
  | one
  deriving Repr, DecidableEq, Inhabited

/-- A table joined to another one, by its key and a column of the other that holds the key. -/
structure Join where
  table : String
  aliasName : String
  key : String
  parentAlias : String
  foreignKey : String
  deriving Repr, DecidableEq, Inhabited

/-- One key of an order. -/
structure OrderBy where
  key : Term
  descending : Bool
  deriving Repr, Inhabited

/-- A `SELECT` statement. -/
structure Query where
  projection : Projection
  table : String
  aliasName : String
  joins : List Join
  filter : Option Term
  order : List OrderBy
  limit : Option Nat
  offset : Option Nat
  deriving Repr, Inhabited

end PredicateSql.Sql
