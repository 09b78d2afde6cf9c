import PredicateSql.Expr.Basic
import PredicateSql.Text.Case

/-!
# Requests

What a query is asked for, before any of it is SQL.

* `Request`: a model, a filter, an order, a page and the columns to bring along.
* `SelectKind`: what kind of answer is wanted, and how it limits the number of rows.
* `IncludeGraph`: the columns of a model, and of the models that it leads to.
-/

namespace PredicateSql

/-- The kind of answer that a query gives. -/
inductive SelectKind where
  | many
  | first
  | single
  | count
  | any
  deriving Repr, DecidableEq, Inhabited

namespace SelectKind

/-- The kind of a name, in any case of the letters `A` to `Z`. -/
def ofName? (name : String) : Option SelectKind :=
  match Text.toLowerAscii name with
  | "many" | "list" => some .many
  | "first" => some .first
  | "single" => some .single
  | "count" => some .count
  | "any" => some .any
  | _ => none

/-- What is said of a name that is no kind. -/
def unknownMessage (name : String) : String :=
  "unknown select kind '" ++ Text.toLowerAscii name ++ "'"

/-- At most `n` rows, or fewer if fewer are asked for. -/
def atMost (n : Nat) (take : Option Nat) : Option Nat :=
  some (match take with
    | none => n
    | some t => min t n)

/-- The limit and the offset of a query. Two rows are enough to tell one row from several. -/
def paging (kind : SelectKind) (skip take : Option Nat) : Option Nat × Option Nat :=
  match kind with
  | .many => (take, skip)
  | .first | .any => (atMost 1 take, skip)
  | .single => (atMost 2 take, skip)
  | .count => (none, none)

/-- The order of the rows matters. -/
def isOrdered : SelectKind → Bool
  | .many | .first | .single => true
  | .count | .any => false

end SelectKind

/-- A key of an order: a lambda over the model of a request. -/
structure OrderKey where
  key : Expr
  descending : Bool
  deriving Repr, Inhabited

/-- The columns of a model, all that are serialized if none are named, and the properties to
follow to other models. -/
inductive IncludeGraph where
  | node (columns : Option (List String)) (relations : List (String × IncludeGraph))
  deriving Repr, Inhabited

namespace IncludeGraph

/-- The serialized columns of a model, and nothing else. -/
def all : IncludeGraph :=
  .node none []

/-- Some columns of a model, and nothing else. -/
def ofColumns (names : List String) : IncludeGraph :=
  .node (some names) []

end IncludeGraph

/-- What a query is asked for. -/
structure Request where
  model : String
  select : SelectKind := .many
  filter : Option Expr := none
  order : List OrderKey := []
  skip : Option Nat := none
  take : Option Nat := none
  graph : Option IncludeGraph := none
  deriving Repr, Inhabited

end PredicateSql
