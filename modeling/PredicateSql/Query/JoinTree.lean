import PredicateSql.Catalog.Model
import PredicateSql.Sql.Query

/-!
# Join trees

The tables of a query. At the root is the table of the queried model; every other node is reached
from a node before it through one of its properties, and becomes a join.

* `JoinTree`: the root, and the branches in the order in which they were found. Node 0 is the
  root, and node `n + 1` is branch `n`.
* `JoinTree.child`: the node that a property leads to. The same property of the same node leads
  to the same node, and two properties never do.
* `JoinTree.joins`: the joins of the query.
-/

namespace PredicateSql

/-- A node that is reached from another one. -/
structure Branch where
  model : String
  table : String
  /-- The node that the branch hangs off, and the property that leads to it. -/
  parent : Nat
  property : String
  /-- The column of the parent that holds the key, and the key. -/
  foreignKey : String
  key : String
  deriving Repr, DecidableEq, Inhabited

/-- The tables of a query. -/
structure JoinTree where
  /-- What all aliases start with. -/
  stem : String
  model : String
  table : String
  branches : List Branch := []
  deriving Repr, DecidableEq, Inhabited

namespace JoinTree

/-- The tree of a query over a model. -/
def ofModel (root : Model) (stem : String) : JoinTree :=
  { stem, model := root.name, table := root.tableName }

/-- The alias of a node is the stem of all aliases and the number of the node. -/
def aliasOf (t : JoinTree) (node : Nat) : String :=
  t.stem ++ toString node

/-- The node that a property of a node leads to, if it was found before. -/
def find? (t : JoinTree) (parent : Nat) (property : String) : Option Nat :=
  (t.branches.findIdx? fun b => b.parent == parent && b.property == property).map (· + 1)

/-- The column that the key of a referenced row stands in. -/
def keyColumn (property : Property) (target : Model) : String :=
  match property.reference with
  | none => "Id"
  | some reference =>
    match target.find? reference.property with
    | none => reference.property
    | some p => p.columnName

/-- The branch for a property of a node that leads to a model. -/
def branch (parent : Nat) (property : Property) (target : Model) : Branch :=
  { model := target.name
    table := target.tableName
    parent
    property := property.name
    foreignKey := property.columnName
    key := keyColumn property target }

/-- The node that a property of a node leads to, in a tree that has it. -/
def child (t : JoinTree) (parent : Nat) (property : Property) (target : Model) : Nat × JoinTree :=
  match t.find? parent property.name with
  | some node => (node, t)
  | none =>
    (t.branches.length + 1, { t with branches := t.branches ++ [branch parent property target] })

/-- The join that a branch becomes at a node. -/
def join (t : JoinTree) (b : Branch) (node : Nat) : Sql.Join :=
  { table := b.table
    aliasName := t.aliasOf node
    key := b.key
    parentAlias := t.aliasOf b.parent
    foreignKey := b.foreignKey }

/-- The joins of the query, in the order in which they were found. -/
def joins (t : JoinTree) : List Sql.Join :=
  (t.branches.zipIdx 1).map fun (b, node) => t.join b node

end JoinTree

end PredicateSql
