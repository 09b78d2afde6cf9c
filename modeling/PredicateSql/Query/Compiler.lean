import PredicateSql.Query.Terms
import PredicateSql.Sql.Printer

/-!
# From requests to statements

* `Compiler`: the models and values that a request may name, and how statements are written.
* `Compiler.build`: the query for a request. Filter, order and projection are made one after the
  other over one join tree, so all of them share their joins.
* `Compiler.compile`: the text of that query.
-/

namespace PredicateSql

open Sql (Query OrderBy Projection Term)

/-- What requests are compiled with. -/
structure Compiler (V : Type := Evaluator) where
  context : Context V
  printer : Sql.Printer := {}
  /-- What all aliases of tables start with. -/
  aliasStem : String := "t"
  deriving Inhabited

namespace Compiler

variable {V : Type} [ClosedEvaluator V]

/-- The filter of a query. Its outermost operator stands without parentheses. -/
def filter (c : Compiler V) : Option Expr → Walk (Option Term)
  | none => return none
  | some e => do return some (← c.context.term {} e).unparenthesized

/-- The keys of an order. -/
def orderKeys (c : Compiler V) : List OrderKey → Walk (List OrderBy)
  | [] => return []
  | o :: rest => do
    let key ← c.context.keyTerm o.key
    return ⟨key, o.descending⟩ :: (← c.orderKeys rest)

/-- What a query selects. -/
def projection (c : Compiler V) (root : Model) (r : Request) : Walk Projection :=
  match r.select with
  | .count => return .count
  | .any => return .one
  | .many | .first | .single => do
    return .columns (← c.context.project 0 root "" (r.graph.getD .all))

/-- The query for a request over a model that exists. -/
def assemble (c : Compiler V) (root : Model) (r : Request) : Walk Query := do
  let filter ← c.filter r.filter
  let order ← c.orderKeys (if r.select.isOrdered then r.order else [])
  let projection ← c.projection root r
  let tree ← get
  let (limit, offset) := r.select.paging r.skip r.take
  return {
    projection
    table := root.tableName
    aliasName := tree.aliasOf 0
    joins := tree.joins
    filter
    order
    limit
    offset }

/-- The query for a request. -/
def build (c : Compiler V) (r : Request) : Except QueryError Query := do
  let root ← c.context.model r.model
  ((c.assemble root r).run (.ofModel root c.aliasStem)).1

/-- The statement for a request. -/
def compile (c : Compiler V) (r : Request) : Except QueryError String := do
  match c.printer.printQuery? (← c.build r) with
  | some text => return text
  | none => throw (.unrenderableValue "query")

end Compiler

end PredicateSql
