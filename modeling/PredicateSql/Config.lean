import PredicateSql.Json.Reader
import PredicateSql.Query.Compiler

/-!
# Configurations

* `Config`: how statements are written. Every part of it has a usual value.
* `Config.ofJson?`, `Config.toJson`: configurations from documents, and back.
* `Config.compiler`: the compiler that writes statements so.
-/

namespace PredicateSql

open Sql (Dialect)

/-- How statements are written. -/
structure Config where
  dialect : Dialect := .postgres
  /-- Quote every name, and not only those that need it. -/
  quoteIdentifiers : Bool := true
  /-- What all aliases of tables start with. -/
  aliasStem : String := "t"
  /-- End every statement with a semicolon. -/
  terminate : Bool := true
  deriving Repr, DecidableEq, Inhabited

/-- A dialect by its name, spelled exactly. -/
def Sql.Dialect.exact? (name : String) : Option Dialect :=
  [Dialect.postgres, .sqlite].find? (·.name == name)

/-- A dialect, which is written as its name or as an object with its name for a key and nothing
for the value. -/
def Sql.Dialect.ofJson? : Json → Option Dialect
  | .string (some name) => Dialect.exact? name
  | .object [(some name, .null)] => Dialect.exact? name
  | _ => none

namespace Config

/-- A configuration. -/
def ofJson? (document : Json) : Option Config := do
  let record ←
    Json.record? ["dialect", "quote_identifiers", "alias_prefix", "terminate"] document
  let dialect ← Json.optional? record "dialect" .postgres Dialect.ofJson?
  let quoteIdentifiers ← Json.optional? record "quote_identifiers" true Json.bool?
  let aliasStem ← Json.optional? record "alias_prefix" "t" Json.text?
  let terminate ← Json.optional? record "terminate" true Json.bool?
  return { dialect, quoteIdentifiers, aliasStem, terminate }

/-- The configuration that a text holds. -/
def read? (text : String) : Option Config :=
  (Json.read? text).bind ofJson?

/-- A configuration with all of its fields. -/
def toJson (c : Config) : Json :=
  .ofMembers
    [("dialect", .text c.dialect.name),
     ("quote_identifiers", .bool c.quoteIdentifiers),
     ("alias_prefix", .text c.aliasStem),
     ("terminate", .bool c.terminate)]

/-- How a statement is printed. -/
def printer (c : Config) : Sql.Printer :=
  { dialect := c.dialect, quoteIdentifiers := c.quoteIdentifiers, terminate := c.terminate }

/-- The compiler for some models and values. -/
def compiler (c : Config) (context : Context) : Compiler :=
  { context, printer := c.printer, aliasStem := c.aliasStem }

end Config

end PredicateSql
