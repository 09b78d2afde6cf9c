import PredicateSql.Catalog.Model
import PredicateSql.Json.Reader

/-!
# Catalogs as documents

A catalog is written as an object with a list of models, each of which is an object in turn. Fields
that are left out have their usual values, and fields with other names are passed over.

* `Catalog.ofJson?`, `Catalog.toJson`: catalogs from documents, and back.
* `Catalog.read?`: the catalog that a text holds.
-/

namespace PredicateSql

/-! ### Reading -/

/-- The row that a property leads to. It is found by the property `Id` if no other is named. -/
def Reference.ofJson? (document : Json) : Option Reference := do
  let record ← Json.record? ["model", "property"] document
  let model ← Json.required? record "model" Json.text?
  let property ← Json.optional? record "property" "Id" Json.text?
  return { model, property }

/-- A property. It is nullable if it is said to be, or if its type is marked so. -/
def Property.ofJson? (document : Json) : Option Property := do
  let record ← Json.record?
    ["name", "type", "nullable", "column", "serialize", "foreign_identity"] document
  let name ← Json.required? record "name" Json.text?
  let (type, marked) := ValueType.parse (← Json.required? record "type" Json.text?)
  let nullable ← Json.optional? record "nullable" false Json.bool?
  let column ← Json.optional? record "column" none (Json.nullable? Json.text?)
  let serialize ← Json.optional? record "serialize" true Json.bool?
  let reference ←
    Json.optional? record "foreign_identity" none (Json.nullable? Reference.ofJson?)
  return { name, type, nullable := nullable || marked, column, serialize, reference }

/-- A model. -/
def Model.ofJson? (document : Json) : Option Model := do
  let record ← Json.record? ["name", "table", "properties"] document
  let name ← Json.required? record "name" Json.text?
  let table ← Json.optional? record "table" none (Json.nullable? Json.text?)
  let properties ← (← Json.required? record "properties" Json.array?).mapM Property.ofJson?
  return { name, table, properties }

/-- A catalog. -/
def Catalog.ofJson? (document : Json) : Option Catalog := do
  let record ← Json.record? ["models"] document
  let models ← (← Json.required? record "models" Json.array?).mapM Model.ofJson?
  return .ofModels models

/-- The model that a text holds. -/
def Model.read? (text : String) : Option Model :=
  (Json.read? text).bind Model.ofJson?

/-- The catalog that a text holds. -/
def Catalog.read? (text : String) : Option Catalog :=
  (Json.read? text).bind Catalog.ofJson?

/-! ### Writing -/

/-- Something that may be missing. -/
def Json.ofOption {α : Type} (write : α → Json) : Option α → Json
  | none => .null
  | some a => write a

/-- A reference with both of its fields. -/
def Reference.toJson (r : Reference) : Json :=
  .ofMembers [("model", .text r.model), ("property", .text r.property)]

/-- A property with all of its fields, its type under the name that it is printed under. -/
def Property.toJson (p : Property) : Json :=
  .ofMembers
    [("name", .text p.name),
     ("type", .text p.type.render),
     ("nullable", .bool p.nullable),
     ("column", .ofOption .text p.column),
     ("serialize", .bool p.serialize),
     ("foreign_identity", .ofOption Reference.toJson p.reference)]

/-- A model with all of its fields. -/
def Model.toJson (m : Model) : Json :=
  .ofMembers
    [("name", .text m.name),
     ("table", .ofOption .text m.table),
     ("properties", .array (m.properties.map Property.toJson))]

/-- The models of a catalog, in the order of their names. -/
def Catalog.toJson (c : Catalog) : Json :=
  .ofMembers [("models", .array (c.models.map Model.toJson))]

end PredicateSql
