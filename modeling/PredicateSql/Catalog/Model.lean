import PredicateSql.ValueType

/-!
# Models

* `Property`: a property of a model and the column that holds it. A property with a reference
  leads to a row of another model: its column holds the key of that row.
* `Model`: a named list of properties, stored in a table.
* `Catalog`: the models that a query may use, one for each name, in the order of their names.
  `Catalog.find?` finds a model, `Catalog.insert` adds one or replaces the one of the same name.
-/

namespace PredicateSql

/-- A row of a model, found by the value of one of its properties. -/
structure Reference where
  model : String
  property : String
  deriving Repr, DecidableEq, Inhabited

/-- A property of a model. -/
structure Property where
  name : String
  type : ValueType
  nullable : Bool := false
  /-- The column, where it has another name than the property. -/
  column : Option String := none
  /-- The property is among the columns of a query that names none. -/
  serialize : Bool := true
  /-- The row that the property leads to. -/
  reference : Option Reference := none
  deriving Repr, DecidableEq, Inhabited

/-- The name of the column that holds a property. -/
def Property.columnName (p : Property) : String :=
  p.column.getD p.name

/-- A model. -/
structure Model where
  name : String
  /-- The table, where it has another name than the model. -/
  table : Option String := none
  properties : List Property := []
  deriving Repr, DecidableEq, Inhabited

namespace Model

/-- The name of the table that holds the rows of a model. -/
def tableName (m : Model) : String :=
  m.table.getD m.name

/-- The first property of a name. -/
def find? (m : Model) (name : String) : Option Property :=
  m.properties.find? (·.name == name)

/-- The properties that a query projects if it names none. -/
def serializable (m : Model) : List Property :=
  m.properties.filter (·.serialize)

end Model

/-- Models by name. -/
structure Catalog where
  models : List Model
  /-- The names increase, so no two models share one. -/
  sorted : models.Pairwise fun a b => a.name < b.name
  deriving Repr, DecidableEq

namespace Catalog

/-- No models. -/
def empty : Catalog :=
  ⟨[], .nil⟩

instance : Inhabited Catalog := ⟨empty⟩

/-- The model of a name. -/
def find? (c : Catalog) (name : String) : Option Model :=
  c.models.find? (·.name == name)

/-- A model at its place among models in the order of their names, instead of one with its name. -/
def insertSorted (m : Model) : List Model → List Model
  | [] => [m]
  | n :: rest =>
    if n.name < m.name then n :: insertSorted m rest
    else if n.name = m.name then m :: rest
    else m :: n :: rest

/-- An insertion adds no model but the inserted one. -/
theorem mem_insertSorted {m x : Model} {models : List Model} (h : x ∈ insertSorted m models) :
    x = m ∨ x ∈ models := by
  induction models with
  | nil => simpa [insertSorted] using h
  | cons n rest ih =>
    unfold insertSorted at h
    split at h
    · rcases List.mem_cons.1 h with rfl | h
      · simp
      · rcases ih h with h | h <;> simp [h]
    · split at h
      · rcases List.mem_cons.1 h with h | h <;> simp [h]
      · simpa using h

/-- An insertion keeps the order of the names. -/
theorem pairwise_insertSorted {m : Model} {models : List Model}
    (h : models.Pairwise fun a b => a.name < b.name) :
    (insertSorted m models).Pairwise fun a b => a.name < b.name := by
  induction models with
  | nil => simp [insertSorted]
  | cons n rest ih =>
    obtain ⟨hn, hrest⟩ := List.pairwise_cons.1 h
    unfold insertSorted
    split
    · next hlt =>
      refine List.pairwise_cons.2 ⟨fun x hx => ?_, ih hrest⟩
      rcases mem_insertSorted hx with rfl | hx
      · exact hlt
      · exact hn x hx
    · split
      · next heq => exact List.pairwise_cons.2 ⟨fun x hx => heq ▸ hn x hx, hrest⟩
      · next hlt hne =>
        have hmn : m.name < n.name :=
          Classical.not_not.1 fun hle =>
            hne (String.le_antisymm (String.not_lt.1 hle) (String.not_lt.1 hlt))
        refine List.pairwise_cons.2 ⟨fun x hx => ?_, h⟩
        rcases List.mem_cons.1 hx with rfl | hx
        · exact hmn
        · exact String.lt_trans hmn (hn x hx)

/-- A catalog with one more model, or another model of a name that it has. -/
def insert (c : Catalog) (m : Model) : Catalog :=
  ⟨insertSorted m c.models, pairwise_insertSorted c.sorted⟩

/-- The catalog of some models. Of several models with one name, the last counts. -/
def ofModels (models : List Model) : Catalog :=
  models.foldl insert empty

end Catalog

end PredicateSql
