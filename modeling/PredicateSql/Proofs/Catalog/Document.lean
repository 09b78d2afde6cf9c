import PredicateSql.Catalog.Document
import PredicateSql.Proofs.Catalog.TypeName

/-!
# Catalogs that are written and read again

* `Catalog.find?_ofModels`: of several models with one name, a catalog has the last.
  `Catalog.ofModels_models`: the models of a catalog make the same catalog.
* `Catalog.IsNamed`: all types in a catalog have names. So they do if it was read from a document
  (`Catalog.isNamed_of_ofJson?`), where nothing but names of types stands.
* `Catalog.ofJson?_toJson`: such a catalog is read again from the document that is written for it.
* `Catalog.reload_spec`: what becomes of the models of a text that is read, written and read again.
-/

namespace PredicateSql

/-! ### Insertions -/

namespace Catalog

variable {c : Catalog} {m : Model} {models : List Model} {name : String}

theorem find?_insertSorted : (insertSorted m models).find? (·.name == name) =
    if m.name = name then some m else models.find? (·.name == name) := by
  induction models with
  | nil => by_cases h : m.name = name <;> simp [insertSorted, h]
  | cons n rest ih =>
    unfold insertSorted
    split
    · next hlt =>
      rw [List.find?_cons, ih]
      by_cases h : m.name = name
      · -- The model before it has a smaller name, so another one.
        have hne : (n.name == name) = false := beq_eq_false_iff_ne.2 (h ▸ String.ne_of_lt hlt)
        simp [h, hne]
      · simp only [if_neg h, List.find?_cons]
    · split
      · next heq =>
        by_cases h : m.name = name
        · simp [h]
        · have hne : n.name ≠ name := fun hn => h (heq ▸ hn)
          simp [h, hne]
      · by_cases h : m.name = name <;> simp [h]

theorem find?_insert : (c.insert m).find? name = if m.name = name then some m else c.find? name :=
  find?_insertSorted

theorem find?_foldl_insert : (models.foldl insert c).find? name =
    (models.reverse.find? (·.name == name)).or (c.find? name) := by
  induction models generalizing c with
  | nil => rfl
  | cons m rest ih =>
    rw [List.foldl_cons, ih, find?_insert, List.reverse_cons, List.find?_append]
    by_cases h : m.name = name <;> simp [h]

/-- Of several models with one name, the last counts. -/
theorem find?_ofModels : (ofModels models).find? name = models.reverse.find? (·.name == name) := by
  rw [ofModels, find?_foldl_insert]
  exact Option.or_none

theorem mem_foldl_insert (h : m ∈ (models.foldl insert c).models) : m ∈ c.models ∨ m ∈ models := by
  induction models generalizing c with
  | nil => exact .inl h
  | cons n rest ih =>
    rcases ih h with h | h
    · rcases mem_insertSorted h with rfl | h
      · exact .inr List.mem_cons_self
      · exact .inl h
    · exact .inr (List.mem_cons_of_mem _ h)

/-- A catalog has no models but those that it was made of. -/
theorem mem_of_mem_ofModels (h : m ∈ (ofModels models).models) : m ∈ models :=
  (mem_foldl_insert h).resolve_left List.not_mem_nil

/-- A model comes last if its name is greater than all others. -/
theorem insertSorted_of_forall_lt (h : ∀ n ∈ models, n.name < m.name) :
    insertSorted m models = models ++ [m] := by
  induction models with
  | nil => rfl
  | cons n rest ih =>
    rw [insertSorted, if_pos (h n List.mem_cons_self),
      ih fun x hx => h x (List.mem_cons_of_mem _ hx)]
    rfl

theorem models_foldl_insert (h : (c.models ++ models).Pairwise fun a b => a.name < b.name) :
    (models.foldl insert c).models = c.models ++ models := by
  induction models generalizing c with
  | nil => exact (List.append_nil _).symm
  | cons m rest ih =>
    have hinsert : (c.insert m).models = c.models ++ [m] :=
      insertSorted_of_forall_lt fun n hn =>
        (List.pairwise_append.1 h).2.2 n hn m List.mem_cons_self
    rw [List.foldl_cons, ih (by rwa [hinsert, List.append_assoc]), hinsert, List.append_assoc]
    rfl

/-- The models of a catalog make the same catalog. -/
theorem ofModels_models (c : Catalog) : ofModels c.models = c := by
  have hmodels : (ofModels c.models).models = c.models :=
    models_foldl_insert (c := empty) c.sorted
  revert hmodels
  generalize ofModels c.models = d
  obtain ⟨models, sorted⟩ := c
  obtain ⟨models', sorted'⟩ := d
  rintro rfl
  rfl

end Catalog

/-! ### Reading what was written -/

variable {α β : Type} {document : Json}

/-- Items that are read as they were written are read as a list. -/
theorem mapM_map_eq_some {read : β → Option α} {write : α → β} {items : List α}
    (h : ∀ a ∈ items, read (write a) = some a) : (items.map write).mapM read = some items := by
  induction items with
  | nil => rfl
  | cons a rest ih =>
    rw [List.map_cons, List.mapM_cons, h a List.mem_cons_self,
      ih fun x hx => h x (List.mem_cons_of_mem _ hx)]
    rfl

/-- What holds of all that is read holds of the items of a list. -/
theorem forall_mem_of_mapM {read : β → Option α} {P : α → Prop} {items : List β} {found : List α}
    (h : items.mapM read = some found) (hP : ∀ b a, read b = some a → P a) : ∀ a ∈ found, P a := by
  induction items generalizing found with
  | nil =>
    obtain rfl := Option.some.inj h
    exact nofun
  | cons b rest ih =>
    rw [List.mapM_cons] at h
    obtain ⟨a, ha, h⟩ := Option.bind_eq_some_iff.1 h
    obtain ⟨more, hmore, h⟩ := Option.bind_eq_some_iff.1 h
    obtain rfl := Option.some.inj h
    exact List.forall_mem_cons.2 ⟨hP b a ha, ih hmore⟩

theorem Reference.ofJson?_toJson (r : Reference) : Reference.ofJson? r.toJson = some r :=
  rfl

namespace Property

variable {p : Property}

theorem ofJson?_toJson (h : p.type.IsNamed) : Property.ofJson? p.toJson = some p := by
  obtain ⟨name, type, nullable, column, serialize, reference⟩ := p
  have htype : ValueType.parse type.render = (type, false) := h.parse_render
  have hcolumn : Json.nullable? Json.text? (Json.ofOption .text column) = some column := by
    cases column <;> rfl
  have hreference : Json.nullable? Reference.ofJson? (Json.ofOption Reference.toJson reference) =
      some reference := by
    cases reference <;> rfl
  simp [ofJson?, toJson, Json.record?, Json.ofMembers, Json.knownMembers?, Json.required?,
    Json.optional?, Json.text?, Json.bool?, Json.text, List.lookup_cons, List.lookup_nil, htype,
    hcolumn, hreference]

/-- The type of a property that is read has a name: the one that stands in the document. -/
theorem isNamed_of_ofJson? (h : Property.ofJson? document = some p) : p.type.IsNamed := by
  obtain ⟨record, -, h⟩ := Option.bind_eq_some_iff.1 h
  obtain ⟨name, -, h⟩ := Option.bind_eq_some_iff.1 h
  obtain ⟨typeName, -, h⟩ := Option.bind_eq_some_iff.1 h
  obtain ⟨nullable, -, h⟩ := Option.bind_eq_some_iff.1 h
  obtain ⟨column, -, h⟩ := Option.bind_eq_some_iff.1 h
  obtain ⟨serialize, -, h⟩ := Option.bind_eq_some_iff.1 h
  obtain ⟨reference, -, h⟩ := Option.bind_eq_some_iff.1 h
  obtain rfl := Option.some.inj h
  exact ValueType.isNamed_parseChars typeName.toList

end Property

namespace Model

variable {m : Model}

/-- The types of all properties have names. -/
def IsNamed (m : Model) : Prop :=
  ∀ p ∈ m.properties, p.type.IsNamed

theorem ofJson?_toJson (h : m.IsNamed) : Model.ofJson? m.toJson = some m := by
  obtain ⟨name, table, properties⟩ := m
  have htable : Json.nullable? Json.text? (Json.ofOption .text table) = some table := by
    cases table <;> rfl
  have hproperties : (properties.map Property.toJson).mapM Property.ofJson? = some properties :=
    mapM_map_eq_some fun p hp => Property.ofJson?_toJson (h p hp)
  simp [ofJson?, toJson, Json.record?, Json.ofMembers, Json.knownMembers?, Json.required?,
    Json.optional?, Json.text?, Json.array?, Json.text, List.lookup_cons, List.lookup_nil, htable,
    hproperties]

theorem isNamed_of_ofJson? (h : Model.ofJson? document = some m) : m.IsNamed := by
  obtain ⟨record, -, h⟩ := Option.bind_eq_some_iff.1 h
  obtain ⟨name, -, h⟩ := Option.bind_eq_some_iff.1 h
  obtain ⟨table, -, h⟩ := Option.bind_eq_some_iff.1 h
  obtain ⟨items, -, h⟩ := Option.bind_eq_some_iff.1 h
  obtain ⟨properties, hproperties, h⟩ := Option.bind_eq_some_iff.1 h
  obtain rfl := Option.some.inj h
  exact forall_mem_of_mapM hproperties fun _ _ => Property.isNamed_of_ofJson?

end Model

/-! ### Catalogs -/

namespace Catalog

variable {c : Catalog} {models : List Model}

/-- The types of all properties have names. -/
def IsNamed (c : Catalog) : Prop :=
  ∀ m ∈ c.models, m.IsNamed

/-- The models that a document defines, in the order in which they stand there. -/
def definitions? (document : Json) : Option (List Model) := do
  let record ← Json.record? ["models"] document
  (← Json.required? record "models" Json.array?).mapM Model.ofJson?

theorem ofJson?_eq (document : Json) : ofJson? document = (definitions? document).map ofModels := by
  simp only [ofJson?, definitions?, ← Option.map_eq_map, map_eq_pure_bind, bind_assoc]

theorem ofJson?_eq_some : ofJson? document = some c ↔
    ∃ models, definitions? document = some models ∧ ofModels models = c := by
  rw [ofJson?_eq, Option.map_eq_some_iff]

theorem isNamed_of_definitions? (h : definitions? document = some models) :
    ∀ m ∈ models, m.IsNamed := by
  obtain ⟨record, -, h⟩ := Option.bind_eq_some_iff.1 h
  obtain ⟨items, -, h⟩ := Option.bind_eq_some_iff.1 h
  exact forall_mem_of_mapM h fun _ _ => Model.isNamed_of_ofJson?

/-- The types in a catalog that is read have names. -/
theorem isNamed_of_ofJson? (h : ofJson? document = some c) : c.IsNamed := by
  obtain ⟨models, hmodels, rfl⟩ := ofJson?_eq_some.1 h
  exact fun m hm => isNamed_of_definitions? hmodels m (mem_of_mem_ofModels hm)

theorem definitions?_toJson (h : c.IsNamed) : definitions? c.toJson = some c.models :=
  mapM_map_eq_some fun m hm => Model.ofJson?_toJson (h m hm)

/-- A catalog is read again from the document that is written for it. -/
theorem ofJson?_toJson (h : c.IsNamed) : ofJson? c.toJson = some c :=
  ofJson?_eq_some.2 ⟨c.models, definitions?_toJson h, ofModels_models c⟩

/-- A type that is read from a name is read again from the name that it is printed under, and that
name has no mark of being nullable. So a catalog that is read from a text, written and read again
is the same catalog. It has the last of the models that the text defines under each name, and the
document that is written for it defines these models, in the strict order of their names. -/
theorem reload_spec :
    (∀ name, ValueType.parse (ValueType.ofName name).render = (ValueType.ofName name, false)) ∧
    ∀ text c, read? text = some c →
      (∃ models, (Json.read? text).bind definitions? = some models ∧
        ∀ name, c.find? name = models.reverse.find? (·.name == name)) ∧
      definitions? c.toJson = some c.models ∧
      (c.models.map (·.name)).Pairwise (· < ·) ∧
      ofJson? c.toJson = some c := by
  refine ⟨fun name => (ValueType.isNamed_parseChars name.toList).parse_render, ?_⟩
  intro text c h
  obtain ⟨document, hdocument, h⟩ := Option.bind_eq_some_iff.1 h
  have hnamed := isNamed_of_ofJson? h
  obtain ⟨models, hmodels, hc⟩ := ofJson?_eq_some.1 h
  refine ⟨⟨models, ?_, fun name => ?_⟩, definitions?_toJson hnamed, ?_, ofJson?_toJson hnamed⟩
  · rw [hdocument]
    exact hmodels
  · rw [← hc, find?_ofModels]
  · exact List.pairwise_map.2 c.sorted

/-- Of two orders, the last one is kept. Its codes may be missing, and so may each of them: the type
is that of a list of numbers, and the mark stands with the property. -/
theorem reload_spec_orders :
    let text := "\x7b\"models\":[\x7b\"name\":\"Order\",\"properties\":[]\x7d," ++
      "\x7b\"name\":\"Order\",\"properties\":[" ++
      "\x7b\"name\":\"Codes\",\"type\":\"List<byte?>?\"\x7d]\x7d]\x7d"
    let order : Model := {
      name := "Order"
      properties := [{ name := "Codes", type := .list .int, nullable := true }] }
    let c : Catalog := ⟨[order], List.pairwise_singleton _ _⟩
    read? text = some c ∧ c.find? "Order" = some order ∧ ofJson? c.toJson = some c := by
  intro text order c
  have h : read? text = some c := by decide +kernel
  obtain ⟨-, -, -, hreload⟩ := reload_spec.2 text c h
  exact ⟨h, rfl, hreload⟩

end Catalog

end PredicateSql
