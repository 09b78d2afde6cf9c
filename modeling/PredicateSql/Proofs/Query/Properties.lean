import PredicateSql.Proofs.Query.Navigation
import PredicateSql.Proofs.Query.Related
import PredicateSql.Query.Extraction

/-!
# The properties that chains of members name

A chain of members of a parameter is followed twice: by the walk that makes it a term of a query,
and by the search for the values that a filter asks for. The walk looks ahead and stops at the
column that a test for a value needs; the search passes over every member `Value` and follows every
reference.

* `Context.Names`: what the search finds for a chain is what the walk makes of it. A property is
  found for its bare column, and nothing for a computed term.
* `Context.lastProperty_of_navigate?`: along one path of references, both come to the same property.
  The induction is on the members.
* `Context.operandOf_names`: where the walk succeeds, the search does too and finds what the walk
  makes of the chain, unless the chain starts with a member `Value` or asks a reference whether it
  has a value. Of a reference, the search takes `HasValue` for a property of the model behind it.
-/

namespace PredicateSql

open Sql (Term)

/-! ### Bare columns -/

/-- The term is a column, and nothing is computed from it. -/
def Sql.Term.isColumn : Term → Bool
  | .column .. => true
  | _ => false

/-- A column stays one only if no other member than `Value` is taken of it. -/
theorem isColumn_of_scalarMembers {members : List String} {a b : Term} {type : ValueType}
    (h : scalarMembers a type members = .ok b) :
    b.isColumn = (a.isColumn && members.all (· = "Value")) := by
  induction members generalizing a type with
  | nil =>
    obtain rfl := Except.ok.inj h
    simp
  | cons member rest ih =>
    rw [scalarMembers] at h
    split at h
    · next hlength =>
      rw [ih h]
      simp [Term.isColumn, hlength.1]
    · split at h
      · next hvalue => simp [ih h, hvalue]
      · split at h
        · next hvalue _ =>
          rw [ih h]
          simp [Term.isColumn, hvalue]
        · cases h

namespace Catalog

/-- The chain asks a property that leads to another model whether it has a value. -/
def asksReference (c : Catalog) (root : Model) (members : List String) : Bool :=
  match c.chain? root members with
  | some (_, last, _ :: _) => last.reference.isSome
  | _ => false

end Catalog

/-! ### Both ways along a chain -/

namespace Context

variable {c : Context} {s : Scope} {t t' : JoinTree} {a : Term} {model : Model}
  {p last : Property} {members path ending : List String} {name declared : String}

/-- What the search finds for a chain is what the chain became: for the bare column of a property,
that property of the model behind the table of the column, and for a computed term nothing. -/
def Names (c : Context) (t : JoinTree) (a : Term) : Option Operand → Prop
  | some (.property owner property) => ∃ node model p, c.catalog.StandsFor t node model ∧
      model.name = owner ∧ model.find? property = some p ∧
      a = .column (t.aliasOf node) p.columnName
  | some (.values _) => False
  | none => a.isColumn = false

/-- The search comes to the property that a chain stops at. It is the property itself where nothing
but members `Value` is left for its column. -/
theorem lastProperty_of_navigate? (hp : model.find? name = some p)
    (h : c.catalog.navigate? p members = some (path, last, ending))
    (hending : last.reference.isSome → ending = []) :
    ∃ target, c.catalog.reach? model path = some target ∧ target.find? last.name = some last ∧
      c.lastProperty model name (members.filter (· != "Value")) =
        .ok (if ending.all (· = "Value") then some (.property target.name last.name) else none) := by
  have hproperty : model.property name = .ok p := Model.property_eq_ok.2 hp
  have hname := Model.name_of_find? hp
  induction members generalizing model p name path with
  | nil =>
    obtain ⟨rfl, rfl, rfl⟩ := by simpa [Catalog.navigate?] using h
    refine ⟨model, rfl, by rw [hname, hp], ?_⟩
    simp [lastProperty, hproperty, bind, Except.bind, pure, Except.pure]
  | cons member rest ih =>
    rw [Catalog.navigate?] at h
    split at h
    · next hnone =>
      obtain ⟨rfl, rfl, rfl⟩ := by simpa using h
      refine ⟨model, rfl, by rw [hname, hp], ?_⟩
      -- The members are all left for the column, and the first other than `Value` is computed.
      cases hrest : (member :: rest).filter (· != "Value") with
      | nil =>
        have hall : (member :: rest).all (· = "Value") = true := by
          simpa [List.filter_eq_nil_iff] using hrest
        simp only [lastProperty, hproperty, hall]
        rfl
      | cons next others =>
        have hall : (member :: rest).all (· = "Value") = false := by
          have hnext := List.mem_filter.1 (hrest ▸ List.mem_cons_self (a := next) (l := others))
          refine List.all_eq_false.2 ⟨next, hnext.1, ?_⟩
          simpa using hnext.2
        rw [lastProperty, hproperty, ok_bind]
        simp only [hnone, hall]
        rfl
    · next reference href =>
      split at h
      · next hmember =>
        obtain ⟨-, rfl, rfl⟩ := by simpa using h
        simp [href] at hending
      · split at h
        · next hmember hvalue =>
          have hfilter : (member :: rest).filter (· != "Value") = rest.filter (· != "Value") := by
            simp [hvalue]
          rw [hfilter]
          exact ih hp h hproperty hname
        · next hmember hvalue =>
          obtain ⟨target, htarget, h⟩ := Option.bind_eq_some_iff.1 h
          obtain ⟨next, hnext, h⟩ := Option.bind_eq_some_iff.1 h
          obtain ⟨⟨path', last', ending'⟩, hrest, h⟩ := Option.bind_eq_some_iff.1 h
          obtain ⟨rfl, rfl, rfl⟩ := by simpa using h
          obtain ⟨end', hreach, hlast, hsearch⟩ :=
            ih hnext hrest (Model.property_eq_ok.2 hnext) (Model.name_of_find? hnext)
          have hfilter : (member :: rest).filter (· != "Value") =
              member :: rest.filter (· != "Value") := by
            simp [hvalue]
          refine ⟨end', ?_, hlast, ?_⟩
          · simp [Catalog.reach?, hname, hp, href, htarget, hreach]
          · rw [hfilter, lastProperty, hproperty]
            simp only [bind, Except.bind, href, model_eq_ok.2 htarget, hsearch]

/-- Where a reference is asked whether it has a value, the search looks for a property `HasValue`. -/
theorem lastProperty_hasValue (hno : ∀ m ∈ c.catalog.models, m.find? "HasValue" = none)
    (hp : model.find? name = some p)
    (h : c.catalog.navigate? p members = some (path, last, ending))
    (href : last.reference.isSome) (hending : ending ≠ []) :
    ∃ error, c.lastProperty model name (members.filter (· != "Value")) = .error error := by
  have hproperty : model.property name = .ok p := Model.property_eq_ok.2 hp
  induction members generalizing model p name path with
  | nil =>
    obtain ⟨-, -, rfl⟩ := by simpa [Catalog.navigate?] using h
    exact absurd rfl hending
  | cons member rest ih =>
    rw [Catalog.navigate?] at h
    split at h
    · next hnone =>
      obtain ⟨-, rfl, -⟩ := by simpa using h
      simp [hnone] at href
    · next reference hreference =>
      split at h
      · next hmember =>
        have hfilter : (member :: rest).filter (· != "Value") =
            "HasValue" :: rest.filter (· != "Value") := by
          simp [hmember]
        rw [hfilter, lastProperty, hproperty, ok_bind]
        simp only [hreference]
        cases htarget : c.model reference.model with
        | error error => exact ⟨error, rfl⟩
        | ok target =>
          have htarget' := model_eq_ok.1 htarget
          have hnone := hno target (List.mem_of_find?_eq_some htarget')
          have herror : target.property "HasValue" =
              .error (.unknownProperty target.name "HasValue") := by
            rw [Model.property, hnone]
            rfl
          -- The first step of the search fails, whatever members follow.
          refine ⟨.unknownProperty target.name "HasValue", ?_⟩
          rw [ok_bind]
          cases rest.filter (· != "Value") with
          | nil => rw [lastProperty, herror, error_bind]
          | cons next others => rw [lastProperty, herror, error_bind]
      · split at h
        · next hvalue =>
          have hfilter : (member :: rest).filter (· != "Value") = rest.filter (· != "Value") := by
            simp [hvalue]
          rw [hfilter]
          exact ih hp h hproperty
        · next hvalue =>
          obtain ⟨target, htarget, h⟩ := Option.bind_eq_some_iff.1 h
          obtain ⟨next, hnext, h⟩ := Option.bind_eq_some_iff.1 h
          obtain ⟨⟨path', last', ending'⟩, hrest, h⟩ := Option.bind_eq_some_iff.1 h
          obtain ⟨-, rfl, rfl⟩ := by simpa using h
          obtain ⟨error, herror⟩ := ih hnext hrest (Model.property_eq_ok.2 hnext)
          have hfilter : (member :: rest).filter (· != "Value") =
              member :: rest.filter (· != "Value") := by
            simp [hvalue]
          refine ⟨error, ?_⟩
          rw [hfilter, lastProperty, hproperty, ok_bind]
          simp only [hreference, model_eq_ok.2 htarget, ok_bind, herror]

/-- A parameter becomes a term only where it is bound to the queried model. -/
theorem modelFor?_of_resolve (h : (c.resolve s name declared).Runs t a t') :
    s.modelFor? name = some t.model := by
  rw [resolve] at h
  cases hbound : s.modelFor? name with
  | none => simp [hbound] at h
  | some bound =>
    simp only [hbound, Walk.runs_bind, Walk.runs_get] at h
    obtain ⟨_, _, ⟨rfl, rfl⟩, h⟩ := h
    split at h
    · simp at h
    · next hmodel => rw [Decidable.not_not.1 hmodel]

/-- The search starts at the same property as the walk, unless that is called `Value`. -/
theorem operandOf_eq {root : Model} {first : String} {rest : List String}
    (hbound : s.modelFor? name = some t.model) (hroot : c.catalog.find? t.model = some root)
    (hpending : s.pending = first :: rest) (hfirst : first ≠ "Value") :
    c.operandOf s name declared = c.lastProperty root first (rest.filter (· != "Value")) := by
  have hfilter : s.pending.filter (· != "Value") = first :: rest.filter (· != "Value") := by
    simp [hpending, hfirst]
  rw [operandOf, hbound]
  simp only [model_eq_ok.2 hroot, ok_bind, hfilter]

/-- A chain of members in a filter and in a query. Where the chain becomes a term, the search
succeeds and finds what the chain became, if the first member is not called `Value` and no reference
is asked whether it has a value. Where one is asked, the search fails, unless some model has a
property called `HasValue`. -/
theorem operandOf_names {root : Model} (ht : c.catalog.Spans t)
    (hroot : c.catalog.find? t.model = some root)
    (h : (c.resolve s name declared).Runs t a t') (hfirst : s.pending.head? ≠ some "Value") :
    (c.catalog.asksReference root s.pending = false →
      ∃ operand, c.operandOf s name declared = .ok operand ∧ c.Names t' a operand) ∧
    (c.catalog.asksReference root s.pending = true →
      (∀ m ∈ c.catalog.models, m.find? "HasValue" = none) →
      ∃ error, c.operandOf s name declared = .error error) := by
  have hbound := modelFor?_of_resolve h
  obtain ⟨root', path, last, ending, node, hroot', hchain, hgrows, -, hpath, hnavigates⟩ :=
    resolve_navigates Catalog.keeps_spans ht h
  have hext := hgrows.grows
  obtain rfl := Option.some.inj (hroot.symm.trans hroot')
  rw [Catalog.asksReference, hchain]
  cases hpending : s.pending with
  | nil => simp [hpending, Catalog.chain?] at hchain
  | cons first rest =>
    have hne : first ≠ "Value" := by simpa [hpending] using hfirst
    rw [hpending, Catalog.chain?] at hchain
    obtain ⟨p, hp, hnavigate⟩ := Option.bind_eq_some_iff.1 hchain
    rw [operandOf_eq hbound hroot hpending hne]
    constructor
    · intro hasks
      have hending : last.reference.isSome → ending = [] := by
        intro href
        cases ending with
        | nil => rfl
        | cons => simp [href] at hasks
      obtain ⟨target, hreach, hlast, hsearch⟩ := lastProperty_of_navigate? hp hnavigate hending
      have hcolumn := isColumn_of_scalarMembers hnavigates.members
      refine ⟨_, hsearch, ?_⟩
      cases hall : ending.all (· = "Value") with
      | false =>
        rw [hall, Bool.and_false] at hcolumn
        exact hcolumn
      | true =>
        have hstands : c.catalog.StandsFor t' node target :=
          ⟨hnavigates.le, root, by rw [hext.model, hroot], by rw [hpath, hreach]⟩
        exact ⟨node, target, last, hstands, rfl, hlast,
          (scalarMembers_value hall hnavigates.members).symm⟩
    · intro hasks hno
      cases ending with
      | nil => simp at hasks
      | cons next others => exact lastProperty_hasValue hno hp hnavigate hasks (by simp)

/-- The age of a friend is a bare column, and the search finds the property that it belongs to. -/
theorem operandOf_names_friend :
    let s : Scope := {
      binders := [("p", "Person")]
      pending := ["Friend", "Value", "Age", "Value"] }
    let c := Compiler.sample.context
    let a : Term := .column "t1" "Age"
    ∃ t, (c.resolve s "p" "Person").Runs (.ofModel Compiler.samplePerson "t") a t ∧
      ∃ operand, c.operandOf s "p" "Person" = .ok operand ∧ c.Names t a operand := by
  intro s c a
  obtain ⟨t, ht⟩ : ∃ t, (c.resolve s "p" "Person").Runs (.ofModel Compiler.samplePerson "t") a t :=
    ⟨_, rfl⟩
  have hspans := Catalog.spans_ofModel (c := c.catalog) Compiler.samplePerson "t"
  have hroot : c.catalog.find? "Person" = some Compiler.samplePerson := rfl
  exact ⟨t, ht, (operandOf_names hspans hroot ht (by decide)).1 rfl⟩

/-- A query can ask whether there is a friend, and the search for the values of the same filter
fails. -/
theorem operandOf_fails :
    let s : Scope := { binders := [("p", "Person")], pending := ["Friend", "HasValue"] }
    let c := Compiler.sample.context
    (∃ a t, (c.resolve s "p" "Person").Runs (.ofModel Compiler.samplePerson "t") a t) ∧
      ∀ operand, c.operandOf s "p" "Person" ≠ .ok operand :=
  ⟨⟨.isNull (.column "t0" "FriendId") .notEqualsNull, _, rfl⟩, fun _ => nofun⟩

end Context

end PredicateSql
