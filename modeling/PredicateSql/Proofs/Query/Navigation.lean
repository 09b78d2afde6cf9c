import PredicateSql.Proofs.Query.Analysis
import PredicateSql.Proofs.Query.Runs

/-!
# The paths of member chains

* `Catalog.reach?`: the model that a path of references leads to.
* `Catalog.chain?`: the path that a chain of members follows through the references of a catalog,
  and the property that it ends at.
* `Catalog.Spans`: a join tree that grows along the references of a catalog, so that every node
  stands for the model at the end of its path. `Catalog.Spans.child`: one step along a reference
  keeps that.
* `Context.resolve_navigates`: a chain becomes a column of the node at the end of its path. The
  induction is on the members, over a tree that grows with them and keeps an invariant
  (`Catalog.Keeps`).
-/

namespace PredicateSql

open Sql (Term)

theorem Model.name_of_find? {model : Model} {name : String} {p : Property}
    (h : model.find? name = some p) : p.name = name := by
  have hfound := List.find?_some h
  rwa [beq_iff_eq] at hfound

namespace Catalog

/-- The model that is reached from a model by a path of properties with references. -/
def reach? (c : Catalog) (model : Model) : List String → Option Model
  | [] => some model
  | name :: rest => do
    let property ← model.find? name
    let reference ← property.reference
    c.reach? (← c.find? reference.model) rest

/-- The path that a chain of members follows from a property of a model, the property that it ends
at, and the members that are left for its column. A reference is followed where another member is
taken of it. `Value` is no such member, and to ask for `HasValue` is to ask for the column. -/
def navigate? (c : Catalog) (p : Property) :
    List String → Option (List String × Property × List String)
  | [] => some ([], p, [])
  | member :: rest =>
    match p.reference with
    | none => some ([], p, member :: rest)
    | some reference =>
      if member = "HasValue" then some ([], p, member :: rest)
      else if member = "Value" then c.navigate? p rest
      else do
        let target ← c.find? reference.model
        let next ← target.find? member
        let (path, last, ending) ← c.navigate? next rest
        return (p.name :: path, last, ending)

/-- The same for a chain of members of a model. -/
def chain? (c : Catalog) (root : Model) :
    List String → Option (List String × Property × List String)
  | [] => none
  | first :: rest => do c.navigate? (← root.find? first) rest

variable {c : Catalog} {t t' : JoinTree} {root model target : Model} {p : Property}
  {reference : Reference} {name : String} {node node' : Nat}

theorem name_of_find? (h : c.find? name = some model) : model.name = name := by
  have hname := List.find?_some h
  rwa [beq_iff_eq] at hname

theorem reach?_append (path more : List String) :
    c.reach? model (path ++ more) = (c.reach? model path).bind fun m => c.reach? m more := by
  induction path generalizing model with
  | nil => rfl
  | cons name rest ih => simp [reach?, ih, Option.bind_assoc]

/-- A reference of a model leads one step on. -/
theorem reach?_singleton (hp : model.find? name = some p) (href : p.reference = some reference)
    (htarget : c.find? reference.model = some target) : c.reach? model [p.name] = some target := by
  simp [reach?, Model.name_of_find? hp, hp, href, htarget]

/-! ### Trees along references -/

/-- A node of a tree stands for the model at the end of its path. -/
structure StandsFor (c : Catalog) (t : JoinTree) (node : Nat) (model : Model) : Prop where
  le : node ≤ t.branches.length
  reach : ∃ root, c.find? t.model = some root ∧ c.reach? root (t.pathOf node) = some model

/-- A tree that has grown along the references of a catalog. Every branch has the table of the model
that its node stands for. -/
structure Spans (c : Catalog) (t : JoinTree) : Prop where
  grown : t.IsGrown
  table : ∀ (i : Nat) (b : Branch), t.branches[i]? = some b →
    ∃ model, c.StandsFor t (i + 1) model ∧ b.table = model.tableName

theorem standsFor_root (hroot : c.find? t.model = some root) : c.StandsFor t 0 root :=
  ⟨Nat.zero_le _, root, hroot, by rw [t.pathOf_root]; rfl⟩

theorem StandsFor.extends (h : c.StandsFor t node model) (hext : t.Extends t') :
    c.StandsFor t' node model := by
  obtain ⟨root, hroot, hreach⟩ := h.reach
  refine ⟨Nat.le_trans h.le hext.length_le, root, by rw [hext.model, hroot], ?_⟩
  rw [hext.pathOf h.le, hreach]

/-- A node of a smaller tree stands for the same model there. -/
theorem StandsFor.of_extends (h : c.StandsFor t' node model) (hext : t.Extends t')
    (hnode : node ≤ t.branches.length) : c.StandsFor t node model := by
  obtain ⟨root, hroot, hreach⟩ := h.reach
  refine ⟨hnode, root, by rw [← hext.model, hroot], ?_⟩
  rw [← hext.pathOf hnode, hreach]

/-- A node stands for one model. -/
theorem StandsFor.unique {model' : Model} (h : c.StandsFor t node model)
    (h' : c.StandsFor t node model') : model = model' := by
  obtain ⟨root, hroot, hreach⟩ := h.reach
  obtain ⟨root', hroot', hreach'⟩ := h'.reach
  obtain rfl := Option.some.inj (hroot.symm.trans hroot')
  exact Option.some.inj (hreach.symm.trans hreach')

theorem spans_ofModel (root : Model) (stem : String) : c.Spans (.ofModel root stem) :=
  ⟨JoinTree.isGrown_ofModel root stem, fun i b hb => by simp [JoinTree.ofModel] at hb⟩

/-- The child of a node by a reference stands for the model that the reference leads to. -/
theorem StandsFor.child (h : c.StandsFor t node model) (ht : t.IsRooted)
    (hp : model.find? name = some p) (href : p.reference = some reference)
    (htarget : c.find? reference.model = some target)
    (hchild : t.child node p target = (node', t')) : c.StandsFor t' node' target := by
  obtain ⟨hext, -, hle, hpath⟩ := JoinTree.child_spec ht h.le hchild
  obtain ⟨root, hroot, hreach⟩ := h.reach
  refine ⟨hle, root, by rw [hext.model, hroot], ?_⟩
  rw [hpath, reach?_append, hreach, Option.bind_some, reach?_singleton hp href htarget]

/-- One step along a reference. -/
theorem Spans.child (ht : c.Spans t) (h : c.StandsFor t node model)
    (hp : model.find? name = some p) (href : p.reference = some reference)
    (htarget : c.find? reference.model = some target)
    (hchild : t.child node p target = (node', t')) : c.Spans t' := by
  have hstands := h.child ht.grown.rooted hp href htarget hchild
  have hext := (JoinTree.child_spec ht.grown.rooted h.le hchild).1
  refine ⟨ht.grown.child h.le hchild, fun i b hb => ?_⟩
  have hold : ∀ i b, t.branches[i]? = some b →
      ∃ model, c.StandsFor t' (i + 1) model ∧ b.table = model.tableName := by
    intro i b hb
    obtain ⟨m, hm, htable⟩ := ht.table i b hb
    exact ⟨m, hm.extends hext, htable⟩
  rcases JoinTree.child_cases hchild with ⟨_, _, _, _, _, _, rfl⟩ | ⟨-, rfl, rfl⟩
  · exact hold i b hb
  · rcases JoinTree.eq_of_getElem?_concat hb with hb | ⟨rfl, rfl⟩
    · exact hold i b hb
    -- The new branch has the table of the model that it leads to.
    · exact ⟨target, hstands, rfl⟩

/-- What holds of rooted trees and is kept by every step along a reference. -/
structure Keeps (c : Catalog) (I : JoinTree → Prop) : Prop where
  rooted : ∀ {t}, I t → t.IsRooted
  child : ∀ {t t' node node' model name p reference target}, I t → c.StandsFor t node model →
    model.find? name = some p → p.reference = some reference →
    c.find? reference.model = some target → t.child node p target = (node', t') → I t'

theorem keeps_spans : c.Keeps c.Spans :=
  ⟨fun ht => ht.grown.rooted, Spans.child⟩

/-- What extends to such a tree is one itself. -/
theorem Spans.of_extends (ht' : c.Spans t') (hext : t.Extends t') : c.Spans t := by
  refine ⟨hext.isGrown ht'.grown, fun i b hb => ?_⟩
  obtain ⟨hi, -⟩ := List.getElem?_eq_some_iff.1 hb
  obtain ⟨more, hmore⟩ := hext.branches
  obtain ⟨model, hstands, htable⟩ := ht'.table i b (by
    rw [← hmore, List.getElem?_append_left hi, hb])
  exact ⟨model, hstands.of_extends hext hi, htable⟩

end Catalog

/-! ### Walks -/

namespace Context

variable {c : Context} {s : Scope} {t t' : JoinTree} {node : Nat} {model : Model} {p : Property}
  {members : List String} {a : Term} {I : JoinTree → Prop}

/-- What a chain of members became: a column of a node, with the members that are left for it. -/
structure Navigates (c : Context) (t : JoinTree) (node : Nat) (last : Property)
    (ending : List String) (a : Term) : Prop where
  property : ∃ model, c.catalog.StandsFor t node model ∧ last ∈ model.properties
  members : scalarMembers (.column (t.aliasOf node) last.columnName) last.type ending = .ok a

theorem Navigates.le {last : Property} {ending : List String}
    (h : c.Navigates t node last ending a) : node ≤ t.branches.length := by
  obtain ⟨model, hstands, -⟩ := h.property
  exact hstands.le

theorem column_navigates {name : String} (hI : c.catalog.Keeps I)
    (hstands : c.catalog.StandsFor t node model) (hp : model.find? name = some p) (ht : I t)
    (h : (column node p members).Runs t a t') :
    t.GrowsBy (· <+: t'.pathOf node) t' ∧ I t' ∧ t'.pathOf node = t.pathOf node ++ [] ∧
      c.Navigates t' node p members a := by
  simp only [column, Walk.runs_bind, Walk.runs_get, Walk.runs_lift] at h
  obtain ⟨_, _, ⟨rfl, rfl⟩, hmembers, rfl⟩ := h
  exact ⟨.refl (hI.rooted ht), ht, (List.append_nil _).symm,
    ⟨model, hstands, List.mem_of_find?_eq_some hp⟩, hmembers⟩

/-- A chain of members of a property of a node becomes a column of the node at the end of its path.
The tree grows only along that path. -/
theorem follow_navigates {name : String} (hI : c.catalog.Keeps I)
    (hstands : c.catalog.StandsFor t node model) (hp : model.find? name = some p) (ht : I t)
    (h : (c.follow node p members).Runs t a t') :
    ∃ path last ending node', c.catalog.navigate? p members = some (path, last, ending) ∧
      t.GrowsBy (· <+: t'.pathOf node') t' ∧ I t' ∧ t'.pathOf node' = t.pathOf node ++ path ∧
      c.Navigates t' node' last ending a := by
  induction members generalizing t node model p name with
  | nil => exact ⟨[], p, [], node, rfl, column_navigates hI hstands hp ht h⟩
  | cons member rest ih =>
    rw [follow] at h
    rw [Catalog.navigate?]
    cases href : p.reference with
    | none =>
      rw [href] at h
      exact ⟨[], p, member :: rest, node, rfl, column_navigates hI hstands hp ht h⟩
    | some reference =>
      simp only [href] at h ⊢
      split at h
      · exact ⟨[], p, member :: rest, node, if_pos ‹_›, column_navigates hI hstands hp ht h⟩
      · next hmember =>
        rw [if_neg hmember]
        split at h
        · next hvalue =>
          rw [if_pos hvalue]
          exact ih hstands hp ht h
        -- The chain goes on at another node, which the tree may have to grow by.
        · next hvalue =>
          rw [if_neg hvalue]
          simp only [Walk.runs_bind, Walk.runs_lift, Walk.runs_walkTo] at h
          obtain ⟨target, _, ⟨htarget, rfl⟩, child, t₁, hchild, next, _, ⟨hnext, rfl⟩, h⟩ := h
          rw [model_eq_ok] at htarget
          rw [Model.property_eq_ok] at hnext
          have hrooted := hI.rooted ht
          obtain ⟨-, -, -, hchildPath⟩ := JoinTree.child_spec hrooted hstands.le hchild
          obtain ⟨path, last, ending, node', hrest, hgrows, ht', hpath, hnavigates⟩ :=
            ih (hstands.child hrooted hp href htarget hchild) hnext
              (hI.child ht hstands hp href htarget hchild) h
          rw [hchildPath] at hpath
          have hon : t.pathOf node ++ [p.name] <+: t'.pathOf node' := ⟨path, hpath.symm⟩
          refine ⟨p.name :: path, last, ending, node', ?_,
            (JoinTree.GrowsBy.child hrooted hstands.le hon hchild).trans hgrows, ht', ?_,
            hnavigates⟩
          · simp [htarget, hnext, hrest]
          · rw [hpath, List.append_assoc, List.singleton_append]

/-- A chain of members of a parameter becomes a column of the node at the end of its path. The tree
grows only along that path. -/
theorem resolve_navigates {name declared : String} (hI : c.catalog.Keeps I) (ht : I t)
    (h : (c.resolve s name declared).Runs t a t') :
    ∃ root path last ending node, c.catalog.find? t.model = some root ∧
      c.catalog.chain? root s.pending = some (path, last, ending) ∧
      t.GrowsBy (· <+: t'.pathOf node) t' ∧ I t' ∧ t'.pathOf node = path ∧
      c.Navigates t' node last ending a := by
  rw [resolve] at h
  cases hbound : s.modelFor? name with
  | none => simp [hbound] at h
  | some bound =>
    simp only [hbound, Walk.runs_bind, Walk.runs_get] at h
    obtain ⟨_, _, ⟨rfl, rfl⟩, h⟩ := h
    split at h
    · simp at h
    · next hmodel =>
      -- The parameter stands for a row of the model that the tree starts from.
      simp only [Walk.runs_bind, Walk.runs_lift] at h
      obtain ⟨root, _, ⟨hroot, rfl⟩, h⟩ := h
      rw [Decidable.not_not.1 hmodel, model_eq_ok] at hroot
      cases hpending : s.pending with
      | nil => simp [hpending] at h
      | cons first rest =>
        simp only [hpending, Walk.runs_bind, Walk.runs_lift] at h
        obtain ⟨property, _, ⟨hproperty, rfl⟩, h⟩ := h
        rw [Model.property_eq_ok] at hproperty
        obtain ⟨path, last, ending, node, hrest, hgrows, ht', hpath, hnavigates⟩ :=
          follow_navigates hI (Catalog.standsFor_root hroot) hproperty ht h
        rw [t.pathOf_root, List.nil_append] at hpath
        refine ⟨root, path, last, ending, node, hroot, ?_, hgrows, ht', hpath, hnavigates⟩
        rw [Catalog.chain?, hproperty]
        exact hrest

end Context

end PredicateSql
