import Mathlib.Data.List.GetD
import Mathlib.Data.List.Induction
import Mathlib.Data.List.Nodup
import Std.Data.String.ToNat
import PredicateSql.Query.JoinTree

/-!
# The growth of a join tree

* `JoinTree.Extends`: a tree has the branches of another one, and perhaps more after them. What is
  known of a node stays true in every extension.
* `JoinTree.child_cases`: a property leads to a branch that is there, or to a new one.
* `JoinTree.IsRooted`: every branch hangs off a node before it. `JoinTree.child` keeps that.
* `JoinTree.pathOf`: the properties that lead from the root to a node.
  `JoinTree.child_spec`: the path to a child is the path to its parent and one property more.
* `JoinTree.GrowsBy`: a tree extends another one, and all paths to its new nodes have a property.
  Growth is put together by `GrowsBy.trans`; one step along a property is `GrowsBy.child`.
* `JoinTree.IsGrown`: moreover, no property of a node leads to two branches.
  `JoinTree.IsGrown.pathOf_inj`: then no two nodes are at the end of one path.
* `JoinTree.row`: the row of a query, given the values at the end of all paths.
-/

namespace PredicateSql.JoinTree

variable {t t' t'' : JoinTree} {node parent : Nat}

/-! ### Extensions -/

/-- A tree with the branches of another one, and perhaps more after them. -/
structure Extends (t t' : JoinTree) : Prop where
  stem : t'.stem = t.stem
  model : t'.model = t.model
  branches : t.branches <+: t'.branches

theorem Extends.refl (t : JoinTree) : t.Extends t :=
  ⟨rfl, rfl, List.prefix_rfl⟩

theorem Extends.trans (h : t.Extends t') (h' : t'.Extends t'') : t.Extends t'' :=
  ⟨h'.stem.trans h.stem, h'.model.trans h.model, h.branches.trans h'.branches⟩

theorem Extends.length_le (h : t.Extends t') : t.branches.length ≤ t'.branches.length :=
  h.branches.length_le

theorem Extends.aliasOf (h : t.Extends t') (node : Nat) : t'.aliasOf node = t.aliasOf node := by
  rw [JoinTree.aliasOf, JoinTree.aliasOf, h.stem]

/-- Two nodes never share an alias. -/
theorem aliasOf_inj : t.aliasOf node = t.aliasOf parent ↔ node = parent := by
  constructor
  · intro h
    -- The stem is the same, so the digits are.
    have hdigits : (toString node).toList = (toString parent).toList := by
      have hlists := congrArg String.toList h
      rw [aliasOf, aliasOf, String.toList_append, String.toList_append] at hlists
      exact List.append_cancel_left hlists
    exact Nat.repr_injective (String.toList_injective hdigits)
  · rintro rfl
    rfl

/-! ### Paths -/

/-- The paths to the nodes of a tree, in the order of the nodes. -/
def pathsOf (branches : List Branch) : List (List String) :=
  branches.foldl (fun paths b => paths ++ [paths.getD b.parent [] ++ [b.property]]) [[]]

/-- The names of the properties that lead from the root to a node. -/
def pathOf (t : JoinTree) (node : Nat) : List String :=
  (pathsOf t.branches).getD node []

/-- Every branch hangs off a node that was found before it. -/
def IsRooted (t : JoinTree) : Prop :=
  ∀ (i : Nat) (b : Branch), t.branches[i]? = some b → b.parent ≤ i

theorem pathsOf_concat (branches : List Branch) (b : Branch) :
    pathsOf (branches ++ [b]) =
      pathsOf branches ++ [(pathsOf branches).getD b.parent [] ++ [b.property]] := by
  rw [pathsOf, List.foldl_append]
  rfl

theorem length_pathsOf (branches : List Branch) :
    (pathsOf branches).length = branches.length + 1 := by
  induction branches using List.reverseRecOn with
  | nil => rfl
  | append_singleton branches b ih => simp [pathsOf_concat, ih]

theorem pathsOf_prefix {branches branches' : List Branch} (h : branches <+: branches') :
    pathsOf branches <+: pathsOf branches' := by
  obtain ⟨more, rfl⟩ := h
  induction more using List.reverseRecOn with
  | nil => simp
  | append_singleton more b ih =>
    rw [← List.append_assoc, pathsOf_concat]
    exact ih.trans (List.prefix_append _ _)

/-- No property leads to the root. -/
theorem pathOf_root (t : JoinTree) : t.pathOf 0 = [] := by
  obtain ⟨more, hmore⟩ := pathsOf_prefix (List.nil_prefix : [] <+: t.branches)
  rw [pathOf, ← hmore]
  rfl

/-- The path to a node is the same in every extension. -/
theorem Extends.pathOf (h : t.Extends t') (hnode : node ≤ t.branches.length) :
    t'.pathOf node = t.pathOf node := by
  have hlt : node < (pathsOf t.branches).length := by
    rw [length_pathsOf]
    omega
  obtain ⟨more, hmore⟩ := pathsOf_prefix h.branches
  rw [JoinTree.pathOf, JoinTree.pathOf, ← hmore, List.getD_append _ _ _ _ hlt]

/-- The path to a branch is that of its parent and the property of the branch. -/
theorem pathOf_branch {i : Nat} {b : Branch} (hrooted : t.IsRooted)
    (hb : t.branches[i]? = some b) : t.pathOf (i + 1) = t.pathOf b.parent ++ [b.property] := by
  obtain ⟨hi, rfl⟩ := List.getElem?_eq_some_iff.1 hb
  have hsplit : t.branches = (t.branches.take i ++ [t.branches[i]]) ++ t.branches.drop (i + 1) := by
    rw [List.append_assoc, List.singleton_append, List.getElem_cons_drop, List.take_append_drop]
  have hlength : (pathsOf (t.branches.take i)).length = i + 1 := by
    rw [length_pathsOf, List.length_take]
    omega
  -- The paths up to a branch do not depend on the branches after it.
  obtain ⟨more, hmore⟩ : pathsOf (t.branches.take i ++ [t.branches[i]]) <+: pathsOf t.branches :=
    pathsOf_prefix ⟨_, hsplit.symm⟩
  rw [pathsOf_concat, List.append_assoc] at hmore
  have hparent : t.branches[i].parent < (pathsOf (t.branches.take i)).length := by
    have := hrooted i _ hb
    omega
  rw [pathOf, pathOf, ← hmore, List.getD_append_right _ _ _ _ (by omega), hlength, Nat.sub_self,
    List.getD_append _ _ _ _ hparent]
  rfl

/-! ### Children -/

theorem isRooted_ofModel (root : Model) (stem : String) : (ofModel root stem).IsRooted := by
  intro i b hb
  simp [ofModel] at hb

/-- The child of a node by a property is the node of a branch that was there, or of a new one. -/
theorem child_cases {property : Property} {target : Model}
    (h : t.child parent property target = (node, t')) :
    (∃ i b, t.branches[i]? = some b ∧ b.parent = parent ∧ b.property = property.name ∧
      node = i + 1 ∧ t' = t) ∨
    ((∀ b ∈ t.branches, b.parent = parent → b.property ≠ property.name) ∧
      node = t.branches.length + 1 ∧
      t' = { t with branches := t.branches ++ [branch parent property target] }) := by
  rw [child] at h
  split at h
  · next found hfound =>
    obtain ⟨rfl, rfl⟩ := Prod.mk.inj h
    obtain ⟨i, hi, rfl⟩ := Option.map_eq_some_iff.1 hfound
    obtain ⟨hlt, hfind, -⟩ := List.findIdx?_eq_some_iff_getElem.1 hi
    rw [Bool.and_eq_true, beq_iff_eq, beq_iff_eq] at hfind
    exact .inl ⟨i, _, List.getElem?_eq_getElem hlt, hfind.1, hfind.2, rfl, rfl⟩
  · next hnone =>
    obtain ⟨rfl, rfl⟩ := Prod.mk.inj h
    rw [find?, Option.map_eq_none_iff, List.findIdx?_eq_none_iff] at hnone
    refine .inr ⟨fun b hb hparent hproperty => ?_, rfl, rfl⟩
    have hother := hnone b hb
    simp [hparent, hproperty] at hother

/-- Where there is one more branch, a branch is that one or was there before. -/
theorem eq_of_getElem?_concat {branches : List Branch} {b b' : Branch} {i : Nat}
    (h : (branches ++ [b])[i]? = some b') :
    branches[i]? = some b' ∨ i = branches.length ∧ b' = b := by
  rcases Nat.lt_or_ge i branches.length with hi | hi
  · rw [List.getElem?_append_left hi] at h
    exact .inl h
  · rw [List.getElem?_append_right hi, List.getElem?_singleton] at h
    split at h
    · exact .inr ⟨by omega, (Option.some.inj h).symm⟩
    · cases h

/-- One more branch that hangs off a node. -/
theorem IsRooted.concat {b : Branch} (hrooted : t.IsRooted) (hb : b.parent ≤ t.branches.length) :
    IsRooted { t with branches := t.branches ++ [b] } := by
  intro i b' hb'
  rcases eq_of_getElem?_concat hb' with hb' | ⟨rfl, rfl⟩
  · exact hrooted i b' hb'
  · exact hb

/-- A child of a node is at the end of the path that leads on by one property. -/
theorem child_spec {property : Property} {target : Model} (hrooted : t.IsRooted)
    (hparent : parent ≤ t.branches.length) (h : t.child parent property target = (node, t')) :
    t.Extends t' ∧ t'.IsRooted ∧ node ≤ t'.branches.length ∧
      t'.pathOf node = t.pathOf parent ++ [property.name] := by
  rcases child_cases h with ⟨i, b, hb, rfl, hproperty, rfl, rfl⟩ | ⟨-, rfl, rfl⟩
  · refine ⟨.refl t', hrooted, (List.getElem?_eq_some_iff.1 hb).1, ?_⟩
    rw [pathOf_branch hrooted hb, hproperty]
  · have hext : t.Extends { t with branches := t.branches ++ [branch parent property target] } :=
      ⟨rfl, rfl, List.prefix_append _ _⟩
    have hrooted' := hrooted.concat (b := branch parent property target) hparent
    refine ⟨hext, hrooted', by simp, ?_⟩
    rw [pathOf_branch hrooted' (List.getElem?_concat_length ..)]
    exact congrArg (· ++ [property.name]) (hext.pathOf hparent)

/-- Only nodes have children in a rooted tree. -/
theorem le_of_child {property : Property} {target : Model} (hrooted : t'.IsRooted)
    (h : t.child parent property target = (node, t')) : parent ≤ t.branches.length := by
  rcases child_cases h with ⟨i, b, hb, rfl, -, -, rfl⟩ | ⟨-, -, rfl⟩
  · have hle := hrooted i b hb
    have hi := (List.getElem?_eq_some_iff.1 hb).1
    omega
  · exact hrooted t.branches.length _ (List.getElem?_concat_length ..)

/-! ### Growth along paths -/

variable {P Q : List String → Prop}

/-- A tree extends another one, and the paths to its new nodes satisfy `P`. -/
structure GrowsBy (P : List String → Prop) (t t' : JoinTree) : Prop where
  grows : t.Extends t'
  rooted : t'.IsRooted
  path : ∀ node, t.branches.length < node → node ≤ t'.branches.length → P (t'.pathOf node)

namespace GrowsBy

theorem refl (ht : t.IsRooted) : GrowsBy P t t :=
  ⟨.refl t, ht, fun _ hlt hle => absurd hlt (Nat.not_lt.2 hle)⟩

theorem mono (h : GrowsBy P t t') (hP : ∀ path, P path → Q path) : GrowsBy Q t t' :=
  ⟨h.grows, h.rooted, fun node hlt hle => hP _ (h.path node hlt hle)⟩

theorem trans (h : GrowsBy P t t') (h' : GrowsBy P t' t'') : GrowsBy P t t'' := by
  refine ⟨h.grows.trans h'.grows, h'.rooted, fun node hlt hle => ?_⟩
  -- A node is new in the second step, or was new in the first one and has kept its path.
  by_cases hnode : node ≤ t'.branches.length
  · rw [h'.grows.pathOf hnode]
    exact h.path node hlt hnode
  · exact h'.path node (by omega) hle

/-- One step along a property. -/
theorem child {parent node : Nat} {property : Property} {target : Model} (ht : t.IsRooted)
    (hparent : parent ≤ t.branches.length) (hP : P (t.pathOf parent ++ [property.name]))
    (h : t.child parent property target = (node, t')) : GrowsBy P t t' := by
  obtain ⟨hext, hrooted, -, hpath⟩ := child_spec ht hparent h
  refine ⟨hext, hrooted, fun node' hlt hle => ?_⟩
  rcases child_cases h with ⟨_, _, _, _, _, _, rfl⟩ | ⟨-, hnode, hgrown⟩
  · omega
  · have hlength : t'.branches.length = t.branches.length + 1 := by simp [hgrown]
    obtain rfl : node' = node := by omega
    rw [hpath]
    exact hP

end GrowsBy

/-! ### Nodes and paths -/

/-- No property of a node leads to two branches. -/
def IsDistinct (t : JoinTree) : Prop :=
  (t.branches.map fun b => (b.parent, b.property)).Nodup

/-- A tree that was found from its root on, each node once. -/
structure IsGrown (t : JoinTree) : Prop where
  rooted : t.IsRooted
  distinct : t.IsDistinct

theorem isGrown_ofModel (root : Model) (stem : String) : (ofModel root stem).IsGrown :=
  ⟨isRooted_ofModel root stem, List.nodup_nil⟩

/-- A branch is added only if there is none for its property yet. -/
theorem IsDistinct.child {property : Property} {target : Model} (h : t.IsDistinct)
    (hchild : t.child parent property target = (node, t')) : t'.IsDistinct := by
  rcases child_cases hchild with ⟨_, _, _, _, _, _, rfl⟩ | ⟨hnone, -, rfl⟩
  · exact h
  · rw [IsDistinct, List.map_append, List.map_singleton, ← List.concat_eq_append]
    refine List.Nodup.concat (fun hmem => ?_) h
    obtain ⟨b, hb, heq⟩ := List.mem_map.1 hmem
    obtain ⟨hparent, hproperty⟩ := Prod.mk.inj heq
    exact hnone b hb hparent hproperty

/-- The way to a child keeps a tree grown. -/
theorem IsGrown.child {property : Property} {target : Model} (h : t.IsGrown)
    (hparent : parent ≤ t.branches.length) (hchild : t.child parent property target = (node, t')) :
    t'.IsGrown :=
  ⟨(child_spec h.rooted hparent hchild).2.1, h.distinct.child hchild⟩

/-- What a grown tree extends was grown before. -/
theorem Extends.isGrown (h : t.Extends t') (ht' : t'.IsGrown) : t.IsGrown := by
  obtain ⟨more, hmore⟩ := h.branches
  refine ⟨fun i b hb => ht'.rooted i b ?_, ?_⟩
  · rw [← hmore]
    exact List.getElem?_append_left (List.getElem?_eq_some_iff.1 hb).1 ▸ hb
  · have hdistinct := ht'.distinct
    rw [IsDistinct, ← hmore, List.map_append] at hdistinct
    exact hdistinct.of_append_left

/-- A node other than the root has a parent before it, and a property that leads to it. -/
theorem IsRooted.exists_branch {i : Nat} (h : t.IsRooted) (hi : i + 1 ≤ t.branches.length) :
    ∃ b, t.branches[i]? = some b ∧ b.parent ≤ i ∧
      t.pathOf (i + 1) = t.pathOf b.parent ++ [b.property] := by
  have hb : t.branches[i]? = some t.branches[i] := List.getElem?_eq_getElem hi
  exact ⟨_, hb, h i _ hb, pathOf_branch h hb⟩

/-- No two nodes are at the end of one path. -/
theorem IsGrown.pathOf_inj (h : t.IsGrown) {other : Nat} (hnode : node ≤ t.branches.length)
    (hother : other ≤ t.branches.length) : t.pathOf node = t.pathOf other ↔ node = other := by
  refine ⟨fun heq => ?_, fun heq => by rw [heq]⟩
  -- Both paths end with the properties of the nodes, which hang off parents with one path.
  induction node using Nat.strongRecOn generalizing other with
  | ind node ih =>
    cases node with
    | zero =>
      cases other with
      | zero => rfl
      | succ j =>
        obtain ⟨b, -, -, hpath⟩ := h.rooted.exists_branch hother
        rw [pathOf_root, hpath] at heq
        simp at heq
    | succ i =>
      obtain ⟨b, hb, hbi, hpath⟩ := h.rooted.exists_branch hnode
      cases other with
      | zero =>
        rw [pathOf_root, hpath] at heq
        simp at heq
      | succ j =>
        obtain ⟨b', hb', hbj, hpath'⟩ := h.rooted.exists_branch hother
        rw [hpath, hpath'] at heq
        obtain ⟨hparents, hproperty⟩ := List.append_inj' heq rfl
        have hparent := ih b.parent (by omega) (by omega) (by omega) hparents
        have hkeys : (t.branches.map fun b => (b.parent, b.property))[i]? =
            (t.branches.map fun b => (b.parent, b.property))[j]? := by
          rw [List.getElem?_map, List.getElem?_map, hb, hb', Option.map_some, Option.map_some,
            hparent, List.singleton_inj.1 hproperty]
        have hi : i < (t.branches.map fun b => (b.parent, b.property)).length := by
          rw [List.length_map]
          omega
        rw [(List.getElem?_inj hi h.distinct).1 hkeys]

/-! ### Rows -/

/-- The node of an alias. -/
def nodeOf? (t : JoinTree) (aliasName : String) : Option Nat :=
  (List.range (t.branches.length + 1)).find? fun node => t.aliasOf node = aliasName

/-- The row of a query: each alias is read at the end of the path that leads to it. -/
def row (t : JoinTree) (values : List String → String → Value) : String → String → Value :=
  fun aliasName column =>
    match t.nodeOf? aliasName with
    | some node => values (t.pathOf node) column
    | none => .null

theorem nodeOf?_aliasOf (hnode : node ≤ t.branches.length) :
    t.nodeOf? (t.aliasOf node) = some node := by
  rw [nodeOf?, List.find?_range_eq_some, List.mem_range]
  refine ⟨by simp, by omega, fun other hother => ?_⟩
  have hne : t.aliasOf other ≠ t.aliasOf node := fun h => by
    have := aliasOf_inj.1 h
    omega
  simpa using hne

theorem row_aliasOf {values : List String → String → Value} {column : String}
    (hnode : node ≤ t.branches.length) :
    t.row values (t.aliasOf node) column = values (t.pathOf node) column := by
  rw [row, nodeOf?_aliasOf hnode]

end PredicateSql.JoinTree
