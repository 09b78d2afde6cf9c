import PredicateSql.Proofs.Query.Composition

/-!
# Aliases and paths

* `Compiler.Uses`: a path that something in a request follows, and the alias that it gets.
* `Query.WellScoped`: no alias is given twice, every join refers to an alias before it, and every
  column is one of the table that its alias stands for. Aliases and paths are the same thing.
* `Compiler.wellScoped_of_build`: so it is with every query.
-/

namespace PredicateSql

open Sql (Term SelectColumn)

/-! ### Definitions -/

namespace Sql.Query

/-- The aliases of a query, the root first. -/
def aliases (q : Query) : List String :=
  q.aliasName :: q.joins.map Join.aliasName

/-- The aliases of a query and the tables that they stand for. -/
def tables (q : Query) : List (String × String) :=
  (q.aliasName, q.table) :: q.joins.map fun j => (j.aliasName, j.table)

end Sql.Query

namespace Compiler

/-- A path from the root along references, which something in a request follows while its query is
built, and the alias that it gets for it. -/
inductive Uses (c : Compiler) (r : Request) : List String → String → Prop
  /-- A chain of members of a parameter in a filter or an order, resolved in a tree on the way to
  that of the query. -/
  | chain {root : Model} {s : Scope} {name declared : String} {a : Term} {t₀ t₁ : JoinTree}
    {path ending : List String} {last : Property} {table column : String}
    (hroot : c.context.model r.model = .ok root) (h₀ : t₀.Extends (c.joinTree r))
    (h : (c.context.resolve s name declared).Runs t₀ a t₁) (h₁ : t₁.Extends (c.joinTree r))
    (hpath : c.context.catalog.chain? root s.pending = some (path, last, ending))
    (hcolumn : (Term.column table column).IsPartOf a) : Uses c r path table
  /-- A relation of the include graph, or the root of the graph. -/
  | relation {root model : Model} {node : Nat} {path : List String} {below : IncludeGraph}
    (hroot : c.context.model r.model = .ok root)
    (h : c.context.Includes (c.joinTree r) root (r.graph.getD .all) node model path below) :
    Uses c r path ((c.joinTree r).aliasOf node)

/-- A column is used with the alias of a path, and it holds a property of the model that the path
leads to. In the query, the alias stands for the table of that model. -/
def UsesColumn (c : Compiler) (r : Request) (q : Sql.Query) (table column : String) : Prop :=
  ∃ root path model, c.context.model r.model = .ok root ∧ c.Uses r path table ∧
    c.context.catalog.reach? root path = some model ∧ (table, model.tableName) ∈ q.tables ∧
    ∃ p ∈ model.properties, column = p.columnName

end Compiler

/-- The aliases of a query are in order. -/
structure Sql.Query.WellScoped (q : Sql.Query) (c : Compiler) (r : Request) : Prop where
  distinct : q.aliases.Nodup
  /-- A join is made to the root or to a join before it. -/
  parents : ∀ (i : Nat) (j : Sql.Join), q.joins[i]? = some j →
    j.parentAlias ∈ q.aliases.take (i + 1)
  /-- The columns of the filter and of the order, at any depth. -/
  columns : ∀ table column, q.HasPart (.column table column) → c.UsesColumn r q table column
  projection : ∀ columns, q.projection = .columns columns →
    ∀ x ∈ columns, c.UsesColumn r q x.table x.name
  /-- In all clauses, one path has one alias, and one alias has one path. -/
  paths : ∀ path path' table table', c.Uses r path table → c.Uses r path' table' →
    (table = table' ↔ path = path')

/-! ### Nodes -/

/-- Members add no columns to a term. -/
theorem isPartOf_of_scalarMembers {members : List String} {a b : Term} {type : ValueType}
    {table column : String} (h : scalarMembers a type members = .ok b)
    (hb : (Term.column table column).IsPartOf b) : (Term.column table column).IsPartOf a := by
  let col := Term.column table column
  have hoperand : ∀ {x y : Term}, y.operands = [x] → col ≠ y → col.IsPartOf y → col.IsPartOf x := by
    intro x y hoperands hne hpart
    obtain ⟨d, hd, hpart⟩ := (Term.isPartOf_iff.1 hpart).resolve_left hne
    rw [hoperands, List.mem_singleton] at hd
    exact hd ▸ hpart
  refine scalarMembers_induction (P := fun x => col.IsPartOf x → col.IsPartOf a) h id
    (fun x hx hpart => hx ?_) (fun x hx hpart => hx ?_) hb
  · exact hoperand (y := .call "LENGTH" [x]) rfl nofun hpart
  · exact hoperand (y := .isNull x .notEqualsNull) rfl nofun hpart

namespace Context

variable {c : Context} {s : Scope} {tree t₀ t₁ : JoinTree} {root : Model} {a : Term}

/-- A column that was found for a chain is one of the node at the end of the path of the chain. -/
theorem node_of_resolve {name declared table column : String} (htree : c.catalog.Spans tree)
    (hroot : c.catalog.find? tree.model = some root) (h₀ : t₀.Extends tree)
    (h : (c.resolve s name declared).Runs t₀ a t₁) (h₁ : t₁.Extends tree)
    (hcolumn : (Term.column table column).IsPartOf a) :
    ∃ node model last ending,
      c.catalog.chain? root s.pending = some (tree.pathOf node, last, ending) ∧
      c.catalog.StandsFor tree node model ∧ table = tree.aliasOf node ∧
      last ∈ model.properties ∧ column = last.columnName := by
  obtain ⟨root', path, last, ending, node, hroot', hchain, -, -, hpath, hnavigates⟩ :=
    resolve_navigates Catalog.keeps_spans (htree.of_extends h₀) h
  rw [← h₀.model, hroot] at hroot'
  obtain rfl := Option.some.inj hroot'
  obtain ⟨model, hstands, hlast⟩ := hnavigates.property
  refine ⟨node, model, last, ending, ?_, hstands.extends h₁, ?_⟩
  · rw [hchain, h₁.pathOf hstands.le, hpath]
  · rcases Term.isPartOf_iff.1 (isPartOf_of_scalarMembers hnavigates.members hcolumn) with
      heq | ⟨_, hoperand, -⟩
    · obtain ⟨rfl, rfl⟩ := Term.column.inj heq
      exact ⟨(h₁.aliasOf node).symm, hlast, rfl⟩
    · cases hoperand

/-- A node that an include graph brings along is the one at the end of its path. -/
theorem Includes.node {node : Nat} {model : Model} {graph below : IncludeGraph}
    {path : List String} (htree : c.catalog.Spans tree)
    (hroot : c.catalog.find? tree.model = some root)
    (h : c.Includes tree root graph node model path below) :
    c.catalog.StandsFor tree node model ∧ path = tree.pathOf node := by
  induction h with
  | root => exact ⟨Catalog.standsFor_root hroot, tree.pathOf_root.symm⟩
  | relation _ _ hproperty href htarget h₀ hwalk h₁ ih =>
    obtain ⟨hstands, rfl⟩ := ih
    rw [Walk.runs_walkTo] at hwalk
    -- The parent was there before the child was looked for.
    have hle := JoinTree.le_of_child (h₁.isGrown htree.grown).rooted hwalk
    have hrooted := (h₀.isGrown htree.grown).rooted
    have hchild := (hstands.of_extends h₀ hle).child hrooted (Model.property_eq_ok.1 hproperty)
      href (model_eq_ok.1 htarget) hwalk
    obtain ⟨-, -, hchildLe, hpath⟩ := JoinTree.child_spec hrooted hle hwalk
    exact ⟨hchild.extends h₁, by rw [h₁.pathOf hchildLe, hpath, h₀.pathOf hle]⟩

end Context

/-! ### Queries -/

namespace Sql.Query.ComposedOver

variable {q : Sql.Query} {c : Context} {root model : Model} {graph : IncludeGraph} {tree : JoinTree}
  {node : Nat}

/-- The aliases of a query are those of the nodes of its tree, in their order. -/
theorem aliases_eq (h : q.ComposedOver c root graph tree) :
    q.aliases = (List.range (tree.branches.length + 1)).map tree.aliasOf := by
  have hjoins : tree.joins.map Join.aliasName =
      ((tree.branches.zipIdx 1).map Prod.snd).map tree.aliasOf := by
    rw [JoinTree.joins, List.map_map, List.map_map]
    rfl
  rw [aliases, h.aliasName, h.joins, hjoins, List.zipIdx_map_snd, List.range_eq_range',
    List.range'_succ, List.map_cons]

theorem getElem?_joins {i : Nat} (h : q.ComposedOver c root graph tree) :
    q.joins[i]? = (tree.branches[i]?).map fun b => tree.join b (i + 1) := by
  rw [h.joins, JoinTree.joins, List.getElem?_map, List.getElem?_zipIdx, Option.map_map,
    Nat.add_comm 1 i]
  rfl

/-- The alias of a node stands for the table of the model that the node stands for. -/
theorem mem_tables (h : q.ComposedOver c root graph tree)
    (hstands : c.catalog.StandsFor tree node model) :
    (tree.aliasOf node, model.tableName) ∈ q.tables := by
  cases node with
  | zero =>
    obtain rfl := hstands.unique (Catalog.standsFor_root h.found)
    rw [tables, h.aliasName, h.table]
    exact List.mem_cons_self
  | succ i =>
    obtain ⟨b, hb, -⟩ := h.spans.grown.rooted.exists_branch hstands.le
    obtain ⟨model', hstands', htable⟩ := h.spans.table i b hb
    obtain rfl := hstands.unique hstands'
    have hjoin := h.getElem?_joins (i := i)
    rw [hb, Option.map_some] at hjoin
    refine List.mem_cons_of_mem _ (List.mem_map.2 ⟨_, List.mem_of_getElem? hjoin, ?_⟩)
    rw [JoinTree.join, htable]

end Sql.Query.ComposedOver

namespace Compiler

variable {c : Compiler} {r : Request} {q : Sql.Query} {root : Model}

/-- What follows a path gets the alias of the node at its end. -/
theorem Uses.node {path : List String} {table : String} (hroot : c.context.model r.model = .ok root)
    (hq : q.ComposedOver c.context root (r.graph.getD .all) (c.joinTree r))
    (h : c.Uses r path table) : ∃ node ≤ (c.joinTree r).branches.length,
      path = (c.joinTree r).pathOf node ∧ table = (c.joinTree r).aliasOf node := by
  cases h with
  | chain hroot' h₀ hrun h₁ hpath hcolumn =>
    obtain rfl := Except.ok.inj (hroot'.symm.trans hroot)
    obtain ⟨node, model, last, ending, hchain, hstands, rfl, -, -⟩ :=
      Context.node_of_resolve hq.spans hq.found h₀ hrun h₁ hcolumn
    rw [hpath] at hchain
    exact ⟨node, hstands.le, (Prod.mk.inj (Option.some.inj hchain)).1, rfl⟩
  | relation hroot' hincludes =>
    obtain rfl := Except.ok.inj (hroot'.symm.trans hroot)
    obtain ⟨hstands, hpath⟩ := hincludes.node hq.spans hq.found
    exact ⟨_, hstands.le, hpath, rfl⟩

/-- A column of the node at the end of a path that is used. -/
theorem usesColumn_of_node {node : Nat} {model : Model} {p : Property}
    (hroot : c.context.model r.model = .ok root)
    (hq : q.ComposedOver c.context root (r.graph.getD .all) (c.joinTree r))
    (hstands : c.context.catalog.StandsFor (c.joinTree r) node model) (hp : p ∈ model.properties)
    (huses : c.Uses r ((c.joinTree r).pathOf node) ((c.joinTree r).aliasOf node)) :
    c.UsesColumn r q ((c.joinTree r).aliasOf node) p.columnName := by
  obtain ⟨root', hroot', hreach⟩ := hstands.reach
  obtain rfl := Option.some.inj (hroot'.symm.trans hq.found)
  exact ⟨root', _, model, hroot, huses, hreach, hq.mem_tables hstands, p, hp, rfl⟩

theorem usesColumn_of_hasPart {table column : String} (h : c.build r = .ok q)
    (hpart : q.HasPart (.column table column)) : c.UsesColumn r q table column := by
  obtain ⟨-, root, hroot, hq⟩ := composedOver_of_build h
  obtain ⟨b, hb, heq⟩ := composes_of_hasPart h hpart
  obtain rfl : Term.column table column = b := by
    rcases heq with heq | heq
    · exact heq
    · cases b <;> cases heq
      rfl
  cases hb with
  | column _ h₀ hrun h₁ hcolumn =>
    obtain ⟨node, model, last, ending, hchain, hstands, htable, hlast, rfl⟩ :=
      Context.node_of_resolve hq.spans hq.found h₀ hrun h₁ hcolumn
    have huses := Uses.chain hroot h₀ hrun h₁ hchain hcolumn
    rw [htable] at huses ⊢
    exact usesColumn_of_node hroot hq hstands hlast huses

/-- The aliases of a query are distinct, its joins come in order, its columns belong to the tables
that their aliases stand for, and whatever follows one path, in whichever clause, gets one alias:
one that nothing with another path gets. -/
theorem wellScoped_of_build (h : c.build r = .ok q) : q.WellScoped c r := by
  obtain ⟨-, root, hroot, hq⟩ := composedOver_of_build h
  constructor
  · rw [hq.aliases_eq]
    exact List.Nodup.map (fun _ _ => JoinTree.aliasOf_inj.1) List.nodup_range
  · intro i j hj
    rw [hq.getElem?_joins] at hj
    obtain ⟨b, hb, rfl⟩ := Option.map_eq_some_iff.1 hj
    have hparent := hq.spans.grown.rooted i b hb
    have hi := (List.getElem?_eq_some_iff.1 hb).1
    rw [hq.aliases_eq, ← List.map_take, List.take_range]
    exact List.mem_map.2 ⟨b.parent, List.mem_range.2 (by omega), rfl⟩
  · exact fun table column => usesColumn_of_hasPart h
  · intro columns hcolumns x hx
    obtain ⟨node, model, path, below, hincludes, htable, p, hp, hname⟩ :=
      hq.projection columns hcolumns x hx
    obtain ⟨hstands, rfl⟩ := hincludes.node hq.spans hq.found
    rw [htable, hname]
    exact usesColumn_of_node hroot hq hstands hp (.relation hroot hincludes)
  · intro path path' table table' huses huses'
    obtain ⟨node, hnode, rfl, rfl⟩ := huses.node hroot hq
    obtain ⟨node', hnode', rfl, rfl⟩ := huses'.node hroot hq
    rw [JoinTree.aliasOf_inj, hq.spans.grown.pathOf_inj hnode hnode']

/-- The people who are younger than the friend of their friend, by the number of the friend, with
the numbers of both. -/
def friendsRequest : Request where
  model := "Person"
  filter := some (.lambda [⟨"p", "Person"⟩]
    (.binary .greater
      (.memberOf (.memberOf (.memberOf (.param "p" "Person") "Friend") "Friend") "Age")
      (.memberOf (.param "p" "Person") "Age")))
  order := [⟨.lambda [⟨"p", "Person"⟩]
    (.memberOf (.memberOf (.param "p" "Person") "Friend") "Id"), false⟩]
  graph := some (.node (some ["Id"])
    [("Friend", .node (some ["Id"]) [("Friend", .ofColumns ["Id"])])])

/-- Filter, order and projection share two joins. -/
theorem wellScoped_of_build_sample :
    ∃ q, sample.build friendsRequest = .ok q ∧ q.aliases = ["t0", "t1", "t2"] ∧
      q.projection = .columns [⟨"t0", "Id", none⟩, ⟨"t1", "Id", some "Friend.Id"⟩,
        ⟨"t2", "Id", some "Friend.Friend.Id"⟩] ∧ q.WellScoped sample friendsRequest := by
  obtain ⟨q, hq, haliases, hcolumns⟩ : ∃ q, sample.build friendsRequest = .ok q ∧
      q.aliases = ["t0", "t1", "t2"] ∧ q.projection = .columns [⟨"t0", "Id", none⟩,
        ⟨"t1", "Id", some "Friend.Id"⟩, ⟨"t2", "Id", some "Friend.Friend.Id"⟩] :=
    ⟨_, rfl, rfl, rfl⟩
  exact ⟨q, hq, haliases, hcolumns, wellScoped_of_build hq⟩

end Compiler

end PredicateSql
