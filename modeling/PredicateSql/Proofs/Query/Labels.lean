import PredicateSql.Proofs.Query.Scoping

/-!
# The columns of a projection

* `Catalog.requested?`: the properties that an include graph asks for, each with the path that leads
  to it, in depth-first order.
* `Compiler.SelectsAt`: the column that a query has for such a property.
* `Context.project_selects`: a projection has one column for each property that is asked for, in
  their order. The induction is on the include graph.
* `Catalog.nodup_requested`: where nothing is listed twice, no two of these properties have one path
  and one name. So their columns are told apart by their names in the result
  (`Compiler.projection_spec`).
-/

namespace PredicateSql

open Sql (Query SelectColumn)

/-- The name of a column in the result. -/
def Sql.SelectColumn.outputName (x : SelectColumn) : String :=
  x.label.getD x.name

/-- The properties that are asked for by name, or all that are serialized. -/
def Model.selected? (model : Model) : Option (List String) → Option (List Property)
  | none => some model.serializable
  | some names => names.mapM model.find?

/-! ### What is asked for -/

namespace Catalog

mutual

/-- The properties that a graph asks for, each with the path to it from a model. Those of a node
come before those of the nodes below it. -/
def requested? (c : Catalog) (model : Model) :
    IncludeGraph → Option (List (List String × Property))
  | .node columns relations => do
    let own ← model.selected? columns
    let below ← c.requestedBelow? model relations
    return own.map (([], ·)) ++ below

/-- The same for the relations of a node. -/
def requestedBelow? (c : Catalog) (model : Model) :
    List (String × IncludeGraph) → Option (List (List String × Property))
  | [] => some []
  | (name, graph) :: rest => do
    let reference ← (← model.find? name).reference
    let below ← c.requested? (← c.find? reference.model) graph
    let more ← c.requestedBelow? model rest
    return below.map (fun (path, p) => (name :: path, p)) ++ more

end

end Catalog

/-- The names along a path to a property. -/
def namesOf (requested : List String × Property) : List String :=
  requested.1 ++ [requested.2.name]

/-- No name of a property has a dot, and no two are the same. -/
structure Model.IsPlain (model : Model) : Prop where
  noDots : ∀ p ∈ model.properties, '.' ∉ p.name.toList
  distinct : (model.properties.map (·.name)).Nodup

/-- No node of a graph lists a column or a relation twice. -/
inductive IncludeGraph.ListsOnce : IncludeGraph → Prop
  | node {columns : Option (List String)} {relations : List (String × IncludeGraph)}
    (hcolumns : ∀ names, columns = some names → names.Nodup)
    (hrelations : (relations.map Prod.fst).Nodup) (hbelow : ∀ r ∈ relations, ListsOnce r.2) :
    ListsOnce (.node columns relations)

/-! ### Labels -/

theorem outputName_selectColumn {table path : String} {p : Property} :
    (Context.selectColumn table path p).outputName = path ++ p.name := by
  unfold Context.selectColumn Sql.SelectColumn.outputName
  dsimp only
  split
  · next h => exact h.symm
  · rfl

/-- Names without dots are read off their path. -/
theorem intercalate_dot_inj {names names' : List String} (h : ∀ n ∈ names, '.' ∉ n.toList)
    (h' : ∀ n ∈ names', '.' ∉ n.toList) (hne : names ≠ []) (hne' : names' ≠ [])
    (heq : ".".intercalate names = ".".intercalate names') : names = names' := by
  have hsplit : ∀ names : List String, (∀ n ∈ names, '.' ∉ n.toList) → names ≠ [] →
      (".".intercalate names).toList.splitOn '.' = names.map String.toList := by
    intro names h hne
    rw [String.toList_intercalate]
    refine List.splitOn_intercalate '.' (fun l hl => ?_) (by simpa using hne)
    obtain ⟨n, hn, rfl⟩ := List.mem_map.1 hl
    exact h n hn
  have hlists := hsplit names h hne
  rw [heq, hsplit names' h' hne'] at hlists
  exact (List.map_injective_iff.2 (fun _ _ => String.toList_injective) hlists).symm

/-! ### Projections -/

namespace Context

variable {c : Context}

/-- A column for a property at the end of a path. -/
structure Selects (c : Context) (tree : JoinTree) (path : List String) (p : Property)
    (x : SelectColumn) : Prop where
  node : ∃ node model, c.catalog.StandsFor tree node model ∧ tree.pathOf node = path ∧
    x.table = tree.aliasOf node ∧ p ∈ model.properties
  name : x.name = p.columnName
  outputName : x.outputName = ".".intercalate (path ++ [p.name])

theorem selected?_of_projected {model : Model} {columns : Option (List String)}
    {properties : List Property} (h : projected model columns = .ok properties) :
    model.selected? columns = some properties := by
  cases columns with
  | none =>
    obtain rfl := Except.ok.inj h
    rfl
  | some names =>
    rw [projected] at h
    rw [Model.selected?]
    induction names generalizing properties with
    | nil =>
      obtain rfl := Except.ok.inj h
      rfl
    | cons name rest ih =>
      rw [List.mapM_cons] at h ⊢
      obtain ⟨p, hp, h⟩ := bind_eq_ok.1 h
      obtain ⟨more, hmore, h⟩ := bind_eq_ok.1 h
      obtain rfl := Except.ok.inj h
      rw [Model.property_eq_ok.1 hp, ih hmore]
      rfl

mutual

/-- A projection has one column for each property that its graph asks for, in their order. -/
theorem project_selects {node : Nat} {model : Model} {path : List String} {label : String}
    {t t' : JoinTree} {columns : List SelectColumn}
    (hlabel : ∀ name, label ++ name = ".".intercalate (path ++ [name])) (ht : c.catalog.Spans t)
    (hstands : c.catalog.StandsFor t node model) (hpath : t.pathOf node = path) :
    ∀ {graph : IncludeGraph}, (c.project node model label graph).Runs t columns t' →
      ∃ requested, c.catalog.requested? model graph = some requested ∧ ∀ {tree}, t'.Extends tree →
        List.Forall₂ (fun r x => c.Selects tree (path ++ r.1) r.2 x) requested columns
  | .node names relations, h => by
    simp only [project, Walk.runs_bind, Walk.runs_get, Walk.runs_lift, Walk.runs_pure] at h
    obtain ⟨_, _, ⟨rfl, rfl⟩, properties, _, ⟨hproperties, rfl⟩, more, t₁, hmore, rfl, rfl⟩ := h
    obtain ⟨hgrows, -⟩ := projectRelations_includes names ht hstands (fun r hr => hr) hmore
    obtain ⟨below, hbelow, hcolumns⟩ := projectRelations_selects hlabel ht hstands hpath hmore
    refine ⟨properties.map (([], ·)) ++ below, ?_, fun hT => ?_⟩
    · rw [Catalog.requested?, selected?_of_projected hproperties, hbelow]
      rfl
    · refine List.rel_append ?_ (hcolumns hT)
      rw [List.forall₂_map_left_iff, List.forall₂_map_right_iff, List.forall₂_same]
      have hext := hgrows.grows.trans hT
      intro p hp
      refine ⟨⟨node, model, hstands.extends hext, ?_, (hext.aliasOf node).symm,
        mem_properties_of_projected hproperties p hp⟩, rfl, ?_⟩
      · rw [hext.pathOf hstands.le, hpath, List.append_nil]
      · rw [outputName_selectColumn, hlabel, List.append_nil]

theorem projectRelations_selects {node : Nat} {model : Model} {path : List String} {label : String}
    {t t' : JoinTree} {columns : List SelectColumn}
    (hlabel : ∀ name, label ++ name = ".".intercalate (path ++ [name])) (ht : c.catalog.Spans t)
    (hstands : c.catalog.StandsFor t node model) (hpath : t.pathOf node = path) :
    ∀ {relations : List (String × IncludeGraph)},
      (c.projectRelations node model label relations).Runs t columns t' →
      ∃ requested, c.catalog.requestedBelow? model relations = some requested ∧
        ∀ {tree}, t'.Extends tree →
          List.Forall₂ (fun r x => c.Selects tree (path ++ r.1) r.2 x) requested columns
  | [], h => by
    obtain ⟨rfl, rfl⟩ := Walk.runs_pure.1 h
    exact ⟨[], rfl, fun _ => .nil⟩
  | (name, below) :: rest, h => by
    simp only [projectRelations, Walk.runs_bind, Walk.runs_lift] at h
    obtain ⟨property, _, ⟨hproperty, rfl⟩, h⟩ := h
    cases href : property.reference with
    | none => simp [href] at h
    | some reference =>
      simp only [href, Walk.runs_bind, Walk.runs_lift, Walk.runs_pure] at h
      obtain ⟨target, _, ⟨htarget, rfl⟩, child, t₁, hchild, own, t₂, hown, more, t₃, hmore, rfl,
        rfl⟩ := h
      have hfind := Model.property_eq_ok.1 hproperty
      have hmodel := model_eq_ok.1 htarget
      have hwalk := Walk.runs_walkTo.1 hchild
      obtain rfl : property.name = name := Model.name_of_find? hfind
      have hrooted := ht.grown.rooted
      obtain ⟨hext, -, -, hchildPath⟩ := JoinTree.child_spec hrooted hstands.le hwalk
      have ht₁ := ht.child hstands hfind href hmodel hwalk
      have hstands₁ := hstands.child hrooted hfind href hmodel hwalk
      obtain ⟨hgrows, ht₂, -⟩ := project_includes ht₁ hstands₁ hown
      -- The label goes on by the name of the relation and a dot.
      have hlabel' : ∀ name, label ++ property.name ++ "." ++ name =
          ".".intercalate (path ++ [property.name] ++ [name]) := by
        intro name
        rw [String.intercalate_append_of_ne_nil (by simp) (by simp), ← hlabel]
        rfl
      obtain ⟨requested, hrequested, hselects⟩ := project_selects hlabel' ht₁ hstands₁
        (by rw [hchildPath, hpath]) hown
      have hext₂ := hext.trans hgrows.grows
      obtain ⟨others, hothers, hselects'⟩ := projectRelations_selects hlabel ht₂
        (hstands.extends hext₂) (by rw [hext₂.pathOf hstands.le, hpath]) hmore
      obtain ⟨hgrows', -⟩ := projectRelations_includes none ht₂ (hstands.extends hext₂)
        (fun r hr => hr) hmore
      refine ⟨requested.map (fun (path, p) => (property.name :: path, p)) ++ others, ?_,
        fun hT => ?_⟩
      · simp only [Catalog.requestedBelow?, Option.bind_eq_bind, hfind, Option.bind_some, href,
          hmodel, hrequested, hothers]
        rfl
      · refine List.rel_append ?_ (hselects' hT)
        rw [List.forall₂_map_left_iff]
        refine (hselects (hgrows'.grows.trans hT)).imp fun r x hx => ?_
        rwa [List.append_assoc, List.singleton_append] at hx

end

end Context

/-! ### Names in the result -/

namespace Catalog

variable {c : Catalog}

/-- The properties that are found by name have these names. -/
theorem names_of_mapM {model : Model} {names : List String} {properties : List Property}
    (h : names.mapM model.find? = some properties) :
    properties.map (·.name) = names ∧ ∀ p ∈ properties, p ∈ model.properties := by
  induction names generalizing properties with
  | nil =>
    obtain rfl := Option.some.inj h
    exact ⟨rfl, nofun⟩
  | cons name rest ih =>
    simp only [List.mapM_cons, Option.bind_eq_bind, Option.bind_eq_some_iff] at h
    obtain ⟨p, hp, more, hmore, h⟩ := h
    obtain rfl := Option.some.inj h
    obtain ⟨hnames, hmem⟩ := ih hmore
    refine ⟨?_, List.forall_mem_cons.2 ⟨List.mem_of_find?_eq_some hp, hmem⟩⟩
    rw [List.map_cons, Model.name_of_find? hp, hnames]

theorem selected?_names {model : Model} {columns : Option (List String)}
    {properties : List Property} (hmodel : model.IsPlain)
    (hcolumns : ∀ names, columns = some names → names.Nodup)
    (h : model.selected? columns = some properties) :
    (properties.map (·.name)).Nodup ∧ ∀ p ∈ properties, p ∈ model.properties := by
  cases columns with
  | none =>
    obtain rfl := Option.some.inj h
    have hsub : model.serializable.Sublist model.properties := List.filter_sublist
    exact ⟨hmodel.distinct.sublist (hsub.map _), hsub.subset⟩
  | some names =>
    obtain ⟨rfl, hmem⟩ := names_of_mapM h
    exact ⟨hcolumns _ rfl, hmem⟩

mutual

/-- No two properties that a graph asks for have one path and one name, and no name has a dot. -/
theorem nodup_requested (hplain : ∀ model ∈ c.models, model.IsPlain) {model : Model}
    (hmodel : model ∈ c.models) {requested : List (List String × Property)} :
    ∀ {graph : IncludeGraph}, graph.ListsOnce → c.requested? model graph = some requested →
      (requested.map namesOf).Nodup ∧ ∀ r ∈ requested, ∀ n ∈ namesOf r, '.' ∉ n.toList
  | .node columns relations, hlists, h => by
    obtain ⟨hcolumns, hrelations, hbelow⟩ := hlists
    simp only [requested?, Option.bind_eq_bind, Option.bind_eq_some_iff] at h
    obtain ⟨own, hown, below, hrequested, h⟩ := h
    obtain rfl := Option.some.inj h
    obtain ⟨hownNodup, hownMem⟩ := selected?_names (hplain model hmodel) hcolumns hown
    obtain ⟨hnodup, hothers⟩ := nodup_requestedBelow hplain hmodel hrelations hbelow hrequested
    have hownNames : (own.map (([], ·))).map namesOf = (own.map (·.name)).map ([·]) := by
      rw [List.map_map, List.map_map]
      rfl
    constructor
    · rw [List.map_append, hownNames]
      refine (hownNodup.map fun _ _ => List.singleton_inj.1).append hnodup
        fun names hmem hmem' => ?_
      -- A path to a property below the node is longer.
      obtain ⟨n, -, rfl⟩ := List.mem_map.1 hmem
      obtain ⟨r, hr, hnames⟩ := List.mem_map.1 hmem'
      obtain ⟨-, name, -, further, hfurther⟩ := hothers r hr
      rw [hfurther] at hnames
      exact absurd (List.cons.inj hnames).2 (List.concat_ne_nil _ _)
    · intro r hr
      rcases List.mem_append.1 hr with hr | hr
      · obtain ⟨p, hp, rfl⟩ := List.mem_map.1 hr
        exact List.forall_mem_singleton.2 ((hplain model hmodel).noDots p (hownMem p hp))
      · exact (hothers r hr).1

theorem nodup_requestedBelow (hplain : ∀ model ∈ c.models, model.IsPlain) {model : Model}
    (hmodel : model ∈ c.models) {requested : List (List String × Property)} :
    ∀ {relations : List (String × IncludeGraph)}, (relations.map Prod.fst).Nodup →
      (∀ r ∈ relations, r.2.ListsOnce) → c.requestedBelow? model relations = some requested →
      (requested.map namesOf).Nodup ∧ ∀ r ∈ requested, (∀ n ∈ namesOf r, '.' ∉ n.toList) ∧
        ∃ name ∈ relations.map Prod.fst, ∃ below, namesOf r = name :: namesOf below
  | [], _, _, h => by
    obtain rfl := Option.some.inj h
    exact ⟨List.nodup_nil, nofun⟩
  | (name, graph) :: rest, hrelations, hlists, h => by
    simp only [requestedBelow?, Option.bind_eq_bind, Option.bind_eq_some_iff] at h
    obtain ⟨p, hp, reference, href, target, htarget, below, hbelow, more, hmore, h⟩ := h
    obtain rfl := Option.some.inj h
    obtain ⟨hgraph, hlists⟩ := List.forall_mem_cons.1 hlists
    obtain ⟨hname, hrest⟩ := List.nodup_cons.1 hrelations
    have hmem : target ∈ c.models := List.mem_of_find?_eq_some htarget
    obtain ⟨hnodup, hdots⟩ := nodup_requested hplain hmem hgraph hbelow
    obtain ⟨hnodup', hothers⟩ := nodup_requestedBelow hplain hmodel hrest hlists hmore
    have hbelowNames : (below.map fun (path, p) => (name :: path, p)).map namesOf =
        (below.map namesOf).map (name :: ·) := by
      rw [List.map_map, List.map_map]
      rfl
    constructor
    · rw [List.map_append, hbelowNames]
      refine (hnodup.map fun _ _ => List.cons_inj_right name |>.1).append hnodup'
        fun names hmem hmem' => ?_
      -- What is found through another relation starts with another name.
      obtain ⟨tail, -, rfl⟩ := List.mem_map.1 hmem
      obtain ⟨r, hr, hnames⟩ := List.mem_map.1 hmem'
      obtain ⟨-, other, hother, further, hfurther⟩ := hothers r hr
      rw [hfurther] at hnames
      exact hname ((List.cons.inj hnames).1 ▸ hother)
    · intro r hr
      rcases List.mem_append.1 hr with hr | hr
      · obtain ⟨further, hfurther, rfl⟩ := List.mem_map.1 hr
        refine ⟨List.forall_mem_cons.2 ⟨?_, hdots _ hfurther⟩, name, List.mem_cons_self, further,
          rfl⟩
        rw [← Model.name_of_find? hp]
        exact (hplain model hmodel).noDots p (List.mem_of_find?_eq_some hp)
      · obtain ⟨hdots', other, hother, further, hfurther⟩ := hothers r hr
        exact ⟨hdots', other, List.mem_cons_of_mem _ hother, further, hfurther⟩

end

end Catalog

/-! ### Queries -/

namespace Compiler

variable {c : Compiler} {r : Request} {q : Query}

/-- The column that a query has for a property at the end of a path: one of the node that the path
leads to, under the names along the path, with dots between them. -/
structure SelectsAt (c : Compiler) (r : Request) (q : Query) (path : List String) (p : Property)
    (x : SelectColumn) : Prop where
  /-- The alias stands for the table of the model that the path leads to. -/
  node : ∃ node model, c.context.catalog.StandsFor (c.joinTree r) node model ∧
    (c.joinTree r).pathOf node = path ∧ x.table = (c.joinTree r).aliasOf node ∧
    (x.table, model.tableName) ∈ q.tables ∧ p ∈ model.properties
  name : x.name = p.columnName
  outputName : x.outputName = ".".intercalate (path ++ [p.name])

/-- The projection is the last walk of a query, and goes on over the tree of the others. -/
theorem project_of_build (h : c.build r = .ok q) (hordered : r.select.isOrdered = true) :
    ∃ root t columns, c.context.model r.model = .ok root ∧ c.context.catalog.Spans t ∧
      c.context.catalog.find? t.model = some root ∧ q.projection = .columns columns ∧
      (c.context.project 0 root "" (r.graph.getD .all)).Runs t columns (c.joinTree r) := by
  obtain ⟨root, filter, t, order, t', projection, hroot, hfilter, horder, hprojection, rfl⟩ :=
    build_eq_ok_iff.1 h
  obtain ⟨hext, ht, -⟩ := filter_composes _ _ _ _ (Catalog.spans_ofModel _ _) hfilter
  obtain ⟨hext', ht', -⟩ := orderKeys_compose _ _ _ _ ht horder
  have hfound := Context.model_eq_ok.1 hroot
  have hmodel : c.context.catalog.find? t'.model = some root := by
    rw [(hext.trans hext').model, JoinTree.ofModel, Catalog.name_of_find? hfound, hfound]
  unfold Compiler.projection at hprojection
  cases hselect : r.select with
  | count | any =>
    rw [hselect] at hordered
    cases hordered
  | many | first | single =>
    simp only [hselect, Walk.runs_bind, Walk.runs_pure] at hprojection
    obtain ⟨columns, _, hcolumns, rfl, rfl⟩ := hprojection
    exact ⟨root, t', columns, hroot, ht', hmodel, rfl, hcolumns⟩

/-- A query with rows has exactly one column for each property that its include graph asks for, in
depth-first order. Its alias is that of the path to the property, its name is that of the column of
the property, and in the result it is called by the path and the name of the property. Where neither
the graph lists anything twice nor the names of the properties can be confused, all of these are
different. -/
theorem projection_spec (h : c.build r = .ok q) (hordered : r.select.isOrdered = true)
    (hplain : ∀ model ∈ c.context.catalog.models, model.IsPlain)
    (hgraph : (r.graph.getD .all).ListsOnce) :
    ∃ root requested columns, c.context.model r.model = .ok root ∧
      c.context.catalog.requested? root (r.graph.getD .all) = some requested ∧
      q.projection = .columns columns ∧
      List.Forall₂ (fun (path, p) x => c.SelectsAt r q path p x) requested columns ∧
      (columns.map (·.outputName)).Nodup := by
  obtain ⟨root, t, columns, hroot, ht, hmodel, hcolumns, hruns⟩ := project_of_build h hordered
  obtain ⟨-, root', hroot', hq⟩ := composedOver_of_build h
  obtain rfl := Except.ok.inj (hroot'.symm.trans hroot)
  have hlabel (name : String) : "" ++ name = ".".intercalate ([] ++ [name]) := by
    rw [String.empty_append]
    exact String.intercalate_singleton.symm
  obtain ⟨requested, hrequested, hselects⟩ := Context.project_selects hlabel ht
    (Catalog.standsFor_root hmodel) t.pathOf_root hruns
  have hselects := hselects (.refl _)
  refine ⟨root', requested, columns, hroot, hrequested, hcolumns, hselects.imp ?_, ?_⟩
  · rintro ⟨path, p⟩ x ⟨⟨node, model, hstands, hpath, htable, hp⟩, hname, houtput⟩
    refine ⟨⟨node, model, hstands, hpath, htable, ?_, hp⟩, hname, houtput⟩
    rw [htable]
    exact hq.mem_tables hstands
  · obtain ⟨hnodup, hdots⟩ := Catalog.nodup_requested hplain
      (List.mem_of_find?_eq_some (Context.model_eq_ok.1 hroot)) hgraph hrequested
    have houtputs : columns.map (·.outputName) =
        (requested.map namesOf).map (".".intercalate ·) := by
      rw [List.map_map, ← List.forall₂_eq_eq_eq, List.forall₂_map_left_iff,
        List.forall₂_map_right_iff]
      exact hselects.flip.imp fun x r hx => hx.outputName
    rw [houtputs]
    refine List.Nodup.map_on (fun names hnames names' hnames' heq => ?_) hnodup
    obtain ⟨r₁, hr₁, rfl⟩ := List.mem_map.1 hnames
    obtain ⟨r₂, hr₂, rfl⟩ := List.mem_map.1 hnames'
    exact intercalate_dot_inj (hdots r₁ hr₁) (hdots r₂ hr₂) (List.concat_ne_nil _ _)
      (List.concat_ne_nil _ _) heq

/-- People with their friends, and the friends of these. -/
theorem projection_spec_friends :
    ∃ q requested columns, sample.build friendsRequest = .ok q ∧ q.projection = .columns columns ∧
      sample.context.catalog.requested? samplePerson (friendsRequest.graph.getD .all) =
        some requested ∧
      List.Forall₂ (fun (path, p) x => sample.SelectsAt friendsRequest q path p x)
        requested columns ∧
      columns.map (·.outputName) = ["Id", "Friend.Id", "Friend.Friend.Id"] := by
  have honce : ∀ {relations : List (String × IncludeGraph)}, (relations.map Prod.fst).Nodup →
      (∀ r ∈ relations, r.2.ListsOnce) →
      (IncludeGraph.node (some ["Id"]) relations).ListsOnce := by
    refine fun hrelations hbelow => .node (fun names hnames => ?_) hrelations hbelow
    obtain rfl := Option.some.inj hnames
    exact List.nodup_singleton _
  have hgraph : (friendsRequest.graph.getD .all).ListsOnce :=
    honce (by decide) (List.forall_mem_singleton.2
      (honce (by decide) (List.forall_mem_singleton.2 (honce (by decide) nofun))))
  have hplain : ∀ model ∈ sample.context.catalog.models, model.IsPlain :=
    List.forall_mem_singleton.2 ⟨by decide, by decide⟩
  obtain ⟨q, hq, hprojection⟩ : ∃ q, sample.build friendsRequest = .ok q ∧
      q.projection = .columns [⟨"t0", "Id", none⟩, ⟨"t1", "Id", some "Friend.Id"⟩,
        ⟨"t2", "Id", some "Friend.Friend.Id"⟩] := ⟨_, rfl, rfl⟩
  obtain ⟨root, requested, columns, hroot, hrequested, hcolumns, hselects, -⟩ :=
    projection_spec hq rfl hplain hgraph
  obtain rfl : samplePerson = root := Except.ok.inj hroot
  obtain rfl := Sql.Projection.columns.inj (hcolumns.symm.trans hprojection)
  exact ⟨q, requested, _, hq, hcolumns, hrequested, hselects, rfl⟩

end Compiler

end PredicateSql
