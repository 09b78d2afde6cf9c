import PredicateSql.Proofs.Query.Composition
import PredicateSql.Proofs.Query.Effects

/-!
# Pages and their counts

A page of rows and the number of all rows are two requests with one filter.

* `Compiler.Follows`: the paths that a request follows apart from its filter, by the keys of its
  order and by its include graph.
* `Compiler.orderKeys_grow`: the keys of an order grow the tree only along such paths, and so does
  a projection (`Compiler.projection_includes`).
* `Compiler.build_counting`: so the count for a request has its filter and its first joins, and all
  other joins of the request are at the end of such paths.
-/

namespace PredicateSql

/-! ### Joins -/

namespace JoinTree

variable {t t' : JoinTree}

theorem Extends.join (h : t.Extends t') : t'.join = t.join := by
  funext b node
  rw [JoinTree.join, JoinTree.join, h.aliasOf, h.aliasOf]

/-- The joins of a tree come first among those of its extensions. -/
theorem Extends.joins (h : t.Extends t') :
    ∃ more, t'.joins = t.joins ++ more ∧ ∀ j ∈ more, ∃ node, t.branches.length < node ∧
      node ≤ t'.branches.length ∧ j.aliasName = t'.aliasOf node := by
  obtain ⟨branches, hbranches⟩ := h.branches
  refine ⟨(branches.zipIdx (1 + t.branches.length)).map fun x => t'.join x.1 x.2, ?_,
    fun j hj => ?_⟩
  · rw [JoinTree.joins, JoinTree.joins, ← hbranches, List.zipIdx_append, List.map_append, h.join]
  · obtain ⟨⟨b, node⟩, hmem, rfl⟩ := List.mem_map.1 hj
    obtain ⟨hle, hlt, -⟩ := List.mem_zipIdx hmem
    have hlength : t'.branches.length = t.branches.length + branches.length := by
      rw [← hbranches, List.length_append]
    exact ⟨node, by omega, by omega, rfl⟩

end JoinTree

/-! ### Growth by walks -/

namespace Context

variable {c : Context} {s : Scope} {base : JoinTree} {root : Model} {P : List String → Prop}

/-- The trees that a tree has grown to along some paths. -/
def Grown (c : Context) (base : JoinTree) (P : List String → Prop) (t : JoinTree) : Prop :=
  c.catalog.Spans t ∧ base.GrowsBy P t

/-- The path of a chain of members is among those that satisfy `P`, and so is all of the way. -/
def Allows (c : Context) (root : Model) (P : List String → Prop) (x : Expr.MemberChain) : Prop :=
  ∀ path last ending, c.catalog.chain? root x.members = some (path, last, ending) →
    ∀ new, new <+: path → P new

theorem resolve_within {x : Expr.MemberChain} (hroot : c.catalog.find? base.model = some root)
    (hP : c.Allows root P x) :
    (c.resolve x.scope x.param.name x.param.model).Within True (c.Grown base P) := by
  refine ⟨fun {t a t'} ⟨hspans, hgrown⟩ h => ?_, fun _ _ _ _ => trivial⟩
  obtain ⟨root', path, last, ending, node, hroot', hchain, hgrows, hspans', hpath, -⟩ :=
    resolve_navigates Catalog.keeps_spans hspans h
  rw [hgrown.grows.model, hroot] at hroot'
  obtain rfl := Option.some.inj hroot'
  refine ⟨hspans', hgrown.trans (hgrows.mono fun new hnew => ?_)⟩
  rw [hpath] at hnew
  exact hP path last ending hchain new hnew

theorem term_grows {e : Expr} (hroot : c.catalog.find? base.model = some root)
    (hP : ∀ x ∈ e.chains s.binders s.pending, c.Allows root P x) :
    (c.term s e).Within True (c.Grown base P) :=
  c.term_within e s (fun _ => trivial) fun x hx => resolve_within hroot (hP x hx)

theorem keyTerm_grows {key : Expr} (hroot : c.catalog.find? base.model = some root)
    (hP : ∀ x ∈ key.chains [] [], c.Allows root P x) :
    (c.keyTerm key).Within True (c.Grown base P) := by
  unfold keyTerm
  split
  · next params body =>
    unfold Scope.enter
    split
    · exact term_grows hroot hP
    · exact Walk.Within.throw fun _ => trivial
  · exact term_grows hroot hP

end Context

/-! ### Requests -/

/-- The request for the number of rows that a request selects from, whatever page of them it asks
for. -/
def Request.counting (r : Request) : Request :=
  { model := r.model, select := .count, filter := r.filter }

namespace Compiler

variable {c : Compiler} {r : Request} {q : Sql.Query} {root : Model}

/-- The paths that a request follows apart from its filter: on the way of a chain of members in a
key of its order, or along the relations of its include graph. -/
inductive Follows (c : Compiler) (r : Request) (root : Model) (path : List String) : Prop
  | key {o : OrderKey} {x : Expr.MemberChain} {whole ending : List String} {last : Property}
    (hselect : r.select.isOrdered = true) (ho : o ∈ r.order) (hx : x ∈ o.key.chains [] [])
    (hchain : c.context.catalog.chain? root x.members = some (whole, last, ending))
    (hpath : path <+: whole)
  | relation (hselect : r.select.isOrdered = true) (h : (r.graph.getD .all).Leads path)

theorem orderKeys_grow {base : JoinTree} {P : List String → Prop} {keys : List OrderKey}
    (hroot : c.context.catalog.find? base.model = some root)
    (hP : ∀ o ∈ keys, ∀ x ∈ o.key.chains [] [], c.context.Allows root P x) :
    (c.orderKeys keys).Within True (c.context.Grown base P) := by
  induction keys with
  | nil => exact Walk.Within.pure _
  | cons o rest ih =>
    obtain ⟨hfirst, hrest⟩ := List.forall_mem_cons.1 hP
    unfold orderKeys
    refine (Context.keyTerm_grows hroot hfirst).bind fun key => ?_
    exact (ih hrest).bind fun _ => Walk.Within.pure _

/-- What comes after the filter of a query grows its tree only along the paths that the request
follows. -/
theorem growsBy_of_build (h : c.build r = .ok q) :
    ∃ root t, c.context.model r.model = .ok root ∧
      (c.filter r.filter).Runs (.ofModel root c.aliasStem) q.filter t ∧
      t.GrowsBy (c.Follows r root) (c.joinTree r) := by
  obtain ⟨root, filter, t, order, t', projection, hmodel, hfilter, horder, hprojection, rfl⟩ :=
    build_eq_ok_iff.1 h
  obtain ⟨hext, hspans, -⟩ := filter_composes _ _ _ _ (Catalog.spans_ofModel _ _) hfilter
  have hfound := Context.model_eq_ok.1 hmodel
  have hroot : c.context.catalog.find? t.model = some root := by
    rw [hext.model, JoinTree.ofModel, Catalog.name_of_find? hfound, hfound]
  refine ⟨root, t, hmodel, hfilter, ?_⟩
  -- First the keys of the order, then the include graph.
  have hkeys : ∀ o ∈ (if r.select.isOrdered then r.order else []), ∀ x ∈ o.key.chains [] [],
      c.context.Allows root (c.Follows r root) x := by
    intro o ho x hx whole last ending hchain path hpath
    split at ho
    · next hselect => exact .key hselect ho hx hchain hpath
    · cases ho
  obtain ⟨hspans', hgrows⟩ := (orderKeys_grow hroot hkeys).keeps
    ⟨hspans, .refl hspans.grown.rooted⟩ horder
  have hroot' : c.context.catalog.find? t'.model = some root := by rw [hgrows.grows.model, hroot]
  obtain ⟨hgrows', -, -⟩ := projection_includes hspans' hroot' hprojection
  refine hgrows.trans (hgrows'.mono fun path hpath => ?_)
  obtain ⟨hselect, hleads⟩ := hpath
  exact .relation hselect hleads

/-- The filter of a request decides its count. -/
theorem build_counting_of_runs {filter : Option Sql.Term} {t : JoinTree}
    (hmodel : c.context.model r.model = .ok root)
    (hfilter : (c.filter r.filter).Runs (.ofModel root c.aliasStem) filter t) :
    c.build r.counting = .ok {
      projection := .count
      table := root.tableName
      aliasName := t.aliasOf 0
      joins := t.joins
      filter
      order := []
      limit := none
      offset := none } := by
  unfold build
  rw [show c.context.model r.counting.model = .ok root from hmodel]
  refine congrArg Prod.fst (?_ : (c.assemble root r.counting).Runs _ _ t)
  simp only [assemble, Walk.runs_bind, Walk.runs_get, Walk.runs_pure]
  -- After the filter, neither the order nor the projection has anything to walk.
  exact ⟨filter, t, hfilter, [], t, Walk.runs_pure.2 ⟨rfl, rfl⟩, .count, t,
    Walk.runs_pure.2 ⟨rfl, rfl⟩, t, t, ⟨rfl, rfl⟩, rfl, rfl⟩

/-- The count for a request that is built is built, too. It differs from the request in what comes
after the filter: it has no order and no page, and of the joins it has the first ones. All others
are at the end of a path that the order or the include graph of the request follows. -/
theorem build_counting (h : c.build r = .ok q) :
    ∃ root shared more, c.context.model r.model = .ok root ∧
      c.build r.counting = .ok { q with
        projection := .count, joins := shared, order := [], limit := none, offset := none } ∧
      q.joins = shared ++ more ∧
      ∀ j ∈ more, ∃ node, (c.joinTree r).nodeOf? j.aliasName = some node ∧
        c.Follows r root ((c.joinTree r).pathOf node) := by
  obtain ⟨root, t, hmodel, hfilter, hgrows⟩ := growsBy_of_build h
  obtain ⟨-, root', hmodel', hq⟩ := composedOver_of_build h
  obtain rfl := Except.ok.inj (hmodel.symm.trans hmodel')
  obtain ⟨more, hmore, hnew⟩ := hgrows.grows.joins
  refine ⟨root, t.joins, more, hmodel, ?_, by rw [hq.joins, hmore], fun j hj => ?_⟩
  · rw [build_counting_of_runs hmodel hfilter, hq.aliasName, hq.table, hgrows.grows.aliasOf]
  · obtain ⟨node, hlt, hle, halias⟩ := hnew j hj
    exact ⟨node, by rw [halias, JoinTree.nodeOf?_aliasOf hle], hgrows.path node hlt hle⟩

/-- The second page of the people with a grown-up friend, ordered by the friend of their friend. -/
def pagedRequest : Request where
  model := "Person"
  filter := some (.lambda [⟨"p", "Person"⟩]
    (.binary .greaterOrEqual (.memberOf (.memberOf (.param "p" "Person") "Friend") "Age")
      (.ofValue (.int 18))))
  order := [⟨.lambda [⟨"p", "Person"⟩]
    (.memberOf (.memberOf (.memberOf (.param "p" "Person") "Friend") "Friend") "Id"), true⟩]
  skip := some 10
  take := some 10
  graph := some (.node none [("Friend", .ofColumns ["Id"])])

/-- The count needs one join of two, and the other one is for the order. -/
theorem build_counting_page :
    ∃ q first second, sample.build pagedRequest = .ok q ∧ q.joins = [first, second] ∧
      sample.build pagedRequest.counting = .ok { q with
        projection := .count, joins := [first], order := [], limit := none, offset := none } ∧
      sample.Follows pagedRequest samplePerson ["Friend", "Friend"] := by
  obtain ⟨q, first, second, hq, hjoins, halias, hcount⟩ : ∃ q first second,
      sample.build pagedRequest = .ok q ∧ q.joins = [first, second] ∧ second.aliasName = "t2" ∧
      (sample.build pagedRequest.counting).map (·.joins) = .ok [first] :=
    ⟨_, _, _, rfl, rfl, rfl, rfl⟩
  obtain ⟨root, shared, more, hroot, hcounting, hsplit, hmore⟩ := build_counting hq
  rw [hcounting] at hcount
  obtain rfl : shared = [first] := Except.ok.inj hcount
  obtain rfl : more = [second] := by simpa [hjoins] using hsplit.symm
  obtain ⟨node, hnode, hfollows⟩ := hmore second List.mem_cons_self
  obtain rfl : samplePerson = root := Except.ok.inj hroot
  obtain rfl : 2 = node := by
    rw [halias] at hnode
    exact Option.some.inj hnode
  exact ⟨q, first, second, hq, hjoins, hcounting, hfollows⟩

end Compiler

end PredicateSql
