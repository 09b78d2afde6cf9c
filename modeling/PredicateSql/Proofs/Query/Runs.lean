import PredicateSql.Proofs.Query.JoinTree
import PredicateSql.Query.Compiler

/-!
# Runs of walks

* `Walk.Runs`: a walk succeeds from a tree on, with a result and a tree. The lemmas `runs_pure`,
  `runs_bind` and so on take a walk apart into the runs of its parts.
* `Walk.Always`: what all results of a walk have in common, with a rule for each way to put walks
  together.
* `Walk.Agree`: two walks that both succeed from one tree leave the same tree, and results that
  stand in a relation. `Agree.bind` puts such pairs of walks together.
* `Walk.Yields`: wherever a walk succeeds, it extends the tree and its result has a property in the
  tree that it leaves. `Yields.bind` puts walks together whose results stay what they are in every
  extension.
* `Compiler.build_eq_ok_iff`: a query is built by the runs of three walks.
-/

namespace PredicateSql.Walk

variable {α β γ δ : Type} {t t' t'' : JoinTree}

/-! ### Runs -/

/-- The walk finds `a` from the tree `t` on, and leaves the tree `t'`. -/
def Runs (w : Walk α) (t : JoinTree) (a : α) (t' : JoinTree) : Prop :=
  (w.run t : Except QueryError α × JoinTree) = (.ok a, t')

@[simp] theorem runs_pure {a b : α} : (pure a : Walk α).Runs t b t' ↔ a = b ∧ t = t' := by
  show ((.ok a, t) : Except QueryError α × JoinTree) = (.ok b, t') ↔ _
  rw [Prod.mk.injEq, Except.ok.injEq]

@[simp] theorem runs_throw {e : QueryError} {b : α} : ¬ (throw e : Walk α).Runs t b t' := by
  show ¬ ((.error e, t) : Except QueryError α × JoinTree) = (.ok b, t')
  simp

@[simp] theorem runs_lift {x : Except QueryError α} {a : α} :
    (liftM x : Walk α).Runs t a t' ↔ x = .ok a ∧ t = t' := by
  show ((x, t) : Except QueryError α × JoinTree) = (.ok a, t') ↔ _
  rw [Prod.mk.injEq]

@[simp] theorem lift_ok {a : α} : (liftM (Except.ok a : Except QueryError α) : Walk α) = pure a :=
  rfl

@[simp] theorem runs_get {a : JoinTree} : (get : Walk JoinTree).Runs t a t' ↔ t = a ∧ t = t' := by
  show ((.ok t, t) : Except QueryError JoinTree × JoinTree) = (.ok a, t') ↔ _
  rw [Prod.mk.injEq, Except.ok.injEq]

@[simp] theorem runs_walkTo {parent node : Nat} {p : Property} {m : Model} :
    (walkTo parent p m).Runs t node t' ↔ t.child parent p m = (node, t') := by
  show ((.ok (t.child parent p m).1, (t.child parent p m).2) :
    Except QueryError Nat × JoinTree) = (.ok node, t') ↔ _
  rw [Prod.mk.injEq, Except.ok.injEq, Prod.ext_iff]

/-- A walk that fails leaves nothing for the second one to run from. -/
theorem run_bind (w : Walk α) (f : α → Walk β) (t : JoinTree) :
    ((w >>= f).run t : Except QueryError β × JoinTree) =
      match (w.run t : Except QueryError α × JoinTree) with
      | (.ok a, s) => (f a).run s
      | (.error e, s) => (.error e, s) := by
  show (match (w.run t : Except QueryError α × JoinTree) with
    | (r, s) => (ExceptT.bindCont f r : StateM JoinTree _) s) = _
  rcases (w.run t : Except QueryError α × JoinTree) with ⟨_ | _, _⟩ <;> rfl

@[simp] theorem runs_bind {w : Walk α} {f : α → Walk β} {b : β} :
    (w >>= f).Runs t b t'' ↔ ∃ a t', w.Runs t a t' ∧ (f a).Runs t' b t'' := by
  unfold Runs
  rw [run_bind]
  rcases (w.run t : Except QueryError α × JoinTree) with ⟨e | a, s⟩
  · constructor
    · rintro ⟨⟩
    · rintro ⟨_, _, ⟨⟩, _⟩
  · constructor
    · intro h
      exact ⟨a, s, rfl, h⟩
    · rintro ⟨_, _, ⟨⟩, hf⟩
      exact hf

/-- A run is determined by its walk and the tree that it starts from. -/
theorem Runs.unique {w : Walk α} {a b : α} (h : w.Runs t a t') (h' : w.Runs t b t'') :
    a = b ∧ t' = t'' := by
  have heq := h.symm.trans h'
  rwa [Prod.mk.injEq, Except.ok.injEq] at heq

/-! ### Results of walks -/

section Results

variable {P : α → Prop} {Q : β → Prop}

/-- All results of the walk have the property. -/
def Always (P : α → Prop) (w : Walk α) : Prop :=
  ∀ t a t', w.Runs t a t' → P a

theorem Always.pure {a : α} (h : P a) : Always P (Pure.pure a) := by
  intro t b t' hb
  obtain ⟨rfl, -⟩ := runs_pure.1 hb
  exact h

theorem Always.throw {e : QueryError} : Always P (MonadExcept.throw e) :=
  fun _ _ _ h => (runs_throw h).elim

theorem Always.bind {w : Walk α} {f : α → Walk β} (h : Always P w)
    (hf : ∀ a, P a → Always Q (f a)) : Always Q (w >>= f) := by
  intro t b t' hb
  obtain ⟨a, t₁, ha, hb⟩ := runs_bind.1 hb
  exact hf a (h t a t₁ ha) t₁ b t' hb

/-- Whatever the first walk finds. -/
theorem Always.after {w : Walk α} {f : α → Walk β} (hf : ∀ a, Always Q (f a)) :
    Always Q (w >>= f) := by
  have hw : Always (fun _ => True) w := fun _ _ _ _ => trivial
  exact hw.bind fun a _ => hf a

theorem Always.ite {p : Prop} [Decidable p] {w v : Walk α} (hw : Always P w) (hv : Always P v) :
    Always P (if p then w else v) := by
  split
  · exact hw
  · exact hv

end Results

/-! ### Pairs of walks -/

/-- Where both walks succeed from one tree, they leave one tree, and their results stand in the
relation `R`. -/
def Agree (R : α → β → Prop) (w : Walk α) (v : Walk β) : Prop :=
  ∀ t a t' b t'', w.Runs t a t' → v.Runs t b t'' → t' = t'' ∧ R a b

variable {R : α → β → Prop} {S : γ → δ → Prop}

namespace Agree

theorem refl {R : α → α → Prop} {w : Walk α} (h : ∀ a, R a a) : Agree R w w := by
  intro t a t' b t'' ha hb
  obtain ⟨rfl, rfl⟩ := ha.unique hb
  exact ⟨rfl, h a⟩

theorem mono {R' : α → β → Prop} {w : Walk α} {v : Walk β} (h : Agree R w v)
    (hR : ∀ a b, R a b → R' a b) : Agree R' w v := by
  intro t a t' b t'' ha hb
  obtain ⟨ht, hab⟩ := h t a t' b t'' ha hb
  exact ⟨ht, hR a b hab⟩

theorem symm {w : Walk α} {v : Walk β} (h : Agree R w v) : Agree (fun b a => R a b) v w := by
  intro t b t' a t'' hb ha
  obtain ⟨ht, hab⟩ := h t a t'' b t' ha hb
  exact ⟨ht.symm, hab⟩

theorem pure {a : α} {b : β} (h : R a b) : Agree R (Pure.pure a) (Pure.pure b) := by
  intro t a' t' b' t'' ha hb
  obtain ⟨rfl, rfl⟩ := runs_pure.1 ha
  obtain ⟨rfl, rfl⟩ := runs_pure.1 hb
  exact ⟨rfl, h⟩

theorem throw {e : QueryError} {v : Walk β} : Agree R (throw e) v :=
  fun _ _ _ _ _ h _ => (runs_throw h).elim

theorem bind {w : Walk α} {v : Walk β} {f : α → Walk γ} {g : β → Walk δ} (h : Agree R w v)
    (hfg : ∀ a b, R a b → Agree S (f a) (g b)) : Agree S (w >>= f) (v >>= g) := by
  intro t c t' d t'' hc hd
  obtain ⟨a, s, ha, hc⟩ := runs_bind.1 hc
  obtain ⟨b, s', hb, hd⟩ := runs_bind.1 hd
  obtain ⟨rfl, hab⟩ := h t a s b s' ha hb
  exact hfg a b hab s c t' d t'' hc hd

/-- Two walks that start with the same walk. -/
theorem bind_same {w : Walk α} {f : α → Walk γ} {g : α → Walk δ}
    (hfg : ∀ a, Agree S (f a) (g a)) : Agree S (w >>= f) (w >>= g) :=
  bind (refl fun _ => rfl) fun a b hab => by
    subst hab
    exact hfg a

theorem ite {c : Prop} [Decidable c] {w w' : Walk α} {v v' : Walk β} (h : c → Agree R w v)
    (h' : ¬ c → Agree R w' v') : Agree R (if c then w else w') (if c then v else v') := by
  split
  · exact h ‹_›
  · exact h' ‹_›

end Agree

/-! ### Walks that extend the tree -/

section Extension

variable {I : JoinTree → Prop} {P : JoinTree → α → Prop} {Q : JoinTree → β → Prop}

/-- Wherever the walk succeeds from a tree with the invariant `I`, it extends the tree and keeps the
invariant, and its result satisfies `P` in the tree that it leaves. -/
def Yields (w : Walk α) (I : JoinTree → Prop) (P : JoinTree → α → Prop) : Prop :=
  ∀ t a t', I t → w.Runs t a t' → t.Extends t' ∧ I t' ∧ P t' a

/-- What holds in a tree holds in every extension. -/
def Stable (P : JoinTree → α → Prop) : Prop :=
  ∀ t t' a, t.Extends t' → P t a → P t' a

namespace Yields

theorem mono {P' : JoinTree → α → Prop} {w : Walk α} (h : w.Yields I P)
    (hP : ∀ t a, P t a → P' t a) : w.Yields I P' := by
  intro t a t' ht ha
  obtain ⟨hext, hI, hpost⟩ := h t a t' ht ha
  exact ⟨hext, hI, hP t' a hpost⟩

theorem pure {b : β} (h : ∀ t, Q t b) : (Pure.pure b : Walk β).Yields I Q := by
  intro t a t' ht ha
  obtain ⟨rfl, rfl⟩ := runs_pure.1 ha
  exact ⟨JoinTree.Extends.refl t, ht, h t⟩

theorem throw {e : QueryError} : (MonadExcept.throw e : Walk β).Yields I Q :=
  fun _ _ _ _ ha => (runs_throw ha).elim

theorem lift {x : Except QueryError β} (h : ∀ b, x = .ok b → ∀ t, Q t b) :
    (liftM x : Walk β).Yields I Q := by
  intro t a t' ht ha
  obtain ⟨hx, rfl⟩ := runs_lift.1 ha
  exact ⟨JoinTree.Extends.refl t, ht, h a hx t⟩

/-- What the first walk yields is still there when the second one is done. -/
theorem bind {w : Walk α} {f : α → Walk β} (hstable : Stable P) (h : w.Yields I P)
    (hf : ∀ a, (f a).Yields I fun t b => P t a → Q t b) : (w >>= f).Yields I Q := by
  intro t b t'' ht hb
  obtain ⟨a, t', ha, hb⟩ := runs_bind.1 hb
  obtain ⟨hext, hI, hpost⟩ := h t a t' ht ha
  -- The second walk starts from the tree of the first one and may extend it once more.
  obtain ⟨hext', hI', hpost'⟩ := hf a t' b t'' hI hb
  exact ⟨hext.trans hext', hI', hpost' (hstable t' t'' a hext' hpost)⟩

/-- A computation that does not look at the tree comes first. -/
theorem lift_bind {x : Except QueryError α} {f : α → Walk β}
    (hf : ∀ a, x = .ok a → (f a).Yields I Q) : ((liftM x : Walk α) >>= f).Yields I Q := by
  intro t b t'' ht hb
  obtain ⟨a, t', ha, hb⟩ := runs_bind.1 hb
  obtain ⟨hx, rfl⟩ := runs_lift.1 ha
  exact hf a hx t b t'' ht hb

theorem ite {c : Prop} [Decidable c] {w w' : Walk β} (h : c → w.Yields I Q)
    (h' : ¬ c → w'.Yields I Q) : (if c then w else w').Yields I Q := by
  split
  · exact h ‹_›
  · exact h' ‹_›

end Yields

end Extension

end PredicateSql.Walk

/-! ### Conditions -/

namespace PredicateSql

/-- The body of a lambda with one parameter. -/
def Scope.over (p : Param) : Scope :=
  { binders := [(p.name, p.model)] }

/-- The term of an expression in the place of a condition. -/
def Context.condition (c : Context) (s : Scope) (e : Expr) : Walk Sql.Term :=
  asCondition s e (c.term s e)

theorem Context.withMembers_nil {c : Context} {s : Scope} {e : Expr} {w : Walk Sql.Term}
    (hs : s.pending = []) : c.withMembers s e w = w := by
  rw [withMembers, hs]

end PredicateSql

/-! ### Queries -/

namespace PredicateSql.Compiler

/-- The filter of a lambda is its body in the place of a condition. -/
theorem runs_filter_lambda {c : Compiler} {p : Param} {e : Expr} {f : Option Sql.Term}
    {t t' : JoinTree} : (c.filter (some (.lambda [p] e))).Runs t f t' ↔
      ∃ a, (c.context.condition (Scope.over p) e).Runs t a t' ∧ f = some a.unparenthesized := by
  have hterm : c.context.term {} (.lambda [p] e) = c.context.condition (Scope.over p) e := rfl
  rw [filter, hterm]
  simp only [Walk.runs_bind, Walk.runs_pure]
  constructor
  · rintro ⟨a, _, ha, rfl, rfl⟩
    exact ⟨a, ha, rfl⟩
  · rintro ⟨a, ha, rfl⟩
    exact ⟨a, t', ha, rfl, rfl⟩

/-- The tree that the query for a request is built over. -/
def joinTree (c : Compiler) (r : Request) : JoinTree :=
  match c.context.model r.model with
  | .ok root => ((c.assemble root r).run (.ofModel root c.aliasStem)).2
  | .error _ => default

theorem build_eq_ok_iff_assemble {c : Compiler} {r : Request} {q : Sql.Query} :
    c.build r = .ok q ↔ ∃ root, c.context.model r.model = .ok root ∧
      (c.assemble root r).Runs (.ofModel root c.aliasStem) q (c.joinTree r) := by
  unfold build joinTree Walk.Runs
  cases c.context.model r.model with
  | error e => simp [bind, Except.bind]
  | ok root =>
    simp only [bind, Except.bind, Except.ok.injEq, exists_eq_left']
    constructor
    · intro h
      exact Prod.ext h rfl
    · intro h
      exact congrArg Prod.fst h

/-- A query is built by three walks, one after the other: for the filter, for the order and for
the projection. -/
theorem build_eq_ok_iff {c : Compiler} {r : Request} {q : Sql.Query} :
    c.build r = .ok q ↔ ∃ root filter t order t' projection,
      c.context.model r.model = .ok root ∧
      (c.filter r.filter).Runs (.ofModel root c.aliasStem) filter t ∧
      (c.orderKeys (if r.select.isOrdered then r.order else [])).Runs t order t' ∧
      (c.projection root r).Runs t' projection (c.joinTree r) ∧
      q = {
        projection
        table := root.tableName
        aliasName := (c.joinTree r).aliasOf 0
        joins := (c.joinTree r).joins
        filter
        order
        limit := (r.select.paging r.skip r.take).1
        offset := (r.select.paging r.skip r.take).2 } := by
  rw [build_eq_ok_iff_assemble]
  refine exists_congr fun root => ?_
  simp only [assemble, Walk.runs_bind, Walk.runs_get, Walk.runs_pure]
  constructor
  · rintro ⟨hroot, filter, t, hfilter, order, t', horder, projection, t'', hprojection, _, _,
      ⟨rfl, rfl⟩, rfl, rfl⟩
    exact ⟨filter, t, order, t', projection, hroot, hfilter, horder, hprojection, rfl⟩
  · rintro ⟨filter, t, order, t', projection, hroot, hfilter, horder, hprojection, rfl⟩
    exact ⟨hroot, filter, t, hfilter, order, t', horder, projection, _, hprojection, _, _,
      ⟨rfl, rfl⟩, rfl, rfl⟩

/-- Nothing of a filter and of the keys of an order but their walks matters to the query. -/
theorem build_congr {c : Compiler} {r : Request} {filter filter' : Option Expr}
    {order order' : List OrderKey} (hfilter : c.filter filter = c.filter filter')
    (horder : c.orderKeys order = c.orderKeys order') :
    c.build { r with filter := filter, order := order } =
      c.build { r with filter := filter', order := order' } := by
  have hassemble : ∀ root, c.assemble root { r with filter := filter, order := order } =
      c.assemble root { r with filter := filter', order := order' } := by
    intro root
    unfold assemble
    cases r.select.isOrdered with
    | false =>
      simp only [hfilter, Bool.false_eq_true, if_false]
      rfl
    | true =>
      simp only [hfilter, horder, if_true]
      rfl
  unfold build
  simp only [hassemble]

/-! ### A sample -/

/-- People who may have a friend. -/
def samplePerson : Model where
  name := "Person"
  table := some "people"
  properties := [
    { name := "Id", type := .int },
    { name := "Age", type := .int, nullable := true },
    { name := "IsActive", type := .bool },
    { name := "Friend", type := .model "Person", nullable := true, column := some "FriendId",
      reference := some ⟨"Person", "Id"⟩ }]

/-- A compiler for queries over people. -/
def sample : Compiler where
  context := { catalog := ⟨[samplePerson], List.pairwise_singleton _ _⟩, evaluator := default }

end PredicateSql.Compiler
