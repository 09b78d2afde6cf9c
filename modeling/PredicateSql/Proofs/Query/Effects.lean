import PredicateSql.Proofs.Query.Failures
import PredicateSql.Proofs.Query.Runs

/-!
# What walks keep, and how they fail

* `Walk.Within`: a walk keeps an invariant of the join tree, and fails with no error about scopes
  unless something holds. One lemma for each way to put walks together (`Within.bind`, ...).
* `Context.term_within`: the walk of an expression touches the tree, and asks for parameters, only
  where members are taken of a parameter. So it is within whatever the walks of its chains
  (`Expr.chains`) are within. The induction is on the expression.
-/

namespace PredicateSql

open Sql (Term)

variable {L : Prop} {I : JoinTree → Prop}

/-! ### Walks -/

namespace Walk

variable {α β : Type}

/-- Wherever the walk starts from a tree with the invariant `I`, it leaves one, and if it fails with
an error about scopes then `L` holds. -/
structure Within (L : Prop) (I : JoinTree → Prop) (w : Walk α) : Prop where
  keeps : ∀ {t a t'}, I t → w.Runs t a t' → I t'
  fails : ∀ {t}, I t → ScopedUnless L (w.run t : Except QueryError α × JoinTree).1

namespace Within

theorem pure (a : α) : Within L I (Pure.pure a) := by
  refine ⟨fun ht h => ?_, fun _ => FailsOnly.pure _⟩
  obtain ⟨-, rfl⟩ := runs_pure.1 h
  exact ht

theorem lift {x : Except QueryError α} (h : ScopedUnless L x) : Within L I (liftM x) := by
  refine ⟨fun ht hx => ?_, fun _ => h⟩
  obtain ⟨-, rfl⟩ := runs_lift.1 hx
  exact ht

theorem throw {err : QueryError} (h : err.isScopeError = true → L) :
    Within L I (MonadExcept.throw err : Walk α) :=
  ⟨fun _ ha => (runs_throw ha).elim, fun _ => FailsOnly.throw h⟩

/-- An error that is not about scopes. -/
theorem unscoped {err : QueryError} (h : err.isScopeError = false) :
    Within L I (MonadExcept.throw err : Walk α) :=
  throw fun hscope => absurd (h.symm.trans hscope) Bool.false_ne_true

theorem bind {w : Walk α} {f : α → Walk β} (hw : Within L I w) (hf : ∀ a, Within L I (f a)) :
    Within L I (w >>= f) := by
  refine ⟨fun ht h => ?_, fun {t} ht => ?_⟩
  · obtain ⟨a, t', ha, hb⟩ := runs_bind.1 h
    exact (hf a).keeps (hw.keeps ht ha) hb
  · have hscoped := hw.fails ht
    rw [run_bind]
    -- The second walk starts from what the first one leaves.
    rcases hrun : (w.run t : Except QueryError α × JoinTree) with ⟨err | a, t'⟩
    · rw [hrun] at hscoped
      exact fun err' herr => hscoped err' (congrArg _ (Except.error.inj herr))
    · exact (hf a).fails (hw.keeps ht hrun)

/-- A computation that does not look at the tree comes first. -/
theorem lift_bind {x : Except QueryError α} {f : α → Walk β} (hx : ScopedUnless L x)
    (hf : ∀ a, x = .ok a → Within L I (f a)) : Within L I ((liftM x : Walk α) >>= f) := by
  cases x with
  | error err => exact throw (hx err rfl)
  | ok a => exact hf a rfl

/-- A walk that looks at the tree. -/
theorem get_bind {f : JoinTree → Walk β} (hf : ∀ t, I t → Within L I (f t)) :
    Within L I ((get : Walk JoinTree) >>= f) := by
  refine ⟨fun ht h => ?_, fun ht => (hf _ ht).fails ht⟩
  obtain ⟨t, _, hget, h⟩ := runs_bind.1 h
  obtain ⟨rfl, rfl⟩ := runs_get.1 hget
  exact (hf _ ht).keeps ht h

theorem ite {c : Prop} [Decidable c] {w v : Walk α} (hw : c → Within L I w)
    (hv : ¬ c → Within L I v) : Within L I (if c then w else v) := by
  split
  · exact hw ‹_›
  · exact hv ‹_›

end Within

end Walk

open Walk (Within)

/-- What lies around a chain of members. -/
def Expr.MemberChain.scope (x : Expr.MemberChain) : Scope :=
  { binders := x.binders, pending := x.members }

namespace Context

variable {c : Context} {s : Scope} {e : Expr} {w v : Walk Term}

/-! ### Computations on expressions -/

theorem model_scoped (name : String) : ScopedUnless L (c.model name) := by
  unfold Context.model
  split
  · exact FailsOnly.pure _
  · exact FailsOnly.unscoped rfl

theorem property_scoped (model : Model) (name : String) : ScopedUnless L (model.property name) := by
  unfold Model.property
  split
  · exact FailsOnly.pure _
  · exact FailsOnly.unscoped rfl

theorem drill_scoped (value : Value) (members : List String) :
    ScopedUnless L (drill value members) := by
  induction members generalizing value with
  | nil => exact FailsOnly.pure _
  | cons name rest ih => exact (Evaluator.memberOf_scoped value name).bind fun member _ => ih member

theorem boundary_scoped : ScopedUnless L (c.boundary s e) := by
  rw [boundary_eq]
  exact (Evaluator.evaluate_scoped e).bind fun value _ => drill_scoped value s.pending

theorem literalOf_scoped (value : Value) : ScopedUnless L (literalOf value) := by
  unfold literalOf
  exact FailsOnly.ite (fun _ => FailsOnly.pure _) fun _ => FailsOnly.unscoped rfl

theorem literalsOf_scoped (values : List Value) : ScopedUnless L (literalsOf values) := by
  induction values with
  | nil => exact FailsOnly.pure _
  | cons value rest ih =>
    exact (literalOf_scoped value).bind fun _ _ => ih.bind fun _ _ => FailsOnly.pure _

theorem literal_scoped : ScopedUnless L (c.literal s e) :=
  boundary_scoped.bind fun value _ => literalOf_scoped value

theorem scalarMembers_scoped (a : Term) (type : ValueType) (members : List String) :
    ScopedUnless L (scalarMembers a type members) := by
  induction members generalizing a type with
  | nil => exact FailsOnly.pure _
  | cons member rest ih =>
    unfold scalarMembers
    refine FailsOnly.ite (fun _ => ih _ _) fun _ => FailsOnly.ite (fun _ => ih _ _) fun _ => ?_
    exact FailsOnly.ite (fun _ => ih _ _) fun _ => FailsOnly.unscoped rfl

theorem isClosedNull_scoped (h : e.HasLambda → L) : ScopedUnless L (c.isClosedNull e) := by
  rw [isClosedNull_eq]
  refine (Expr.isClosed_scoped h).bind fun _ _ => FailsOnly.ite (fun _ => ?_) fun _ => ?_
  · exact (Evaluator.evaluate_scoped e).bind fun _ _ => FailsOnly.pure _
  · exact FailsOnly.pure _

theorem isProvablyNull_scoped : ∀ {e : Expr}, (e.HasLambda → L) →
    ScopedUnless L (c.isProvablyNull e)
  | .constant .., _ => FailsOnly.pure _
  | .member owner _ _, h => by
    have howner := isProvablyNull_scoped fun hlambda => h (hlambda.of_operand List.mem_cons_self)
    unfold isProvablyNull
    refine howner.bind fun _ _ => FailsOnly.ite (fun _ => FailsOnly.pure _) fun _ => ?_
    exact isClosedNull_scoped h
  | .unary op operand, h => by
    have hoperand := isProvablyNull_scoped fun hlambda =>
      h (hlambda.of_operand List.mem_cons_self)
    unfold isProvablyNull
    cases op with
    | convert => exact hoperand
    | not | negate => exact isClosedNull_scoped h
  | .binary op sequence index, h => by
    have hsequence := isProvablyNull_scoped fun hlambda =>
      h (hlambda.of_operand List.mem_cons_self)
    unfold isProvablyNull
    cases op with
    | index =>
      refine hsequence.bind fun _ _ => FailsOnly.ite (fun _ => FailsOnly.pure _) fun _ => ?_
      exact isClosedNull_scoped h
    | _ => exact isClosedNull_scoped h
  | .staticMember .., h | .param .., h | .call .., h | .staticCall .., h | .new .., h
  | .array .., h | .conditional .., h | .lambda .., h => isClosedNull_scoped h

theorem nullTest?_scoped {op : Sql.Operator} {left right : Expr} (hleft : left.HasLambda → L)
    (hright : right.HasLambda → L) : ScopedUnless L (c.nullTest? op left right) := by
  unfold nullTest?
  extract_lets test
  clear_value test
  cases test with
  | none => exact FailsOnly.pure _
  | some test =>
    refine (isProvablyNull_scoped hleft).bind fun _ _ => FailsOnly.ite (fun _ => ?_) fun _ => ?_
    · exact FailsOnly.pure _
    · refine (isProvablyNull_scoped hright).bind fun _ _ => ?_
      exact FailsOnly.ite (fun _ => FailsOnly.pure _) fun _ => FailsOnly.pure _

theorem handlesNegation_scoped : ∀ {e : Expr}, (e.HasLambda → L) →
    ScopedUnless L e.handlesNegation
  | .unary op operand, h => by
    unfold Expr.handlesNegation
    cases op with
    | convert =>
      exact handlesNegation_scoped fun hlambda => h (hlambda.of_operand List.mem_cons_self)
    | not | negate => exact FailsOnly.pure _
  | .call target method args, h => by
    unfold Expr.handlesNegation
    refine FailsOnly.ite (fun _ => ?_) fun _ => FailsOnly.pure _
    exact (Expr.isClosed_scoped h).bind fun _ _ => FailsOnly.pure _
  | .staticCall method args, h => by
    unfold Expr.handlesNegation
    refine FailsOnly.ite (fun _ => ?_) fun _ => FailsOnly.pure _
    exact (Expr.isClosed_scoped h).bind fun _ _ => FailsOnly.pure _
  | .binary .., _ | .member .., _ | .staticMember .., _ | .constant .., _ | .param .., _
  | .new .., _ | .array .., _ | .conditional .., _ | .lambda .., _ => by
    unfold Expr.handlesNegation
    exact FailsOnly.pure _

/-! ### Single nodes -/

theorem asCondition_within (h : e.HasLambda → L) (hw : Within L I w) :
    Within L I (asCondition s e w) := by
  unfold asCondition
  refine hw.bind fun a => Within.ite (fun _ => ?_) fun _ => Within.pure _
  refine Within.lift_bind (handlesNegation_scoped h) fun _ _ => ?_
  exact Within.ite (fun _ => Within.pure _) fun _ => Within.pure _

theorem withMembers_within (h : e.HasLambda → L) (hw : Within L I w) :
    Within L I (c.withMembers s e w) := by
  unfold withMembers
  split
  · exact hw
  · refine Within.lift_bind (Expr.isClosed_scoped h) fun _ _ => ?_
    refine Within.ite (fun _ => Within.lift literal_scoped) fun _ => ?_
    split
    · exact Within.unscoped rfl
    · exact hw.bind fun a => Within.lift (scalarMembers_scoped _ _ _)

theorem closedOr_within (h : e.HasLambda → L) (hw : Within L I w) :
    Within L I (c.closedOr s e w) := by
  unfold closedOr
  refine Within.lift_bind (Expr.isClosed_scoped h) fun _ _ => ?_
  exact Within.ite (fun _ => Within.lift literal_scoped) fun _ => hw

theorem comparison_within {op : Sql.Operator} {left right : Expr} (hleft : left.HasLambda → L)
    (hright : right.HasLambda → L) (hw : Within L I w) (hv : Within L I v) :
    Within L I (c.comparison op left right w v) := by
  unfold comparison
  refine Within.lift_bind (nullTest?_scoped hleft hright) fun test _ => ?_
  split
  · split
    · exact hv.bind fun _ => Within.pure _
    · exact hw.bind fun _ => Within.pure _
  · exact hw.bind fun _ => hv.bind fun _ => Within.pure _

theorem arithmetic_within {op : BinaryOp} {operator : Sql.Operator} {left right : Expr}
    (hw : Within L I w) (hv : Within L I v) :
    Within L I (c.arithmetic s op operator left right w v) := by
  unfold arithmetic
  refine hw.bind fun _ => hv.bind fun _ => ?_
  exact Within.ite (fun _ => Within.pure _) fun _ => Within.pure _

theorem inList_within {collection : Expr} (h : collection.HasLambda → L) (hw : Within L I w) :
    Within L I (c.inList s collection w) := by
  simp only [inList, ClosedEvaluator.evaluate_standard]
  refine Within.lift_bind (Expr.isClosed_scoped h) fun _ _ => Within.ite (fun _ => ?_) fun _ => ?_
  · refine Within.lift_bind (Evaluator.evaluate_scoped collection) fun _ _ => ?_
    refine Within.ite (fun _ => Within.pure _) fun _ => hw.bind fun item => ?_
    refine Within.lift_bind (literalsOf_scoped _) fun list _ => ?_
    refine Within.ite (fun _ => Within.pure _) fun _ => ?_
    exact Within.ite (fun _ => Within.pure _) fun _ => Within.pure _
  · exact Within.unscoped rfl

theorem like_within {method : Method} {anchor : Text.Anchor} {pattern : Expr}
    (h : pattern.HasLambda → L) (hw : Within L I w) (hv : Within L I v) :
    Within L I (c.like s method anchor pattern w v) := by
  simp only [like, ClosedEvaluator.evaluate_standard]
  refine hw.bind fun item => Within.lift_bind (Expr.isClosed_scoped h) fun _ _ => ?_
  refine Within.ite (fun _ => ?_) fun _ => hv.bind fun _ => Within.pure _
  refine Within.lift_bind (Evaluator.evaluate_scoped pattern) fun value _ => ?_
  split
  · exact Within.pure _
  · exact Within.unscoped rfl

theorem callWithArg_within {method : Method} {target arg : Expr} (htarget : target.HasLambda → L)
    (harg : arg.HasLambda → L) (hw : Within L I w) (hv : Within L I v) :
    Within L I (c.callWithArg s method target arg w v) := by
  unfold callWithArg
  refine Within.ite (fun _ => inList_within htarget hv) fun _ => ?_
  split
  · exact like_within harg hw hv
  · exact Within.unscoped rfl

theorem callWithoutArgs_within {method : Method} (hw : Within L I w) :
    Within L I (callWithoutArgs method w) := by
  unfold callWithoutArgs
  split
  · exact hw.bind fun _ => Within.pure _
  · exact Within.unscoped rfl

/-! ### Terms of expressions -/

/-- All chains of members in an expression are within `L` and `I`. -/
def ChainsWithin (c : Context) (L : Prop) (I : JoinTree → Prop) (chains : List Expr.MemberChain) :
    Prop :=
  ∀ x ∈ chains, Within L I (c.resolve x.scope x.param.name x.param.model)

theorem chainsWithin_append {chains more : List Expr.MemberChain} :
    c.ChainsWithin L I (chains ++ more) ↔ c.ChainsWithin L I chains ∧ c.ChainsWithin L I more :=
  List.forall_mem_append

/-- The walk of an expression is within what the walks of its chains are within. -/
theorem term_within : ∀ (e : Expr) (s : Scope), (e.HasLambda → L) →
    c.ChainsWithin L I (e.chains s.binders s.pending) → Within L I (c.term s e)
  | .constant .., _, _, _ | .staticMember .., _, _, _ => Within.lift literal_scoped
  | .param name model, s, _, hchains => hchains ⟨s.binders, ⟨name, model⟩, s.pending⟩ (by
      simp [Expr.chains])
  | .member owner _ name, s, h, hchains =>
    term_within owner (s.withMember name) (fun hl => h (hl.of_operand List.mem_cons_self)) hchains
  | .unary op operand, s, h, hchains => by
    have hoperand : operand.HasLambda → L := fun hl => h (hl.of_operand List.mem_cons_self)
    cases op with
    | convert => exact term_within operand s hoperand hchains
    | not =>
      exact withMembers_within h (asCondition_within hoperand
        (term_within operand s.isolated.inverted hoperand hchains))
    | negate =>
      refine withMembers_within h (Within.bind ?_ fun _ => Within.pure _)
      exact term_within operand s.isolated.neutral hoperand hchains
  | .binary op left right, s, h, hchains => by
    have hleft : left.HasLambda → L := fun hl => h (hl.of_operand List.mem_cons_self)
    have hright : right.HasLambda → L := fun hl =>
      h (hl.of_operand (List.mem_cons_of_mem _ List.mem_cons_self))
    obtain ⟨hl, hr⟩ := chainsWithin_append.1 hchains
    refine withMembers_within h ?_
    split
    · exact closedOr_within h (Within.unscoped rfl)
    · refine Within.ite (fun _ => ?_) fun _ => Within.ite (fun _ => ?_) fun _ => ?_
      · refine (asCondition_within hleft (term_within left s.isolated hleft hl)).bind fun _ => ?_
        refine (asCondition_within hright (term_within right s.isolated hright hr)).bind fun _ => ?_
        exact Within.pure _
      · exact comparison_within hleft hright (term_within left s.isolated.neutral hleft hl)
          (term_within right s.isolated.neutral hright hr)
      · exact arithmetic_within (term_within left s.isolated.neutral hleft hl)
          (term_within right s.isolated.neutral hright hr)
  | .call target _ [], s, h, hchains => by
    have htarget : target.HasLambda → L := fun hl => h (hl.of_operand List.mem_cons_self)
    refine withMembers_within h (closedOr_within h (callWithoutArgs_within ?_))
    exact term_within target s.isolated.neutral htarget (chainsWithin_append.1 hchains).1
  | .call target _ [arg], s, h, hchains => by
    have htarget : target.HasLambda → L := fun hl => h (hl.of_operand List.mem_cons_self)
    have harg : arg.HasLambda → L := fun hl =>
      h (hl.of_operand (List.mem_cons_of_mem _ List.mem_cons_self))
    obtain ⟨ht, ha⟩ := chainsWithin_append.1 hchains
    refine withMembers_within h (closedOr_within h (callWithArg_within htarget harg ?_ ?_))
    · exact term_within target s.isolated.neutral htarget ht
    · exact term_within arg s.isolated.neutral harg (chainsWithin_append.1 ha).1
  | .staticCall _ [collection, item], s, h, hchains => by
    have hcollection : collection.HasLambda → L := fun hl => h (hl.of_operand List.mem_cons_self)
    have hitem : item.HasLambda → L := fun hl =>
      h (hl.of_operand (List.mem_cons_of_mem _ List.mem_cons_self))
    obtain ⟨-, hrest⟩ := chainsWithin_append.1 hchains
    refine withMembers_within h (closedOr_within h (Within.ite (fun _ => ?_) fun _ => ?_))
    · refine inList_within hcollection ?_
      exact term_within item s.isolated.neutral hitem (chainsWithin_append.1 hrest).1
    · exact Within.unscoped rfl
  | .call _ _ (_ :: _ :: _), _, h, _ | .staticCall _ [], _, h, _ | .staticCall _ [_], _, h, _
  | .staticCall _ (_ :: _ :: _ :: _), _, h, _ | .new .., _, h, _ | .array .., _, h, _ =>
    withMembers_within h (closedOr_within h (Within.unscoped rfl))
  | .conditional test ifTrue ifFalse, s, h, hchains => by
    have hpart : ∀ operand ∈ [test, ifTrue, ifFalse], operand.HasLambda → L :=
      fun _ hoperand hl => h (hl.of_operand hoperand)
    have htest := hpart test (by simp)
    have hTrue := hpart ifTrue (by simp)
    have hFalse := hpart ifFalse (by simp)
    obtain ⟨htests, hf⟩ := chainsWithin_append.1 hchains
    obtain ⟨ht, hi⟩ := chainsWithin_append.1 htests
    refine withMembers_within h ?_
    refine (asCondition_within htest (term_within test _ htest ht)).bind fun _ => ?_
    refine (asCondition_within hTrue (term_within ifTrue _ hTrue hi)).bind fun _ => ?_
    refine (asCondition_within hFalse (term_within ifFalse _ hFalse hf)).bind fun _ => ?_
    exact Within.pure _
  | .lambda params body, s, h, hchains => by
    have hL : L := h (Expr.hasLambda_lambda params body)
    unfold term withMembers
    -- Under members, a lambda fails before its body is walked.
    split
    · next hpending =>
      unfold Scope.enter
      split
      · next p =>
        rw [hpending] at hchains
        exact asCondition_within (fun _ => hL) (term_within body _ (fun _ => hL) hchains)
      · exact Within.throw fun _ => hL
    · exact Within.throw fun _ => hL

theorem properties_scoped (model : Model) (names : List String) :
    ScopedUnless L (names.mapM model.property) := by
  induction names with
  | nil => exact FailsOnly.pure _
  | cons name rest ih =>
    rw [List.mapM_cons]
    exact (property_scoped model name).bind fun _ _ => ih.bind fun _ _ => FailsOnly.pure _

theorem projected_scoped (model : Model) (names : Option (List String)) :
    ScopedUnless L (projected model names) := by
  cases names with
  | none => exact FailsOnly.pure _
  | some names => exact properties_scoped model names

/-! ### Steps along references -/

/-- Single steps along references keep an invariant. They never fail. -/
def StepsWithin (L : Prop) (I : JoinTree → Prop) : Prop :=
  ∀ parent property target, Within L I (walkTo parent property target)

theorem column_within {node : Nat} {p : Property} {members : List String} :
    Within L I (column node p members) := by
  unfold column
  exact Within.get_bind fun t _ => Within.lift (scalarMembers_scoped _ _ _)

/-- A chain of members is within what single steps are within. -/
theorem follow_within (hstep : StepsWithin L I) {node : Nat} {p : Property}
    {members : List String} : Within L I (c.follow node p members) := by
  induction members generalizing node p with
  | nil => exact column_within
  | cons member rest ih =>
    unfold follow
    split
    · exact column_within
    · refine Within.ite (fun _ => column_within) fun _ => Within.ite (fun _ => ih) fun _ => ?_
      refine Within.lift_bind (model_scoped _) fun target _ => (hstep _ _ _).bind fun child => ?_
      exact Within.lift_bind (property_scoped target member) fun next _ => ih

/-- So is a chain of members of a parameter that is bound to the model that trees start from. -/
theorem resolve_within_of_modelFor? (hstep : StepsWithin L I) {name declared bound : String}
    (h : s.modelFor? name = some bound) (hmodel : ∀ t, I t → t.model = bound) :
    Within L I (c.resolve s name declared) := by
  unfold resolve
  rw [h]
  refine Within.get_bind fun t ht => ?_
  refine Within.ite (fun hne => absurd (hmodel t ht).symm hne) fun _ => ?_
  refine Within.lift_bind (model_scoped bound) fun root _ => ?_
  split
  · exact Within.unscoped rfl
  · exact Within.lift_bind (property_scoped root _) fun property _ => follow_within hstep

mutual

/-- A projection is within what single steps are within. -/
theorem project_within (hstep : StepsWithin L I) : ∀ (graph : IncludeGraph) (node : Nat)
    (model : Model) (path : String), Within L I (c.project node model path graph)
  | .node columns relations, node, model, path => by
    unfold project
    refine Within.get_bind fun t _ => ?_
    refine Within.lift_bind (projected_scoped model columns) fun own _ => ?_
    exact (projectRelations_within hstep relations node model path).bind fun _ => Within.pure _

theorem projectRelations_within (hstep : StepsWithin L I) :
    ∀ (relations : List (String × IncludeGraph)) (node : Nat) (model : Model) (path : String),
      Within L I (c.projectRelations node model path relations)
  | [], _, _, _ => Within.pure _
  | (name, graph) :: rest, node, model, path => by
    unfold projectRelations
    refine Within.lift_bind (property_scoped model name) fun property _ => ?_
    split
    · refine Within.lift_bind (model_scoped _) fun target _ => (hstep _ _ _).bind fun child => ?_
      refine (project_within hstep graph child target _).bind fun _ => ?_
      exact (projectRelations_within hstep rest node model path).bind fun _ => Within.pure _
    · exact Within.unscoped rfl

end

end Context

end PredicateSql
