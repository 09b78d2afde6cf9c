import PredicateSql.Proofs.Query.Effects
import PredicateSql.Query.Extraction

/-!
# How a search fails

* `Search.Within`: a search fails with no error about scopes unless something holds. One lemma for
  each way to put searches together.
* `Context.search_within`: the search of an expression asks for parameters only where members are
  taken of a parameter (`Expr.chains`). The induction is on the expression.
* `Context.search_of_isClosed`: a closed expression stands for its value, whatever its shape.
-/

namespace PredicateSql

variable {L : Prop}

/-! ### Searches -/

namespace Search

variable {α β : Type}

/-- If the search fails with an error about scopes then `L` holds. -/
def Within (L : Prop) (w : Search α) : Prop :=
  ∀ found, ScopedUnless L (w.run found)

namespace Within

theorem pure (a : α) : Within L (Pure.pure a : Search α) :=
  fun _ => FailsOnly.pure _

theorem lift {x : Except QueryError α} (hx : ScopedUnless L x) : Within L (liftM x : Search α) :=
  fun _ => hx.bind fun _ _ => FailsOnly.pure _

/-- An error that is not about scopes. -/
theorem unscoped {err : QueryError} (h : err.isScopeError = false) :
    Within L (MonadExcept.throw err : Search α) :=
  lift (FailsOnly.unscoped h)

theorem bind {w : Search α} {f : α → Search β} (hw : Within L w) (hf : ∀ a, Within L (f a)) :
    Within L (w >>= f) := by
  intro found
  rw [StateT.run_bind]
  exact (hw found).bind fun x _ => hf x.1 x.2

/-- A computation without findings comes first. -/
theorem lift_bind {x : Except QueryError α} {f : α → Search β} (hx : ScopedUnless L x)
    (hf : ∀ a, x = .ok a → Within L (f a)) : Within L ((liftM x : Search α) >>= f) := by
  cases x with
  | error err => exact fun _ => FailsOnly.throw (hx err rfl)
  | ok a => exact hf a rfl

theorem ite {c : Prop} [Decidable c] {w v : Search α} (hw : c → Within L w)
    (hv : ¬ c → Within L v) : Within L (if c then w else v) := by
  split
  · exact hw ‹_›
  · exact hv ‹_›

theorem contribute (a b : Option Operand) : Within L (contribute a b) :=
  fun _ => FailsOnly.pure _

end Within

end Search

open Search (Within)

namespace Context

variable {c : Context} {s s' : Scope} {e : Expr}

/-! ### Single nodes -/

/-- Only the parameters around a chain matter to it, and its members. -/
theorem operandOf_congr (hbinders : s.binders = s'.binders) (hpending : s.pending = s'.pending)
    (name declared : String) : c.operandOf s name declared = c.operandOf s' name declared := by
  rw [operandOf, operandOf, Scope.modelFor?, Scope.modelFor?, hbinders, hpending]

theorem lastProperty_scoped {model : Model} {name : String} {members : List String} :
    ScopedUnless L (c.lastProperty model name members) := by
  induction members generalizing model name with
  | nil => exact (property_scoped model name).bind fun _ _ => FailsOnly.pure _
  | cons next rest ih =>
    unfold lastProperty
    refine (property_scoped model name).bind fun _ _ => ?_
    split
    · exact FailsOnly.pure _
    · exact (model_scoped _).bind fun _ _ => ih

/-- A parameter that is bound to a model is found, whatever members are taken of it. -/
theorem operandOf_scoped {name declared model : String} (h : s.modelFor? name = some model) :
    ScopedUnless L (c.operandOf s name declared) := by
  unfold operandOf
  rw [h]
  refine (model_scoped model).bind fun _ _ => ?_
  split
  · exact FailsOnly.pure _
  · exact lastProperty_scoped

theorem closedOperand_scoped : ScopedUnless L (c.closedOperand s e) :=
  boundary_scoped.bind fun _ _ => FailsOnly.pure _

theorem searchNode_of_isClosed {walk : Search Unit} (h : e.isClosed = .ok true) :
    c.searchNode s e walk = liftM (c.closedOperand s e) := by
  rw [searchNode, h]
  rfl

theorem searchNode_within {walk : Search Unit} (h : e.HasLambda → L) (hw : Within L walk) :
    Within L (c.searchNode s e walk) := by
  unfold searchNode
  refine (Within.lift (Expr.isClosed_scoped h)).bind fun _ => Within.ite (fun _ => ?_) fun _ => ?_
  · exact Within.lift closedOperand_scoped
  · exact hw.bind fun _ => Within.pure _

theorem searchContains_within {negated : Bool} {w v : Search (Option Operand)} (hw : Within L w)
    (hv : Within L v) : Within L (searchContains negated w v) := by
  unfold searchContains
  refine hw.bind fun _ => hv.bind fun _ => ?_
  exact Within.ite (fun _ => Within.contribute _ _) fun _ => Within.pure _

/-! ### Searches of expressions -/

/-- The search of an expression fails with an error about scopes only if one of its chains does, or
a lambda stands in it. -/
theorem search_within : ∀ (e : Expr) (s : Scope), (e.HasLambda → L) →
    (∀ x ∈ e.chains s.binders s.pending,
      ScopedUnless L (c.operandOf x.scope x.param.name x.param.model)) →
    Within L (c.search s e)
  | .constant .., _, _, _ | .staticMember .., _, _, _ => Within.lift closedOperand_scoped
  | .param name model, s, _, hchains =>
    Within.lift (hchains ⟨s.binders, ⟨name, model⟩, s.pending⟩ (by simp [Expr.chains]))
  | .member owner _ name, s, h, hchains =>
    search_within owner (s.withMember name) (fun hl => h (hl.of_operand List.mem_cons_self)) hchains
  | .unary op operand, s, h, hchains => by
    have hoperand : operand.HasLambda → L := fun hl => h (hl.of_operand List.mem_cons_self)
    cases op with
    | convert => exact search_within operand s hoperand hchains
    | not =>
      refine searchNode_within h (Within.bind ?_ fun _ => Within.pure _)
      exact search_within operand s.isolated.inverted hoperand hchains
    | negate =>
      refine searchNode_within h (Within.bind ?_ fun _ => Within.pure _)
      exact search_within operand s.isolated.neutral hoperand hchains
  | .binary op left right, s, h, hchains => by
    have hleft : left.HasLambda → L := fun hl => h (hl.of_operand List.mem_cons_self)
    have hright : right.HasLambda → L := fun hl =>
      h (hl.of_operand (List.mem_cons_of_mem _ List.mem_cons_self))
    obtain ⟨hl, hr⟩ := List.forall_mem_append.1 hchains
    have hoperands : ∀ s' : Scope, s'.binders = s.binders → s'.pending = [] →
        Within L (c.search s' left) ∧ Within L (c.search s' right) := by
      intro s' hbinders hpending
      refine ⟨search_within left s' hleft ?_, search_within right s' hright ?_⟩
      all_goals
        rw [hbinders, hpending]
        assumption
    cases op with
    | index => exact searchNode_within h (Within.unscoped rfl)
    | equal =>
      obtain ⟨hw, hv⟩ := hoperands s.isolated.neutral rfl rfl
      exact searchNode_within h (hw.bind fun _ => hv.bind fun _ => Within.contribute _ _)
    | and | or =>
      obtain ⟨hw, hv⟩ := hoperands s.isolated rfl rfl
      exact searchNode_within h (hw.bind fun _ => hv.bind fun _ => Within.pure _)
    | _ =>
      obtain ⟨hw, hv⟩ := hoperands s.isolated.neutral rfl rfl
      exact searchNode_within h (hw.bind fun _ => hv.bind fun _ => Within.pure _)
  | .staticCall _ [collection, item], s, h, hchains => by
    obtain ⟨hc, hrest⟩ := List.forall_mem_append.1 hchains
    refine searchNode_within h (Within.ite (fun _ => ?_) fun _ => Within.unscoped rfl)
    refine searchContains_within ?_ ?_
    · exact search_within collection s.isolated.neutral
        (fun hl => h (hl.of_operand List.mem_cons_self)) hc
    · exact search_within item s.isolated.neutral
        (fun hl => h (hl.of_operand (List.mem_cons_of_mem _ List.mem_cons_self)))
        (List.forall_mem_append.1 hrest).1
  | .call target _ [item], s, h, hchains => by
    obtain ⟨ht, hrest⟩ := List.forall_mem_append.1 hchains
    refine searchNode_within h (Within.ite (fun _ => ?_) fun _ => ?_)
    · refine searchContains_within ?_ ?_
      · exact search_within target s.isolated.neutral
          (fun hl => h (hl.of_operand List.mem_cons_self)) ht
      · exact search_within item s.isolated.neutral
          (fun hl => h (hl.of_operand (List.mem_cons_of_mem _ List.mem_cons_self)))
          (List.forall_mem_append.1 hrest).1
    · exact Within.ite (fun _ => Within.pure _) fun _ => Within.unscoped rfl
  | .call _ _ [], _, h, _ | .call _ _ (_ :: _ :: _), _, h, _ =>
    searchNode_within h (Within.ite (fun _ => Within.pure _) fun _ => Within.unscoped rfl)
  | .staticCall _ [], _, h, _ | .staticCall _ [_], _, h, _
  | .staticCall _ (_ :: _ :: _ :: _), _, h, _ | .new .., _, h, _ | .array .., _, h, _ =>
    searchNode_within h (Within.unscoped rfl)
  | .conditional test ifTrue ifFalse, s, h, hchains => by
    have hpart : ∀ operand ∈ [test, ifTrue, ifFalse], operand.HasLambda → L :=
      fun _ hoperand hl => h (hl.of_operand hoperand)
    obtain ⟨htests, hf⟩ := List.forall_mem_append.1 hchains
    obtain ⟨ht, hi⟩ := List.forall_mem_append.1 htests
    refine searchNode_within h ?_
    refine (search_within test s.isolated.neutral (hpart test (by simp)) ht).bind fun _ => ?_
    refine (search_within ifTrue s.isolated (hpart ifTrue (by simp)) hi).bind fun _ => ?_
    refine (search_within ifFalse s.isolated (hpart ifFalse (by simp)) hf).bind fun _ => ?_
    exact Within.pure _
  | .lambda params body, s, h, hchains => by
    have hL : L := h (Expr.hasLambda_lambda params body)
    unfold search
    refine Within.lift_bind (FailsOnly.anything hL _) fun s' hs' => ?_
    unfold Scope.enter at hs'
    split at hs'
    · obtain rfl := Except.ok.inj hs'
      exact search_within body _ (fun _ => hL) hchains
    · cases hs'

/-- A closed expression stands for its value. -/
theorem search_of_isClosed : ∀ {e : Expr} {s : Scope}, e.isClosed = .ok true →
    c.search s e = liftM (c.closedOperand s e)
  | .constant .., _, _ | .staticMember .., _, _ => rfl
  | .member owner type name, s, h => by
    have howner := search_of_isClosed (e := owner) (s := s.withMember name) h
    rw [search, howner, closedOperand, closedOperand, boundary_member]
  | .unary op operand, s, h => by
    cases op with
    | convert =>
      have hoperand := search_of_isClosed (e := operand) (s := s) h
      rw [search, hoperand, closedOperand, closedOperand, boundary_convert]
    | not | negate => exact searchNode_of_isClosed h
  | .binary op left right, _, h => by
    cases op <;> exact searchNode_of_isClosed h
  | .call _ _ [], _, h | .call _ _ [_], _, h | .call _ _ (_ :: _ :: _), _, h
  | .staticCall _ [], _, h | .staticCall _ [_], _, h | .staticCall _ [_, _], _, h
  | .staticCall _ (_ :: _ :: _ :: _), _, h | .new .., _, h | .array .., _, h
  | .conditional .., _, h => searchNode_of_isClosed h

end Context

end PredicateSql
