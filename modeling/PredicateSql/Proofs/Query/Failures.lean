import PredicateSql.Proofs.Expr.Parts
import PredicateSql.Proofs.Query.Analysis

/-!
# What can go wrong

* `FailsOnly`: a computation fails with no errors but some. `FailsOnly.bind` puts computations
  together.
* `QueryError.isScopeError`: the errors about parameters that are not bound and lambdas that cannot
  stand where they do. `QueryError.isValueError`: the errors about values that are computed.
* `ScopedUnless`: a computation fails with no error about scopes, unless something holds. Evaluation
  never does (`Evaluator.evaluate_scoped`), and a test whether an expression is closed only if a
  lambda stands in it (`Expr.isClosed_scoped`).
* `Evaluator.evaluate_fails`: the evaluation of an expression fails over values, or at a parameter
  or a lambda. The induction is on the operands.
* `Evaluator.isClosed_spec`: what the answers about an expression say of what stands in it, and that
  closed expressions can be evaluated.
-/

namespace PredicateSql

/-! ### Errors -/

/-- Every error of the computation satisfies `P`. -/
def FailsOnly {ε α : Type} (P : ε → Prop) (x : Except ε α) : Prop :=
  ∀ err, x = .error err → P err

namespace FailsOnly

variable {ε α β : Type} {P Q : ε → Prop}

theorem mono {x : Except ε α} (h : FailsOnly P x) (hP : ∀ err, P err → Q err) : FailsOnly Q x :=
  fun err hx => hP err (h err hx)

theorem pure (a : α) : FailsOnly P (Pure.pure a : Except ε α) :=
  fun _ h => nomatch h

theorem throw {err : ε} (h : P err) : FailsOnly P (MonadExcept.throw err : Except ε α) := by
  intro err' herr
  obtain rfl : err = err' := Except.error.inj herr
  exact h

/-- What follows a first step matters only where that step succeeds. -/
theorem bind {x : Except ε α} {f : α → Except ε β} (hx : FailsOnly P x)
    (hf : ∀ a, x = .ok a → FailsOnly P (f a)) : FailsOnly P (x >>= f) := by
  intro err herr
  cases x with
  | error err' =>
    obtain rfl : err' = err := Except.error.inj herr
    exact hx err' rfl
  | ok a => exact hf a rfl err herr

theorem ite {c : Prop} [Decidable c] {x y : Except ε α} (hx : c → FailsOnly P x)
    (hy : ¬ c → FailsOnly P y) : FailsOnly P (if c then x else y) := by
  split
  · exact hx ‹_›
  · exact hy ‹_›

end FailsOnly

/-- The error is about a parameter that is not bound, or about a lambda or an operator that cannot
stand where it does. -/
def QueryError.isScopeError : QueryError → Bool
  | .missingParameter .. | .lambdaArity _ => true
  | .unsupportedNode node => node == "Lambda" || node == "Binary"
  | _ => false

/-- The error is about the values that are computed. -/
def QueryError.isValueError : QueryError → Bool
  | .unsupportedMember .. | .unsupportedMethod _ | .evaluation _ => true
  | _ => false

theorem QueryError.not_isScopeError {err : QueryError} (h : err.isValueError = true) :
    err.isScopeError = false := by
  cases err <;> first | rfl | cases h

/-- The computation fails over the values that it computes. -/
abbrev FailsOnValues {α : Type} (x : Except QueryError α) : Prop :=
  FailsOnly (fun err => err.isValueError = true) x

/-- If the computation fails with an error about scopes, then `L` holds. -/
abbrev ScopedUnless {α : Type} (L : Prop) (x : Except QueryError α) : Prop :=
  FailsOnly (fun err => err.isScopeError = true → L) x

variable {L : Prop}

theorem FailsOnly.unscoped {α : Type} {err : QueryError} (h : err.isScopeError = false) :
    ScopedUnless L (MonadExcept.throw err : Except QueryError α) := by
  refine FailsOnly.throw fun hscope => ?_
  rw [h] at hscope
  cases hscope

theorem FailsOnly.scoped {α : Type} {x : Except QueryError α} (h : FailsOnValues x) :
    ScopedUnless L x :=
  h.mono fun _ hvalue hscope =>
    absurd hscope (Bool.eq_false_iff.1 (QueryError.not_isScopeError hvalue))

theorem FailsOnly.anything {α : Type} (hL : L) (x : Except QueryError α) : ScopedUnless L x :=
  fun _ _ _ => hL

/-! ### Lambdas -/

namespace Expr

/-- Only a lambda within an expression leaves it open whether the expression is closed. -/
theorem isClosed_fails (e : Expr) :
    FailsOnly (fun err => err = .unsupportedNode "Lambda" ∧ e.HasLambda) e.isClosed := by
  intro err herr
  rcases e.isClosed_cases with h | ⟨h, -⟩ | ⟨h, hlambda⟩ <;> rw [h] at herr
  · cases herr
  · cases herr
  · exact ⟨(Except.error.inj herr).symm, hlambda⟩

theorem isClosed_scoped {e : Expr} (h : e.HasLambda → L) : ScopedUnless L e.isClosed :=
  (isClosed_fails e).mono fun _ hlambda _ => h hlambda.2

end Expr

/-! ### Evaluation -/

namespace Evaluator

variable {v : Evaluator}

theorem memberOf_fails (owner : Value) (name : String) : FailsOnValues (memberOf owner name) := by
  unfold memberOf
  split
  · exact FailsOnly.pure _
  · exact FailsOnly.throw rfl

theorem staticMember_fails (type name : String) : FailsOnValues (v.staticMember type name) := by
  unfold staticMember
  split
  · exact FailsOnly.pure _
  · exact FailsOnly.throw rfl

theorem condition_fails (op : BinaryOp) (operand : Value) :
    FailsOnValues (condition op operand) := by
  unfold condition
  split
  · exact FailsOnly.pure _
  · exact FailsOnly.throw rfl

theorem meaning_fails (method : Method) : FailsOnValues (meaning method) := by
  unfold meaning
  split
  · exact FailsOnly.pure _
  · exact FailsOnly.throw rfl

theorem failing_fails {α : Type} (r : Except EvaluationFailure α) : FailsOnValues (failing r) := by
  cases r with
  | ok a => exact FailsOnly.pure _
  | error failure => exact FailsOnly.throw rfl

theorem supported_fails (method : Method) (result : Option Value) :
    FailsOnValues (supported method result) := by
  unfold supported
  split
  · exact FailsOnly.pure _
  · exact FailsOnly.throw rfl

theorem callOn_fails (target : Value) (method : Method) (known : KnownMethod)
    (args : List Value) : FailsOnValues (callOn target method known args) := by
  unfold callOn
  split
  any_goals exact failing_fails _
  any_goals exact FailsOnly.pure _
  all_goals exact FailsOnly.throw rfl

theorem callStatic_fails (method : Method) (known : KnownMethod) (args : List Value) :
    FailsOnValues (callStatic method known args) := by
  unfold callStatic
  split
  · exact FailsOnly.ite (fun _ => failing_fails _) fun _ => FailsOnly.throw rfl
  · exact supported_fails _ _
  · exact supported_fails _ _
  · exact supported_fails _ _
  · exact FailsOnly.throw rfl

/-- How the evaluation of an expression may fail: over a value, or at a parameter or a lambda in the
expression. -/
inductive Failure (e : Expr) : QueryError → Prop
  | value {err : QueryError} (h : err.isValueError = true) : Failure e err
  | param (h : e.HasParam) : Failure e (.notEvaluatable "Parameter")
  | lambda (h : e.HasLambda) : Failure e (.notEvaluatable "Lambda")

theorem Failure.of_operand {e operand : Expr} {err : QueryError} (hoperand : operand ∈ e.operands)
    (h : Failure operand err) : Failure e err := by
  cases h with
  | value h => exact .value h
  | param h => exact .param (h.of_operand hoperand)
  | lambda h => exact .lambda (h.of_operand hoperand)

theorem fails_of_value {α : Type} {e : Expr} {x : Except QueryError α} (h : FailsOnValues x) :
    FailsOnly (Failure e) x :=
  h.mono fun _ => .value

theorem evaluateAll_fails {e : Expr} {items : List Expr}
    (h : ∀ x ∈ items, FailsOnly (Failure e) (v.evaluate x)) :
    FailsOnly (Failure e) (v.evaluateAll items) := by
  induction items with
  | nil =>
    unfold evaluateAll
    exact FailsOnly.pure _
  | cons x rest ih =>
    unfold evaluateAll
    refine (h x List.mem_cons_self).bind fun _ _ => ?_
    exact (ih fun y hy => h y (List.mem_cons_of_mem _ hy)).bind fun _ _ => FailsOnly.pure _

/-- The evaluation of an expression fails over values, unless it meets a parameter or a lambda. -/
theorem evaluate_fails (e : Expr) : FailsOnly (Failure e) (v.evaluate e) := by
  induction e using Expr.induction_operands with
  | h e ih =>
    have hoperand : ∀ operand ∈ e.operands, FailsOnly (Failure e) (v.evaluate operand) :=
      fun operand hoperand => (ih operand hoperand).mono fun _ => .of_operand hoperand
    cases e with
    | constant =>
      unfold evaluate
      exact FailsOnly.pure _
    | staticMember type name =>
      unfold evaluate
      exact fails_of_value (staticMember_fails type name)
    | member owner type name =>
      unfold evaluate
      refine (hoperand owner (by simp [Expr.operands])).bind fun value _ => ?_
      exact fails_of_value (memberOf_fails value name)
    | binary op left right =>
      have hleft := hoperand left (by simp [Expr.operands])
      have hright := hoperand right (by simp [Expr.operands])
      have hcondition : ∀ op a, FailsOnly (Failure (.binary op left right)) (condition op a) :=
        fun op a => fails_of_value (condition_fails op a)
      -- `&&` and `||` may leave out their second operand.
      cases op with
      | and =>
        unfold evaluate
        refine hleft.bind fun a _ => (hcondition _ a).bind fun _ _ => ?_
        refine FailsOnly.ite (fun _ => ?_) fun _ => FailsOnly.pure _
        exact hright.bind fun b _ => (hcondition _ b).bind fun _ _ => FailsOnly.pure _
      | or =>
        unfold evaluate
        refine hleft.bind fun a _ => (hcondition _ a).bind fun _ _ => ?_
        refine FailsOnly.ite (fun _ => FailsOnly.pure _) fun _ => ?_
        exact hright.bind fun b _ => (hcondition _ b).bind fun _ _ => FailsOnly.pure _
      | _ =>
        unfold evaluate
        exact hleft.bind fun a _ => hright.bind fun b _ => fails_of_value (failing_fails _)
    | unary op operand =>
      unfold evaluate
      refine (hoperand operand (by simp [Expr.operands])).bind fun value _ => ?_
      exact fails_of_value (failing_fails _)
    | conditional test ifTrue ifFalse =>
      unfold evaluate
      refine (hoperand test (by simp [Expr.operands])).bind fun value _ => ?_
      split
      · exact hoperand ifTrue (by simp [Expr.operands])
      · exact hoperand ifFalse (by simp [Expr.operands])
      · exact FailsOnly.throw (.value rfl)
    | array _ items =>
      unfold evaluate
      exact (evaluateAll_fails hoperand).bind fun _ _ => FailsOnly.pure _
    | new _ args =>
      unfold evaluate
      exact (evaluateAll_fails hoperand).bind fun _ _ => fails_of_value (failing_fails _)
    | call target method args =>
      unfold evaluate
      have htarget := hoperand target (by simp [Expr.operands])
      have hargs := evaluateAll_fails fun x hx => hoperand x (List.mem_cons_of_mem _ hx)
      refine (fails_of_value (meaning_fails method)).bind fun known _ => htarget.bind fun a _ => ?_
      exact hargs.bind fun values _ => fails_of_value (callOn_fails a method known values)
    | staticCall method args =>
      unfold evaluate
      refine (fails_of_value (meaning_fails method)).bind fun known _ => ?_
      refine (evaluateAll_fails hoperand).bind fun values _ => ?_
      exact fails_of_value (callStatic_fails method known values)
    | param name model =>
      unfold evaluate
      exact FailsOnly.throw (.param ⟨name, model, .self⟩)
    | lambda params body =>
      unfold evaluate
      exact FailsOnly.throw (.lambda (Expr.hasLambda_lambda params body))

theorem memberOf_scoped (owner : Value) (name : String) : ScopedUnless L (memberOf owner name) :=
  (memberOf_fails owner name).scoped

/-- The evaluation of an expression asks for no parameters. -/
theorem evaluate_scoped (e : Expr) : ScopedUnless L (v.evaluate e) := by
  refine (evaluate_fails e).mono fun err h hscope => ?_
  cases h with
  | value h => exact absurd hscope (Bool.eq_false_iff.1 (QueryError.not_isScopeError h))
  | param | lambda => cases hscope

/-! ### Closed expressions -/

/-- An expression is closed exactly if it has no parameter and no lambda. An open one has a
parameter; the only error is about a lambda, which it has then. No evaluation of a closed expression
meets something that cannot be evaluated. -/
theorem isClosed_spec (e : Expr) :
    (e.isClosed = .ok true ↔ ¬ e.HasParam ∧ ¬ e.HasLambda) ∧
    (e.isClosed = .ok false → e.HasParam) ∧
    (∀ err, e.isClosed = .error err → err = .unsupportedNode "Lambda" ∧ e.HasLambda) ∧
    (e.isClosed = .ok true →
      ∀ (v : Evaluator) (node : String), v.evaluate e ≠ .error (.notEvaluatable node)) := by
  refine ⟨Expr.isClosed_iff, fun hopen => ?_, Expr.isClosed_fails e, fun hclosed v node herr => ?_⟩
  · rcases e.isClosed_cases with h | ⟨-, hparam⟩ | ⟨h, -⟩
    · cases h.symm.trans hopen
    · exact hparam
    · cases h.symm.trans hopen
  · obtain ⟨hparam, hlambda⟩ := Expr.isClosed_iff.1 hclosed
    cases evaluate_fails e _ herr with
    | value h => cases h
    | param h => exact hparam h
    | lambda h => exact hlambda h

end Evaluator

end PredicateSql
