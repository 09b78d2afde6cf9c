import PredicateSql.Proofs.Expr.Parts
import PredicateSql.Proofs.Query.Places

/-!
# What is certain to be `null`

Before a comparison for equality is written, it is looked up which of its operands are certain to be
`null`. Without parameters and lambdas an operand has a value, or fails to have one. The lookup
answers by that value, except that it takes all that is reached through something `null` for `null`.

* `Context.isProvablyNull_of_asked`: where something `null` was asked whether it has a value, the
  operand is a condition, and the lookup takes it for `null`. The induction is on the chain of
  members, elements and casts, and the value at each of its links is a condition.
* `Context.nullTest?_left`, `Context.nullTest?_right`: what an answer decides.
* `Context.isProvablyNull_spec`: where the lookup is exact.
-/

namespace PredicateSql

namespace Context

variable {c : Context} {e other : Expr} {v : Value} {isNull : Bool}

/-! ### Closed operands -/

/-- A member of a condition is a condition. -/
theorem bool_of_memberOf {b : Bool} {name : String}
    (h : Evaluator.memberOf (.bool b) name = .ok v) : ∃ b', v = .bool b' := by
  have hown : (Value.bool b).ownMember? name = none := rfl
  simp only [Evaluator.memberOf, Value.member?, hown] at h
  by_cases hasValue : name = "HasValue"
  · simp only [if_pos hasValue] at h
    exact ⟨true, (Except.ok.inj h).symm⟩
  · by_cases value : name = "Value"
    · simp only [if_neg hasValue, if_pos value] at h
      exact ⟨b, (Except.ok.inj h).symm⟩
    · simp only [if_neg hasValue, if_neg value] at h
      cases h

/-- What follows the question whether something `null` has a value is a condition, and the lookup
takes it for `null`. -/
theorem isProvablyNull_of_asked (hclosed : e.isClosed = .ok true)
    (hvalue : c.evaluator.evaluate e = .ok v) (hasks : c.asksNull e = true) :
    c.isProvablyNull e = .ok true ∧ ∃ b, v = .bool b := by
  induction e using isProvablyNull.induct generalizing v with
  | case1 type value => cases hasks
  | case2 owner type name ih =>
    rw [Evaluator.evaluate] at hvalue
    obtain ⟨o, ho, hmember⟩ := bind_eq_ok.1 hvalue
    rw [isProvablyNull]
    by_cases hasked : c.asksNull owner = true
    · obtain ⟨hnull, b, rfl⟩ := ih hclosed ho hasked
      rw [hnull]
      exact ⟨rfl, bool_of_memberOf hmember⟩
    · -- The owner is `null`, and it is this member that asks.
      rw [Bool.not_eq_true] at hasked
      have hname : name = "HasValue" ∧ o.isNull = true := by
        simpa [asksNull, hasked, evaluatesToNull, ho] using hasks
      have howner : c.isProvablyNull owner = .ok o.isNull :=
        isProvablyNull_of_closed hclosed ho hasked
      rw [howner, hname.2]
      cases o with
      | null =>
        simp only [Evaluator.memberOf, Value.member?, if_pos hname.1] at hmember
        exact ⟨rfl, false, (Except.ok.inj hmember).symm⟩
      | _ => cases hname.2
  | case3 sequence index ih =>
    have hsequence : sequence.isClosed = .ok true :=
      (Expr.isClosed_eq_ok.1 hclosed).2.2 sequence List.mem_cons_self
    rw [Evaluator.evaluate] at hvalue
    · obtain ⟨o, ho, hvalue⟩ := bind_eq_ok.1 hvalue
      obtain ⟨i, -, hvalue⟩ := bind_eq_ok.1 hvalue
      obtain ⟨-, b, rfl⟩ := ih hsequence ho hasks
      -- A condition has no elements.
      cases hvalue
    all_goals decide
  | case4 operand ih =>
    rw [Evaluator.evaluate] at hvalue
    obtain ⟨o, ho, hvalue⟩ := bind_eq_ok.1 hvalue
    obtain rfl := Except.ok.inj hvalue
    exact ih hclosed ho hasks
  | case5 e hconstant hmember hindex hconvert =>
    rw [asksNull] at hasks <;> first | cases hasks | assumption

/-! ### Comparisons -/

/-- Next to an operand that may have a value, the lookup of the left operand decides whether a
comparison becomes a test of the right one. -/
theorem nullTest?_left (op : Sql.Operator) (h : c.isProvablyNull e = .ok isNull)
    (hother : c.isProvablyNull other = .ok false) :
    c.nullTest? op e other =
      .ok (if isNull then op.asNullTest?.map fun test => (true, test) else none) := by
  rw [nullTest?_eq_ok h hother]
  cases isNull <;> cases op.asNullTest? <;> rfl

theorem nullTest?_right (op : Sql.Operator) (h : c.isProvablyNull e = .ok isNull)
    (hother : c.isProvablyNull other = .ok false) :
    c.nullTest? op other e =
      .ok (if isNull then op.asNullTest?.map fun test => (false, test) else none) := by
  rw [nullTest?_eq_ok hother h]
  cases isNull <;> cases op.asNullTest? <;> rfl

/-- An operand without parameters and lambdas that has a value is taken for `null` exactly if its
value is `null`, unless something `null` is asked for whether it has a value. Then the operand is a
condition, and it is taken for `null`. So a comparison of any other operand with something that may
have a value becomes a test of the latter exactly if the value of the former is `null`. -/
theorem isProvablyNull_spec (hparam : ¬ e.HasParam) (hlambda : ¬ e.HasLambda)
    (hvalue : c.evaluator.evaluate e = .ok v) :
    (c.isProvablyNull e = .ok v.isNull ↔ c.asksNull e = false) ∧
    (c.asksNull e = true → c.isProvablyNull e = .ok true ∧ ∃ b, v = .bool b) ∧
    (c.asksNull e = false → ∀ op other, c.isProvablyNull other = .ok false →
      c.nullTest? op e other =
          .ok (if v.isNull then op.asNullTest?.map fun test => (true, test) else none) ∧
        c.nullTest? op other e =
          .ok (if v.isNull then op.asNullTest?.map fun test => (false, test) else none)) := by
  have hclosed := Expr.isClosed_iff.2 ⟨hparam, hlambda⟩
  refine ⟨⟨fun h => ?_, isProvablyNull_of_closed hclosed hvalue⟩,
    isProvablyNull_of_asked hclosed hvalue, fun hasks op other hother => ?_⟩
  · by_contra hasks
    rw [Bool.not_eq_false] at hasks
    obtain ⟨hnull, b, rfl⟩ := isProvablyNull_of_asked hclosed hvalue hasks
    cases hnull.symm.trans h
  · have h := isProvablyNull_of_closed hclosed hvalue hasks
    exact ⟨nullTest?_left op h hother, nullTest?_right op h hother⟩

/-- A person without a manager: the name of the manager is `null`. -/
theorem isProvablyNull_spec_manager :
    let person : Expr := .ofValue (.record "Person" [("Manager", .null)])
    let e : Expr := .memberOf (.memberOf person "Manager") "Name"
    let name : Expr := .memberOf (.param "p" "Person") "Name"
    (¬ e.HasParam ∧ ¬ e.HasLambda) ∧
      Compiler.named.context.evaluator.evaluate e = .ok .null ∧
      Compiler.named.context.isProvablyNull e = .ok true ∧
      Compiler.named.context.nullTest? .equals name e = .ok (some (false, .equalsNull)) := by
  intro person e name
  have hclosed : ¬ e.HasParam ∧ ¬ e.HasLambda := Expr.isClosed_iff.1 rfl
  obtain ⟨hexact, -, htest⟩ :=
    @isProvablyNull_spec Compiler.named.context e .null hclosed.1 hclosed.2 rfl
  exact ⟨hclosed, rfl, hexact.2 rfl, (htest rfl .equals name rfl).2⟩

/-- `null` has no value, so the answer to the question is `false`. The lookup takes the answer for
`null`, and the comparison with it becomes a test for `null`. -/
theorem isProvablyNull_fails :
    let e : Expr := .memberOf (.ofValue .null) "HasValue"
    let name : Expr := .memberOf (.param "p" "Person") "Name"
    (¬ e.HasParam ∧ ¬ e.HasLambda) ∧
      Compiler.named.context.evaluator.evaluate e = .ok (.bool false) ∧
      Compiler.named.context.isProvablyNull e = .ok true ∧
      (Compiler.named.build
        { model := "Person"
          filter := some (.lambdaOver "p" "Person" (.binary .equal name e)) }).map
        Sql.Query.filter = .ok (some (.isNull (.column "t0" "Name") .equalsNull)) := by
  intro e name
  exact ⟨Expr.isClosed_iff.1 rfl, rfl, rfl, rfl⟩

end Context

end PredicateSql
