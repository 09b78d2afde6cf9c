import Mathlib.Data.Int.Order.Basic
import PredicateSql.Evaluation.Evaluator
import PredicateSql.Proofs.Expr.Parts

/-!
# Calculations with whole numbers

The values of a calculation have sixty-four bits, and the numbers it is about have no bounds.

* `Expr.IsCalculation`: whole numbers, the operators of arithmetic, signs and casts.
* `Expr.integer`: the number that a calculation stands for. Quotients are rounded toward zero.
* `Expr.IsExact`: every number on the way is a value, and no operator meets operands that it is not
  defined on.
* `Computes`: a computation that gives a number if a condition holds, and otherwise fails.
  `Computes.bind` puts such computations together.
* `Evaluator.evaluate_calculation`: exactly the exact calculations have a value, and it is their
  number. The induction is on the calculation.
-/

namespace PredicateSql

/-! ### Numbers -/

/-- The number is one that a value can hold. -/
def InRange (n : Int) : Prop :=
  minInt ≤ n ∧ n ≤ maxInt

theorem inRange_toInt (i : Int64) : InRange i.toInt := by
  have hlow := i.le_toInt
  have hhigh := i.toInt_lt
  unfold InRange minInt maxInt
  omega

theorem toInt_ofInt_of_inRange {n : Int} (h : InRange n) : (Int64.ofInt n).toInt = n := by
  unfold InRange minInt maxInt at h
  apply Int64.toInt_ofInt_of_le
  · omega
  · omega

namespace BinaryOp

/-- The operator makes a number of two numbers. -/
def isArithmetic : BinaryOp → Bool
  | .add | .subtract | .multiply | .divide | .modulo => true
  | _ => false

/-- The operator divides by its second operand. -/
def isDivision : BinaryOp → Bool
  | .divide | .modulo => true
  | _ => false

/-- The number that an operator makes of two numbers without bounds. -/
def onIntegers : BinaryOp → Int → Int → Int
  | .add, a, b => a + b
  | .subtract, a, b => a - b
  | .multiply, a, b => a * b
  | .divide, a, b => a.tdiv b
  | .modulo, a, b => a.tmod b
  | _, _, _ => 0

/-- Nothing is divided by zero, and the least number that a value holds has no remainder by minus
one, as it has no quotient. -/
def IsDefinedOn (op : BinaryOp) (a b : Int) : Prop :=
  (op.isDivision = true → b ≠ 0) ∧ ¬ (op = .modulo ∧ a = minInt ∧ b = -1)

end BinaryOp

/-! ### Calculations -/

namespace Expr

/-- A calculation with whole numbers. -/
inductive IsCalculation : Expr → Prop
  | int (type : ValueType) (i : Int64) : IsCalculation (.constant type (.int i))
  | binary {op : BinaryOp} {left right : Expr} (hop : op.isArithmetic = true)
    (hleft : IsCalculation left) (hright : IsCalculation right) :
    IsCalculation (.binary op left right)
  | negate {operand : Expr} (h : IsCalculation operand) : IsCalculation (.unary .negate operand)
  | convert {operand : Expr} (h : IsCalculation operand) : IsCalculation (.unary .convert operand)

/-- The number that a calculation stands for. -/
def integer : Expr → Int
  | .constant _ (.int i) => i.toInt
  | .binary op left right => op.onIntegers left.integer right.integer
  | .unary .negate operand => -operand.integer
  | .unary .convert operand => operand.integer
  | _ => 0

/-- The operator of the node is defined on the numbers of its operands. -/
def IsDefined : Expr → Prop
  | .binary op left right => op.IsDefinedOn left.integer right.integer
  | _ => True

/-- Within a calculation, all numbers are in range, and all operators are defined on their
operands. -/
def IsExact (e : Expr) : Prop :=
  ∀ x : Expr, x.IsPartOf e → x.IsDefined ∧ InRange x.integer

theorem isExact_iff {e : Expr} :
    e.IsExact ↔ (∀ operand ∈ e.operands, operand.IsExact) ∧ e.IsDefined ∧ InRange e.integer := by
  constructor
  · intro h
    exact ⟨fun operand hoperand x hx => h x (.operand hoperand hx), h e .self⟩
  · rintro ⟨hoperands, he⟩ x hx
    rcases isPartOf_iff.1 hx with rfl | ⟨operand, hoperand, hx⟩
    · exact he
    · exact hoperands operand hoperand x hx

end Expr

/-! ### Outcomes -/

/-- The failures of arithmetic. -/
def EvaluationFailure.isArithmetic : EvaluationFailure → Bool
  | .integerOverflow | .divisionByZero => true
  | _ => false

/-- If the condition holds then the computation gives the number, and otherwise it fails. -/
structure Computes (p : Prop) (n : Int) (x : Except QueryError Value) : Prop where
  gives : p → ∃ i : Int64, i.toInt = n ∧ x = .ok (.int i)
  fails : ¬ p → ∃ failure : EvaluationFailure, failure.isArithmetic = true ∧
    x = .error (.evaluation failure)

namespace Computes

variable {p q : Prop} {m n : Int} {x : Except QueryError Value}

theorem congr (h : Computes p n x) (hpq : p ↔ q) : Computes q n x := by
  rwa [← propext hpq]

theorem int (i : Int64) : Computes True i.toInt (.ok (.int i)) :=
  ⟨fun _ => ⟨i, rfl, rfl⟩, fun h => absurd trivial h⟩

theorem throw {failure : EvaluationFailure} (hp : ¬ p) (h : failure.isArithmetic = true) :
    Computes p n (failing (MonadExcept.throw failure)) :=
  ⟨fun hp' => absurd hp' hp, fun _ => ⟨failure, h, rfl⟩⟩

/-- Both computations must give their numbers. -/
theorem bind {f : Value → Except QueryError Value} (hx : Computes p m x)
    (hf : ∀ i : Int64, i.toInt = m → Computes q n (f (.int i))) :
    Computes (p ∧ q) n (x >>= f) := by
  constructor
  · rintro ⟨hp, hq⟩
    obtain ⟨i, hi, rfl⟩ := hx.gives hp
    exact (hf i hi).gives hq
  · intro hpq
    by_cases hp : p
    · obtain ⟨i, hi, rfl⟩ := hx.gives hp
      exact (hf i hi).fails fun hq => hpq ⟨hp, hq⟩
    · obtain ⟨failure, hfailure, rfl⟩ := hx.fails hp
      exact ⟨failure, hfailure, rfl⟩

/-- A number becomes a value if it is in range. -/
theorem checked (n : Int) : Computes (InRange n) n (failing (PredicateSql.checked n)) := by
  unfold PredicateSql.checked
  split
  · next h => exact ⟨fun _ => ⟨.ofInt n, toInt_ofInt_of_inRange h, rfl⟩, fun hn => absurd h hn⟩
  · next h => exact throw h rfl

/-- One operator between two values. -/
theorem applyInts {op : BinaryOp} (hop : op.isArithmetic = true) (a b : Int64) :
    Computes (op.IsDefinedOn a.toInt b.toInt ∧ InRange (op.onIntegers a.toInt b.toInt))
      (op.onIntegers a.toInt b.toInt) (failing (PredicateSql.applyInts op a b)) := by
  have hchecked := checked (op.onIntegers a.toInt b.toInt)
  unfold PredicateSql.applyInts
  cases op with
  | add | subtract | multiply =>
    exact hchecked.congr (by simp [BinaryOp.IsDefinedOn, BinaryOp.isDivision])
  | divide =>
    dsimp only
    split
    · next hb => exact throw (fun h => h.1.1 rfl hb) rfl
    · next hb => exact hchecked.congr (by simp [BinaryOp.IsDefinedOn, hb])
  | modulo =>
    dsimp only
    split
    · next hb => exact throw (fun h => h.1.1 rfl hb) rfl
    · next hb =>
      split
      · next hmin => exact throw (fun h => h.1.2 ⟨rfl, hmin⟩) rfl
      · next hmin => exact hchecked.congr (by simp [BinaryOp.IsDefinedOn, hb, hmin])
  | _ => cases hop

end Computes

/-! ### Evaluation -/

namespace Evaluator

variable {v : Evaluator} {e : Expr}

theorem evaluate_arithmetic {op : BinaryOp} {left right : Expr} (hop : op.isArithmetic = true) :
    v.evaluate (.binary op left right) =
      v.evaluate left >>= fun a => v.evaluate right >>= fun b => failing (a.apply op b) := by
  cases op <;> first | rfl | cases hop

theorem apply_ints {op : BinaryOp} (hop : op.isArithmetic = true) (a b : Int64) :
    (Value.int a).apply op (.int b) = applyInts op a b := by
  cases op <;> first | rfl | cases hop

/-- The evaluation of a calculation gives its number if the calculation is exact. -/
theorem computes_calculation (h : e.IsCalculation) :
    Computes e.IsExact e.integer (v.evaluate e) := by
  induction h with
  | int type i =>
    refine (Computes.int i).congr ?_
    rw [Expr.isExact_iff]
    simp [Expr.operands, Expr.IsDefined, Expr.integer, inRange_toInt]
  | @binary op left right hop _ _ hleft hright =>
    rw [evaluate_arithmetic hop]
    have hnode : ∀ i : Int64, i.toInt = left.integer → ∀ j : Int64, j.toInt = right.integer →
        Computes
          ((Expr.binary op left right).IsDefined ∧ InRange (Expr.binary op left right).integer)
          (Expr.binary op left right).integer (failing ((Value.int i).apply op (.int j))) := by
      intro i hi j hj
      rw [apply_ints hop, Expr.IsDefined, Expr.integer, ← hi, ← hj]
      exact Computes.applyInts hop i j
    have hrest : ∀ i : Int64, i.toInt = left.integer →
        Computes (right.IsExact ∧ (Expr.binary op left right).IsDefined ∧
            InRange (Expr.binary op left right).integer)
          (Expr.binary op left right).integer
          (v.evaluate right >>= fun b => failing ((Value.int i).apply op b)) :=
      fun i hi => hright.bind (hnode i hi)
    refine (Computes.bind (f := fun a => v.evaluate right >>= fun b => failing (a.apply op b))
      hleft hrest).congr ?_
    rw [Expr.isExact_iff (e := .binary op left right)]
    simp [Expr.operands, and_assoc]
  | @negate operand _ hoperand =>
    rw [evaluate]
    have hnode : ∀ i : Int64, i.toInt = operand.integer →
        Computes (InRange (-operand.integer)) (-operand.integer)
          (failing ((Value.int i).applyUnary .negate)) := by
      intro i hi
      rw [← hi]
      exact Computes.checked (-i.toInt)
    refine (hoperand.bind hnode).congr ?_
    rw [Expr.isExact_iff (e := .unary .negate operand)]
    simp [Expr.operands, Expr.IsDefined, Expr.integer]
  | @convert operand _ hoperand =>
    rw [evaluate]
    have hnode : ∀ i : Int64, i.toInt = operand.integer →
        Computes True operand.integer (failing ((Value.int i).applyUnary .convert)) := by
      intro i hi
      rw [← hi]
      exact Computes.int i
    refine (hoperand.bind hnode).congr ?_
    -- A cast computes nothing, so its number is in range if that of its operand is.
    rw [Expr.isExact_iff (e := .unary .convert operand)]
    have hrange : operand.IsExact → InRange operand.integer := fun h => (h operand .self).2
    simpa [Expr.operands, Expr.IsDefined, Expr.integer] using hrange

/-- A calculation has a value exactly if it is exact, and the value is its number. Any other
calculation fails over its numbers. -/
theorem evaluate_calculation (v : Evaluator) (h : e.IsCalculation) :
    (∀ n : Int64, v.evaluate e = .ok (.int n) ↔ e.IsExact ∧ n.toInt = e.integer) ∧
    (e.IsExact → ∃ n : Int64, v.evaluate e = .ok (.int n)) ∧
    (¬ e.IsExact → ∃ failure : EvaluationFailure, failure.isArithmetic = true ∧
      v.evaluate e = .error (.evaluation failure)) := by
  have hcomputes : Computes e.IsExact e.integer (v.evaluate e) := computes_calculation h
  refine ⟨fun n => ⟨fun hn => ?_, ?_⟩, fun hexact => ?_, hcomputes.fails⟩
  · by_cases hexact : e.IsExact
    · obtain ⟨i, hi, hvalue⟩ := hcomputes.gives hexact
      obtain rfl : n = i := Value.int.inj (Except.ok.inj (hn.symm.trans hvalue))
      exact ⟨hexact, hi⟩
    · obtain ⟨failure, -, hfailure⟩ := hcomputes.fails hexact
      cases hn.symm.trans hfailure
  · rintro ⟨hexact, hn⟩
    obtain ⟨i, hi, hvalue⟩ := hcomputes.gives hexact
    rwa [Int64.toInt_inj.1 (hn.trans hi.symm)]
  · obtain ⟨i, -, hvalue⟩ := hcomputes.gives hexact
    exact ⟨i, hvalue⟩

/-- The least number divided by two and back is a number, and its remainder by minus one is none. -/
theorem evaluate_calculation_least :
    let int : Int64 → Expr := fun i => .ofValue (.int i)
    let least : Expr := .binary .multiply (.binary .divide (int (.ofInt minInt)) (int 2)) (int 2)
    let remainder : Expr := .binary .modulo (int (.ofInt minInt)) (.unary .negate (int 1))
    ∀ v : Evaluator,
      (v.evaluate least = .ok (.int (.ofInt minInt)) ∧ least.IsExact ∧ least.integer = minInt) ∧
      remainder.integer = 0 ∧ ¬ remainder.IsExact := by
  intro int least remainder v
  have hleast : least.IsCalculation := .binary rfl (.binary rfl (.int _ _) (.int _ _)) (.int _ _)
  have hremainder : remainder.IsCalculation := .binary rfl (.int _ _) (.negate (.int _ _))
  have hvalue : v.evaluate least = .ok (.int (.ofInt minInt)) := rfl
  have hfailure : v.evaluate remainder = .error (.evaluation .integerOverflow) := rfl
  refine ⟨⟨hvalue, ((evaluate_calculation v hleast).1 _).1 hvalue |>.1, by decide⟩, by decide, ?_⟩
  intro hexact
  obtain ⟨n, hn⟩ := (evaluate_calculation v hremainder).2.1 hexact
  cases hfailure.symm.trans hn

end Evaluator

end PredicateSql
