import PredicateSql.Evaluation.Calls
import PredicateSql.Expr.Closed

/-!
# Evaluation of closed expressions

* `ClosedEvaluator`: what gives closed expressions their values, which a caller may supply.
* `Evaluator`: the standard one, with the values of static members, those that are registered and
  those of the clock.
* `Evaluator.staticMember`: the value of a static member.
* `Evaluator.evaluate`: the value of an expression in which no parameter occurs.
-/

namespace PredicateSql

/-- What a clock shows whenever it is read. Time stands still from the first expression that is
evaluated to the last one, where a real clock may have moved on between two members that read it. -/
structure Clock where
  /-- The time at the place of the clock. -/
  localTime : DateTime
  utcTime : DateTime
  deriving Repr, DecidableEq, Inhabited

/-- Gives closed expressions their values. Constants and members are the same to all evaluators
(`ClosedEvaluator.evaluate`), and only static members and other shapes are asked for. -/
class ClosedEvaluator (V : Type) where
  /-- The value of a static member. -/
  staticMember (v : V) (type name : String) : Except QueryError Value
  /-- The value of a closed expression that is neither a constant nor a member. -/
  evaluateClosed (v : V) (e : Expr) : Except QueryError Value

/-- The values that expressions may name. -/
structure Evaluator where
  clock : Clock
  /-- Registered values by type and member, the latest first. -/
  statics : List ((String × String) × Value) := []
  deriving Inhabited, Repr

namespace Evaluator

/-- Makes a static member stand for a value, whatever it stood for before. -/
def withStatic (v : Evaluator) (type name : String) (value : Value) : Evaluator :=
  { v with statics := ((type, name), value) :: v.statics }

/-- Static members that need no registration. -/
def builtin? (clock : Clock) (type name : String) : Option Value :=
  match type, name with
  | "DateTime", "Now" => some (.dateTime clock.localTime)
  | "DateTime", "UtcNow" => some (.dateTime clock.utcTime)
  | "DateTime", "Today" => some (.dateTime (.ofDate clock.localTime.date))
  | "string", "Empty" | "String", "Empty" => some (.string "")
  | "int", "MaxValue" | "Int32", "MaxValue" => some (.int 2147483647)
  | "int", "MinValue" | "Int32", "MinValue" => some (.int (-2147483648))
  | "long", "MaxValue" | "Int64", "MaxValue" => some (.int 9223372036854775807)
  | "long", "MinValue" | "Int64", "MinValue" => some (.int (-9223372036854775808))
  | _, _ => none

/-- The value of a static member: the registered one, or else the one that it always has. All
members that read the clock read the same time. -/
def staticMember (v : Evaluator) (type name : String) : Except QueryError Value :=
  match (v.statics.lookup (type, name)).or (builtin? v.clock type name) with
  | some value => return value
  | none => throw (.unsupportedMember type name)

/-- The value of a member of a value. -/
def memberOf (owner : Value) (name : String) : Except QueryError Value :=
  match owner.member? name with
  | some value => return value
  | none => throw (.unsupportedMember owner.typeName name)

/-- The operand of a logical operator as a condition. -/
def condition (op : BinaryOp) (operand : Value) : Except QueryError Bool :=
  match operand with
  | .bool b => return b
  | other => throw (.evaluation (.conditionExpected op other))

/-- The meaning of a method, which only a known name has. -/
def meaning (method : Method) : Except QueryError KnownMethod :=
  match method.known? with
  | some known => return known
  | none => throw (.unsupportedMethod method)

mutual

/-- The value of a closed expression. The second operand of `&&` and `||` is looked at only if the
first does not decide, and only one branch of a conditional is. -/
def evaluate (v : Evaluator) : Expr → Except QueryError Value
  | .constant _ value => return value
  | .member owner _ name => do memberOf (← v.evaluate owner) name
  | .staticMember type name => v.staticMember type name
  | .binary .and left right => do
    if ← condition .and (← v.evaluate left) then
      return .bool (← condition .and (← v.evaluate right))
    else return .bool false
  | .binary .or left right => do
    if ← condition .or (← v.evaluate left) then return .bool true
    else return .bool (← condition .or (← v.evaluate right))
  | .binary op left right => do
    let left ← v.evaluate left
    let right ← v.evaluate right
    failing (left.apply op right)
  | .unary op operand => do failing ((← v.evaluate operand).applyUnary op)
  | .conditional test ifTrue ifFalse => do
    match ← v.evaluate test with
    | .bool true => v.evaluate ifTrue
    | .bool false => v.evaluate ifFalse
    | other => throw (.evaluation (.testExpected other))
  | .array _ items => return .list (← v.evaluateAll items)
  | .new type args => do failing (construct type (← v.evaluateAll args))
  | .call target method args => do
    let known ← meaning method
    let target ← v.evaluate target
    callOn target method known (← v.evaluateAll args)
  | .staticCall method args => do
    let known ← meaning method
    callStatic method known (← v.evaluateAll args)
  | .param .. => throw (.notEvaluatable "Parameter")
  | .lambda .. => throw (.notEvaluatable "Lambda")

/-- The values of some closed expressions, from the left. -/
def evaluateAll (v : Evaluator) : List Expr → Except QueryError (List Value)
  | [] => return []
  | e :: rest => do
    let value ← v.evaluate e
    return value :: (← v.evaluateAll rest)

end

end Evaluator

/-! ### Evaluators in general -/

instance : ClosedEvaluator Evaluator where
  staticMember := Evaluator.staticMember
  evaluateClosed := Evaluator.evaluate

namespace ClosedEvaluator

/-- The value of a closed expression. -/
def evaluate {V : Type} [ClosedEvaluator V] (v : V) : Expr → Except QueryError Value
  | .constant _ value => return value
  | .member owner _ name => do Evaluator.memberOf (← evaluate v owner) name
  | .staticMember type name => staticMember v type name
  | e => evaluateClosed v e

/-- The standard evaluator gives constants and members the values that all evaluators do. -/
@[simp] theorem evaluate_standard (v : Evaluator) (e : Expr) : evaluate v e = v.evaluate e := by
  induction e using evaluate.induct with
  | case1 => rfl
  | case2 owner _ _ ih => rw [evaluate, Evaluator.evaluate, ih]
  | case3 => rfl
  | case4 e hconstant hmember hstatic =>
    rw [evaluate]
    · rfl
    · exact hconstant
    · exact hmember
    · exact hstatic

end ClosedEvaluator

end PredicateSql
