import PredicateSql.Binary64.Remainder
import PredicateSql.Error

/-!
# Arithmetic and comparison of values

* `Value.equals`: equality, with whole numbers taken for floats where they meet one.
* `Value.compare?`: the order of two values of one type, or of two numbers.
* `checked`: a whole number as a value, if its sixty-four bits hold it.
* `Value.apply`: the value of an operator whose operands are values. Operators on conditions are
  left out: they may not look at their second operand.
-/

namespace PredicateSql

namespace Value

/-- A number as a float. -/
def float? : Value → Option Float
  | .int i => some i.toFloat
  | .float x => some x
  | _ => none

/-- Equality of two values. A whole number is equal to a float if it is when made one. -/
def equals (a b : Value) : Bool :=
  match a, b with
  | .int i, .float x => i.toFloat == x
  | .float x, .int i => x == i.toFloat
  | _, _ => a.beq b

/-- The order of two floats, if neither of them is `NaN`. -/
def compareFloats? (x y : Float) : Option Ordering :=
  if x < y then some .lt else if x == y then some .eq else if y < x then some .gt else none

/-- The order of two values. -/
def compare? : Value → Value → Option Ordering
  | .int a, .int b => some (compare a.toInt b.toInt)
  | .string a, .string b => some (compare a b)
  | .date a, .date b => some (compare a b)
  | .dateTime a, .dateTime b => some (compare a b)
  | .bool a, .bool b => some (compare a b)
  | a, b => do compareFloats? (← a.float?) (← b.float?)

end Value

/-- The least whole number that a value holds. -/
def minInt : Int := -9223372036854775808

/-- The greatest whole number that a value holds. -/
def maxInt : Int := 9223372036854775807

/-- A whole number as a value. -/
def checked (n : Int) : Except EvaluationFailure Value :=
  if minInt ≤ n ∧ n ≤ maxInt then return .int (.ofInt n) else throw .integerOverflow

/-- An operator between two whole numbers. Division rounds toward zero. A remainder is taken only
where there is a quotient, so the least number has none by minus one. -/
def applyInts (op : BinaryOp) (a b : Int64) : Except EvaluationFailure Value :=
  let m := a.toInt
  let n := b.toInt
  match op with
  | .add => checked (m + n)
  | .subtract => checked (m - n)
  | .multiply => checked (m * n)
  | .divide => if n = 0 then throw .divisionByZero else checked (m.tdiv n)
  | .modulo =>
    if n = 0 then throw .divisionByZero
    else if m = minInt ∧ n = -1 then throw .integerOverflow
    else checked (m.tmod n)
  | _ => throw (.invalidOperands (.int a) op (.int b))

/-- An operator between two numbers of which at least one is a float. -/
def applyFloats? (op : BinaryOp) (x y : Float) : Option Value :=
  match op with
  | .add => some (.float (x + y))
  | .subtract => some (.float (x - y))
  | .multiply => some (.float (x * y))
  | .divide => some (.float (x / y))
  | .modulo => some (.float (Binary64.remainder x y))
  | _ => none

/-- The element of a list, or the character of a string, at a position counted from zero. -/
def applyIndex (sequence index : Value) : Except EvaluationFailure Value :=
  match sequence, index with
  | .list items, .int i =>
    if i.toInt < 0 then throw (.indexOutOfRange i)
    else
      match items[i.toInt.toNat]? with
      | some item => return item
      | none => throw (.indexOutOfRange i)
  | .string s, .int i =>
    if i.toInt < 0 then throw (.indexOutOfRange i)
    else
      match s.toList[i.toInt.toNat]? with
      | some c => return .string (.singleton c)
      | none => throw (.indexOutOfRange i)
  | _, _ => throw (.invalidOperands sequence .index index)

/-- The answer to a comparison of two values in a given order. -/
def orderedAs (op : BinaryOp) (order : Ordering) : Bool :=
  match op with
  | .less => order == .lt
  | .lessOrEqual => order != .gt
  | .greater => order == .gt
  | _ => order != .lt

/-- A comparison for order, which `null` always fails. -/
def applyComparison (op : BinaryOp) (left right : Value) : Except EvaluationFailure Value :=
  if left.isNull || right.isNull then return .bool false
  else
    match left.compare? right with
    | some order => return .bool (orderedAs op order)
    | none => throw (.invalidOperands left op right)

/-- The value is a string. -/
def isString : Value → Bool
  | .string _ => true
  | _ => false

/-- An arithmetic operator. A sum with a string joins the texts of its operands; otherwise `null`
makes the result `null`. -/
def applyArithmetic (op : BinaryOp) (left right : Value) : Except EvaluationFailure Value :=
  if op = .add ∧ (isString left || isString right) then
    return .string (left.renderPlain ++ right.renderPlain)
  else if left.isNull || right.isNull then return .null
  else
    match left, right with
    | .int a, .int b => applyInts op a b
    | _, _ =>
      match left.float?, right.float? with
      | some x, some y =>
        match applyFloats? op x y with
        | some v => return v
        | none => throw (.invalidOperands left op right)
      | _, _ => throw (.invalidOperands left op right)

/-- The value of an operator that needs the values of both its operands. -/
def Value.apply (op : BinaryOp) (left right : Value) : Except EvaluationFailure Value :=
  match op with
  | .equal => return .bool (left.equals right)
  | .notEqual => return .bool (!left.equals right)
  | .less | .lessOrEqual | .greater | .greaterOrEqual => applyComparison op left right
  | .index => applyIndex left right
  | .and | .or => throw (.invalidOperands left op right)
  | .add | .subtract | .multiply | .divide | .modulo => applyArithmetic op left right

/-- The value of an operator with one operand. -/
def Value.applyUnary (op : UnaryOp) (operand : Value) : Except EvaluationFailure Value :=
  match op, operand with
  | .convert, v => return v
  | _, .null => return .null
  | .not, .bool b => return .bool (!b)
  | .negate, .int i => checked (-i.toInt)
  | .negate, .float x => return .float (-x)
  | op, v => throw (.invalidOperand op v)

end PredicateSql
