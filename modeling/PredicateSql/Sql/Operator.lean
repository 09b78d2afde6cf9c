import PredicateSql.Expr.Basic

/-!
# Operators of SQL

* `Operator`: the operators that a query is built from. Some of them name a construct that is
  written without a token of its own.
* `Operator.invert`: the operator that yields the logical complement.
* `Operator.token`: how an operator is written, with the blanks around it.
* `Operator.ofBinary?`: the operator of SQL for an operator of expressions.
-/

namespace PredicateSql.Sql

/-- An operator of SQL. -/
inductive Operator where
  | null
  | new
  | lambda
  | evaluate
  | conditional
  | call
  | negative
  | and
  | or
  | equals
  | notEquals
  | lessOrEqual
  | greaterOrEqual
  | less
  | greater
  | divide
  | subtract
  | add
  | multiply
  | modulus
  | equalsNull
  | notEqualsNull
  deriving Repr, DecidableEq, Inhabited

namespace Operator

/-- The operator that yields the logical complement; an operator without one is its own. -/
def invert : Operator → Operator
  | .and => .or
  | .or => .and
  | .equals => .notEquals
  | .notEquals => .equals
  | .less => .greaterOrEqual
  | .greaterOrEqual => .less
  | .lessOrEqual => .greater
  | .greater => .lessOrEqual
  | .equalsNull => .notEqualsNull
  | .notEqualsNull => .equalsNull
  | op => op

/-- Inverting twice gives the operator back. -/
theorem invert_invert (op : Operator) : op.invert.invert = op := by
  cases op <;> rfl

/-- The operator, or its complement under a negation. -/
def invertIf (negated : Bool) (op : Operator) : Operator :=
  if negated then op.invert else op

/-- How an operator is written, with the blanks around it. -/
def token : Operator → String
  | .null => "NULL"
  | .negative => "-"
  | .and => " AND "
  | .or => " OR "
  | .equals => " = "
  | .notEquals => " <> "
  | .lessOrEqual => " <= "
  | .greaterOrEqual => " >= "
  | .less => " < "
  | .greater => " > "
  | .divide => " / "
  | .subtract => " - "
  | .add => " + "
  | .multiply => " * "
  | .modulus => " % "
  | .equalsNull => " IS NULL"
  | .notEqualsNull => " IS NOT NULL"
  | .new | .lambda | .evaluate | .conditional | .call => ""

/-- The operator of SQL for an operator of expressions. There is none for the element of a
sequence. -/
def ofBinary? : BinaryOp → Option Operator
  | .add => some .add
  | .subtract => some .subtract
  | .multiply => some .multiply
  | .divide => some .divide
  | .modulo => some .modulus
  | .and => some .and
  | .or => some .or
  | .equal => some .equals
  | .notEqual => some .notEquals
  | .less => some .less
  | .lessOrEqual => some .lessOrEqual
  | .greater => some .greater
  | .greaterOrEqual => some .greaterOrEqual
  | .index => none

end Operator

end PredicateSql.Sql
