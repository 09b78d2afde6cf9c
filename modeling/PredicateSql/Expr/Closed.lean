import PredicateSql.Error

/-!
# Closed expressions

`Expr.isClosed` tells whether an expression has a value of its own, which it has if no parameter
occurs in it. A lambda within an expression is an error, because nothing is ever bound to its
parameters. The subtrees are looked at from the left, and the first parameter or lambda decides.
-/

namespace PredicateSql.Expr

mutual

/-- No parameter occurs in the expression. -/
def isClosed : Expr → Except QueryError Bool
  | .binary _ left right => do
    if ← left.isClosed then right.isClosed else return false
  | .unary _ operand => operand.isClosed
  | .member owner _ _ => owner.isClosed
  | .staticMember .. | .constant .. => return true
  | .param .. => return false
  | .call target _ args => do
    if ← target.isClosed then areClosed args else return false
  | .staticCall _ args | .new _ args | .array _ args => areClosed args
  | .conditional test ifTrue ifFalse => do
    if ← test.isClosed then
      if ← ifTrue.isClosed then ifFalse.isClosed else return false
    else return false
  | .lambda .. => throw (.unsupportedNode "Lambda")

/-- No parameter occurs in any of the expressions. -/
def areClosed : List Expr → Except QueryError Bool
  | [] => return true
  | e :: rest => do
    if ← e.isClosed then areClosed rest else return false

end

end PredicateSql.Expr
