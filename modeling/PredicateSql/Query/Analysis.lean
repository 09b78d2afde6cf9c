import PredicateSql.Query.Scope
import PredicateSql.Text.Wildcard

/-!
# What is known of an expression before it is a term

* `Context.staticType?`: the declared type, where it can be told.
* `Context.isProvablyNull`: the expression is certain to be `null`.
* `Expr.handlesNegation`: the term of the expression accounts for a negation around it.
* `Method.anchor?`, `Method.function?`: the methods of strings that have a form in SQL.
-/

namespace PredicateSql

namespace Context

variable {V : Type}

/-- The declared type of an expression, where it can be told. -/
def staticType? (c : Context V) (s : Scope) : Expr → Option ValueType
  | .constant type value => some (if value.isNull then type else value.type)
  | .unary .convert operand => c.staticType? s operand
  | .param name _ => (s.modelFor? name).map .model
  | .member owner _ name =>
    match c.staticType? s owner with
    | some .string => if name = "Length" then some .int else none
    | some (.model model) => do return (← (← c.catalog.find? model).find? name).type
    | _ => none
  | .call _ method _ | .staticCall method _ =>
    match method.known? with
    | some .toUpper | some .toLower | some .trim | some .substring | some .toString => some .string
    | _ => none
  | .binary .add left right =>
    if c.staticType? s left = some .string ∨ c.staticType? s right = some .string then some .string
    else none
  | .conditional _ ifTrue _ => c.staticType? s ifTrue
  | _ => none

/-- A closed expression whose value is `null`. -/
def isClosedNull [ClosedEvaluator V] (c : Context V) (e : Expr) : Except QueryError Bool := do
  if ← e.isClosed then return (← ClosedEvaluator.evaluate c.evaluator e).isNull
  else return false

/-- The expression is certain to be `null`: a constant, a closed expression with that value, or
something taken of one. -/
def isProvablyNull [ClosedEvaluator V] (c : Context V) : Expr → Except QueryError Bool
  | .constant _ value => return value.isNull
  | .member owner type name => do
    if ← c.isProvablyNull owner then return true else c.isClosedNull (.member owner type name)
  | .binary .index sequence index => do
    if ← c.isProvablyNull sequence then return true
    else c.isClosedNull (.binary .index sequence index)
  | .unary .convert operand => c.isProvablyNull operand
  | e => c.isClosedNull e

end Context

namespace Method

/-- Where a method of strings looks for its argument. -/
def anchor? (m : Method) : Option Text.Anchor :=
  match m.known? with
  | some .contains => some .anywhere
  | some .startsWith => some .start
  | some .endsWith => some .ending
  | _ => none

/-- The function of SQL that a method of strings stands for. -/
def function? (m : Method) : Option String :=
  match m.known? with
  | some .toUpper => some "UPPER"
  | some .toLower => some "LOWER"
  | some .trim => some "TRIM"
  | _ => none

end Method

namespace Expr

/-- The term of the expression accounts for a negation around the expression, so none is written
around the term. -/
def handlesNegation : Expr → Except QueryError Bool
  | .binary op _ _ => return op.isLogical || op.isComparison
  | .unary .not _ | .conditional .. | .lambda .. => return true
  | .unary .convert operand => operand.handlesNegation
  | .call target method args => do
    if method.anchor?.isSome then return !(← (Expr.call target method args).isClosed)
    else return false
  | .staticCall method args => do
    if method.anchor?.isSome then return !(← (Expr.staticCall method args).isClosed)
    else return false
  | _ => return false

end Expr

end PredicateSql
