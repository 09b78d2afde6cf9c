import PredicateSql.Method
import PredicateSql.Value

/-!
# Expressions

* `Expr`: the tree of a predicate over one model, with the operators `BinaryOp` and `UnaryOp`.
* `Expr.kind`: the name of a node in messages.
* `Expr.height`: the number of nodes on the longest path.
* `Expr.ofValue`, `Expr.memberOf`, `Expr.lambdaOver`, `Expr.containsIn`: trees as source text
  would give them.
-/

namespace PredicateSql

/-- An operator with two operands. -/
inductive BinaryOp where
  | add
  | subtract
  | multiply
  | divide
  | modulo
  | and
  | or
  | equal
  | notEqual
  | less
  | lessOrEqual
  | greater
  | greaterOrEqual
  /-- The element of a sequence at a position. -/
  | index
  deriving Repr, DecidableEq, Inhabited

namespace BinaryOp

/-- Both operands are conditions. -/
def isLogical : BinaryOp → Bool
  | .and | .or => true
  | _ => false

/-- The result says how two values compare. -/
def isComparison : BinaryOp → Bool
  | .equal | .notEqual | .less | .lessOrEqual | .greater | .greaterOrEqual => true
  | _ => false

/-- The operator as it is written between its operands. -/
def symbol : BinaryOp → String
  | .add => "+"
  | .subtract => "-"
  | .multiply => "*"
  | .divide => "/"
  | .modulo => "%"
  | .and => "&&"
  | .or => "||"
  | .equal => "=="
  | .notEqual => "!="
  | .less => "<"
  | .lessOrEqual => "<="
  | .greater => ">"
  | .greaterOrEqual => ">="
  | .index => "[]"

end BinaryOp

/-- An operator with one operand. -/
inductive UnaryOp where
  | not
  | negate
  /-- A cast, which has no meaning of its own. -/
  | convert
  deriving Repr, DecidableEq, Inhabited

/-- The name of an operator in messages. -/
def UnaryOp.name : UnaryOp → String
  | .not => "Not"
  | .negate => "Negate"
  | .convert => "Convert"

/-- A parameter of a lambda, bound to a model. -/
structure Param where
  name : String
  model : String
  deriving Repr, DecidableEq, Inhabited

/-- An expression over the parameters of a lambda. -/
inductive Expr where
  | binary (op : BinaryOp) (left right : Expr)
  | unary (op : UnaryOp) (operand : Expr)
  /-- A member of a value. -/
  | member (owner : Expr) (declaringType name : String)
  /-- A member of a type. -/
  | staticMember (declaringType name : String)
  | constant (type : ValueType) (value : Value)
  | param (name model : String)
  /-- A method called on a value. -/
  | call (target : Expr) (method : Method) (args : List Expr)
  /-- A method called on a type. -/
  | staticCall (method : Method) (args : List Expr)
  /-- An object made by a constructor. -/
  | new (type : String) (args : List Expr)
  | array (elementType : ValueType) (items : List Expr)
  | conditional (test ifTrue ifFalse : Expr)
  | lambda (params : List Param) (body : Expr)
  deriving Repr, Inhabited

namespace Expr

/-- The name of a node in messages. -/
def kind : Expr → String
  | .binary .. => "Binary"
  | .unary .. => "Unary"
  | .member .. | .staticMember .. => "MemberAccess"
  | .constant .. => "Constant"
  | .param .. => "Parameter"
  | .call .. | .staticCall .. => "MethodCall"
  | .new .. => "New"
  | .array .. => "NewArray"
  | .conditional .. => "Conditional"
  | .lambda .. => "Lambda"

/-! ### Height -/

mutual

/-- The number of nodes on the longest path from the root of a tree. -/
def height : Expr → Nat
  | .binary _ left right => 1 + max left.height right.height
  | .unary _ operand => 1 + operand.height
  | .member owner _ _ => 1 + owner.height
  | .call target _ args => 1 + max target.height (heightOfAll args)
  | .staticCall _ args | .new _ args | .array _ args => 1 + heightOfAll args
  | .conditional test ifTrue ifFalse => 1 + max test.height (max ifTrue.height ifFalse.height)
  | .lambda _ body => 1 + body.height
  | .staticMember .. | .constant .. | .param .. => 1

/-- The height of the highest of some trees. -/
def heightOfAll : List Expr → Nat
  | [] => 0
  | e :: rest => max e.height (heightOfAll rest)

end

/-! ### Trees as source text would give them -/

/-- A constant of the type that its value has. -/
def ofValue (v : Value) : Expr :=
  .constant v.type v

/-- A member of an expression. Only a parameter tells what the member is declared on. -/
def memberOf (owner : Expr) (name : String) : Expr :=
  match owner with
  | .param _ model => .member owner model name
  | _ => .member owner "object" name

/-- A lambda with one parameter. -/
def lambdaOver (name model : String) (body : Expr) : Expr :=
  .lambda [⟨name, model⟩] body

/-- The test whether a sequence contains an item. -/
def containsIn (collection item : Expr) : Expr :=
  .staticCall ⟨.enumerable, "Contains"⟩ [collection, item]

end Expr

end PredicateSql
