import PredicateSql.Proofs.Sql.Meaning
import PredicateSql.Query.Analysis

/-!
# The meaning of predicates

What a predicate over one model says about a row, without any SQL. The row assigns a value to each
column at the end of each path of properties, and any of the values may be `null`.

* `Catalog.column?`: the path and the column that a chain of members leads to.
* `Expr.IsPredicate`: the predicates with a meaning. They are built with `&&`, `||`, `!`, casts and
  `?:` from comparisons, truth values, `HasValue`, and membership in a list of constants.
* `Source.kleene`: the truth value of a predicate in the strong logic of Kleene. A comparison with
  `null` is unknown, but `==` and `!=` test for the constant `null` and `HasValue` tests for any.
  A conditional takes its second branch unless its test is certain.
-/

namespace PredicateSql

open Sql (Database)

/-! ### Chains of members -/

/-- The members that a chain takes of a parameter, and those that follow. -/
def Expr.members? (after : List String) : Expr → Option (List String)
  | .member owner _ name => owner.members? (name :: after)
  | .unary .convert operand => operand.members? after
  | .param .. => some after
  | _ => none

namespace Catalog

/-- The references that the members of a property follow, and the property at their end. The member
`Value` is the property itself. -/
def follow? (c : Catalog) (p : Property) : List String → Option (List String × Property)
  | [] => some ([], p)
  | member :: rest =>
    if member = "Value" then c.follow? p rest
    else do
      let reference ← p.reference
      let target ← c.find? reference.model
      let next ← target.find? member
      let (path, last) ← c.follow? next rest
      return (p.name :: path, last)

/-- The path and the column that a chain of members leads to. -/
def column? (c : Catalog) (root : Model) (e : Expr) : Option (List String × String) :=
  match e.members? [] with
  | some (first :: rest) =>
    if "HasValue" ∈ rest then none
    else do
      let p ← root.find? first
      let (path, last) ← c.follow? p rest
      return (path, last.columnName)
  | _ => none

end Catalog

/-! ### Predicates -/

namespace Expr

/-- The value of a constant. -/
def constant? : Expr → Option Value
  | .constant _ value => some value
  | .unary .convert operand => operand.constant?
  | _ => none

/-- The constant `null`. -/
def isNullConstant (e : Expr) : Bool :=
  e.constant?.any Value.isNull

/-- The elements of a list of constants. -/
def constantList? : Expr → Option (List Value)
  | .constant _ (.list items) => some items
  | .array _ items => items.mapM constant?
  | .unary .convert operand => operand.constantList?
  | _ => none

/-- What is compared: a chain that leads to a column, or a constant. -/
def IsOperand (c : Catalog) (root : Model) (e : Expr) : Prop :=
  (c.column? root e).isSome ∨ e.constant?.isSome

/-- The predicates with a meaning. -/
inductive IsPredicate (c : Catalog) (root : Model) : Expr → Prop
  | logical {op : BinaryOp} {left right : Expr} (hop : op.isLogical = true)
    (hleft : IsPredicate c root left) (hright : IsPredicate c root right) :
    IsPredicate c root (.binary op left right)
  | not {operand : Expr} (h : IsPredicate c root operand) : IsPredicate c root (.unary .not operand)
  | convert {operand : Expr} (h : IsPredicate c root operand) :
    IsPredicate c root (.unary .convert operand)
  | conditional {test ifTrue ifFalse : Expr} (htest : IsPredicate c root test)
    (hTrue : IsPredicate c root ifTrue) (hFalse : IsPredicate c root ifFalse) :
    IsPredicate c root (.conditional test ifTrue ifFalse)
  | comparison {op : BinaryOp} {left right : Expr} (hop : op.isComparison = true)
    (hleft : left.IsOperand c root) (hright : right.IsOperand c root) :
    IsPredicate c root (.binary op left right)
  | column {e : Expr} (h : (c.column? root e).isSome) : IsPredicate c root e
  | constant {type : ValueType} {b : Bool} : IsPredicate c root (.constant type (.bool b))
  | hasValue {owner : Expr} {type : String} (h : (c.column? root owner).isSome) :
    IsPredicate c root (.member owner type "HasValue")
  | staticContains {method : Method} {collection item : Expr}
    (hmethod : method.known? = some .contains ∧ method.declaringType.isSequence = true)
    (hcollection : collection.constantList?.isSome) (hitem : (c.column? root item).isSome) :
    IsPredicate c root (.staticCall method [collection, item])
  | contains {method : Method} {collection item : Expr}
    (hmethod : method.known? = some .contains ∧ method.declaringType.isSequence = true)
    (hcollection : collection.constantList?.isSome) (hitem : (c.column? root item).isSome) :
    IsPredicate c root (.call collection method [item])

end Expr

/-! ### Truth values -/

/-- A comparison holds of operands in this order. -/
def BinaryOp.holds (op : BinaryOp) (order : Ordering) : Bool :=
  match op with
  | .equal => order == .eq
  | .notEqual => !(order == .eq)
  | .less => order == .lt
  | .lessOrEqual => !(order == .gt)
  | .greater => order == .gt
  | .greaterOrEqual => !(order == .lt)
  | _ => false

/-- What gives a predicate a meaning: the models, a row, and the order of values. -/
structure Source where
  catalog : Catalog
  /-- The model of the row. -/
  root : Model
  db : Database
  /-- The value of each column at the end of each path. -/
  values : List String → String → Value

namespace Source

/-- The value of a column of the row. -/
def column? (m : Source) (e : Expr) : Option Value :=
  (m.catalog.column? m.root e).map fun (path, column) => m.values path column

/-- The value of an operand. -/
def operand (m : Source) (e : Expr) : Value :=
  ((m.column? e).or e.constant?).getD .null

/-- Equality. The constant `null` is equal to `null`, and any other `null` is equal to nothing
known. -/
def equality (m : Source) (left right : Expr) : Truth :=
  if left.isNullConstant then .ofBool (m.operand right).isNull
  else if right.isNullConstant then .ofBool (m.operand left).isNull
  else m.db.compareBy BinaryOp.equal.holds (m.operand left) (m.operand right)

/-- A comparison. -/
def comparison (m : Source) (op : BinaryOp) (left right : Expr) : Truth :=
  match op with
  | .equal => m.equality left right
  | .notEqual => (m.equality left right).not
  | op => m.db.compareBy op.holds (m.operand left) (m.operand right)

/-- The item is equal to one of the elements, or `null` like one of them. -/
def isIn (m : Source) (item : Value) : List Value → Truth
  | [] => .no
  | v :: rest =>
    let equal := if v.isNull then .ofBool item.isNull
      else m.db.compareBy BinaryOp.equal.holds item v
    equal.or (m.isIn item rest)

/-- The truth value of a predicate. -/
def kleene (m : Source) : Expr → Truth
  | .binary .and left right => (m.kleene left).and (m.kleene right)
  | .binary .or left right => (m.kleene left).or (m.kleene right)
  | .binary op left right => m.comparison op left right
  | .unary .not operand => (m.kleene operand).not
  | .unary .convert operand => m.kleene operand
  | .conditional test ifTrue ifFalse =>
    if m.kleene test = .yes then m.kleene ifTrue else m.kleene ifFalse
  | .staticCall _ [collection, item] | .call collection _ [item] =>
    m.isIn (m.operand item) (collection.constantList?.getD [])
  | .member owner type name =>
    match m.column? (.member owner type name) with
    | some value => .ofValue value
    | none => .ofBool !(m.operand owner).isNull
  | .constant _ value => .ofValue value
  | _ => .unknown

end Source

end PredicateSql
