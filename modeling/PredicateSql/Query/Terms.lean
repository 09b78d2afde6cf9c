import PredicateSql.Query.Analysis
import PredicateSql.Query.JoinTree
import PredicateSql.Query.Request
import PredicateSql.Sql.Dialect

/-!
# Expressions as terms of SQL

* `Walk`: a computation that may extend the join tree of a query, and may fail. What it found
  before a failure stays found.
* `Context.term`: the term of an expression. Negations are not written around conditions but
  pushed into them: operators become their complements, and what has no complement is negated
  where it stands.
* `Context.resolve`: the column of a chain of members of a parameter.
* `Context.project`: the columns that a query brings along.
-/

namespace PredicateSql

open Sql (Term SelectColumn)

/-- A computation over the join tree of a query. -/
abbrev Walk (α : Type) := ExceptT QueryError (StateM JoinTree) α

/-- The node that a property of a node leads to. -/
def walkTo (parent : Nat) (property : Property) (target : Model) : Walk Nat :=
  modifyGet fun tree => tree.child parent property target

/-! ### Literals and members -/

/-- A value as a literal. Lists, records and floats that are no numbers have none. -/
def literalOf (value : Value) : Except QueryError Term :=
  let renderable :=
    match value with
    | .float x => Binary64.isFinite x
    | v => Sql.hasLiteral v
  if renderable then return .literal value else throw (.unrenderableValue value.typeName)

/-- The literals of some values. -/
def literalsOf : List Value → Except QueryError (List Term)
  | [] => return []
  | value :: rest => do
    let term ← literalOf value
    return term :: (← literalsOf rest)

/-- The members of a term with a known type: the length of a string, and the two members of every
nullable value. -/
def scalarMembers (term : Term) (type : ValueType) : List String → Except QueryError Term
  | [] => return term
  | member :: rest =>
    if member = "Length" ∧ type = .string then scalarMembers (.call "LENGTH" [term]) .int rest
    else if member = "Value" then scalarMembers term type rest
    else if member = "HasValue" then scalarMembers (.isNull term .notEqualsNull) .bool rest
    else throw (.unsupportedMember type.render member)

namespace Context

variable {V : Type} [ClosedEvaluator V]

/-- A closed expression as a literal. -/
def literal (c : Context V) (s : Scope) (e : Expr) : Except QueryError Term := do
  literalOf (← c.boundary s e)

/-! ### Members of a parameter -/

/-- The column of a property of a node, with the members that follow. -/
def column (node : Nat) (property : Property) (members : List String) : Walk Term := do
  let tree ← get
  scalarMembers (.column (tree.aliasOf node) property.columnName) property.type members

/-- Follows a chain of members from a property of a node. A reference that another member follows
is a join; to ask whether it has a value, its own column is enough. -/
def follow (c : Context V) (node : Nat) (property : Property) : List String → Walk Term
  | [] => column node property []
  | member :: rest =>
    match property.reference with
    | none => column node property (member :: rest)
    | some reference =>
      if member = "HasValue" then column node property (member :: rest)
      else if member = "Value" then c.follow node property rest
      else do
        let target ← c.model reference.model
        let child ← walkTo node property target
        c.follow child (← target.property member) rest

/-- The column of a chain of members of a parameter, which must be bound to the queried model. -/
def resolve (c : Context V) (s : Scope) (name declared : String) : Walk Term := do
  let some bound := s.modelFor? name | throw (.missingParameter name declared)
  if bound ≠ (← get).model then throw (.missingParameter name declared)
  let model ← c.model bound
  match s.pending with
  | [] => throw (.unsupportedNode "Parameter")
  | first :: rest => do c.follow 0 (← model.property first) rest

/-! ### Conditions -/

/-- A term in the place of a condition. A negation around it that the term does not account for
is written. -/
def asCondition (s : Scope) (e : Expr) (walk : Walk Term) : Walk Term := do
  let term ← walk
  if s.negated then
    if ← e.handlesNegation then return term else return .not term
  else return term

/-- The members that wait for the value of a node, applied to its term. -/
def withMembers (c : Context V) (s : Scope) (e : Expr) (walk : Walk Term) : Walk Term :=
  match s.pending with
  | [] => walk
  | first :: _ => do
    if ← e.isClosed then c.literal s e
    else
      match c.staticType? s e with
      | none => throw (.unsupportedMember e.kind first)
      | some type => do scalarMembers (← walk) type s.pending

/-- A closed node as a literal, any other by `walk`. -/
def closedOr (c : Context V) (s : Scope) (e : Expr) (walk : Walk Term) : Walk Term := do
  if ← e.isClosed then c.literal s.isolated e else walk

/-- The test of a comparison with `null`, where one of two operands is certain to be `null`: the
other operand and the operator. -/
def nullTest? (c : Context V) (op : Sql.Operator) (left right : Expr) :
    Except QueryError (Option (Bool × Sql.Operator)) := do
  let test : Option Sql.Operator :=
    match op with
    | .equals => some .equalsNull
    | .notEquals => some .notEqualsNull
    | _ => none
  match test with
  | none => return none
  | some test =>
    if ← c.isProvablyNull left then return some (true, test)
    else if ← c.isProvablyNull right then return some (false, test)
    else return none

/-- A comparison. Next to an operand that is certain to be `null`, only the other one is
made a term. -/
def comparison (c : Context V) (op : Sql.Operator) (left right : Expr)
    (walkLeft walkRight : Walk Term) : Walk Term := do
  match ← c.nullTest? op left right with
  | some (leftIsNull, test) =>
    return .isNull (← if leftIsNull then walkRight else walkLeft) test
  | none =>
    let left ← walkLeft
    let right ← walkRight
    return .operation left op right

/-- An arithmetic operation. A sum with a string is a concatenation. -/
def arithmetic (c : Context V) (s : Scope) (op : BinaryOp) (operator : Sql.Operator)
    (left right : Expr) (walkLeft walkRight : Walk Term) : Walk Term := do
  let leftTerm ← walkLeft
  let rightTerm ← walkRight
  if op = .add ∧
      (c.staticType? s left = some .string ∨ c.staticType? s right = some .string) then
    return .concat (leftTerm.concatParts ++ rightTerm.concatParts)
  else return .operation leftTerm operator rightTerm

/-- The membership of an item in a closed collection. Nothing is in an empty collection, and
`NULL` is never in a list, so it is tested for apart. -/
def inList (c : Context V) (s : Scope) (collection : Expr) (walkItem : Walk Term) : Walk Term := do
  if ← collection.isClosed then
    let values := (← ClosedEvaluator.evaluate c.evaluator collection).toList
    if values.isEmpty then
      return .operation (.literal (.int 1)) .equals (.literal (.int (if s.negated then 1 else 0)))
    let item ← walkItem
    let list ← literalsOf (values.filter fun v => !v.isNull)
    if !values.any Value.isNull then return .inList item list s.negated
    let isNull := Term.isNull item (.invertIf s.negated .equalsNull)
    if list.isEmpty then return isNull
    return .operation (.inList item list s.negated) (.invertIf s.negated .or) isNull
  else throw (.notEvaluatable "Contains collection")

/-- A search for a text within another. The text of a closed expression is made a pattern at
once; any other is joined with the wildcards when the query runs. -/
def like (c : Context V) (s : Scope) (method : Method) (anchor : Text.Anchor)
    (pattern : Expr) (walkItem walkPattern : Walk Term) : Walk Term := do
  let item ← walkItem
  if ← pattern.isClosed then
    match ← ClosedEvaluator.evaluate c.evaluator pattern with
    | .string text =>
      return .like item (.text (.ofList (anchor.pattern text.toList))) s.negated true
    | other => throw (.evaluation (.patternExpected method.name other))
  else
    return .like item (.concat (anchor.surround [.text "%"] [← walkPattern])) s.negated false

/-- A method with one argument. -/
def callWithArg (c : Context V) (s : Scope) (method : Method) (target arg : Expr)
    (walkTarget walkArg : Walk Term) : Walk Term :=
  if method.known? = some .contains ∧ method.declaringType.isSequence then
    c.inList s target walkArg
  else
    match method.declaringType, method.anchor? with
    | .string, some anchor => c.like s method anchor arg walkTarget walkArg
    | _, _ => throw (.unsupportedMethod method)

/-- A method without arguments. -/
def callWithoutArgs (method : Method) (walkTarget : Walk Term) : Walk Term :=
  match method.declaringType, method.function? with
  | .string, some function => do return .call function [← walkTarget]
  | _, _ => throw (.unsupportedMethod method)

/-! ### Terms of expressions -/

/-- The term of an expression. -/
def term (c : Context V) (s : Scope) : Expr → Walk Term
  | .member owner _ name => c.term (s.withMember name) owner
  | .staticMember type name => c.literal s (.staticMember type name)
  | .constant type value => c.literal s (.constant type value)
  | .param name model => c.resolve s name model
  | .unary .convert operand => c.term s operand
  | .binary op left right =>
    let e := Expr.binary op left right
    let s' := s.isolated
    c.withMembers s e <|
      match Sql.Operator.ofBinary? op with
      | none => c.closedOr s e (throw (.unsupportedOperator e.kind "ArrayIndex"))
      | some operator =>
        if op.isLogical then do
          let left ← asCondition s' left (c.term s' left)
          let right ← asCondition s' right (c.term s' right)
          return .operation left (operator.invertIf s.negated) right
        else if op.isComparison then
          c.comparison (operator.invertIf s.negated) left right
            (c.term s'.neutral left) (c.term s'.neutral right)
        else
          c.arithmetic s op operator left right
            (c.term s'.neutral left) (c.term s'.neutral right)
  | .unary .not operand =>
    let s' := s.isolated.inverted
    c.withMembers s (.unary .not operand) (asCondition s' operand (c.term s' operand))
  | .unary .negate operand =>
    c.withMembers s (.unary .negate operand) do
      return .negative (← c.term s.isolated.neutral operand)
  | .staticCall method [collection, item] =>
    let e := Expr.staticCall method [collection, item]
    c.withMembers s e <| c.closedOr s e <|
      if method.known? = some .contains ∧ method.declaringType.isSequence then
        c.inList s collection (c.term s.isolated.neutral item)
      else throw (.unsupportedMethod method)
  | .staticCall method args =>
    let e := Expr.staticCall method args
    c.withMembers s e <| c.closedOr s e (throw (.unsupportedMethod method))
  | .call target method [] =>
    let e := Expr.call target method []
    c.withMembers s e <| c.closedOr s e <|
      callWithoutArgs method (c.term s.isolated.neutral target)
  | .call target method [arg] =>
    let e := Expr.call target method [arg]
    c.withMembers s e <| c.closedOr s e <|
      c.callWithArg s method target arg
        (c.term s.isolated.neutral target) (c.term s.isolated.neutral arg)
  | .call target method args =>
    let e := Expr.call target method args
    c.withMembers s e <| c.closedOr s e (throw (.unsupportedMethod method))
  | .new type args =>
    let e := Expr.new type args
    c.withMembers s e <| c.closedOr s e (throw (.notEvaluatable e.kind))
  | .array type items =>
    let e := Expr.array type items
    c.withMembers s e <| c.closedOr s e (throw (.notEvaluatable e.kind))
  | .conditional test ifTrue ifFalse =>
    let s' := s.isolated
    c.withMembers s (.conditional test ifTrue ifFalse) do
      let test ← asCondition s'.neutral test (c.term s'.neutral test)
      let ifTrue ← asCondition s' ifTrue (c.term s' ifTrue)
      let ifFalse ← asCondition s' ifFalse (c.term s' ifFalse)
      return .conditional test ifTrue ifFalse
  | .lambda params body =>
    c.withMembers s (.lambda params body) do
      let s' ← s.isolated.enter params
      asCondition s' body (c.term s' body)

/-- The term of a key of an order: the body of a lambda as a value, and no condition. -/
def keyTerm (c : Context V) : Expr → Walk Term
  | .lambda params body => do c.term (← Scope.enter {} params) body
  | key => c.term {} key

/-! ### Projection -/

/-- The properties of a model that a query projects. -/
def projected (model : Model) : Option (List String) → Except QueryError (List Property)
  | none => return model.serializable
  | some names => names.mapM model.property

/-- A projected property, labelled by the path that leads to it where that is not the name of its
column. -/
def selectColumn (table path : String) (p : Property) : SelectColumn :=
  let label := path ++ p.name
  { table, name := p.columnName, label := if label = p.columnName then none else some label }

mutual

/-- The columns of a node, and after them those of the nodes that the graph brings along. -/
def project (c : Context V) (node : Nat) (model : Model) (path : String) :
    IncludeGraph → Walk (List SelectColumn)
  | .node columns relations => do
    let table := (← get).aliasOf node
    let own := (← projected model columns).map (selectColumn table path)
    return own ++ (← c.projectRelations node model path relations)

/-- The columns of the nodes that some properties of a node lead to. -/
def projectRelations (c : Context V) (node : Nat) (model : Model) (path : String) :
    List (String × IncludeGraph) → Walk (List SelectColumn)
  | [] => return []
  | (name, graph) :: rest => do
    let property ← model.property name
    let some reference := property.reference | throw (.unsupportedMember model.name name)
    let target ← c.model reference.model
    let child ← walkTo node property target
    let columns ← c.project child target (path ++ property.name ++ ".") graph
    return columns ++ (← c.projectRelations node model path rest)

end

end Context

end PredicateSql
