import PredicateSql.Query.Scope

/-!
# Values that a filter asks for

Which values a filter compares the properties of a model with. Only `property == value` and
`values.Contains(property)` contribute, wherever in the filter they stand; `Contains` does not
under a negation. The answer may hold values that no matching row has, and is meant for fetching
rows ahead of a query.

* `Finding`: the values that one comparison contributes to one property.
* `Findings`: the properties of a model that are asked for, each with the values found for it.
* `Context.search`: what a subtree stands for. It writes what it finds within the subtree into the
  findings, as it comes to it.
* `Context.extract`: the values for some properties of a model.
-/

namespace PredicateSql

/-- What a subtree stands for, where that is known. -/
inductive Operand where
  | values (values : List Value)
  | property (model property : String)
  deriving Repr, Inhabited

/-- The values that one comparison contributes to one property. -/
structure Finding where
  model : String
  property : String
  values : List Value
  deriving Repr, Inhabited

/-- The properties of a model that are asked for, with the values that were found for each. -/
structure Findings where
  model : String
  values : List (String × List Value)
  deriving Repr, Inhabited

namespace Findings

/-- Nothing was found for any of the names. A name that is asked for twice is there once. -/
def ofNames (model : String) (names : List String) : Findings :=
  { model, values := names.eraseDups.map (·, []) }

/-- Adds a finding to the values of its property, if that is one of the model and asked for. -/
def write (found : Findings) (f : Finding) : Findings :=
  if f.model = found.model then
    { found with values := found.values.map fun (name, values) =>
        (name, if name = f.property then values ++ f.values else values) }
  else found

end Findings

/-- A computation that writes what it finds into the findings, and may fail. -/
abbrev Search (α : Type) := StateT Findings (Except QueryError) α

/-- The finding of a comparison, which has a property on one side and values on the other. -/
def Finding.of? : Option Operand → Option Operand → Option Finding
  | some (.property model property), some (.values values)
  | some (.values values), some (.property model property) => some ⟨model, property, values⟩
  | _, _ => none

/-- Writes the finding of a comparison, if it has one. -/
def contribute (a b : Option Operand) : Search Unit :=
  modify fun found => (Finding.of? a b).elim found found.write

namespace Context

variable {V : Type} [ClosedEvaluator V]

/-! ### Members of a parameter -/

/-- The property that a chain of members ends in. A member of a property that leads nowhere is a
computed value, and no property. -/
def lastProperty (c : Context V) (model : Model) (name : String) :
    List String → Except QueryError (Option Operand)
  | [] => do
    let property ← model.property name
    return some (.property model.name property.name)
  | next :: rest => do
    let property ← model.property name
    match property.reference with
    | none => return none
    | some reference => do c.lastProperty (← c.model reference.model) next rest

/-- What a chain of members of a parameter stands for. The member `Value` names the same property
as the chain without it. -/
def operandOf (c : Context V) (s : Scope) (name declared : String) :
    Except QueryError (Option Operand) := do
  let some bound := s.modelFor? name | throw (.missingParameter name declared)
  let model ← c.model bound
  match s.pending.filter (· != "Value") with
  | [] => return none
  | first :: rest => c.lastProperty model first rest

/-- A closed subtree stands for its elements. -/
def closedOperand (c : Context V) (s : Scope) (e : Expr) : Except QueryError (Option Operand) := do
  return some (.values (← c.boundary s e).toList)

/-! ### Search -/

/-- A subtree that contributes by what is within it, and stands for its value if it is closed. A
member of a computed value is no property. -/
def searchNode (c : Context V) (s : Scope) (e : Expr) (walk : Search Unit) :
    Search (Option Operand) := do
  if ← e.isClosed then c.closedOperand s e
  else
    walk
    return none

/-- The methods of strings that a filter may use. -/
def isSearchable (method : Method) : Bool :=
  method.declaringType = .string &&
    match method.known? with
    | some .contains | some .startsWith | some .endsWith => true
    | some .toUpper | some .toLower | some .trim => true
    | _ => false

/-- The membership of an item in a collection. -/
def searchContains (negated : Bool) (walkCollection walkItem : Search (Option Operand)) :
    Search Unit := do
  let collection ← walkCollection
  let item ← walkItem
  if !negated then contribute item collection

/-- What a subtree stands for. -/
def search (c : Context V) (s : Scope) : Expr → Search (Option Operand)
  | .member owner _ name => c.search (s.withMember name) owner
  | .staticMember type name => c.closedOperand s (.staticMember type name)
  | .constant type value => c.closedOperand s (.constant type value)
  | .param name model => c.operandOf s name model
  | .unary .convert operand => c.search s operand
  | .lambda params body => do c.search (← s.enter params) body
  | .binary .index sequence index =>
    let e := Expr.binary .index sequence index
    c.searchNode s e (throw (.unsupportedOperator e.kind "ArrayIndex"))
  | .binary .equal left right =>
    c.searchNode s (.binary .equal left right) do
      let left ← c.search s.isolated.neutral left
      let right ← c.search s.isolated.neutral right
      contribute left right
  | .binary op left right =>
    let s' := if op.isLogical then s.isolated else s.isolated.neutral
    c.searchNode s (.binary op left right) do
      let _ ← c.search s' left
      let _ ← c.search s' right
  | .unary .not operand =>
    c.searchNode s (.unary .not operand) do
      let _ ← c.search s.isolated.inverted operand
  | .unary .negate operand =>
    c.searchNode s (.unary .negate operand) do
      let _ ← c.search s.isolated.neutral operand
  | .staticCall method [collection, item] =>
    c.searchNode s (.staticCall method [collection, item]) <|
      if method.known? = some .contains ∧ method.declaringType.isSequence then
        searchContains s.negated (c.search s.isolated.neutral collection)
          (c.search s.isolated.neutral item)
      else throw (.unsupportedMethod method)
  | .staticCall method args =>
    c.searchNode s (.staticCall method args) (throw (.unsupportedMethod method))
  | .call target method [item] =>
    c.searchNode s (.call target method [item]) <|
      if method.known? = some .contains ∧ method.declaringType.isSequence then
        searchContains s.negated (c.search s.isolated.neutral target)
          (c.search s.isolated.neutral item)
      else if isSearchable method then pure ()
      else throw (.unsupportedMethod method)
  | .call target method args =>
    c.searchNode s (.call target method args) <|
      if isSearchable method then pure () else throw (.unsupportedMethod method)
  | .new type args =>
    let e := Expr.new type args
    c.searchNode s e (throw (.notEvaluatable e.kind))
  | .array type items =>
    let e := Expr.array type items
    c.searchNode s e (throw (.notEvaluatable e.kind))
  | .conditional test ifTrue ifFalse =>
    c.searchNode s (.conditional test ifTrue ifFalse) do
      let _ ← c.search s.isolated.neutral test
      let _ ← c.search s.isolated ifTrue
      let _ ← c.search s.isolated ifFalse

/-- The values that a filter compares some properties of a model with. -/
def extract (c : Context V) (filter : Expr) (model : String) (names : List String) :
    Except QueryError (List (String × List Value)) := do
  let _ ← c.model model
  let (_, found) ← (c.search {} filter).run (.ofNames model names)
  return found.values

end Context

end PredicateSql
