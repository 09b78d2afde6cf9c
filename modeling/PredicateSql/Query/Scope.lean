import PredicateSql.Catalog.Model
import PredicateSql.Evaluation.Evaluator

/-!
# Walks over an expression

What a subtree needs to know of the tree around it, whether it is made a term or searched.

* `Context`: the models and the values that expressions may name, by the standard evaluator or one
  of the caller's own.
* `Scope`: the parameters that are bound, the members that wait for a value, and whether the
  subtree stands under an odd number of negations.
* `Context.boundary`: the value of a closed subtree, with the waiting members applied to it.
-/

namespace PredicateSql

/-- The models that expressions may name, and what gives closed expressions their values. -/
structure Context (V : Type := Evaluator) where
  catalog : Catalog
  evaluator : V
  deriving Inhabited

/-- What lies around a subtree. -/
structure Scope where
  /-- Parameters and the models that they are bound to, the innermost first. -/
  binders : List (String × String) := []
  /-- The members to be taken of the value of the subtree, in this order. -/
  pending : List String := []
  /-- The number of negations around the subtree is odd. -/
  negated : Bool := false
  deriving Repr, DecidableEq, Inhabited

namespace Scope

/-- The model of the innermost parameter with a name. -/
def modelFor? (s : Scope) (param : String) : Option String :=
  s.binders.lookup param

/-- The owner of a member. -/
def withMember (s : Scope) (name : String) : Scope :=
  { s with pending := name :: s.pending }

/-- The operand of a negation. -/
def inverted (s : Scope) : Scope :=
  { s with negated := !s.negated }

/-- A subtree whose value is used as it is, whatever becomes of the condition around it. -/
def neutral (s : Scope) : Scope :=
  { s with negated := false }

/-- A node that no member is taken of. -/
def isolated (s : Scope) : Scope :=
  { s with pending := [] }

/-- The body of a lambda. Only a lambda with one parameter has one. -/
def enter (s : Scope) (params : List Param) : Except QueryError Scope :=
  match params with
  | [p] => return { s with binders := (p.name, p.model) :: s.binders }
  | _ => throw (.lambdaArity params.length)

end Scope

namespace Context

variable {V : Type}

/-- A model that must exist. -/
def model (c : Context V) (name : String) : Except QueryError Model :=
  match c.catalog.find? name with
  | some m => return m
  | none => throw (.unknownModel name)

/-- A value after some members are taken of it, one after the other. -/
def drill (value : Value) : List String → Except QueryError Value
  | [] => return value
  | name :: rest => do drill (← Evaluator.memberOf value name) rest

/-- The value of a closed subtree, with the waiting members applied to it. -/
def boundary [ClosedEvaluator V] (c : Context V) (s : Scope) (e : Expr) :
    Except QueryError Value := do
  drill (← ClosedEvaluator.evaluate c.evaluator e) s.pending

end Context

/-- A property that must exist. -/
def Model.property (m : Model) (name : String) : Except QueryError Property :=
  match m.find? name with
  | some p => return p
  | none => throw (.unknownProperty m.name name)

end PredicateSql
