import PredicateSql.Expr.Basic

/-!
# Failures of queries

* `EvaluationFailure`: why a closed expression has no value.
* `QueryError`: why a query cannot be built, or values cannot be extracted.

Each of them is a cause with the data that its message names; `message` is the only place where
the wording stands.
-/

namespace PredicateSql

/-- Why a closed expression has no value. -/
inductive EvaluationFailure where
  | integerOverflow
  | divisionByZero
  | dateOutOfRange
  | indexOutOfRange (index : Int64)
  | invalidOperands (left : Value) (op : BinaryOp) (right : Value)
  | invalidOperand (op : UnaryOp) (operand : Value)
  | conditionExpected (op : BinaryOp) (operand : Value)
  | testExpected (test : Value)
  | nullTarget (method : String)
  | notConstructible (type : String) (args : List Value)
  | stringArguments (method : KnownMethod) (args : List Value)
  | sequenceExpected (value : Value)
  | dayCountExpected (value : Value)
  | patternExpected (method : String) (value : Value)
  deriving Repr, Inhabited

/-- The wording of an evaluation failure. -/
def EvaluationFailure.message : EvaluationFailure → String
  | .integerOverflow => "integer overflow"
  | .divisionByZero => "division by zero"
  | .dateOutOfRange => "date out of range"
  | .indexOutOfRange index => "index " ++ toString index.toInt ++ " is out of range"
  | .invalidOperands left op right =>
    "invalid operands " ++ left.render ++ " " ++ op.symbol ++ " " ++ right.render
  | .invalidOperand op operand => "invalid operand " ++ operand.render ++ " for " ++ op.name
  | .conditionExpected op operand => op.symbol ++ " expects booleans, got " ++ operand.render
  | .testExpected test => "conditional test must be boolean, got " ++ test.render
  | .nullTarget method => method ++ " called on a null value"
  | .notConstructible type args =>
    "cannot construct " ++ type ++ " from (" ++ Value.renderAll args ++ ")"
  | .stringArguments method args =>
    "string." ++ method.name ++ " does not accept (" ++ Value.renderAll args ++ ")"
  | .sequenceExpected value => "Contains expects a sequence, got " ++ value.render
  | .dayCountExpected value => "AddDays expects a number, got " ++ value.render
  | .patternExpected method value =>
    method ++ " expects a string pattern, got " ++ value.render

/-- Why a query cannot be built, or values cannot be extracted. -/
inductive QueryError where
  | unsupportedNode (node : String)
  | unsupportedOperator (node op : String)
  | unsupportedMethod (method : Method)
  | unsupportedMember (declaringType member : String)
  | lambdaArity (count : Nat)
  | missingParameter (name model : String)
  | unknownModel (name : String)
  | unknownProperty (model property : String)
  | notEvaluatable (node : String)
  | evaluation (failure : EvaluationFailure)
  | unrenderableValue (type : String)
  deriving Repr, Inhabited

/-- The wording of an error. -/
def QueryError.message : QueryError → String
  | .unsupportedNode node => "unsupported expression node: " ++ node
  | .unsupportedOperator node op => "unsupported operator " ++ op ++ " on " ++ node
  | .unsupportedMethod method =>
    "unsupported method " ++ method.name ++ " declared on " ++ method.declaringType.render
  | .unsupportedMember declaringType member =>
    "member " ++ member ++ " of " ++ declaringType ++ " is not supported"
  | .lambdaArity count =>
    "lambda must take exactly one model parameter, got " ++ toString count
  | .missingParameter name model =>
    "no model is bound to parameter '" ++ name ++ "' of type " ++ model
  | .unknownModel name => "unknown model " ++ name
  | .unknownProperty model property => "model " ++ model ++ " has no property " ++ property
  | .notEvaluatable node => node ++ " must only depend on constant values"
  | .evaluation failure => "could not evaluate constant expression: " ++ failure.message
  | .unrenderableValue type => "a value of type " ++ type ++ " has no SQL literal form"

end PredicateSql
