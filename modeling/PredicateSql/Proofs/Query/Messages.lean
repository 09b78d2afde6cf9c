import PredicateSql.Error
import PredicateSql.Proofs.Text.Lines

/-!
# The messages of query errors

What a message takes over from a query and its values, and the line breaks that come with it.

* `Value.texts`, `EvaluationFailure.texts`, `QueryError.texts`: the names and strings that a message
  is written from.
* `Value.hasBreak_render`, `EvaluationFailure.hasBreak_message`, `QueryError.hasBreak_message`: a
  message has a line break in it if and only if one of them has. Nothing is escaped.
-/

namespace PredicateSql

open Text (HasBreak HaveBreak haveBreak_append haveBreak_cons haveBreak_nil)

/-! ### Values -/

namespace Value

mutual

/-- The texts that a value is written from in messages. -/
def texts : Value → List String
  | .string s => [s]
  | .list items => textsOfEach items
  | .record typeName _ => [typeName]
  | _ => []

/-- The texts that some values are written from. -/
def textsOfEach : List Value → List String
  | [] => []
  | item :: rest => item.texts ++ textsOfEach rest

end

mutual

/-- A value breaks a line where one of its texts does. -/
theorem hasBreak_render : (v : Value) → (HasBreak v.render ↔ HaveBreak v.texts)
  | .null => iff_of_false (by decide) haveBreak_nil
  | .bool true | .bool false => iff_of_false (by decide) haveBreak_nil
  | .int i => by simp [render, texts]
  | .float x => by simp [render, texts]
  | .string s => by
    have hquote : ¬ HasBreak "\"" := by decide
    simp [render, texts, hquote]
  | .date d => by simp [render, texts]
  | .dateTime t => by simp [render, texts]
  | .bytes b => by
    have hwords : ¬ HasBreak "byte[" ∧ ¬ HasBreak "]" := by decide
    simp [render, texts, hwords]
  | .list items => by
    have hwords : ¬ HasBreak "[" ∧ ¬ HasBreak "]" := by decide
    have hitems : HasBreak (", ".intercalate (renderEach items)) ↔
        HaveBreak (textsOfEach items) :=
      (Text.hasBreak_intercalate (by decide)).trans (haveBreak_renderEach items)
    simp [render, texts, hwords, hitems]
  | .record typeName _ => by
    have hbraces : ¬ HasBreak " \x7b..\x7d" := by decide
    simp [render, texts, hbraces]

theorem haveBreak_renderEach : (items : List Value) →
    (HaveBreak (renderEach items) ↔ HaveBreak (textsOfEach items))
  | [] => Iff.rfl
  | item :: rest => by
    rw [renderEach, textsOfEach, haveBreak_cons, haveBreak_append, hasBreak_render item,
      haveBreak_renderEach rest]

end

theorem hasBreak_renderAll (values : List Value) :
    HasBreak (renderAll values) ↔ HaveBreak (textsOfEach values) :=
  (Text.hasBreak_intercalate (by decide)).trans (haveBreak_renderEach values)

end Value

/-! ### Names of operators and methods -/

theorem BinaryOp.not_hasBreak_symbol (op : BinaryOp) : ¬ HasBreak op.symbol := by
  cases op <;> decide

theorem UnaryOp.not_hasBreak_name (op : UnaryOp) : ¬ HasBreak op.name := by
  cases op <;> decide

theorem KnownMethod.not_hasBreak_name (method : KnownMethod) : ¬ HasBreak method.name := by
  cases method <;> decide

/-- The text that a declaring type is written from. -/
def DeclaringType.texts : DeclaringType → List String
  | .other name => [name]
  | _ => []

theorem DeclaringType.hasBreak_render (type : DeclaringType) :
    HasBreak type.render ↔ HaveBreak type.texts := by
  cases type with
  | other name => simp [render, texts]
  | _ => exact iff_of_false (by decide) haveBreak_nil

/-! ### Failures of evaluations -/

namespace EvaluationFailure

/-- The texts that the message of an evaluation failure is written from. -/
def texts : EvaluationFailure → List String
  | .invalidOperands left _ right => left.texts ++ right.texts
  | .invalidOperand _ value | .conditionExpected _ value | .testExpected value
  | .sequenceExpected value | .dayCountExpected value => value.texts
  | .nullTarget method => [method]
  | .notConstructible type args => type :: Value.textsOfEach args
  | .stringArguments _ args => Value.textsOfEach args
  | .patternExpected method value => method :: value.texts
  | .integerOverflow | .divisionByZero | .dateOutOfRange | .indexOutOfRange _ => []

/-- A message breaks a line where one of its texts does. -/
theorem hasBreak_message (e : EvaluationFailure) : HasBreak e.message ↔ HaveBreak e.texts := by
  have hwords : ¬ HasBreak "index " ∧ ¬ HasBreak " is out of range" ∧
      ¬ HasBreak "invalid operands " ∧ ¬ HasBreak " " ∧ ¬ HasBreak "invalid operand " ∧
      ¬ HasBreak " for " ∧ ¬ HasBreak " expects booleans, got " ∧
      ¬ HasBreak "conditional test must be boolean, got " ∧
      ¬ HasBreak " called on a null value" := by
    decide
  have hcalls : ¬ HasBreak "cannot construct " ∧ ¬ HasBreak " from (" ∧ ¬ HasBreak ")" ∧
      ¬ HasBreak "string." ∧ ¬ HasBreak " does not accept (" ∧
      ¬ HasBreak "Contains expects a sequence, got " ∧
      ¬ HasBreak "AddDays expects a number, got " ∧
      ¬ HasBreak " expects a string pattern, got " := by
    decide
  unfold message
  cases e with
  | integerOverflow | divisionByZero | dateOutOfRange =>
    exact iff_of_false (by decide) haveBreak_nil
  | _ =>
    simp [texts, hwords, hcalls, Value.hasBreak_render, Value.hasBreak_renderAll,
      BinaryOp.not_hasBreak_symbol, UnaryOp.not_hasBreak_name, KnownMethod.not_hasBreak_name]

end EvaluationFailure

/-! ### Failures of queries -/

namespace QueryError

/-- The texts that the message of a query error is written from. -/
def texts : QueryError → List String
  | .unsupportedNode node | .notEvaluatable node => [node]
  | .unsupportedOperator node op => [node, op]
  | .unsupportedMethod method => method.name :: method.declaringType.texts
  | .unsupportedMember declaringType member => [declaringType, member]
  | .lambdaArity _ => []
  | .missingParameter name model => [name, model]
  | .unknownModel name => [name]
  | .unknownProperty model property => [model, property]
  | .evaluation failure => failure.texts
  | .unrenderableValue type => [type]

/-- A message breaks a line where one of its texts does. -/
theorem hasBreak_message (e : QueryError) : HasBreak e.message ↔ HaveBreak e.texts := by
  have hwords : ¬ HasBreak "unsupported expression node: " ∧ ¬ HasBreak "unsupported operator " ∧
      ¬ HasBreak " on " ∧ ¬ HasBreak "unsupported method " ∧ ¬ HasBreak " declared on " ∧
      ¬ HasBreak "member " ∧ ¬ HasBreak " of " ∧ ¬ HasBreak " is not supported" ∧
      ¬ HasBreak "lambda must take exactly one model parameter, got " := by
    decide
  have hnames : ¬ HasBreak "no model is bound to parameter '" ∧ ¬ HasBreak "' of type " ∧
      ¬ HasBreak "unknown model " ∧ ¬ HasBreak "model " ∧ ¬ HasBreak " has no property " ∧
      ¬ HasBreak " must only depend on constant values" ∧
      ¬ HasBreak "could not evaluate constant expression: " ∧ ¬ HasBreak "a value of type " ∧
      ¬ HasBreak " has no SQL literal form" := by
    decide
  unfold message
  cases e with
  | unsupportedOperator node op => simp [texts, hwords, or_comm]
  | unsupportedMember declaringType member => simp [texts, hwords, or_comm]
  | _ =>
    simp [texts, hwords, hnames, EvaluationFailure.hasBreak_message, DeclaringType.hasBreak_render]

end QueryError

end PredicateSql
