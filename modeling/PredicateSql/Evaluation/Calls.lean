import PredicateSql.Evaluation.Arithmetic
import PredicateSql.Text.Blank
import PredicateSql.Text.Case
import PredicateSql.Text.Search

/-!
# Calls and constructors

* `callString`: the methods of strings.
* `containsItem`: whether a sequence holds an item.
* `callOn`, `callStatic`: a method called on a value, or on a type.
* `construct`: an object made from values. Dates and points in time can be made.
-/

namespace PredicateSql

/-! ### Strings and sequences -/

/-- A position or a length within a text. -/
def position? (i : Int64) : Option Nat :=
  if i.toInt < 0 then none else some i.toInt.toNat

/-- A method of strings. Positions and lengths count characters. -/
def callString (s : String) (method : KnownMethod) (args : List Value) :
    Except EvaluationFailure Value :=
  match method, args with
  | .contains, [.string needle] => return .bool (Text.occursIn needle.toList s.toList)
  | .startsWith, [.string start] => return .bool (start.toList.isPrefixOf s.toList)
  | .endsWith, [.string ending] => return .bool (ending.toList.isSuffixOf s.toList)
  | .toUpper, [] => return .string (.ofList (Text.toUpper s.toList))
  | .toLower, [] => return .string (.ofList (Text.toLower s.toList))
  | .trim, [] => return .string (.ofList (Text.trim s.toList))
  | .toString, [] => return .string s
  | .equals, [other] =>
    return .bool (match other with
      | .string o => o == s
      | _ => false)
  | .substring, [.int start] =>
    match position? start with
    | some start => return .string (.ofList (s.toList.drop start))
    | none => throw (.stringArguments method args)
  | .substring, [.int start, .int length] =>
    match position? start, position? length with
    | some start, some length => return .string (.ofList ((s.toList.drop start).take length))
    | _, _ => throw (.stringArguments method args)
  | _, _ => throw (.stringArguments method args)

/-- Whether a sequence holds an item. -/
def containsItem (collection item : Value) : Except EvaluationFailure Value :=
  match collection with
  | .list items => return .bool (items.any (·.equals item))
  | other => throw (.sequenceExpected other)

/-! ### Dates -/

/-- The largest number of seconds between two points in time. -/
def maxSeconds : Int := 9223372036854775

/-- A number of days in seconds. A part of a second is dropped. -/
def secondsOfDays (days : Value) : Except EvaluationFailure Int := do
  let seconds ←
    match days with
    | .int n => pure (86400 * n.toInt)
    | .float x => pure (x * 86400.0).toInt64.toInt
    | other => throw (.dayCountExpected other)
  if -maxSeconds ≤ seconds ∧ seconds ≤ maxSeconds then return seconds else throw .dateOutOfRange

/-- A point in time some days later. -/
def addDaysToTime (t : DateTime) (days : Value) : Except EvaluationFailure Value := do
  match t.addSeconds? (← secondsOfDays days) with
  | some t => return .dateTime t
  | none => throw .dateOutOfRange

/-- A date some days later. A part of a day is dropped. -/
def addDaysToDate (d : Date) (days : Value) : Except EvaluationFailure Value := do
  match d.addDays? ((← secondsOfDays days).tdiv 86400) with
  | some d => return .date d
  | none => throw .dateOutOfRange

/-! ### Methods -/

/-- The size of a number. -/
def absolute? : Value → Option Value
  | .int i => if i.toInt = minInt then none else some (.int (.ofInt i.toInt.natAbs))
  | .float x => some (.float x.abs)
  | _ => none

/-- The larger or the smaller of two values; the first of two equal ones. -/
def choose? (larger : Bool) (a b : Value) : Option Value :=
  (a.compare? b).map fun order =>
    if (if larger then order != .lt else order != .gt) then a else b

/-- A failure within an evaluation. -/
def failing {α : Type} (r : Except EvaluationFailure α) : Except QueryError α :=
  r.mapError .evaluation

/-- A value, or the complaint that a method is not supported. -/
def supported (method : Method) (result : Option Value) : Except QueryError Value :=
  match result with
  | some v => return v
  | none => throw (.unsupportedMethod method)

/-- A method called on a value. -/
def callOn (target : Value) (method : Method) (known : KnownMethod) (args : List Value) :
    Except QueryError Value :=
  match target, known, args with
  | .string s, _, _ => failing (callString s known args)
  | .list items, .contains, [item] => failing (containsItem (.list items) item)
  | .dateTime t, .addDays, [days] => failing (addDaysToTime t days)
  | .date d, .addDays, [days] => failing (addDaysToDate d days)
  | .null, _, _ => throw (.evaluation (.nullTarget method.name))
  | v, .toString, [] => return .string v.renderPlain
  | v, .equals, [other] => return .bool (v.equals other)
  | _, _, _ => throw (.unsupportedMethod method)

/-- A method called on a type. -/
def callStatic (method : Method) (known : KnownMethod) (args : List Value) :
    Except QueryError Value :=
  match known, args with
  | .contains, [collection, item] =>
    if method.declaringType.isSequence then failing (containsItem collection item)
    else throw (.unsupportedMethod method)
  | .abs, [v] =>
    supported method (if method.declaringType = .math then absolute? v else none)
  | .max, [a, b] =>
    supported method (if method.declaringType = .math then choose? true a b else none)
  | .min, [a, b] =>
    supported method (if method.declaringType = .math then choose? false a b else none)
  | _, _ => throw (.unsupportedMethod method)

/-! ### Constructors -/

/-- The numbers, if all values are whole numbers. -/
def ints? : List Value → Option (List Int)
  | [] => some []
  | .int i :: rest => (ints? rest).map (i.toInt :: ·)
  | _ :: _ => none

/-- The object that a constructor makes from whole numbers. -/
def construct? (type : String) (args : List Int) : Option Value :=
  match type, args with
  | "DateOnly", [y, m, d] => (Date.ofCivil? y m d).map .date
  | "DateTime", [y, m, d] => (Date.ofCivil? y m d).map fun date => .dateTime (.ofDate date)
  | "DateTime", [y, m, d, hour, minute, second] =>
    (Date.ofCivil? y m d).bind fun date =>
      (DateTime.ofClock? date hour minute second 0).map .dateTime
  | _, _ => none

/-- The object that a constructor makes. -/
def construct (type : String) (args : List Value) : Except EvaluationFailure Value :=
  match (ints? args).bind (construct? type) with
  | some v => return v
  | none => throw (.notConstructible type args)

end PredicateSql
