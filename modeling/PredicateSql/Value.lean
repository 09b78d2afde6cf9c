import PredicateSql.Binary64.Notation
import PredicateSql.Calendar.DateTime
import PredicateSql.ValueType

/-!
# Values

* `Value`: what a constant holds and what a closed expression evaluates to.
* `Value.type`: the type of a value. `Value.typeName`: the type that messages name.
* `Value.member?`: the property of a value. Every property of `null` is `null`.
* `Value.toList`: the elements of a sequence.
* `Value.render`: the text of a value in messages.
-/

namespace PredicateSql

/-- A value. A record stands for any object that is no scalar; its fields keep their order. -/
inductive Value where
  | null
  | bool (b : Bool)
  | int (i : Int64)
  | float (x : Float)
  | string (s : String)
  | date (d : Date)
  | dateTime (t : DateTime)
  | bytes (b : List UInt8)
  | list (items : List Value)
  | record (typeName : String) (fields : List (String × Value))
  deriving Inhabited, Repr

namespace Value

/-- The value is `null`. -/
def isNull : Value → Bool
  | .null => true
  | _ => false

/-- The condition that a value is, if it is one. -/
def bool? : Value → Option Bool
  | .bool b => some b
  | _ => none

/-! ### Types -/

mutual

/-- The type of a value. The first element that is not `null` decides the type of a list. -/
def type : Value → ValueType
  | .null => .unknown
  | .bool _ => .bool
  | .int _ => .int
  | .float _ => .float
  | .string _ => .string
  | .date _ => .date
  | .dateTime _ => .dateTime
  | .bytes _ => .bytes
  | .list items => .list (elementType items)
  | .record typeName _ => .model typeName

/-- The type of the first element that is not `null`. -/
def elementType : List Value → ValueType
  | [] => .unknown
  | item :: rest => if item.isNull then elementType rest else item.type

end

/-- The name of the type of a value. -/
def typeName (v : Value) : String :=
  v.type.render

/-! ### Members -/

/-- A number that is small enough for an integer value. -/
def ofNat (n : Nat) : Value :=
  .int (.ofNat n)

/-- The members of a value that depend on its type. -/
def ownMember? : Value → String → Option Value
  | .record _ fields, name => fields.lookup name
  | .string s, "Length" => some (ofNat s.length)
  | .list items, "Count" => some (ofNat items.length)
  | .list items, "Length" => some (ofNat items.length)
  | .bytes b, "Length" => some (ofNat b.length)
  | .date d, "Year" => some (.int (.ofInt d.year))
  | .date d, "Month" => some (ofNat d.month)
  | .date d, "Day" => some (ofNat d.day)
  | .dateTime t, "Year" => some (.int (.ofInt t.date.year))
  | .dateTime t, "Month" => some (ofNat t.date.month)
  | .dateTime t, "Day" => some (ofNat t.date.day)
  | .dateTime t, "Date" => some (.dateTime (.ofDate t.date))
  | _, _ => none

/-- A member of a value. All values but records know `HasValue` and `Value`, and `null` knows all
members. -/
def member? (v : Value) (name : String) : Option Value :=
  match v with
  | .null => some (if name = "HasValue" then .bool false else .null)
  | .record .. => v.ownMember? name
  | _ =>
    match v.ownMember? name with
    | some m => some m
    | none =>
      if name = "HasValue" then some (.bool true)
      else if name = "Value" then some v
      else none

/-- The elements of a list; any other value is its own only element. -/
def toList : Value → List Value
  | .list items => items
  | v => [v]

/-! ### Equality -/

mutual

/-- Equality of values of one type. Floats are compared as numbers, so `NaN` is not equal to
itself and the two zeros are equal. -/
def beq : Value → Value → Bool
  | .null, .null => true
  | .bool a, .bool b => a == b
  | .int a, .int b => a == b
  | .float a, .float b => a == b
  | .string a, .string b => a == b
  | .date a, .date b => a == b
  | .dateTime a, .dateTime b => a == b
  | .bytes a, .bytes b => a == b
  | .list a, .list b => beqList a b
  | .record m a, .record n b => m == n && beqFields a b
  | _, _ => false

/-- Equality of the items of two lists. -/
def beqList : List Value → List Value → Bool
  | [], [] => true
  | a :: as, b :: bs => a.beq b && beqList as bs
  | _, _ => false

/-- Equality of the fields of two records, in their order. -/
def beqFields : List (String × Value) → List (String × Value) → Bool
  | [], [] => true
  | (m, a) :: as, (n, b) :: bs => m == n && a.beq b && beqFields as bs
  | _, _ => false

end

/-! ### Text -/

mutual

/-- The text of a value in messages. -/
def render : Value → String
  | .null => "null"
  | .bool b => if b then "true" else "false"
  | .int i => toString i.toInt
  | .float x => Binary64.render x
  | .string s => "\"" ++ s ++ "\""
  | .date d => d.render
  | .dateTime t => t.render
  | .bytes b => "byte[" ++ toString b.length ++ "]"
  | .list items => "[" ++ ", ".intercalate (renderEach items) ++ "]"
  | .record typeName _ => typeName ++ " \x7b..\x7d"

/-- The texts of some values. -/
def renderEach : List Value → List String
  | [] => []
  | item :: rest => item.render :: renderEach rest

end

/-- The text that a value contributes to a longer one: strings without quotes, nothing for
`null`. -/
def renderPlain : Value → String
  | .null => ""
  | .string s => s
  | v => v.render

/-- The texts of some values, separated by commas. -/
def renderAll (values : List Value) : String :=
  ", ".intercalate (renderEach values)

end Value

end PredicateSql
