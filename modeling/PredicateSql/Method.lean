/-!
# Methods

* `DeclaringType`: the type that a method is declared on, as far as it decides what a call means.
* `KnownMethod`: the methods with a meaning of their own.
* `Method`: a declaring type and a name.
-/

namespace PredicateSql

/-- The type that a method is declared on. -/
inductive DeclaringType where
  /-- Extension methods of sequences. -/
  | enumerable
  /-- Extension methods of queries. -/
  | queryable
  /-- Methods of arrays, lists, sets and other collections. -/
  | collection
  | string
  | dateTime
  | math
  | other (name : String)
  deriving Repr, DecidableEq, Inhabited

namespace DeclaringType

/-- The declaring type that a type name stands for. -/
def ofName (name : String) : DeclaringType :=
  match name with
  | "Enumerable" => .enumerable
  | "Queryable" => .queryable
  | "List" | "IList" | "ICollection" | "HashSet" | "ISet" | "Array" | "Collection" => .collection
  | "string" | "String" => .string
  | "DateTime" | "DateOnly" => .dateTime
  | "Math" => .math
  | _ => .other name

/-- The name that a declaring type is printed under. -/
def render : DeclaringType → String
  | .enumerable => "Enumerable"
  | .queryable => "Queryable"
  | .collection => "ICollection"
  | .string => "String"
  | .dateTime => "DateTime"
  | .math => "Math"
  | .other name => name

/-- The methods of the type work on sequences. -/
def isSequence : DeclaringType → Bool
  | .enumerable | .queryable | .collection => true
  | _ => false

end DeclaringType

/-- A method with a meaning of its own. -/
inductive KnownMethod where
  | contains
  | startsWith
  | endsWith
  | toUpper
  | toLower
  | trim
  | substring
  | toString
  | equals
  | addDays
  | abs
  | max
  | min
  deriving Repr, DecidableEq, Inhabited

namespace KnownMethod

/-- The name of a method. -/
def name : KnownMethod → String
  | .contains => "Contains"
  | .startsWith => "StartsWith"
  | .endsWith => "EndsWith"
  | .toUpper => "ToUpper"
  | .toLower => "ToLower"
  | .trim => "Trim"
  | .substring => "Substring"
  | .toString => "ToString"
  | .equals => "Equals"
  | .addDays => "AddDays"
  | .abs => "Abs"
  | .max => "Max"
  | .min => "Min"

/-- All methods with a meaning of their own. -/
def all : List KnownMethod :=
  [.contains, .startsWith, .endsWith, .toUpper, .toLower, .trim, .substring, .toString, .equals,
    .addDays, .abs, .max, .min]

/-- The method with a name. -/
def ofName? (name : String) : Option KnownMethod :=
  all.find? (·.name == name)

end KnownMethod

/-- A method: where it is declared and what it is called. -/
structure Method where
  declaringType : DeclaringType
  name : String
  deriving Repr, DecidableEq, Inhabited

namespace Method

/-- The meaning of a method, if its name has one. -/
def known? (m : Method) : Option KnownMethod :=
  KnownMethod.ofName? m.name

/-- Declaring type and name, joined by a dot. -/
def render (m : Method) : String :=
  m.declaringType.render ++ "." ++ m.name

end Method

end PredicateSql
