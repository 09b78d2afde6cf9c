import PredicateSql.Text.Blank
import PredicateSql.Text.Search

/-!
# Types of values

* `ValueType`: the type of a constant, a property or a parameter.
* `ValueType.parse`: the type that a type name stands for, and whether the name marks it as
  nullable. Every text is a type name: what is no scalar and no sequence names a model.
* `ValueType.render`: the name that a type is printed under.
-/

namespace PredicateSql

/-- The type of a value. -/
inductive ValueType where
  | bool
  | int
  | float
  | decimal
  | string
  | date
  | dateTime
  | bytes
  | list (element : ValueType)
  | model (name : String)
  | unknown
  deriving Repr, DecidableEq, Inhabited

namespace ValueType

/-- The type of the elements of a sequence. -/
def element? : ValueType → Option ValueType
  | .list element => some element
  | _ => none

/-- The type that a name without markers stands for. -/
def ofWord (name : String) : ValueType :=
  match name with
  | "bool" | "Boolean" => .bool
  | "byte" | "sbyte" | "short" | "ushort" | "int" | "uint" | "long" | "ulong" => .int
  | "Int16" | "Int32" | "Int64" => .int
  | "float" | "double" | "Single" | "Double" => .float
  | "decimal" | "Decimal" => .decimal
  | "string" | "String" | "char" | "Char" | "Guid" => .string
  | "DateOnly" | "date" => .date
  | "DateTime" | "DateTimeOffset" => .dateTime
  | "" | "object" | "Object" => .unknown
  | _ => .model name

/-- Generic types whose argument is the type of their elements. -/
def isSequenceName (name : String) : Bool :=
  ["List", "IList", "ICollection", "IEnumerable", "HashSet", "ISet", "IReadOnlyList",
    "IReadOnlyCollection"].contains name

/-- The outermost marker of a type name, with the name within it. -/
inductive Shape where
  /-- The forms `T?` and `Nullable<T>`. -/
  | nullable (inner : List Char)
  /-- The form `T[]`. -/
  | array (inner : List Char)
  /-- The form `List<T>` and its like. -/
  | sequence (inner : List Char)
  /-- A name without a marker. -/
  | word
  deriving Repr, DecidableEq

/-- The marker of a generic name: an outer name, and an argument between `<` and `>`. -/
def Shape.ofGeneric (name : List Char) : Shape :=
  match Text.splitOnce? '<' name with
  | some (outer, rest) =>
    match Text.stripEnd? ['>'] rest with
    | some inner => if isSequenceName (.ofList outer) then .sequence inner else .word
    | none => .word
  | none => .word

/-- The outermost marker of a trimmed type name. -/
def Shape.of (name : List Char) : Shape :=
  match Text.stripEnd? ['?'] name with
  | some inner => .nullable inner
  | none =>
    match (Text.stripStart? "Nullable<".toList name).bind (Text.stripEnd? ['>']) with
    | some inner => .nullable inner
    | none =>
      match Text.stripEnd? ['[', ']'] name with
      | some inner => .array inner
      | none => .ofGeneric name

/-- The name within a marker. -/
def Shape.inner? : Shape → Option (List Char)
  | .nullable inner | .array inner | .sequence inner => some inner
  | .word => none

/-- The argument of a generic name is shorter than the name. -/
theorem Shape.length_inner_ofGeneric_lt {name inner : List Char}
    (h : (Shape.ofGeneric name).inner? = some inner) : inner.length < name.length := by
  unfold Shape.ofGeneric at h
  split at h
  · next outer rest hs =>
    split at h
    · next he =>
      split at h
      · obtain rfl := Option.some.inj h
        rw [Text.splitOnce?_eq_some hs, Text.stripEnd?_eq_some_iff.1 he]
        simp only [List.length_append, List.length_cons, List.length_nil]
        omega
      · cases h
    · cases h
  · cases h

/-- A marker takes at least one character. -/
theorem Shape.length_inner_lt {name inner : List Char} (h : (Shape.of name).inner? = some inner) :
    inner.length < name.length := by
  unfold Shape.of at h
  split at h
  · next hs =>
    obtain rfl := Option.some.inj h
    rw [Text.stripEnd?_eq_some_iff.1 hs, List.length_append]
    exact Nat.lt_add_of_pos_right Nat.one_pos
  · split at h
    · next hs =>
      obtain rfl := Option.some.inj h
      obtain ⟨rest, hstart, hend⟩ := Option.bind_eq_some_iff.1 hs
      rw [Text.stripStart?_eq_some_iff.1 hstart, Text.stripEnd?_eq_some_iff.1 hend]
      simp only [List.length_append, List.length_cons, List.length_nil]
      omega
    · split at h
      · next hs =>
        obtain rfl := Option.some.inj h
        rw [Text.stripEnd?_eq_some_iff.1 hs, List.length_append]
        exact Nat.lt_add_of_pos_right Nat.two_pos
      · exact Shape.length_inner_ofGeneric_lt h

/-- The type that a name stands for, and whether it is marked as nullable. An array of bytes is a
blob, and no sequence of numbers. -/
def parseChars (text : List Char) : ValueType × Bool :=
  match _h : Shape.of (Text.trim text) with
  | .nullable inner => ((parseChars inner).1, true)
  | .array inner =>
    let element := (parseChars inner).1
    if element = .int ∧ "byte".toList.isPrefixOf (Text.trim text) then (.bytes, false)
    else (.list element, false)
  | .sequence inner => (.list (parseChars inner).1, false)
  | .word => (ofWord (.ofList (Text.trim text)), false)
termination_by text.length
decreasing_by
  all_goals
    exact Nat.lt_of_lt_of_le (Shape.length_inner_lt (by rw [_h]; rfl)) (Text.length_trim_le text)

/-- The type that a name stands for, and whether it is marked as nullable. -/
def parse (name : String) : ValueType × Bool :=
  parseChars name.toList

/-- The type that a name stands for. -/
def ofName (name : String) : ValueType :=
  (parse name).1

/-- The name that a type is printed under. -/
def render : ValueType → String
  | .bool => "bool"
  | .int => "long"
  | .float => "double"
  | .decimal => "decimal"
  | .string => "string"
  | .date => "DateOnly"
  | .dateTime => "DateTime"
  | .bytes => "byte[]"
  | .list element => element.render ++ "[]"
  | .model name => name
  | .unknown => "object"

end ValueType

end PredicateSql
