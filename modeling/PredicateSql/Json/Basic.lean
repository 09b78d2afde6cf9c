/-!
# JSON documents

* `Json`: a document. A string holds no text if one of its escapes names half of a surrogate pair
  without the other half; such a string is well-formed, but nothing can be read from it.
* `Json.record?`: the known members of a record, from either of the two forms it may be written in.
-/

namespace PredicateSql

/-- A JSON document. Members of objects keep their order, and their keys may repeat. -/
inductive Json where
  | null
  | bool (b : Bool)
  | number (text : String)
  | string (text : Option String)
  | array (items : List Json)
  | object (members : List (Option String × Json))
  deriving Repr, Inhabited

namespace Json

/-- A string with a text. -/
def text (s : String) : Json :=
  .string (some s)

/-- An object with these members. -/
def ofMembers (members : List (String × Json)) : Json :=
  .object (members.map fun (key, value) => (some key, value))

/-! ### Reading scalars -/

/-- The truth value that a document is. -/
def bool? : Json → Option Bool
  | .bool b => some b
  | _ => none

/-- The text of a string that has one. -/
def text? : Json → Option String
  | .string text => text
  | _ => none

/-- The items of an array. -/
def array? : Json → Option (List Json)
  | .array items => some items
  | _ => none

/-- `null`, or something that `read` accepts. -/
def nullable? {α : Type} (read : Json → Option α) : Json → Option (Option α)
  | .null => some none
  | document => (read document).map some

/-! ### Reading records -/

/-- The members of an object that have one of the given names. Other members are passed over; a
name that occurs twice, or a key without a text, is refused. -/
def knownMembers? (names : List String) :
    List (Option String × Json) → Option (List (String × Json))
  | [] => some []
  | (none, _) :: _ => none
  | (some key, value) :: rest =>
    (knownMembers? names rest).bind fun known =>
      if names.contains key then
        if (known.lookup key).isSome then none else some ((key, value) :: known)
      else some known

/-- The members of a record with the given field names. It is written as an object, or as an array
of its first fields in their order. -/
def record? (names : List String) : Json → Option (List (String × Json))
  | .object members => knownMembers? names members
  | .array items => if items.length ≤ names.length then some (names.zip items) else none
  | _ => none

/-- A field that must be there. -/
def required? {α : Type} (record : List (String × Json)) (name : String)
    (read : Json → Option α) : Option α :=
  (record.lookup name).bind read

/-- A field with a value for the records that leave it out. -/
def optional? {α : Type} (record : List (String × Json)) (name : String) (default : α)
    (read : Json → Option α) : Option α :=
  match record.lookup name with
  | none => some default
  | some value => read value

end Json

end PredicateSql
