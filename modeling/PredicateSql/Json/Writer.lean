import PredicateSql.Json.Basic
import PredicateSql.Text.Hex

/-!
# Writing JSON

`Json.render` writes a document without blanks. Within strings only the quote, the backslash and
the control characters are escaped.
-/

namespace PredicateSql.Json

/-- A character within a string. -/
def escaped (c : Char) : List Char :=
  if c = '"' then ['\\', '"']
  else if c = '\\' then ['\\', '\\']
  else if c = '\x08' then ['\\', 'b']
  else if c = '\x0c' then ['\\', 'f']
  else if c = '\n' then ['\\', 'n']
  else if c = '\r' then ['\\', 'r']
  else if c = '\t' then ['\\', 't']
  else if c < ' ' then
    ['\\', 'u', '0', '0', Text.hexDigit 'a' (c.toNat / 16), Text.hexDigit 'a' (c.toNat % 16)]
  else [c]

/-- A text between quotes. -/
def renderText (text : String) : String :=
  .ofList ('"' :: text.toList.flatMap escaped ++ ['"'])

mutual

/-- A document without blanks. A string without a text is written as an empty one. -/
def render : Json → String
  | .null => "null"
  | .bool b => if b then "true" else "false"
  | .number text => text
  | .string text => renderText (text.getD "")
  | .array items => "[" ++ ",".intercalate (renderItems items) ++ "]"
  | .object members => "\x7b" ++ ",".intercalate (renderMembers members) ++ "\x7d"

/-- The texts of some items. -/
def renderItems : List Json → List String
  | [] => []
  | item :: rest => item.render :: renderItems rest

/-- The texts of some members, each with its key. -/
def renderMembers : List (Option String × Json) → List String
  | [] => []
  | (key, value) :: rest =>
    (renderText (key.getD "") ++ ":" ++ value.render) :: renderMembers rest

end

end PredicateSql.Json
