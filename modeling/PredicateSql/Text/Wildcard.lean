/-!
# Patterns with wildcards

In a `LIKE` pattern `%` stands for any text and `_` for any one character. A backslash makes the
character after it stand for itself.

* `escapeWildcards`: the pattern that matches one text only.
* `Anchor.pattern`: the pattern for a text at the start, at the end or anywhere.
-/

namespace PredicateSql.Text

/-- The characters that do not stand for themselves in a pattern. -/
def isWildcard (c : Char) : Bool :=
  c == '\\' || c == '%' || c == '_'

/-- A text as a pattern that matches nothing but this text. -/
def escapeWildcards : List Char → List Char
  | [] => []
  | c :: rest =>
    if isWildcard c then '\\' :: c :: escapeWildcards rest else c :: escapeWildcards rest

/-- Where a text is looked for within another. -/
inductive Anchor where
  | anywhere
  | start
  | ending
  deriving Repr, DecidableEq, Inhabited

/-- Something between the wildcards that an anchor calls for. -/
def Anchor.surround {α : Type} (any inner : List α) : Anchor → List α
  | .anywhere => any ++ inner ++ any
  | .start => inner ++ any
  | .ending => any ++ inner

/-- The pattern that matches the texts with `text` in the given place. -/
def Anchor.pattern (anchor : Anchor) (text : List Char) : List Char :=
  anchor.surround ['%'] (escapeWildcards text)

end PredicateSql.Text
