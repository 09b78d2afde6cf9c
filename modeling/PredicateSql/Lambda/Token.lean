/-!
# Tokens

* `Token`: a piece of source text, with its kind and its place.
* `Token.contents`: the piece without the quotes of a literal.
-/

namespace PredicateSql

/-- The kind of a token. -/
inductive TokenKind where
  | parenLeft
  | parenRight
  | braceLeft
  | braceRight
  | bracketLeft
  | bracketRight
  | comma
  | dot
  | question
  | colon
  | plus
  | minus
  | asterisk
  | slash
  | percent
  | arrow
  | equals
  | notEquals
  | bang
  | less
  | greater
  | lessOrEqual
  | greaterOrEqual
  | and
  | or
  | number
  | identifier
  | string
  /-- A string after `@`, in which backslashes are plain and quotes are doubled. -/
  | verbatimString
  | char
  | true
  | false
  | null
  | new
  deriving Repr, DecidableEq, Inhabited

/-- The name of a kind in messages. -/
def TokenKind.name : TokenKind → String
  | .parenLeft => "ParenLeft"
  | .parenRight => "ParenRight"
  | .braceLeft => "BraceLeft"
  | .braceRight => "BraceRight"
  | .bracketLeft => "BracketLeft"
  | .bracketRight => "BracketRight"
  | .comma => "Comma"
  | .dot => "Dot"
  | .question => "Question"
  | .colon => "Colon"
  | .plus => "Plus"
  | .minus => "Minus"
  | .asterisk => "Asterisk"
  | .slash => "ForwardSlash"
  | .percent => "Percent"
  | .arrow => "Arrow"
  | .equals => "Equals"
  | .notEquals => "NotEquals"
  | .bang => "Bang"
  | .less => "LT"
  | .greater => "GT"
  | .lessOrEqual => "LTE"
  | .greaterOrEqual => "GTE"
  | .and => "And"
  | .or => "Or"
  | .number => "Number"
  | .identifier => "Identifier"
  | .string => "String"
  | .verbatimString => "VerbatimString"
  | .char => "Char"
  | .true => "True"
  | .false => "False"
  | .null => "Null"
  | .new => "New"

/-- A piece of source text. -/
structure Token where
  kind : TokenKind
  /-- The place of the first byte, counted from zero. -/
  start : Nat
  /-- The bytes of the piece. -/
  source : List UInt8
  deriving Repr, DecidableEq, Inhabited

namespace Token

/-- The place after the last byte. -/
def stop (t : Token) : Nat :=
  t.start + t.source.length

/-- The number of bytes before the contents of a literal: a quote, and the mark before it. -/
def opening : TokenKind → Nat
  | .string | .char => 1
  | .verbatimString => 2
  | _ => 0

/-- The number of bytes after the contents of a literal. -/
def closing : TokenKind → Nat
  | .string | .char | .verbatimString => 1
  | _ => 0

/-- The bytes of a token, those between the quotes for a literal. Escapes are left as they are. -/
def contents (t : Token) : List UInt8 :=
  (t.source.drop (opening t.kind)).take (t.source.length - opening t.kind - closing t.kind)

end Token

end PredicateSql
