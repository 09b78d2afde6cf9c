import PredicateSql.Lambda.Token

/-!
# From bytes to tokens

The text is read as bytes. Bytes outside ASCII stand only within literals.

* `scan`: the token that starts with a byte, by the number of bytes after it that belong to it.
* `Cursor.next`: the next token of a text. A minus is always a token of its own, never the sign of
  a number.
* `tokenize`: all tokens of a text, up to its end or to the first piece that is no token.
-/

namespace PredicateSql

/-- Why a piece of text is no token. -/
inductive LexicalError where
  | unterminatedLiteral (start : Nat)
  | unexpectedCharacter (place : Nat)
  deriving Repr, DecidableEq, Inhabited

/-- The wording of a lexical error. -/
def LexicalError.message : LexicalError → String
  | .unterminatedLiteral start => "unterminated literal starting at " ++ toString start
  | .unexpectedCharacter place => "unexpected character at " ++ toString place

/-! ### Classes of bytes -/

/-- The character of a byte. A byte outside ASCII gives one outside ASCII. -/
def ascii (b : UInt8) : Char :=
  .ofNat b.toNat

/-- The blanks between tokens. -/
def isSpaceByte (b : UInt8) : Bool :=
  [' ', '\t', '\n', '\x0c', '\r'].contains (ascii b)

/-- A decimal digit. -/
def isDigitByte (b : UInt8) : Bool :=
  (ascii b).isDigit

/-- Words start with a letter or an underscore. -/
def isWordStart (b : UInt8) : Bool :=
  (ascii b).isAlpha || ascii b == '_'

/-- Words go on with letters, underscores and digits. -/
def isWordByte (b : UInt8) : Bool :=
  isWordStart b || isDigitByte b

/-- The letters after a number that name its type. -/
def isSuffixByte (b : UInt8) : Bool :=
  ['l', 'u', 'm', 'd', 'f'].contains (ascii b).toLower

/-- The text goes on with a character. -/
def goesOnWith (c : Char) : List UInt8 → Bool
  | [] => false
  | b :: _ => ascii b == c

/-! ### Lengths of tokens -/

/-- How far a number goes on after its first digit. A point belongs to it only if a digit follows,
so that members may be taken of a number. -/
def numberLength (rest : List UInt8) : Nat :=
  let whole := (rest.takeWhile isDigitByte).length
  let fraction :=
    match rest.drop whole with
    | point :: more =>
      let digits := (more.takeWhile isDigitByte).length
      if ascii point == '.' && digits != 0 then 1 + digits else 0
    | [] => 0
  whole + fraction + ((rest.drop (whole + fraction)).takeWhile isSuffixByte).length

/-- How far a literal goes on after its opening quote, if it is closed. A backslash takes the byte
after it into the literal. -/
def escapedLength (quote : Char) : List UInt8 → Option Nat
  | [] => none
  | b :: rest =>
    if ascii b == '\\' then
      match rest with
      | [] => none
      | _ :: rest => (escapedLength quote rest).map (· + 2)
    else if ascii b == quote then some 1
    else (escapedLength quote rest).map (· + 1)

/-- How far a literal goes on after its opening quote, if it is closed. A doubled quote does not
close it. -/
def verbatimLength (quote : Char) : List UInt8 → Option Nat
  | [] => none
  | b :: rest =>
    if ascii b == quote then
      match rest with
      | [] => some 1
      | d :: rest =>
        if ascii d == quote then (verbatimLength quote rest).map (· + 2) else some 1
    else (verbatimLength quote rest).map (· + 1)

/-! ### Tokens -/

/-- What starts with a byte. -/
inductive Scan where
  /-- A token with so many bytes after its first one. -/
  | token (kind : TokenKind) (length : Nat)
  | unexpected
  | unterminated
  deriving Repr, DecidableEq

/-- A literal whose length after its first byte is known if it is closed. -/
def Scan.literal (kind : TokenKind) : Option Nat → Scan
  | some length => .token kind length
  | none => .unterminated

/-- The kind of a word. -/
def wordKind (word : List UInt8) : TokenKind :=
  match String.ofList (word.map ascii) with
  | "true" => .true
  | "false" => .false
  | "null" => .null
  | "new" => .new
  | _ => .identifier

/-- What starts with a byte and goes on with `rest`. -/
def scan (b : UInt8) (rest : List UInt8) : Scan :=
  match ascii b with
  | '(' => .token .parenLeft 0
  | ')' => .token .parenRight 0
  | '\x7b' => .token .braceLeft 0
  | '\x7d' => .token .braceRight 0
  | '[' => .token .bracketLeft 0
  | ']' => .token .bracketRight 0
  | ',' => .token .comma 0
  | '.' => .token .dot 0
  | '?' => .token .question 0
  | ':' => .token .colon 0
  | '+' => .token .plus 0
  | '-' => .token .minus 0
  | '*' => .token .asterisk 0
  | '/' => .token .slash 0
  | '%' => .token .percent 0
  | '=' =>
    if goesOnWith '>' rest then .token .arrow 1
    else if goesOnWith '=' rest then .token .equals 1
    else .unexpected
  | '!' => if goesOnWith '=' rest then .token .notEquals 1 else .token .bang 0
  | '<' => if goesOnWith '=' rest then .token .lessOrEqual 1 else .token .less 0
  | '>' => if goesOnWith '=' rest then .token .greaterOrEqual 1 else .token .greater 0
  | '&' => if goesOnWith '&' rest then .token .and 1 else .unexpected
  | '|' => if goesOnWith '|' rest then .token .or 1 else .unexpected
  | '"' => .literal .string (escapedLength '"' rest)
  | '\'' => .literal .char (escapedLength '\'' rest)
  | '@' =>
    match rest with
    | [] => .unexpected
    | d :: rest =>
      if ascii d == '"' then .literal .verbatimString ((verbatimLength '"' rest).map (· + 1))
      else .unexpected
  | _ =>
    if isWordStart b then
      let more := rest.takeWhile isWordByte
      .token (wordKind (b :: more)) more.length
    else if isDigitByte b then .token .number (numberLength rest)
    else .unexpected

/-! ### Cursors -/

/-- A place within a text, and the text from there on. -/
structure Cursor where
  place : Nat
  rest : List UInt8
  deriving Repr, DecidableEq, Inhabited

namespace Cursor

/-- The start of a text. -/
def ofBytes (bytes : List UInt8) : Cursor :=
  ⟨0, bytes⟩

/-- No text is left. -/
def isAtEnd (c : Cursor) : Bool :=
  c.rest.isEmpty

/-- The byte some places on. -/
def byteAt? (c : Cursor) (n : Nat) : Option UInt8 :=
  c.rest[n]?

/-- The place some bytes on. -/
def advance (c : Cursor) (n : Nat) : Cursor :=
  ⟨c.place + n, c.rest.drop n⟩

/-- The first place that is not blank. -/
def skipBlanks (c : Cursor) : Cursor :=
  c.advance (c.rest.takeWhile isSpaceByte).length

/-- The next token, and the place after it; no token at the end of the text. A byte that starts no
token is passed over, and a literal without an end goes on to the end of the text. -/
def next (c : Cursor) : Except LexicalError (Option Token) × Cursor :=
  let c := c.skipBlanks
  match c.rest with
  | [] => (.ok none, c)
  | b :: rest =>
    match scan b rest with
    | .token kind length =>
      (.ok (some ⟨kind, c.place, b :: rest.take length⟩), c.advance (length + 1))
    | .unexpected => (.error (.unexpectedCharacter c.place), c.advance 1)
    | .unterminated => (.error (.unterminatedLiteral c.place), c.advance c.rest.length)

/-- The next token, without moving on. -/
def peek (c : Cursor) : Except LexicalError (Option Token) :=
  c.next.1

/-- Moves past the next token if it is of a kind. -/
def consume (c : Cursor) (kind : TokenKind) : Except LexicalError Bool × Cursor :=
  match c.next with
  | (.ok (some t), after) => if t.kind = kind then (.ok true, after) else (.ok false, c)
  | (.ok none, _) => (.ok false, c)
  | (.error e, _) => (.error e, c)

/-- Moves past the next byte if it is this one. -/
def consumeByte (c : Cursor) (b : UInt8) : Bool × Cursor :=
  if c.byteAt? 0 = some b then (true, c.advance 1) else (false, c)

/-- At most so many tokens of the text, and the failure that ends them. -/
def tokens (c : Cursor) : Nat → List Token × Option LexicalError
  | 0 => ([], none)
  | count + 1 =>
    match c.next with
    | (.ok none, _) => ([], none)
    | (.error e, _) => ([], some e)
    | (.ok (some t), after) =>
      let (rest, failure) := after.tokens count
      (t :: rest, failure)

end Cursor

/-- The tokens of a text, and the failure that ends them. No token is empty, so there are at most
as many tokens as bytes. -/
def tokenize (bytes : List UInt8) : List Token × Option LexicalError :=
  (Cursor.ofBytes bytes).tokens (bytes.length + 1)

end PredicateSql
