import PredicateSql.Binary64.Reading
import PredicateSql.Expr.Basic
import PredicateSql.Text.Hex
import PredicateSql.Text.Quoted
import PredicateSql.Text.Utf8

/-!
# Literals

* `unescape?`: the text of a literal in which a backslash starts an escape.
* `unescapeVerbatim`: the text of a literal in which quotes are doubled.
* `number?`: the constant that a number stands for, with the letters after it that name its type.
-/

namespace PredicateSql

/-! ### Text -/

/-- The character that a letter after a backslash stands for. -/
def escapeChar? : Char → Option Char
  | 'n' => some '\n'
  | 't' => some '\t'
  | 'r' => some '\r'
  | '0' => some '\x00'
  | '\\' => some '\\'
  | '"' => some '"'
  | '\'' => some '\''
  | _ => none

/-- The character with a hexadecimal number. The number may have a plus sign, and has at least one
digit; surrogates are no characters. -/
def unicodeChar? (text : List Char) : Option Char :=
  let digits :=
    match text with
    | '+' :: digits => digits
    | digits => digits
  if digits.isEmpty then none
  else (Text.hexNumber? digits).bind fun n => if h : n.isValidChar then some (.ofNatAux n h) else none

/-- The text that escapes stand for. The number after `\u` is made of the next four characters, or
of fewer at the end of the literal. -/
def unescape? : List Char → Option (List Char)
  | [] => some []
  | '\\' :: 'u' :: a :: b :: c :: d :: rest =>
    (unicodeChar? [a, b, c, d]).bind fun e => (unescape? rest).map (e :: ·)
  | '\\' :: 'u' :: rest => (unicodeChar? rest).map ([·])
  | '\\' :: letter :: rest =>
    (escapeChar? letter).bind fun e => (unescape? rest).map (e :: ·)
  | ['\\'] => none
  | c :: rest => (unescape? rest).map (c :: ·)

/-- The text of a literal with doubled quotes. -/
def unescapeVerbatim (text : List Char) : List Char :=
  Text.undoubled '"' text

/-! ### Numbers -/

/-- Digits, with at most one point between them, as a double. -/
def floatOfDigits (digits : List Char) : Float :=
  let whole := digits.takeWhile Char.isDigit
  let fraction := (digits.drop whole.length).drop 1
  Binary64.ofDecimal (Binary64.digitsValue (whole ++ fraction)) (-fraction.length)

/-- The constant that a number stands for. A number with a point, or with one of the letters `m`,
`d` and `f`, is a float, and a decimal if the letter is `m`. -/
def number? (text : List Char) : Option Expr :=
  let digits := text.takeWhile fun c => !c.isAlpha
  let suffix := String.ofList ((text.drop digits.length).map Char.toLower)
  if digits.contains '.' || ["m", "d", "f"].contains suffix then
    let type : ValueType := if suffix = "m" then .decimal else .float
    some (.constant type (.float (floatOfDigits digits)))
  else if ["", "l", "u", "ul", "lu"].contains suffix then
    let n := Binary64.digitsValue digits
    if n < 9223372036854775808 then some (.ofValue (.int (.ofNat n))) else none
  else none

end PredicateSql
