import PredicateSql.Json.Basic
import PredicateSql.Text.Hex

/-!
# Reading JSON

`Json.read?` accepts one document with blanks around it and nothing else. The grammar is strict:
no leading zeros, no trailing commas, no control characters within strings, no comments.

Each reader takes what it reads off the front of the text and returns the rest. A value holds at
least one character, so the length of the text bounds the depth and the length of all lists.
-/

namespace PredicateSql.Json

/-- The four blanks of the format. -/
def isSpace (c : Char) : Bool :=
  c == ' ' || c == '\n' || c == '\t' || c == '\r'

/-- The text without the blanks that it starts with. -/
def skipSpace (text : List Char) : List Char :=
  text.dropWhile isSpace

/-- What follows a word. -/
def after? : List Char → List Char → Option (List Char)
  | [], text => some text
  | c :: word, d :: text => if c = d then after? word text else none
  | _ :: _, [] => none

/-! ### Strings -/

/-- The first half of a surrogate pair. -/
def isHighSurrogate (n : Nat) : Bool :=
  0xD800 ≤ n && n ≤ 0xDBFF

/-- The second half of a surrogate pair. -/
def isLowSurrogate (n : Nat) : Bool :=
  0xDC00 ≤ n && n ≤ 0xDFFF

/-- The character that a letter after a backslash stands for. -/
def escape? : Char → Option Char
  | '"' => some '"'
  | '\\' => some '\\'
  | '/' => some '/'
  | 'b' => some '\x08'
  | 'f' => some '\x0c'
  | 'n' => some '\n'
  | 'r' => some '\r'
  | 't' => some '\t'
  | _ => none

/-- What a string is made of: characters, and the sixteen-bit units that escapes name. -/
inductive StringPart where
  | char (c : Char)
  | unit (n : Nat)
  deriving Repr, DecidableEq

/-- The rest of a string whose opening quote has been read: its parts, and what follows it. -/
def readParts? : List Char → Option (List StringPart × List Char)
  | [] => none
  | '"' :: rest => some ([], rest)
  | '\\' :: 'u' :: a :: b :: c :: d :: rest =>
    (Text.hexNumber? [a, b, c, d]).bind fun n =>
      (readParts? rest).map fun (parts, rest) => (.unit n :: parts, rest)
  | '\\' :: letter :: rest =>
    (escape? letter).bind fun c =>
      (readParts? rest).map fun (parts, rest) => (.char c :: parts, rest)
  | c :: rest =>
    if c < ' ' || c == '\\' then none
    else (readParts? rest).map fun (parts, rest) => (.char c :: parts, rest)

/-- The text of a string: a unit is a character of its own, or half of a surrogate pair that stands
next to the other half. -/
def joinParts? : List StringPart → Option (List Char)
  | [] => some []
  | .char c :: rest => (joinParts? rest).map (c :: ·)
  | .unit n :: .unit m :: rest =>
    if isHighSurrogate n && isLowSurrogate m then
      let c := Char.ofNat (0x10000 + (n - 0xD800) * 0x400 + (m - 0xDC00))
      (joinParts? rest).map (c :: ·)
    else if isHighSurrogate n || isLowSurrogate n then none
    else (joinParts? (.unit m :: rest)).map (.ofNat n :: ·)
  | .unit n :: rest =>
    if isHighSurrogate n || isLowSurrogate n then none
    else (joinParts? rest).map (.ofNat n :: ·)

/-- A string after its opening quote. -/
def readText? (text : List Char) : Option (Option String × List Char) :=
  (readParts? text).map fun (parts, rest) => ((joinParts? parts).map String.ofList, rest)

/-! ### Numbers -/

/-- At least one digit, and what follows the digits. -/
def readDigits? (text : List Char) : Option (List Char × List Char) :=
  let digits := text.takeWhile Char.isDigit
  if digits.isEmpty then none else some (digits, text.dropWhile Char.isDigit)

/-- Digits without a leading zero, or a zero alone. -/
def readWhole? : List Char → Option (List Char × List Char)
  | '0' :: rest =>
    match rest with
    | d :: _ => if d.isDigit then none else some (['0'], rest)
    | [] => some (['0'], rest)
  | text => readDigits? text

/-- The fraction, if there is one. -/
def readFraction? : List Char → Option (List Char × List Char)
  | '.' :: rest => (readDigits? rest).map fun (digits, rest) => ('.' :: digits, rest)
  | text => some ([], text)

/-- The exponent, if there is one. -/
def readExponent? : List Char → Option (List Char × List Char)
  | e :: rest =>
    if e == 'e' || e == 'E' then
      match rest with
      | sign :: digits =>
        if sign == '+' || sign == '-' then
          (readDigits? digits).map fun (digits, rest) => (e :: sign :: digits, rest)
        else (readDigits? rest).map fun (digits, rest) => (e :: digits, rest)
      | [] => none
    else some ([], e :: rest)
  | [] => some ([], [])

/-- A number, as it is spelled. -/
def readNumber? (text : List Char) : Option (String × List Char) := do
  let (sign, text) := match text with
    | '-' :: rest => (['-'], rest)
    | _ => ([], text)
  let (whole, text) ← readWhole? text
  let (fraction, text) ← readFraction? text
  let (exponent, text) ← readExponent? text
  return (.ofList (sign ++ whole ++ fraction ++ exponent), text)

/-! ### Documents -/

mutual

/-- A document, after blanks. -/
def readValue? : Nat → List Char → Option (Json × List Char)
  | 0, _ => none
  | fuel + 1, text =>
    match skipSpace text with
    | [] => none
    | '"' :: rest => (readText? rest).map fun (text, rest) => (.string text, rest)
    | '[' :: rest =>
      match skipSpace rest with
      | ']' :: rest => some (.array [], rest)
      | rest => (readItems? fuel rest).map fun (items, rest) => (.array items, rest)
    | '\x7b' :: rest =>
      match skipSpace rest with
      | '\x7d' :: rest => some (.object [], rest)
      | rest => (readMembers? fuel rest).map fun (members, rest) => (.object members, rest)
    | 'n' :: rest => (after? ['u', 'l', 'l'] rest).map (.null, ·)
    | 't' :: rest => (after? ['r', 'u', 'e'] rest).map (.bool true, ·)
    | 'f' :: rest => (after? ['a', 'l', 's', 'e'] rest).map (.bool false, ·)
    | text => (readNumber? text).map fun (text, rest) => (.number text, rest)

/-- The items of an array that has at least one, and the closing bracket. -/
def readItems? : Nat → List Char → Option (List Json × List Char)
  | 0, _ => none
  | fuel + 1, text => do
    let (item, rest) ← readValue? fuel text
    match skipSpace rest with
    | ']' :: rest => return ([item], rest)
    | ',' :: rest =>
      let (items, rest) ← readItems? fuel rest
      return (item :: items, rest)
    | _ => none

/-- The members of an object that has at least one, and the closing brace. -/
def readMembers? : Nat → List Char → Option (List (Option String × Json) × List Char)
  | 0, _ => none
  | fuel + 1, text =>
    match skipSpace text with
    | '"' :: rest => do
      let (key, rest) ← readText? rest
      let ':' :: rest := skipSpace rest | none
      let (value, rest) ← readValue? fuel rest
      match skipSpace rest with
      | '\x7d' :: rest => return ([(key, value)], rest)
      | ',' :: rest =>
        let (members, rest) ← readMembers? fuel rest
        return ((key, value) :: members, rest)
      | _ => none
    | _ => none

end

/-- The document that a text holds. -/
def read? (text : String) : Option Json := do
  let chars := text.toList
  let (document, rest) ← readValue? (2 * chars.length + 1) chars
  if (skipSpace rest).isEmpty then some document else none

end PredicateSql.Json
