/-!
# UTF-8

* `encode`: the bytes of a text.
* `decode`: the text of some bytes. A sequence that is cut short, or a byte that starts none, is
  read as the replacement character; a byte that breaks a sequence off is read again as the start
  of the next one.
* `decode?`: the text of some bytes, if all of them are well-formed.
-/

namespace PredicateSql.Text.Utf8

/-- The bytes of a text. -/
def encode (text : String) : List UInt8 :=
  text.toByteArray.data.toList

/-- The character that stands for bytes that are no text. -/
def replacement : Char := '\uFFFD'

/-- A sequence that has begun: the value of its bits so far, the number of bytes that it still
needs, and the bounds of the next one. -/
structure Pending where
  value : Nat
  needed : Nat
  low : UInt8 := 0x80
  high : UInt8 := 0xBF
  deriving Repr, DecidableEq

/-- A byte where no sequence has begun: the characters that it completes, and the sequence that it
begins. The bounds keep out spellings that are too long, surrogates, and numbers past the last
code point. -/
def start (b : UInt8) : List Char × Option Pending :=
  let n := b.toNat
  if n < 0x80 then ([.ofNat n], none)
  else if n < 0xC2 then ([replacement], none)
  else if n < 0xE0 then ([], some { value := n - 0xC0, needed := 1 })
  else if n = 0xE0 then ([], some { value := 0, needed := 2, low := 0xA0 })
  else if n = 0xED then ([], some { value := 0x0D, needed := 2, high := 0x9F })
  else if n < 0xF0 then ([], some { value := n - 0xE0, needed := 2 })
  else if n = 0xF0 then ([], some { value := 0, needed := 3, low := 0x90 })
  else if n = 0xF4 then ([], some { value := 4, needed := 3, high := 0x8F })
  else if n < 0xF4 then ([], some { value := n - 0xF0, needed := 3 })
  else ([replacement], none)

/-- The next byte of a text. -/
def step (state : Option Pending) (b : UInt8) : List Char × Option Pending :=
  match state with
  | none => start b
  | some p =>
    if p.low ≤ b ∧ b ≤ p.high then
      let value := 64 * p.value + (b.toNat - 0x80)
      if p.needed ≤ 1 then ([.ofNat value], none) else ([], some { value, needed := p.needed - 1 })
    else
      let (chars, next) := start b
      (replacement :: chars, next)

/-- The text of some bytes, in the middle of a sequence. -/
def decodeFrom (state : Option Pending) : List UInt8 → List Char
  | [] => if state.isSome then [replacement] else []
  | b :: rest =>
    let (chars, next) := step state b
    chars ++ decodeFrom next rest

/-- The text of some bytes. -/
def decode (bytes : List UInt8) : String :=
  .ofList (decodeFrom none bytes)

/-- The text of some bytes, if they are the bytes of a text. -/
def decode? (bytes : List UInt8) : Option String :=
  let text := decode bytes
  if encode text = bytes then some text else none

end PredicateSql.Text.Utf8
