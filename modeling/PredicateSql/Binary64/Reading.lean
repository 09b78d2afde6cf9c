/-!
# Doubles from text

`read?` accepts an optional sign followed by `inf`, `infinity` or `nan` in any case, or by digits
with at most one point and an optional exponent; at least one digit must stand before the
exponent, on either side of the point. The number is rounded to the nearest double.
-/

namespace PredicateSql.Binary64

/-- The value of a string of digits. -/
def digitsValue (digits : List Char) : Nat :=
  digits.foldl (fun n c => 10 * n + (c.toNat - '0'.toNat)) 0

/-- The double nearest to `coefficient · 10 ^ exponent`. Past the first and the last double the
answer is zero or infinity whatever the digits are, so no larger power of ten is ever formed. -/
def ofDecimal (coefficient : Nat) (exponent : Int) : Float :=
  let lead := exponent + (toString coefficient).length
  if coefficient = 0 ∨ lead < -400 then 0.0
  else if 400 < lead then 1.0 / 0.0
  else .ofScientific coefficient (exponent < 0) exponent.natAbs

/-- A sign, if there is one: whether it is a minus sign, and what follows. -/
def splitSign : List Char → Bool × List Char
  | '-' :: rest => (true, rest)
  | '+' :: rest => (false, rest)
  | text => (false, text)

/-- The exponent part of a number, all of the rest of the text. -/
def readExponent? : List Char → Option Int
  | [] => some 0
  | e :: rest =>
    if e == 'e' || e == 'E' then
      let (negative, digits) := splitSign rest
      if digits.isEmpty || !digits.all Char.isDigit then none
      else
        let size : Int := digitsValue digits
        some (if negative then -size else size)
    else none

/-- A number without a sign. -/
def readMagnitude? (text : List Char) : Option Float :=
  let whole := text.takeWhile Char.isDigit
  let rest := text.dropWhile Char.isDigit
  let (fraction, tail) :=
    match rest with
    | '.' :: more => (more.takeWhile Char.isDigit, more.dropWhile Char.isDigit)
    | _ => ([], rest)
  if whole.isEmpty && fraction.isEmpty then none
  else
    (readExponent? tail).map fun e =>
      ofDecimal (digitsValue (whole ++ fraction)) (e - fraction.length)

/-- The double that a text stands for. -/
def read? (text : String) : Option Float :=
  let (negative, rest) := splitSign text.toList
  let word := String.ofList (rest.map Char.toLower)
  let magnitude :=
    if word = "inf" ∨ word = "infinity" then some (1.0 / 0.0)
    else if word = "nan" then some (0.0 / 0.0)
    else readMagnitude? rest
  magnitude.map fun x => if negative then -x else x

end PredicateSql.Binary64
