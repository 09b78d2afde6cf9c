/-!
# The parts of a double

* `parts x`: sign, significand and exponent of a finite double, or which of the special values
  it is. Every finite double is `± significand · 2 ^ exponent` with `significand < 2 ^ 53` and
  `-1074 ≤ exponent`, so all exact questions about it are questions about two whole numbers.
* `isFinite x`: whether a double is a number at all.
-/

namespace PredicateSql.Binary64

/-- What the bits of a double stand for. -/
inductive Parts where
  | nan
  | infinite (negative : Bool)
  | finite (negative : Bool) (significand : Nat) (exponent : Int)
  deriving Repr, DecidableEq, Inhabited

/-- Sign bit, eleven exponent bits and fifty-two fraction bits, most significant first. The
exponent field is biased by 1075 against a whole significand; its zero marks subnormals, its
largest value the special values. -/
def Parts.ofBits (bits : Nat) : Parts :=
  let negative := bits / Nat.pow 2 63 % 2 == 1
  let field : Nat := bits / Nat.pow 2 52 % Nat.pow 2 11
  let fraction : Nat := bits % Nat.pow 2 52
  if field = Nat.pow 2 11 - 1 then
    if fraction = 0 then .infinite negative else .nan
  else if field = 0 then .finite negative fraction (-1074)
  else .finite negative (Nat.pow 2 52 + fraction) ((field : Int) - 1075)

/-- The parts of a double. -/
def parts (x : Float) : Parts :=
  .ofBits x.toBits.toNat

/-- Neither an infinity nor `NaN`. -/
def isFinite (x : Float) : Bool :=
  match parts x with
  | .finite .. => true
  | _ => false

end PredicateSql.Binary64
