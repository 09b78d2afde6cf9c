import PredicateSql.Binary64.Parts

/-!
# The remainder of two doubles

`remainder x y` is `x - n · y` for the whole number `n` that is `x / y` rounded toward zero. The
result needs no more bits than `x` or `y` has, so it is a double and nothing is rounded: over the
smaller of the two exponents it is the remainder of two whole numbers. It takes the sign of `x`.
There is no remainder of an infinity, nor by zero, and the remainder by an infinity is `x`.
-/

namespace PredicateSql.Binary64

/-- The remainder of `m₁ · 2 ^ q₁` by `m₂ · 2 ^ q₂`, as a significand for the smaller exponent. -/
def remainderSignificand (m₁ : Nat) (q₁ : Int) (m₂ : Nat) (q₂ : Int) : Nat :=
  let q := min q₁ q₂
  (m₁ * Nat.pow 2 (q₁ - q).toNat) % (m₂ * Nat.pow 2 (q₂ - q).toNat)

/-- The remainder of a division that is rounded toward zero. -/
def remainder (x y : Float) : Float :=
  match parts x, parts y with
  | .finite negative m₁ q₁, .finite _ m₂ q₂ =>
    if m₂ = 0 then 0.0 / 0.0
    else
      let size := Float.scaleB (.ofNat (remainderSignificand m₁ q₁ m₂ q₂)) (min q₁ q₂)
      if negative then -size else size
  | .finite .., .infinite _ => x
  | _, _ => 0.0 / 0.0

end PredicateSql.Binary64
