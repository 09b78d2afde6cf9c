/-!
# The fewest digits that read back

`shortest m q` is the decimal with the fewest digits that rounds back to the double `m · 2 ^ q`.
A decimal rounds to the double exactly if it lies between the midpoints to the two neighbouring
doubles, the midpoints themselves included when `m` is even. If a grid of decimals has a point in
that interval, then one of the two grid points around the double lies in it as well, so it is
enough to test those two on the grids of 1, 2, …, 17 digits; seventeen always suffice.

* `Interval.ofParts`: the double and its two midpoints, as multiples of one unit.
* `Interval.onGrid?`: the point of one decimal grid that reads back, the nearer one of two, the
  larger one on a tie.
* `shortest`: the first grid that has one.
-/

namespace PredicateSql.Binary64

/-- The decimal number `coefficient · 10 ^ exponent`. -/
structure Decimal where
  coefficient : Nat
  exponent : Int
  deriving Repr, DecidableEq, Inhabited

/-- The numbers that round to one double: `low`, `middle` and `high` over `unit`, the double
being `middle / unit`. -/
structure Interval where
  low : Nat
  middle : Nat
  high : Nat
  unit : Nat
  /-- The two ends round to the double as well. -/
  closed : Bool
  deriving Repr, DecidableEq, Inhabited

namespace Interval

/-- The interval around `m · 2 ^ q`. Below a power of two the doubles lie twice as dense, except
at the bottom of the range. -/
def ofParts (m : Nat) (q : Int) : Interval :=
  let below := if m = Nat.pow 2 52 ∧ -1074 < q then 1 else 2
  let scale := Nat.pow 2 (q - 2).toNat
  { low := (4 * m - below) * scale
    middle := 4 * m * scale
    high := (4 * m + 2) * scale
    unit := Nat.pow 2 (2 - q).toNat
    closed := m % 2 == 0 }

/-- Whether `c · 10 ^ e` lies in the interval. -/
def contains (i : Interval) (c : Nat) (e : Int) : Bool :=
  let point := c * Nat.pow 10 e.toNat * i.unit
  let shift := Nat.pow 10 (-e).toNat
  if i.closed then i.low * shift ≤ point && point ≤ i.high * shift
  else i.low * shift < point && point < i.high * shift

/-- The exponent of the leading decimal digit of the double. -/
def leadingExponent (i : Interval) : Int :=
  let margin : Nat := 400
  ((toString (i.middle * Nat.pow 10 margin / i.unit)).length : Int) - 1 - margin

/-- The multiple of `10 ^ e` that reads back and is nearest to the double. -/
def onGrid? (i : Interval) (e : Int) : Option Decimal :=
  let numerator := i.middle * Nat.pow 10 (-e).toNat
  let denominator := i.unit * Nat.pow 10 e.toNat
  let floor := numerator / denominator
  let below := i.contains floor e
  let above := i.contains (floor + 1) e
  let nearerBelow := 2 * (numerator % denominator) < denominator
  if below && (nearerBelow || !above) then some ⟨floor, e⟩
  else if above then some ⟨floor + 1, e⟩
  else none

end Interval

/-- A decimal without trailing zeros, with the same value. -/
def Decimal.trim (d : Decimal) : Decimal :=
  go d.coefficient d
where
  go : Nat → Decimal → Decimal
    | 0, d => d
    | fuel + 1, d =>
      if d.coefficient ≠ 0 ∧ d.coefficient % 10 = 0 then
        go fuel ⟨d.coefficient / 10, d.exponent + 1⟩
      else d

/-- The fewest digits that read back as `m · 2 ^ q`, for a nonzero significand `m`. -/
def shortest (m : Nat) (q : Int) : Decimal :=
  let i := Interval.ofParts m q
  let lead := i.leadingExponent
  (((List.range 17).findSome? fun n : Nat => i.onGrid? (lead - n)).getD ⟨i.middle, 0⟩).trim

end PredicateSql.Binary64
