import PredicateSql.Binary64.Parts
import PredicateSql.Binary64.Shortest

/-!
# Doubles as text

* `Layout`: which decimal exponents are written positionally, and the texts of the special values.
* `Layout.render`: a double in the fewest digits that read back, laid out as the record says.
* `render`: the layout that this library writes everywhere, in messages and in statements alike.
-/

namespace PredicateSql.Binary64

/-- How a decimal is laid out. -/
structure Layout where
  /-- The smallest and the largest exponent of a leading digit that are written positionally. -/
  positionalFrom : Int
  positionalTo : Int
  nan : String
  infinity : String
  deriving Repr

namespace Layout

/-- The digits `digits` with the point after the first `whole` of them; zeros fill the places that
`digits` does not reach, and at least one digit stands on either side of the point. -/
def positional (digits : List Char) (whole : Int) : List Char :=
  if whole ≤ 0 then
    '0' :: '.' :: (List.replicate (-whole).toNat '0' ++ digits)
  else
    let n := whole.toNat
    if digits.length ≤ n then
      digits ++ List.replicate (n - digits.length) '0' ++ ['.', '0']
    else digits.take n ++ '.' :: digits.drop n

/-- One digit, the others after a point if there are any, and the exponent without a plus sign. -/
def scientific (digits : List Char) (lead : Int) : List Char :=
  let mantissa :=
    match digits with
    | d :: rest@(_ :: _) => d :: '.' :: rest
    | few => few
  mantissa ++ 'e' :: (toString lead).toList

/-- The text of a positive decimal. -/
def decimal (layout : Layout) (d : Decimal) : List Char :=
  let digits := (toString d.coefficient).toList
  let lead := d.exponent + digits.length - 1
  if layout.positionalFrom ≤ lead ∧ lead ≤ layout.positionalTo then positional digits (lead + 1)
  else scientific digits lead

/-- The text of a double. A minus sign is kept on zero, and dropped on `NaN`. -/
def render (layout : Layout) (x : Float) : String :=
  let signed (negative : Bool) (text : List Char) : String :=
    .ofList (if negative then '-' :: text else text)
  match parts x with
  | .nan => layout.nan
  | .infinite negative => signed negative layout.infinity.toList
  | .finite negative m q =>
    signed negative (if m = 0 then positional ['0'] 1 else layout.decimal (shortest m q))

end Layout

/-- Positional from `10 ^ -4` up to, but not including, `10 ^ 16`. -/
def layout : Layout := ⟨-4, 15, "NaN", "inf"⟩

/-- A double in the fewest digits that read back: `3.0`, `-0.0`, `0.1`, `1e16`, `1.5e-9`. -/
def render (x : Float) : String :=
  layout.render x

end PredicateSql.Binary64
