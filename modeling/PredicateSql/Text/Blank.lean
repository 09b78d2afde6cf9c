/-!
# Blanks

* `isBlank`: the white space of Unicode.
* `trim`: a text without the blanks at its two ends.
-/

namespace PredicateSql.Text

/-- First and last of each run of white space characters. -/
def blankRanges : List (Nat × Nat) :=
  [(0x09, 0x0D), (0x20, 0x20), (0x85, 0x85), (0xA0, 0xA0), (0x1680, 0x1680), (0x2000, 0x200A),
   (0x2028, 0x2029), (0x202F, 0x202F), (0x205F, 0x205F), (0x3000, 0x3000)]

/-- White space, in any script. -/
def isBlank (c : Char) : Bool :=
  blankRanges.any fun (first, last) => first ≤ c.toNat && c.toNat ≤ last

/-- A text without the characters at its end that satisfy `p`. -/
def dropEndWhile (p : Char → Bool) (text : List Char) : List Char :=
  (text.reverse.dropWhile p).reverse

/-- A text without the blanks at its two ends. -/
def trim (text : List Char) : List Char :=
  dropEndWhile isBlank (text.dropWhile isBlank)

/-- To drop characters makes no text longer. -/
theorem length_dropWhile_le (p : Char → Bool) (text : List Char) :
    (text.dropWhile p).length ≤ text.length :=
  (List.dropWhile_sublist p).length_le

/-- To trim makes no text longer. -/
theorem length_trim_le (text : List Char) : (trim text).length ≤ text.length := by
  simp only [trim, dropEndWhile, List.length_reverse]
  exact Nat.le_trans (length_dropWhile_le _ _)
    (by rw [List.length_reverse]; exact length_dropWhile_le _ _)

end PredicateSql.Text
