import PredicateSql.Binary64.Notation
import PredicateSql.Calendar.DateTime

/-!
# The characters of numbers and dates

* `Text.isNumeral`: the characters that numbers, dates and times are written with.
* `Text.numerals_nat`, `Text.numerals_int`, `Date.numerals_render`, `DateTime.numerals_render`: they
  are written with nothing else.
* `Binary64.render_cases`: so are doubles, but for the two words that stand for no number.
-/

namespace PredicateSql

namespace Text

/-- A character of numbers, dates and times. -/
def isNumeral (c : Char) : Bool :=
  c.isDigit || ['-', '+', '.', ':', ' ', 'e'].contains c

/-- A text with no other characters. -/
def Numerals (text : List Char) : Prop :=
  ∀ c ∈ text, isNumeral c = true

variable {x y : List Char}

theorem Numerals.append (hx : Numerals x) (hy : Numerals y) : Numerals (x ++ y) :=
  List.forall_mem_append.2 ⟨hx, hy⟩

theorem Numerals.cons {c : Char} (hc : isNumeral c = true) (hx : Numerals x) : Numerals (c :: x) :=
  List.forall_mem_cons.2 ⟨hc, hx⟩

theorem Numerals.word (text : String) (h : text.toList.all isNumeral = true) :
    Numerals text.toList :=
  List.all_eq_true.1 h

/-- The parts of a text that is put together from several ones. -/
theorem numerals_append {a b : String} :
    Numerals (a ++ b).toList ↔ Numerals a.toList ∧ Numerals b.toList := by
  rw [String.toList_append]
  exact List.forall_mem_append

/-! ### Whole numbers -/

theorem isNumeral_of_isDigit {c : Char} (h : c.isDigit = true) : isNumeral c = true := by
  rw [isNumeral, h, Bool.true_or]

theorem numerals_nat (n : Nat) : Numerals (toString n).toList := by
  intro c hc
  rw [Nat.toString_eq_repr, Nat.toList_repr] at hc
  exact isNumeral_of_isDigit (Nat.isDigit_of_mem_toDigits (by decide) (by decide) hc)

theorem toList_int (i : Int) :
    (toString i).toList =
      if i < 0 then '-' :: (toString i.natAbs).toList else (toString i.natAbs).toList := by
  cases i with
  | ofNat n => rfl
  | negSucc n =>
    rw [if_pos (Int.negSucc_lt_zero n)]
    exact String.toList_append

theorem numerals_int (i : Int) : Numerals (toString i).toList := by
  rw [toList_int]
  split
  · exact .cons rfl (numerals_nat _)
  · exact numerals_nat _

theorem numerals_zeros (n : Nat) : Numerals (List.replicate n '0') := by
  intro c hc
  obtain rfl := List.eq_of_mem_replicate hc
  rfl

end Text

open Text (Numerals numerals_nat numerals_int numerals_zeros numerals_append)

/-! ### Dates and times -/

namespace Date

theorem numerals_padded (width n : Nat) : Numerals (padded width n).toList := by
  unfold padded
  rw [String.toList_append, String.toList_ofList]
  exact (numerals_zeros _).append (numerals_nat n)

theorem numerals_renderYear (year : Int) : Numerals (renderYear year).toList := by
  unfold renderYear
  split
  · exact numerals_padded _ _
  · have hsign : Numerals (if year < 0 then "-" else "+").toList := by
      split <;> exact .word _ rfl
    exact numerals_append.2 ⟨hsign, numerals_padded _ _⟩

theorem numerals_render (d : Date) : Numerals d.render.toList := by
  have hdash : Numerals "-".toList := .word _ rfl
  unfold render
  simp only [numerals_append]
  exact ⟨⟨⟨⟨numerals_renderYear _, hdash⟩, numerals_padded _ _⟩, hdash⟩, numerals_padded _ _⟩

end Date

namespace DateTime

theorem numerals_renderFraction (nanosecond : Nat) :
    Numerals (renderFraction nanosecond).toList := by
  have hpoint : ∀ width n, Numerals ("." ++ Date.padded width n).toList := fun width n =>
    numerals_append.2 ⟨.word _ rfl, Date.numerals_padded width n⟩
  unfold renderFraction
  extract_lets n
  split
  · exact .word "" rfl
  · split
    · exact hpoint _ _
    · split
      · exact hpoint _ _
      · exact hpoint _ _

theorem numerals_render (t : DateTime) : Numerals t.render.toList := by
  have hcolon : Numerals ":".toList := .word _ rfl
  have hblank : Numerals " ".toList := .word _ rfl
  have htwo : ∀ n, Numerals (Date.padded 2 n).toList := Date.numerals_padded 2
  unfold render
  simp only [numerals_append]
  exact ⟨⟨⟨⟨⟨⟨⟨t.date.numerals_render, hblank⟩, htwo _⟩, hcolon⟩, htwo _⟩, hcolon⟩, htwo _⟩,
    numerals_renderFraction _⟩

end DateTime

/-! ### Doubles -/

namespace Binary64

variable {digits : List Char}

theorem numerals_positional (h : Numerals digits) (whole : Int) :
    Numerals (Layout.positional digits whole) := by
  unfold Layout.positional
  -- The point stands before the digits, after them, or between them.
  split
  · exact .cons rfl (.cons rfl ((numerals_zeros _).append h))
  · extract_lets n
    split
    · exact (h.append (numerals_zeros _)).append (.word ".0" rfl)
    · have htake : Numerals (digits.take n) := fun c hc => h c (List.mem_of_mem_take hc)
      have hdrop : Numerals (digits.drop n) := fun c hc => h c (List.mem_of_mem_drop hc)
      exact htake.append (.cons rfl hdrop)

theorem numerals_scientific (h : Numerals digits) (lead : Int) :
    Numerals (Layout.scientific digits lead) := by
  unfold Layout.scientific
  refine Numerals.append ?_ (.cons rfl (numerals_int lead))
  split
  · obtain ⟨hdigit, hrest⟩ := List.forall_mem_cons.1 h
    exact .cons hdigit (.cons rfl hrest)
  · exact h

theorem numerals_decimal (layout : Layout) (d : Decimal) : Numerals (layout.decimal d) := by
  unfold Layout.decimal
  extract_lets digits lead
  split
  · exact numerals_positional (numerals_nat _) _
  · exact numerals_scientific (numerals_nat _) _

/-- A double is written as one of two words, or like a number. -/
theorem render_cases (x : Float) :
    (render x).toList = "NaN".toList ∨ (render x).toList = "inf".toList ∨
      (render x).toList = "-inf".toList ∨ Numerals (render x).toList := by
  unfold render Layout.render
  cases parts x with
  | nan => exact .inl rfl
  | infinite negative =>
    cases negative with
    | false => exact .inr (.inl String.toList_ofList)
    | true => exact .inr (.inr (.inl String.toList_ofList))
  | finite negative m q =>
    refine .inr (.inr (.inr ?_))
    have hnumber : Numerals (if m = 0 then Layout.positional ['0'] 1
        else layout.decimal (shortest m q)) := by
      split
      · exact numerals_positional (.word "0" rfl) 1
      · exact numerals_decimal _ _
    dsimp only
    rw [String.toList_ofList]
    cases negative with
    | false => exact hnumber
    | true => exact .cons rfl hnumber

end Binary64

end PredicateSql
