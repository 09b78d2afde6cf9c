import PredicateSql.Binary64.Notation
import PredicateSql.Lambda.Literal
import PredicateSql.Proofs.Binary64.Bits
import PredicateSql.Proofs.Binary64.Shortest

/-!
# Doubles that are written positionally

* `IsDecimal`: digits, and more digits after a point.
* `IsFraction`: the digits on the two sides of a point, and the number that they stand for.
* `exists_isFraction_positional`: what stands on the two sides of the point.
* `floatOfDigits_render`: a double that is written without an exponent or a sign reads back.
-/

namespace PredicateSql.Binary64

variable {c n : ℕ} {w : ℤ} {x : Float}

/-! ### Digits -/

/-- Digits, and more digits after a point. -/
inductive IsDecimal : List Char → Prop
  | whole {digits : List Char} (hne : digits ≠ []) (h : ∀ c ∈ digits, c.isDigit = true) :
    IsDecimal digits
  | point {digits fraction : List Char} (hne : digits ≠ []) (h : ∀ c ∈ digits, c.isDigit = true)
    (hne' : fraction ≠ []) (h' : ∀ c ∈ fraction, c.isDigit = true) :
    IsDecimal (digits ++ '.' :: fraction)

theorem digitsValue_eq (digits : List Char) :
    digitsValue digits = Nat.ofDigitChars 10 digits 0 := by
  rw [Nat.ofDigitChars_eq_foldl]
  rfl

/-- Zeros before digits do not count, and those after them are powers of ten. -/
theorem digitsValue_zeros (j k : ℕ) (digits : List Char) :
    digitsValue (List.replicate j '0' ++ digits ++ List.replicate k '0') =
      10 ^ k * digitsValue digits := by
  simp [digitsValue_eq, Nat.ofDigitChars_append]

/-- The digits of a number. -/
structure IsDigits (digits : List Char) (c : ℕ) : Prop where
  ne : digits ≠ []
  isDigit : ∀ d ∈ digits, d.isDigit = true
  value : digitsValue digits = c
  length : digits.length = c.repr.length

theorem isDigits_nat (n : ℕ) : IsDigits (toString n).toList n := by
  refine ⟨?_, fun d hd => ?_, ?_, String.length_toList⟩
  · rw [Nat.toString_eq_repr, Nat.toList_repr]
    exact Nat.toDigits_ne_nil
  · rw [Nat.toString_eq_repr, Nat.toList_repr] at hd
    exact Nat.isDigit_of_mem_toDigits (by decide) (by decide) hd
  · rw [digitsValue_eq, Nat.toString_eq_repr, Nat.toList_repr, Nat.ofDigitChars_ten_toDigits]

/-- A number has no more digits than bits. -/
theorem length_repr_le_log2 (n : ℕ) : n.repr.length ≤ n.log2 + 1 := by
  rw [Nat.length_repr_le_iff (Nat.succ_pos _)]
  exact Nat.lt_log2_self.trans_le (Nat.pow_le_pow_left (by decide) _)

theorem isDigit_of_mem_zeros {k : ℕ} {d : Char} (h : d ∈ List.replicate k '0') :
    d.isDigit = true := by
  obtain rfl := List.eq_of_mem_replicate h
  rfl

/-! ### Fractions -/

/-- The digits on the two sides of a point stand for a number, which is neither too large nor too
small to be told from infinity and zero. -/
structure IsFraction (whole fraction : List Char) (v : ℚ) : Prop where
  whole_ne : whole ≠ []
  whole_isDigit : ∀ d ∈ whole, d.isDigit = true
  fraction_ne : fraction ≠ []
  fraction_isDigit : ∀ d ∈ fraction, d.isDigit = true
  value : (digitsValue (whole ++ fraction) : ℚ) / 10 ^ fraction.length = v
  length : fraction.length ≤ (digitsValue (whole ++ fraction)).log2 + 2048
  low : -400 ≤ -(fraction.length : ℤ) + (digitsValue (whole ++ fraction)).repr.length
  high : -(fraction.length : ℤ) + (digitsValue (whole ++ fraction)).repr.length ≤ 400

variable {digits : List Char} {k : ℕ}

/-- The point stands before the digits, with zeros between them. -/
theorem IsDigits.before (h : IsDigits digits c) (hk : k ≤ 3) :
    IsFraction ['0'] (List.replicate k '0' ++ digits)
      (c * 10 ^ (-(k : ℤ) - c.repr.length)) := by
  have hlog := length_repr_le_log2 c
  have hread : digitsValue (['0'] ++ (List.replicate k '0' ++ digits)) = c := by
    have hzeros := digitsValue_zeros (k + 1) 0 digits
    rw [h.value] at hzeros
    simpa [List.replicate_succ] using hzeros
  have hfraction : (List.replicate k '0' ++ digits).length = k + c.repr.length := by
    rw [List.length_append, List.length_replicate, h.length]
  have hexponent : -(k : ℤ) - c.repr.length = -((k + c.repr.length : ℕ) : ℤ) := by omega
  refine ⟨by simp, by simp, by simp [h.ne], ?_, ?_, ?_, ?_, ?_⟩
  · simp only [List.forall_mem_append]
    exact ⟨fun _ => isDigit_of_mem_zeros, h.isDigit⟩
  · rw [hread, hfraction, hexponent, zpow_neg, zpow_natCast, div_eq_mul_inv]
  all_goals
    rw [hread, hfraction]
    omega

/-- The point stands behind the digits and some zeros. -/
theorem IsDigits.behind (h : IsDigits digits c) (hk : c.repr.length + k ≤ 16) :
    IsFraction (digits ++ List.replicate k '0') ['0'] (c * 10 ^ k) := by
  have hlt : c < 10 ^ c.repr.length := (Nat.length_repr_le_iff Nat.length_repr_pos).1 le_rfl
  have hread : digitsValue (digits ++ List.replicate k '0' ++ ['0']) = 10 ^ (k + 1) * c := by
    have hzeros := digitsValue_zeros 0 (k + 1) digits
    rw [h.value] at hzeros
    simpa [List.replicate_succ'] using hzeros
  have hlength : (10 ^ (k + 1) * c).repr.length ≤ 17 := by
    rw [Nat.length_repr_le_iff (by decide)]
    calc
      10 ^ (k + 1) * c < 10 ^ (k + 1) * 10 ^ c.repr.length :=
        Nat.mul_lt_mul_of_pos_left hlt (by positivity)
      _ = 10 ^ (k + 1 + c.repr.length) := (pow_add _ _ _).symm
      _ ≤ 10 ^ 17 := Nat.pow_le_pow_right (by decide) (by omega)
  refine ⟨by simp [h.ne], ?_, by simp, by simp, ?_, ?_, ?_, ?_⟩
  · simp only [List.forall_mem_append]
    exact ⟨h.isDigit, fun _ => isDigit_of_mem_zeros⟩
  · rw [hread]
    push_cast
    rw [List.length_singleton, pow_succ]
    ring
  all_goals
    rw [hread]
    simp only [List.length_singleton]
    omega

/-- The point stands between two digits. -/
theorem IsDigits.between (h : IsDigits digits c) (hk : 0 < k) (hk' : k < c.repr.length)
    (hk'' : k ≤ 16) :
    IsFraction (digits.take k) (digits.drop k) (c * 10 ^ ((k : ℤ) - c.repr.length)) := by
  have hlog := length_repr_le_log2 c
  have hread : digitsValue (digits.take k ++ digits.drop k) = c := by
    rw [List.take_append_drop, h.value]
  have hfraction : (digits.drop k).length = c.repr.length - k := by
    rw [List.length_drop, h.length]
  have hexponent : (k : ℤ) - c.repr.length = -((c.repr.length - k : ℕ) : ℤ) := by omega
  have hlength := h.length
  refine ⟨?_, fun d hd => h.isDigit d (List.mem_of_mem_take hd), ?_,
    fun d hd => h.isDigit d (List.mem_of_mem_drop hd), ?_, ?_, ?_, ?_⟩
  · rw [← List.length_pos_iff, List.length_take]
    omega
  · rw [← List.length_pos_iff, hfraction]
    omega
  · rw [hread, hfraction, hexponent, zpow_neg, zpow_natCast, div_eq_mul_inv]
  all_goals
    rw [hread, hfraction]
    omega

/-- A number that is written positionally, with its point after `w` digits. -/
theorem exists_isFraction_positional (h : IsDigits digits c) (hw : -3 ≤ w) (hw' : w ≤ 16) :
    ∃ whole fraction, Layout.positional digits w = whole ++ '.' :: fraction ∧
      IsFraction whole fraction (c * 10 ^ (w - c.repr.length)) := by
  have hlength := h.length
  unfold Layout.positional
  split
  · obtain ⟨k, rfl⟩ : ∃ k : ℕ, w = -k := ⟨(-w).toNat, by omega⟩
    rw [neg_neg, Int.toNat_natCast]
    exact ⟨_, _, rfl, h.before (by omega)⟩
  · obtain ⟨k, rfl⟩ : ∃ k : ℕ, w = k := ⟨w.toNat, by omega⟩
    rw [Int.toNat_natCast]
    dsimp only
    split
    · have hexponent : (k : ℤ) - c.repr.length = (k - digits.length : ℕ) := by omega
      rw [hexponent, zpow_natCast]
      exact ⟨_, ['0'], rfl, h.behind (by omega)⟩
    · exact ⟨_, _, rfl, h.between (by omega) (by omega) (by omega)⟩

theorem IsFraction.isDecimal {whole fraction : List Char} {v : ℚ}
    (h : IsFraction whole fraction v) : IsDecimal (whole ++ '.' :: fraction) :=
  .point h.whole_ne h.whole_isDigit h.fraction_ne h.fraction_isDigit

/-- What stands on the two sides of the point is read as the double that it rounds to. -/
theorem IsFraction.floatOfDigits_eq {whole fraction : List Char} {v : ℚ} {m : ℕ} {q : ℤ}
    (h : IsFraction whole fraction v) (hc : IsCanonical m q) (hv : RoundsTo v m q) :
    floatOfDigits (whole ++ '.' :: fraction) = .ofModel (.pack (.finite .positive m q hc.pos)) := by
  have hwhole : (whole ++ '.' :: fraction).takeWhile Char.isDigit = whole := by
    rw [List.takeWhile_append_of_pos h.whole_isDigit, List.takeWhile_cons_of_neg (by decide),
      List.append_nil]
  have hdrop : ((whole ++ '.' :: fraction).drop whole.length).drop 1 = fraction := by
    rw [List.drop_left, List.drop_one, List.tail_cons]
  have hpos : 0 < fraction.length := List.length_pos_iff.2 h.fraction_ne
  rw [← h.value] at hv
  have hn : 0 < digitsValue (whole ++ fraction) := by
    have hquotient := hv.pos hc.pos
    by_contra hzero
    rw [Nat.eq_zero_of_not_pos hzero, Nat.cast_zero, zero_div] at hquotient
    exact hquotient.false
  have hlow := h.low
  have hhigh := h.high
  have hnegative : decide (-(fraction.length : ℤ) < 0) = true := decide_eq_true (by omega)
  unfold floatOfDigits
  dsimp only
  rw [hwhole, hdrop]
  unfold ofDecimal
  dsimp only
  rw [Nat.toString_eq_repr, if_neg (by omega), if_neg (by omega), hnegative, Int.natAbs_neg,
    Int.natAbs_natCast]
  exact ofScientific_eq hn hpos h.length hc hv

/-- The double whose bits are all zero is the only zero without a sign. -/
theorem eq_zero_of_parts (h : parts x = .finite false 0 q) : x = 0.0 := by
  refine eq_ofModel_of_bits ?_
  obtain ⟨hbits, -, -⟩ | ⟨_, _, -, -, -, hm, -, -⟩ := ofBits_eq_finite (toNat_toBits_lt x) h
  · exact hbits.symm
  · omega

/-- The text of a decimal that is written without an exponent. -/
theorem decimal_eq_positional {d : Decimal}
    (h : ∀ b ∈ layout.decimal d, b.isDigit = true ∨ b = '.') :
    ∃ whole fraction, layout.decimal d = whole ++ '.' :: fraction ∧
      IsFraction whole fraction d.value := by
  have hdigits := isDigits_nat d.coefficient
  have hlength := hdigits.length
  unfold Layout.decimal at *
  dsimp only at *
  split
  · next hrange =>
    obtain ⟨hlow, hhigh⟩ : (-4 : ℤ) ≤ _ ∧ _ ≤ (15 : ℤ) := hrange
    have hexponent : d.exponent + (toString d.coefficient).toList.length - 1 + 1 -
        d.coefficient.repr.length = d.exponent := by omega
    have h := exists_isFraction_positional hdigits
      (w := d.exponent + (toString d.coefficient).toList.length - 1 + 1) (by omega) (by omega)
    rw [hexponent] at h
    exact h
  · next hrange =>
    rw [if_neg hrange] at h
    exact absurd (h 'e' (by simp [Layout.scientific])) (by decide)

/-- A double without a sign that is written without an exponent reads back. -/
theorem floatOfDigits_render (h : ∀ d ∈ (render x).toList, d.isDigit = true ∨ d = '.') :
    IsDecimal (render x).toList ∧ '.' ∈ (render x).toList ∧
      floatOfDigits (render x).toList = x := by
  unfold render Layout.render at *
  cases hparts : parts x with
  | nan =>
    rw [hparts] at h
    exact absurd (h 'N' (by decide)) (by decide)
  | infinite negative =>
    rw [hparts] at h
    cases negative <;> exact absurd (h 'i' (by decide)) (by decide)
  | finite negative m q =>
    rw [hparts] at h
    dsimp only at h ⊢
    rw [String.toList_ofList] at h ⊢
    cases negative with
    | true => exact absurd (h '-' (by simp)) (by decide)
    | false =>
      rw [if_neg Bool.false_ne_true] at h ⊢
      split
      · next hm =>
        subst hm
        rw [eq_zero_of_parts hparts]
        have hzero : ∀ d ∈ ['0'], d.isDigit = true := List.forall_mem_singleton.2 rfl
        exact ⟨.point (by decide) hzero (by decide) hzero, by decide, rfl⟩
      · next hm =>
        rw [if_neg hm] at h
        obtain ⟨hc, -⟩ := isCanonical_of_parts hparts (Nat.pos_of_ne_zero hm)
        obtain ⟨whole, fraction, htext, hfraction⟩ := decimal_eq_positional h
        rw [htext, hfraction.floatOfDigits_eq hc (roundsTo_shortest hc)]
        exact ⟨hfraction.isDecimal, by simp, (ofModel_of_parts hparts hc.pos).symm⟩

end PredicateSql.Binary64
