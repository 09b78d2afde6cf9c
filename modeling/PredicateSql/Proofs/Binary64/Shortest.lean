import PredicateSql.Binary64.Shortest
import PredicateSql.Proofs.Binary64.Rounding

/-!
# Shortest decimals read back

* `Decimal.value`: the number that a decimal stands for.
* `Interval.contains_iff`: the test of an interval compares numbers. `roundsTo_of_contains`: what
  lies in the interval of a double rounds to it.
* `Interval.exists_onGrid?`: on the grid of seventeen digits there is such a decimal.
* `roundsTo_shortest`: the shortest decimal of a double rounds to it.
-/

namespace PredicateSql.Binary64

variable {m : ℕ} {q e : ℤ} {c : ℕ}

/-! ### Numbers -/

/-- The number that a decimal stands for. -/
def Decimal.value (d : Decimal) : ℚ :=
  d.coefficient * 10 ^ d.exponent

theorem pow_toNat_div (b : ℚ) (hb : b ≠ 0) (e : ℤ) : b ^ e.toNat / b ^ (-e).toNat = b ^ e := by
  rw [← zpow_natCast, ← zpow_natCast, ← zpow_sub₀ hb]
  congr 1
  omega

namespace Interval

/-- The ends of an interval are compared with a decimal as numbers. -/
theorem contains_iff {i : Interval} (hunit : 0 < i.unit) : i.contains c e = true ↔
    if i.closed then (i.low / i.unit : ℚ) ≤ c * 10 ^ e ∧ (c * 10 ^ e : ℚ) ≤ i.high / i.unit
    else (i.low / i.unit : ℚ) < c * 10 ^ e ∧ (c * 10 ^ e : ℚ) < i.high / i.unit := by
  have hunit' : (0 : ℚ) < i.unit := Nat.cast_pos.2 hunit
  have hshift : (0 : ℚ) < 10 ^ (-e).toNat := by positivity
  have hvalue : (c * 10 ^ e : ℚ) * i.unit * 10 ^ (-e).toNat = (c * 10 ^ e.toNat * i.unit : ℕ) := by
    rw [← pow_toNat_div 10 (by norm_num) e]
    push_cast
    field_simp
  have hlow : ∀ n : ℕ, (n / i.unit : ℚ) ≤ c * 10 ^ e ↔
      n * 10 ^ (-e).toNat ≤ c * 10 ^ e.toNat * i.unit := by
    intro n
    rw [div_le_iff₀ hunit', ← mul_le_mul_iff_left₀ hshift, hvalue]
    exact_mod_cast Iff.rfl
  have hhigh : ∀ n : ℕ, (c * 10 ^ e : ℚ) ≤ n / i.unit ↔
      c * 10 ^ e.toNat * i.unit ≤ n * 10 ^ (-e).toNat := by
    intro n
    rw [le_div_iff₀ hunit', ← mul_le_mul_iff_left₀ hshift, hvalue]
    exact_mod_cast Iff.rfl
  simp only [contains, Nat.pow_eq]
  split
  · rw [hlow, hhigh, Bool.and_eq_true, decide_eq_true_eq, decide_eq_true_eq]
  · simp only [Bool.and_eq_true, decide_eq_true_eq, ← not_le, hlow, hhigh]

/-- What lies strictly between the ends is contained. -/
theorem contains_of_lt {i : Interval} (hunit : 0 < i.unit)
    (hlow : (i.low / i.unit : ℚ) < c * 10 ^ e) (hhigh : (c * 10 ^ e : ℚ) < i.high / i.unit) : i.contains c e = true := by
  rw [contains_iff hunit]
  split
  · exact ⟨hlow.le, hhigh.le⟩
  · exact ⟨hlow, hhigh⟩

theorem unit_pos (m : ℕ) (q : ℤ) : 0 < (ofParts m q).unit :=
  Nat.pow_pos two_pos

/-- How far below a double its interval goes, in steps between the doubles from it on. -/
def gapBelow (m : ℕ) (q : ℤ) : ℚ :=
  if m = 2 ^ 52 ∧ -1074 < q then 1 / 4 else 1 / 2

/-- The double that an interval is around, and its ends. -/
theorem ofParts_eq (hm : 0 < m) (q : ℤ) :
    ((ofParts m q).middle / (ofParts m q).unit : ℚ) = m * 2 ^ q ∧
      ((ofParts m q).high / (ofParts m q).unit : ℚ) = (m + 1 / 2) * 2 ^ q ∧
      ((ofParts m q).low / (ofParts m q).unit : ℚ) = (m - gapBelow m q) * 2 ^ q := by
  have hneg : 2 - q = -(q - 2) := by omega
  have hscale : ∀ n : ℚ, n * 2 ^ (q - 2).toNat / 2 ^ (2 - q).toNat = n / 4 * 2 ^ q := by
    intro n
    rw [mul_div_assoc, hneg, pow_toNat_div 2 two_ne_zero, zpow_sub₀ two_ne_zero]
    norm_num
    ring
  have hbelow : ∀ below : ℕ, below ≤ 4 → (((4 * m - below) * 2 ^ (q - 2).toNat : ℕ) : ℚ) /
      (2 ^ (2 - q).toNat : ℕ) = (m - below / 4) * 2 ^ q := by
    intro below hle
    have hsub : ((4 * m - below : ℕ) : ℚ) = 4 * m - below := by
      rw [Nat.cast_sub (by omega)]
      push_cast
      ring
    push_cast
    rw [hscale, hsub]
    ring
  refine ⟨?_, ?_, ?_⟩
  · simp only [ofParts, Nat.pow_eq]
    push_cast
    rw [hscale]
    ring
  · simp only [ofParts, Nat.pow_eq]
    push_cast
    rw [hscale]
    ring
  · by_cases h : m = 2 ^ 52 ∧ -1074 < q
    · simp only [ofParts, gapBelow, Nat.pow_eq, if_pos h]
      rw [hbelow 1 (by decide)]
      norm_num
    · simp only [ofParts, gapBelow, Nat.pow_eq, if_neg h]
      rw [hbelow 2 (by decide)]
      norm_num

end Interval

/-- What lies in the interval of a double rounds to it. -/
theorem roundsTo_of_contains (hm : 0 < m) (h : (Interval.ofParts m q).contains c e = true) :
    RoundsTo (c * 10 ^ e) m q := by
  obtain ⟨-, hhigh, hlow⟩ := Interval.ofParts_eq hm q
  have hq : (0 : ℚ) < 2 ^ q := by positivity
  have hgap : Interval.gapBelow m q ≤ 1 / 2 := by
    rw [Interval.gapBelow]
    split <;> norm_num
  rw [Interval.contains_iff (Interval.unit_pos m q), hhigh, hlow, ← le_div_iff₀ hq,
    ← div_le_iff₀ hq, ← lt_div_iff₀ hq, ← div_lt_iff₀ hq] at h
  have hclosed : (Interval.ofParts m q).closed = true ↔ m % 2 = 0 := by
    simp [Interval.ofParts]
  have hle : (m - Interval.gapBelow m q : ℚ) ≤ c * 10 ^ e / 2 ^ q ∧
      (c * 10 ^ e / 2 ^ q : ℚ) ≤ m + 1 / 2 := by
    split at h
    · exact h
    · exact ⟨h.1.le, h.2.le⟩
  refine ⟨⟨by linarith, hle.2, ?_⟩, fun hm hq => ?_⟩
  · by_cases heven : m % 2 = 0
    · exact .inl heven
    · rw [if_neg (hclosed.not.2 heven)] at h
      exact .inr ⟨by linarith, h.2⟩
  · rw [← le_div_iff₀ (by positivity)]
    have hgap := hle.1
    rwa [Interval.gapBelow, if_pos ⟨hm, hq⟩] at hgap

/-! ### Grids -/

namespace Interval

/-- What is found on a grid lies in the interval. -/
theorem contains_of_onGrid? {i : Interval} {d : Decimal} (h : i.onGrid? e = some d) :
    i.contains d.coefficient d.exponent = true := by
  unfold onGrid? at h
  extract_lets numerator denominator floor below above nearerBelow at h
  split_ifs at h with hbelow habove
  · obtain rfl := Option.some.inj h
    exact (Bool.and_eq_true _ _ |>.mp hbelow).1
  · obtain rfl := Option.some.inj h
    exact habove

/-- The point of a grid below a double, and how far it is from there to the double. -/
theorem floor_spec (hm : 0 < m) (q e : ℤ) :
    let numerator := (ofParts m q).middle * 10 ^ (-e).toNat
    let denominator := (ofParts m q).unit * 10 ^ e.toNat
    0 < denominator ∧
      ((numerator / denominator : ℕ) + (numerator % denominator : ℕ) / denominator : ℚ) * 10 ^ e =
        m * 2 ^ q := by
  intro numerator denominator
  have hpos : 0 < denominator := Nat.mul_pos (unit_pos m q) (by positivity)
  have hpos' : (0 : ℚ) < denominator := Nat.cast_pos.2 hpos
  have hunit : (0 : ℚ) < (ofParts m q).unit := Nat.cast_pos.2 (unit_pos m q)
  have hsplit : (denominator : ℚ) * (numerator / denominator : ℕ) +
      (numerator % denominator : ℕ) = numerator := by
    exact_mod_cast Nat.div_add_mod numerator denominator
  have hquotient : ((numerator / denominator : ℕ) +
      (numerator % denominator : ℕ) / denominator : ℚ) = numerator / denominator := by
    field_simp
    linarith
  refine ⟨hpos, ?_⟩
  rw [hquotient, ← (ofParts_eq hm q).1, ← pow_toNat_div 10 (by norm_num) e]
  show ((((ofParts m q).middle * 10 ^ (-e).toNat : ℕ) : ℚ) /
    ((ofParts m q).unit * 10 ^ e.toNat : ℕ)) * _ = _
  push_cast
  field_simp

/-- A decimal is found if the nearer one of the two points is in the interval. -/
theorem exists_onGrid?_of_contains {i : Interval} :
    let numerator := i.middle * 10 ^ (-e).toNat
    let denominator := i.unit * 10 ^ e.toNat
    (2 * (numerator % denominator) < denominator →
      i.contains (numerator / denominator) e = true) →
    (¬ 2 * (numerator % denominator) < denominator →
      i.contains (numerator / denominator + 1) e = true) → ∃ d, i.onGrid? e = some d := by
  intro numerator denominator hbelow habove
  unfold onGrid?
  simp only [Nat.pow_eq]
  by_cases hnear : 2 * (numerator % denominator) < denominator
  · exact ⟨_, if_pos (by rw [hbelow hnear, decide_eq_true hnear]; rfl)⟩
  · split
    · exact ⟨_, rfl⟩
    · exact ⟨_, if_pos (habove hnear)⟩

/-- On a grid that is fine enough, there is a decimal in the interval. -/
theorem exists_onGrid? (hm : 0 < m) (hfine : (10 : ℚ) ^ e < 2 * (gapBelow m q * 2 ^ q)) :
    ∃ d, (ofParts m q).onGrid? e = some d := by
  obtain ⟨hpos, hfloor⟩ := floor_spec hm q e
  obtain ⟨-, hhigh, hlow⟩ := ofParts_eq hm q
  have hten : (0 : ℚ) < 10 ^ e := by positivity
  have hgap : gapBelow m q * 2 ^ q ≤ 1 / 2 * 2 ^ q := by
    refine mul_le_mul_of_nonneg_right ?_ (by positivity)
    rw [gapBelow]
    split <;> norm_num
  rw [sub_mul] at hlow
  rw [add_mul] at hhigh
  refine exists_onGrid?_of_contains (fun hnear => ?_) fun hfar => ?_
  all_goals
    generalize (ofParts m q).middle * 10 ^ (-e).toNat = numerator at *
    generalize (ofParts m q).unit * 10 ^ e.toNat = denominator at *
    have hpos' : (0 : ℚ) < denominator := Nat.cast_pos.2 hpos
    have hrest0 : (0 : ℚ) ≤ (numerator % denominator : ℕ) / denominator := by positivity
    have hrest1 : ((numerator % denominator : ℕ) / denominator : ℚ) < 1 := by
      rw [div_lt_one hpos']
      exact_mod_cast Nat.mod_lt _ hpos
    rw [add_mul] at hfloor
    have hstep0 := mul_nonneg hrest0 hten.le
    have hstep1 := mul_lt_mul_of_pos_right hrest1 hten
  · have hhalf : ((numerator % denominator : ℕ) / denominator : ℚ) < 1 / 2 := by
      have hnear : (2 * (numerator % denominator : ℕ) : ℚ) < denominator := by exact_mod_cast hnear
      rw [div_lt_iff₀ hpos']
      linarith
    have hstep := mul_lt_mul_of_pos_right hhalf hten
    refine contains_of_lt (unit_pos m q) ?_ ?_
    · rw [hlow]
      linarith
    · rw [hhigh]
      linarith
  · have hhalf : (1 / 2 : ℚ) ≤ (numerator % denominator : ℕ) / denominator := by
      have hfar : (denominator : ℚ) ≤ 2 * (numerator % denominator : ℕ) := by
        exact_mod_cast not_lt.1 hfar
      rw [le_div_iff₀ hpos']
      linarith
    have hstep := mul_le_mul_of_nonneg_right hhalf hten.le
    refine contains_of_lt (unit_pos m q) ?_ ?_
    · rw [hlow]
      push_cast
      linarith
    · rw [hhigh]
      push_cast
      linarith

theorem two_pow_le_ten_pow : (2 : ℚ) ^ 1074 ≤ 10 ^ 400 :=
  calc
    (2 : ℚ) ^ 1074 = 8 ^ 358 := by
      rw [show (8 : ℚ) = 2 ^ 3 by norm_num, ← pow_mul]
    _ ≤ 10 ^ 358 := pow_le_pow_left₀ (by norm_num) (by norm_num) _
    _ ≤ 10 ^ 400 := pow_le_pow_right₀ (by norm_num) (by norm_num)

/-- A double is at least as large as the power of ten of its leading digit. -/
theorem leadingExponent_spec (hc : IsCanonical m q) :
    (10 : ℚ) ^ (ofParts m q).leadingExponent ≤ m * 2 ^ q := by
  unfold leadingExponent
  extract_lets margin
  have hmargin : (2 : ℚ) ^ 1074 ≤ 10 ^ margin := two_pow_le_ten_pow
  clear_value margin
  have hmiddle := (ofParts_eq hc.pos q).1
  have hunit := unit_pos m q
  have hunit' : (0 : ℚ) < (ofParts m q).unit := Nat.cast_pos.2 hunit
  rw [Nat.toString_eq_repr, Nat.pow_eq]
  generalize hn : (ofParts m q).middle * 10 ^ margin / (ofParts m q).unit = n
  have hle : (n : ℚ) ≤ m * 2 ^ q * 10 ^ margin := by
    rw [← hmiddle, div_mul_eq_mul_div, le_div_iff₀ hunit', ← hn]
    exact_mod_cast Nat.div_mul_le_self _ _
  have hpos : 0 < n := by
    rw [← hn, Nat.div_pos_iff]
    refine ⟨hunit, ?_⟩
    have hm : (1 : ℚ) ≤ m := by exact_mod_cast hc.pos
    have hq : (2 : ℚ) ^ (-1074 : ℤ) ≤ 2 ^ q := zpow_le_zpow_right₀ one_le_two hc.le
    have hone : (1 : ℚ) ≤ m * 2 ^ q * 10 ^ margin :=
      calc
        (1 : ℚ) = 1 * 2 ^ (-1074 : ℤ) * 2 ^ 1074 := by
          rw [one_mul, ← zpow_natCast, ← zpow_add₀ two_ne_zero]
          rfl
        _ ≤ m * 2 ^ q * 10 ^ margin :=
          mul_le_mul (mul_le_mul hm hq (by positivity) (by positivity)) hmargin (by positivity)
            (by positivity)
    rw [← hmiddle, div_mul_eq_mul_div, one_le_div hunit'] at hone
    exact_mod_cast hone
  have hlength : 10 ^ (n.repr.length - 1) ≤ n := by
    by_cases hone : n.repr.length - 1 = 0
    · rw [hone]
      exact hpos
    · by_contra hlt
      have := (Nat.length_repr_le_iff (Nat.pos_of_ne_zero hone)).2 (not_le.1 hlt)
      omega
  have hexponent : (n.repr.length : ℤ) - 1 - margin = (n.repr.length - 1 : ℕ) - margin := by
    have := Nat.length_repr_pos (n := n)
    omega
  rw [hexponent, zpow_sub₀ (by norm_num), zpow_natCast, zpow_natCast, div_le_iff₀ (by positivity)]
  refine le_trans ?_ hle
  exact_mod_cast hlength

end Interval

theorem Decimal.value_go (fuel : ℕ) (d : Decimal) : (trim.go fuel d).value = d.value := by
  induction fuel generalizing d with
  | zero => rfl
  | succ fuel ih =>
    rw [trim.go]
    split
    · next h =>
      rw [ih]
      obtain ⟨n, hn⟩ := Nat.dvd_of_mod_eq_zero h.2
      rw [value, value, hn, Nat.mul_div_cancel_left n (by decide), zpow_add_one₀ (by norm_num)]
      push_cast
      ring
    · rfl

/-- Trailing zeros do not change a decimal. -/
theorem Decimal.value_trim (d : Decimal) : d.trim.value = d.value :=
  value_go _ d

/-- The shortest decimal of a double rounds to it. -/
theorem roundsTo_shortest (hc : IsCanonical m q) : RoundsTo (shortest m q).value m q := by
  set i := Interval.ofParts m q with hi
  have hfine : (10 : ℚ) ^ (i.leadingExponent - (16 : ℕ)) < 2 * (Interval.gapBelow m q * 2 ^ q) := by
    have hq : (0 : ℚ) < 2 ^ q := by positivity
    have hlt : (m : ℚ) < 2 * Interval.gapBelow m q * 10 ^ 16 := by
      rw [Interval.gapBelow]
      split
      · next h =>
        rw [h.1]
        norm_num
      · have hm : (m : ℚ) < 2 ^ 53 := by exact_mod_cast hc.lt
        norm_num at hm ⊢
        linarith
    have hlead := Interval.leadingExponent_spec hc
    rw [zpow_sub₀ (by norm_num), zpow_natCast, div_lt_iff₀ (by positivity)]
    have := mul_lt_mul_of_pos_right hlt hq
    linarith
  obtain ⟨d, hd⟩ := Interval.exists_onGrid? hc.pos hfine
  have hfound : ∃ d, (List.range 17).findSome? (fun n : ℕ => i.onGrid? (i.leadingExponent - n)) =
      some d := by
    rw [← Option.ne_none_iff_exists']
    intro hnone
    have hnone := List.findSome?_eq_none_iff.1 hnone 16 (by decide)
    rw [hd] at hnone
    cases hnone
  obtain ⟨d, hd⟩ := hfound
  obtain ⟨n, -, hn⟩ := List.exists_of_findSome?_eq_some hd
  have hvalue : (shortest m q).value = d.value := by
    rw [shortest, hd, Option.getD_some, Decimal.value_trim]
  rw [hvalue]
  exact roundsTo_of_contains hc.pos (Interval.contains_of_onGrid? hn)

end PredicateSql.Binary64
