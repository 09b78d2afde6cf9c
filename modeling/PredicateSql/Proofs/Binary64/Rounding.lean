import Mathlib.Algebra.Order.Field.Power
import Mathlib.Data.Int.Log
import Mathlib.Data.Rat.Floor
import Mathlib.Tactic.FieldSimp
import Mathlib.Tactic.Linarith
import Mathlib.Tactic.Positivity
import Mathlib.Tactic.Ring

/-!
# Rounding to doubles

A quotient is rounded to the double `m · 2 ^ q` if it lies between the midpoints to the two
neighbouring doubles.

* `Represents`: the number that a significand and its two residual bits stand for.
* `IsCanonical`: the significand and the exponent of a positive double.
* `RoundsTo`: a number lies between the midpoints around a double, or on one of them if the
  significand is even.
* `roundWithAccuracy_eq`: rounding a significand with residual bits. `div_eq`: rounding a quotient.
-/

namespace PredicateSql.Binary64

open Float.Model (totalExponent)
open Float.Model.Format (binary64)
open Float.Model.UnpackedFloat

variable {em : ExtendedMantissa} {x v : ℚ} {m n k : ℕ} {q e : ℤ}

/-! ### Residual bits -/

/-- The number that a significand and its residual bits stand for. The first bit says whether at
least a half is missing, the second one whether anything else is. -/
def Represents (em : ExtendedMantissa) (x : ℚ) : Prop :=
  if em.roundBit then
    if em.stickyBit then (em.mantissa : ℚ) + 1 / 2 < x ∧ x < em.mantissa + 1
    else x = em.mantissa + 1 / 2
  else
    if em.stickyBit then (em.mantissa : ℚ) < x ∧ x < em.mantissa + 1 / 2
    else x = em.mantissa

/-- Shifting out a bit halves the number. -/
theorem Represents.shiftRightOne (h : Represents em x) : Represents em.shiftRightOne (x / 2) := by
  obtain ⟨m, r, s⟩ := em
  have hsplit : ((m % 2 : ℕ) : ℚ) + 2 * ((m / 2 : ℕ) : ℚ) = m := by
    exact_mod_cast Nat.mod_add_div m 2
  obtain hm | hm := Nat.mod_two_eq_zero_or_one m <;> cases r <;> cases s <;>
    simp_all [Represents, ExtendedMantissa.shiftRightOne] <;> (try constructor) <;> linarith

theorem Represents.shiftRight (h : Represents em x) (n : ℕ) :
    Represents (em >>> n) (x / 2 ^ n) := by
  change Represents (n.repeat ExtendedMantissa.shiftRightOne em) _
  induction n with
  | zero => simpa [Nat.repeat] using h
  | succ n ih =>
    rw [Nat.repeat, pow_succ, ← div_div]
    exact ih.shiftRightOne

/-- A number lies between the midpoints around a whole number, or on one of them if the whole number
is even. -/
structure IsNear (x : ℚ) (k : ℕ) : Prop where
  low : k - 1 / 2 ≤ x
  high : x ≤ k + 1 / 2
  tie : k % 2 = 0 ∨ k - 1 / 2 < x ∧ x < k + 1 / 2

/-- The residual bits tell the nearest whole number, the even one of two. -/
theorem Represents.roundedMantissa (h : Represents em x) (hx : IsNear x k) :
    em.roundedMantissa = k := by
  obtain ⟨m, r, s⟩ := em
  obtain ⟨hlow, hhigh, htie⟩ := hx
  have hle : ∀ {a b : ℕ}, (a : ℚ) < b + 1 → a ≤ b := by
    intro a b hab
    have hab : (a : ℚ) < (b + 1 : ℕ) := by push_cast; exact hab
    exact Nat.lt_succ_iff.1 (Nat.cast_lt.1 hab)
  cases r <;> cases s <;> simp only [Represents, Bool.false_eq_true, if_false, if_true] at h <;>
    simp only [ExtendedMantissa.roundedMantissa, ExtendedMantissa.accuracy,
      Accuracy.roundToNearestEven]
  · exact Nat.le_antisymm (hle (by linarith)) (hle (by linarith))
  · exact Nat.le_antisymm (hle (by linarith)) (hle (by linarith))
  · have hm : m ≤ k := hle (by linarith)
    have hk : k ≤ m + 1 := hle (by push_cast; linarith)
    obtain heven | ⟨hlow', hhigh'⟩ := htie
    · omega
    · have hlt : (m : ℚ) < k := by linarith
      have hlt' : (k : ℚ) < (m + 1 : ℕ) := by push_cast; linarith
      have := Nat.cast_lt.1 hlt
      have := Nat.cast_lt.1 hlt'
      omega
  · exact Nat.le_antisymm (hle (by push_cast; linarith)) (hle (by push_cast; linarith))

/-- The quotient of two whole numbers, with what is left of it. -/
theorem represents_div (n : ℕ) {d : ℕ} (hd : 0 < d) :
    Represents (.ofMantissaAndAccuracy (n / d) (accuracyOfFraction (n % d) d)) (n / d) := by
  have hd' : (0 : ℚ) < d := Nat.cast_pos.2 hd
  have hsplit : (n : ℚ) / d = (n / d : ℕ) + (n % d : ℕ) / d := by
    have hn : (d : ℚ) * (n / d : ℕ) + (n % d : ℕ) = n := by exact_mod_cast Nat.div_add_mod n d
    field_simp
    linarith
  have hlt : ((n % d : ℕ) : ℚ) / d < 1 := by
    rw [div_lt_one hd']
    exact_mod_cast Nat.mod_lt n hd
  have hcompare : ∀ {a : ℚ}, a / d - 1 / 2 = (2 * a - d) / (2 * d) := by
    intro a
    field_simp
  have hden : (0 : ℚ) < 2 * d := by linarith
  unfold accuracyOfFraction
  by_cases hzero : n % d = 0
  · rw [if_pos hzero, hsplit, hzero]
    simp [Represents, ExtendedMantissa.ofMantissaAndAccuracy]
  have hpos : (0 : ℚ) < (n % d : ℕ) / d := div_pos (Nat.cast_pos.2 (Nat.pos_of_ne_zero hzero)) hd'
  rw [if_neg hzero]
  obtain h | h | h := lt_trichotomy (2 * (n % d)) d
  · have h' : 2 * ((n % d : ℕ) : ℚ) < d := by exact_mod_cast h
    have hneg : ((n % d : ℕ) : ℚ) / d - 1 / 2 < 0 := by
      rw [hcompare]
      exact div_neg_of_neg_of_pos (by linarith) hden
    rw [compare_lt_iff_lt.2 h, hsplit]
    show ((n / d : ℕ) : ℚ) < _ ∧ _ < ((n / d : ℕ) : ℚ) + 1 / 2
    exact ⟨by linarith, by linarith⟩
  · have h' : 2 * ((n % d : ℕ) : ℚ) = d := by exact_mod_cast h
    have heq : ((n % d : ℕ) : ℚ) / d - 1 / 2 = 0 := by
      rw [hcompare, h', sub_self, zero_div]
    rw [compare_eq_iff_eq.2 h, hsplit]
    show _ = ((n / d : ℕ) : ℚ) + 1 / 2
    linarith
  · have h' : d < 2 * ((n % d : ℕ) : ℚ) := by exact_mod_cast h
    have hpos' : 0 < ((n % d : ℕ) : ℚ) / d - 1 / 2 := by
      rw [hcompare]
      exact div_pos (by linarith) hden
    rw [compare_gt_iff_gt.2 h, hsplit]
    show ((n / d : ℕ) : ℚ) + 1 / 2 < _ ∧ _ < ((n / d : ℕ) : ℚ) + 1
    exact ⟨by linarith, by linarith⟩

/-! ### Exponents -/

/-- The exponent that numbers from `2 ^ lead` up to the next power of two are rounded with. -/
def roundingExponent (lead : ℤ) : ℤ :=
  max (lead - 52) (-1074)

theorem targetExponent_eq (total : ℤ) :
    binary64.targetExponent total = roundingExponent (total - 1) := by
  have hmin : binary64.minExponent = -1074 := by decide
  have hbits : (binary64.mantissaBits : ℤ) = 53 := by decide
  rw [Float.Model.Format.targetExponent, hmin, hbits, roundingExponent]
  congr 1
  ring

/-- The number lies in the binade of `2 ^ lead`. -/
structure InBinade (v : ℚ) (lead : ℤ) : Prop where
  low : 2 ^ lead ≤ v
  high : v < 2 ^ (lead + 1)

/-- A significand that is cut off from a number is rounded with the same exponent. -/
theorem targetExponent_of_inBinade {lead : ℤ} (hv : InBinade v lead) (hlow : m * 2 ^ e ≤ v)
    (hhigh : v < (m + 1) * 2 ^ e) (he : e ≤ roundingExponent lead) :
    binary64.targetExponent (totalExponent m e) = roundingExponent lead := by
  have htwo : (1 : ℚ) < 2 := one_lt_two
  rw [targetExponent_eq, totalExponent]
  rw [roundingExponent] at he
  rcases Nat.eq_zero_or_pos m with rfl | hm
  · -- Nothing is left of the number, so it is below the smallest doubles.
    have hlt : lead < e := by
      rw [← zpow_lt_zpow_iff_right₀ htwo]
      exact hv.low.trans_lt (by simpa using hhigh)
    simp only [roundingExponent, Nat.log2_zero]
    omega
  · have hlog : 2 ^ m.log2 ≤ m := Nat.log2_self_le hm.ne'
    have hlog' : m + 1 ≤ 2 ^ (m.log2 + 1) := Nat.lt_log2_self
    have hle : (m.log2 : ℤ) + e < lead + 1 := by
      rw [← zpow_lt_zpow_iff_right₀ htwo, zpow_add₀ two_ne_zero, zpow_natCast]
      refine lt_of_le_of_lt ?_ hv.high
      refine le_trans (mul_le_mul_of_nonneg_right ?_ (by positivity)) hlow
      exact_mod_cast hlog
    have hge : lead < (m.log2 + 1 : ℕ) + e := by
      rw [← zpow_lt_zpow_iff_right₀ htwo, zpow_add₀ two_ne_zero, zpow_natCast]
      refine hv.low.trans_lt (hhigh.trans_le (mul_le_mul_of_nonneg_right ?_ (by positivity)))
      exact_mod_cast hlog'
    push_cast at hge
    congr 1
    omega

/-- The significand and the exponent of a positive double. -/
structure IsCanonical (m : ℕ) (q : ℤ) : Prop where
  pos : 0 < m
  lt : m < 2 ^ 53
  le : -1074 ≤ q
  normal : 2 ^ 52 ≤ m ∨ q = -1074

/-- A number lies between the midpoints to the doubles below and above `m · 2 ^ q`, or on one of
them if the significand is even. Below a power of two the doubles lie twice as dense. -/
structure RoundsTo (v : ℚ) (m : ℕ) (q : ℤ) : Prop where
  near : IsNear (v / 2 ^ q) m
  dense : m = 2 ^ 52 → -1074 < q → (m - 1 / 4) * 2 ^ q ≤ v

theorem RoundsTo.pos (h : RoundsTo v m q) (hm : 0 < m) : 0 < v := by
  have hq : (0 : ℚ) < 2 ^ q := by positivity
  have hm : (1 : ℚ) ≤ m := by exact_mod_cast hm
  have hlow := (le_div_iff₀ hq).1 h.near.low
  have hstep := mul_pos (show (0 : ℚ) < m - 1 / 2 by linarith) hq
  linarith

/-- What rounds to a double is rounded with its exponent, apart from what is just below a power of
two. -/
theorem RoundsTo.roundingExponent {lead : ℤ} (h : RoundsTo v m q) (hc : IsCanonical m q)
    (hv : InBinade v lead) : roundingExponent lead = q ∨
      m = 2 ^ 52 ∧ roundingExponent lead = q - 1 ∧ v < 2 ^ 52 * 2 ^ q := by
  have htwo : (1 : ℚ) < 2 := one_lt_two
  have hq : (0 : ℚ) < 2 ^ q := by positivity
  have hlow : (m - 1 / 2 : ℚ) * 2 ^ q ≤ v := (le_div_iff₀ hq).1 h.near.low
  have hhigh : v ≤ (m + 1 / 2 : ℚ) * 2 ^ q := (div_le_iff₀ hq).1 h.near.high
  have hm : (m : ℚ) + 1 ≤ 2 ^ 53 := by exact_mod_cast hc.lt
  have hlead : lead ≤ 52 + q := by
    have hlt : (2 : ℚ) ^ lead < 2 ^ (53 + q) := by
      rw [zpow_add₀ two_ne_zero]
      refine (hv.low.trans hhigh).trans_lt (mul_lt_mul_of_pos_right ?_ hq)
      norm_num at hm ⊢
      linarith
    have := (zpow_lt_zpow_iff_right₀ htwo).1 hlt
    omega
  by_cases hbelow : v < 2 ^ 52 * 2 ^ q
  · have hlt : lead < 52 + q := by
      rw [← zpow_lt_zpow_iff_right₀ htwo, zpow_add₀ two_ne_zero]
      exact hv.low.trans_lt (by exact_mod_cast hbelow)
    by_cases hbottom : q = -1074
    · left
      rw [Binary64.roundingExponent]
      omega
    have hmin : -1074 < q := lt_of_le_of_ne hc.le (Ne.symm hbottom)
    have hm' : m = 2 ^ 52 := by
      by_contra hne
      have hgt : (2 : ℚ) ^ 52 + 1 ≤ m := by
        have := hc.normal.resolve_right hbottom
        exact_mod_cast Nat.lt_of_le_of_ne this (Ne.symm hne)
      have := mul_lt_mul_of_pos_right (show (2 : ℚ) ^ 52 < m - 1 / 2 by linarith) hq
      linarith
    have hge : 51 + q < lead + 1 := by
      rw [← zpow_lt_zpow_iff_right₀ htwo, zpow_add₀ two_ne_zero]
      refine lt_of_lt_of_le (mul_lt_mul_of_pos_right ?_ hq) ((h.dense hm' hmin).trans hv.high.le)
      rw [hm']
      norm_num
    right
    refine ⟨hm', ?_, hbelow⟩
    rw [Binary64.roundingExponent]
    omega
  · left
    have hge : 52 + q < lead + 1 := by
      rw [← zpow_lt_zpow_iff_right₀ htwo, zpow_add₀ two_ne_zero]
      exact lt_of_le_of_lt (by exact_mod_cast not_lt.1 hbelow) hv.high
    rw [Binary64.roundingExponent]
    have := hc.le
    omega

/-! ### Rounding -/

theorem Represents.floor (h : Represents em x) : (em.mantissa : ℚ) ≤ x ∧ x < em.mantissa + 1 := by
  obtain ⟨m, r, s⟩ := em
  cases r <;> cases s <;> simp only [Represents, Bool.false_eq_true, if_false, if_true] at h <;>
    constructor <;> linarith

theorem mantissa_ofMantissaAndAccuracy (m : ℕ) (accuracy : Accuracy) :
    (ExtendedMantissa.ofMantissaAndAccuracy m accuracy).mantissa = m := by
  unfold ExtendedMantissa.ofMantissaAndAccuracy
  split <;> rfl

/-- Bits are shifted out up to an exponent. -/
theorem shiftToExponent_eq {accuracy : Accuracy} {target : ℤ} (h : e ≤ target) :
    (shiftToExponent m e accuracy target).2 = target ∧
      ∀ v : ℚ, Represents (.ofMantissaAndAccuracy m accuracy) (v / 2 ^ e) →
        Represents (shiftToExponent m e accuracy target).1 (v / 2 ^ target) := by
  have hshift : e + ((target - e).toNat : ℤ) = target := by omega
  refine ⟨hshift, fun v hv => ?_⟩
  have hpow : v / 2 ^ target = v / 2 ^ e / 2 ^ (target - e).toNat := by
    rw [div_div, ← zpow_natCast, ← zpow_add₀ two_ne_zero, hshift]
  rw [hpow]
  exact hv.shiftRight _

theorem IsCanonical.targetExponent (hc : IsCanonical m q) :
    binary64.targetExponent (totalExponent m q) = q := by
  have hlog : m.log2 < 53 := (Nat.log2_lt hc.pos.ne').2 hc.lt
  have hq := hc.le
  rw [targetExponent_eq, totalExponent, roundingExponent]
  obtain hnormal | rfl := hc.normal
  · have := (Nat.le_log2 hc.pos.ne').2 hnormal
    omega
  · omega

/-- A double is not changed by a further shift. -/
theorem IsCanonical.shift (hc : IsCanonical m q) :
    shiftToTargetExponent binary64 m q .exact = (⟨m, false, false⟩, q) := by
  have hzero : (q - q).toNat = 0 := by omega
  rw [shiftToTargetExponent, hc.targetExponent, shiftToExponent, hzero]
  exact congrArg (Prod.mk _) (add_zero q)

/-- A significand that has got a bit too much is shifted back. -/
theorem shift_carry (hq : -1074 < q) :
    shiftToTargetExponent binary64 (2 ^ 53) (q - 1) .exact = (⟨2 ^ 52, false, false⟩, q) := by
  have htarget : binary64.targetExponent (totalExponent (2 ^ 53) (q - 1)) = q := by
    rw [targetExponent_eq, totalExponent, Nat.log2_two_pow, roundingExponent]
    omega
  have hone : (q - (q - 1)).toNat = 1 := by omega
  rw [shiftToTargetExponent, htarget, shiftToExponent, hone]
  exact congrArg (Prod.mk _) (by omega)

/-- What rounds to a double is rounded to it. -/
theorem roundWithAccuracy_eq {lead : ℤ} {accuracy : Accuracy} (sign : Sign)
    (hem : Represents (.ofMantissaAndAccuracy n accuracy) (v / 2 ^ e)) (hc : IsCanonical m q)
    (h : RoundsTo v m q) (hv : InBinade v lead) (he : e ≤ roundingExponent lead) :
    roundWithAccuracy binary64 sign n e accuracy = .finite sign m q hc.pos := by
  have hpow : (0 : ℚ) < 2 ^ e := by positivity
  obtain ⟨hlow, hhigh⟩ := hem.floor
  rw [mantissa_ofMantissaAndAccuracy] at hlow hhigh
  have htarget := targetExponent_of_inBinade hv ((le_div_iff₀ hpow).1 hlow)
    ((div_lt_iff₀ hpow).1 hhigh) he
  have hshift : shiftToTargetExponent binary64 n e accuracy =
      shiftToExponent n e accuracy (roundingExponent lead) := by
    rw [shiftToTargetExponent, htarget]
  obtain ⟨hexponent, hrepresents⟩ := @shiftToExponent_eq n e accuracy _ he
  have hfirst := hrepresents v hem
  -- The first shift and the rounding after it give the significand of the double, or one bit more.
  have hrounded : shiftToTargetExponent binary64
      (shiftToExponent n e accuracy (roundingExponent lead)).1.roundedMantissa
      (shiftToExponent n e accuracy (roundingExponent lead)).2 .exact = (⟨m, false, false⟩, q) := by
    rw [hexponent]
    obtain hq | ⟨rfl, hq, hbelow⟩ := h.roundingExponent hc hv <;> rw [hq] at hfirst ⊢
    · rw [hfirst.roundedMantissa h.near, hc.shift]
    · have hmin : -1074 < q := by
        rw [roundingExponent] at hq
        omega
      have hpow : (0 : ℚ) < 2 ^ q := by positivity
      have hdouble : v / 2 ^ (q - 1) = 2 * (v / 2 ^ q) := by
        rw [zpow_sub_one₀ two_ne_zero]
        field_simp
      have hnear : IsNear (v / 2 ^ (q - 1)) (2 ^ 53) := by
        have hdense := (le_div_iff₀ hpow).2 (h.dense rfl hmin)
        have hbelow := (div_lt_iff₀ hpow).2 hbelow
        rw [hdouble]
        push_cast at hdense ⊢
        refine ⟨by linarith, by linarith, .inl (by decide)⟩
      rw [hfirst.roundedMantissa hnear, shift_carry hmin]
  unfold roundWithAccuracy
  dsimp only
  rw [hshift, hrounded]
  exact dif_neg hc.pos.ne'

theorem inBinade_log (hv : 0 < v) : InBinade v (Int.log 2 v) :=
  ⟨by exact_mod_cast Int.zpow_log_le_self (Nat.one_lt_two) hv,
    by exact_mod_cast Int.lt_zpow_succ_log_self (Nat.one_lt_two) v⟩

/-- The leading bit of a quotient, by those of the two numbers. -/
theorem InBinade.sub_le {m₁ m₂ : ℕ} {e₁ e₂ lead : ℤ} (hm₁ : 0 < m₁) (hm₂ : 0 < m₂)
    (hv : InBinade (m₁ * 2 ^ e₁ / (m₂ * 2 ^ e₂)) lead) :
    totalExponent m₁ e₁ - totalExponent m₂ e₂ - 1 ≤ lead := by
  have hlog₁ : (2 : ℚ) ^ m₁.log2 ≤ m₁ := by exact_mod_cast Nat.log2_self_le hm₁.ne'
  have hlog₂ : (m₂ : ℚ) < 2 ^ (m₂.log2 + 1) := by exact_mod_cast Nat.lt_log2_self
  have hpos₂ : (0 : ℚ) < m₂ := Nat.cast_pos.2 hm₂
  have hlt : (2 : ℚ) ^ ((m₁.log2 : ℤ) + e₁ - ((m₂.log2 + 1 : ℕ) + e₂)) < 2 ^ (lead + 1) := by
    refine lt_of_le_of_lt ?_ hv.high
    rw [zpow_sub₀ two_ne_zero, zpow_add₀ two_ne_zero, zpow_add₀ two_ne_zero, zpow_natCast,
      zpow_natCast]
    refine div_le_div₀ (by positivity) (mul_le_mul_of_nonneg_right hlog₁ (by positivity))
      (by positivity) (mul_le_mul_of_nonneg_right hlog₂.le (by positivity))
  have := (zpow_lt_zpow_iff_right₀ one_lt_two).1 hlt
  rw [totalExponent, totalExponent]
  omega

/-- A quotient that rounds to a double is rounded to it. -/
theorem div_eq {m₁ m₂ : ℕ} {e₁ e₂ : ℤ} (hm₁ : 0 < m₁) (hm₂ : 0 < m₂) (hc : IsCanonical m q)
    (h : RoundsTo (m₁ * 2 ^ e₁ / (m₂ * 2 ^ e₂)) m q) :
    div binary64 (.finite .positive m₁ e₁ hm₁) (.finite .positive m₂ e₂ hm₂) =
      .finite .positive m q hc.pos := by
  have hpos₁ : (0 : ℚ) < m₁ := Nat.cast_pos.2 hm₁
  have hpos₂ : (0 : ℚ) < m₂ := Nat.cast_pos.2 hm₂
  have hv : InBinade (m₁ * 2 ^ e₁ / (m₂ * 2 ^ e₂)) _ := inBinade_log (by positivity)
  have hlead := hv.sub_le hm₁ hm₂
  show roundWithAccuracy binary64 .positive (divCore binary64 m₁ e₁ m₂ e₂).1
    (divCore binary64 m₁ e₁ m₂ e₂).2.1 (divCore binary64 m₁ e₁ m₂ e₂).2.2 = _
  rw [divCore]
  set target : ℤ :=
    min (e₁ - e₂) (binary64.targetExponent (totalExponent m₁ e₁ - totalExponent m₂ e₂))
  have htarget : target ≤ e₁ - e₂ := min_le_left _ _
  have hmin : target ≤ roundingExponent (totalExponent m₁ e₁ - totalExponent m₂ e₂ - 1) := by
    rw [← targetExponent_eq]
    exact min_le_right _ _
  have hshift : ((e₁ - e₂ - target).toNat : ℤ) = e₁ - e₂ - target := by omega
  have hquotient : (m₁ * 2 ^ e₁ / (m₂ * 2 ^ e₂) : ℚ) / 2 ^ target =
      (m₁ <<< (e₁ - e₂ - target).toNat : ℕ) / m₂ := by
    rw [Nat.shiftLeft_eq]
    push_cast
    rw [← zpow_natCast, hshift, zpow_sub₀ two_ne_zero, zpow_sub₀ two_ne_zero]
    field_simp
  refine roundWithAccuracy_eq .positive ?_ hc h hv (hmin.trans ?_)
  · rw [hquotient]
    exact represents_div _ hm₂
  · exact max_le_max_right _ (by omega)

/-! ### Whole numbers -/

theorem roundsTo_self (m : ℕ) (q : ℤ) : RoundsTo (m * 2 ^ q) m q := by
  have hq : (0 : ℚ) < 2 ^ q := by positivity
  have hself : (m * 2 ^ q / 2 ^ q : ℚ) = m := mul_div_cancel_right₀ _ hq.ne'
  refine ⟨⟨?_, ?_, .inr ⟨?_, ?_⟩⟩, fun _ _ => mul_le_mul_of_nonneg_right (by linarith) hq.le⟩ <;>
    rw [hself] <;> linarith

/-- A whole number of at most 53 bits is a double. -/
theorem ofNat_eq (hn : 0 < n) (hlt : n < 2 ^ 53) :
    ∃ m q, ∃ hc : IsCanonical m q, (m * 2 ^ q : ℚ) = n ∧ q ≤ 0 ∧
      ofNat binary64 n = .finite .positive m q hc.pos := by
  have hlog : n.log2 < 53 := (Nat.log2_lt hn.ne').2 hlt
  have hself : 2 ^ n.log2 ≤ n := Nat.log2_self_le hn.ne'
  have hself' : n < 2 ^ (n.log2 + 1) := Nat.lt_log2_self
  obtain ⟨s, hs⟩ : ∃ s, n.log2 + s = 52 := ⟨52 - n.log2, by omega⟩
  have hc : IsCanonical (n <<< s) (-s) := by
    rw [Nat.shiftLeft_eq]
    refine ⟨by positivity, ?_, by omega, .inl ?_⟩
    · calc
        n * 2 ^ s < 2 ^ (n.log2 + 1) * 2 ^ s := Nat.mul_lt_mul_of_pos_right hself' (by positivity)
        _ = 2 ^ 53 := by rw [← pow_add]; congr 1; omega
    · calc
        2 ^ 52 = 2 ^ n.log2 * 2 ^ s := by rw [← pow_add, hs]
        _ ≤ n * 2 ^ s := Nat.mul_le_mul_right _ hself
  have hvalue : ((n <<< s : ℕ) * 2 ^ (-(s : ℤ)) : ℚ) = n := by
    rw [Nat.shiftLeft_eq, zpow_neg, zpow_natCast]
    push_cast
    field_simp
  refine ⟨n <<< s, -s, hc, hvalue, by omega, ?_⟩
  have htarget : binary64.targetExponent (totalExponent n 0) = -s := by
    rw [targetExponent_eq, totalExponent, roundingExponent]
    omega
  have hcompare : compare (n : ℤ) 0 = .gt := compare_gt_iff_gt.2 (by omega)
  have hround : ofNat binary64 n =
      roundWithAccuracy binary64 .positive (n <<< s) (-s) .exact := by
    have hexponent : (0 : ℤ) - ((0 : ℤ) - -(s : ℤ)).toNat = -s := by omega
    have hshift : ((0 : ℤ) - -(s : ℤ)).toNat = s := by omega
    unfold ofNat ofInt Float.Model.UnpackedFloat.normalize Float.Model.UnpackedFloat.round
      decreaseExponent
    rw [hcompare]
    dsimp only
    rw [Int.toNat_natCast, htarget, hexponent, hshift]
  have hbinade : InBinade (n <<< s * 2 ^ (-(s : ℤ)) : ℚ) n.log2 := by
    rw [hvalue]
    exact ⟨by exact_mod_cast hself, by exact_mod_cast hself'⟩
  rw [hround]
  refine roundWithAccuracy_eq .positive ?_ hc (roundsTo_self _ _) hbinade ?_
  · rw [mul_div_cancel_right₀ _ (by positivity)]
    simp [Represents, ExtendedMantissa.ofMantissaAndAccuracy]
  · rw [roundingExponent]
    omega

end PredicateSql.Binary64
