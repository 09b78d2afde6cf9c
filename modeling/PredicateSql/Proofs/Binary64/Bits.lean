import PredicateSql.Binary64.Parts
import PredicateSql.Binary64.Reading
import PredicateSql.Proofs.Binary64.Rounding

/-!
# The bits of positive doubles

* `ofModel_of_parts`: a positive double is packed from its significand and its exponent.
* `unpack_pack`: what is packed from those is unpacked to the same ones.
* `ofScientific_eq`: a decimal fraction that rounds to a double is read as it.
-/

namespace PredicateSql.Binary64

open Float.Model.Format (binary64)
open Float.Model.UnpackedFloat

variable {m n k : ℕ} {q e : ℤ} {x : Float}

/-- The bits of sign, exponent and significand, one after the other. -/
theorem toNat_packComponents (exponent : BitVec binary64.exponentBits)
    (mantissa : BitVec binary64.mantissaBitsWithoutImplicit) :
    (packComponents binary64 .positive exponent mantissa).toNat =
      exponent.toNat * 2 ^ 52 + mantissa.toNat := by
  have hmantissa : mantissa.toNat < 2 ^ 52 := mantissa.isLt
  rw [packComponents, BitVec.toNat_append, BitVec.toNat_append]
  show ((0 <<< _ ||| exponent.toNat) <<< 52 ||| mantissa.toNat) = _
  rw [Nat.zero_shiftLeft, Nat.zero_or, ← Nat.shiftLeft_add_eq_or_of_lt hmantissa, Nat.shiftLeft_eq]

/-- Where the parts of a double that is not negative stand in its bits. -/
theorem ofBits_eq_finite {bits : ℕ} (hbits : bits < 2 ^ 64)
    (h : Parts.ofBits bits = .finite false m q) :
    (m = bits ∧ m < 2 ^ 52 ∧ q = -1074) ∨
      ∃ field fraction : ℕ, 0 < field ∧ field < 2047 ∧ fraction < 2 ^ 52 ∧ m = 2 ^ 52 + fraction ∧
        bits = field * 2 ^ 52 + fraction ∧ q = field - 1075 := by
  have h11 : Nat.pow 2 11 = 2048 := rfl
  have h52 : Nat.pow 2 52 = 4503599627370496 := rfl
  have h63 : Nat.pow 2 63 = 9223372036854775808 := rfl
  simp only [Parts.ofBits, h11, h52, h63] at h
  split_ifs at h with hspecial hnan hsubnormal
  · simp only [Parts.finite.injEq, beq_eq_false_iff_ne] at h
    omega
  · simp only [Parts.finite.injEq, beq_eq_false_iff_ne] at h
    refine .inr ⟨bits / 4503599627370496 % 2048, bits % 4503599627370496, ?_⟩
    omega

theorem toNat_toBits_lt (x : Float) : x.toBits.toNat < 2 ^ 64 :=
  x.toBits.toNat_lt

/-- A positive double has a significand of 53 bits, or of less with the smallest exponent. -/
theorem isCanonical_of_parts (h : parts x = .finite false m q) (hm : 0 < m) :
    IsCanonical m q ∧ q ≤ 971 := by
  obtain ⟨-, hlt, rfl⟩ | ⟨field, fraction, hpos, hfield, hfraction, rfl, -, rfl⟩ :=
    ofBits_eq_finite (toNat_toBits_lt x) h
  · exact ⟨⟨hm, by omega, le_rfl, .inr rfl⟩, by decide⟩
  · exact ⟨⟨hm, by omega, by omega, .inl (by omega)⟩, by omega⟩

/-- The exponent field of a double. -/
def field (m : ℕ) (q : ℤ) : ℕ :=
  if m < 2 ^ 52 then 0 else (q + 1075).toNat

theorem field_lt (hc : IsCanonical m q) (hq : q ≤ 971) : field m q < 2047 := by
  have := hc.le
  rw [field]
  split <;> omega

/-- A double is packed into its exponent field and the lower bits of its significand. -/
theorem pack_eq (hc : IsCanonical m q) (hq : q ≤ 971) :
    Float.Model.UnpackedFloat.pack binary64 (.finite .positive m q hc.pos) =
      packComponents binary64 .positive (.ofNat _ (field m q)) (.ofNat _ m) := by
  have hbias : (binary64.exponentBias : ℤ) = 1023 := by decide
  have hbits : binary64.mantissaBits = 53 := by decide
  have hle := hc.le
  have hlog : m.log2 < 53 := (Nat.log2_lt hc.pos.ne').2 hc.lt
  have hfield : q + binary64.exponentBias + binary64.mantissaBitsWithoutImplicit = q + 1075 := by
    rw [hbias]
    show q + 1023 + 52 = _
    ring
  unfold Float.Model.UnpackedFloat.pack field
  dsimp only
  rw [hfield, if_neg (by show ¬ 2 ^ 11 ≤ _; omega), hbits]
  by_cases hnormal : m < 2 ^ 52
  · have hlog' : m.log2 < 52 := (Nat.log2_lt hc.pos.ne').2 hnormal
    rw [if_neg (by omega), if_pos hnormal]
  · have hlog' : 52 ≤ m.log2 := (Nat.le_log2 hc.pos.ne').2 (not_lt.1 hnormal)
    rw [if_pos (by omega), if_neg hnormal]

/-- Two doubles with the same bits are one. -/
theorem eq_ofModel_of_bits {model : Float.Model}
    (h : x.toBits.toNat = model.toBits.toNat) : x = .ofModel model := by
  have hmodel : x.toModel = model := by
    have hbits : x.toModel.toBits = model.toBits := UInt64.toNat_inj.1 h
    generalize x.toModel = model' at hbits
    obtain ⟨bits, hvalid⟩ := model
    obtain ⟨bits', hvalid'⟩ := model'
    obtain rfl : bits' = bits := hbits
    rfl
  exact congrArg Float.ofModel hmodel

/-- A positive double is packed from its parts. -/
theorem ofModel_of_parts (h : parts x = .finite false m q) (hm : 0 < m) :
    x = .ofModel (.pack (.finite .positive m q hm)) := by
  obtain ⟨hc, hq⟩ := isCanonical_of_parts h hm
  have hlt := field_lt hc hq
  refine eq_ofModel_of_bits (Eq.trans ?_ UInt64.toNat_ofBitVec.symm)
  rw [pack_eq hc hq, toNat_packComponents]
  show _ = field m q % 2 ^ 11 * 2 ^ 52 + m % 2 ^ 52
  rw [Nat.mod_eq_of_lt (by omega), field]
  obtain ⟨hbits, hlt, -⟩ | ⟨field, fraction, -, -, hfraction, rfl, hbits, rfl⟩ :=
    ofBits_eq_finite (toNat_toBits_lt x) h
  · rw [if_pos hlt, Nat.mod_eq_of_lt hlt, Nat.zero_mul, Nat.zero_add]
    exact hbits.symm
  · have hfield : ((field : ℤ) - 1075 + 1075).toNat = field := by omega
    rw [if_neg (by omega), hfield, Nat.add_mod_left, Nat.mod_eq_of_lt hfraction]
    exact hbits

theorem unpackSign_packComponents {format : Float.Model.Format} (sign : Sign)
    (exponent : BitVec format.exponentBits) (mantissa : BitVec format.mantissaBitsWithoutImplicit) :
    Sign.ofBitVec (unpackSign (packComponents format sign exponent mantissa)) = sign := by
  have hsign : unpackSign (packComponents format sign exponent mantissa) = sign.toBitVec := by
    refine BitVec.eq_of_getLsbD_eq fun i hi => ?_
    obtain rfl : i = 0 := by omega
    unfold unpackSign packComponents
    simp [BitVec.getLsbD_append, BitVec.getElem_append]
  rw [hsign]
  cases sign <;> rfl

theorem finite_congr {sign : Sign} {m' : ℕ} {q' : ℤ} {hm : 0 < m} {hm' : 0 < m'} (h : m = m')
    (hq : q = q') : Float.Model.UnpackedFloat.finite sign m q hm = .finite sign m' q' hm' := by
  subst h hq
  rfl

/-- What is packed from a significand and an exponent is unpacked to the same ones. -/
theorem unpack_pack (hc : IsCanonical m q) (hq : q ≤ 971) :
    (Float.Model.pack (.finite .positive m q hc.pos)).unpack = .finite .positive m q hc.pos := by
  have hle := hc.le
  have hlt := hc.lt
  have hpos := hc.pos
  have hfieldlt := field_lt hc hq
  have hfield : (BitVec.ofNat binary64.exponentBits (field m q)).toNat = field m q :=
    (BitVec.toNat_ofNat _ _).trans (Nat.mod_eq_of_lt (by show _ < 2 ^ 11; omega))
  have hmantissa : (BitVec.ofNat binary64.mantissaBitsWithoutImplicit m).toNat = m % 2 ^ 52 :=
    BitVec.toNat_ofNat _ _
  have hspecial : BitVec.ofNat binary64.exponentBits (field m q) ≠ -1#_ := by
    intro h
    have hnat := congrArg BitVec.toNat h
    rw [hfield] at hnat
    exact absurd (hnat.trans (by decide : (-1 : BitVec binary64.exponentBits).toNat = 2047)) (by omega)
  have hbias : (binary64.exponentBias : ℤ) + binary64.mantissaBitsWithoutImplicit = 1075 := by
    decide
  rw [Float.Model.unpack, Float.Model.pack]
  show Float.Model.UnpackedFloat.unpack binary64
    (Float.Model.UnpackedFloat.pack binary64 (.finite .positive m q hc.pos)) = _
  rw [pack_eq hc hq]
  have hpacked : unpackMantissa (packComponents binary64 .positive (.ofNat _ (field m q))
      (.ofNat _ m)) = .ofNat _ m := unpackMantissa_packComponents
  unfold Float.Model.UnpackedFloat.unpack
  dsimp only
  rw [unpackExponent_packComponents, unpackSign_packComponents, if_neg hspecial, hbias, hfield]
  by_cases hnormal : m < 2 ^ 52
  · have hzero : field m q = 0 := if_pos hnormal
    obtain rfl : q = -1074 := hc.normal.resolve_left (by omega)
    rw [Nat.mod_eq_of_lt hnormal] at hmantissa
    rw [← hpacked] at hmantissa
    rw [if_pos (by rw [hzero]), dif_neg fun h => hpos.ne' (hmantissa.symm.trans (by rw [h]; rfl))]
    exact finite_congr hmantissa (by rw [hzero]; rfl)
  · have hfieldpos : 0 < field m q := by
      rw [field, if_neg hnormal]
      omega
    have hne : ¬ BitVec.ofNat binary64.exponentBits (field m q) = 0#_ := by
      intro h
      have hnat := congrArg BitVec.toNat h
      rw [hfield] at hnat
      exact hfieldpos.ne' hnat
    have hexponent : (field m q : ℤ) - 1075 = q := by
      rw [field, if_neg hnormal]
      omega
    have hmantissa' : (1#1 ++ BitVec.ofNat binary64.mantissaBitsWithoutImplicit m).toNat = m := by
      have hmod : m % 2 ^ 52 < 2 ^ 52 := Nat.mod_lt _ (by decide)
      rw [BitVec.toNat_append, hmantissa, ← Nat.shiftLeft_add_eq_or_of_lt hmod, Nat.shiftLeft_eq]
      show 1 * 2 ^ 52 + m % 2 ^ 52 = m
      omega
    rw [← hpacked] at hmantissa'
    rw [if_neg hne]
    exact finite_congr hmantissa' hexponent

/-! ### Decimal fractions -/

/-- The parts of the powers of ten that are doubles. Nothing of `5 ^ k` has to be cut off. -/
theorem parts_powerOfTen : ∀ k : Fin 23,
    parts (getElem Float.exactlyRepresentablePowersOfTen k.val k.isLt) =
      .finite false (5 ^ k.val * 2 ^ (52 - (5 ^ k.val).log2))
        ((k.val + (5 ^ k.val).log2 : ℕ) - 52) := by
  decide +kernel

theorem unpack_powerOfTen (hk : k < Float.exactlyRepresentablePowersOfTen.size) :
    ∃ (m : ℕ) (e : ℤ) (hm : 0 < m), (m * 2 ^ e : ℚ) = 10 ^ k ∧
      (Float.exactlyRepresentablePowersOfTen[k]).toModel.unpack = .finite .positive m e hm := by
  have hparts : parts (Float.exactlyRepresentablePowersOfTen[k]) = _ := parts_powerOfTen ⟨k, hk⟩
  have hpos : 0 < 5 ^ k * 2 ^ (52 - (5 ^ k).log2) := by positivity
  obtain ⟨hc, hle⟩ := isCanonical_of_parts hparts hpos
  have hlog : (5 ^ k).log2 ≤ 52 := by
    have hk : k ≤ 22 := Nat.lt_succ_iff.1 hk
    refine Nat.lt_succ_iff.1 ((Nat.log2_lt (by positivity)).2 ?_)
    exact (Nat.pow_le_pow_right (by decide) hk).trans_lt (by decide)
  have hexponent : ((k + (5 ^ k).log2 : ℕ) : ℤ) - 52 = k - (52 - (5 ^ k).log2 : ℕ) := by omega
  have hten : (10 : ℚ) ^ k = 5 ^ k * 2 ^ k := by
    rw [← mul_pow]
    norm_num
  refine ⟨_, ((k + (5 ^ k).log2 : ℕ) : ℤ) - 52, hpos, ?_, ?_⟩
  · rw [hexponent, zpow_sub₀ two_ne_zero, zpow_natCast, zpow_natCast, hten]
    push_cast
    field_simp
  · rw [ofModel_of_parts hparts hpos]
    exact unpack_pack hc hle

theorem unpack_toFloat (hn : 0 < n) (hlt : n < 2 ^ 53) :
    ∃ (m : ℕ) (e : ℤ) (hm : 0 < m), (m * 2 ^ e : ℚ) = n ∧
      n.toUInt64.toFloat.toModel.unpack = .finite .positive m e hm := by
  obtain ⟨m, q, hc, hvalue, hq, heq⟩ := ofNat_eq hn hlt
  refine ⟨m, q, hc.pos, hvalue, ?_⟩
  have hnat : n.toUInt64.toNat = n := UInt64.toNat_ofNat_of_lt' (by
    show n < 2 ^ 64
    omega)
  show (Float.Model.pack (ofNat binary64 n.toUInt64.toNat)).unpack = _
  rw [hnat, heq]
  exact unpack_pack hc (by omega)

/-- A decimal fraction that rounds to a double is read as it. -/
theorem ofScientific_eq (hn : 0 < n) (hk : 0 < k) (hk' : k ≤ n.log2 + 2048) (hc : IsCanonical m q)
    (h : RoundsTo (n / 10 ^ k) m q) :
    Float.ofScientific n true k = .ofModel (.pack (.finite .positive m q hc.pos)) := by
  by_cases hfast : n < 2 ^ 53 ∧ k ≤ 22
  · -- The coefficient and the power of ten are doubles.
    obtain ⟨m₁, e₁, hm₁, hvalue₁, hcoefficient⟩ := unpack_toFloat hn hfast.1
    have hsize : k < Float.exactlyRepresentablePowersOfTen.size := Nat.lt_succ_iff.2 hfast.2
    obtain ⟨m₂, e₂, hm₂, hvalue₂, hpower⟩ := unpack_powerOfTen hsize
    refine (dif_pos hfast).trans ?_
    show Float.ofModel (.pack (div binary64 n.toUInt64.toFloat.toModel.unpack
      (Float.exactlyRepresentablePowersOfTen[k]).toModel.unpack)) = _
    rw [hcoefficient, hpower, div_eq hm₁ hm₂ hc]
    rwa [hvalue₁, hvalue₂]
  · have hexponent : Int.negOfNat k = -(k : ℤ) := by
      cases k <;> rfl
    have hten : (0 : ℕ) < 10 ^ k := by positivity
    refine (dif_neg hfast).trans ?_
    show Float.ofModel (.pack (ofScientific binary64 n (Int.negOfNat k))) = _
    rw [hexponent, ofScientific, dif_neg hn.ne', if_neg (by show ¬ 2 ^ 11 < _; omega),
      if_neg (by show ¬ _ < -((2 ^ 11 : ℤ) + _); omega)]
    have hpower : (- -(k : ℤ)).toNat = k := by omega
    rw [← hpower] at h hten
    rw [if_neg (by omega), div_eq hn hten hc]
    simpa using h

end PredicateSql.Binary64
