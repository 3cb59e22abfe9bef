/-
# Scaled decimal division

`resources_detail` of `resources/resources.cpp`: powers of ten, the overflow test that
multiplies, divides back and compares, and division with halves rounded up, all in
128 bits.

* `mulWouldOverflow_iff` : the test finds exactly the products that do not fit;
* `decimalDivideScaled_exact` : the quotient is the exact one, rounded.
-/
import Dwarfkit.Antelope.Chain.Rounding128

namespace Dwarfkit

namespace Resources

/-! ## The helpers -/

/-- `pow10_128`. -/
def pow10_128 (exponent : ℤ) : Int128 :=
  (fun rv : Int128 => rv.multiplying (.ofInt64 10))^[exponent.toNat] (.ofInt64 1)

/-- `mulWouldOverflow`: the product is divided back and compared. -/
def mulWouldOverflow (a b : Int128) : Bool :=
  if a = {} ∨ b = {} then false
  else
    let product := a.multiplying b
    match product.dividing b .floor with
    | .error _ => true
    | .ok quotient => quotient ≠ a ∨ product.isNegative

/-- `divRoundHalfUp`: on the bits, as unsigned. -/
def divRoundHalfUp (a b : Int128) : Result Int128 := do
  let num := a.toUnsigned
  let den := b.toUnsigned
  let quotient ← num.dividing den .floor
  let rem ← num.remainder den
  let doubled : UInt128 := { lo := rem.lo <<< 1, hi := (rem.hi <<< 1) ||| (rem.lo >>> 63) }
  let rounded := if den.le doubled then quotient.adding { lo := 1 } else quotient
  return .ofUnsigned rounded

/-- `decimalDivideScaled`. -/
def decimalDivideScaled (a b : Int128) (precision : ℤ) : Result Int128 :=
  let scale := pow10_128 precision
  if mulWouldOverflow a scale then err .invalid "decimal division overflow"
  else divRoundHalfUp (a.multiplying scale) b

/-! ## Products that fit -/

/-- A product that fits is the exact one. -/
theorem toInt_multiplying_of_lt {a b : Int128} (hlow : -2 ^ 127 ≤ a.toInt * b.toInt)
    (hhigh : a.toInt * b.toInt < 2 ^ 127) : (a.multiplying b).toInt = a.toInt * b.toInt := by
  rw [Int128.toInt_multiplying]
  apply Int.bmod_eq_of_le
  · norm_num
    omega
  · norm_num
    omega

/-- A power of ten that fits. -/
theorem toInt_tens {n : ℕ} (hn : n ≤ 38) :
    ((fun rv : Int128 => rv.multiplying (.ofInt64 10))^[n] (.ofInt64 1)).toInt = 10 ^ n := by
  induction n with
  | zero => rfl
  | succ n ih =>
    have hten : (Int128.ofInt64 10).toInt = 10 := by rw [Int128.toInt_ofInt64]; rfl
    have hpow : (10 : ℤ) ^ (n + 1) ≤ 10 ^ 38 := pow_le_pow_right₀ (by norm_num) hn
    have hpos : (0 : ℤ) ≤ 10 ^ (n + 1) := by positivity
    have hmax : (10 : ℤ) ^ 38 < 2 ^ 127 := by norm_num
    have hstep : 10 ^ n * (Int128.ofInt64 10).toInt = 10 ^ (n + 1) := by rw [hten, pow_succ]
    rw [Function.iterate_succ_apply', toInt_multiplying_of_lt]
    · rw [ih (by omega), hstep]
    · rw [ih (by omega), hstep]
      omega
    · rw [ih (by omega), hstep]
      omega

theorem toInt_pow10_128 {exponent : ℤ} (h : exponent ≤ 38) :
    (pow10_128 exponent).toInt = 10 ^ exponent.toNat :=
  toInt_tens (by omega)

/-! ## The overflow test -/

/-- The product of two positive numbers that does not fit is negative, or is divided back
to less than the first of them. -/
theorem wrapped_product {a b : ℤ} (hb : 0 < b) (h : 2 ^ 127 ≤ a * b) :
    (a * b).bmod (2 ^ 128) / b < a := by
  -- what is left out is a positive multiple of `2 ^ 128`
  have hmod : (a * b).bmod (2 ^ 128) ≤ a * b - 2 ^ 128 := by
    generalize a * b = n at h ⊢
    rw [Int.bmod_def]
    norm_num at h ⊢
    omega
  apply Int.ediv_lt_of_lt_mul hb
  omega

/-- **The overflow test is exact**: it finds the products that do not fit, and no other. -/
theorem mulWouldOverflow_iff {a b : Int128} (ha : 0 ≤ a.toInt) (hb : 0 < b.toInt) :
    mulWouldOverflow a b = true ↔ 2 ^ 127 ≤ a.toInt * b.toInt := by
  have hbne : b ≠ {} := fun h => by rw [(Int128.toInt_eq_zero_iff b).mpr h] at hb; omega
  obtain ⟨quotient, hquotient, hvalue⟩ := Int128.toInt_dividing (a.multiplying b)
    (b := b) (by omega)
  unfold mulWouldOverflow
  by_cases hzero : a = {}
  · rw [if_pos (.inl hzero), (Int128.toInt_eq_zero_iff a).mpr hzero]
    simp
  rw [if_neg (by simp [hzero, hbne])]
  simp only [hquotient, decide_eq_true_eq, Int128.isNegative_iff_toInt]
  by_cases hfits : a.toInt * b.toInt < 2 ^ 127
  · -- the product is exact, and is divided back to `a`
    have hnonneg : 0 ≤ a.toInt * b.toInt := Int.mul_nonneg ha hb.le
    have hproduct : (a.multiplying b).toInt = a.toInt * b.toInt :=
      toInt_multiplying_of_lt (by omega) hfits
    have hback : quotient = a := by
      apply Int128.toInt_injective
      rw [hvalue, Int128.tdiv_bmod _ _ (by omega) (by omega), hproduct,
        Int.mul_tdiv_cancel _ (by omega)]
    rw [hproduct]
    simp only [hback, ne_eq, not_true_eq_false, false_or]
    omega
  · have hproduct := Int128.toInt_multiplying a b
    constructor
    · intro _
      omega
    · intro hover
      by_cases hneg : (a.multiplying b).toInt < 0
      · exact .inr hneg
      · refine .inl (fun hback => ?_)
        have hless := wrapped_product hb hover
        have hcalc : quotient.toInt = (a.multiplying b).toInt / b.toInt := by
          rw [hvalue, Int128.tdiv_bmod _ _ (by omega) (by omega),
            Int.tdiv_eq_ediv_of_nonneg (by omega)]
        rw [hback, hproduct] at hcalc
        omega

/-! ## Rounding -/

/-- The bits of a number that is not negative. -/
theorem toNat_toUnsigned {a : Int128} (h : 0 ≤ a.toInt) :
    (a.toUnsigned.toNat : ℤ) = a.toInt := by
  have hneg := a.isNegative_iff_toInt
  rw [Int128.toInt, if_neg (fun hn => by have := hneg.mp hn; omega)]

/-- **Division with halves rounded up** is exact for numbers that are not negative. -/
theorem divRoundHalfUp_exact {a b : Int128} (ha : 0 ≤ a.toInt) (hb : 0 < b.toInt) :
    ∃ rv, divRoundHalfUp a b = .ok rv ∧ rv.toInt = round ((a.toInt : ℚ) / b.toInt) := by
  have hnum := toNat_toUnsigned ha
  have hden := toNat_toUnsigned hb.le
  obtain ⟨-, hahigh⟩ := a.toInt_bounds
  obtain ⟨-, hbhigh⟩ := b.toInt_bounds
  have hpos : 0 < b.toUnsigned.toNat := by omega
  have hrem : a.toUnsigned.toNat % b.toUnsigned.toNat < b.toUnsigned.toNat := Nat.mod_lt _ hpos
  have hne : b.toUnsigned.toNat ≠ 0 := by omega
  have hround := UInt128.toNat_roundQuotient a.toUnsigned hpos .round (fun _ => by omega)
  have hexact := rounded_div .round a.toUnsigned.toNat hpos
  refine ⟨.ofUnsigned (UInt128.roundQuotient (UInt128.divmod128 a.toUnsigned b.toUnsigned).1
    (UInt128.divmod128 a.toUnsigned b.toUnsigned).2 b.toUnsigned .round), ?_, ?_⟩
  · simp only [divRoundHalfUp, UInt128.dividing_eq _ hne, UInt128.remainder_eq _ hne]
    rfl
  · have hcasts : (a.toInt : ℚ) / b.toInt = (a.toUnsigned.toNat : ℚ) / b.toUnsigned.toNat := by
      rw [← hnum, ← hden]
      push_cast
      rfl
    -- a quotient that takes one more is at most half of a number below `2 ^ 127`
    have hfits : a.toUnsigned.toNat / b.toUnsigned.toNat +
        (if RoundsUp .round a.toUnsigned.toNat b.toUnsigned.toNat then 1 else 0) < 2 ^ 127 := by
      have hle : a.toUnsigned.toNat / b.toUnsigned.toNat ≤ a.toUnsigned.toNat := Nat.div_le_self _ _
      split
      · rename_i hup
        have := hup.div_le hpos
        omega
      · omega
    rw [Int128.toInt_ofUnsigned, hround, hcasts]
    refine Eq.trans ?_ hexact.symm
    generalize a.toUnsigned.toNat / b.toUnsigned.toNat + _ = n at hfits ⊢
    apply Int.bmod_eq_of_le
    · norm_num
    · norm_num
      omega

/-- The test of a scaled division. -/
theorem mulWouldOverflow_pow10 {a : Int128} {precision : ℤ} (ha : 0 ≤ a.toInt)
    (hhigh : precision ≤ 38) :
    mulWouldOverflow a (pow10_128 precision) = true ↔ 2 ^ 127 ≤ a.toInt * 10 ^ precision.toNat := by
  have hscale := toInt_pow10_128 hhigh
  have hpos : 0 < (pow10_128 precision).toInt := by
    rw [hscale]
    positivity
  rw [← hscale]
  exact mulWouldOverflow_iff ha hpos

/-- A dividend that does not fit once it is scaled is an error. -/
theorem decimalDivideScaled_overflow {a : Int128} {precision : ℤ} (ha : 0 ≤ a.toInt)
    (hhigh : precision ≤ 38) (hover : 2 ^ 127 ≤ a.toInt * 10 ^ precision.toNat) (b : Int128) :
    decimalDivideScaled a b precision = err .invalid "decimal division overflow" := by
  simp only [decimalDivideScaled, (mulWouldOverflow_pow10 ha hhigh).mpr hover, if_true]

/-- A dividend that fits is divided exactly. -/
theorem decimalDivideScaled_fits {a b : Int128} {precision : ℤ} (ha : 0 ≤ a.toInt)
    (hb : 0 < b.toInt) (hhigh : precision ≤ 38)
    (hfits : a.toInt * 10 ^ precision.toNat < 2 ^ 127) :
    ∃ rv, decimalDivideScaled a b precision = .ok rv ∧
      rv.toInt = round ((a.toInt * 10 ^ precision.toNat : ℚ) / b.toInt) := by
  have hscale := toInt_pow10_128 hhigh
  have hfalse : mulWouldOverflow a (pow10_128 precision) = false := by
    cases h : mulWouldOverflow a (pow10_128 precision) with
    | false => rfl
    | true =>
      have := (mulWouldOverflow_pow10 ha hhigh).mp h
      omega
  have hnonneg : 0 ≤ a.toInt * 10 ^ precision.toNat := by positivity
  have hproduct : (a.multiplying (pow10_128 precision)).toInt = a.toInt * 10 ^ precision.toNat := by
    rw [toInt_multiplying_of_lt]
    · rw [hscale]
    · rw [hscale]
      omega
    · rw [hscale]
      omega
  obtain ⟨rv, hrv, hvalue⟩ := divRoundHalfUp_exact (a := a.multiplying (pow10_128 precision))
    (by rw [hproduct]; exact hnonneg) hb
  rw [hproduct] at hvalue
  push_cast at hvalue
  refine ⟨rv, ?_, hvalue⟩
  simp only [decimalDivideScaled, hfalse, Bool.false_eq_true, if_false, hrv]

/-- **Scaled decimal division.**  The overflow test finds exactly the dividends that do not
fit once they are scaled, these are errors, and any other is divided exactly, with halves
rounded up. -/
theorem decimalDivideScaled_exact {a b : Int128} {precision : ℤ} (ha : 0 ≤ a.toInt)
    (hb : 0 < b.toInt) (hlow : 0 ≤ precision) (hhigh : precision ≤ 18) :
    (mulWouldOverflow a (pow10_128 precision) = true ↔
      2 ^ 127 ≤ a.toInt * 10 ^ precision.toNat) ∧
    (decimalDivideScaled a b precision = err .invalid "decimal division overflow" ↔
      2 ^ 127 ≤ a.toInt * 10 ^ precision.toNat) ∧
    ((∃ e, decimalDivideScaled a b precision = .error e) ↔
      2 ^ 127 ≤ a.toInt * 10 ^ precision.toNat) ∧
    (a.toInt * 10 ^ precision.toNat < 2 ^ 127 →
      ∃ rv, decimalDivideScaled a b precision = .ok rv ∧
        rv.toInt = round ((a.toInt * 10 ^ precision.toNat : ℚ) / b.toInt)) := by
  have hwide : precision ≤ 38 := by omega
  have hdivides := decimalDivideScaled_fits ha hb hwide
  refine ⟨mulWouldOverflow_pow10 ha hwide, ?_, ?_, hdivides⟩
  · refine ⟨fun h => ?_, fun hover => decimalDivideScaled_overflow ha hwide hover b⟩
    by_contra hfits
    obtain ⟨rv, hrv, -⟩ := hdivides (not_le.mp hfits)
    rw [hrv] at h
    cases h
  · refine ⟨?_, fun hover => ⟨_, decimalDivideScaled_overflow ha hwide hover b⟩⟩
    rintro ⟨e, he⟩
    by_contra hfits
    obtain ⟨rv, hrv, -⟩ := hdivides (not_le.mp hfits)
    rw [hrv] at he
    cases he

/-- Two thirds to four digits. -/
theorem decimalDivideScaled_exact_third :
    (∃ rv, decimalDivideScaled (.ofInt64 2) (.ofInt64 3) 4 = .ok rv ∧
      rv.toInt = round (((Int128.ofInt64 2).toInt * 10 ^ (4 : ℤ).toNat : ℚ) /
        (Int128.ofInt64 3).toInt)) ∧
    decimalDivideScaled (.ofInt64 2) (.ofInt64 3) 4 = .ok (.ofInt64 6667) :=
  ⟨(decimalDivideScaled_exact (by decide) (by decide) (by decide) (by decide)).2.2.2 (by decide),
    by decide +kernel⟩

end Resources

end Dwarfkit
