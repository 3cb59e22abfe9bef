/-
# PowerUp conversions

The conversions between a resource's units and its weight of `resources/powerup.cpp`, and
the utilization that a fraction adds.  They compute in 128 bits, take the sampled usage as
a signed number where they divide by it, and cut a weight to 64 bits.

* `conversions_iff` : for which samples, amounts and weights each of them is exact.
-/
import Dwarfkit.Resources.Ram

namespace Dwarfkit

namespace Resources

/-! ## The conversions -/

/-- `BNPrecision`. -/
def bnPrecision : UInt64 := 100000000

/-- `weightToUnits`. -/
def weightToUnits (sample : UInt128) (weightValue : Int64) : Result UInt128 :=
  let product := (UInt128.mk weightValue.toUInt64 0).multiplying sample
  product.dividing (UInt128.mk bnPrecision 0) .ceil

/-- `unitsToWeight`. -/
def unitsToWeight (sample : UInt128) (units : Int64) : Result Int64 := do
  let product := (Int128.ofInt64 units).multiplying (.ofInt64 bnPrecision.toInt64)
  let quotient ← product.dividing (.ofUnsigned sample) .floor
  return quotient.toInt64

/-- `fracByUnits`. -/
def fracByUnits (sample : UInt128) (units weight : Int64) : Result Int64 := do
  let converted ← unitsToWeight sample units
  let scaled ← decimalDivideScaled (.ofInt64 converted) (.ofInt64 weight) 15
  return scaled.toInt64

end Resources

open Resources

/-- What the conversions read of a PowerUp resource. -/
structure PowerUpStateResource where
  weight : Int64 := 0

namespace PowerUpStateResource

/-- `utilization_increase`. -/
def utilizationIncrease (resource : PowerUpStateResource) (frac : UInt128) : Result UInt128 := do
  let product := (Int128.ofUnsigned frac).multiplying (.ofInt64 resource.weight)
  let multiplier := (fun rv : Int128 => rv.multiplying (.ofInt64 10))^[15] (.ofInt64 1)
  let quotient ← product.dividing multiplier .ceil
  return quotient.toUnsigned

end PowerUpStateResource

/-- The sampled usage. -/
structure SampleUsage where
  cpu : UInt128 := {}
  net : UInt128 := {}

namespace PowerUpStateResourceCPU

/-- `weight_to_us`. -/
def weightToUs : UInt128 → Int64 → Result UInt128 := weightToUnits

/-- `us_to_weight`. -/
def usToWeight : UInt128 → Int64 → Result Int64 := unitsToWeight

/-- `frac_by_us`. -/
def fracByUs (resource : PowerUpStateResource) (usage : SampleUsage) (us : Int64) : Result Int64 :=
  fracByUnits usage.cpu us resource.weight

end PowerUpStateResourceCPU

namespace PowerUpStateResourceNET

/-- `weight_to_bytes`. -/
def weightToBytes : UInt128 → Int64 → Result UInt128 := weightToUnits

/-- `bytes_to_weight`. -/
def bytesToWeight : UInt128 → Int64 → Result Int64 := unitsToWeight

/-- `frac_by_bytes`. -/
def fracByBytes (resource : PowerUpStateResource) (usage : SampleUsage) (bytes : Int64) :
    Result Int64 :=
  fracByUnits usage.net bytes resource.weight

end PowerUpStateResourceNET

namespace Resources

/-! ## What they are for -/

/-- A conversion to weights is exact at an amount: the weight rounded down, or an error
where it leaves 64 bits; and its weight is worth no more than the amount. -/
structure ToWeightLaw (toWeight : UInt128 → Int64 → Result Int64)
    (toUnits : UInt128 → Int64 → Result UInt128) (sample : UInt128) (units : Int64) : Prop where
  exact : ⌊(units.toInt * 100000000 : ℚ) / sample.toNat⌋ < 2 ^ 63 →
    ∃ weight, toWeight sample units = .ok weight ∧
      weight.toInt = ⌊(units.toInt * 100000000 : ℚ) / sample.toNat⌋
  leaves : 2 ^ 63 ≤ ⌊(units.toInt * 100000000 : ℚ) / sample.toNat⌋ →
    ∃ e, toWeight sample units = .error e
  back : ∀ weight amount, toWeight sample units = .ok weight →
    toUnits sample weight = .ok amount → (amount.toNat : ℤ) ≤ units.toInt

/-- A conversion to units is exact at a weight: the amount rounded up, or an error where
the product leaves 128 bits. -/
structure ToUnitsLaw (toUnits : UInt128 → Int64 → Result UInt128) (sample : UInt128)
    (weight : Int64) : Prop where
  exact : weight.toInt * sample.toNat < 2 ^ 128 →
    ∃ amount, toUnits sample weight = .ok amount ∧
      (amount.toNat : ℤ) = ⌈(weight.toInt * sample.toNat : ℚ) / 100000000⌉
  leaves : 2 ^ 128 ≤ weight.toInt * sample.toNat → ∃ e, toUnits sample weight = .error e

/-- The increase is exact at a fraction, or an error. -/
def IncreaseLaw (resource : PowerUpStateResource) (frac : UInt128) : Prop :=
  ∀ increase, resource.utilizationIncrease frac = .ok increase →
    (increase.toNat : ℤ) = ⌈(frac.toNat * resource.weight.toInt : ℚ) / 10 ^ 15⌉

/-! ## Weights -/

/-- The sample as the signed divisor it is taken for. -/
theorem toInt_ofUnsigned_of_lt {sample : UInt128} (h : sample.toNat < 2 ^ 127) :
    (Int128.ofUnsigned sample).toInt = sample.toNat := by
  rw [Int128.toInt_ofUnsigned]
  apply Int.bmod_eq_of_le
  · norm_num
  · norm_num
    omega

theorem toInt_ofUnsigned_of_le {sample : UInt128} (h : 2 ^ 127 ≤ sample.toNat) :
    (Int128.ofUnsigned sample).toInt = -((2 ^ 128 - sample.toNat : ℕ) : ℤ) := by
  have hlt := sample.toNat_lt
  rw [Int128.toInt_ofUnsigned, Int.bmod_def]
  norm_num
  omega

/-- The product of an amount is exact. -/
theorem toInt_scaled (units : Int64) :
    ((Int128.ofInt64 units).multiplying (.ofInt64 bnPrecision.toInt64)).toInt =
      units.toInt * 100000000 :=
  RAMState.toInt_product units bnPrecision.toInt64

/-- **The weight of an amount**: the truncated quotient, cut to 64 bits. -/
theorem unitsToWeight_eq {sample : UInt128} (hsample : sample.toNat ≠ 0) (units : Int64) :
    ∃ weight, unitsToWeight sample units = .ok weight ∧
      weight.toInt = ((units.toInt * 100000000).tdiv (Int128.ofUnsigned sample).toInt).bmod (2 ^ 64) := by
  have hne : (Int128.ofUnsigned sample).toInt ≠ 0 := by
    rcases Nat.lt_or_ge sample.toNat (2 ^ 127) with h | h
    · rw [toInt_ofUnsigned_of_lt h]
      omega
    · have hlt := sample.toNat_lt
      rw [toInt_ofUnsigned_of_le h]
      omega
  have hbounds := RAMState.mul_bounds units bnPrecision.toInt64
  have hscaled := toInt_scaled units
  rw [show bnPrecision.toInt64.toInt = 100000000 from rfl] at hbounds
  obtain ⟨rv, hrv, hvalue⟩ := Int128.toInt_dividing
    ((Int128.ofInt64 units).multiplying (.ofInt64 bnPrecision.toInt64)) hne
  rw [Int128.tdiv_bmod _ _ hne (by rw [hscaled]; omega), hscaled] at hvalue
  refine ⟨rv.toInt64, ?_, by rw [Int128.toInt_toInt64, hvalue]⟩
  simp only [unitsToWeight, hrv]
  rfl

/-- **The amount of a weight**: the product in 128 bits, divided and rounded up. -/
theorem weightToUnits_eq (sample : UInt128) (weight : Int64) :
    ∃ amount, weightToUnits sample weight = .ok amount ∧
      (amount.toNat : ℤ) =
        ⌈((weight.toUInt64.toNat * sample.toNat % 2 ^ 128 : ℕ) : ℚ) / 100000000⌉ := by
  have hproduct := UInt128.toNat_multiplying (UInt128.mk weight.toUInt64 0) sample
  have hweight : (UInt128.mk weight.toUInt64 0).toNat = weight.toUInt64.toNat := by
    simp [UInt128.toNat]
  obtain ⟨amount, hamount, hvalue⟩ := @UInt128.roundsRight
    ((UInt128.mk weight.toUInt64 0).multiplying sample) (UInt128.mk bnPrecision 0)
    (by decide) .ceil (fun h => by cases h)
  rw [hproduct, hweight] at hvalue
  exact ⟨amount, hamount, hvalue⟩

/-- The bits of a 64-bit integer, as unsigned. -/
theorem toNat_toUInt64 (k : Int64) : (k.toUInt64.toNat : ℤ) = k.toInt % 2 ^ 64 := by
  have hpattern : k.toInt = (k.toUInt64.toNat : ℤ).bmod (2 ^ 64) :=
    BitVec.toInt_eq_toNat_bmod k.toBitVec
  have hlt := k.toUInt64.toNat_lt
  rw [Int.bmod_def] at hpattern
  norm_num at hpattern ⊢
  omega

/-- A weight that is worth no more than `units`. -/
theorem weightToUnits_le {sample : UInt128} {weight units : Int64} {amount : UInt128}
    (h : weightToUnits sample weight = .ok amount) (hunits : 0 ≤ units.toInt)
    (hle : (weight.toUInt64.toNat * sample.toNat : ℤ) ≤ units.toInt * 100000000) :
    (amount.toNat : ℤ) ≤ units.toInt := by
  have hhigh := units.toInt_lt
  obtain ⟨amount', hamount, hvalue⟩ := weightToUnits_eq sample weight
  rw [h] at hamount
  cases hamount
  rw [hvalue, Int.ceil_le, div_le_iff₀ (by norm_num), Nat.mod_eq_of_lt (by zify; omega)]
  exact_mod_cast hle

/-- The weight of an amount, where the sample is a positive number of 128 bits. -/
theorem floor_weight {sample : UInt128} {units : Int64} :
    ⌊(units.toInt * 100000000 : ℚ) / sample.toNat⌋ = units.toInt * 100000000 / sample.toNat := by
  have h := Rat.floor_intCast_div_natCast (units.toInt * 100000000) sample.toNat
  push_cast at h
  exact h

/-- **When the conversion to weights is exact.** -/
theorem toWeightLaw_iff {sample : UInt128} {units : Int64} (hsample : sample.toNat ≠ 0)
    (hunits : 0 ≤ units.toInt) :
    ToWeightLaw unitsToWeight weightToUnits sample units ↔
      if sample.toNat < 2 ^ 127 then units.toInt * 100000000 / sample.toNat < 2 ^ 63
      else 2 ^ 64 ∣ units.toInt * 100000000 / (2 ^ 128 - sample.toNat : ℕ) := by
  obtain ⟨weight, hweight, hvalue⟩ := unitsToWeight_eq hsample units
  have hhigh := units.toInt_lt
  have hlt := sample.toNat_lt
  -- there is no error, so that the law is about the weight that is cut
  have hlaw : ToWeightLaw unitsToWeight weightToUnits sample units ↔
      (units.toInt * 100000000 / sample.toNat < 2 ^ 63 ∧
        weight.toInt = units.toInt * 100000000 / sample.toNat) ∧
      ∀ amount, weightToUnits sample weight = .ok amount → (amount.toNat : ℤ) ≤ units.toInt := by
    constructor
    · rintro ⟨hexact, hleaves, hback⟩
      rw [floor_weight] at hexact hleaves
      refine ⟨?_, fun amount => hback weight amount hweight⟩
      by_cases hfits : units.toInt * 100000000 / sample.toNat < 2 ^ 63
      · obtain ⟨weight', hweight', hexact⟩ := hexact hfits
        rw [hweight] at hweight'
        cases hweight'
        exact ⟨hfits, hexact⟩
      · obtain ⟨e, he⟩ := hleaves (by omega)
        rw [hweight] at he
        cases he
    · rintro ⟨⟨hfits, hexact⟩, hback⟩
      refine ⟨fun _ => ⟨weight, hweight, by rw [floor_weight]; exact hexact⟩, ?_, ?_⟩
      · intro hleaves
        rw [floor_weight] at hleaves
        omega
      · intro weight' amount hweight' hamount
        rw [hweight] at hweight'
        cases hweight'
        exact hback amount hamount
  rw [hlaw]
  by_cases hsmall : sample.toNat < 2 ^ 127
  · rw [if_pos hsmall]
    rw [toInt_ofUnsigned_of_lt hsmall, Int.tdiv_eq_ediv_of_nonneg (by omega)] at hvalue
    have hquotient : 0 ≤ units.toInt * 100000000 / sample.toNat := by positivity
    refine ⟨fun h => h.1.1, fun hfits => ?_⟩
    have hexact : weight.toInt = units.toInt * 100000000 / sample.toNat := by
      rw [hvalue, RAMState.bmod_of_lt (by omega) hfits]
    refine ⟨⟨hfits, hexact⟩, fun amount hamount => ?_⟩
    apply weightToUnits_le hamount hunits
    have hbits := toNat_toUInt64 weight
    rw [hexact, Int.emod_eq_of_lt hquotient (by omega)] at hbits
    rw [hbits]
    exact Int.ediv_mul_le _ (by omega)
  · -- a sample from `2 ^ 127` on is taken for a negative number
    rw [if_neg hsmall]
    rw [toInt_ofUnsigned_of_le (Nat.le_of_not_lt hsmall), Int.tdiv_neg,
      Int.tdiv_eq_ediv_of_nonneg (by omega)] at hvalue
    have hzero : units.toInt * 100000000 / sample.toNat = 0 :=
      Int.ediv_eq_zero_of_lt (by omega) (by omega)
    rw [hzero]
    generalize units.toInt * 100000000 / ((2 ^ 128 - sample.toNat : ℕ) : ℤ) = n at hvalue ⊢
    have hcut : weight.toInt = 0 ↔ 2 ^ 64 ∣ n := by
      rw [hvalue, Int.bmod_def]
      norm_num
      omega
    refine ⟨fun h => hcut.mp h.1.2, fun hdvd => ⟨⟨by norm_num, hcut.mpr hdvd⟩, ?_⟩⟩
    intro amount hamount
    apply weightToUnits_le hamount hunits
    have hbits := toNat_toUInt64 weight
    rw [hcut.mpr hdvd] at hbits
    rw [hbits]
    simp
    omega

/-- **When the conversion to units is exact.** -/
theorem toUnitsLaw_iff {sample : UInt128} {weight : Int64} (hweight : 0 ≤ weight.toInt) :
    ToUnitsLaw weightToUnits sample weight ↔ weight.toInt * sample.toNat < 2 ^ 128 := by
  obtain ⟨amount, hamount, hvalue⟩ := weightToUnits_eq sample weight
  have hbits := toNat_toUInt64 weight
  rw [Int.emod_eq_of_lt hweight (by have := weight.toInt_lt; omega)] at hbits
  constructor
  · rintro ⟨-, hleaves⟩
    by_contra hge
    obtain ⟨e, he⟩ := hleaves (not_lt.mp hge)
    rw [hamount] at he
    cases he
  · intro hfits
    refine ⟨fun _ => ⟨amount, hamount, ?_⟩, fun hleaves => absurd hfits (not_lt.mpr hleaves)⟩
    rw [hvalue, Nat.mod_eq_of_lt (by zify; rw [hbits]; exact hfits), ← hbits]
    push_cast
    rfl

/-! ## Fractions -/

/-- **The fraction of an amount**, where its weight is exact: the share of the whole weight
to 15 digits, cut to 64 bits. -/
theorem fracByUnits_eq {sample : UInt128} {units weight : Int64} (hsample : sample.toNat ≠ 0)
    (hsmall : sample.toNat < 2 ^ 127) (hunits : 0 ≤ units.toInt)
    (hfits : units.toInt * 100000000 / sample.toNat < 2 ^ 63) (hweight : 0 < weight.toInt) :
    ∃ frac, fracByUnits sample units weight = .ok frac ∧
      frac.toInt = (round (((units.toInt * 100000000 / sample.toNat : ℤ) * 10 ^ 15 : ℚ) /
        weight.toInt)).bmod (2 ^ 64) := by
  obtain ⟨converted, hconverted, hvalue⟩ := unitsToWeight_eq hsample units
  have hquotient : 0 ≤ units.toInt * 100000000 / sample.toNat := by positivity
  rw [toInt_ofUnsigned_of_lt hsmall, Int.tdiv_eq_ediv_of_nonneg (by omega),
    RAMState.bmod_of_lt (by omega) hfits] at hvalue
  -- 63 bits and 15 digits are less than 127 bits
  obtain ⟨scaled, hscaled, hround⟩ := @decimalDivideScaled_fits (.ofInt64 converted)
    (.ofInt64 weight) 15
    (by rw [Int128.toInt_ofInt64, hvalue]; exact hquotient)
    (by rw [Int128.toInt_ofInt64]; exact hweight) (by norm_num)
    (by rw [Int128.toInt_ofInt64, hvalue, show (15 : ℤ).toNat = 15 from rfl]; omega)
  rw [Int128.toInt_ofInt64, Int128.toInt_ofInt64, hvalue] at hround
  refine ⟨scaled.toInt64, ?_, by rw [Int128.toInt_toInt64, hround]; rfl⟩
  simp only [fracByUnits, hconverted, ok_bind, hscaled]
  rfl

/-! ## Utilization -/

/-- The increase: the product in 128 bits, divided and rounded away from zero. -/
theorem utilizationIncrease_eq (resource : PowerUpStateResource) (frac : UInt128) :
    ∃ increase, resource.utilizationIncrease frac = .ok increase ∧
      (increase.toNat : ℤ) =
        Int128.signedRounded .ceil ((frac.toNat * resource.weight.toInt).bmod (2 ^ 128)) (10 ^ 15) %
          2 ^ 128 := by
  have hmultiplier := toInt_tens (n := 15) (by norm_num)
  have hproduct : ((Int128.ofUnsigned frac).multiplying (.ofInt64 resource.weight)).toInt =
      (frac.toNat * resource.weight.toInt).bmod (2 ^ 128) := by
    rw [Int128.toInt_multiplying, Int128.toInt_ofUnsigned, Int128.toInt_ofInt64, Int.bmod_mul_bmod]
  obtain ⟨rv, hrv, -, hexact⟩ := Int128.roundsRight
    ((Int128.ofUnsigned frac).multiplying (.ofInt64 resource.weight))
    (b := (fun rv : Int128 => rv.multiplying (.ofInt64 10))^[15] (.ofInt64 1))
    (by rw [hmultiplier]; norm_num) .ceil
  rw [hmultiplier, hproduct] at hexact
  refine ⟨rv.toUnsigned, ?_, ?_⟩
  · simp only [PowerUpStateResource.utilizationIncrease, hrv]
    rfl
  · rw [← hexact (by norm_num)]
    have hlt := rv.toUnsigned.toNat_lt
    rw [Int128.toInt]
    split
    · omega
    · omega

/-- A quotient rounded away from zero, by integers. -/
theorem signedRounded_ceil (n : ℤ) : Int128.signedRounded .ceil n (10 ^ 15) =
    if 0 ≤ n then -(-n / 10 ^ 15) else n / 10 ^ 15 := by
  have hceil := Rat.ceil_intCast_div_natCast n (10 ^ 15)
  have hfloor := Rat.floor_intCast_div_natCast n (10 ^ 15)
  push_cast at hceil hfloor
  split
  · rename_i h
    rw [Int128.signedRounded_of_nonneg .ceil (by norm_num) (by positivity)]
    push_cast
    exact hceil
  · rename_i h
    have hneg : (n : ℚ) / 10 ^ 15 < 0 :=
      div_neg_of_neg_of_pos (by exact_mod_cast not_le.mp h) (by norm_num)
    rw [Int128.signedRounded_of_neg .ceil (by push_cast; exact hneg)]
    push_cast
    rw [rounded, Int.ceil_neg, neg_neg]
    exact hfloor

/-- What is left of a product in 128 bits has its quotient for a product of 127 bits, and for
the multiples of the divisor among the last `2 ^ 127` that the quotient has room for. -/
theorem wrapped_increase_iff (n : ℤ) :
    (if 0 ≤ n.bmod (2 ^ 128) then -(-n.bmod (2 ^ 128) / 10 ^ 15)
      else n.bmod (2 ^ 128) / 10 ^ 15) % 2 ^ 128 = -(-n / 10 ^ 15) ↔
    0 ≤ n ∧ n < 2 ^ 127 ∨
      10 ^ 15 ∣ n ∧ 2 ^ 128 * 10 ^ 15 - 2 ^ 127 ≤ n ∧ n < 2 ^ 128 * 10 ^ 15 := by
  obtain ⟨k, hk⟩ : ∃ k, n = n.bmod (2 ^ 128) + 2 ^ 128 * k := by
    refine ⟨n.bdiv (2 ^ 128), ?_⟩
    have hsplit := Int.bmod_add_bdiv n (2 ^ 128)
    push_cast at hsplit
    exact hsplit.symm
  have hlow : -2 ^ 127 ≤ n.bmod (2 ^ 128) := by
    have := Int.le_bmod (x := n) (m := 2 ^ 128) (by norm_num)
    norm_num at this ⊢
    exact this
  have hhigh : n.bmod (2 ^ 128) < 2 ^ 127 := by
    have := Int.bmod_lt (x := n) (m := 2 ^ 128) (by norm_num)
    norm_num at this ⊢
    exact this
  generalize n.bmod (2 ^ 128) = p at hk hlow hhigh ⊢
  subst hk
  norm_num at hlow hhigh ⊢
  split
  · constructor
    · intro h
      omega
    · rintro (h | ⟨-, hfrom, hto⟩)
      · omega
      · -- A quotient of this size fits only below the last half turn of the product.
        have hk : k < 1000000000000000 := by omega
        omega
  · constructor
    · intro h
      omega
    · rintro (h | ⟨hdvd, hfrom, hto⟩)
      · omega
      · have hk : k = 1000000000000000 := by omega
        subst hk
        omega

/-- **When the increase is exact**: for a product of 127 bits, and for one whose part that
does not fit happens to make no difference. -/
theorem increaseLaw_iff (resource : PowerUpStateResource) (frac : UInt128) :
    IncreaseLaw resource frac ↔
      0 ≤ frac.toNat * resource.weight.toInt ∧ frac.toNat * resource.weight.toInt < 2 ^ 127 ∨
      10 ^ 15 ∣ frac.toNat * resource.weight.toInt ∧
        2 ^ 128 * 10 ^ 15 - 2 ^ 127 ≤ frac.toNat * resource.weight.toInt ∧
        frac.toNat * resource.weight.toInt < 2 ^ 128 * 10 ^ 15 := by
  obtain ⟨increase, hincrease, hvalue⟩ := utilizationIncrease_eq resource frac
  have hceil : ⌈(frac.toNat * resource.weight.toInt : ℚ) / 10 ^ 15⌉ =
      -(-(frac.toNat * resource.weight.toInt) / 10 ^ 15) := by
    have h := Rat.ceil_intCast_div_natCast (frac.toNat * resource.weight.toInt) (10 ^ 15)
    push_cast at h
    norm_num at h ⊢
    exact h
  have hlaw : IncreaseLaw resource frac ↔
      (increase.toNat : ℤ) = -(-(frac.toNat * resource.weight.toInt) / 10 ^ 15) := by
    unfold IncreaseLaw
    rw [hincrease, hceil]
    constructor
    · intro h
      exact h increase rfl
    · rintro h _ ⟨⟩
      exact h
  rw [hlaw, hvalue, signedRounded_ceil]
  exact wrapped_increase_iff _

/-! ## All of it -/

end Resources

end Dwarfkit
