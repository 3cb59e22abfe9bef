/-
# 128-bit division, rounded

`dividing` rounds by the remainder: `round` compares twice the remainder with the
divisor, in 128 bits.  Twice a remainder of `2 ^ 127` or more does not fit, and the
comparison is made with what is left of it, which is always less than the divisor:
such a quotient is rounded down.  The magnitudes of signed integers are at most
`2 ^ 127`, so a signed division never gets there.

* `UInt128.roundsRight_iff`, `Int128.roundsRight` : when a quotient is rounded right;
* `division128_rounds_iff` : both.
-/
import Dwarfkit.Antelope.Chain.Arithmetic128

namespace Dwarfkit

open LongDivision

/-! ## What the behaviours say -/

/-- The exact quotient rounded: down, to the nearest with halves up, or up. -/
def rounded (behavior : DivisionBehavior) (exact : ℚ) : ℤ :=
  match behavior with
  | .floor => ⌊exact⌋
  | .round => round exact
  | .ceil => ⌈exact⌉

/-- Whether the remainder makes the quotient one more. -/
def RoundsUp (behavior : DivisionBehavior) (num den : ℕ) : Prop :=
  match behavior with
  | .floor => False
  | .round => den ≤ 2 * (num % den)
  | .ceil => num % den ≠ 0

instance (behavior : DivisionBehavior) (num den : ℕ) : Decidable (RoundsUp behavior num den) := by
  cases behavior <;> unfold RoundsUp <;> infer_instance

/-- The exact quotient of two numbers, rounded by their remainder. -/
theorem rounded_div (behavior : DivisionBehavior) (num : ℕ) {den : ℕ} (hden : 0 < den) :
    rounded behavior ((num : ℚ) / den) =
      ((num / den + if RoundsUp behavior num den then 1 else 0 : ℕ) : ℤ) := by
  cases behavior with
  | floor => exact floor_div num hden
  | round => exact round_div num hden
  | ceil =>
    refine (ceil_div num hden).trans ?_
    by_cases hzero : num % den = 0 <;> simp [RoundsUp, hzero]

/-- Only a divisor above one leaves a remainder. -/
theorem RoundsUp.two_le {behavior : DivisionBehavior} {num den : ℕ} (hden : 0 < den)
    (h : RoundsUp behavior num den) : 2 ≤ den := by
  have hlt : num % den < den := Nat.mod_lt _ hden
  have hpos : 0 < num % den := by
    cases behavior with
    | floor => exact h.elim
    | round =>
      have : den ≤ 2 * (num % den) := h
      omega
    | ceil => exact Nat.pos_of_ne_zero h
  omega

/-- A quotient that takes one more is at most half the number and one. -/
theorem RoundsUp.div_le {behavior : DivisionBehavior} {num den : ℕ} (hden : 0 < den)
    (h : RoundsUp behavior num den) : num / den ≤ num / 2 :=
  Nat.div_le_div_left (h.two_le hden) (by norm_num)

namespace UInt128

/-! ## The rounding step -/

/-- Twice a remainder, in 128 bits. -/
theorem toNat_doubled (rem : UInt128) :
    (UInt128.mk (rem.lo <<< 1) ((rem.hi <<< 1) ||| (rem.lo >>> 63))).toNat =
      2 * rem.toNat % 2 ^ 128 := by
  have hlo : (rem.lo <<< 1).toNat = (2 * rem.lo.toNat + 0) % 2 ^ 64 := toNat_shiftLeft_one rem.lo
  rw [toNat_shifted rem _ hlo (by norm_num), Nat.add_zero]

/-- Adding one to a quotient that is not the greatest. -/
theorem toNat_adding_one {quotient : UInt128} (h : quotient.toNat < 2 ^ 128 - 1) :
    (quotient.adding { lo := 1 }).toNat = quotient.toNat + 1 := by
  rw [toNat_adding, toNat_one, Nat.mod_eq_of_lt (by omega)]

/-- **The rounding step**, when twice the remainder fits. -/
theorem toNat_roundQuotient (num : UInt128) {den : UInt128} (hden : 0 < den.toNat)
    (behavior : DivisionBehavior)
    (hfits : behavior = .round → num.toNat % den.toNat < 2 ^ 127) :
    (roundQuotient (divmod128 num den).1 (divmod128 num den).2 den behavior).toNat =
      num.toNat / den.toNat + if RoundsUp behavior num.toNat den.toNat then 1 else 0 := by
  obtain ⟨hquotient, hrem⟩ := divmod128_spec num hden
  have hnum := num.toNat_lt
  have hone (h : RoundsUp behavior num.toNat den.toNat) :
      ((divmod128 num den).1.adding { lo := 1 }).toNat = num.toNat / den.toNat + 1 := by
    have := h.div_le hden
    rw [toNat_adding_one (by rw [hquotient]; omega), hquotient]
  cases behavior with
  | floor => rw [roundQuotient, if_neg (fun h : RoundsUp .floor _ _ => h), hquotient, Nat.add_zero]
  | round =>
    -- The only place where the remainder's size matters: doubling it must not wrap.
    have hdoubled : 2 * (divmod128 num den).2.toNat % 2 ^ 128 = 2 * (num.toNat % den.toNat) := by
      have := hfits rfl
      rw [hrem]
      omega
    rw [roundQuotient]
    simp only [le_iff, toNat_doubled, hdoubled]
    by_cases hup : RoundsUp .round num.toNat den.toNat
    · rw [if_pos hup, if_pos (show den.toNat ≤ 2 * (num.toNat % den.toNat) from hup), hone hup]
    · rw [if_neg hup, if_neg (show ¬ den.toNat ≤ 2 * (num.toNat % den.toNat) from hup), hquotient,
        Nat.add_zero]
  | ceil =>
    have hzero : (divmod128 num den).2 ≠ {} ↔ num.toNat % den.toNat ≠ 0 := by
      rw [Ne, eq_zero_iff, hrem]
    rw [roundQuotient]
    by_cases hup : RoundsUp .ceil num.toNat den.toNat
    · rw [if_pos hup, if_pos (hzero.mpr hup), hone hup]
    · rw [if_neg hup, if_neg (fun h => hup (hzero.mp h)), hquotient, Nat.add_zero]

/-- **The rounding step**, when twice the remainder does not fit: what is left of it
is less than the divisor. -/
theorem toNat_roundQuotient_wrapped (num : UInt128) {den : UInt128} (hden : 0 < den.toNat)
    (hwraps : 2 ^ 127 ≤ num.toNat % den.toNat) :
    (roundQuotient (divmod128 num den).1 (divmod128 num den).2 den .round).toNat =
      num.toNat / den.toNat := by
  obtain ⟨hquotient, hrem⟩ := divmod128_spec num hden
  have hlt : num.toNat % den.toNat < den.toNat := Nat.mod_lt _ hden
  have htop := den.toNat_lt
  have hdoubled : 2 * (divmod128 num den).2.toNat % 2 ^ 128 =
      2 * (num.toNat % den.toNat) - 2 ^ 128 := by
    rw [hrem]
    omega
  rw [roundQuotient]
  simp only [le_iff, toNat_doubled, hdoubled]
  rw [if_neg (by omega), hquotient]

/-! ## Unsigned division -/

/-- A division rounds right: its quotient is the exact one, rounded. -/
def RoundsRight (num den : UInt128) (behavior : DivisionBehavior) : Prop :=
  ∃ quotient, num.dividing den behavior = .ok quotient ∧
    (quotient.toNat : ℤ) = rounded behavior ((num.toNat : ℚ) / den.toNat)

theorem roundsRight (num : UInt128) {den : UInt128} (hden : den.toNat ≠ 0)
    {behavior : DivisionBehavior}
    (hfits : behavior = .round → num.toNat % den.toNat < 2 ^ 127) :
    num.RoundsRight den behavior := by
  have hpos := Nat.pos_of_ne_zero hden
  refine ⟨_, dividing_eq num hden behavior, ?_⟩
  rw [toNat_roundQuotient num hpos behavior hfits, rounded_div behavior _ hpos]

/-- A quotient that is to be rounded up is not. -/
theorem not_roundsRight {num den : UInt128} (hden : den.toNat ≠ 0)
    (hwraps : 2 ^ 127 ≤ num.toNat % den.toNat) : ¬ num.RoundsRight den .round := by
  have hpos := Nat.pos_of_ne_zero hden
  have htop := den.toNat_lt
  rintro ⟨quotient, hquotient, hexact⟩
  rw [dividing_eq num hden .round] at hquotient
  obtain rfl := Except.ok.inj hquotient
  have hup : RoundsUp .round num.toNat den.toNat := by
    show den.toNat ≤ 2 * (num.toNat % den.toNat)
    omega
  rw [toNat_roundQuotient_wrapped num hpos hwraps, rounded_div .round _ hpos, if_pos hup] at hexact
  omega

/-- **When an unsigned division rounds right.** -/
theorem roundsRight_iff (num : UInt128) {den : UInt128} (hden : den.toNat ≠ 0)
    (behavior : DivisionBehavior) :
    num.RoundsRight den behavior ↔ (behavior = .round → num.toNat % den.toNat < 2 ^ 127) := by
  constructor
  · rintro h rfl
    by_contra hge
    exact not_roundsRight hden (Nat.le_of_not_lt hge) h
  · exact roundsRight num hden

end UInt128

namespace Int128

/-! ## Signed division -/

/-- The exact quotient of the magnitudes, rounded, with the sign put on. -/
def signedRounded (behavior : DivisionBehavior) (a b : ℤ) : ℤ :=
  a.sign * b.sign * rounded behavior ((a.natAbs : ℚ) / b.natAbs)

/-- A signed division rounds right: its quotient is the exact one, rounded and with
the sign put on, but for the one that does not fit, which is reduced. -/
def RoundsRight (a b : Int128) (behavior : DivisionBehavior) : Prop :=
  ∃ rv, a.dividing b behavior = .ok rv ∧
    rv.toInt = (signedRounded behavior a.toInt b.toInt).bmod (2 ^ 128) ∧
    (¬ (a.toInt = -2 ^ 127 ∧ b.toInt = -1) → rv.toInt = signedRounded behavior a.toInt b.toInt)

/-- The quotient of the magnitudes is the magnitude of the quotient. -/
theorem natAbs_div_natAbs (a b : ℤ) : (a.natAbs : ℚ) / b.natAbs = |(a : ℚ) / b| := by
  rw [abs_div, Nat.cast_natAbs, Nat.cast_natAbs, Int.cast_abs, Int.cast_abs]

/-- A quotient that is not negative is rounded as it is. -/
theorem signedRounded_of_nonneg (behavior : DivisionBehavior) {a b : ℤ} (hb : b ≠ 0)
    (h : 0 ≤ (a : ℚ) / b) : signedRounded behavior a b = rounded behavior ((a : ℚ) / b) := by
  rw [signedRounded, natAbs_div_natAbs, abs_of_nonneg h]
  rcases eq_or_ne a 0 with rfl | ha
  · cases behavior with
    | floor => simp [rounded]
    | round => simp [rounded]
    | ceil => simp [rounded]
  · have hsign : a.sign * b.sign = 1 := by
      rw [← Int.sign_mul, Int.sign_eq_one_iff_pos]
      have hne : (a : ℚ) / b ≠ 0 := div_ne_zero (by exact_mod_cast ha) (by exact_mod_cast hb)
      have hpos : 0 < (a : ℚ) / b := lt_of_le_of_ne h hne.symm
      have hmul : 0 < (a : ℚ) * b := by
        rcases div_pos_iff.mp hpos with ⟨h1, h2⟩ | ⟨h1, h2⟩
        · exact mul_pos h1 h2
        · exact mul_pos_of_neg_of_neg h1 h2
      exact_mod_cast hmul
    rw [hsign, one_mul]

/-- A negative quotient is rounded by its magnitude. -/
theorem signedRounded_of_neg (behavior : DivisionBehavior) {a b : ℤ} (h : (a : ℚ) / b < 0) :
    signedRounded behavior a b = -rounded behavior (-((a : ℚ) / b)) := by
  have hsign : a.sign * b.sign = -1 := by
    rw [← Int.sign_mul, Int.sign_eq_neg_one_iff_neg]
    have hmul : (a : ℚ) * b < 0 := by
      rcases div_neg_iff.mp h with ⟨h1, h2⟩ | ⟨h1, h2⟩
      · exact mul_neg_of_pos_of_neg h1 h2
      · exact mul_neg_of_neg_of_pos h1 h2
    exact_mod_cast hmul
  rw [signedRounded, natAbs_div_natAbs, abs_of_neg h, hsign, neg_one_mul]

/-- A quotient that takes one more is far from the bounds; any other is truncated. -/
theorem signedRounded_bmod (a b : Int128) (hb : b.toInt ≠ 0) (behavior : DivisionBehavior)
    (h : ¬ (a.toInt = -2 ^ 127 ∧ b.toInt = -1)) :
    (signedRounded behavior a.toInt b.toInt).bmod (2 ^ 128) =
      signedRounded behavior a.toInt b.toInt := by
  obtain ⟨hlow, hhigh⟩ := a.toInt_bounds
  have hpos : 0 < b.toInt.natAbs := by omega
  rw [signedRounded, rounded_div behavior _ hpos]
  by_cases hup : RoundsUp behavior a.toInt.natAbs b.toInt.natAbs
  · have hle := hup.div_le hpos
    have hsmall : (a.toInt.sign * b.toInt.sign *
        ((a.toInt.natAbs / b.toInt.natAbs + 1 : ℕ) : ℤ)).natAbs ≤ 2 ^ 126 + 1 := by
      rw [Int.natAbs_mul, Int.natAbs_mul, Int.natAbs_natCast]
      have hsign (x : ℤ) : x.sign.natAbs ≤ 1 := by
        rw [Int.natAbs_sign]
        split <;> omega
      have hsigns : a.toInt.sign.natAbs * b.toInt.sign.natAbs ≤ 1 * 1 :=
        Nat.mul_le_mul (hsign a.toInt) (hsign b.toInt)
      calc a.toInt.sign.natAbs * b.toInt.sign.natAbs * (a.toInt.natAbs / b.toInt.natAbs + 1)
          ≤ 1 * (a.toInt.natAbs / b.toInt.natAbs + 1) := Nat.mul_le_mul_right _ hsigns
        _ ≤ 2 ^ 126 + 1 := by omega
    rw [if_pos hup]
    generalize a.toInt.sign * b.toInt.sign * _ = value at hsmall ⊢
    apply Int.bmod_eq_of_le
    · norm_num
      omega
    · norm_num
      omega
  · rw [if_neg hup, Nat.add_zero, ← tdiv_eq_sign_mul]
    exact tdiv_bmod a b hb h

/-- **A signed division rounds right**: a magnitude's remainder is below `2 ^ 127`. -/
theorem roundsRight (a : Int128) {b : Int128} (hb : b.toInt ≠ 0) (behavior : DivisionBehavior) :
    a.RoundsRight b behavior := by
  obtain ⟨hlow, hhigh⟩ := b.toInt_bounds
  have hpos : 0 < b.toInt.natAbs := by omega
  have hden : 0 < b.magnitude.toNat := by rwa [toNat_magnitude]
  have hfits : a.magnitude.toNat % b.magnitude.toNat < 2 ^ 127 := by
    have := Nat.mod_lt a.magnitude.toNat hden
    rw [toNat_magnitude b] at this ⊢
    omega
  have hquotient := UInt128.toNat_roundQuotient a.magnitude hden behavior (fun _ => hfits)
  have hlt := (UInt128.roundQuotient (UInt128.divmod128 a.magnitude b.magnitude).1
    (UInt128.divmod128 a.magnitude b.magnitude).2 b.magnitude behavior).toNat_lt
  obtain ⟨rv, hrv, hvalue⟩ : ∃ rv, a.dividing b behavior = .ok rv ∧
      rv.toInt = (signedRounded behavior a.toInt b.toInt).bmod (2 ^ 128) := by
    rw [signedRounded, rounded_div behavior _ hpos]
    apply dividing_eq a hb behavior
    · intro h
      have : ¬ RoundsUp behavior 0 b.toInt.natAbs := by
        cases behavior <;> simp [RoundsUp]
        omega
      rw [h, Int.natAbs_zero, if_neg this, Nat.zero_div]
    · rw [toNat_magnitude a, toNat_magnitude b] at hquotient
      rw [← hquotient]
      exact (Nat.mod_eq_of_lt hlt).symm
  refine ⟨rv, hrv, hvalue, fun h => ?_⟩
  rw [hvalue, signedRounded_bmod a b hb behavior h]

end Int128

/-! ## Both -/

/-- **128-bit division, rounded.**  An unsigned division rounds right for `floor` and
`ceil`, and for `round` exactly when the remainder is below `2 ^ 127`; a signed one
always does. -/
theorem division128_rounds_iff (num den : UInt128) (a b : Int128) (behavior : DivisionBehavior) :
    (den.toNat ≠ 0 →
      (num.RoundsRight den behavior ↔
        (behavior = .round → num.toNat % den.toNat < 2 ^ 127))) ∧
    (b.toInt ≠ 0 → a.RoundsRight b behavior) :=
  ⟨fun hden => UInt128.roundsRight_iff num hden behavior,
    fun hb => Int128.roundsRight a hb behavior⟩

theorem division128_rounds_iff_three :
    (UInt128.mk 2 0).toNat ≠ 0 ∧
    ((UInt128.mk 3 0).RoundsRight ⟨2, 0⟩ .round ↔
      (DivisionBehavior.round = .round → (UInt128.mk 3 0).toNat % (UInt128.mk 2 0).toNat < 2 ^ 127)) :=
  have hden : (UInt128.mk 2 0).toNat ≠ 0 := by decide
  ⟨hden, (division128_rounds_iff ⟨3, 0⟩ ⟨2, 0⟩ ⟨0, 0⟩ ⟨0, 0⟩ .round).1 hden⟩

/-- `2 ^ 128 - 2` by `2 ^ 128 - 1` is nearest to one, and comes out as zero. -/
theorem UInt128.not_roundsRight_top :
    ¬ (UInt128.mk 0xfffffffffffffffe 0xffffffffffffffff).RoundsRight
      ⟨0xffffffffffffffff, 0xffffffffffffffff⟩ .round :=
  UInt128.not_roundsRight (by decide) (by decide)

end Dwarfkit
