/-
# 128-bit multiplication and division

The 128-bit types compute on their two halves.  Every operation is read off as one
on the numbers the halves stand for, modulo `2 ^ 128`: the product through four
partial products, the quotient and the remainder through the loop over the 128 bits.
The remainder of that loop is shifted in 128 bits, and no divisor makes it lose its
top bit, since it is never more than the bits taken in before.

* `UInt128.toNat_multiplying`, `Int128.toInt_multiplying` : the products;
* `UInt128.divmod128_spec`, `Int128.toInt_dividing` : the quotients;
* `arithmetic128_exact` : all of it.
-/
import Dwarfkit.Antelope.Chain.Name
import Dwarfkit.Antelope.Chain.Integer
import Dwarfkit.Library.LongDivision

namespace Dwarfkit

open LongDivision

namespace UInt128

/-! ## The halves of a number -/

theorem toNat_lt (v : UInt128) : v.toNat < 2 ^ 128 := by
  have hlo := v.lo.toNat_lt
  have hhi := v.hi.toNat_lt
  rw [toNat]
  omega

/-- The halves are known by the number they stand for. -/
theorem toNat_injective : Function.Injective toNat := by
  rintro ⟨alo, ahi⟩ ⟨blo, bhi⟩ h
  have ha := alo.toNat_lt
  have hb := blo.toNat_lt
  simp only [toNat] at h
  have hlo : alo = blo := UInt64.toNat_inj.mp (by omega)
  have hhi : ahi = bhi := UInt64.toNat_inj.mp (by omega)
  rw [hlo, hhi]

@[simp]
theorem toNat_zero : ({} : UInt128).toNat = 0 := rfl

@[simp]
theorem toNat_one : ({ lo := 1 } : UInt128).toNat = 1 := rfl

theorem eq_zero_iff (v : UInt128) : v = {} ↔ v.toNat = 0 :=
  ⟨fun h => by rw [h, toNat_zero], fun h => toNat_injective (by rw [h, toNat_zero])⟩

/-- A number's halves stand for it modulo `2 ^ 128`. -/
theorem toNat_ofNat (n : ℕ) : (ofNat n).toNat = n % 2 ^ 128 := by
  rw [toNat, ofNat, UInt64.toNat_ofNat', UInt64.toNat_ofNat']
  omega

@[simp]
theorem ofNat_toNat (v : UInt128) : ofNat v.toNat = v := by
  apply toNat_injective
  rw [toNat_ofNat, Nat.mod_eq_of_lt v.toNat_lt]

/-! ## Sums, differences and comparisons -/

theorem toNat_adding (a b : UInt128) : (a.adding b).toNat = (a.toNat + b.toNat) % 2 ^ 128 := by
  have halo := a.lo.toNat_lt
  have hblo := b.lo.toNat_lt
  have hahi := a.hi.toNat_lt
  have hbhi := b.hi.toNat_lt
  simp only [adding, toNat, UInt64.lt_iff_toNat_lt, UInt64.toNat_add]
  split
  · rw [UInt64.toNat_add, UInt64.toNat_add, UInt64.toNat_one]
    omega
  · rw [UInt64.toNat_add]
    omega

/-- Taking away no more than there is borrows between the halves only. -/
theorem toNat_subtracting {a b : UInt128} (h : b.toNat ≤ a.toNat) :
    (a.subtracting b).toNat = a.toNat - b.toNat := by
  have halo := a.lo.toNat_lt
  have hblo := b.lo.toNat_lt
  have hahi := a.hi.toNat_lt
  have hbhi := b.hi.toNat_lt
  simp only [toNat] at h
  simp only [subtracting, toNat, UInt64.lt_iff_toNat_lt, UInt64.toNat_sub]
  split
  · rw [UInt64.toNat_sub, UInt64.toNat_sub, UInt64.toNat_one]
    omega
  · rw [UInt64.toNat_sub]
    omega

theorem le_iff (a b : UInt128) : a.le b = true ↔ a.toNat ≤ b.toNat := by
  have halo := a.lo.toNat_lt
  have hblo := b.lo.toNat_lt
  simp only [le, decide_eq_true_eq, toNat, UInt64.lt_iff_toNat_lt, UInt64.le_iff_toNat_le,
    ← UInt64.toNat_inj]
  omega

/-! ## Products -/

/-- The low half of a word. -/
theorem toNat_and_low (a : UInt64) : (a &&& 0xffffffff).toNat = a.toNat % 2 ^ 32 := by
  rw [UInt64.toNat_and]
  exact Nat.and_two_pow_sub_one_eq_mod a.toNat 32

/-- The high half of a word. -/
theorem toNat_shiftRight_half (a : UInt64) : (a >>> 32).toNat = a.toNat / 2 ^ 32 := by
  rw [UInt64.toNat_shiftRight]
  exact Nat.shiftRight_eq_div_pow _ _

/-- A word moved up by half its width. -/
theorem toNat_shiftLeft_half (a : UInt64) : (a <<< 32).toNat = a.toNat * 2 ^ 32 % 2 ^ 64 := by
  rw [UInt64.toNat_shiftLeft]
  exact congrArg (· % 2 ^ 64) (Nat.shiftLeft_eq _ _)

/-- Half words multiply without a carry. -/
theorem toNat_mul_halves {x y : UInt64} (hx : x.toNat < 2 ^ 32) (hy : y.toNat < 2 ^ 32) :
    (x * y).toNat = x.toNat * y.toNat ∧ x.toNat * y.toNat ≤ (2 ^ 32 - 1) * (2 ^ 32 - 1) := by
  have hle : x.toNat * y.toNat ≤ (2 ^ 32 - 1) * (2 ^ 32 - 1) :=
    Nat.mul_le_mul (by omega) (by omega)
  exact ⟨by rw [UInt64.toNat_mul, Nat.mod_eq_of_lt (by omega)], hle⟩

/-- The sum of the partial products: of the two carries into the high half, none
is lost. -/
theorem toNat_partials {p0 p1 p2 p3 : UInt64} (h0 : p0.toNat ≤ (2 ^ 32 - 1) * (2 ^ 32 - 1))
    (h1 : p1.toNat ≤ (2 ^ 32 - 1) * (2 ^ 32 - 1)) (h2 : p2.toNat ≤ (2 ^ 32 - 1) * (2 ^ 32 - 1))
    (h3 : p3.toNat ≤ (2 ^ 32 - 1) * (2 ^ 32 - 1)) :
    let lo := p0 + (p1 <<< 32)
    let carry : UInt64 := if lo < p0 then 1 else 0
    let lo2 := lo + (p2 <<< 32)
    let carry2 := if lo2 < lo then carry + 1 else carry
    (p3 + (p1 >>> 32) + (p2 >>> 32) + carry2).toNat * 2 ^ 64 + lo2.toNat =
      p3.toNat * 2 ^ 64 + (p1.toNat + p2.toNat) * 2 ^ 32 + p0.toNat := by
  intro lo carry lo2 carry2
  have hlo : lo.toNat = (p0.toNat + p1.toNat * 2 ^ 32 % 2 ^ 64) % 2 ^ 64 := by
    rw [UInt64.toNat_add, toNat_shiftLeft_half]
  have hcarry : carry.toNat = if lo.toNat < p0.toNat then 1 else 0 := by
    simp only [carry, UInt64.lt_iff_toNat_lt]
    split <;> rfl
  have hlo2 : lo2.toNat = (lo.toNat + p2.toNat * 2 ^ 32 % 2 ^ 64) % 2 ^ 64 := by
    rw [UInt64.toNat_add, toNat_shiftLeft_half]
  have hcarry2 : carry2.toNat = carry.toNat + if lo2.toNat < lo.toNat then 1 else 0 := by
    have hle : carry.toNat ≤ 1 := by
      rw [hcarry]
      split <;> omega
    simp only [carry2, UInt64.lt_iff_toNat_lt]
    split
    · rw [UInt64.toNat_add, UInt64.toNat_one, Nat.mod_eq_of_lt (by omega)]
    · rfl
  -- One case for each of the two carries, taken or not.
  rw [UInt64.toNat_add, UInt64.toNat_add, UInt64.toNat_add, toNat_shiftRight_half,
    toNat_shiftRight_half, hcarry2, hcarry]
  split <;> split <;> omega

/-- **Four partial products with their two carries are the product.** -/
theorem toNat_mul64 (a b : UInt64) : (mul64 a b).toNat = a.toNat * b.toNat := by
  have ha := a.toNat_lt
  have hb := b.toNat_lt
  have haLo : (a &&& 0xffffffff).toNat < 2 ^ 32 := by rw [toNat_and_low]; omega
  have haHi : (a >>> 32).toNat < 2 ^ 32 := by rw [toNat_shiftRight_half]; omega
  have hbLo : (b &&& 0xffffffff).toNat < 2 ^ 32 := by rw [toNat_and_low]; omega
  have hbHi : (b >>> 32).toNat < 2 ^ 32 := by rw [toNat_shiftRight_half]; omega
  obtain ⟨h0, hle0⟩ := toNat_mul_halves haLo hbLo
  obtain ⟨h1, hle1⟩ := toNat_mul_halves haLo hbHi
  obtain ⟨h2, hle2⟩ := toNat_mul_halves haHi hbLo
  obtain ⟨h3, hle3⟩ := toNat_mul_halves haHi hbHi
  rw [← h0] at hle0
  rw [← h1] at hle1
  rw [← h2] at hle2
  rw [← h3] at hle3
  have hsum := toNat_partials hle0 hle1 hle2 hle3
  have hasplit : a.toNat = a.toNat / 2 ^ 32 * 2 ^ 32 + a.toNat % 2 ^ 32 := by omega
  have hbsplit : b.toNat = b.toNat / 2 ^ 32 * 2 ^ 32 + b.toNat % 2 ^ 32 := by omega
  rw [mul64, toNat]
  refine hsum.trans ?_
  rw [h0, h1, h2, h3, toNat_and_low, toNat_and_low, toNat_shiftRight_half, toNat_shiftRight_half]
  conv_rhs => rw [hasplit, hbsplit]
  ring

/-- **`multiplying` is the product modulo `2 ^ 128`.** -/
theorem toNat_multiplying (a b : UInt128) :
    (a.multiplying b).toNat = a.toNat * b.toNat % 2 ^ 128 := by
  have hlow := toNat_mul64 a.lo b.lo
  have hlo := (mul64 a.lo b.lo).lo.toNat_lt
  have hmod : ∀ c high low rest : ℕ, low < 2 ^ 64 →
      (c + high % 2 ^ 64) % 2 ^ 64 * 2 ^ 64 + low =
        (c * 2 ^ 64 + low + high * 2 ^ 64 + rest * 2 ^ 128) % 2 ^ 128 := by
    intro c high low rest hlow
    omega
  rw [toNat] at hlow
  -- The product of the two high halves is never computed: it is a multiple of `2 ^ 128`.
  have hcross : (a.lo * b.hi + a.hi * b.lo).toNat =
      (a.lo.toNat * b.hi.toNat + a.hi.toNat * b.lo.toNat) % 2 ^ 64 := by
    rw [UInt64.toNat_add, UInt64.toNat_mul, UInt64.toNat_mul, ← Nat.add_mod]
  calc (a.multiplying b).toNat
      = ((mul64 a.lo b.lo).hi.toNat +
          (a.lo.toNat * b.hi.toNat + a.hi.toNat * b.lo.toNat) % 2 ^ 64) % 2 ^ 64 * 2 ^ 64 +
          (mul64 a.lo b.lo).lo.toNat := by
        rw [multiplying, toNat, UInt64.toNat_add, hcross]
    _ = _ := hmod _ _ _ (a.hi.toNat * b.hi.toNat) hlo
    _ = a.toNat * b.toNat % 2 ^ 128 := by
        have hexact : (mul64 a.lo b.lo).hi.toNat * 2 ^ 64 + (mul64 a.lo b.lo).lo.toNat +
            (a.lo.toNat * b.hi.toNat + a.hi.toNat * b.lo.toNat) * 2 ^ 64 +
            a.hi.toNat * b.hi.toNat * 2 ^ 128 = a.toNat * b.toNat := by
          rw [hlow, toNat, toNat]
          ring
        rw [hexact]

/-! ## Bits -/

/-- Bit `i` of a 128-bit integer. -/
theorem toNat_bit (v : UInt128) {i : ℕ} (hi : i < 128) : (v.bit i).toNat = v.toNat / 2 ^ i % 2 := by
  have hlo := v.lo.toNat_lt
  rw [bit, toNat]
  split
  · rename_i hge
    obtain ⟨k, rfl⟩ : ∃ k, i = 64 + k := ⟨i - 64, by omega⟩
    rw [Nat.add_sub_cancel_left, Dwarfkit.toNat_bit _ _ (by omega), pow_add, ← Nat.div_div_eq_div_mul]
    congr 2
    omega
  · rename_i hlt
    obtain ⟨k, hk⟩ : ∃ k, 64 = i + (k + 1) := ⟨63 - i, by omega⟩
    rw [Dwarfkit.toNat_bit _ _ (by omega)]
    have hpow : v.hi.toNat * 2 ^ 64 = 2 ^ i * (2 * (v.hi.toNat * 2 ^ k)) := by
      rw [hk, pow_add, pow_succ]
      ring
    rw [hpow, Nat.mul_add_div (Nat.two_pow_pos i), Nat.mul_add_mod]

/-- A bit that is not set yet, nor any below it, is added. -/
theorem toNat_or_bit (w : UInt64) {k : ℕ} (hk : k < 64) (h : w.toNat % 2 ^ (k + 1) = 0) :
    (w ||| (1 <<< k.toUInt64)).toNat = w.toNat + 2 ^ k := by
  have hshift : (k.toUInt64).toNat % 64 = k := by
    simp only [Nat.toUInt64, UInt64.toNat_ofNat']
    omega
  have hpow : 2 ^ k < 2 ^ 64 := Nat.pow_lt_pow_right (by norm_num) hk
  have hfit : 2 ^ k < 2 ^ (k + 1) := Nat.pow_lt_pow_right (by norm_num) (by omega)
  obtain ⟨q, hq⟩ := Nat.dvd_of_mod_eq_zero h
  rw [UInt64.toNat_or, UInt64.toNat_shiftLeft, hshift, UInt64.toNat_one, Nat.one_shiftLeft,
    Nat.mod_eq_of_lt hpow, hq, Nat.mul_comm, ← Nat.shiftLeft_eq, ← Nat.shiftLeft_add_eq_or_of_lt hfit]

/-- Setting bit `i` above bits that are all clear. -/
theorem toNat_setBit {v : UInt128} {i : ℕ} (hi : i < 128) (h : v.toNat % 2 ^ (i + 1) = 0) :
    (v.setBit i).toNat = v.toNat + 2 ^ i := by
  have hlo := v.lo.toNat_lt
  rw [toNat] at h
  rw [setBit]
  split
  · rename_i hge
    -- Bits 64 and up are in the high half, where the bit is `i - 64`.
    obtain ⟨k, rfl⟩ : ∃ k, i = 64 + k := ⟨i - 64, by omega⟩
    have hhigh : v.hi.toNat % 2 ^ (k + 1) = 0 := by
      obtain ⟨q, hq⟩ := Nat.dvd_of_mod_eq_zero h
      rw [Nat.add_assoc, pow_add, Nat.mul_assoc] at hq
      have : v.hi.toNat = 2 ^ (k + 1) * q := by omega
      rw [this, Nat.mul_mod_right]
    rw [Nat.add_sub_cancel_left]
    simp only [toNat]
    rw [toNat_or_bit _ (by omega) hhigh, pow_add]
    ring
  · rename_i hlt
    have hlow : v.lo.toNat % 2 ^ (i + 1) = 0 := by
      obtain ⟨k, hk⟩ : ∃ k, 64 = i + 1 + k := ⟨63 - i, by omega⟩
      have hpow : v.hi.toNat * 2 ^ 64 = 2 ^ (i + 1) * (v.hi.toNat * 2 ^ k) := by
        rw [hk, pow_add]
        ring
      rwa [hpow, Nat.mul_add_mod] at h
    simp only [toNat]
    rw [toNat_or_bit _ (by omega) hlow, Nat.add_assoc]

/-- A word moved up by one bit. -/
theorem toNat_shiftLeft_one (w : UInt64) : (w <<< 1).toNat = 2 * w.toNat % 2 ^ 64 := by
  rw [UInt64.toNat_shiftLeft, Nat.mul_comm]
  exact congrArg (· % 2 ^ 64) (Nat.shiftLeft_eq _ _)

/-- A word moved up by one bit, and the bit that comes in below. -/
theorem toNat_shiftLeft_or (w bit : UInt64) (hbit : bit.toNat < 2) :
    ((w <<< 1) ||| bit).toNat = (2 * w.toNat + bit.toNat) % 2 ^ 64 := by
  have hlt : bit.toNat < 2 ^ 1 := by omega
  have heven : 2 * w.toNat % 2 ^ 64 = (w.toNat % 2 ^ 63) <<< 1 := by
    rw [Nat.shiftLeft_eq]
    omega
  rw [UInt64.toNat_or, toNat_shiftLeft_one, heven, ← Nat.shiftLeft_add_eq_or_of_lt hlt, ← heven]
  omega

/-- The top bit of the low half. -/
theorem toNat_shiftRight_top (w : UInt64) : (w >>> 63).toNat = w.toNat / 2 ^ 63 := by
  rw [UInt64.toNat_shiftRight]
  exact Nat.shiftRight_eq_div_pow _ _

/-- Moving both halves up by one bit: the top bit is lost. -/
theorem toNat_shifted (v : UInt128) (lo : UInt64) {bit : ℕ}
    (hlo : lo.toNat = (2 * v.lo.toNat + bit) % 2 ^ 64) (hbit : bit < 2) :
    ({ lo, hi := (v.hi <<< 1) ||| (v.lo >>> 63) } : UInt128).toNat =
      (2 * v.toNat + bit) % 2 ^ 128 := by
  have hv := v.lo.toNat_lt
  have htop : (v.lo >>> 63).toNat < 2 := by
    rw [toNat_shiftRight_top]
    omega
  simp only [toNat]
  rw [toNat_shiftLeft_or _ _ htop, toNat_shiftRight_top, hlo]
  omega

/-! ## Quotient and remainder -/

/-- **The loop of `divmod128`**, by induction on the bits still to come: the
remainder is below `2 ^ 127` before each shift, whatever the divisor. -/
theorem divmodLoop_spec {num den : UInt128} (hden : 0 < den.toNat) {i : ℕ} (hi : i ≤ 128)
    {quotient rem : UInt128}
    (h : BitDivision num.toNat den.toNat i quotient.toNat rem.toNat) :
    (divmodLoop num den i quotient rem).1.toNat = num.toNat / den.toNat ∧
      (divmodLoop num den i quotient rem).2.toNat = num.toNat % den.toNat := by
  induction i generalizing quotient rem with
  | zero => exact h.finish
  | succ i ih =>
    have hnum := num.toNat_lt
    -- This is what keeps the bit that the shift pushes out of the remainder zero.
    have hroom : rem.toNat < 2 ^ 127 := by
      have hhalf : num.toNat / 2 ^ (i + 1) ≤ num.toNat / 2 :=
        Nat.div_le_div_left (Nat.le_self_pow (by omega) 2) (by norm_num)
      have := h.remainder_le
      omega
    have hbit := toNat_bit num (i := i) (by omega)
    have hlt : num.toNat / 2 ^ i % 2 < 2 := Nat.mod_lt _ (by norm_num)
    have hshift : (UInt128.mk ((rem.lo <<< 1) ||| num.bit i)
        ((rem.hi <<< 1) ||| (rem.lo >>> 63))).toNat = 2 * rem.toNat + num.toNat / 2 ^ i % 2 := by
      rw [toNat_shifted rem _ (by rw [toNat_shiftLeft_or _ _ (by omega), hbit]) hlt]
      omega
    have hstep := h.step hden
    rw [divmodLoop]
    simp only [le_iff, hshift]
    split
    · rename_i hle
      rw [if_pos hle, if_pos hle] at hstep
      apply ih (by omega)
      have hclear : quotient.toNat % 2 ^ (i + 1) = 0 := by
        rw [h.quotient_eq, Nat.mul_mod_left]
      rwa [toNat_setBit (by omega) hclear, toNat_subtracting (by rw [hshift]; exact hle), hshift]
    · rename_i hgt
      rw [if_neg hgt, if_neg hgt] at hstep
      apply ih (by omega)
      rwa [hshift]

/-- **`divmod128` is the exact division** for every divisor but zero. -/
theorem divmod128_spec (num : UInt128) {den : UInt128} (hden : 0 < den.toNat) :
    (divmod128 num den).1.toNat = num.toNat / den.toNat ∧
      (divmod128 num den).2.toNat = num.toNat % den.toNat :=
  divmodLoop_spec hden le_rfl (BitDivision.start num.toNat_lt)

/-- `UInt128::dividing`. -/
def dividing (num den : UInt128) (behavior : DivisionBehavior) : Result UInt128 :=
  if den = {} then err .invalid "Division by zero"
  else
    let (quotient, rem) := divmod128 num den
    .ok (roundQuotient quotient rem den behavior)

/-- `UInt128::remainder`. -/
def remainder (num den : UInt128) : Result UInt128 :=
  if den = {} then err .invalid "Division by zero"
  else .ok (divmod128 num den).2

/-- The division fails for zero and for nothing else. -/
theorem dividing_eq (num : UInt128) {den : UInt128} (hden : den.toNat ≠ 0)
    (behavior : DivisionBehavior) :
    num.dividing den behavior =
      .ok (roundQuotient (divmod128 num den).1 (divmod128 num den).2 den behavior) := by
  have hne : den ≠ {} := fun h => hden ((eq_zero_iff den).mp h)
  rw [dividing, if_neg hne]

theorem remainder_eq (num : UInt128) {den : UInt128} (hden : den.toNat ≠ 0) :
    num.remainder den = .ok (divmod128 num den).2 := by
  have hne : den ≠ {} := fun h => hden ((eq_zero_iff den).mp h)
  rw [remainder, if_neg hne]

end UInt128

namespace Int128

/-! ## Two's complement -/

/-- The number a two's complement integer stands for. -/
def toInt (v : Int128) : ℤ :=
  if v.isNegative then v.toUnsigned.toNat - 2 ^ 128 else v.toUnsigned.toNat

theorem isNegative_iff (v : Int128) : v.isNegative = true ↔ 2 ^ 127 ≤ v.toUnsigned.toNat := by
  have hlo := v.lo.toNat_lt
  have hhi := v.hi.toNat_lt
  have hzero : v.hi >>> 63 = 0 ↔ v.hi.toNat / 2 ^ 63 = 0 := by
    rw [← UInt64.toNat_inj, UInt128.toNat_shiftRight_top]
    rfl
  simp only [isNegative, toUnsigned, UInt128.toNat, ne_eq, decide_eq_true_eq, hzero]
  omega

/-- The pattern read as a signed number. -/
theorem toInt_eq_bmod (v : Int128) : v.toInt = (v.toUnsigned.toNat : ℤ).bmod (2 ^ 128) := by
  have hlt := v.toUnsigned.toNat_lt
  have hneg := v.isNegative_iff
  rw [toInt, Int.bmod_def, Int.emod_eq_of_lt (by omega) (by exact_mod_cast hlt)]
  split
  · rename_i h
    rw [if_neg]
    · norm_num
    · have := hneg.mp h
      norm_num
      omega
  · rename_i h
    rw [if_pos]
    have : ¬ 2 ^ 127 ≤ v.toUnsigned.toNat := fun hge => h (hneg.mpr hge)
    norm_num
    omega

@[simp]
theorem toInt_ofUnsigned (u : UInt128) : (ofUnsigned u).toInt = (u.toNat : ℤ).bmod (2 ^ 128) :=
  toInt_eq_bmod (ofUnsigned u)

/-- The range of a signed integer. -/
theorem toInt_bounds (v : Int128) : -2 ^ 127 ≤ v.toInt ∧ v.toInt < 2 ^ 127 := by
  have hlt := v.toUnsigned.toNat_lt
  have hneg := v.isNegative_iff
  rw [toInt]
  split
  · rename_i h
    have := hneg.mp h
    omega
  · rename_i h
    have : ¬ 2 ^ 127 ≤ v.toUnsigned.toNat := fun hge => h (hneg.mpr hge)
    omega

theorem isNegative_iff_toInt (v : Int128) : v.isNegative = true ↔ v.toInt < 0 := by
  have hlt := v.toUnsigned.toNat_lt
  rw [toInt]
  split
  · rename_i h
    exact ⟨fun _ => by omega, fun _ => h⟩
  · rename_i h
    exact ⟨fun hn => absurd hn h, fun hn => by omega⟩

/-- A signed integer is known by its number. -/
theorem toInt_injective : Function.Injective toInt := by
  intro a b h
  have ha := a.toUnsigned.toNat_lt
  have hb := b.toUnsigned.toNat_lt
  have hna := a.isNegative_iff
  have hnb := b.isNegative_iff
  have hnat : a.toUnsigned.toNat = b.toUnsigned.toNat := by
    rw [toInt, toInt] at h
    split at h <;> split at h <;> omega
  have hsame := UInt128.toNat_injective hnat
  obtain ⟨alo, ahi⟩ := a
  obtain ⟨blo, bhi⟩ := b
  injection hsame with hlo hhi
  exact congrArg₂ Int128.mk hlo hhi

/-- A 64-bit integer keeps its value in 128 bits. -/
theorem toInt_ofInt64 (k : Int64) : (ofInt64 k).toInt = k.toInt := by
  have hpattern : k.toInt = (k.toUInt64.toNat : ℤ).bmod (2 ^ 64) :=
    BitVec.toInt_eq_toNat_bmod k.toBitVec
  have hlt := k.toUInt64.toNat_lt
  have hones : (0xffffffffffffffff : UInt64).toNat = 2 ^ 64 - 1 := by decide
  have hnegative := (ofInt64 k).isNegative_iff
  rw [Int.bmod_def] at hpattern
  by_cases h : k < 0
  · have hneg : k.toInt < 0 := Int64.lt_iff_toInt_lt.mp h
    have htop : (ofInt64 k).toUnsigned.toNat = k.toUInt64.toNat + 2 ^ 64 * (2 ^ 64 - 1) := by
      unfold ofInt64 toUnsigned UInt128.toNat
      rw [if_pos h]
      simp only [hones]
      omega
    rw [toInt, if_pos (hnegative.mpr (by omega)), htop]
    omega
  · have hneg : ¬ k.toInt < 0 := fun hlt => h (Int64.lt_iff_toInt_lt.mpr hlt)
    have htop : (ofInt64 k).toUnsigned.toNat = k.toUInt64.toNat := by
      unfold ofInt64 toUnsigned UInt128.toNat
      rw [if_neg h]
      simp
    rw [toInt, if_neg (fun hn => by have := hnegative.mp hn; omega), htop]
    omega

/-- `toInt64` keeps the low 64 bits of the value. -/
theorem toInt_toInt64 (v : Int128) : v.toInt64.toInt = v.toInt.bmod (2 ^ 64) := by
  have hlow : v.toInt64.toInt = (v.lo.toNat : ℤ).bmod (2 ^ 64) :=
    BitVec.toInt_eq_toNat_bmod v.lo.toBitVec
  have hlt := v.toUnsigned.toNat_lt
  have hsplit : (v.toUnsigned.toNat : ℤ) = v.hi.toNat * 2 ^ 64 + v.lo.toNat := by
    simp [toUnsigned, UInt128.toNat]
  rw [hlow, toInt]
  simp only [Int.bmod_def]
  norm_num
  split
  · omega
  · omega

theorem toInt_eq_zero_iff (v : Int128) : v.toInt = 0 ↔ v = {} :=
  ⟨fun h => toInt_injective (h.trans rfl), fun h => by rw [h]; rfl⟩

/-- Complementing both halves and adding one. -/
theorem toNat_negated (v : Int128) :
    v.negated.toUnsigned.toNat = (2 ^ 128 - v.toUnsigned.toNat) % 2 ^ 128 := by
  have hlo := v.lo.toNat_lt
  have hhi := v.hi.toNat_lt
  have hsize : UInt64.size = 2 ^ 64 := rfl
  show (UInt128.adding _ _).toNat = _
  rw [UInt128.toNat_adding, UInt128.toNat_one]
  simp only [UInt128.toNat, toUnsigned, UInt64.toNat_not, hsize]
  omega

theorem toInt_negated (v : Int128) : v.negated.toInt = (-v.toInt).bmod (2 ^ 128) := by
  have hlt := v.toUnsigned.toNat_lt
  rw [toInt_eq_bmod, toNat_negated, toInt_eq_bmod, Int.bmod_neg_bmod, Int.natCast_mod,
    Nat.cast_sub hlt.le]
  have hsub : ((2 ^ 128 : ℕ) : ℤ) - v.toUnsigned.toNat = -v.toUnsigned.toNat + (2 ^ 128 : ℕ) := by
    ring
  rw [Int.emod_bmod, hsub, Int.add_bmod_right]

/-- The magnitude is that of the number, also for the least one. -/
theorem toNat_magnitude (v : Int128) : v.magnitude.toNat = v.toInt.natAbs := by
  have hlt := v.toUnsigned.toNat_lt
  rw [magnitude, toInt]
  split
  · rename_i h
    have := v.isNegative_iff.mp h
    rw [toNat_negated]
    omega
  · omega

/-- A magnitude with its sign, as both operations put it on. -/
theorem toInt_signed (negative : Prop) [Decidable negative] {u : UInt128} {m : ℕ}
    (h : u.toNat = m % 2 ^ 128) :
    (if negative then (ofUnsigned u).negated else ofUnsigned u).toInt =
      (if negative then -(m : ℤ) else m).bmod (2 ^ 128) := by
  have hu : (u.toNat : ℤ).bmod (2 ^ 128) = (m : ℤ).bmod (2 ^ 128) := by
    rw [h, Int.natCast_mod, Int.emod_bmod]
  split
  · rw [toInt_negated, toInt_ofUnsigned, hu, Int.bmod_neg_bmod]
  · rw [toInt_ofUnsigned, hu]

theorem sign_toInt {v : Int128} (h : v.toInt ≠ 0) :
    v.toInt.sign = if v.isNegative then -1 else 1 := by
  have hneg := v.isNegative_iff_toInt
  split
  · rename_i hn
    exact Int.sign_eq_neg_one_of_neg (hneg.mp hn)
  · rename_i hn
    have : ¬ v.toInt < 0 := fun hlt => hn (hneg.mpr hlt)
    exact Int.sign_eq_one_of_pos (by omega)

/-- The sign that two numbers give their product and their quotient. -/
theorem signed_eq (a b : Int128) {m : ℤ} (ha : a.toInt = 0 → m = 0) (hb : b.toInt = 0 → m = 0) :
    (if a.isNegative ≠ b.isNegative then -m else m) = a.toInt.sign * b.toInt.sign * m := by
  by_cases ha0 : a.toInt = 0
  · rw [ha ha0]
    simp
  by_cases hb0 : b.toInt = 0
  · rw [hb hb0]
    simp
  rw [sign_toInt ha0, sign_toInt hb0]
  cases a.isNegative <;> cases b.isNegative <;> simp

/-! ## Product and quotient -/

/-- **`multiplying` is the product modulo `2 ^ 128`**, in two's complement. -/
theorem toInt_multiplying (a b : Int128) :
    (a.multiplying b).toInt = (a.toInt * b.toInt).bmod (2 ^ 128) := by
  have hmag := UInt128.toNat_multiplying a.magnitude b.magnitude
  have hsigned := toInt_signed (a.isNegative ≠ b.isNegative) hmag
  have hsign := signed_eq a b
    (show a.toInt = 0 → ((a.magnitude.toNat * b.magnitude.toNat : ℕ) : ℤ) = 0 by
      intro h
      simp [toNat_magnitude, h])
    (show b.toInt = 0 → ((a.magnitude.toNat * b.magnitude.toNat : ℕ) : ℤ) = 0 by
      intro h
      simp [toNat_magnitude, h])
  have hexact : a.toInt.sign * b.toInt.sign * ((a.magnitude.toNat * b.magnitude.toNat : ℕ) : ℤ) =
      a.toInt * b.toInt := by
    rw [toNat_magnitude, toNat_magnitude, Nat.cast_mul]
    calc a.toInt.sign * b.toInt.sign * ((a.toInt.natAbs : ℤ) * b.toInt.natAbs)
        = a.toInt.sign * a.toInt.natAbs * (b.toInt.sign * b.toInt.natAbs) := by ring
      _ = a.toInt * b.toInt := by rw [Int.sign_mul_natAbs, Int.sign_mul_natAbs]
  rw [hsign, hexact] at hsigned
  exact hsigned

/-- A division is one of the magnitudes, and the sign put on afterwards. -/
theorem dividing_eq (a : Int128) {b : Int128} (hb : b.toInt ≠ 0) (behavior : DivisionBehavior)
    {m : ℕ} (hzero : a.toInt = 0 → m = 0)
    (hm : (UInt128.roundQuotient (UInt128.divmod128 a.magnitude b.magnitude).1
      (UInt128.divmod128 a.magnitude b.magnitude).2 b.magnitude behavior).toNat = m % 2 ^ 128) :
    ∃ rv, a.dividing b behavior = .ok rv ∧
      rv.toInt = (a.toInt.sign * b.toInt.sign * m).bmod (2 ^ 128) := by
  have hne : b ≠ {} := fun h => hb ((toInt_eq_zero_iff b).mpr h)
  refine ⟨_, by rw [dividing, if_neg hne], ?_⟩
  rw [toInt_signed (a.isNegative ≠ b.isNegative) hm,
    signed_eq a b (fun h => by rw [hzero h, Nat.cast_zero]) (fun h => absurd h hb)]

/-- Truncation towards zero, by sign and magnitude. -/
theorem tdiv_eq_sign_mul (a b : ℤ) :
    a.tdiv b = a.sign * b.sign * ((a.natAbs / b.natAbs : ℕ) : ℤ) := by
  have habs : (a.tdiv b).natAbs = a.natAbs / b.natAbs := Int.natAbs_tdiv a b
  rw [← Int.sign_mul_natAbs (a.tdiv b), Int.sign_tdiv, habs]
  split
  · rename_i hlt
    rw [Nat.div_eq_of_lt hlt]
    simp
  · rfl

/-- **The truncating quotient**, modulo `2 ^ 128`. -/
theorem toInt_dividing (a : Int128) {b : Int128} (hb : b.toInt ≠ 0) :
    ∃ rv, a.dividing b .floor = .ok rv ∧
      rv.toInt = (a.toInt.tdiv b.toInt).bmod (2 ^ 128) := by
  have hden : 0 < b.magnitude.toNat := by
    rw [toNat_magnitude]
    omega
  obtain ⟨hquotient, -⟩ := UInt128.divmod128_spec a.magnitude hden
  have hlt := (UInt128.divmod128 a.magnitude b.magnitude).1.toNat_lt
  rw [toNat_magnitude, toNat_magnitude] at hquotient
  rw [tdiv_eq_sign_mul]
  apply dividing_eq a hb .floor
  · intro h
    rw [h]
    simp
  · rw [← hquotient]
    exact (Nat.mod_eq_of_lt hlt).symm

/-- The one quotient that does not fit is that of the least number by `-1`. -/
theorem tdiv_bmod (a b : Int128) (hb : b.toInt ≠ 0)
    (h : ¬ (a.toInt = -2 ^ 127 ∧ b.toInt = -1)) :
    (a.toInt.tdiv b.toInt).bmod (2 ^ 128) = a.toInt.tdiv b.toInt := by
  obtain ⟨halow, hahigh⟩ := a.toInt_bounds
  have hle : (a.toInt.tdiv b.toInt).natAbs ≤ a.toInt.natAbs := Int.natAbs_tdiv_le_natAbs _ _
  apply Int.bmod_eq_of_le
  · norm_num
    omega
  · norm_num
    by_contra hge
    have habs : (a.toInt.tdiv b.toInt).natAbs = a.toInt.natAbs / b.toInt.natAbs :=
      Int.natAbs_tdiv _ _
    have hunit : b.toInt.natAbs < 2 := by
      by_contra htwo
      have : a.toInt.natAbs / b.toInt.natAbs ≤ a.toInt.natAbs / 2 :=
        Nat.div_le_div_left (by omega) (by norm_num)
      omega
    have hone : b.toInt = 1 ∨ b.toInt = -1 := by omega
    rcases hone with hone | hone
    · rw [hone, Int.tdiv_one] at hge
      omega
    · exact h ⟨by omega, hone⟩

end Int128

/-! ## All of it -/

/-- **128-bit multiplication and division are exact.**  Products are those of the
numbers modulo `2 ^ 128`; for every divisor but zero `divmod128` finds the quotient
and the remainder, and the signed quotient truncates towards zero and fits but for
the least number by `-1`; dividing by zero is an error. -/
theorem arithmetic128_exact :
    (∀ a b : UInt128, (a.multiplying b).toNat = a.toNat * b.toNat % 2 ^ 128) ∧
    (∀ a b : Int128, (a.multiplying b).toInt = (a.toInt * b.toInt).bmod (2 ^ 128)) ∧
    (∀ num den : UInt128, den.toNat ≠ 0 → ∃ quotient rem : UInt128,
      num.dividing den .floor = .ok quotient ∧ num.remainder den = .ok rem ∧
      num.toNat = quotient.toNat * den.toNat + rem.toNat ∧ rem.toNat < den.toNat) ∧
    (∀ a b : Int128, b.toInt ≠ 0 → ∃ quotient rem : UInt128,
      UInt128.divmod128 a.magnitude b.magnitude = (quotient, rem) ∧
      a.toInt.natAbs = quotient.toNat * b.toInt.natAbs + rem.toNat ∧ rem.toNat < b.toInt.natAbs ∧
      ∃ rv, a.dividing b .floor = .ok rv ∧ rv.toInt = (a.toInt.tdiv b.toInt).bmod (2 ^ 128) ∧
        (¬ (a.toInt = -2 ^ 127 ∧ b.toInt = -1) → rv.toInt = a.toInt.tdiv b.toInt)) ∧
    (∀ (num den : UInt128) (behavior : DivisionBehavior), den.toNat = 0 →
      num.dividing den behavior = err .invalid "Division by zero" ∧
      num.remainder den = err .invalid "Division by zero") ∧
    ∀ (a b : Int128) (behavior : DivisionBehavior), b.toInt = 0 →
      a.dividing b behavior = err .invalid "Division by zero" := by
  refine ⟨UInt128.toNat_multiplying, Int128.toInt_multiplying, ?_, ?_, ?_, ?_⟩
  · intro num den hden
    obtain ⟨hquotient, hrem⟩ := UInt128.divmod128_spec num (Nat.pos_of_ne_zero hden)
    refine ⟨_, _, UInt128.dividing_eq num hden .floor, UInt128.remainder_eq num hden, ?_, ?_⟩
    · rw [UInt128.roundQuotient, hquotient, hrem, Nat.mul_comm, Nat.div_add_mod]
    · rw [hrem]
      exact Nat.mod_lt _ (Nat.pos_of_ne_zero hden)
  · intro a b hb
    have hden : 0 < b.magnitude.toNat := by
      rw [Int128.toNat_magnitude]
      omega
    obtain ⟨hquotient, hrem⟩ := UInt128.divmod128_spec a.magnitude hden
    obtain ⟨rv, hrv, hvalue⟩ := Int128.toInt_dividing a hb
    rw [Int128.toNat_magnitude, Int128.toNat_magnitude] at hquotient hrem
    refine ⟨(UInt128.divmod128 a.magnitude b.magnitude).1,
      (UInt128.divmod128 a.magnitude b.magnitude).2, Prod.mk.eta.symm, ?_, ?_, rv, hrv, hvalue, ?_⟩
    · rw [hquotient, hrem, Nat.mul_comm, Nat.div_add_mod]
    · rw [hrem]
      exact Nat.mod_lt _ (by omega)
    · -- Only the least number by `-1` has a quotient outside the range.
      intro hfits
      rw [hvalue, Int128.tdiv_bmod a b hb hfits]
  · intro num den behavior hden
    have hzero : den = {} := (UInt128.eq_zero_iff den).mpr hden
    exact ⟨by rw [UInt128.dividing, if_pos hzero], by rw [UInt128.remainder, if_pos hzero]⟩
  · intro a b behavior hb
    rw [Int128.dividing, if_pos ((Int128.toInt_eq_zero_iff b).mp hb)]

/-- A divisor above `2 ^ 127`. -/
theorem arithmetic128_exact_top :
    (UInt128.mk 0xfffffffffffffffe 0xffffffffffffffff).toNat ≠ 0 ∧
    ∃ quotient rem : UInt128,
      (UInt128.mk 0xffffffffffffffff 0xffffffffffffffff).dividing
        ⟨0xfffffffffffffffe, 0xffffffffffffffff⟩ .floor = .ok quotient ∧
      (UInt128.mk 0xffffffffffffffff 0xffffffffffffffff).remainder
        ⟨0xfffffffffffffffe, 0xffffffffffffffff⟩ = .ok rem ∧
      (UInt128.mk 0xffffffffffffffff 0xffffffffffffffff).toNat =
        quotient.toNat * (UInt128.mk 0xfffffffffffffffe 0xffffffffffffffff).toNat + rem.toNat ∧
      rem.toNat < (UInt128.mk 0xfffffffffffffffe 0xffffffffffffffff).toNat :=
  have hden : (UInt128.mk 0xfffffffffffffffe 0xffffffffffffffff).toNat ≠ 0 := by decide
  ⟨hden, arithmetic128_exact.2.2.1 _ _ hden⟩

end Dwarfkit
