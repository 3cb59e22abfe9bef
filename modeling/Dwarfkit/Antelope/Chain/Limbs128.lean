/-
# 128-bit integers on limbs

`integer.cpp` writes and reads the decimal text of the 128-bit types on four 32-bit
limbs.  Multiplying and dividing limb by limb is tied to the numbers the limbs stand
for, and with it the loop that writes a number's digits.

* `Limbs.mulAdd_spec`, `Limbs.divMod_spec` : the two operations;
* `unsignedToString_eq` : the text that is written.
-/
import Dwarfkit.Antelope.Chain.Arithmetic128
import Dwarfkit.Antelope.Chain.TypeNames

namespace Dwarfkit

namespace Decimal128

open LongDivision
open Nat (ofDigits)

/-! ## Limbs -/

/-- `Limbs`: four 32-bit limbs, the lowest first. -/
structure Limbs where
  toList : List UInt32
  length_toList : toList.length = 4

/-- The loop of `mulAdd`: the limbs of the product, and the carry out. -/
def mulAddLoop (factor : UInt32) : List UInt32 → UInt64 → List UInt32 × UInt64
  | [], carry => ([], carry)
  | limb :: limbs, carry =>
    let product := limb.toUInt64 * factor.toUInt64 + carry
    let (rest, out) := mulAddLoop factor limbs (product >>> 32)
    (product.toUInt32 :: rest, out)

/-- The loop of `divMod`, from the highest limb down: the limbs of the quotient, and
the remainder. -/
def divModLoop (divisor : UInt32) : List UInt32 → List UInt32 × UInt64
  | [] => ([], 0)
  | limb :: limbs =>
    let (quotient, remainder) := divModLoop divisor limbs
    let current := (remainder <<< 32) ||| limb.toUInt64
    ((current / divisor.toUInt64).toUInt32 :: quotient, current % divisor.toUInt64)

theorem length_mulAddLoop (factor : UInt32) (limbs : List UInt32) (carry : UInt64) :
    (mulAddLoop factor limbs carry).1.length = limbs.length := by
  induction limbs generalizing carry with
  | nil => rfl
  | cons limb limbs ih => exact congrArg (· + 1) (ih _)

theorem length_divModLoop (divisor : UInt32) (limbs : List UInt32) :
    (divModLoop divisor limbs).1.length = limbs.length := by
  induction limbs with
  | nil => rfl
  | cons limb limbs ih => exact congrArg (· + 1) ih

namespace Limbs

/-- `toLimbs`. -/
def ofHalves (v : UInt128) : Limbs :=
  ⟨[v.lo.toUInt32, (v.lo >>> 32).toUInt32, v.hi.toUInt32, (v.hi >>> 32).toUInt32], rfl⟩

/-- `fromLimbs`. -/
def halves (limbs : Limbs) : UInt128 :=
  { lo := (limbs.toList.getD 0 0).toUInt64 ||| ((limbs.toList.getD 1 0).toUInt64 <<< 32),
    hi := (limbs.toList.getD 2 0).toUInt64 ||| ((limbs.toList.getD 3 0).toUInt64 <<< 32) }

/-- `mulAdd`: `value * factor + addend`, and the carry out. -/
def mulAdd (value : Limbs) (factor addend : UInt32) : Limbs × UInt32 :=
  (⟨(mulAddLoop factor value.toList addend.toUInt64).1,
      (length_mulAddLoop factor _ _).trans value.length_toList⟩,
    (mulAddLoop factor value.toList addend.toUInt64).2.toUInt32)

/-- `divMod`: `value / divisor`, and the remainder. -/
def divMod (value : Limbs) (divisor : UInt32) : Limbs × UInt32 :=
  (⟨(divModLoop divisor value.toList).1,
      (length_divModLoop divisor _).trans value.length_toList⟩,
    (divModLoop divisor value.toList).2.toUInt32)

/-- `isZero`. -/
def isZero (value : Limbs) : Bool := value.toList.all (· = 0)

/-- The number the limbs stand for. -/
def toNat (limbs : Limbs) : ℕ := ofDigits (2 ^ 32) (limbs.toList.map UInt32.toNat)

end Limbs

/-! ## The loops on numbers -/

/-- `mulAdd` multiplies limb by limb: no product outgrows 64 bits. -/
theorem mulAddLoop_eq (factor : UInt32) (limbs : List UInt32) {carry : UInt64}
    (hcarry : carry.toNat < 2 ^ 32) :
    (mulAddLoop factor limbs carry).1.map UInt32.toNat =
        (mulAddLimbs (2 ^ 32) factor.toNat (limbs.map UInt32.toNat) carry.toNat).1 ∧
      (mulAddLoop factor limbs carry).2.toNat =
        (mulAddLimbs (2 ^ 32) factor.toNat (limbs.map UInt32.toNat) carry.toNat).2 ∧
      (mulAddLoop factor limbs carry).2.toNat < 2 ^ 32 := by
  induction limbs generalizing carry with
  | nil => exact ⟨rfl, rfl, hcarry⟩
  | cons limb limbs ih =>
    have hlimb := limb.toNat_lt
    have hfactor := factor.toNat_lt
    have hle : limb.toNat * factor.toNat ≤ (2 ^ 32 - 1) * (2 ^ 32 - 1) :=
      Nat.mul_le_mul (by omega) (by omega)
    -- A product of two limbs leaves room for one more limb, which the carry is.
    have hproduct : (limb.toUInt64 * factor.toUInt64 + carry).toNat =
        limb.toNat * factor.toNat + carry.toNat := by
      rw [UInt64.toNat_add, UInt64.toNat_mul, UInt32.toNat_toUInt64, UInt32.toNat_toUInt64,
        Nat.mod_eq_of_lt (show limb.toNat * factor.toNat < 2 ^ 64 by omega),
        Nat.mod_eq_of_lt (by omega)]
    have hnext : ((limb.toUInt64 * factor.toUInt64 + carry) >>> 32).toNat =
        (limb.toNat * factor.toNat + carry.toNat) / 2 ^ 32 := by
      rw [UInt128.toNat_shiftRight_half, hproduct]
    have hfits : ((limb.toUInt64 * factor.toUInt64 + carry) >>> 32).toNat < 2 ^ 32 := by
      rw [hnext]
      omega
    obtain ⟨hrest, hout, hlt⟩ := ih hfits
    rw [hnext] at hrest hout
    simp only [mulAddLoop, List.map_cons, mulAddLimbs, UInt64.toNat_toUInt32, hproduct, hrest]
    exact ⟨trivial, hout, hlt⟩

/-- `divMod` divides limb by limb: a remainder and the next limb fill 64 bits. -/
theorem divModLoop_eq {divisor : UInt32} (hdivisor : 0 < divisor.toNat) (limbs : List UInt32) :
    (divModLoop divisor limbs).1.map UInt32.toNat =
        (divLimbs (2 ^ 32) divisor.toNat (limbs.map UInt32.toNat)).1 ∧
      (divModLoop divisor limbs).2.toNat =
        (divLimbs (2 ^ 32) divisor.toNat (limbs.map UInt32.toNat)).2 := by
  induction limbs with
  | nil => exact ⟨rfl, rfl⟩
  | cons limb limbs ih =>
    obtain ⟨hquotient, hrem⟩ := ih
    have hlimbs (ls : List UInt32) : ∀ l ∈ ls.map UInt32.toNat, l < 2 ^ 32 := by
      intro l hl
      obtain ⟨d, -, rfl⟩ := List.mem_map.mp hl
      exact d.toNat_lt
    have hbound := (divLimbs_lt (2 ^ 32) hdivisor (hlimbs limbs)).2
    have hfits := (divLimbs_lt (2 ^ 32) hdivisor (hlimbs (limb :: limbs))).1
    rw [← hrem] at hbound
    -- The remainder is below the divisor, so the shift drops no bit of it.
    have hcurrent : (((divModLoop divisor limbs).2 <<< 32) ||| limb.toUInt64).toNat =
        2 ^ 32 * (divModLoop divisor limbs).2.toNat + limb.toNat := by
      have hlimb : limb.toNat < 2 ^ 32 := limb.toNat_lt
      have hdiv := divisor.toNat_lt
      rw [UInt64.toNat_or, UInt128.toNat_shiftLeft_half, UInt32.toNat_toUInt64,
        Nat.mod_eq_of_lt (by omega), ← Nat.shiftLeft_eq, ← Nat.shiftLeft_add_eq_or_of_lt hlimb,
        Nat.shiftLeft_eq, Nat.mul_comm]
    simp only [List.map_cons, divLimbs, List.forall_mem_cons] at hfits
    simp only [divModLoop, List.map_cons, divLimbs, UInt64.toNat_toUInt32, UInt64.toNat_div,
      UInt64.toNat_mod, UInt32.toNat_toUInt64, hcurrent, hquotient, hrem]
    exact ⟨by rw [Nat.mod_eq_of_lt hfits.1], trivial⟩

namespace Limbs

theorem toNat_lt (limbs : Limbs) : limbs.toNat < 2 ^ 128 := by
  have hlt := Nat.ofDigits_lt_base_pow_length (b := 2 ^ 32) (l := limbs.toList.map UInt32.toNat)
    (by norm_num) (by
      intro l hl
      obtain ⟨d, -, rfl⟩ := List.mem_map.mp hl
      exact d.toNat_lt)
  rw [List.length_map, limbs.length_toList, ← pow_mul] at hlt
  exact hlt

/-- The halves of a 128-bit integer, cut in two each. -/
theorem toNat_ofHalves (v : UInt128) : (ofHalves v).toNat = v.toNat := by
  have hlo := v.lo.toNat_lt
  have hhi := v.hi.toNat_lt
  simp only [toNat, ofHalves, List.map_cons, List.map_nil, UInt64.toNat_toUInt32,
    UInt128.toNat_shiftRight_half, Nat.ofDigits_cons, Nat.ofDigits_nil, UInt128.toNat]
  push_cast
  omega

/-- Two limbs in one word. -/
theorem toNat_or_limb (low high : UInt32) :
    (low.toUInt64 ||| (high.toUInt64 <<< 32)).toNat = low.toNat + 2 ^ 32 * high.toNat := by
  have hlow : low.toNat < 2 ^ 32 := low.toNat_lt
  have hhigh := high.toNat_lt
  rw [UInt64.toNat_or, UInt128.toNat_shiftLeft_half, UInt32.toNat_toUInt64, UInt32.toNat_toUInt64,
    Nat.mod_eq_of_lt (by omega), Nat.or_comm, ← Nat.shiftLeft_eq,
    ← Nat.shiftLeft_add_eq_or_of_lt hlow, Nat.shiftLeft_eq]
  omega

theorem toNat_halves (limbs : Limbs) : limbs.halves.toNat = limbs.toNat := by
  obtain ⟨list, hlist⟩ := limbs
  obtain ⟨a, b, c, d, rfl⟩ := List.length_eq_four.mp hlist
  simp only [halves, toNat, UInt128.toNat, List.getD_cons_zero, List.getD_cons_succ,
    toNat_or_limb, List.map_cons, List.map_nil, Nat.ofDigits_cons, Nat.ofDigits_nil]
  ring

/-- **`mulAdd`**: nothing is lost but the carry out. -/
theorem mulAdd_spec (value : Limbs) (factor addend : UInt32) :
    (value.mulAdd factor addend).1.toNat + 2 ^ 128 * (value.mulAdd factor addend).2.toNat =
      value.toNat * factor.toNat + addend.toNat := by
  have haddend : addend.toUInt64.toNat < 2 ^ 32 := by
    rw [UInt32.toNat_toUInt64]
    exact addend.toNat_lt
  obtain ⟨hlimbs, hout, hlt⟩ := mulAddLoop_eq factor value.toList haddend
  have hspec := mulAddLimbs_spec (2 ^ 32) factor.toNat (value.toList.map UInt32.toNat)
    addend.toUInt64.toNat
  rw [List.length_map, value.length_toList, ← pow_mul, ← hlimbs, ← hout,
    UInt32.toNat_toUInt64] at hspec
  simp only [mulAdd, toNat, UInt64.toNat_toUInt32]
  rw [Nat.mod_eq_of_lt hlt]
  exact hspec

/-- **`divMod`**: quotient and remainder. -/
theorem divMod_spec (value : Limbs) {divisor : UInt32} (hdivisor : 0 < divisor.toNat) :
    (value.divMod divisor).1.toNat = value.toNat / divisor.toNat ∧
      (value.divMod divisor).2.toNat = value.toNat % divisor.toNat := by
  obtain ⟨hquotient, hrem⟩ := divModLoop_eq hdivisor value.toList
  obtain ⟨hq, hr⟩ := divLimbs_spec (2 ^ 32) divisor.toNat (value.toList.map UInt32.toNat)
  rw [← hquotient] at hq
  rw [← hrem] at hr
  refine ⟨hq, ?_⟩
  have hlt := Nat.mod_lt (ofDigits (2 ^ 32) (value.toList.map UInt32.toNat)) hdivisor
  have hdiv := divisor.toNat_lt
  simp only [divMod, UInt64.toNat_toUInt32, hr, toNat]
  exact Nat.mod_eq_of_lt (by omega)

theorem isZero_iff (value : Limbs) : value.isZero = true ↔ value.toNat = 0 := by
  obtain ⟨list, hlist⟩ := value
  obtain ⟨a, b, c, d, rfl⟩ := List.length_eq_four.mp hlist
  simp only [isZero, toNat, List.all_cons, List.all_nil, Bool.and_true, Bool.and_eq_true,
    decide_eq_true_eq, List.map_cons, List.map_nil, Nat.ofDigits_cons, Nat.ofDigits_nil,
    ← UInt32.toNat_inj, UInt32.toNat_zero]
  omega

end Limbs

/-! ## Writing -/

/-- The loop of `unsignedToString`, which pushes the lowest digit first. -/
def pushDigits (limbs : Limbs) : Str :=
  let digit := 48 + (limbs.divMod 10).2.toUInt8
  if (limbs.divMod 10).1.isZero then [digit] else digit :: pushDigits (limbs.divMod 10).1
termination_by limbs.toNat
decreasing_by
  have hten : (10 : UInt32).toNat = 10 := rfl
  rename_i h
  have hquotient := (limbs.divMod_spec (show 0 < (10 : UInt32).toNat by decide)).1
  rw [Limbs.isZero_iff, hquotient, hten] at h
  rw [hquotient, hten]
  omega

/-- `unsignedToString`. -/
def unsignedToString (v : UInt128) : Str := (pushDigits (.ofHalves v)).reverse

/-- The digits are pushed lowest first, at least one. -/
theorem reverse_pushDigits (n : ℕ) {limbs : Limbs} (h : limbs.toNat = n) :
    (pushDigits limbs).reverse = natToString n := by
  induction n using Nat.strong_induction_on generalizing limbs with
  | _ n ih =>
    have hten : 0 < (10 : UInt32).toNat := by decide
    obtain ⟨hquotient, hrem⟩ := limbs.divMod_spec hten
    rw [show (10 : UInt32).toNat = 10 from rfl, h] at hquotient hrem
    have hdigit : 48 + (limbs.divMod 10).2.toUInt8 = digitByte (n % 10) := by
      have hdigits : ∀ d < 10, digitByte d = UInt8.ofNat (d + 48) := by decide
      rw [hdigits _ (Nat.mod_lt _ (by norm_num)), ← UInt8.toNat_inj, UInt8.toNat_add,
        UInt32.toNat_toUInt8, hrem, UInt8.toNat_ofNat']
      have : (48 : UInt8).toNat = 48 := rfl
      omega
    rw [pushDigits, hdigit]
    simp only [Limbs.isZero_iff, hquotient]
    split
    · rename_i hzero
      have hsmall : n < 10 := by omega
      rw [natToString_of_lt hsmall, Nat.mod_eq_of_lt hsmall]
      rfl
    · rename_i hmore
      rw [List.reverse_cons, ih (n / 10) (by omega) hquotient, natToString_of_le (show 10 ≤ n by omega)]

/-- **The text that is written** is the number's. -/
theorem unsignedToString_eq (v : UInt128) : unsignedToString v = natToString v.toNat :=
  reverse_pushDigits _ (Limbs.toNat_ofHalves v)

end Decimal128

end Dwarfkit
