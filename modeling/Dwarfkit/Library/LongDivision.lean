/-
# Long division

Division digit by digit, from the highest down: the remainder so far takes in the
next digit, and what the divisor goes into it is the next digit of the quotient.
The step is stated for any base, then run over the limbs of a number, lowest first,
and over its bits, where the digit of the quotient is a comparison.

* `divLimbs_spec` : dividing limb by limb;
* `mulAddLimbs_spec` : multiplying and adding, limb by limb;
* `BitDivision.step`, `BitDivision.remainder_le` : one bit, and why a remainder
  never outgrows the bits taken in so far;
* `round_div`, `ceil_div` : the exact quotient, rounded by the remainder.
-/
import Mathlib

namespace LongDivision

open Nat (ofDigits)

/-! ## One digit -/

/-- The quotient takes one digit more. -/
theorem div_step (b v d den : ℕ) :
    (b * v + d) / den = b * (v / den) + (b * (v % den) + d) / den := by
  rcases Nat.eq_zero_or_pos den with rfl | hden
  · simp
  · have hsplit : b * v + d = b * (v % den) + d + den * (b * (v / den)) := by
      calc b * v + d = b * (v % den + den * (v / den)) + d := by rw [Nat.mod_add_div]
        _ = b * (v % den) + d + den * (b * (v / den)) := by ring
    rw [hsplit, Nat.add_mul_div_left _ _ hden, Nat.add_comm]

/-- The remainder takes the digit in. -/
theorem mod_step (b v d den : ℕ) : (b * v + d) % den = (b * (v % den) + d) % den := by
  rw [Nat.add_mod, Nat.mul_mod, Nat.add_mod (b * (v % den)), Nat.mul_mod b (v % den), Nat.mod_mod]

/-! ## Limb by limb -/

variable (b : ℕ)

/-- The limbs of the quotient, lowest first, and the remainder. -/
def divLimbs (den : ℕ) : List ℕ → List ℕ × ℕ
  | [] => ([], 0)
  | limb :: limbs =>
    let (quotient, rem) := divLimbs den limbs
    ((b * rem + limb) / den :: quotient, (b * rem + limb) % den)

/-- **Dividing limb by limb.** -/
theorem divLimbs_spec (den : ℕ) (limbs : List ℕ) :
    ofDigits b (divLimbs b den limbs).1 = ofDigits b limbs / den ∧
      (divLimbs b den limbs).2 = ofDigits b limbs % den := by
  induction limbs with
  | nil => simp [divLimbs]
  | cons limb limbs ih =>
    obtain ⟨hquotient, hrem⟩ := ih
    have hvalue : ofDigits b (limb :: limbs) = b * ofDigits b limbs + limb := by
      rw [Nat.ofDigits_cons, Nat.add_comm]
    rw [divLimbs, hvalue]
    constructor
    · show ofDigits b (_ :: _) = _
      rw [Nat.ofDigits_cons, hquotient, hrem, div_step b (ofDigits b limbs), Nat.add_comm]
    · show (b * (divLimbs b den limbs).2 + limb) % den = _
      rw [hrem, ← mod_step]

/-- The limbs of the quotient are limbs, since each remainder is below the divisor. -/
theorem divLimbs_lt {den : ℕ} (hden : 0 < den) {limbs : List ℕ} (h : ∀ l ∈ limbs, l < b) :
    (∀ l ∈ (divLimbs b den limbs).1, l < b) ∧ (divLimbs b den limbs).2 < den := by
  induction limbs with
  | nil => exact ⟨by simp [divLimbs], hden⟩
  | cons limb limbs ih =>
    obtain ⟨hquotient, hrem⟩ := ih (fun l hl => h l (List.mem_cons_of_mem _ hl))
    have hlimb := h limb List.mem_cons_self
    rw [divLimbs]
    refine ⟨?_, Nat.mod_lt _ hden⟩
    intro l hl
    rcases List.mem_cons.mp hl with rfl | hl
    · rw [Nat.div_lt_iff_lt_mul hden]
      calc b * (divLimbs b den limbs).2 + limb < b * ((divLimbs b den limbs).2 + 1) := by
            rw [Nat.mul_add]
            omega
        _ ≤ b * den := Nat.mul_le_mul_left b hrem
    · exact hquotient l hl

/-- Multiplying by a factor and adding a carry, lowest limb first; the carry left
over comes with the limbs. -/
def mulAddLimbs (factor : ℕ) : List ℕ → ℕ → List ℕ × ℕ
  | [], carry => ([], carry)
  | limb :: limbs, carry =>
    let (rest, out) := mulAddLimbs factor limbs ((limb * factor + carry) / b)
    ((limb * factor + carry) % b :: rest, out)

/-- **Multiplying and adding, limb by limb**: nothing is lost but the carry. -/
theorem mulAddLimbs_spec (factor : ℕ) (limbs : List ℕ) (carry : ℕ) :
    ofDigits b (mulAddLimbs b factor limbs carry).1 +
        b ^ limbs.length * (mulAddLimbs b factor limbs carry).2 =
      ofDigits b limbs * factor + carry := by
  induction limbs generalizing carry with
  | nil => simp [mulAddLimbs]
  | cons limb limbs ih =>
    have hnext := ih ((limb * factor + carry) / b)
    rw [mulAddLimbs]
    simp only [Nat.ofDigits_cons, List.length_cons]
    set out := mulAddLimbs b factor limbs ((limb * factor + carry) / b)
    calc (limb * factor + carry) % b + b * ofDigits b out.1 + b ^ (limbs.length + 1) * out.2
        = (limb * factor + carry) % b +
            b * (ofDigits b out.1 + b ^ limbs.length * out.2) := by ring
      _ = (limb * factor + carry) % b + b * ((limb * factor + carry) / b) +
            b * (ofDigits b limbs * factor) := by rw [hnext]; ring
      _ = (limb + b * ofDigits b limbs) * factor + carry := by rw [Nat.mod_add_div]; ring

/-! ## Bit by bit -/

/-- Before the bits below `i` of `num` are taken in: the quotient and the remainder
are those of the bits from `i` on. -/
structure BitDivision (num den i quotient rem : ℕ) : Prop where
  quotient_eq : quotient = num / 2 ^ i / den * 2 ^ i
  rem_eq : rem = num / 2 ^ i % den

namespace BitDivision

variable {num den i quotient rem : ℕ}

/-- Before the first bit. -/
theorem start (h : num < 2 ^ i) : BitDivision num den i 0 0 := by
  have hzero : num / 2 ^ i = 0 := Nat.div_eq_of_lt h
  exact ⟨by rw [hzero, Nat.zero_div, Nat.zero_mul], by rw [hzero, Nat.zero_mod]⟩

/-- After the last bit. -/
theorem finish (h : BitDivision num den 0 quotient rem) :
    quotient = num / den ∧ rem = num % den := by
  obtain ⟨hquotient, hrem⟩ := h
  rw [pow_zero, Nat.div_one] at hquotient hrem
  exact ⟨by rw [hquotient, Nat.mul_one], hrem⟩

/-- The bits from `i` on are those above and bit `i`. -/
theorem div_two_pow (num i : ℕ) : num / 2 ^ i = 2 * (num / 2 ^ (i + 1)) + num / 2 ^ i % 2 := by
  rw [pow_succ, ← Nat.div_div_eq_div_mul, Nat.div_add_mod]

/-- **The remainder is no more than the bits taken in**, so that shifting it left
loses nothing, however large the divisor is. -/
theorem remainder_le (h : BitDivision num den i quotient rem) : rem ≤ num / 2 ^ i := by
  rw [h.rem_eq]
  exact Nat.mod_le _ _

/-- **One bit**: the divisor goes into the shifted remainder once or not at all. -/
theorem step (hden : 0 < den) (h : BitDivision num den (i + 1) quotient rem) :
    BitDivision num den i
      (if den ≤ 2 * rem + num / 2 ^ i % 2 then quotient + 2 ^ i else quotient)
      (if den ≤ 2 * rem + num / 2 ^ i % 2 then 2 * rem + num / 2 ^ i % 2 - den
        else 2 * rem + num / 2 ^ i % 2) := by
  obtain ⟨hquotient, hrem⟩ := h
  have hlt : rem < den := by
    rw [hrem]
    exact Nat.mod_lt _ hden
  have hdiv : num / 2 ^ i / den =
      2 * (num / 2 ^ (i + 1) / den) + (2 * rem + num / 2 ^ i % 2) / den := by
    conv_lhs => rw [div_two_pow num i]
    rw [div_step, ← hrem]
  have hmod : num / 2 ^ i % den = (2 * rem + num / 2 ^ i % 2) % den := by
    conv_lhs => rw [div_two_pow num i]
    rw [mod_step, ← hrem]
  have hbit : num / 2 ^ i % 2 < 2 := Nat.mod_lt _ (by norm_num)
  have hshift : quotient = 2 * (num / 2 ^ (i + 1) / den) * 2 ^ i := by
    rw [hquotient]
    ring
  generalize num / 2 ^ i % 2 = bit at *
  split
  · rename_i hle
    -- The remainder was below the divisor, so twice it and a bit holds the divisor at most once.
    have hone : (2 * rem + bit) / den = 1 := Nat.div_eq_of_lt_le (by omega) (by omega)
    constructor
    · rw [hdiv, hone, hshift, Nat.add_mul, Nat.one_mul]
    · rw [hmod, Nat.mod_eq_sub_mod hle, Nat.mod_eq_of_lt (by omega)]
  · rename_i hgt
    constructor
    · rw [hdiv, Nat.div_eq_of_lt (show 2 * rem + bit < den by omega), Nat.add_zero, hshift]
    · rw [hmod, Nat.mod_eq_of_lt (by omega)]

end BitDivision

/-! ## Rounding the exact quotient -/

/-- The exact quotient is the quotient and the remainder's part of the divisor. -/
theorem div_split {K : Type*} [Field K] [CharZero K] (n : ℕ) {den : ℕ} (hden : 0 < den) :
    (n : K) / den = ((n / den : ℕ) : K) + ((n % den : ℕ) : K) / den := by
  have hne : (den : K) ≠ 0 := Nat.cast_ne_zero.mpr (by omega)
  have hn : (n : K) = den * (n / den : ℕ) + (n % den : ℕ) := by
    exact_mod_cast (Nat.div_add_mod n den).symm
  conv_lhs => rw [hn]
  rw [add_div, mul_div_cancel_left₀ _ hne]

section Rounding

variable {K : Type*} [Field K] [LinearOrder K] [IsStrictOrderedRing K] [FloorRing K]

/-- The remainder's part is less than one. -/
theorem mod_div_lt_one (n : ℕ) {den : ℕ} (hden : 0 < den) :
    ((n % den : ℕ) : K) / den < 1 := by
  rw [div_lt_one (Nat.cast_pos.mpr hden)]
  exact_mod_cast Nat.mod_lt n hden

theorem floor_div (n : ℕ) {den : ℕ} (hden : 0 < den) :
    ⌊(n : K) / den⌋ = ((n / den : ℕ) : ℤ) := by
  have hnonneg : 0 ≤ ((n % den : ℕ) : K) / den := by positivity
  rw [div_split n hden, Int.floor_natCast_add, Int.floor_eq_zero_iff.mpr]
  · ring
  · exact ⟨hnonneg, mod_div_lt_one n hden⟩

/-- Rounded up, a quotient with a remainder takes one more. -/
theorem ceil_div (n : ℕ) {den : ℕ} (hden : 0 < den) :
    ⌈(n : K) / den⌉ = ((n / den + if n % den = 0 then 0 else 1 : ℕ) : ℤ) := by
  rw [div_split n hden, Int.ceil_natCast_add]
  split
  · rename_i hzero
    rw [hzero]
    simp
  · rename_i hne
    have hpos : 0 < ((n % den : ℕ) : K) / den :=
      div_pos (Nat.cast_pos.mpr (Nat.pos_of_ne_zero hne)) (Nat.cast_pos.mpr hden)
    have hone : ⌈((n % den : ℕ) : K) / den⌉ = 1 := by
      rw [Int.ceil_eq_iff]
      have := mod_div_lt_one (K := K) n hden
      constructor
      · simpa using hpos
      · simpa using this.le
    rw [hone]
    norm_num

/-- Rounded to the nearest, halves up, it takes one more when the remainder is at
least half the divisor. -/
theorem round_div (n : ℕ) {den : ℕ} (hden : 0 < den) :
    round ((n : K) / den) = ((n / den + if den ≤ 2 * (n % den) then 1 else 0 : ℕ) : ℤ) := by
  have hpos : (0 : K) < den := Nat.cast_pos.mpr hden
  rw [div_split n hden, round_natCast_add]
  split
  · rename_i hhalf
    have hone : round (((n % den : ℕ) : K) / den) = 1 := by
      have hcast : (den : K) ≤ 2 * (n % den : ℕ) := by exact_mod_cast hhalf
      have hlt := mod_div_lt_one (K := K) n hden
      rw [round_eq_iff]
      constructor
      · rw [le_div_iff₀ hpos]
        push_cast
        linarith
      · push_cast
        linarith
    rw [hone]
    norm_num
  · rename_i hhalf
    have hzero : round (((n % den : ℕ) : K) / den) = 0 := by
      have hcast : 2 * ((n % den : ℕ) : K) < den := by exact_mod_cast Nat.lt_of_not_ge hhalf
      have hnonneg : 0 ≤ ((n % den : ℕ) : K) / den := by positivity
      rw [round_eq_iff]
      constructor
      · push_cast
        linarith
      · rw [div_lt_iff₀ hpos]
        push_cast
        linarith
    rw [hzero]
    norm_num

end Rounding

end LongDivision
