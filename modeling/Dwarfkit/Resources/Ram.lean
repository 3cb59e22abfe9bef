/-
# The price of RAM

`RAMState::get_input` and `price_per` of `resources/ram.cpp`: the Bancor price
`quote * bytes / (base - bytes)`, rounded up.  The denominator is a difference of signed
64-bit integers and the quotient is cut to 64 bits, neither of them guarded.

* `priced_iff` : for which markets and amounts the answer is the price.
-/
import Dwarfkit.Antelope.Chain.Asset
import Dwarfkit.Resources.Decimal

namespace Dwarfkit

/-- The balances of the RAM market. -/
structure RAMState where
  base : Asset := {}
  quote : Asset := {}

namespace RAMState

/-! ## The price -/

/-- A difference of signed integers; C++ says nothing of one that leaves their range. -/
def difference (a b : Int64) : Option Int64 :=
  if -2 ^ 63 ≤ a.toInt - b.toInt ∧ a.toInt - b.toInt < 2 ^ 63 then some (a - b) else none

/-- `get_input`; without an answer where the difference has none. -/
def getInput (baseUnits quoteUnits value : Int64) : Option (Result Int64) := do
  let numerator := (Int128.ofInt64 quoteUnits).multiplying (.ofInt64 value)
  let denominator ← difference baseUnits value
  return do
    let quotient ← numerator.dividing (.ofInt64 denominator) .ceil
    return quotient.toInt64

/-- `price_per` of a number of bytes that `saturateInt64` has made an integer. -/
def pricePer (state : RAMState) (bytes : Int64) : Option (Result Asset) := do
  let input ← getInput state.base.units state.quote.units bytes
  return do
    let units ← input
    return { units, symbol := state.quote.symbol }

/-! ## The exact price -/

/-- `quote * bytes / (base - bytes)`. -/
def exactPrice (base quote bytes : Int64) : ℚ :=
  (quote.toInt * bytes.toInt : ℤ) / (base.toInt - bytes.toInt : ℤ)

/-- The answer for a market is an error or the price, which is not negative. -/
def Priced (base quote bytes : Int64) : Prop :=
  ∃ answer, getInput base quote bytes = some answer ∧
    ∀ units, answer = .ok units →
      0 ≤ units.toInt ∧ units.toInt = ⌈exactPrice base quote bytes⌉

/-- Two 64-bit integers have a product of 127 bits. -/
theorem mul_bounds (a b : Int64) :
    -2 ^ 126 ≤ a.toInt * b.toInt ∧ a.toInt * b.toInt ≤ 2 ^ 126 := by
  have ha := a.le_toInt
  have ha' := a.toInt_lt
  have hb := b.le_toInt
  have hb' := b.toInt_lt
  have habs : (a.toInt * b.toInt).natAbs ≤ 2 ^ 63 * 2 ^ 63 := by
    rw [Int.natAbs_mul]
    exact Nat.mul_le_mul (by omega) (by omega)
  omega

theorem toInt_product (a b : Int64) :
    ((Int128.ofInt64 a).multiplying (.ofInt64 b)).toInt = a.toInt * b.toInt := by
  have hbounds := mul_bounds a b
  rw [Resources.toInt_multiplying_of_lt]
  · rw [Int128.toInt_ofInt64, Int128.toInt_ofInt64]
  · rw [Int128.toInt_ofInt64, Int128.toInt_ofInt64]
    omega
  · rw [Int128.toInt_ofInt64, Int128.toInt_ofInt64]
    omega

/-- A difference that fits. -/
theorem difference_eq {a b : Int64}
    (h : -2 ^ 63 ≤ a.toInt - b.toInt ∧ a.toInt - b.toInt < 2 ^ 63) :
    difference a b = some (a - b) ∧ (a - b).toInt = a.toInt - b.toInt := by
  refine ⟨by rw [difference, if_pos h], ?_⟩
  rw [Int64.toInt_sub]
  apply Int.bmod_eq_of_le
  · norm_num
    omega
  · norm_num
    omega

/-- **The answer where there is one**: an error for a denominator of zero, and the rounded
quotient cut to 64 bits for any other. -/
theorem getInput_eq {base quote bytes : Int64}
    (h : -2 ^ 63 ≤ base.toInt - bytes.toInt ∧ base.toInt - bytes.toInt < 2 ^ 63) :
    (base.toInt - bytes.toInt = 0 →
      getInput base quote bytes = some (err .invalid "Division by zero")) ∧
    (base.toInt - bytes.toInt ≠ 0 → ∃ units,
      getInput base quote bytes = some (.ok units) ∧
      units.toInt = (Int128.signedRounded .ceil (quote.toInt * bytes.toInt)
        (base.toInt - bytes.toInt)).bmod (2 ^ 64)) := by
  obtain ⟨hdifference, hvalue⟩ := difference_eq h
  have hanswer : getInput base quote bytes =
      some (((Int128.ofInt64 quote).multiplying (.ofInt64 bytes)).dividing
        (.ofInt64 (base - bytes)) .ceil >>= fun quotient => .ok quotient.toInt64) := by
    unfold getInput
    rw [hdifference]
    rfl
  have hdenominator : (Int128.ofInt64 (base - bytes)).toInt = base.toInt - bytes.toInt := by
    rw [Int128.toInt_ofInt64, hvalue]
  rw [hanswer]
  constructor
  · intro hzero
    -- The only error there is: the subtraction itself is undefined where it overflows.
    have hempty : Int128.ofInt64 (base - bytes) = {} :=
      (Int128.toInt_eq_zero_iff _).mp (hdenominator.trans hzero)
    rw [Int128.dividing, if_pos hempty]
    rfl
  · intro hne
    obtain ⟨rv, hrv, -, hexact⟩ := Int128.roundsRight
      ((Int128.ofInt64 quote).multiplying (.ofInt64 bytes)) (b := .ofInt64 (base - bytes))
      (by rw [hdenominator]; exact hne) .ceil
    have hbounds := mul_bounds quote bytes
    rw [toInt_product, hdenominator] at hexact
    refine ⟨rv.toInt64, by rw [hrv]; rfl, ?_⟩
    rw [Int128.toInt_toInt64, hexact (by omega)]

/-- A number of at most 64 bits that is cut to them. -/
theorem bmod_of_lt {n : ℤ} (hlow : -2 ^ 63 ≤ n) (hhigh : n < 2 ^ 63) : n.bmod (2 ^ 64) = n := by
  apply Int.bmod_eq_of_le
  · norm_num
    omega
  · norm_num
    omega

/-- **When the answer is the price**: the denominator fits 64 bits, and it is zero (an
error), or the exact price is not negative and fits 64 bits once it is rounded up. -/
theorem priced_iff (base quote bytes : Int64) :
    Priced base quote bytes ↔
      (-2 ^ 63 ≤ base.toInt - bytes.toInt ∧ base.toInt - bytes.toInt < 2 ^ 63) ∧
        (base = bytes ∨
          0 ≤ exactPrice base quote bytes ∧ ⌈exactPrice base quote bytes⌉ < 2 ^ 63) := by
  by_cases hfits : -2 ^ 63 ≤ base.toInt - bytes.toInt ∧ base.toInt - bytes.toInt < 2 ^ 63
  swap
  · refine ⟨?_, fun h => absurd h.1 hfits⟩
    rintro ⟨answer, hanswer, -⟩
    rw [getInput, difference, if_neg hfits] at hanswer
    cases hanswer
  obtain ⟨hzero, hquotient⟩ := @getInput_eq base quote bytes hfits
  by_cases hne : base.toInt - bytes.toInt = 0
  · have hsame : base = bytes := Int64.toInt_inj.mp (by omega)
    refine ⟨fun _ => ⟨hfits, .inl hsame⟩, fun _ => ⟨_, hzero hne, ?_⟩⟩
    rintro units ⟨⟩
  have hdiffer : base ≠ bytes := by
    rintro rfl
    omega
  obtain ⟨units, hanswer, hunits⟩ := hquotient hne
  have hpriced : Priced base quote bytes ↔
      0 ≤ units.toInt ∧ units.toInt = ⌈exactPrice base quote bytes⌉ := by
    constructor
    · rintro ⟨answer, hsome, hprice⟩
      rw [hanswer] at hsome
      exact hprice units (Option.some.inj hsome).symm
    · intro hprice
      refine ⟨_, hanswer, ?_⟩
      rintro _ ⟨⟩
      exact hprice
  rw [hpriced]
  simp only [hfits, hdiffer, true_and, false_or, and_self]
  by_cases hnonneg : 0 ≤ exactPrice base quote bytes
  · have hround : Int128.signedRounded .ceil (quote.toInt * bytes.toInt)
        (base.toInt - bytes.toInt) = ⌈exactPrice base quote bytes⌉ :=
      Int128.signedRounded_of_nonneg .ceil hne hnonneg
    have hceil : 0 ≤ ⌈exactPrice base quote bytes⌉ := Int.ceil_nonneg hnonneg
    rw [hround] at hunits
    constructor
    · rintro ⟨-, hprice⟩
      exact ⟨hnonneg, hprice ▸ units.toInt_lt⟩
    · rintro ⟨-, hlt⟩
      rw [bmod_of_lt (by omega) hlt] at hunits
      exact ⟨by omega, hunits⟩
  · -- a negative quotient is rounded away from zero, so that it is never the ceiling
    refine ⟨fun h => absurd h ?_, fun h => absurd h.1 hnonneg⟩
    rintro ⟨hunits0, hprice⟩
    have hneg : exactPrice base quote bytes < 0 := not_le.mp hnonneg
    have hround : Int128.signedRounded .ceil (quote.toInt * bytes.toInt)
        (base.toInt - bytes.toInt) = -⌈-exactPrice base quote bytes⌉ :=
      Int128.signedRounded_of_neg .ceil hneg
    have hceil : ⌈exactPrice base quote bytes⌉ = 0 :=
      le_antisymm (Int.ceil_le.mpr (by exact_mod_cast hneg.le)) (hprice ▸ hunits0)
    have hone : ⌈-exactPrice base quote bytes⌉ = 1 := by
      rw [Int.ceil_eq_iff] at hceil ⊢
      push_cast at hceil ⊢
      constructor
      · linarith
      · linarith [hceil.1]
    rw [hround, hone, bmod_of_lt (by norm_num) (by norm_num)] at hunits
    omega

/-- `price_per` answers with the price, in the symbol of the quote. -/
theorem pricePer_of_priced {state : RAMState} {bytes : Int64} {asset : Asset}
    (h : Priced state.base.units state.quote.units bytes)
    (hasset : state.pricePer bytes = some (.ok asset)) :
    asset.symbol = state.quote.symbol ∧ 0 ≤ asset.units.toInt ∧
      asset.units.toInt = ⌈exactPrice state.base.units state.quote.units bytes⌉ := by
  obtain ⟨answer, hanswer, hprice⟩ := h
  rw [pricePer, hanswer] at hasset
  cases answer with
  | error e => cases hasset
  | ok units =>
    cases hasset
    exact ⟨rfl, hprice units rfl⟩

/-- A price of `2 ^ 64` that comes out as zero, and a negative one. -/
theorem not_priced :
    ¬ Priced 4611686018427387905 4 4611686018427387904 ∧ ¬ Priced 5 100 10 := by
  have hcut : getInput 4611686018427387905 4 4611686018427387904 = some (.ok 0) := by
    decide +kernel
  have hnegative : getInput 5 100 10 = some (.ok (-200)) := by decide +kernel
  constructor
  · rintro ⟨answer, hanswer, hprice⟩
    rw [hcut] at hanswer
    obtain ⟨-, hzero⟩ := hprice 0 (Option.some.inj hanswer).symm
    have hexact : exactPrice 4611686018427387905 4 4611686018427387904 = 2 ^ 64 := by
      have h1 : (4611686018427387905 : Int64).toInt = 4611686018427387905 := by decide
      have h2 : (4611686018427387904 : Int64).toInt = 4611686018427387904 := by decide
      have h3 : (4 : Int64).toInt = 4 := by decide
      rw [exactPrice, h1, h2, h3]
      norm_num
    rw [hexact] at hzero
    norm_num at hzero
    exact absurd hzero (by decide)
  · rintro ⟨answer, hanswer, hprice⟩
    rw [hnegative] at hanswer
    obtain ⟨hpos, -⟩ := hprice (-200) (Option.some.inj hanswer).symm
    exact absurd hpos (by decide)

end RAMState

end Dwarfkit
