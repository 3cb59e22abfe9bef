/-
# 128-bit decimal text

Reading a decimal text multiplies the limbs by ten and adds a digit; a carry out of
the fourth limb is remembered, and the three overflow behaviours decide by it what
comes of the number.

* `parseDecimal_eq` : the number that is read, and whether it fits;
* `readsLiterals_uint128`, `readsLiterals_int128` : what comes of every text;
* `decimal128_exact` : that, and every value read back from its text.
-/
import Dwarfkit.Antelope.Chain.Limbs128
import Dwarfkit.Antelope.Chain.AssetText

namespace Dwarfkit

namespace Decimal128

/-! ## Reading -/

/-- `ParsedUnsigned`: the low 128 bits of the magnitude, whether there are more, and
the text an overflow error shows. -/
structure ParsedUnsigned where
  lo : UInt64 := 0
  hi : UInt64 := 0
  negative : Bool := false
  overflowed : Bool := false
  normalized : Str := []
  deriving DecidableEq

/-- The loop of `parseDecimal` over the digits. -/
def addDigits : Str → Limbs × Bool → Result (Limbs × Bool)
  | [], st => .ok st
  | c :: rest, (magnitude, overflowed) =>
    if c < 48 ∨ 57 < c then err .invalid "Invalid number"
    else
      let (magnitude, carry) := magnitude.mulAdd 10 (c - 48).toUInt32
      addDigits rest (magnitude, overflowed || carry ≠ 0)

/-- The text of the digits from the first one on that is not zero. -/
def shownDigits (value : Str) : Str :=
  match (value.dropWhile (fun c => c < 48 ∨ 57 < c)).dropWhile (· = 48) with
  | [] => lit "0"
  | c :: rest => if c < 48 ∨ 57 < c then lit "0" else c :: rest

/-- `parseDecimal`. -/
def parseDecimal (value : Str) : Result ParsedUnsigned := do
  let (negative, digits) := match value with
    | 45 :: rest => (true, rest)
    | 43 :: rest => (false, rest)
    | _ => (false, value)
  if digits = [] then err .invalid "Invalid number"
  let (magnitude, overflowed) ← addDigits digits (⟨[0, 0, 0, 0], rfl⟩, false)
  let shown := shownDigits value
  let negative := negative && shown ≠ lit "0"
  return {
    lo := magnitude.halves.lo
    hi := magnitude.halves.hi
    negative
    overflowed
    normalized := if negative then 45 :: shown else shown }

/-- What the limbs and the flag say after digits of the value `n`. -/
structure Accumulated (n : ℕ) (st : Limbs × Bool) : Prop where
  value_eq : st.1.toNat = n % 2 ^ 128
  overflowed_eq : st.2 = decide (2 ^ 128 ≤ n)

/-- **One digit more**: a number that has overflowed once stays out of range. -/
theorem Accumulated.step {n : ℕ} {st : Limbs × Bool} (h : Accumulated n st) {c : UInt8}
    (hc : 48 ≤ c ∧ c ≤ 57) :
    Accumulated (n * 10 + (c.toNat - 48))
      ((st.1.mulAdd 10 (c - 48).toUInt32).1,
        st.2 || (st.1.mulAdd 10 (c - 48).toUInt32).2 ≠ 0) := by
  obtain ⟨hlow, hhigh⟩ := digit_toNat hc
  have hspec := st.1.mulAdd_spec 10 (c - 48).toUInt32
  have hdigit : (c - 48).toUInt32.toNat = c.toNat - 48 := by
    rw [UInt8.toNat_toUInt32, UInt8.toNat_sub_of_le _ _ hc.1]
    rfl
  rw [hdigit, h.value_eq, show (10 : UInt32).toNat = 10 from rfl] at hspec
  have hlt := (st.1.mulAdd 10 (c - 48).toUInt32).1.toNat_lt
  have hcarry : (st.1.mulAdd 10 (c - 48).toUInt32).2 ≠ 0 ↔
      (st.1.mulAdd 10 (c - 48).toUInt32).2.toNat ≠ 0 := by
    rw [Ne, ← UInt32.toNat_inj, UInt32.toNat_zero]
  constructor
  · show (st.1.mulAdd 10 (c - 48).toUInt32).1.toNat = _
    omega
  · show (st.2 || decide ((st.1.mulAdd 10 (c - 48).toUInt32).2 ≠ 0)) = _
    rw [h.overflowed_eq, ← Bool.decide_or, decide_eq_decide, hcarry]
    omega

/-- Digits are added one after the other. -/
theorem addDigits_spec {text : Str} (htext : IsDigits text) {n : ℕ} {st : Limbs × Bool}
    (h : Accumulated n st) :
    ∃ st', addDigits text st = .ok st' ∧ Accumulated (valueAfter n text) st' := by
  induction text generalizing n st with
  | nil => exact ⟨st, rfl, h⟩
  | cons c text ih =>
    have hc := htext c List.mem_cons_self
    have hdigit : ¬ (c < 48 ∨ 57 < c) := fun hout => (not_digit_iff c).mp hout hc
    obtain ⟨st', hst', hacc⟩ := ih (fun d hd => htext d (List.mem_cons_of_mem _ hd)) (h.step hc)
    refine ⟨st', ?_, ?_⟩
    · rw [addDigits, if_neg hdigit]
      exact hst'
    · rw [valueAfter_cons]
      exact hacc

/-- Anything else among them is an error. -/
theorem addDigits_error {text : Str} (htext : ¬ IsDigits text) (st : Limbs × Bool) :
    addDigits text st = err .invalid "Invalid number" := by
  induction text generalizing st with
  | nil => exact absurd (fun c hc => nomatch hc) htext
  | cons c text ih =>
    rw [addDigits]
    split
    · rfl
    · rename_i hdigit
      apply ih
      intro hrest
      apply htext
      intro d hd
      rcases List.mem_cons.mp hd with rfl | hd
      · exact not_not.mp (fun hnot => hdigit ((not_digit_iff d).mpr hnot))
      · exact hrest d hd

/-! ## Literals -/

/-- A decimal literal: a sign or none, and digits. -/
def IsDecimal (value : Str) (n : ℤ) : Prop :=
  ∃ sign negative digits, value = sign ++ digits ∧ SignText sign negative ∧ digits ≠ [] ∧
    IsDigits digits ∧ n = signedMagnitude negative (digitsValue digits)

/-- Leading zeros do not count. -/
theorem digitsValue_dropWhile (digits : Str) :
    digitsValue (digits.dropWhile (· = 48)) = digitsValue digits := by
  induction digits with
  | nil => rfl
  | cons c rest ih =>
    by_cases hc : c = 48
    · subst hc
      rw [List.dropWhile_cons_of_pos (by simp), ih, digitsValue_eq, digitsValue_eq, valueAfter_cons]
      rfl
    · rw [List.dropWhile_cons_of_neg (by simpa using hc)]

/-- Without their leading zeros, digits are how their value is written. -/
theorem dropWhile_zeros {digits : Str} (hdigits : IsDigits digits)
    (h : digits.dropWhile (· = 48) ≠ []) :
    digits.dropWhile (· = 48) = natToString (digitsValue digits) := by
  have hsub := List.dropWhile_subset (fun c : UInt8 => decide (c = 48)) (l := digits)
  rw [← digitsValue_dropWhile, natToString_digitsValue h (fun c hc => hdigits c (hsub hc))]
  rintro ⟨-, hhead⟩
  have := List.head_dropWhile_not (fun c : UInt8 => decide (c = 48)) h
  rw [List.head?_eq_some_head h] at hhead
  rw [Option.some.inj hhead] at this
  simp at this

/-- **The text an overflow error shows** is how the magnitude is written. -/
theorem shownDigits_eq {sign digits : Str} {negative : Bool} (hsign : SignText sign negative)
    (hne : digits ≠ []) (hdigits : IsDigits digits) :
    shownDigits (sign ++ digits) = natToString (digitsValue digits) := by
  have hfirst : (sign ++ digits).dropWhile (fun c => c < 48 ∨ 57 < c) = digits := by
    obtain ⟨c, rest, rfl⟩ := List.exists_cons_of_ne_nil hne
    have hc : ¬ (c < 48 ∨ 57 < c) := fun h => (not_digit_iff c).mp h (hdigits c List.mem_cons_self)
    rw [List.dropWhile_append_of_pos, List.dropWhile_cons_of_neg (by simpa using hc)]
    intro d hd
    cases hsign with
    | none => cases hd
    | plus =>
      rw [List.mem_singleton.mp hd]
      decide
    | minus =>
      rw [List.mem_singleton.mp hd]
      decide
  rw [shownDigits, hfirst]
  split
  · rename_i hnil
    rw [← digitsValue_dropWhile, hnil]
    rfl
  · rename_i c rest hcons
    -- A digit is left, so leading zeros are dropped and the number does not vanish.
    have hnon : digits.dropWhile (· = 48) ≠ [] := by
      rw [hcons]
      exact List.cons_ne_nil _ _
    have hmem : c ∈ digits := by
      have hsub := List.dropWhile_subset (fun c : UInt8 => decide (c = 48)) (l := digits)
      apply hsub
      rw [hcons]
      exact List.mem_cons_self
    rw [if_neg (fun h => (not_digit_iff c).mp h (hdigits c hmem)), ← hcons,
      dropWhile_zeros hdigits hnon]

/-- Only zero is shown as `0`. -/
theorem natToString_eq_zero_iff (n : ℕ) : natToString n = lit "0" ↔ n = 0 := by
  constructor
  · intro h
    rw [← digitsValue_natToString n, h]
    rfl
  · rintro rfl
    rfl

/-- The sign is taken off before the digits are read. -/
theorem parseDecimal_split (value : Str) : parseDecimal value =
    if (Asset.splitSign value).2 = [] then err .invalid "Invalid number"
    else do
      let (magnitude, overflowed) ←
        addDigits (Asset.splitSign value).2 (⟨[0, 0, 0, 0], rfl⟩, false)
      let negative := (Asset.splitSign value).1 && shownDigits value ≠ lit "0"
      return {
        lo := magnitude.halves.lo
        hi := magnitude.halves.hi
        negative
        overflowed
        normalized := if negative then 45 :: shownDigits value else shownDigits value } := by
  unfold parseDecimal
  rcases value with - | ⟨c, rest⟩
  · rfl
  by_cases hminus : c = 45
  · subst hminus
    rcases rest with - | ⟨d, rest⟩ <;> rfl
  by_cases hplus : c = 43
  · subst hplus
    rcases rest with - | ⟨d, rest⟩ <;> rfl
  simp [Asset.splitSign, hminus, hplus]

/-- What is read of a literal of the value `n`. -/
structure Reads (n : ℤ) (parsed : ParsedUnsigned) : Prop where
  magnitude_eq : (UInt128.mk parsed.lo parsed.hi).toNat = n.natAbs % 2 ^ 128
  negative_eq : parsed.negative = decide (n < 0)
  overflowed_eq : parsed.overflowed = decide (2 ^ 128 ≤ n.natAbs)
  normalized_eq : parsed.normalized = intToString n

theorem natAbs_signedMagnitude (negative : Bool) (m : ℕ) :
    (signedMagnitude negative m).natAbs = m := by
  rw [signedMagnitude]
  split
  · rw [Int.natAbs_neg, Int.natAbs_natCast]
  · rw [Int.natAbs_natCast]

/-- A minus in front of zeros is none. -/
theorem signedMagnitude_neg_iff (negative : Bool) (m : ℕ) :
    signedMagnitude negative m < 0 ↔ negative = true ∧ m ≠ 0 := by
  rw [signedMagnitude]
  split
  · rename_i h
    exact ⟨fun _ => ⟨h, by omega⟩, fun ⟨_, hm⟩ => by omega⟩
  · rename_i h
    exact ⟨fun hlt => by omega, fun ⟨hn, _⟩ => absurd hn h⟩

/-- **A literal is read as its value**, by its sign, its low 128 bits and the flag. -/
theorem parseDecimal_eq {value : Str} {n : ℤ} (h : IsDecimal value n) :
    ∃ parsed, parseDecimal value = .ok parsed ∧ Reads n parsed := by
  obtain ⟨sign, negative, digits, rfl, hsign, hne, hdigits, rfl⟩ := h
  have hstart : Accumulated 0 (⟨[0, 0, 0, 0], rfl⟩, false) := ⟨rfl, rfl⟩
  obtain ⟨⟨magnitude, overflowed⟩, hread, hvalue, hover⟩ := addDigits_spec hdigits hstart
  have hshown := shownDigits_eq hsign hne hdigits
  have hsplit := Asset.splitSign_append hsign hne hdigits
  rw [← digitsValue_eq] at hvalue hover
  -- The source takes `-0` for no negative number by comparing the digits it shows.
  have hnegative : (negative && decide (shownDigits (sign ++ digits) ≠ lit "0")) =
      decide (signedMagnitude negative (digitsValue digits) < 0) := by
    have hiff := signedMagnitude_neg_iff negative (digitsValue digits)
    have hzero : shownDigits (sign ++ digits) ≠ lit "0" ↔ digitsValue digits ≠ 0 := by
      rw [hshown, Ne, natToString_eq_zero_iff]
    rw [Bool.eq_iff_iff, Bool.and_eq_true, decide_eq_true_eq, decide_eq_true_eq, hzero, hiff]
  rw [parseDecimal_split, hsplit, if_neg hne, hread]
  refine ⟨_, rfl, ?_, ?_, ?_, ?_⟩
  · rw [natAbs_signedMagnitude]
    exact (Limbs.toNat_halves magnitude).trans hvalue
  · exact hnegative
  · rw [natAbs_signedMagnitude]
    exact hover
  · show (if (negative && decide (shownDigits (sign ++ digits) ≠ lit "0")) = true then
      45 :: shownDigits (sign ++ digits) else shownDigits (sign ++ digits)) = _
    rw [hnegative, intToString, natAbs_signedMagnitude, hshown]
    simp only [decide_eq_true_eq]

/-- **Any other text is an error.** -/
theorem parseDecimal_error {value : Str} (h : ∀ n, ¬ IsDecimal value n) :
    parseDecimal value = err .invalid "Invalid number" := by
  obtain ⟨sign, hsign, hvalue⟩ := Asset.splitSign_spec value
  rw [parseDecimal_split]
  by_cases hne : (Asset.splitSign value).2 = []
  · rw [if_pos hne]
  · have hdigits : ¬ IsDigits (Asset.splitSign value).2 := fun hdigits =>
      h _ ⟨sign, _, _, hvalue, hsign, hne, hdigits, rfl⟩
    rw [if_neg hne, addDigits_error hdigits]
    rfl

/-- How a number is written is a literal of it. -/
theorem isDecimal_natToString (n : ℕ) : IsDecimal (natToString n) n :=
  ⟨[], false, natToString n, rfl, .none, natToString_ne_nil n, isDigits_natToString n, by
    rw [digitsValue_natToString, signedMagnitude, if_neg Bool.false_ne_true]⟩

theorem isDecimal_neg_natToString (n : ℕ) : IsDecimal (45 :: natToString n) (-n) :=
  ⟨[45], true, natToString n, rfl, .minus, natToString_ne_nil n, isDigits_natToString n, by
    rw [digitsValue_natToString, signedMagnitude, if_pos rfl]⟩

end Decimal128

/-! ## The overflow behaviours -/

/-- `OverflowBehavior`. -/
inductive OverflowBehavior where
  | throw
  | truncate
  | clamp
  deriving DecidableEq, Repr

namespace UInt128

/-- `UInt128::max`. -/
def max : UInt128 := { lo := 0xffffffffffffffff, hi := 0xffffffffffffffff }

/-- `UInt128::min`. -/
def min : UInt128 := {}

/-- `UInt128::from(string_view, OverflowBehavior)`. -/
def ofDecimal (value : Str) (overflow : OverflowBehavior) : Result UInt128 := do
  let parsed ← Decimal128.parseDecimal value
  match overflow with
  | .throw =>
    if parsed.negative then
      err .invalid (lit "Number " ++ parsed.normalized ++ lit " underflows uint128")
    else if parsed.overflowed then
      err .invalid (lit "Number " ++ parsed.normalized ++ lit " overflows uint128")
    else return { lo := parsed.lo, hi := parsed.hi }
  | .truncate =>
    if parsed.negative then
      return UInt128.adding { lo := ~~~parsed.lo, hi := ~~~parsed.hi } { lo := 1 }
    else return { lo := parsed.lo, hi := parsed.hi }
  | .clamp =>
    if parsed.negative then return min
    else if parsed.overflowed then return max
    else return { lo := parsed.lo, hi := parsed.hi }

end UInt128

namespace Int128

open Decimal128

/-- `Int128::max`. -/
def max : Int128 := { lo := 0xffffffffffffffff, hi := 0x7fffffffffffffff }

/-- `Int128::min`. -/
def min : Int128 := { lo := 0, hi := 0x8000000000000000 }

/-- `Int128::from(string_view, OverflowBehavior)`. -/
def ofDecimal (value : Str) (overflow : OverflowBehavior) : Result Int128 := do
  let parsed ← Decimal128.parseDecimal value
  -- magnitude limits: 2^127 - 1 positive, 2^127 negative
  let overflows : Bool := parsed.overflowed ||
    (!parsed.negative && parsed.hi >>> 63 ≠ 0) ||
    (parsed.negative && (0x8000000000000000 < parsed.hi ∨
      (parsed.hi = 0x8000000000000000 ∧ parsed.lo ≠ 0)))
  let result : Int128 := { lo := parsed.lo, hi := parsed.hi }
  let result := if parsed.negative then result.negated else result
  match overflow with
  | .throw =>
    if overflows then
      err .invalid (lit "Number " ++ parsed.normalized ++
        (if parsed.negative then lit " underflows int128" else lit " overflows int128"))
    else return result
  | .truncate => return result
  | .clamp =>
    if overflows then return if parsed.negative then min else max
    else return result

/-- `Int128::toString`. -/
def decimalText (v : Int128) : Str :=
  if v.isNegative then 45 :: unsignedToString v.negated.toUnsigned
  else unsignedToString v.toUnsigned

end Int128

namespace Decimal128

theorem Reads.halves_eq {n : ℤ} {parsed : ParsedUnsigned} (h : Reads n parsed) :
    UInt128.mk parsed.lo parsed.hi = .ofNat n.natAbs := by
  apply UInt128.toNat_injective
  rw [h.magnitude_eq, UInt128.toNat_ofNat]

/-! ### Unsigned -/

/-- `UInt128::from` on a literal, in terms of its value. -/
theorem uint128_ofDecimal_eq {value : Str} {n : ℤ} (h : IsDecimal value n)
    (overflow : OverflowBehavior) : UInt128.ofDecimal value overflow =
      match overflow with
      | .throw =>
        if n < 0 then err .invalid (lit "Number " ++ intToString n ++ lit " underflows uint128")
        else if 2 ^ 128 ≤ n.natAbs then
          err .invalid (lit "Number " ++ intToString n ++ lit " overflows uint128")
        else .ok (.ofNat n.natAbs)
      | .truncate => .ok (.ofNat (n % 2 ^ 128).toNat)
      | .clamp =>
        if n < 0 then .ok .min
        else if 2 ^ 128 ≤ n.natAbs then .ok .max
        else .ok (.ofNat n.natAbs) := by
  obtain ⟨parsed, hparsed, hreads⟩ := parseDecimal_eq h
  have hhalves := hreads.halves_eq
  rw [UInt128.ofDecimal, hparsed]
  cases overflow with
  | throw =>
    show (if parsed.negative = true then _ else if parsed.overflowed = true then _ else _) = _
    simp only [hreads.negative_eq, hreads.overflowed_eq, decide_eq_true_eq,
      hreads.normalized_eq, hhalves]
    rfl
  | truncate =>
    show (if parsed.negative = true then _ else _) = _
    simp only [hreads.negative_eq, decide_eq_true_eq, hhalves]
    split
    · rename_i hneg
      refine congrArg Except.ok (UInt128.toNat_injective ?_)
      -- Only truncating accepts a negative literal: its two's complement is the remainder.
      have hnegated := Int128.toNat_negated ⟨parsed.lo, parsed.hi⟩
      refine hnegated.trans ?_
      show (2 ^ 128 - (UInt128.mk parsed.lo parsed.hi).toNat) % 2 ^ 128 = _
      rw [hreads.magnitude_eq, UInt128.toNat_ofNat]
      omega
    · rename_i hneg
      refine congrArg Except.ok (UInt128.toNat_injective ?_)
      rw [UInt128.toNat_ofNat, UInt128.toNat_ofNat]
      omega
  | clamp =>
    show (if parsed.negative = true then _ else if parsed.overflowed = true then _ else _) = _
    simp only [hreads.negative_eq, hreads.overflowed_eq, decide_eq_true_eq, hhalves]
    rfl

/-! ### Signed -/

/-- The two's complement integer of a number, modulo `2 ^ 128`. -/
def signedOf (n : ℤ) : Int128 :=
  if n < 0 then (Int128.ofUnsigned (.ofNat n.natAbs)).negated
  else Int128.ofUnsigned (.ofNat n.natAbs)

theorem toInt_signedOf (n : ℤ) : (signedOf n).toInt = n.bmod (2 ^ 128) := by
  rw [signedOf, Int128.toInt_signed (n < 0) (UInt128.toNat_ofNat n.natAbs)]
  congr 1
  split <;> omega

theorem toInt_min : Int128.min.toInt = -2 ^ 127 := by decide +kernel

theorem toInt_max : Int128.max.toInt = 2 ^ 127 - 1 := by decide +kernel

/-- The halves of a magnitude that is out of the range of a sign. -/
theorem halves_overflow_iff (lo hi : UInt64) :
    (hi >>> 63 ≠ 0 ↔ 2 ^ 127 ≤ (UInt128.mk lo hi).toNat) ∧
      ((0x8000000000000000 < hi ∨ (hi = 0x8000000000000000 ∧ lo ≠ 0)) ↔
        2 ^ 127 < (UInt128.mk lo hi).toNat) := by
  have hlo := lo.toNat_lt
  have htop : (0x8000000000000000 : UInt64).toNat = 2 ^ 63 := rfl
  constructor
  · have hnegative := Int128.isNegative_iff ⟨lo, hi⟩
    rw [Int128.isNegative, decide_eq_true_eq] at hnegative
    exact hnegative
  · simp only [UInt64.lt_iff_toNat_lt, ← UInt64.toNat_inj, htop, UInt128.toNat, Ne,
      UInt64.toNat_zero]
    omega

/-- `Int128::from` on a literal, in terms of its value. -/
theorem int128_ofDecimal_eq {value : Str} {n : ℤ} (h : IsDecimal value n)
    (overflow : OverflowBehavior) : Int128.ofDecimal value overflow =
      match overflow with
      | .throw =>
        if n < -2 ^ 127 ∨ 2 ^ 127 ≤ n then
          err .invalid (lit "Number " ++ intToString n ++
            (if n < 0 then lit " underflows int128" else lit " overflows int128"))
        else .ok (signedOf n)
      | .truncate => .ok (signedOf n)
      | .clamp =>
        if n < -2 ^ 127 ∨ 2 ^ 127 ≤ n then .ok (if n < 0 then .min else .max)
        else .ok (signedOf n) := by
  obtain ⟨parsed, hparsed, hreads⟩ := parseDecimal_eq h
  obtain ⟨hpositive, hnegative⟩ := halves_overflow_iff parsed.lo parsed.hi
  rw [hreads.magnitude_eq] at hpositive hnegative
  have hresult : (if parsed.negative = true then (Int128.mk parsed.lo parsed.hi).negated
      else Int128.mk parsed.lo parsed.hi) = signedOf n := by
    have hhalves : Int128.mk parsed.lo parsed.hi = Int128.ofUnsigned (.ofNat n.natAbs) :=
      congrArg Int128.ofUnsigned hreads.halves_eq
    rw [hhalves, hreads.negative_eq, signedOf]
    simp only [decide_eq_true_eq]
  -- One test for both ends: the top bit of a positive magnitude, more than `2 ^ 127` of a negative.
  have hoverflows : (parsed.overflowed ||
      (!parsed.negative && decide (parsed.hi >>> 63 ≠ 0)) ||
      (parsed.negative && decide (0x8000000000000000 < parsed.hi ∨
        (parsed.hi = 0x8000000000000000 ∧ parsed.lo ≠ 0)))) =
      decide (n < -2 ^ 127 ∨ 2 ^ 127 ≤ n) := by
    rw [Bool.eq_iff_iff, hreads.overflowed_eq, hreads.negative_eq]
    simp only [Bool.or_eq_true, Bool.and_eq_true, Bool.not_eq_true', decide_eq_true_eq,
      decide_eq_false_iff_not, hpositive, hnegative]
    omega
  rw [Int128.ofDecimal, hparsed]
  cases overflow with
  | throw =>
    show (if (parsed.overflowed || _ || _) = true then _ else _) = _
    rw [hoverflows, hresult, hreads.normalized_eq, hreads.negative_eq]
    simp only [decide_eq_true_eq]
    rfl
  | truncate => exact congrArg Except.ok hresult
  | clamp =>
    show (if (parsed.overflowed || _ || _) = true then _ else _) = _
    rw [hoverflows, hresult, hreads.negative_eq]
    simp only [decide_eq_true_eq]
    rfl

/-- What the overflow behaviours are to do, for a type of integers from `low` to
`high` that wraps a number that does not fit.  A literal of the value `n` is read
as `n` or refused, wrapped, or moved to the nearest bound; no other text is read. -/
structure ReadsLiterals {α : Type} (ofDecimal : Str → OverflowBehavior → Result α) (toInt : α → ℤ)
    (low high : ℤ) (wrap : ℤ → ℤ) : Prop where
  throw_iff : ∀ {value n}, IsDecimal value n →
    ((∃ x, ofDecimal value .throw = .ok x) ↔ low ≤ n ∧ n ≤ high)
  throw_eq : ∀ {value n}, IsDecimal value n → ∀ x, ofDecimal value .throw = .ok x → toInt x = n
  truncate : ∀ {value n}, IsDecimal value n →
    ∃ x, ofDecimal value .truncate = .ok x ∧ toInt x = wrap n
  clamp : ∀ {value n}, IsDecimal value n →
    ∃ x, ofDecimal value .clamp = .ok x ∧ toInt x = max low (min n high)
  other : ∀ {value}, (∀ n, ¬ IsDecimal value n) → ∀ overflow,
    ofDecimal value overflow = err .invalid "Invalid number"

/-- A literal of an integer of the type is read as that integer, whatever the
behaviour. -/
theorem ReadsLiterals.read_back {α : Type} {ofDecimal : Str → OverflowBehavior → Result α}
    {toInt : α → ℤ} {low high : ℤ} {wrap : ℤ → ℤ}
    (h : ReadsLiterals ofDecimal toInt low high wrap) (hinj : Function.Injective toInt) {value : Str}
    {x : α} (hvalue : IsDecimal value (toInt x)) (hrange : low ≤ toInt x ∧ toInt x ≤ high)
    (hwrap : wrap (toInt x) = toInt x) (overflow : OverflowBehavior) :
    ofDecimal value overflow = .ok x := by
  cases overflow with
  | throw =>
    obtain ⟨y, hy⟩ := (h.throw_iff hvalue).mpr hrange
    rw [hy, hinj (h.throw_eq hvalue y hy)]
  | truncate =>
    obtain ⟨y, hy, heq⟩ := h.truncate hvalue
    rw [hy, hinj (heq.trans hwrap)]
  | clamp =>
    obtain ⟨y, hy, heq⟩ := h.clamp hvalue
    rw [min_eq_left hrange.2, max_eq_right hrange.1] at heq
    rw [hy, hinj heq]

theorem not_err_eq_ok {α : Type} {message : Str} (h : ∃ x : α, err .invalid message = .ok x) :
    False := by
  rcases h with ⟨x, ⟨⟩⟩

/-- **`UInt128::from`** on every text. -/
theorem readsLiterals_uint128 :
    ReadsLiterals UInt128.ofDecimal (fun x => (x.toNat : ℤ)) 0 (2 ^ 128 - 1) (· % 2 ^ 128) := by
  -- One goal for each field: what `throw` accepts, what it gives, `truncate`, `clamp`, no literal.
  constructor
  · intro value n h
    rw [uint128_ofDecimal_eq h]
    simp only
    split_ifs with hneg hover
    · exact ⟨fun hx => (not_err_eq_ok hx).elim, fun hrange => by omega⟩
    · exact ⟨fun hx => (not_err_eq_ok hx).elim, fun hrange => by omega⟩
    · exact ⟨fun _ => by omega, fun _ => ⟨_, rfl⟩⟩
  · intro value n h x hx
    rw [uint128_ofDecimal_eq h] at hx
    simp only at hx
    split_ifs at hx with hneg hover
    · cases hx
    · cases hx
    obtain rfl := Except.ok.inj hx
    rw [UInt128.toNat_ofNat]
    omega
  · intro value n h
    refine ⟨_, uint128_ofDecimal_eq h .truncate, ?_⟩
    rw [UInt128.toNat_ofNat]
    omega
  · intro value n h
    rw [uint128_ofDecimal_eq h]
    simp only
    split_ifs with hneg hover
    · refine ⟨_, rfl, ?_⟩
      rw [show (UInt128.min).toNat = 0 from rfl]
      omega
    · refine ⟨_, rfl, ?_⟩
      rw [show (UInt128.max).toNat = 2 ^ 128 - 1 from rfl]
      omega
    · refine ⟨_, rfl, ?_⟩
      rw [UInt128.toNat_ofNat]
      omega
  · intro value h overflow
    rw [UInt128.ofDecimal, parseDecimal_error h]
    rfl

/-- **`Int128::from`** on every text. -/
theorem readsLiterals_int128 :
    ReadsLiterals Int128.ofDecimal Int128.toInt (-2 ^ 127) (2 ^ 127 - 1) (·.bmod (2 ^ 128)) := by
  have hfits {n : ℤ} (h : ¬ (n < -2 ^ 127 ∨ 2 ^ 127 ≤ n)) : (signedOf n).toInt = n := by
    rw [toInt_signedOf]
    apply Int.bmod_eq_of_le
    · norm_num
      omega
    · norm_num
      omega
  -- One goal for each field: what `throw` accepts, what it gives, `truncate`, `clamp`, no literal.
  constructor
  · intro value n h
    rw [int128_ofDecimal_eq h]
    simp only
    by_cases hout : n < -2 ^ 127 ∨ 2 ^ 127 ≤ n
    · rw [if_pos hout]
      exact ⟨fun hx => (not_err_eq_ok hx).elim, fun hrange => by omega⟩
    · rw [if_neg hout]
      exact ⟨fun _ => by omega, fun _ => ⟨_, rfl⟩⟩
  · intro value n h x hx
    rw [int128_ofDecimal_eq h] at hx
    simp only at hx
    by_cases hout : n < -2 ^ 127 ∨ 2 ^ 127 ≤ n
    · rw [if_pos hout] at hx
      cases hx
    · rw [if_neg hout] at hx
      obtain rfl := Except.ok.inj hx
      exact hfits hout
  · intro value n h
    exact ⟨_, int128_ofDecimal_eq h .truncate, toInt_signedOf n⟩
  · intro value n h
    rw [int128_ofDecimal_eq h]
    simp only
    split_ifs with hout hneg
    · refine ⟨_, rfl, ?_⟩
      rw [toInt_min]
      omega
    · refine ⟨_, rfl, ?_⟩
      rw [toInt_max]
      omega
    · refine ⟨_, rfl, ?_⟩
      rw [hfits hout]
      omega
  · intro value h overflow
    rw [Int128.ofDecimal, parseDecimal_error h]
    rfl

/-- The text of a signed integer is a literal of it, also of the least one. -/
theorem isDecimal_decimalText (v : Int128) : IsDecimal v.decimalText v.toInt := by
  have hmagnitude := v.toNat_magnitude
  rw [Int128.magnitude] at hmagnitude
  rw [Int128.decimalText]
  have hnegative := v.isNegative_iff_toInt
  split
  · rename_i h
    rw [if_pos h] at hmagnitude
    have hlt := hnegative.mp h
    have hliteral := isDecimal_neg_natToString v.toInt.natAbs
    rw [unsignedToString_eq, hmagnitude]
    rwa [show -((v.toInt.natAbs : ℕ) : ℤ) = v.toInt by omega] at hliteral
  · rename_i h
    rw [if_neg h] at hmagnitude
    have hge : ¬ v.toInt < 0 := fun hlt => h (hnegative.mpr hlt)
    have hliteral := isDecimal_natToString v.toInt.natAbs
    rw [unsignedToString_eq, hmagnitude]
    rwa [show ((v.toInt.natAbs : ℕ) : ℤ) = v.toInt by omega] at hliteral

/-! ## The texts of the other modules

`Integer` reads and writes these texts on numbers; it does what the limbs do. -/

theorem uint128_toString_eq (v : UInt128) : v.toString = unsignedToString v :=
  (unsignedToString_eq v).symm

theorem int128_toString_eq (v : Int128) : v.toString = v.decimalText := by
  rw [Int128.toString, Int128.magnitude, Int128.decimalText]
  split
  · rw [uint128_toString_eq]
  · rw [uint128_toString_eq]

/-- The rule on numbers, after the sign. -/
theorem parseDecimal_number_split (value : Str) : Dwarfkit.parseDecimal value =
    if (Asset.splitSign value).2 = [] ∨
        (Asset.splitSign value).2.any (fun c => c < 48 ∨ 57 < c) = true then
      err .invalid "Invalid number"
    else
      let shown := (Asset.splitSign value).2.dropWhile (· = 48)
      let shown := if shown = [] then lit "0" else shown
      let negative := (Asset.splitSign value).1 && shown ≠ lit "0"
      .ok {
        magnitude := digitsValue (Asset.splitSign value).2
        negative
        normalized := if negative then 45 :: shown else shown } := by
  unfold Dwarfkit.parseDecimal
  rcases value with - | ⟨c, rest⟩
  · rfl
  by_cases hminus : c = 45
  · subst hminus
    rfl
  by_cases hplus : c = 43
  · subst hplus
    rfl
  simp [Asset.splitSign, hminus, hplus, digitsValue]

/-- What is read of a literal, on numbers. -/
theorem parseDecimal_number {value : Str} {n : ℤ} (h : IsDecimal value n) :
    Dwarfkit.parseDecimal value =
      .ok { magnitude := n.natAbs, negative := decide (n < 0), normalized := intToString n } := by
  obtain ⟨sign, negative, digits, rfl, hsign, hne, hdigits, rfl⟩ := h
  have hsplit := Asset.splitSign_append hsign hne hdigits
  have hvalid : ¬ (digits = [] ∨ digits.any (fun c => c < 48 ∨ 57 < c) = true) := by
    rintro (hnil | hany)
    · exact hne hnil
    · obtain ⟨c, hc, hout⟩ := List.any_eq_true.mp hany
      exact (not_digit_iff c).mp (of_decide_eq_true hout) (hdigits c hc)
  have hshown : (if digits.dropWhile (· = 48) = [] then lit "0" else digits.dropWhile (· = 48)) =
      natToString (digitsValue digits) := by
    split
    · rename_i hnil
      rw [← digitsValue_dropWhile, hnil]
      rfl
    · rename_i hnon
      exact dropWhile_zeros hdigits hnon
  have hnegative : (negative && decide (natToString (digitsValue digits) ≠ lit "0")) =
      decide (signedMagnitude negative (digitsValue digits) < 0) := by
    rw [Bool.eq_iff_iff, Bool.and_eq_true, decide_eq_true_eq, decide_eq_true_eq, Ne,
      natToString_eq_zero_iff, signedMagnitude_neg_iff]
  rw [parseDecimal_number_split, hsplit, if_neg hvalid]
  simp only [hshown, hnegative, intToString, natAbs_signedMagnitude, decide_eq_true_eq]

theorem parseDecimal_number_error {value : Str} (h : ∀ n, ¬ IsDecimal value n) :
    Dwarfkit.parseDecimal value = err .invalid "Invalid number" := by
  obtain ⟨sign, hsign, hvalue⟩ := Asset.splitSign_spec value
  rw [parseDecimal_number_split]
  apply if_pos
  by_contra hvalid
  rw [not_or] at hvalid
  refine h _ ⟨sign, _, _, hvalue, hsign, hvalid.1, fun c hc => ?_, rfl⟩
  by_contra hdigit
  apply hvalid.2
  exact List.any_eq_true.mpr ⟨c, hc, decide_eq_true ((not_digit_iff c).mpr hdigit)⟩

/-- **`UInt128::from` on numbers** is `UInt128::from` with the throwing behaviour. -/
theorem uint128_ofString_eq (value : Str) :
    UInt128.ofString value = UInt128.ofDecimal value .throw := by
  by_cases h : ∃ n, IsDecimal value n
  · obtain ⟨n, hn⟩ := h
    rw [UInt128.ofString, parseDecimal_number hn, uint128_ofDecimal_eq hn]
    show (if decide (n < 0) = true then _ else _) = _
    simp only [decide_eq_true_eq]
    rfl
  · have hnone : ∀ n, ¬ IsDecimal value n := fun n hn => h ⟨n, hn⟩
    rw [UInt128.ofString, parseDecimal_number_error hnone, readsLiterals_uint128.other hnone]
    rfl

/-- **`Int128::from` on numbers** is `Int128::from` with the throwing behaviour. -/
theorem int128_ofString_eq (value : Str) :
    Int128.ofString value = Int128.ofDecimal value .throw := by
  by_cases h : ∃ n, IsDecimal value n
  · obtain ⟨n, hn⟩ := h
    rw [Int128.ofString, parseDecimal_number hn, int128_ofDecimal_eq hn]
    have hlimit : (if decide (n < 0) = true then 2 ^ 127 else 2 ^ 127 - 1) < n.natAbs ↔
        (n < -2 ^ 127 ∨ 2 ^ 127 ≤ n) := by
      simp only [decide_eq_true_eq]
      split <;> omega
    show (if (if decide (n < 0) = true then 2 ^ 127 else 2 ^ 127 - 1) < n.natAbs then _ else _) = _
    by_cases hout : n < -2 ^ 127 ∨ 2 ^ 127 ≤ n
    · rw [if_pos (hlimit.mpr hout)]
      simp only [if_pos hout, decide_eq_true_eq]
    · rw [if_neg (fun h => hout (hlimit.mp h))]
      simp only [if_neg hout, decide_eq_true_eq, signedOf]
      rfl
  · have hnone : ∀ n, ¬ IsDecimal value n := fun n hn => h ⟨n, hn⟩
    rw [Int128.ofString, parseDecimal_number_error hnone, readsLiterals_int128.other hnone]
    rfl

/-- A value is read back from its text. -/
theorem uint128_read_back (x : UInt128) (overflow : OverflowBehavior) :
    UInt128.ofDecimal (unsignedToString x) overflow = .ok x := by
  have hlt := x.toNat_lt
  rw [unsignedToString_eq]
  apply readsLiterals_uint128.read_back _ (isDecimal_natToString x.toNat)
  · omega
  · show (x.toNat : ℤ) % 2 ^ 128 = x.toNat
    omega
  · exact fun a b h => UInt128.toNat_injective (by exact_mod_cast h)

theorem int128_read_back (x : Int128) (overflow : OverflowBehavior) :
    Int128.ofDecimal x.decimalText overflow = .ok x := by
  obtain ⟨hlow, hhigh⟩ := x.toInt_bounds
  apply readsLiterals_int128.read_back Int128.toInt_injective (isDecimal_decimalText x)
  · omega
  · apply Int.bmod_eq_of_le
    · norm_num
      omega
    · norm_num
      omega

end Decimal128

/-! ## All of it -/

open Decimal128 in
/-- **128-bit decimal text.**  Every value is read back from its text, whatever the
overflow behaviour; and a literal of any length is refused exactly when it is out of
range, wrapped, or moved to the nearest bound, while any other text is an error. -/
theorem decimal128_exact :
    (∀ (x : UInt128) (overflow : OverflowBehavior),
      UInt128.ofDecimal (unsignedToString x) overflow = .ok x) ∧
    (∀ (x : Int128) (overflow : OverflowBehavior),
      Int128.ofDecimal x.decimalText overflow = .ok x) ∧
    ReadsLiterals UInt128.ofDecimal (fun x => (x.toNat : ℤ)) 0 (2 ^ 128 - 1) (· % 2 ^ 128) ∧
    ReadsLiterals Int128.ofDecimal Int128.toInt (-2 ^ 127) (2 ^ 127 - 1) (·.bmod (2 ^ 128)) := by
  exact ⟨uint128_read_back, int128_read_back, readsLiterals_uint128, readsLiterals_int128⟩

end Dwarfkit
