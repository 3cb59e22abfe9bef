/-
# Account names

`Name` of `antelope/chain/name.hpp`: a 64-bit value written as up to thirteen
characters, twelve of five bits and one of four.

* `ofString_toString` : a name is read back from its text;
* `toString_injective` : so two names with the same text are equal.
-/
import Dwarfkit.Antelope.Serializer.Coder

namespace Dwarfkit

/-! ## The text of a name -/

/-- `charToSymbol`. -/
def charToSymbol (c : UInt8) : UInt64 :=
  if 97 ≤ c ∧ c ≤ 122 then (c - 97).toUInt64 + 6
  else if 49 ≤ c ∧ c ≤ 53 then (c - 49).toUInt64 + 1
  else 0

/-- The inner loop of `stringToName`: the bits `j - 1, …, 0` of `c` go in below
the bits already set.  `left` is the source's `bit + 1`; at `0` the bits are lost. -/
def putBits (c : UInt64) : (j : ℕ) → UInt64 × ℕ → UInt64 × ℕ
  | 0, st => st
  | j + 1, (value, 0) => putBits c j (value, 0)
  | j + 1, (value, left + 1) =>
    putBits c j (value ||| (((c >>> j.toUInt64) &&& 1) <<< left.toUInt64), left)

/-- One character of `stringToName`; the thirteenth has only four bits. -/
def putSymbol (st : UInt64 × ℕ) (ch : UInt8) : UInt64 × ℕ :=
  putBits (if st.2 < 6 then charToSymbol ch <<< 1 else charToSymbol ch) 5 st

/-- `stringToName`. -/
def stringToName (s : Str) : UInt64 := (s.foldl putSymbol (0, 64)).1

/-- The inner loop of `toString`: collect up to `i` bits of `value` into `c`. -/
def takeBits (value : UInt64) : (i : ℕ) → UInt64 × ℕ → UInt64 × ℕ
  | 0, st => st
  | i + 1, (c, 0) => takeBits value i (c, 0)
  | i + 1, (c, left + 1) =>
    takeBits value i ((c <<< 1) ||| ((value >>> left.toUInt64) &&& 1), left)

/-- The character of a symbol. -/
def symbolToChar (c : UInt64) : UInt8 :=
  if 6 ≤ c then c.toUInt8 + 97 - 6 else if 1 ≤ c then c.toUInt8 + 49 - 1 else 46

/-- The outer loop of `toString`, from the bit below `left` down: at most `n`
characters. -/
def nameChars (value : UInt64) : (n left : ℕ) → Str
  | 0, _ => []
  | _ + 1, 0 => []
  | n + 1, left + 1 =>
    let (c, left') := takeBits value 5 (0, left + 1)
    symbolToChar c :: nameChars value n left'

/-- An account, action, table or permission name. -/
structure Name where
  value : UInt64 := 0
  deriving DecidableEq, Repr

namespace Name

/-- `Name::from`. -/
def ofString (s : Str) : Name := ⟨stringToName s⟩

/-- `Name::toString`: trailing dots are dropped. -/
def toString (n : Name) : Str := (nameChars n.value 13 64).rdropWhile (· = 46)

/-- `compare`: by the underlying value. -/
def compare (a b : Name) : Int := if a.value < b.value then -1 else if b.value < a.value then 1 else 0

end Name

/-! ## Text and value -/

/-- Bit `k` of a 64-bit word, as a word. -/
theorem toNat_bit (v : UInt64) (k : ℕ) (hk : k < 64) :
    ((v >>> k.toUInt64) &&& 1).toNat = v.toNat / 2 ^ k % 2 := by
  have h : (k.toUInt64).toNat % 64 = k := by
    simp only [Nat.toUInt64, UInt64.toNat_ofNat']
    omega
  rw [UInt64.toNat_and, UInt64.toNat_shiftRight, h, Nat.shiftRight_eq_div_pow]
  exact Nat.and_one_is_mod _

/-- Splitting off the highest of `i + 1` bits. -/
theorem split_top_bit (m i : ℕ) : m % 2 ^ (i + 1) = m / 2 ^ i % 2 * 2 ^ i + m % 2 ^ i := by
  rw [pow_succ, Nat.mod_mul, Nat.add_comm, Nat.mul_comm]

/-- Collecting `i` bits with at least `i` left reads them off as a number. -/
theorem takeBits_spec (value : UInt64) (i left : ℕ) (c : UInt64) (hi : i ≤ left)
    (hleft : left ≤ 64) (hc : (c.toNat + 1) * 2 ^ i ≤ 2 ^ 64) :
    (takeBits value i (c, left)).2 = left - i ∧
    (takeBits value i (c, left)).1.toNat =
      c.toNat * 2 ^ i + value.toNat / 2 ^ (left - i) % 2 ^ i := by
  induction i generalizing left c with
  | zero => simp [takeBits, Nat.mod_one]
  | succ i ih =>
    obtain ⟨left, rfl⟩ : ∃ l, left = l + 1 := ⟨left - 1, by omega⟩
    have hbit := toNat_bit value left (by omega)
    have hlt : value.toNat / 2 ^ left % 2 < 2 := Nat.mod_lt _ (by norm_num)
    have hpow : 0 < 2 ^ i := Nat.two_pow_pos i
    -- The bound leaves room for the bits still to come, so no shift pushes one out.
    have hc2 : (2 * c.toNat + 2) * 2 ^ i ≤ 2 ^ 64 := by
      calc (2 * c.toNat + 2) * 2 ^ i = (c.toNat + 1) * 2 ^ (i + 1) := by rw [pow_succ]; ring
        _ ≤ 2 ^ 64 := hc
    have hc64 : 2 * c.toNat + 2 ≤ 2 ^ 64 := le_trans (Nat.le_mul_of_pos_right _ hpow) hc2
    have hstep : ((c <<< 1) ||| ((value >>> left.toUInt64) &&& 1)).toNat =
        2 * c.toNat + value.toNat / 2 ^ left % 2 := by
      rw [UInt64.toNat_or, UInt64.toNat_shiftLeft, hbit]
      show c.toNat <<< 1 % 2 ^ 64 ||| _ = _
      have hlt1 : value.toNat / 2 ^ left % 2 < 2 ^ 1 := by simpa using hlt
      have hsl : c.toNat <<< 1 = c.toNat * 2 := by rw [Nat.shiftLeft_eq, pow_one]
      rw [Nat.mod_eq_of_lt (by omega), ← Nat.shiftLeft_add_eq_or_of_lt hlt1, hsl]
      omega
    obtain ⟨h2, h1⟩ := ih left ((c <<< 1) ||| ((value >>> left.toUInt64) &&& 1)) (by omega)
      (by omega) (le_trans (Nat.mul_le_mul_right _ (by omega)) hc2)
    have hsub : left + 1 - (i + 1) = left - i := by omega
    refine ⟨by rw [takeBits, h2, hsub], ?_⟩
    rw [takeBits, h1, hstep, hsub, split_top_bit, Nat.div_div_eq_div_mul, ← pow_add,
      show left - i + i = left by omega, pow_succ]
    ring

/-- Putting in `j` bits with at least `j` free below them adds them to the value. -/
theorem putBits_spec (c : UInt64) (j left : ℕ) (value : UInt64) (hj : j ≤ left) (hleft : left ≤ 64)
    (hlow : value.toNat % 2 ^ left = 0) :
    (putBits c j (value, left)).2 = left - j ∧
    (putBits c j (value, left)).1.toNat = value.toNat + c.toNat % 2 ^ j * 2 ^ (left - j) := by
  induction j generalizing left value with
  | zero => simp [putBits, Nat.mod_one]
  | succ j ih =>
    obtain ⟨left, rfl⟩ : ∃ l, left = l + 1 := ⟨left - 1, by omega⟩
    have hbit := toNat_bit c j (by omega)
    have hlt : c.toNat / 2 ^ j % 2 < 2 := Nat.mod_lt _ (by norm_num)
    obtain ⟨q, hq⟩ : ∃ q, value.toNat = 2 ^ (left + 1) * q :=
      ⟨_, (Nat.mul_div_cancel' (Nat.dvd_of_mod_eq_zero hlow)).symm⟩
    -- The bit goes into the clear part of the value, so the `or` is a sum.
    have hstep : (value ||| (((c >>> j.toUInt64) &&& 1) <<< left.toUInt64)).toNat =
        value.toNat + c.toNat / 2 ^ j % 2 * 2 ^ left := by
      have hl : (left.toUInt64).toNat % 64 = left := by
        simp only [Nat.toUInt64, UInt64.toNat_ofNat']
        omega
      have hfit : c.toNat / 2 ^ j % 2 * 2 ^ left < 2 ^ (left + 1) := by
        rw [pow_succ]
        have := Nat.two_pow_pos left
        have : c.toNat / 2 ^ j % 2 * 2 ^ left ≤ 1 * 2 ^ left := Nat.mul_le_mul_right _ (by omega)
        omega
      have h64 : 2 ^ (left + 1) ≤ 2 ^ 64 := Nat.pow_le_pow_right (by norm_num) hleft
      rw [UInt64.toNat_or, UInt64.toNat_shiftLeft, hl, hbit, Nat.shiftLeft_eq,
        Nat.mod_eq_of_lt (by omega), hq, Nat.mul_comm, ← Nat.shiftLeft_eq,
        ← Nat.shiftLeft_add_eq_or_of_lt hfit]
    have hlow' : (value.toNat + c.toNat / 2 ^ j % 2 * 2 ^ left) % 2 ^ left = 0 := by
      rw [hq, pow_succ, Nat.mul_assoc, Nat.add_comm, Nat.mul_comm (c.toNat / 2 ^ j % 2),
        Nat.mul_add_mod, Nat.mul_mod_right]
    obtain ⟨h2, h1⟩ := ih left _ (by omega) (by omega) (by rw [hstep]; exact hlow')
    have hsub : left + 1 - (j + 1) = left - j := by omega
    refine ⟨by rw [putBits, h2, hsub], ?_⟩
    rw [putBits, h1, hstep, hsub, split_top_bit, Nat.add_mul, Nat.mul_assoc, ← pow_add,
      show j + (left - j) = left by omega, Nat.add_assoc]

/-- With one bit too few left, the lowest bit of a doubled symbol is the one lost. -/
theorem putBits_double (c : UInt64) (hc : c.toNat < 2 ^ 63) (j : ℕ) (value : UInt64) (hj : j < 64) :
    putBits (c <<< 1) (j + 1) (value, j) = putBits c j (value, j) := by
  induction j generalizing value with
  | zero => rfl
  | succ j ih =>
    have hbit : ((c <<< 1) >>> (j + 1).toUInt64) &&& 1 = (c >>> j.toUInt64) &&& 1 := by
      rw [← UInt64.toNat_inj, toNat_bit _ _ hj, toNat_bit _ _ (by omega), UInt64.toNat_shiftLeft]
      show (c.toNat <<< 1 % 2 ^ 64) / _ % 2 = _
      have hsl : c.toNat <<< 1 = c.toNat * 2 := by rw [Nat.shiftLeft_eq, pow_one]
      rw [hsl, Nat.mod_eq_of_lt (show c.toNat * 2 < 2 ^ 64 by omega), pow_succ' 2 j, ← Nat.div_div_eq_div_mul,
        Nat.mul_div_cancel _ (by norm_num)]
    rw [putBits, hbit, ih _ (by omega), putBits]

/-- The symbol of a symbol's character is the symbol. -/
theorem charToSymbol_symbolToChar (c : UInt64) (hc : c.toNat < 32) :
    charToSymbol (symbolToChar c) = c := by
  have h : ∀ n : Fin 32, charToSymbol (symbolToChar (UInt64.ofNat n)) = UInt64.ofNat n := by
    decide +kernel
  have := h ⟨c.toNat, hc⟩
  simpa using this

/-- Dots put nothing in. -/
theorem putBits_zero (j : ℕ) (value : UInt64) (left : ℕ) :
    (putBits 0 j (value, left)).1 = value := by
  induction j generalizing left with
  | zero => rfl
  | succ j ih =>
    cases left with
    | zero => rw [putBits, ih]
    | succ left =>
      have h0 : value ||| ((((0 : UInt64) >>> j.toUInt64) &&& 1) <<< left.toUInt64) = value := by
        simp
      rw [putBits, h0, ih]

/-- A run of dots leaves the value as it is. -/
theorem foldl_putSymbol_dots (dots : Str) (h : ∀ ch ∈ dots, ch = 46) (st : UInt64 × ℕ) :
    (dots.foldl putSymbol st).1 = st.1 := by
  induction dots generalizing st with
  | nil => rfl
  | cons ch dots ih =>
    have hch : charToSymbol ch = 0 := by
      rw [h ch (by simp)]
      decide
    have hput : (putSymbol st ch).1 = st.1 := by
      obtain ⟨value, left⟩ := st
      have hif : (if left < 6 then (0 : UInt64) <<< 1 else 0) = 0 := by
        split <;> rfl
      rw [putSymbol, hch, hif, putBits_zero]
    rw [List.foldl_cons, ih (fun c hc => h c (by simp [hc])), hput]

/-- A last group one bit short collects the bits there are. -/
theorem takeBits_short (value : UInt64) (j : ℕ) (c : UInt64) :
    takeBits value (j + 1) (c, j) = takeBits value j (c, j) := by
  induction j generalizing c with
  | zero => rfl
  | succ j ih => rw [takeBits, ih, takeBits]

/-- Reading the characters of `value` back in: from the bits above `left` on, the
rest of the value is filled in group by group. -/
theorem foldl_putSymbol_nameChars (value : UInt64) (n : ℕ) (hn : n ≤ 12) (st : UInt64)
    (hst : st.toNat = value.toNat / 2 ^ (5 * n + 4) * 2 ^ (5 * n + 4)) :
    ((nameChars value (n + 1) (5 * n + 4)).foldl putSymbol (st, 5 * n + 4)).1 = value := by
  induction n generalizing st with
  | zero =>
    -- the thirteenth character: four bits
    obtain ⟨h2, h1⟩ := takeBits_spec value 4 4 0 le_rfl (by norm_num) (by norm_num)
    set c := (takeBits value 4 (0, 4)).1 with hcdef
    have hc : c.toNat = value.toNat % 16 := by simpa using h1
    have hsym := charToSymbol_symbolToChar c (by omega)
    have hput : (putBits c 4 (st, 4)).1.toNat = st.toNat + c.toNat % 2 ^ 4 * 2 ^ (4 - 4) :=
      (putBits_spec c 4 4 st le_rfl (by norm_num)
        (by rw [hst]; exact Nat.mul_mod_left _ _)).2
    have hchars : nameChars value 1 4 = [symbolToChar c] := by
      rw [nameChars, takeBits_short]
      rfl
    show ((nameChars value 1 4).foldl putSymbol (st, 4)).1 = value
    rw [hchars, List.foldl_cons, List.foldl_nil, putSymbol, hsym, if_pos (by norm_num),
      putBits_double c (by omega) 4 st (by norm_num), ← UInt64.toNat_inj, hput, hst, hc]
    norm_num
    omega
  | succ n ih =>
    have hleft : 5 * (n + 1) + 4 = 5 * n + 8 + 1 := by omega
    obtain ⟨h2, h1⟩ := takeBits_spec value 5 (5 * n + 8 + 1) 0 (by omega) (by omega) (by norm_num)
    set p := takeBits value 5 (0, 5 * n + 8 + 1) with hp
    have hsub : 5 * n + 8 + 1 - 5 = 5 * n + 4 := by omega
    have hc : p.1.toNat = value.toNat / 2 ^ (5 * n + 4) % 2 ^ 5 := by
      rw [h1, hsub]
      simp
    have hsym := charToSymbol_symbolToChar p.1 (by omega)
    obtain ⟨hput2, hput1⟩ := putBits_spec p.1 5 (5 * n + 8 + 1) st (by omega) (by omega)
      (by rw [hst, hleft]; exact Nat.mul_mod_left _ _)
    have hchars : nameChars value (n + 2) (5 * n + 8 + 1) =
        symbolToChar p.1 :: nameChars value (n + 1) (5 * n + 4) := by
      rw [nameChars, ← hp, ← hsub, ← h2]
    have hnext : putSymbol (st, 5 * n + 8 + 1) (symbolToChar p.1) =
        ((putBits p.1 5 (st, 5 * n + 8 + 1)).1, 5 * n + 4) := by
      rw [putSymbol, hsym, if_neg (by show ¬ 5 * n + 8 + 1 < 6; omega), ← hsub, ← hput2]
    rw [hleft, hchars, List.foldl_cons, hnext]
    refine ih (by omega) _ ?_
    rw [hput1, hst, hc, hsub, hleft, Nat.mod_mod]
    have hdiv : value.toNat / 2 ^ (5 * n + 8 + 1) = value.toNat / 2 ^ (5 * n + 4) / 2 ^ 5 := by
      rw [Nat.div_div_eq_div_mul, ← pow_add]
    have hpow : 2 ^ (5 * n + 8 + 1) = 2 ^ 5 * 2 ^ (5 * n + 4) := by
      rw [← pow_add]
      congr 1
      omega
    rw [hdiv, hpow, ← Nat.mul_assoc, ← Nat.add_mul, Nat.mul_comm _ (2 ^ 5), Nat.div_add_mod]

namespace Name

/-- **A name is read back from its text.** -/
@[simp]
theorem ofString_toString (n : Name) : ofString n.toString = n := by
  have hfull := foldl_putSymbol_nameChars n.value 12 le_rfl 0 (by
    have := n.value.toNat_lt
    rw [Nat.div_eq_of_lt (by norm_num; omega)]
    rfl)
  set chars := nameChars n.value 13 64 with hchars
  -- the text is the characters without the dots at their end
  have hsplit : n.toString ++ chars.rtakeWhile (· = 46) = chars := List.rdropWhile_append_rtakeWhile ..
  have hdots : ∀ ch ∈ chars.rtakeWhile (· = 46), ch = 46 := by
    intro ch hch
    simpa using List.mem_rtakeWhile_imp hch
  have hfold : ((n.toString ++ chars.rtakeWhile (· = 46)).foldl putSymbol (0, 64)).1 = n.value := by
    rw [hsplit]
    exact hfull
  rw [List.foldl_append, foldl_putSymbol_dots _ hdots] at hfold
  show Name.mk _ = n
  rw [stringToName, hfold]

/-- Two names with the same text are equal. -/
theorem toString_injective : Function.Injective toString :=
  Function.LeftInverse.injective ofString_toString

end Name

/-! ## The characters of a name -/

/-- However few bits are left, `i` steps collect at most `i` bits. -/
theorem takeBits_lt (value : UInt64) (i left m : ℕ) (c : UInt64) (hc : c.toNat < 2 ^ m)
    (hm : m + i < 64) : (takeBits value i (c, left)).1.toNat < 2 ^ (m + i) := by
  induction i generalizing left m c with
  | zero => exact hc
  | succ i ih =>
    cases left with
    | zero =>
      rw [takeBits]
      refine lt_of_lt_of_le (ih 0 m c hc (by omega)) ?_
      exact Nat.pow_le_pow_right (by norm_num) (by omega)
    | succ left =>
      have hpow : 2 ^ (m + 1) ≤ 2 ^ 63 := Nat.pow_le_pow_right (by norm_num) (by omega)
      have hshift : (c <<< 1).toNat < 2 ^ (m + 1) := by
        rw [UInt64.toNat_shiftLeft]
        show c.toNat <<< 1 % 2 ^ 64 < _
        rw [Nat.shiftLeft_eq, pow_one, pow_succ]
        omega
      have hbit : ((value >>> left.toUInt64) &&& 1).toNat < 2 ^ (m + 1) := by
        rw [UInt64.toNat_and]
        refine lt_of_le_of_lt Nat.and_le_right ?_
        exact Nat.one_lt_two_pow (by omega)
      have hor : ((c <<< 1) ||| ((value >>> left.toUInt64) &&& 1)).toNat < 2 ^ (m + 1) := by
        rw [UInt64.toNat_or]
        exact Nat.or_lt_two_pow hshift hbit
      rw [takeBits, show m + (i + 1) = m + 1 + i by omega]
      exact ih left (m + 1) _ hor (by omega)

/-- The characters of a name are those of five-bit symbols. -/
theorem mem_nameChars {value : UInt64} {n left : ℕ} {ch : UInt8} (h : ch ∈ nameChars value n left) :
    ∃ c : UInt64, c.toNat < 32 ∧ ch = symbolToChar c := by
  induction n generalizing left with
  | zero => cases h
  | succ n ih =>
    cases left with
    | zero => cases h
    | succ left =>
      rw [nameChars] at h
      rcases List.mem_cons.mp h with rfl | h
      · exact ⟨_, takeBits_lt value 5 (left + 1) 0 0 (by norm_num) (by norm_num), rfl⟩
      · exact ih h

theorem Name.mem_toString {name : Name} {ch : UInt8} (h : ch ∈ name.toString) :
    ∃ c : UInt64, c.toNat < 32 ∧ ch = symbolToChar c :=
  mem_nameChars ( (List.rdropWhile_prefix _ _).subset h)

end Dwarfkit
