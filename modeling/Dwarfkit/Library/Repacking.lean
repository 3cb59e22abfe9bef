/-
# Digits of one width in digits of another

A numeral of `w`-bit digits is a string of bits, and so is one of `v`-bit digits.
Rewriting the one as the other keeps the bits; those that fill no digit of the new
width are left over at the end.

* `Carries.target_unique` : the new digits are determined by the old ones;
* `Carries.source_agree` : the old digits are determined by the new ones, but for the
  bits left over;
* `Carries.concat`, `Carries.emit` : the two steps of a bit buffer.
-/
import Dwarfkit.Library.Numeral

namespace Repacking

open Numeral (value)

/-- A number above another one in disjoint bits. -/
theorem or_low (x y k : ℕ) (hy : y < 2 ^ k) : (x <<< k) ||| y = x * 2 ^ k + y := by
  rw [← Nat.shiftLeft_add_eq_or_of_lt hy, Nat.shiftLeft_eq]

variable {w v r r' left left' : ℕ} {ds ds' es es' : List ℕ}

/-- The `v`-bit digits `es` are the bits of the `w`-bit digits `ds`, but for the last `r`
bits, which are the number `left`. -/
structure Carries (w v : ℕ) (ds es : List ℕ) (r left : ℕ) : Prop where
  source_lt : ∀ d ∈ ds, d < 2 ^ w
  target_lt : ∀ e ∈ es, e < 2 ^ v
  length : w * ds.length = v * es.length + r
  value_eq : value (2 ^ w) ds = value (2 ^ v) es * 2 ^ r + left
  left_lt : left < 2 ^ r

namespace Carries

/-! ## Building up -/

theorem nil (w v : ℕ) : Carries w v [] [] 0 0 where
  source_lt := by simp
  target_lt := by simp
  length := by simp
  value_eq := by simp
  left_lt := by simp

/-- Digits without left over bits go in front of any others. -/
theorem append (h : Carries w v ds es 0 0) (h' : Carries w v ds' es' r left) :
    Carries w v (ds ++ ds') (es ++ es') r left where
  source_lt := by
    intro d hd
    rcases List.mem_append.mp hd with hd | hd
    · exact h.source_lt d hd
    · exact h'.source_lt d hd
  target_lt := by
    intro e he
    rcases List.mem_append.mp he with he | he
    · exact h.target_lt e he
    · exact h'.target_lt e he
  length := by
    have hlen := h.length
    have hlen' := h'.length
    rw [List.length_append, List.length_append, Nat.mul_add, Nat.mul_add]
    omega
  value_eq := by
    have hvalue : value (2 ^ w) ds = value (2 ^ v) es := by simpa using h.value_eq
    rw [Numeral.value_append, Numeral.value_append, hvalue, h'.value_eq, ← Nat.pow_mul,
      ← Nat.pow_mul, h'.length, Nat.pow_add]
    ring
  left_lt := h'.left_lt

/-- One more digit at the low end: its bits are left over. -/
theorem concat (h : Carries w v ds es r left) {d : ℕ} (hd : d < 2 ^ w) :
    Carries w v (ds ++ [d]) es (r + w) (left * 2 ^ w + d) where
  source_lt := by
    intro e he
    rcases List.mem_append.mp he with he | he
    · exact h.source_lt e he
    · rw [List.mem_singleton.mp he]
      exact hd
  target_lt := h.target_lt
  length := by
    have hlen := h.length
    rw [List.length_append, List.length_singleton, Nat.mul_add]
    omega
  value_eq := by
    rw [Numeral.value_concat, h.value_eq, Nat.pow_add]
    ring
  left_lt := by
    have hleft : left + 1 ≤ 2 ^ r := h.left_lt
    calc left * 2 ^ w + d < (left + 1) * 2 ^ w := by
          rw [Nat.add_mul]
          omega
      _ ≤ 2 ^ r * 2 ^ w := Nat.mul_le_mul_right _ hleft
      _ = 2 ^ (r + w) := (Nat.pow_add 2 r w).symm

/-- Bits left over that fill a digit become one. -/
theorem emit (h : Carries w v ds es r left) (hr : v ≤ r) :
    Carries w v ds (es ++ [left / 2 ^ (r - v)]) (r - v) (left % 2 ^ (r - v)) where
  source_lt := h.source_lt
  target_lt := by
    intro e he
    rcases List.mem_append.mp he with he | he
    · exact h.target_lt e he
    · rw [List.mem_singleton.mp he, Nat.div_lt_iff_lt_mul (by positivity), ← Nat.pow_add,
        Nat.add_sub_cancel' hr]
      exact h.left_lt
  length := by
    have hlen := h.length
    rw [List.length_append, List.length_singleton, Nat.mul_add]
    omega
  value_eq := by
    have hpow : 2 ^ r = 2 ^ v * 2 ^ (r - v) := by
      rw [← Nat.pow_add, Nat.add_sub_cancel' hr]
    have hleft := Nat.div_add_mod left (2 ^ (r - v))
    rw [h.value_eq, Numeral.value_concat, hpow]
    calc value (2 ^ v) es * (2 ^ v * 2 ^ (r - v)) + left
        = value (2 ^ v) es * (2 ^ v * 2 ^ (r - v)) +
            (2 ^ (r - v) * (left / 2 ^ (r - v)) + left % 2 ^ (r - v)) := by rw [hleft]
      _ = (2 ^ v * value (2 ^ v) es + left / 2 ^ (r - v)) * 2 ^ (r - v) +
            left % 2 ^ (r - v) := by ring
  left_lt := Nat.mod_lt _ (by positivity)

/-! ## What determines what -/

/-- Division with remainder is unique. -/
theorem quotient_unique {n a b s t : ℕ} (h : n * a + s = n * b + t) (hs : s < n) (ht : t < n) :
    a = b ∧ s = t := by
  have hn : 0 < n := Nat.zero_lt_of_lt hs
  have hquotient := congrArg (· / n) h
  have hremainder := congrArg (· % n) h
  simp only [Nat.mul_add_div hn, Nat.div_eq_of_lt hs, Nat.div_eq_of_lt ht, Nat.add_zero]
    at hquotient
  simp only [Nat.mul_add_mod, Nat.mod_eq_of_lt hs, Nat.mod_eq_of_lt ht] at hremainder
  exact ⟨hquotient, hremainder⟩

/-- The new digits are what is above the bits left over. -/
theorem value_target (h : Carries w v ds es r left) :
    value (2 ^ v) es = value (2 ^ w) ds / 2 ^ r := by
  rw [h.value_eq, Nat.mul_comm, Nat.mul_add_div (by positivity), Nat.div_eq_of_lt h.left_lt,
    Nat.add_zero]

/-- **The new digits are determined by the old ones**, when less than one is left over. -/
theorem target_unique (h : Carries w v ds es r left) (h' : Carries w v ds es' r' left')
    (hr : r < v) (hr' : r' < v) : es = es' := by
  have hlen : v * es.length + r = v * es'.length + r' := by rw [← h.length, ← h'.length]
  obtain ⟨hcount, hleft⟩ := quotient_unique hlen hr hr'
  apply Numeral.eq_of_value (Nat.one_lt_two_pow (by omega)) hcount h.target_lt h'.target_lt
  rw [h.value_target, h'.value_target, hleft]

/-- A last digit, without the bits left over, is the low end of the new digits. -/
theorem split_last {init : List ℕ} {d : ℕ} (h : Carries w v (init ++ [d]) es r left) (hr : r ≤ w) :
    value (2 ^ w) init = value (2 ^ v) es / 2 ^ (w - r) ∧
      d / 2 ^ r = value (2 ^ v) es % 2 ^ (w - r) := by
  have hd : d < 2 ^ w := h.source_lt d (by simp)
  have hpow : 2 ^ w = 2 ^ r * 2 ^ (w - r) := by rw [← Nat.pow_add, Nat.add_sub_cancel' hr]
  have hhigh : d / 2 ^ r < 2 ^ (w - r) := by
    rw [Nat.div_lt_iff_lt_mul (by positivity), Nat.mul_comm, ← hpow]
    exact hd
  have hvalue : value (2 ^ v) es = 2 ^ (w - r) * value (2 ^ w) init + d / 2 ^ r := by
    rw [h.value_target, Numeral.value_concat]
    nth_rewrite 1 [hpow]
    rw [Nat.mul_assoc, Nat.mul_add_div (by positivity)]
  constructor
  · rw [hvalue, Nat.mul_add_div (by positivity), Nat.div_eq_of_lt hhigh, Nat.add_zero]
  · rw [hvalue, Nat.mul_add_mod, Nat.mod_eq_of_lt hhigh]

/-- **The old digits are determined by the new ones**, but for the bits left over, when
less than one of them is left over. -/
theorem source_agree (h : Carries w v ds es r left) (h' : Carries w v ds' es r' left')
    (hr : r < w) (hr' : r' < w) :
    r = r' ∧ ds.length = ds'.length ∧ ds.dropLast = ds'.dropLast ∧
      ds.getLast?.map (· / 2 ^ r) = ds'.getLast?.map (· / 2 ^ r) := by
  have hlen : w * ds.length + r' = w * ds'.length + r := by
    rw [h.length, h'.length]
    omega
  obtain ⟨hcount, hleft⟩ := quotient_unique hlen hr' hr
  subst hleft
  refine ⟨rfl, hcount, ?_⟩
  rcases List.eq_nil_or_concat' ds with rfl | ⟨init, d, rfl⟩
  · rw [List.length_nil, eq_comm, List.length_eq_zero_iff] at hcount
    rw [hcount]
    exact ⟨rfl, rfl⟩
  · rcases List.eq_nil_or_concat' ds' with rfl | ⟨init', d', rfl⟩
    · simp at hcount
    · have hbase : 1 < 2 ^ w := Nat.one_lt_two_pow (by omega)
      obtain ⟨hinit, hlast⟩ := h.split_last hr.le
      obtain ⟨hinit', hlast'⟩ := h'.split_last hr.le
      have hsame : init = init' := by
        apply Numeral.eq_of_value hbase
        · simpa using hcount
        · exact fun d hd => h.source_lt d (by simp [hd])
        · exact fun d hd => h'.source_lt d (by simp [hd])
        · rw [hinit, hinit']
      constructor
      · simpa using hsame
      · simp [hlast, hlast']

end Carries

end Repacking
