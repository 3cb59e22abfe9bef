/-
# Numerals with their leading zeros

A numeral is a list of digits, the highest first.  Its leading zeros do not count
for its value, so a conversion between bases that is to be undone carries them
over one by one.

* `convert_convert` : the conversion is undone;
* `eq_of_value` : a numeral is known by its length and its value;
* `carry_digits` : one step of a conversion in place, by its carry.
-/
import Mathlib

namespace Numeral

open Nat (ofDigits digits)

/-! ## Value and leading zeros -/

/-- The number a numeral in base `b` stands for. -/
def value (b : ℕ) (ds : List ℕ) : ℕ := ofDigits b ds.reverse

/-- How many zeros a numeral begins with. -/
def leading (ds : List ℕ) : ℕ := (ds.takeWhile (· = 0)).length

@[simp]
theorem value_nil (b : ℕ) : value b [] = 0 := rfl

/-- One more digit at the low end. -/
theorem value_concat (b : ℕ) (ds : List ℕ) (d : ℕ) :
    value b (ds ++ [d]) = b * value b ds + d := by
  rw [value, List.reverse_append, List.reverse_singleton, List.singleton_append,
    Nat.ofDigits_cons, value, Nat.add_comm]

/-- The high end counts as often as the low end has numbers. -/
theorem value_append (b : ℕ) (ds es : List ℕ) :
    value b (ds ++ es) = value b ds * b ^ es.length + value b es := by
  rw [value, List.reverse_append, Nat.ofDigits_append, List.length_reverse, value, value]
  ring

/-- Leading zeros do not count. -/
@[simp]
theorem value_zeros (b k : ℕ) (ds : List ℕ) : value b (List.replicate k 0 ++ ds) = value b ds := by
  rw [value, List.reverse_append, List.reverse_replicate, Nat.ofDigits_append_replicate_zero, value]

/-- The digits of a number, the highest first, stand for it. -/
@[simp]
theorem value_digits (b n : ℕ) : value b (digits b n).reverse = n := by
  rw [value, List.reverse_reverse, Nat.ofDigits_digits]

theorem value_lt {b : ℕ} (hb : 1 < b) {ds : List ℕ} (h : ∀ d ∈ ds, d < b) :
    value b ds < b ^ ds.length := by
  rw [value, ← List.length_reverse]
  exact Nat.ofDigits_lt_base_pow_length hb (fun d hd => h d (List.mem_reverse.mp hd))

/-- Numerals of one length and one value are the same. -/
theorem eq_of_value {b : ℕ} (hb : 1 < b) {ds es : List ℕ} (hlen : ds.length = es.length)
    (hds : ∀ d ∈ ds, d < b) (hes : ∀ d ∈ es, d < b) (h : value b ds = value b es) : ds = es := by
  apply List.reverse_injective
  apply Nat.ofDigits_inj_of_len_eq hb
  · rw [List.length_reverse, List.length_reverse, hlen]
  · exact fun d hd => hds d (List.mem_reverse.mp hd)
  · exact fun d hd => hes d (List.mem_reverse.mp hd)
  · exact h

/-- The zeros in front of the digits of a number are counted. -/
theorem leading_zeros (b k n : ℕ) :
    leading (List.replicate k 0 ++ (digits b n).reverse) = k := by
  have hhead : ((digits b n).reverse.takeWhile (· = 0)) = [] := by
    by_cases hn : n = 0
    · simp [hn]
    · have hne : (digits b n).reverse ≠ [] := by
        simpa using Nat.digits_ne_nil_iff_ne_zero.mpr hn
      rw [List.takeWhile_eq_nil_iff]
      intro hpos
      rw [List.get_eq_getElem, List.getElem_zero, List.head_reverse]
      simpa using Nat.getLast_digit_ne_zero b hn
  rw [leading, List.takeWhile_append_of_pos (by simp), hhead, List.append_nil,
    List.length_replicate]

/-- A numeral is its leading zeros and the digits of its value. -/
theorem eq_zeros_digits {b : ℕ} (hb : 1 < b) {ds : List ℕ} (h : ∀ d ∈ ds, d < b) :
    List.replicate (leading ds) 0 ++ (digits b (value b ds)).reverse = ds := by
  induction ds with
  | nil => simp [leading]
  | cons d ds ih =>
    by_cases hd : d = 0
    · have hlead : leading (d :: ds) = leading ds + 1 := by simp [leading, hd]
      have hvalue : value b (d :: ds) = value b ds := by
        have := value_zeros b 1 ds
        rw [hd]
        exact this
      rw [hlead, hvalue, List.replicate_succ, List.cons_append, hd,
        ih (fun e he => h e (List.mem_cons_of_mem _ he))]
    · have hlead : leading (d :: ds) = 0 := by simp [leading, hd]
      rw [hlead, List.replicate_zero, List.nil_append, value, Nat.digits_ofDigits b hb,
        List.reverse_reverse]
      · exact fun e he => h e (List.mem_reverse.mp he)
      · intro hne
        rw [List.getLast_reverse]
        exact hd

/-! ## Conversion -/

/-- The numeral in base `b'` of a numeral in base `b`, with as many leading zeros. -/
def convert (b b' : ℕ) (ds : List ℕ) : List ℕ :=
  List.replicate (leading ds) 0 ++ (digits b' (value b ds)).reverse

@[simp]
theorem value_convert (b b' : ℕ) (ds : List ℕ) : value b' (convert b b' ds) = value b ds := by
  rw [convert, value_zeros, value_digits]

@[simp]
theorem leading_convert (b b' : ℕ) (ds : List ℕ) : leading (convert b b' ds) = leading ds :=
  leading_zeros b' _ _

theorem convert_lt {b b' : ℕ} (hb' : 1 < b') (ds : List ℕ) : ∀ d ∈ convert b b' ds, d < b' := by
  intro d hd
  rcases List.mem_append.mp hd with hd | hd
  · have := List.eq_of_mem_replicate hd
    omega
  · exact Nat.digits_lt_base hb' (List.mem_reverse.mp hd)

/-- **A conversion is undone by the conversion back.** -/
theorem convert_convert {b b' : ℕ} (hb : 1 < b) {ds : List ℕ} (h : ∀ d ∈ ds, d < b) :
    convert b' b (convert b b' ds) = ds := by
  conv_lhs => rw [convert]
  rw [leading_convert, value_convert, eq_zeros_digits hb h]

/-! ## Conversion in place -/

/-- The digits of a number below the base. -/
theorem digits_of_lt {b c : ℕ} (hc : c < b) : digits b c = if c = 0 then [] else [c] := by
  split
  · rename_i h
    rw [h, Nat.digits_zero]
  · rename_i h
    exact Nat.digits_of_lt b c h hc

/-- The digits of `n`, lowest first, turn into those of `m ≥ n` when new digits of
the same number are found for them and the carry left over is written out. -/
theorem carry_digits {b n m c : ℕ} (hb : 1 < b) {ds : List ℕ} (hle : n ≤ m)
    (hlen : ds.length = (digits b n).length) (hds : ∀ d ∈ ds, d < b)
    (h : ofDigits b ds + b ^ ds.length * c = m) : ds ++ digits b c = digits b m := by
  have hvalue : ofDigits b (ds ++ digits b c) = m := by
    rw [Nat.ofDigits_append, Nat.ofDigits_digits, h]
  by_cases hc : c = 0
  · -- without a carry the number of digits is kept: `m` is at least `n`, and fits
    have hnew : ofDigits b ds = m := by
      rw [hc, Nat.digits_zero, List.append_nil] at hvalue
      exact hvalue
    have hfit : (digits b m).length ≤ ds.length := by
      rw [Nat.digits_length_le_iff hb, ← hnew]
      exact Nat.ofDigits_lt_base_pow_length hb hds
    have hgrow : (digits b n).length ≤ (digits b m).length := Nat.le_length_digits_le b n m hle
    rw [hc, Nat.digits_zero, List.append_nil]
    apply Nat.ofDigits_inj_of_len_eq hb (by omega) hds
    · exact fun d hd => Nat.digits_lt_base hb hd
    · rw [hnew, Nat.ofDigits_digits]
  · rw [← hvalue, Nat.digits_ofDigits b hb]
    · intro d hd
      rcases List.mem_append.mp hd with hd | hd
      · exact hds d hd
      · exact Nat.digits_lt_base hb hd
    · intro hne
      rw [List.getLast_append_of_ne_nil _ (Nat.digits_ne_nil_iff_ne_zero.mpr hc)]
      exact Nat.getLast_digit_ne_zero b hc

end Numeral
