/-
# Block modes

Cipher block chaining over any type of blocks, and the padding of a text to whole blocks by
bytes that hold their own number.

* `decrypt_encrypt` : chaining is undone if the cipher is;
* `wellPadded_iff` : the bytes that a padding is seen by.
-/
import Mathlib.Data.List.Basic
import Mathlib.Data.Nat.Init
import Mathlib.Tactic.Common

namespace BlockMode

/-! ## Chaining -/

section Chaining

variable {B : Type*} (mix : B → B → B)

/-- Every block is mixed with what became of the one before it, and enciphered. -/
def encrypt (E : B → B) : (chain : B) → List B → List B
  | _, [] => []
  | chain, b :: bs => E (mix chain b) :: encrypt E (E (mix chain b)) bs

/-- Every block is deciphered and mixed with the one before it. -/
def decrypt (D : B → B) : (chain : B) → List B → List B
  | _, [] => []
  | chain, c :: cs => mix (D c) chain :: decrypt D c cs

theorem length_encrypt (E : B → B) (bs : List B) :
    ∀ chain, (encrypt mix E chain bs).length = bs.length := by
  induction bs with
  | nil => intro chain; rfl
  | cons b bs ih =>
    intro chain
    rw [encrypt, List.length_cons, List.length_cons, ih]

/-- **Chaining is undone** under a cipher that is, if mixing twice with a block is undone. -/
theorem decrypt_encrypt {E D : B → B} (hcipher : ∀ b, D (E b) = b)
    (hmix : ∀ a b, mix (mix a b) a = b) (bs : List B) :
    ∀ chain, decrypt mix D chain (encrypt mix E chain bs) = bs := by
  induction bs with
  | nil => intro chain; rfl
  | cons b bs ih =>
    intro chain
    rw [encrypt, decrypt, hcipher, hmix, ih]

end Chaining

/-! ## Padding -/

/-- Some bytes that hold their number. -/
def padding (n : ℕ) : List UInt8 := List.replicate n (UInt8.ofNat n)

/-- A text that ends in up to `k` bytes of padding. -/
def WellPadded (k : ℕ) (text : List UInt8) : Prop :=
  ∃ message n, 1 ≤ n ∧ n ≤ k ∧ text = message ++ padding n

theorem length_padding (n : ℕ) : (padding n).length = n := List.length_replicate

/-- The last byte of a padding is its length. -/
theorem getLast?_append_padding (message : List UInt8) {n : ℕ} (h : 1 ≤ n) :
    (message ++ padding n).getLast? = some (UInt8.ofNat n) := by
  have hne : n ≠ 0 := by omega
  simp [padding, List.getLast?_replicate, hne]

/-- **A text is well padded** exactly if its last byte is the length of a padding, and the
bytes that it counts are like it. -/
theorem wellPadded_iff {k : ℕ} (hk : k < 256) {text : List UInt8} {last : UInt8}
    (hlast : text.getLast? = some last) (hfit : last.toNat ≤ text.length) :
    WellPadded k text ↔ 1 ≤ last.toNat ∧ last.toNat ≤ k ∧
      ∀ b ∈ text.drop (text.length - last.toNat), b = last := by
  constructor
  · rintro ⟨message, n, hn, hnk, rfl⟩
    rw [getLast?_append_padding message hn] at hlast
    have hvalue : last.toNat = n := by
      rw [← Option.some.inj hlast]
      exact UInt8.toNat_ofNat_of_lt' (by simp only [UInt8.size]; omega)
    refine ⟨by omega, by omega, ?_⟩
    rw [hvalue, List.length_append, length_padding, Nat.add_sub_cancel, List.drop_left]
    intro b hb
    rw [← Option.some.inj hlast]
    exact List.eq_of_mem_replicate hb
  · rintro ⟨hpos, hle, hall⟩
    refine ⟨text.take (text.length - last.toNat), last.toNat, hpos, hle, ?_⟩
    have hlength : (text.drop (text.length - last.toNat)).length = last.toNat := by
      rw [List.length_drop]
      omega
    have hdrop : text.drop (text.length - last.toNat) = padding last.toNat := by
      rw [padding, UInt8.ofNat_toNat]
      exact List.eq_replicate_iff.mpr ⟨hlength, hall⟩
    rw [← hdrop, List.take_append_drop]

end BlockMode
