/-
# The nonce of a K1 signature

`k1NonceFn` of `src/antelope/crypto.cpp`, which libsecp256k1 calls for the nonce of a
signature: the message is reduced like elliptic's `_truncateToN`, a generator is
seeded with the key, the message and the personalization, and of what it gives the
values in the right range are counted.

* `Nonce.subBE_spec` : the subtraction with its borrow;
* `Nonce.k1NonceFn_eq` : the nonce is the next value in the range.
-/
import Dwarfkit.Antelope.Chain.Base58

namespace Dwarfkit

namespace Nonce

open Base58 Numeral

/-! ## Big-endian numbers -/

/-- `secp256k1Order`. -/
def secp256k1Order : Bytes := [
  0xff, 0xff, 0xff, 0xff, 0xff, 0xff, 0xff, 0xff, 0xff, 0xff, 0xff, 0xff, 0xff, 0xff, 0xff, 0xfe,
  0xba, 0xae, 0xdc, 0xe6, 0xaf, 0x48, 0xa0, 0x3b, 0xbf, 0xd2, 0x5e, 0x8c, 0xd0, 0x36, 0x41, 0x41]

/-- `compareBE`. -/
def compareBE : Bytes → Bytes → ℤ
  | a :: as, b :: bs => if a ≠ b then (if a < b then -1 else 1) else compareBE as bs
  | _, _ => 0

/-- The loop of `subBE`, from the low end. -/
def subLoop : (value subtrahend : Bytes) → (borrow : ℤ) → Bytes
  | v :: vs, s :: ss, borrow =>
    let diff := (v.toNat : ℤ) - s.toNat - borrow
    (diff % 256).toNat.toUInt8 :: subLoop vs ss (if diff < 0 then 1 else 0)
  | vs, _, _ => vs

/-- `subBE`. -/
def subBE (value subtrahend : Bytes) : Bytes :=
  (subLoop value.reverse subtrahend.reverse 0).reverse

/-! ## The generator -/

/-- `EllipticDRBG`. -/
structure EllipticDRBG where
  k_ : Checksum256
  v_ : Checksum256

namespace EllipticDRBG

variable (hmacSha256 : Bytes → Bytes → Checksum256)

/-- `EllipticDRBG::update`. -/
def update (drbg : EllipticDRBG) (seed : Option Bytes) : EllipticDRBG :=
  let k := hmacSha256 drbg.k_.array (drbg.v_.array ++ [0x00] ++ seed.getD [])
  let v := hmacSha256 k.array drbg.v_.array
  match seed with
  | none => { k_ := k, v_ := v }
  | some seed =>
    let k := hmacSha256 k.array (v.array ++ [0x01] ++ seed)
    { k_ := k, v_ := hmacSha256 k.array v.array }

/-- So many bytes of one value. -/
def fill (n : ℕ) (b : UInt8) : Checksum n := ⟨List.replicate n b, List.length_replicate⟩

/-- The constructor. -/
def make (entropy nonce pers : Bytes) : EllipticDRBG :=
  update hmacSha256 { k_ := .zero 32, v_ := fill 32 0x01 } (some (entropy ++ nonce ++ pers))

/-- `EllipticDRBG::generate`. -/
def generate (drbg : EllipticDRBG) : Checksum256 × EllipticDRBG :=
  let v := hmacSha256 drbg.k_.array drbg.v_.array
  (v, update hmacSha256 { drbg with v_ := v } none)

/-- What so many calls of `generate` give. -/
def outputs : (n : ℕ) → EllipticDRBG → List Checksum256
  | 0, _ => []
  | n + 1, drbg => (generate hmacSha256 drbg).1 :: outputs n (generate hmacSha256 drbg).2

end EllipticDRBG

/-! ## The nonce -/

/-- The greatest value that is rejected at the high end, the order less one. -/
def nMinusOne : Bytes := secp256k1Order.set 31 (0x41 - 1)

/-- elliptic's inner check: at most 1, or at least the order less one. -/
def rejected (candidate : Bytes) : Bool :=
  ((candidate.take 31).all (· = 0) ∧ candidate.getD 31 0 ≤ 1) ∨ compareBE candidate nMinusOne ≥ 0

/-- The message modulo the order. -/
def truncateToN (msg32 : Bytes) : Bytes :=
  if compareBE msg32 secp256k1Order ≥ 0 then subBE msg32 secp256k1Order else msg32

/-- The loop of `k1NonceFn`, `guard` rounds from its end. -/
def nonceLoop (hmacSha256 : Bytes → Bytes → Checksum256) (attempt : ℕ) :
    (guard : ℕ) → (drbg : EllipticDRBG) → (produced : ℕ) → Option Checksum256
  | 0, _, _ => none
  | guard + 1, drbg, produced =>
    let candidate := drbg.generate hmacSha256
    if rejected candidate.1.array then nonceLoop hmacSha256 attempt guard candidate.2 produced
    else if produced = attempt then some candidate.1
    else nonceLoop hmacSha256 attempt guard candidate.2 (produced + 1)

/-- `k1NonceFn`. -/
def k1NonceFn (hmacSha256 : Bytes → Bytes → Checksum256) (msg32 key32 : Bytes) (pers : UInt8)
    (attempt : ℕ) : Option Checksum256 :=
  nonceLoop hmacSha256 attempt 1000
    (.make hmacSha256 key32 (truncateToN msg32) [pers]) 0

/-! ## Numbers -/

theorem bytesValue_cons (b : UInt8) (d : Bytes) :
    bytesValue (b :: d) = b.toNat * 256 ^ d.length + bytesValue d := by
  have happend := value_append 256 [b.toNat] (bytesOf d)
  have hlen : (bytesOf d).length = d.length := List.length_map _
  have hone : value 256 [b.toNat] = b.toNat := Nat.ofDigits_singleton
  rw [hlen, hone] at happend
  exact happend

theorem bytesValue_lt (d : Bytes) : bytesValue d < 256 ^ d.length := by
  have hlt := value_lt (b := 256) (by omega) (bytesOf_lt d)
  rwa [show (bytesOf d).length = d.length from List.length_map _] at hlt

/-- Numbers of one length are compared by their values. -/
theorem compareBE_neg_iff {a b : Bytes} (h : a.length = b.length) :
    compareBE a b < 0 ↔ bytesValue a < bytesValue b := by
  induction a generalizing b with
  | nil =>
    cases List.length_eq_zero_iff.mp h.symm
    exact iff_of_false (by decide) (Nat.lt_irrefl _)
  | cons x a ih =>
    cases b with
    | nil => cases h
    | cons y b =>
      have hlen : a.length = b.length := Nat.succ.inj h
      have ha := bytesValue_lt a
      have hb := bytesValue_lt b
      rw [← hlen] at hb
      rw [compareBE, bytesValue_cons, bytesValue_cons, ← hlen]
      by_cases hxy : x = y
      · rw [if_neg (not_not.mpr hxy), ih hlen, hxy, Nat.add_lt_add_iff_left]
      · rw [if_pos hxy]
        by_cases hlt : x < y
        · rw [if_pos hlt]
          have hstep : (x.toNat + 1) * 256 ^ a.length ≤ y.toNat * 256 ^ a.length :=
            Nat.mul_le_mul_right _ (UInt8.lt_iff_toNat_lt.mp hlt)
          refine iff_of_true (by decide) ?_
          rw [Nat.add_mul, Nat.one_mul] at hstep
          omega
        · rw [if_neg hlt]
          have hgt : y.toNat < x.toNat := by
            have hne : x.toNat ≠ y.toNat := fun h => hxy (UInt8.toNat_inj.mp h)
            have hle : ¬ x.toNat < y.toNat := fun h => hlt (UInt8.lt_iff_toNat_lt.mpr h)
            omega
          have hstep : (y.toNat + 1) * 256 ^ a.length ≤ x.toNat * 256 ^ a.length :=
            Nat.mul_le_mul_right _ hgt
          refine iff_of_false (by decide) ?_
          rw [Nat.add_mul, Nat.one_mul] at hstep
          omega

/-- The number that bytes stand for, the lowest first. -/
def lowValue (d : Bytes) : ℕ := Nat.ofDigits 256 (bytesOf d)

theorem lowValue_reverse (d : Bytes) : lowValue d.reverse = bytesValue d := by
  rw [lowValue, bytesOf, List.map_reverse]
  rfl

theorem lowValue_cons (b : UInt8) (d : Bytes) :
    lowValue (b :: d) = b.toNat + 256 * lowValue d := Nat.ofDigits_cons

/-- **The subtraction with its borrow**: what is borrowed at the high end is what is missing. -/
theorem subLoop_spec {value subtrahend : Bytes} (h : value.length = subtrahend.length) :
    ∀ borrow : ℤ, borrow = 0 ∨ borrow = 1 → (subLoop value subtrahend borrow).length = value.length ∧
      ∃ last : ℤ, (last = 0 ∨ last = 1) ∧ (lowValue (subLoop value subtrahend borrow) : ℤ) =
        lowValue value - lowValue subtrahend - borrow + last * 256 ^ value.length := by
  induction value generalizing subtrahend with
  | nil =>
    intro borrow hborrow
    cases List.length_eq_zero_iff.mp h.symm
    refine ⟨rfl, borrow, hborrow, ?_⟩
    simp [subLoop, lowValue, bytesOf]
  | cons v value ih =>
    intro borrow hborrow
    cases subtrahend with
    | nil => cases h
    | cons s subtrahend =>
      have hv := v.toNat_lt
      have hs := s.toNat_lt
      rw [subLoop]
      -- What is borrowed here is what brings the digit back into a byte.
      have hdigit : ((((v.toNat : ℤ) - s.toNat - borrow) % 256).toNat.toUInt8.toNat : ℤ) =
          v.toNat - s.toNat - borrow +
            256 * (if (v.toNat : ℤ) - s.toNat - borrow < 0 then 1 else 0) := by
        rw [UInt8.toNat_ofNat_of_lt' (by show _ < 256; omega)]
        rcases hborrow with rfl | rfl <;> split <;> omega
      obtain ⟨hlen, last, hlast, hvalue⟩ := ih (Nat.succ.inj h)
        (if (v.toNat : ℤ) - s.toNat - borrow < 0 then 1 else 0) (by split <;> simp)
      refine ⟨?_, last, hlast, ?_⟩
      · rw [List.length_cons, hlen, List.length_cons]
      · rw [lowValue_cons, lowValue_cons, lowValue_cons, List.length_cons, Nat.cast_add, hdigit]
        push_cast
        rw [hvalue]
        ring

/-- **`subBE`** takes the one number off the other, if that is not the greater one. -/
theorem subBE_spec {value subtrahend : Bytes} (h : value.length = subtrahend.length)
    (hle : bytesValue subtrahend ≤ bytesValue value) :
    (subBE value subtrahend).length = value.length ∧
      bytesValue (subBE value subtrahend) = bytesValue value - bytesValue subtrahend := by
  have hreverse : value.reverse.length = subtrahend.reverse.length := by
    rw [List.length_reverse, List.length_reverse, h]
  obtain ⟨hlen, last, hlast, hvalue⟩ := subLoop_spec hreverse 0 (.inl rfl)
  rw [lowValue_reverse, lowValue_reverse, List.length_reverse] at hvalue
  have hvalue' : (bytesValue (subBE value subtrahend) : ℤ) =
      bytesValue value - bytesValue subtrahend - 0 + last * 256 ^ value.length := by
    rw [← hvalue, subBE, ← lowValue_reverse, List.reverse_reverse]
  have hlen' : (subBE value subtrahend).length = value.length := by
    rw [subBE, List.length_reverse, hlen, List.length_reverse]
  refine ⟨hlen', ?_⟩
  have hlt := bytesValue_lt (subBE value subtrahend)
  rw [hlen'] at hlt
  rcases hlast with rfl | rfl
  · omega
  · exfalso
    zify at hlt hle
    omega

/-- The order of secp256k1. -/
def order : ℕ := 0xfffffffffffffffffffffffffffffffebaaedce6af48a03bbfd25e8cd0364141

theorem bytesValue_secp256k1Order : bytesValue secp256k1Order = order := by decide

theorem bytesValue_nMinusOne : bytesValue nMinusOne = order - 1 := by decide

/-- **The message modulo the order**: one subtraction is enough, as twice the order has more
than 256 bits. -/
theorem truncateToN_spec (msg32 : Checksum256) :
    (truncateToN msg32.array).length = 32 ∧
      bytesValue (truncateToN msg32.array) = bytesValue msg32.array % order := by
  have hlen : msg32.array.length = secp256k1Order.length := msg32.size_eq
  have hlt := bytesValue_lt msg32.array
  have hless := compareBE_neg_iff hlen
  rw [msg32.size_eq] at hlt
  rw [bytesValue_secp256k1Order] at hless
  unfold truncateToN
  split
  · rename_i hge
    have hle : order ≤ bytesValue msg32.array := by
      by_contra h
      have hneg := hless.mpr (Nat.lt_of_not_le h)
      omega
    obtain ⟨hlen', hvalue⟩ := subBE_spec hlen (by rwa [bytesValue_secp256k1Order])
    rw [bytesValue_secp256k1Order] at hvalue
    refine ⟨by rw [hlen', msg32.size_eq], ?_⟩
    rw [hvalue, Nat.mod_eq_sub_mod hle, Nat.mod_eq_of_lt]
    have htwice : 256 ^ 32 ≤ 2 * order := by decide
    omega
  · rename_i hlt'
    refine ⟨msg32.size_eq, (Nat.mod_eq_of_lt (hless.mp ?_)).symm⟩
    omega

theorem all_zero_iff (d : Bytes) : (d.all (· = 0)) = true ↔ bytesValue d = 0 := by
  induction d with
  | nil => simp [bytesValue, bytesOf]
  | cons b d ih =>
    have hb : b = 0 ↔ b.toNat = 0 := UInt8.toNat_inj.symm
    have hpos : 0 < 256 ^ d.length := Nat.pow_pos (by omega)
    rw [List.all_cons, Bool.and_eq_true, ih, bytesValue_cons, decide_eq_true_iff, hb,
      Nat.add_eq_zero_iff, Nat.mul_eq_zero, or_iff_left hpos.ne']

/-- **What is not rejected** is from 2 to the order less two. -/
theorem rejected_eq_false_iff (candidate : Checksum256) :
    rejected candidate.array = false ↔
      2 ≤ bytesValue candidate.array ∧ bytesValue candidate.array ≤ order - 2 := by
  have hlen : candidate.array.length = nMinusOne.length := candidate.size_eq
  have hhigh := compareBE_neg_iff hlen
  rw [bytesValue_nMinusOne] at hhigh
  have hsplit : candidate.array = candidate.array.take 31 ++ [candidate.array.getD 31 0] := by
    have hlt : 31 < candidate.array.length := by rw [candidate.size_eq]; omega
    rw [List.getD_eq_getElem _ _ hlt, List.take_append_getElem hlt,
      List.take_of_length_le (by rw [candidate.size_eq])]
  have hvalue : bytesValue candidate.array =
      256 * bytesValue (candidate.array.take 31) + (candidate.array.getD 31 0).toNat := by
    conv_lhs => rw [hsplit]
    rw [bytesValue, bytesOf_concat, value_concat, bytesValue]
  have hlow : (candidate.array.take 31).all (· = 0) ∧ candidate.array.getD 31 0 ≤ 1 ↔
      bytesValue candidate.array ≤ 1 := by
    have hlast : candidate.array.getD 31 0 ≤ 1 ↔ (candidate.array.getD 31 0).toNat ≤ 1 :=
      UInt8.le_iff_toNat_le
    rw [all_zero_iff, hlast, hvalue]
    omega
  have horder : 2 < order := by decide
  rw [rejected, decide_eq_false_iff_not, not_or, hlow]
  omega

/-! ## The next value in the range -/

/-- The values that are not rejected. -/
def accepted (candidates : List Checksum256) : List Checksum256 :=
  candidates.filter (fun c => 2 ≤ bytesValue c.array ∧ bytesValue c.array ≤ order - 2)

/-- The loop counts what is not rejected. -/
theorem nonceLoop_eq (hmacSha256 : Bytes → Bytes → Checksum256) (attempt guard : ℕ) :
    ∀ (drbg : EllipticDRBG) (produced : ℕ), produced ≤ attempt →
      nonceLoop hmacSha256 attempt guard drbg produced =
        (accepted (drbg.outputs hmacSha256 guard))[attempt - produced]? := by
  induction guard with
  | zero =>
    intro drbg produced _
    rfl
  | succ guard ih =>
    intro drbg produced hle
    have hrange := rejected_eq_false_iff (drbg.generate hmacSha256).1
    rw [nonceLoop, EllipticDRBG.outputs, accepted]
    cases hrejected : rejected (drbg.generate hmacSha256).1.array with
    | true =>
      have hout : ¬ (2 ≤ bytesValue (drbg.generate hmacSha256).1.array ∧
          bytesValue (drbg.generate hmacSha256).1.array ≤ order - 2) := by
        rw [← hrange, hrejected]
        decide
      rw [if_pos rfl, List.filter_cons_of_neg (by simpa using hout), ih _ _ hle]
      rfl
    | false =>
      rw [if_neg (by decide), List.filter_cons_of_pos (by simpa using hrange.mp hrejected)]
      by_cases hattempt : produced = attempt
      · rw [if_pos hattempt, hattempt, Nat.sub_self]
        rfl
      · rw [if_neg hattempt, ih _ _ (by omega),
          show attempt - produced = (attempt - (produced + 1)) + 1 by omega, List.getElem?_cons_succ]
        rfl

/-- **The nonce of a K1 signature.**  At each attempt of the library it is the next value from 2 to
the order less two of those that the generator gives, out of a thousand, for the key, the message
modulo the order and the personalization. -/
theorem k1NonceFn_eq (hmacSha256 : Bytes → Bytes → Checksum256) (msg32 : Checksum256)
    (key32 : Bytes) (pers : UInt8) (attempt : ℕ) :
    ∃ message : Checksum256, bytesValue message.array = bytesValue msg32.array % order ∧
      k1NonceFn hmacSha256 msg32.array key32 pers attempt =
        (accepted ((EllipticDRBG.make hmacSha256 key32 message.array [pers]).outputs
          hmacSha256 1000))[attempt]? := by
  obtain ⟨hlen, hvalue⟩ := truncateToN_spec msg32
  exact ⟨⟨truncateToN msg32.array, hlen⟩, hvalue, nonceLoop_eq hmacSha256 attempt 1000 _ 0 (by omega)⟩

end Nonce

end Dwarfkit
