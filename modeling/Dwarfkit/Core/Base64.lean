/-
# Base64

`base64Encode` and `base64Decode` of `core/base64.cpp`.  The encoder takes three bytes at
a time; the decoder is a bit buffer that six bits go into and eight come out of.

* `base64Encode_eq` : the text of the six-bit numbers, and padding;
* `base64Decode_eq_ok` : what the decoder accepts, and as which bytes.
-/
import Dwarfkit.Core.Result
import Dwarfkit.Library.Repacking
import Dwarfkit.Library.Wire

namespace Dwarfkit

open Repacking

/-! ## Encoding -/

/-- `base64Encode`'s alphabet. -/
def base64Alphabet : Str := "ABCDEFGHIJKLMNOPQRSTUVWXYZabcdefghijklmnopqrstuvwxyz0123456789+/"

def base64Char (n : ℕ) : UInt8 := base64Alphabet.getD (n &&& 63) 0

/-- `base64Encode`. -/
def base64Encode : Bytes → Str
  | a :: b :: c :: rest =>
    let n := (a.toNat <<< 16) ||| (b.toNat <<< 8) ||| c.toNat
    base64Char (n >>> 18) :: base64Char (n >>> 12) :: base64Char (n >>> 6) :: base64Char n ::
      base64Encode rest
  | [a, b] =>
    let n := (a.toNat <<< 16) ||| (b.toNat <<< 8)
    [base64Char (n >>> 18), base64Char (n >>> 12), base64Char (n >>> 6), 61]
  | [a] =>
    let n := a.toNat <<< 16
    [base64Char (n >>> 18), base64Char (n >>> 12), 61, 61]
  | [] => []

/-! ## Decoding -/

/-- `decodeMap`, as `buildDecodeMap` fills it: minus one outside the alphabet. -/
def decodeMap : UInt8 → ℤ :=
  (List.range 64).foldl (fun map i c => if c = base64Alphabet.getD i 0 then i else map c)
    (fun _ => -1)

/-- The locals of the decoder's loop. -/
structure BitBuffer where
  result : Bytes
  buffer : UInt32
  bits : ℕ
  deriving DecidableEq, Repr

/-- Six bits go in; eight come out as soon as they are there. -/
def BitBuffer.push (s : BitBuffer) (value : ℕ) : BitBuffer :=
  let buffer := (s.buffer <<< 6) ||| value.toUInt32
  let bits := s.bits + 6
  if 8 ≤ bits then
    ⟨s.result ++ [(buffer >>> (bits - 8).toUInt32).toUInt8], buffer, bits - 8⟩
  else ⟨s.result, buffer, bits⟩

/-- The loop of `base64Decode`. -/
def base64DecodeLoop : Str → BitBuffer → Result Bytes
  | [], s => .ok s.result
  | c :: text, s =>
    if decodeMap c < 0 then err .invalid "Invalid base64 string"
    else base64DecodeLoop text (s.push (decodeMap c).toNat)

/-- A text without its trailing padding. -/
def stripPadding (text : Str) : Str := text.rdropWhile (· = 61)

def base64Decode (text : Str) : Result Bytes :=
  let kept := stripPadding text
  if 2 < text.length - kept.length ∨ kept.length % 4 = 1 then
    err .invalid "Invalid base64 string"
  else base64DecodeLoop kept ⟨[], 0, 0⟩

/-! ## The six-bit numbers of bytes -/

/-- The six-bit numbers whose bits are those of the bytes, with zeros at the end. -/
def sextets : Bytes → List ℕ
  | a :: b :: c :: rest =>
    a.toNat / 4 :: (a.toNat % 4 * 16 + b.toNat / 16) :: (b.toNat % 16 * 4 + c.toNat / 64) ::
      c.toNat % 64 :: sextets rest
  | [a, b] => [a.toNat / 4, a.toNat % 4 * 16 + b.toNat / 16, b.toNat % 16 * 4]
  | [a] => [a.toNat / 4, a.toNat % 4 * 16]
  | [] => []

/-- How many bits of so many characters are more than whole bytes. -/
def unusedBits (length : ℕ) : ℕ := 6 * length % 8

theorem unusedBits_lt (length : ℕ) : unusedBits length < 8 := Nat.mod_lt _ (by decide)

/-- The bits are the same, and the ones left over are zeros. -/
theorem carries_sextets (data : Bytes) :
    Carries 6 8 (sextets data) (data.map UInt8.toNat) (unusedBits (sextets data).length) 0 := by
  induction data using sextets.induct with
  | case1 a b c rest ih =>
    have ha := a.toNat_lt
    have hb := b.toNat_lt
    have hc := c.toNat_lt
    -- Three bytes are four numbers exactly, so what follows starts on a byte again.
    have hblock : Carries 6 8 [a.toNat / 4, a.toNat % 4 * 16 + b.toNat / 16,
        b.toNat % 16 * 4 + c.toNat / 64, c.toNat % 64] [a.toNat, b.toNat, c.toNat] 0 0 := by
      refine ⟨?_, ?_, rfl, ?_, Nat.one_pos⟩
      · simp
        omega
      · simp
        omega
      · simp [Numeral.value, Nat.ofDigits_cons]
        omega
    have hunused : unusedBits (sextets (a :: b :: c :: rest)).length =
        unusedBits (sextets rest).length := by
      simp only [sextets, List.length_cons, unusedBits]
      omega
    rw [hunused]
    exact hblock.append ih
  | case2 a b =>
    have ha := a.toNat_lt
    have hb := b.toNat_lt
    have hunused : unusedBits (sextets [a, b]).length = 2 := by simp [sextets, unusedBits]
    rw [hunused, sextets]
    refine ⟨?_, ?_, rfl, ?_, by decide⟩
    · simp
      omega
    · simp
      omega
    · simp [Numeral.value, Nat.ofDigits_cons]
      omega
  | case3 a =>
    have ha := a.toNat_lt
    have hunused : unusedBits (sextets [a]).length = 4 := by simp [sextets, unusedBits]
    rw [hunused, sextets]
    refine ⟨?_, ?_, rfl, ?_, by decide⟩
    · simp
      omega
    · simp
      omega
    · simp [Numeral.value, Nat.ofDigits_cons]
      omega
  | case4 => exact Carries.nil 6 8

theorem sextets_lt (data : Bytes) : ∀ n ∈ sextets data, n < 64 := (carries_sextets data).source_lt

theorem length_sextets (data : Bytes) : (sextets data).length = (8 * data.length + 5) / 6 := by
  induction data using sextets.induct with
  | case1 a b c rest ih =>
    simp only [sextets, List.length_cons, ih]
    omega
  | case2 a b => simp [sextets]
  | case3 a => simp [sextets]
  | case4 => simp [sextets]

/-! ## The alphabet -/

/-- Capital letters, small letters and digits. -/
def lettersDigits : List ℕ := List.range' 65 26 ++ List.range' 97 26 ++ List.range' 48 10

theorem base64Alphabet_eq : base64Alphabet = (lettersDigits ++ [43, 47]).map Nat.toUInt8 := by rfl

theorem length_base64Alphabet : base64Alphabet.length = 64 := by
  rw [base64Alphabet_eq, List.length_map]
  rfl

/-- No character stands twice. -/
theorem nodup_base64Alphabet : base64Alphabet.Nodup := by
  have hnodup : (lettersDigits ++ [43, 47]).Nodup := by decide
  have hbytes : ∀ n ∈ lettersDigits ++ [43, 47], n < 256 := by decide
  rw [base64Alphabet_eq]
  apply hnodup.map_on
  intro m hm n hn h
  have hnat := congrArg UInt8.toNat h
  rwa [Nat.toUInt8_eq, Nat.toUInt8_eq, UInt8.toNat_ofNat_of_lt' (hbytes m hm),
    UInt8.toNat_ofNat_of_lt' (hbytes n hn)] at hnat

/-- After `n` turns of the loop that fills it a map holds the first `n` places. -/
theorem foldl_places {chars : Str} (hnodup : chars.Nodup) (c : UInt8) {n : ℕ}
    (hn : n ≤ chars.length) :
    (List.range n).foldl (fun map i c => if c = chars.getD i 0 then (i : ℤ) else map c)
      (fun _ => -1) c = if chars.idxOf c < n then (chars.idxOf c : ℤ) else -1 := by
  induction n with
  | zero => rfl
  | succ n ih =>
    rw [List.range_succ, List.foldl_append, List.foldl_cons, List.foldl_nil, ih (by omega),
      List.getD_eq_getElem _ _ hn]
    by_cases hc : c = chars[n]
    · rw [if_pos hc, hc, hnodup.idxOf_getElem, if_pos (Nat.lt_succ_self n)]
    · have hne : chars.idxOf c ≠ n := by
        rintro rfl
        exact hc (List.getElem_idxOf hn).symm
      have hiff : chars.idxOf c < n + 1 ↔ chars.idxOf c < n := by omega
      simp only [if_neg hc, hiff]

/-- The map holds the places of the characters. -/
theorem decodeMap_eq (c : UInt8) :
    decodeMap c = if c ∈ base64Alphabet then (base64Alphabet.idxOf c : ℤ) else -1 := by
  have hturns := foldl_places nodup_base64Alphabet c length_base64Alphabet.ge
  have hmem : base64Alphabet.idxOf c < 64 ↔ c ∈ base64Alphabet := by
    rw [← length_base64Alphabet, List.idxOf_lt_length_iff]
  simp only [hmem] at hturns
  exact hturns

/-- The characters with a number are those of the alphabet. -/
theorem decodeMap_nonneg {c : UInt8} : 0 ≤ decodeMap c ↔ c ∈ base64Alphabet := by
  rw [decodeMap_eq]
  split
  · rename_i hc
    simp only [Int.natCast_nonneg, hc]
  · rename_i hc
    simp only [Int.reduceNeg, Int.reduceLE, hc]

/-- The number of a character of the alphabet. -/
def sixBits (c : UInt8) : ℕ := (decodeMap c).toNat

theorem sixBits_of_mem {c : UInt8} (h : c ∈ base64Alphabet) :
    sixBits c = base64Alphabet.idxOf c := by
  rw [sixBits, decodeMap_eq, if_pos h, Int.toNat_natCast]

theorem sixBits_lt (c : UInt8) : sixBits c < 64 := by
  by_cases hc : c ∈ base64Alphabet
  · rw [sixBits_of_mem hc, ← length_base64Alphabet]
    exact List.idxOf_lt_length_of_mem hc
  · rw [sixBits, decodeMap_eq, if_neg hc]
    decide

/-- Only the low six bits of a number choose its character. -/
theorem base64Char_eq (n : ℕ) : base64Char n = base64Alphabet.getD (n % 64) 0 := by
  rw [base64Char, Nat.and_two_pow_sub_one_eq_mod n 6]

theorem base64Char_mem (n : ℕ) : base64Char n ∈ base64Alphabet := by
  have hlt : n % 64 < base64Alphabet.length := by
    rw [length_base64Alphabet]
    exact Nat.mod_lt _ (by decide)
  rw [base64Char_eq, List.getD_eq_getElem _ _ hlt]
  exact List.getElem_mem hlt

theorem sixBits_base64Char {n : ℕ} (h : n < 64) : sixBits (base64Char n) = n := by
  have hlt : n < base64Alphabet.length := length_base64Alphabet.symm ▸ h
  rw [sixBits_of_mem (base64Char_mem n), base64Char_eq, Nat.mod_eq_of_lt h,
    List.getD_eq_getElem _ _ hlt, nodup_base64Alphabet.idxOf_getElem]

theorem base64Char_sixBits {c : UInt8} (h : c ∈ base64Alphabet) : base64Char (sixBits c) = c := by
  have hlt : base64Alphabet.idxOf c < base64Alphabet.length := List.idxOf_lt_length_of_mem h
  rw [base64Char_eq, Nat.mod_eq_of_lt (sixBits_lt c), sixBits_of_mem h,
    List.getD_eq_getElem _ _ hlt, List.getElem_idxOf]

/-- The padding is not in the alphabet. -/
theorem padding_notMem : 61 ∉ base64Alphabet := by
  rw [base64Alphabet_eq]
  decide

/-- Numbers of the same low bits have one character. -/
theorem base64Char_of_mod {n m : ℕ} (h : n % 64 = m) : base64Char n = base64Char m := by
  rw [base64Char_eq, base64Char_eq, ← h, Nat.mod_mod]

/-! ## The text of bytes -/

/-- The four numbers of three bytes, as parts of their 24 bits. -/
theorem chunk_three (a b c : UInt8) :
    let n := (a.toNat <<< 16) ||| (b.toNat <<< 8) ||| c.toNat
    n / 2 ^ 18 % 64 = a.toNat / 4 ∧ n / 2 ^ 12 % 64 = a.toNat % 4 * 16 + b.toNat / 16 ∧
      n / 2 ^ 6 % 64 = b.toNat % 16 * 4 + c.toNat / 64 ∧ n % 64 = c.toNat % 64 := by
  have ha := a.toNat_lt
  have hb := b.toNat_lt
  have hc := c.toNat_lt
  have hchunk : (a.toNat <<< 16) ||| (b.toNat <<< 8) ||| c.toNat =
      a.toNat * 65536 + b.toNat * 256 + c.toNat := by
    rw [Nat.or_assoc, or_low b.toNat c.toNat 8 (by omega), or_low _ _ 16 (by omega)]
    omega
  rw [hchunk]
  omega

/-- **An encoded text is the characters of the six-bit numbers, and padding.** -/
theorem base64Encode_eq (data : Bytes) :
    base64Encode data =
      (sextets data).map base64Char ++ List.replicate ((3 - data.length % 3) % 3) 61 := by
  induction data using base64Encode.induct with
  | case1 a b c rest ih =>
    obtain ⟨h0, h1, h2, h3⟩ := chunk_three a b c
    have hpadding : (3 - (a :: b :: c :: rest).length % 3) % 3 = (3 - rest.length % 3) % 3 := by
      simp only [List.length_cons]
      omega
    rw [base64Encode, ih, hpadding, sextets]
    simp only [Nat.shiftRight_eq_div_pow, base64Char_of_mod h0, base64Char_of_mod h1,
      base64Char_of_mod h2, base64Char_of_mod h3, List.map_cons, List.cons_append]
  | case2 a b =>
    have ha := a.toNat_lt
    have hb := b.toNat_lt
    -- The bytes of a chunk do not overlap, so the `or` is a sum.
    have hchunk : (a.toNat <<< 16) ||| (b.toNat <<< 8) = a.toNat * 65536 + b.toNat * 256 := by
      rw [or_low _ _ 16 (by omega)]
      omega
    have h0 : (a.toNat * 65536 + b.toNat * 256) / 2 ^ 18 % 64 = a.toNat / 4 := by omega
    have h1 : (a.toNat * 65536 + b.toNat * 256) / 2 ^ 12 % 64 =
        a.toNat % 4 * 16 + b.toNat / 16 := by omega
    have h2 : (a.toNat * 65536 + b.toNat * 256) / 2 ^ 6 % 64 = b.toNat % 16 * 4 := by omega
    rw [base64Encode, hchunk, sextets]
    simp only [Nat.shiftRight_eq_div_pow, base64Char_of_mod h0, base64Char_of_mod h1,
      base64Char_of_mod h2]
    rfl
  | case3 a =>
    have ha := a.toNat_lt
    have h0 : a.toNat * 2 ^ 16 / 2 ^ 18 % 64 = a.toNat / 4 := by omega
    have h1 : a.toNat * 2 ^ 16 / 2 ^ 12 % 64 = a.toNat % 4 * 16 := by omega
    rw [base64Encode, sextets]
    simp only [Nat.shiftRight_eq_div_pow, Nat.shiftLeft_eq, base64Char_of_mod h0,
      base64Char_of_mod h1]
    rfl
  | case4 => rfl

theorem stripPadding_append {text : Str} (h : 61 ∉ text) (n : ℕ) :
    stripPadding (text ++ List.replicate n 61) = text := by
  induction n with
  | zero =>
    rw [List.replicate_zero, List.append_nil, stripPadding, List.rdropWhile_eq_self_iff]
    intro hne hlast
    exact h (of_decide_eq_true hlast ▸ List.getLast_mem hne)
  | succ n ih =>
    rw [List.replicate_succ', ← List.append_assoc]
    unfold stripPadding at ih ⊢
    rw [List.rdropWhile_concat_pos _ _ _ (by decide), ih]

/-- The characters of an encoded text. -/
theorem stripPadding_base64Encode (data : Bytes) :
    stripPadding (base64Encode data) = (sextets data).map base64Char := by
  rw [base64Encode_eq]
  apply stripPadding_append
  intro hmem
  obtain ⟨n, -, hn⟩ := List.mem_map.mp hmem
  exact padding_notMem (hn ▸ base64Char_mem n)

/-! ## The bit buffer -/

/-- A bit buffer holds the bits of the numbers that went in: whole bytes in the result, and
fewer than eight at its low end. -/
structure BitBuffer.Holds (s : BitBuffer) (ds : List ℕ) : Prop where
  bits_lt : s.bits < 8
  carries : Carries 6 8 ds (s.result.map UInt8.toNat) s.bits (s.buffer.toNat % 2 ^ s.bits)

/-- Nothing is in a new buffer. -/
theorem BitBuffer.holds_nil : (⟨[], 0, 0⟩ : BitBuffer).Holds [] :=
  ⟨by decide, Carries.nil 6 8⟩

/-- Six bits at the low end push the six highest ones out. -/
theorem toNat_shiftIn (buffer : UInt32) {d : ℕ} (hd : d < 64) :
    ((buffer <<< 6) ||| d.toUInt32).toNat = buffer.toNat % 2 ^ 26 * 2 ^ 6 + d := by
  have hsize : 64 < UInt32.size := by decide
  have hdigit : d.toUInt32.toNat = d := UInt32.toNat_ofNat_of_lt' (by omega)
  have hshift : buffer.toNat <<< 6 % 2 ^ 32 = (buffer.toNat % 2 ^ 26) <<< 6 := by
    rw [Nat.shiftLeft_eq, Nat.shiftLeft_eq]
    omega
  rw [UInt32.toNat_or, UInt32.toNat_shiftLeft, hdigit]
  show (buffer.toNat <<< 6 % 2 ^ 32) ||| d = _
  rw [hshift, or_low _ _ 6 (by omega)]

/-- The byte above the `k` low bits. -/
theorem toNat_byteAbove (buffer : UInt32) {k : ℕ} (hk : k < 32) :
    (buffer >>> k.toUInt32).toUInt8.toNat = buffer.toNat / 2 ^ k % 2 ^ 8 := by
  have hsize : 32 < UInt32.size := by decide
  have hcount : k.toUInt32.toNat = k := UInt32.toNat_ofNat_of_lt' (by omega)
  rw [UInt32.toNat_toUInt8, UInt32.toNat_shiftRight, hcount, Nat.mod_eq_of_lt hk,
    Nat.shiftRight_eq_div_pow]

/-- **A number that goes in is held.** -/
theorem BitBuffer.Holds.push {s : BitBuffer} {ds : List ℕ} (h : s.Holds ds) {d : ℕ} (hd : d < 64) :
    (s.push d).Holds (ds ++ [d]) := by
  have hbits := h.bits_lt
  -- the bits that are pushed out of the buffer have been written
  have hlow : ((s.buffer <<< 6) ||| d.toUInt32).toNat % 2 ^ (s.bits + 6) =
      s.buffer.toNat % 2 ^ s.bits * 2 ^ 6 + d := by
    have hdvd : 2 ^ s.bits ∣ 2 ^ 26 := Nat.pow_dvd_pow 2 (by omega)
    have hquotient : (s.buffer.toNat % 2 ^ 26 * 2 ^ 6 + d) / 2 ^ 6 = s.buffer.toNat % 2 ^ 26 := by
      omega
    have hremainder : (s.buffer.toNat % 2 ^ 26 * 2 ^ 6 + d) % 2 ^ 6 = d := by omega
    rw [toNat_shiftIn _ hd, Nat.pow_add, Nat.mul_comm (2 ^ s.bits), Nat.mod_mul, hremainder,
      hquotient, Nat.mod_mod_of_dvd _ hdvd]
    ring
  have hcarries := h.carries.concat hd
  rw [← hlow] at hcarries
  unfold BitBuffer.push
  by_cases hfull : 8 ≤ s.bits + 6
  · simp only [hfull, if_true]
    have hwidth : s.bits + 6 = s.bits + 6 - 8 + 8 := (Nat.sub_add_cancel hfull).symm
    have hdvd : 2 ^ (s.bits + 6 - 8) ∣ 2 ^ (s.bits + 6) := Nat.pow_dvd_pow 2 (Nat.sub_le _ _)
    have hbyte : ((s.buffer <<< 6) ||| d.toUInt32).toNat % 2 ^ (s.bits + 6) / 2 ^ (s.bits + 6 - 8) =
        (((s.buffer <<< 6) ||| d.toUInt32) >>> (s.bits + 6 - 8).toUInt32).toUInt8.toNat := by
      rw [toNat_byteAbove _ (by omega), ← Nat.mod_mul_right_div_self, ← Nat.pow_add, ← hwidth]
    have hemit := hcarries.emit hfull
    rw [hbyte, Nat.mod_mod_of_dvd _ hdvd] at hemit
    refine ⟨by simp only; omega, ?_⟩
    simpa using hemit
  · simp only [hfull, if_false]
    exact ⟨by simp only; omega, hcarries⟩

/-- The loop takes characters of the alphabet only. -/
theorem mem_alphabet_of_loop {text : Str} {s : BitBuffer} {data : Bytes}
    (h : base64DecodeLoop text s = .ok data) : ∀ c ∈ text, c ∈ base64Alphabet := by
  induction text generalizing s with
  | nil => simp
  | cons c text ih =>
    rw [base64DecodeLoop] at h
    split at h
    · cases h
    · rename_i hc
      exact List.forall_mem_cons.mpr ⟨decodeMap_nonneg.mp (not_lt.mp hc), ih h⟩

/-- **At the end of the loop the buffer holds the numbers of all characters.** -/
theorem holds_of_loop {text : Str} {s : BitBuffer} {ds : List ℕ} (h : s.Holds ds)
    (halphabet : ∀ c ∈ text, c ∈ base64Alphabet) :
    ∃ t : BitBuffer, base64DecodeLoop text s = .ok t.result ∧ t.Holds (ds ++ text.map sixBits) := by
  induction text generalizing s ds with
  | nil => exact ⟨s, rfl, by simpa using h⟩
  | cons c text ih =>
    obtain ⟨hc, htext⟩ := List.forall_mem_cons.mp halphabet
    obtain ⟨t, hloop, ht⟩ := ih (h.push (sixBits_lt c)) htext
    refine ⟨t, ?_, by simpa using ht⟩
    rw [base64DecodeLoop, if_neg (not_lt.mpr (decodeMap_nonneg.mpr hc))]
    exact hloop

/-! ## What the decoder accepts -/

/-- A text in base64: at most two paddings behind characters of the alphabet, of which none is
left alone in its group of four. -/
structure IsBase64 (text : Str) : Prop where
  padding : text.length - (stripPadding text).length ≤ 2
  length : (stripPadding text).length % 4 ≠ 1
  alphabet : ∀ c ∈ stripPadding text, c ∈ base64Alphabet

/-- Bytes are known by their numbers. -/
theorem bytes_eq {data data' : Bytes} (h : data.map UInt8.toNat = data'.map UInt8.toNat) :
    data = data' :=
  List.map_injective_iff.mpr (fun _ _ => UInt8.toNat_inj.mp) h

/-- **The decoder takes the texts in base64, as the bytes that carry their bits.** -/
theorem base64Decode_eq_ok {text : Str} {data : Bytes} :
    base64Decode text = .ok data ↔
      IsBase64 text ∧ ∃ left, Carries 6 8 ((stripPadding text).map sixBits)
        (data.map UInt8.toNat) (unusedBits (stripPadding text).length) left := by
  constructor
  · intro h
    simp only [base64Decode] at h
    split at h
    · cases h
    · rename_i hshape
      obtain ⟨hpadding, hlength⟩ := not_or.mp hshape
      have halphabet := mem_alphabet_of_loop h
      obtain ⟨t, hloop, ht⟩ := holds_of_loop BitBuffer.holds_nil halphabet
      rw [h] at hloop
      cases hloop
      have hcarries := ht.carries
      -- The loop may hold less than a byte back: those are the unused bits.
      have hbits : t.bits = unusedBits (stripPadding text).length := by
        have hlt := ht.bits_lt
        have hlen := hcarries.length
        rw [List.nil_append, List.length_map] at hlen
        unfold unusedBits
        omega
      rw [hbits] at hcarries
      exact ⟨⟨not_lt.mp hpadding, hlength, halphabet⟩, _, hcarries⟩
  · rintro ⟨⟨hpadding, hlength, halphabet⟩, left, hcarries⟩
    obtain ⟨t, hloop, ht⟩ := holds_of_loop BitBuffer.holds_nil halphabet
    have hdata : t.result = data :=
      bytes_eq (ht.carries.target_unique hcarries ht.bits_lt (unusedBits_lt _))
    unfold base64Decode
    rw [if_neg (not_or.mpr ⟨not_lt.mpr hpadding, hlength⟩), hloop, hdata]

/-- The numbers of the characters of encoded bytes. -/
theorem map_sixBits_encoded (data : Bytes) :
    ((sextets data).map base64Char).map sixBits = sextets data := by
  exact map_map_cancel (fun n hn => sixBits_base64Char (sextets_lt data n hn))

/-- An encoded text is one in base64. -/
theorem isBase64_encode (data : Bytes) : IsBase64 (base64Encode data) := by
  have hlen := length_sextets data
  refine ⟨?_, ?_, ?_⟩
  · rw [stripPadding_base64Encode, base64Encode_eq, List.length_append, List.length_map,
      List.length_replicate]
    omega
  · rw [stripPadding_base64Encode, List.length_map]
    omega
  · rw [stripPadding_base64Encode, List.forall_mem_map]
    exact fun n _ => base64Char_mem n

/-- **What was encoded is decoded.** -/
theorem base64Decode_base64Encode (data : Bytes) : base64Decode (base64Encode data) = .ok data := by
  refine base64Decode_eq_ok.mpr ⟨isBase64_encode data, 0, ?_⟩
  rw [stripPadding_base64Encode, map_sixBits_encoded, List.length_map]
  exact carries_sextets data

/-! ## The texts of the same bytes -/

/-- Texts of one length with the same characters, but for the last `unused` bits of the last ones. -/
structure AgreeAbove (unused : ℕ) (s t : Str) : Prop where
  length : s.length = t.length
  dropLast : s.dropLast = t.dropLast
  getLast : s.getLast?.map (fun c => sixBits c >>> unused) =
    t.getLast?.map (fun c => sixBits c >>> unused)

/-- Texts of the alphabet agree when their numbers do. -/
theorem agreeAbove_of_numbers {unused : ℕ} {s t : Str} (hs : ∀ c ∈ s, c ∈ base64Alphabet)
    (ht : ∀ c ∈ t, c ∈ base64Alphabet) (hlen : s.length = t.length)
    (hdrop : (s.map sixBits).dropLast = (t.map sixBits).dropLast)
    (hlast : (s.map sixBits).getLast?.map (· / 2 ^ unused) =
      (t.map sixBits).getLast?.map (· / 2 ^ unused)) : AgreeAbove unused s t := by
  have hback : ∀ u : Str, (∀ c ∈ u, c ∈ base64Alphabet) → (u.map sixBits).map base64Char = u := by
    intro u hu
    exact map_map_cancel (fun c hc => base64Char_sixBits (hu c hc))
  refine ⟨hlen, ?_, ?_⟩
  · have hchars := congrArg (List.map base64Char) hdrop
    rwa [List.map_dropLast, List.map_dropLast, hback s hs, hback t ht] at hchars
  · rw [List.getLast?_map, List.getLast?_map, Option.map_map, Option.map_map] at hlast
    simpa only [Function.comp_def, Nat.shiftRight_eq_div_pow] using hlast

/-- **A text that is decoded is the one its bytes are encoded as**, but for its padding and the
unused bits of its last character. -/
theorem agreeAbove_of_base64Decode {text : Str} {data : Bytes} (h : base64Decode text = .ok data) :
    6 * (stripPadding text).length = 8 * data.length + unusedBits (stripPadding text).length ∧
      unusedBits (stripPadding text).length < 6 ∧
      AgreeAbove (unusedBits (stripPadding text).length) (stripPadding text)
        (stripPadding (base64Encode data)) := by
  obtain ⟨⟨-, hlength, halphabet⟩, left, hcarries⟩ := base64Decode_eq_ok.mp h
  obtain ⟨⟨-, hlength', halphabet'⟩, left', hcarries'⟩ :=
    base64Decode_eq_ok.mp (base64Decode_base64Encode data)
  have hunused : ∀ n, n % 4 ≠ 1 → unusedBits n < 6 := by
    intro n hn
    unfold unusedBits
    omega
  obtain ⟨-, hlen, hdrop, hlast⟩ :=
    hcarries.source_agree hcarries' (hunused _ hlength) (hunused _ hlength')
  refine ⟨?_, hunused _ hlength, ?_⟩
  · simpa using hcarries.length
  · exact agreeAbove_of_numbers halphabet halphabet' (by simpa using hlen) hdrop hlast

end Dwarfkit
