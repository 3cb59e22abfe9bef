/-
# Hexadecimal text and the ABI encoder and decoder

`arrayToHex`/`hexToArray` of `src/antelope/utils.cpp`, and the primitive writers
and readers of `ABIEncoder` and `ABIDecoder`.  A writer is the bytes it appends;
a reader is a `Wire.Reader`, its state the bytes still unread.  Every writer
comes with the fact that its reader takes back exactly what it wrote:

* `hexToArray_arrayToHex` : hex text carries its bytes;
* `reads_readInt`, `reads_readVaruint32`, `reads_readString` : the readers undo
  the writers, whatever follows.
-/
import Dwarfkit.Core.Result
import Dwarfkit.Library.Wire

namespace Dwarfkit

open Wire

/-! ## Hexadecimal text -/

/-- The character of `"0123456789abcdef"` at `d < 16`. -/
def hexChar (d : UInt8) : UInt8 := if d < 10 then d + 48 else d + 87

/-- Two lower-case digits a byte. -/
def arrayToHex (array : Bytes) : Str :=
  array.flatMap (fun (b : UInt8) => [hexChar (b >>> 4), hexChar (b &&& 0xf)])

/-- The value of one hex digit of either case. -/
def hexDigit (c : UInt8) : Option UInt8 :=
  if 48 ≤ c ∧ c ≤ 57 then some (c - 48)
  else if 97 ≤ c ∧ c ≤ 102 then some (c - 97 + 10)
  else if 65 ≤ c ∧ c ≤ 70 then some (c - 65 + 10)
  else none

/-- The digit pairs of an even number of characters. -/
def hexPairs : Str → Result Bytes
  | hi :: lo :: rest =>
    match hexDigit hi, hexDigit lo with
    | some h, some l => do
      let bytes ← hexPairs rest
      return ((h <<< 4) ||| l) :: bytes
    | _, _ => err .invalid "Expected hex string"
  | _ => .ok []

/-- Bytes from hex text; the length is checked before any digit. -/
def hexToArray (hex : Str) : Result Bytes :=
  if hex.length % 2 ≠ 0 then err .invalid "Odd number of hex digits" else hexPairs hex

/-- A nibble's character reads back as the nibble. -/
theorem hexDigit_hexChar (d : UInt8) : d < 16 → hexDigit (hexChar d) = some d :=
  forall_byte (P := fun d => d < 16 → hexDigit (hexChar d) = some d) (by decide +kernel) d

/-- The two nibbles of a byte make up the byte. -/
theorem nibbles (b : UInt8) :
    b >>> 4 < 16 ∧ b &&& 0xf < 16 ∧ ((b >>> 4) <<< 4) ||| (b &&& 0xf) = b :=
  forall_byte (P := fun b => b >>> 4 < 16 ∧ b &&& 0xf < 16 ∧
    ((b >>> 4) <<< 4) ||| (b &&& 0xf) = b) (by decide +kernel) b

/-- The digit pairs of hex text give the bytes back. -/
theorem hexPairs_arrayToHex (array : Bytes) : hexPairs (arrayToHex array) = .ok array := by
  induction array with
  | nil => rfl
  | cons b bs ih =>
    obtain ⟨hhi, hlo, hb⟩ := nibbles b
    have hcons : arrayToHex (b :: bs) =
        hexChar (b >>> 4) :: hexChar (b &&& 0xf) :: arrayToHex bs := rfl
    rw [hcons, hexPairs, hexDigit_hexChar _ hhi, hexDigit_hexChar _ hlo]
    simp only [ih, ok_bind, hb]
    rfl

/-- **Hex text carries its bytes.** -/
theorem hexToArray_arrayToHex (array : Bytes) : hexToArray (arrayToHex array) = .ok array := by
  have hlen : (arrayToHex array).length = 2 * array.length := by
    induction array with
    | nil => rfl
    | cons b bs ih => simp only [arrayToHex, List.flatMap_cons, List.length_append,
        List.length_cons, List.length_nil] at ih ⊢; omega
  rw [hexToArray, if_neg (by omega), hexPairs_arrayToHex]

/-- Hex text determines its bytes. -/
theorem arrayToHex_injective : Function.Injective arrayToHex := by
  intro a b h
  have ha := hexToArray_arrayToHex a
  rw [h, hexToArray_arrayToHex] at ha
  exact (Except.ok.inj ha).symm

/-! ## The encoder -/

/-- `writeInt` at `n` bytes: little-endian two's complement. -/
def writeInt (n : ℕ) (value : ℕ) : Bytes := leBytes n value

/-- `writeVaruint32`: base-128 groups, at most five of them for 32 bits. -/
def writeVaruint32 (v : UInt32) : Bytes := lebBytes 4 v.toNat

/-- `writeVarint32`: zig-zag, then `writeVaruint32`. -/
def writeVarint32 (v : Int32) : Bytes :=
  writeVaruint32 ((v.toUInt32 <<< 1) ^^^ (v >>> 31).toUInt32)

/-- `writeString`: the length is truncated to 32 bits before it is written. -/
def writeString (v : Str) : Bytes := writeVaruint32 v.length.toUInt32 ++ v

/-! ## The decoder -/

/-- `ABIDecoder`: the state is what is left of the buffer. -/
abbrev Decoder (α : Type) := Reader UInt8 Error α

/-- A decoder that fails. -/
def decodeErr {α : Type} (kind : ErrorKind) (message : Str) : Decoder α :=
  fun _ => err kind message

/-- A result inside a decoder. -/
def Decoder.ofResult {α : Type} (r : Result α) : Decoder α := fun rest => do
  let a ← r
  return (a, rest)

/-- `canRead`. -/
def canRead : Decoder Bool := fun rest => .ok (!rest.isEmpty, rest)

/-- `remaining`. -/
def remaining : Decoder ℕ := fun rest => .ok (rest.length, rest)

/-- `readArray`: the next `length` bytes. -/
def readArray (length : ℕ) : Decoder Bytes := fun rest =>
  if length ≤ rest.length then .ok (rest.take length, rest.drop length)
  else err .invalid "Read past end of buffer"

/-- `readByte`. -/
def readByte : Decoder UInt8
  | b :: rest => .ok (b, rest)
  | [] => err .invalid "Read past end of buffer"

/-- `readInt` at `n` bytes, as an unsigned number. -/
def readInt (n : ℕ) : Decoder ℕ := do
  let bytes ← readArray n
  return leValue bytes

/-- The loop of `readVaruint32` with `groups` more groups allowed: the group goes
in at `bit`, and a group past the 32nd bit is refused. -/
def readVaruint32From : (groups bit : ℕ) → UInt32 → Decoder UInt32
  | 0, _, _ => do
    let _ ← readByte
    decodeErr .invalid "Varint too large"
  | groups + 1, bit, v => do
    let b ← readByte
    let v := v ||| ((b &&& 0x7f).toUInt32 <<< bit.toUInt32)
    if b &&& 0x80 = 0 then return v else readVaruint32From groups (bit + 7) v

/-- `readVaruint32`. -/
def readVaruint32 : Decoder UInt32 := readVaruint32From 5 0 0

/-- `readVarint32`: undoes the zig-zag. -/
def readVarint32 : Decoder Int32 := do
  let v ← readVaruint32
  if v &&& 1 = 1 then return ((~~~v >>> 1) ||| 0x80000000).toInt32
  else return (v >>> 1).toInt32

/-- The continuation bits of a UTF-8 trail byte, if it is one. -/
def utf8Trail (b : UInt8) : Option ℕ := if b &&& 0xc0 = 0x80 then some (b &&& 0x3f).toNat else none

/-- `isValidUTF8`: overlong forms, surrogates and values past `0x10ffff` are
refused. -/
def isValidUTF8 : Bytes → Bool
  | [] => true
  | b :: rest =>
    if b < 0x80 then isValidUTF8 rest
    else if b &&& 0xe0 = 0xc0 then
      match rest with
      | c₁ :: rest =>
        match utf8Trail c₁ with
        | some t₁ =>
          let code := (b &&& 0x1f).toNat * 64 + t₁
          decide (0x80 ≤ code) && isValidUTF8 rest
        | none => false
      | [] => false
    else if b &&& 0xf0 = 0xe0 then
      match rest with
      | c₁ :: c₂ :: rest =>
        match utf8Trail c₁, utf8Trail c₂ with
        | some t₁, some t₂ =>
          let code := ((b &&& 0x0f).toNat * 64 + t₁) * 64 + t₂
          decide (0x800 ≤ code ∧ ¬ (0xd800 ≤ code ∧ code ≤ 0xdfff)) && isValidUTF8 rest
        | _, _ => false
      | _ => false
    else if b &&& 0xf8 = 0xf0 then
      match rest with
      | c₁ :: c₂ :: c₃ :: rest =>
        match utf8Trail c₁, utf8Trail c₂, utf8Trail c₃ with
        | some t₁, some t₂, some t₃ =>
          let code := (((b &&& 0x07).toNat * 64 + t₁) * 64 + t₂) * 64 + t₃
          decide (0x10000 ≤ code ∧ code ≤ 0x10ffff) && isValidUTF8 rest
        | _, _, _ => false
      | _ => false
    else false

/-- `readString`. -/
def readString : Decoder Str := do
  let length ← readVaruint32
  let data ← readArray length.toNat
  if isValidUTF8 data then return data else decodeErr .invalid "Invalid UTF-8 data"

/-! ## Readers undo writers -/

theorem reads_readArray (bytes : Bytes) : Reads (readArray bytes.length) bytes bytes := by
  intro rest
  have h : bytes.length ≤ (bytes ++ rest).length := by simp
  simp [readArray, StateT.run]

theorem reads_readByte (b : UInt8) : Reads readByte [b] b := fun _ => rfl

/-- `readInt` undoes `writeInt` for a value of its width. -/
theorem reads_readInt (n v : ℕ) (h : v < 256 ^ n) : Reads (readInt n) (writeInt n v) v := by
  have harr : Reads (readArray n) (leBytes n v) (leBytes n v) := by
    have := reads_readArray (leBytes n v)
    rwa [length_leBytes] at this
  have hbind := harr.bind (f := fun bytes => pure (leValue bytes)) (Reads.pure _)
  rw [List.append_nil, leValue_leBytes h] at hbind
  exact hbind

/-- The last group of a varuint32 has its high bit clear. -/
theorem last_group (b : UInt8) : b < 128 → b &&& 0x7f = b ∧ b &&& 0x80 = 0 :=
  forall_byte (P := fun b => b < 128 → b &&& 0x7f = b ∧ b &&& 0x80 = 0) (by decide +kernel) b

/-- Any other group of a varuint32 has it set. -/
theorem inner_group (b : UInt8) : b < 128 → (128 + b) &&& 0x7f = b ∧ (128 + b) &&& 0x80 ≠ 0 :=
  forall_byte (P := fun b => b < 128 → (128 + b) &&& 0x7f = b ∧ (128 + b) &&& 0x80 ≠ 0)
    (by decide +kernel) b

/-- One group of the loop: the accumulator, whose bits are all below `bit`, takes
in a group of seven bits. -/
theorem or_group (acc : UInt32) (bit : ℕ) (c : UInt8) (hbit : bit < 32)
    (hacc : acc.toNat < 2 ^ bit) (hfit : c.toNat * 2 ^ bit < 2 ^ 32) :
    (acc ||| (c.toUInt32 <<< bit.toUInt32)).toNat = acc.toNat + c.toNat * 2 ^ bit := by
  have hb : (bit.toUInt32).toNat % 32 = bit := by
    simp only [Nat.toUInt32, UInt32.toNat_ofNat']
    omega
  rw [UInt32.toNat_or, UInt32.toNat_shiftLeft, hb, UInt8.toNat_toUInt32, Nat.shiftLeft_eq,
    Nat.mod_eq_of_lt hfit, Nat.or_comm, ← Nat.shiftLeft_eq, ← Nat.shiftLeft_add_eq_or_of_lt hacc,
    Nat.shiftLeft_eq, Nat.add_comm]

/-- A group with its high bit clear ends the loop. -/
theorem reads_last_group (groups bit : ℕ) (acc : UInt32) (b : UInt8) (hb : b < 128) :
    Reads (readVaruint32From (groups + 1) bit acc) [b]
      (acc ||| (b.toUInt32 <<< bit.toUInt32)) := by
  intro rest
  obtain ⟨hlow, hhigh⟩ := last_group b hb
  rw [readVaruint32From, StateT.run_bind, reads_readByte, ok_bind]
  simp only [hlow, if_pos hhigh]
  rfl

/-- A group with its high bit set is followed by the rest of the loop. -/
theorem reads_inner_group (groups bit : ℕ) (acc : UInt32) (b : UInt8) (hb : b < 128)
    {chunk : Bytes} {r : UInt32}
    (h : Reads (readVaruint32From groups (bit + 7) (acc ||| (b.toUInt32 <<< bit.toUInt32)))
      chunk r) :
    Reads (readVaruint32From (groups + 1) bit acc) ((128 + b) :: chunk) r := by
  intro rest
  obtain ⟨hlow, hhigh⟩ := inner_group b hb
  rw [readVaruint32From, ← List.singleton_append, List.append_assoc, StateT.run_bind,
    reads_readByte, ok_bind]
  simp only [hlow, if_neg hhigh]
  exact h rest

/-- A number below 128 is one group. -/
theorem reads_single_group (groups bit v : ℕ) (acc : UInt32) (hbit : bit < 32)
    (hacc : acc.toNat < 2 ^ bit) (hv : v < 128) (hfit : v * 2 ^ bit < 2 ^ 32) :
    ∃ r : UInt32, r.toNat = acc.toNat + v * 2 ^ bit ∧
      Reads (readVaruint32From (groups + 1) bit acc) [v.toUInt8] r := by
  have hn : (v.toUInt8).toNat = v := by simp; omega
  have hb : v.toUInt8 < 128 := by
    rw [UInt8.lt_iff_toNat_lt, hn]
    exact hv
  have hsum := or_group acc bit v.toUInt8 hbit hacc (by rwa [hn])
  rw [hn] at hsum
  exact ⟨_, hsum, reads_last_group groups bit acc _ hb⟩

/-- The loop of `readVaruint32` with `g + 1` groups left adds the number in the
groups of `lebBytes g` to its accumulator. -/
theorem reads_readVaruint32From (g bit v : ℕ) (acc : UInt32) (hbit : bit + 7 * g < 32)
    (hacc : acc.toNat < 2 ^ bit) (hv : v < 128 ^ (g + 1)) (hfit : v * 2 ^ bit < 2 ^ 32) :
    ∃ r : UInt32, r.toNat = acc.toNat + v * 2 ^ bit ∧
      Reads (readVaruint32From (g + 1) bit acc) (lebBytes g v) r := by
  induction g generalizing bit v acc with
  | zero => exact reads_single_group 0 bit v acc (by omega) hacc (by simpa using hv) hfit
  | succ g ih =>
    rw [lebBytes]
    by_cases h : v / 128 = 0
    · rw [if_pos h]
      exact reads_single_group (g + 1) bit v acc (by omega) hacc (by omega) hfit
    · -- the group `v % 128` goes in at `bit`, and `v / 128` seven bits further up
      have hn : ((v % 128).toUInt8).toNat = v % 128 := by simp; omega
      have hb : (v % 128).toUInt8 < 128 := by
        rw [UInt8.lt_iff_toNat_lt, hn]
        exact Nat.mod_lt _ (by norm_num)
      have hcons : (128 + v % 128).toUInt8 = 128 + (v % 128).toUInt8 := by
        rw [← UInt8.toNat_inj]
        simp
      have hsplit : v * 2 ^ bit = v % 128 * 2 ^ bit + v / 128 * 2 ^ (bit + 7) := by
        conv_lhs => rw [← Nat.mod_add_div v 128]
        rw [pow_add]
        ring
      have hsum := or_group acc bit (v % 128).toUInt8 (by omega) hacc (by rw [hn]; omega)
      rw [hn] at hsum
      have hacc' : acc.toNat + v % 128 * 2 ^ bit < 2 ^ (bit + 7) := by
        have h128 : v % 128 * 2 ^ bit ≤ 127 * 2 ^ bit :=
          Nat.mul_le_mul_right _ (by omega)
        rw [pow_add]
        omega
      have hv' : v / 128 < 128 ^ (g + 1) :=
        Nat.div_lt_of_lt_mul (by rw [← pow_succ']; exact hv)
      obtain ⟨r, hr, hreads⟩ := ih (bit + 7) (v / 128) _ (by omega) (by rw [hsum]; exact hacc')
        hv' (by omega)
      rw [if_neg h, hcons]
      refine ⟨r, ?_, reads_inner_group _ bit acc _ hb hreads⟩
      rw [hr, hsum, hsplit]
      ring

/-- **`readVaruint32` undoes `writeVaruint32`.** -/
theorem reads_readVaruint32 (v : UInt32) : Reads readVaruint32 (writeVaruint32 v) v := by
  have hv := v.toNat_lt
  obtain ⟨r, hr, h⟩ := reads_readVaruint32From 4 0 v.toNat 0 (by norm_num) (by simp)
    (by omega) (by omega)
  have : r = v := by
    rw [← UInt32.toNat_inj, hr]
    simp
  rwa [this] at h

/-- Shifting the sign all the way down: all ones for a negative integer, else zero. -/
theorem sign_shift (v : Int32) :
    (v >>> 31).toUInt32 = if 2 ^ 31 ≤ v.toUInt32.toNat then -1 else 0 := by
  have hn : v.toUInt32.toNat = v.toBitVec.toNat := rfl
  have h : ((v >>> 31).toUInt32).toBitVec = v.toBitVec.sshiftRight 31 := by
    show (v >>> 31).toBitVec = _
    rw [Int32.toBitVec_shiftRight]
    rfl
  have hlt := v.toBitVec.isLt
  rw [← UInt32.toBitVec_inj, h, hn]
  by_cases hv : 2 ^ 31 ≤ v.toBitVec.toNat
  · have hmsb : v.toBitVec.msb = true := BitVec.msb_eq_true_iff_two_mul_ge.mpr (by omega)
    rw [if_pos hv, BitVec.sshiftRight_eq_of_msb_true hmsb, ← BitVec.toNat_inj, BitVec.toNat_not,
      BitVec.toNat_ushiftRight, BitVec.toNat_not, Nat.shiftRight_eq_div_pow,
      Nat.div_eq_of_lt (by omega)]
    rfl
  · have hmsb : v.toBitVec.msb = false := by
      rw [BitVec.msb_eq_decide]
      simpa using hv
    rw [if_neg hv, BitVec.sshiftRight_eq_of_msb_false hmsb, ← BitVec.toNat_inj,
      BitVec.toNat_ushiftRight, Nat.shiftRight_eq_div_pow, Nat.div_eq_of_lt (by omega)]
    rfl

/-- The zig-zag of a 32-bit integer is undone by its reader. -/
theorem zigzag_undone (v : Int32) :
    let z : UInt32 := (v.toUInt32 <<< 1) ^^^ (v >>> 31).toUInt32
    (if z &&& 1 = 1 then ((~~~z >>> 1) ||| 0x80000000).toInt32 else (z >>> 1).toInt32) = v := by
  intro z
  have hu : v.toUInt32.toInt32 = v := by simp
  have hand : ∀ w : UInt32, w &&& 1 = 1 ↔ w.toNat % 2 = 1 := by
    intro w
    rw [← UInt32.toNat_inj, UInt32.toNat_and]
    show w.toNat &&& 1 = 1 ↔ _
    rw [Nat.and_one_is_mod]
  have hshl : (v.toUInt32 <<< 1).toNat = v.toUInt32.toNat * 2 % 2 ^ 32 := by
    rw [UInt32.toNat_shiftLeft]
    show _ <<< 1 % _ = _
    rw [Nat.shiftLeft_eq, pow_one]
  have hshr : ∀ w : UInt32, (w >>> 1).toNat = w.toNat / 2 := by
    intro w
    rw [UInt32.toNat_shiftRight]
    show _ >>> 1 = _
    rw [Nat.shiftRight_eq_div_pow, pow_one]
  have hlt := v.toUInt32.toNat_lt
  -- The sign decides whether the shifted bits are inverted, and the low bit says so.
  by_cases hv : 2 ^ 31 ≤ v.toUInt32.toNat
  · have hz : z = ~~~(v.toUInt32 <<< 1) := by
      show _ ^^^ _ = _
      rw [sign_shift, if_pos hv, UInt32.xor_neg_one]
    have hodd : z &&& 1 = 1 := by
      rw [hand, hz, UInt32.toNat_not, hshl]
      simp only [UInt32.size]
      omega
    have hlow : (v.toUInt32.toNat * 2 % 2 ^ 32) / 2 < 2 ^ 31 := by omega
    rw [if_pos hodd, hz, UInt32.not_not]
    conv_rhs => rw [← hu]
    congr 1
    rw [← UInt32.toNat_inj, UInt32.toNat_or, hshr, hshl]
    show _ ||| 2 ^ 31 = _
    have hor := Nat.shiftLeft_add_eq_or_of_lt hlow 1
    rw [Nat.shiftLeft_eq, one_mul] at hor
    rw [Nat.or_comm, ← hor]
    omega
  · have hz : z = v.toUInt32 <<< 1 := by
      show _ ^^^ _ = _
      rw [sign_shift, if_neg hv, UInt32.xor_zero]
    have heven : ¬ z &&& 1 = 1 := by
      rw [hand, hz, hshl]
      omega
    rw [if_neg heven, hz]
    conv_rhs => rw [← hu]
    congr 1
    rw [← UInt32.toNat_inj, hshr, hshl]
    omega

/-- `readVarint32` undoes `writeVarint32`. -/
theorem reads_readVarint32 (v : Int32) : Reads readVarint32 (writeVarint32 v) v := by
  have h := (reads_readVaruint32 ((v.toUInt32 <<< 1) ^^^ (v >>> 31).toUInt32)).map
    (fun z => if z &&& 1 = 1 then ((~~~z >>> 1) ||| 0x80000000).toInt32 else (z >>> 1).toInt32)
  rw [zigzag_undone] at h
  have hread : readVarint32 = (fun z : UInt32 => if z &&& 1 = 1 then
      ((~~~z >>> 1) ||| 0x80000000).toInt32 else (z >>> 1).toInt32) <$> readVaruint32 := by
    rw [map_eq_pure_bind, readVarint32]
    congr 1
    funext z
    split <;> rfl
  rw [hread]
  exact h

/-- `readString` undoes `writeString` for valid UTF-8 whose length fits 32 bits. -/
theorem reads_readString (v : Str) (hlen : v.length < 2 ^ 32) (hutf : isValidUTF8 v = true) :
    Reads readString (writeString v) v := by
  have hn : (v.length.toUInt32).toNat = v.length := by
    simp only [Nat.toUInt32, UInt32.toNat_ofNat']
    omega
  have harr : Reads (readArray (v.length.toUInt32).toNat >>= fun data =>
      if isValidUTF8 data then pure data else decodeErr .invalid "Invalid UTF-8 data") (v ++ []) v := by
    rw [hn]
    refine (reads_readArray v).bind ?_
    rw [if_pos hutf]
    exact Reads.pure v
  rw [List.append_nil] at harr
  exact (reads_readVaruint32 _).bind harr

/-! ## What is read -/

/-- `readArray` takes the bytes it was asked for. -/
theorem readArray_eq_ok {n : ℕ} {s data rest : Bytes} (h : (readArray n).run s = .ok (data, rest)) :
    data.length = n ∧ s = data ++ rest := by
  unfold readArray StateT.run at h
  simp only at h
  split at h
  · rename_i hlen
    cases h
    exact ⟨List.length_take_of_le hlen, (List.take_append_drop n s).symm⟩
  · cases h

/-- A text that is read back: UTF-8, and not too long for its prefix. -/
def TextFits (text : Str) : Prop := isValidUTF8 text = true ∧ text.length < 2 ^ 32

theorem TextFits.reads {text : Str} (h : TextFits text) :
    Reads readString (writeString text) text :=
  reads_readString text h.2 h.1

/-- What is read as a text fits. -/
theorem yields_readString : Yields readString TextFits := by
  intro s text rest h
  unfold readString at h
  rw [StateT.run_bind] at h
  obtain ⟨⟨length, afterLength⟩, -, h⟩ := bind_eq_ok.mp h
  rw [StateT.run_bind] at h
  obtain ⟨⟨data, afterData⟩, hdata, h⟩ := bind_eq_ok.mp h
  obtain ⟨hlen, -⟩ := readArray_eq_ok hdata
  simp only at h
  split at h
  · rename_i hutf
    cases h
    exact ⟨hutf, by rw [hlen]; exact length.toNat_lt⟩
  · cases h

theorem isValidUTF8_replicate (n : ℕ) : isValidUTF8 (List.replicate n 97) = true := by
  induction n with
  | zero => rfl
  | succ n ih =>
    rw [List.replicate_succ, isValidUTF8.eq_def]
    simp only
    rw [if_pos (by decide)]
    exact ih

end Dwarfkit
