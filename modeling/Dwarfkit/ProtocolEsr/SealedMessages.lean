/-
# Sealed messages

`encryptMessage` and `decryptMessage` of `protocol_esr/sealed_messages.cpp`: a message is
padded to whole blocks and enciphered with AES-256 in the chaining mode of `aes_modes.c`.

* `cbcDecryptLoop_cbcEncryptLoop` : the mode is undone if the cipher is;
* `decryptMessage_eq_ok` : the ciphertexts that are accepted, and as what;
* `sealed_padding_iff` : the messages that come back, and the ciphertexts that are accepted
  with a padding only.
-/
import Mathlib.Data.Int.Init
import Mathlib.Logic.Equiv.Basic
import Dwarfkit.Antelope.Chain.Keys
import Dwarfkit.Library.BlockMode

namespace Dwarfkit

/-! ## Blocks -/

/-- An `unsigned char[AES_BLOCK_SIZE]`. -/
abbrev Block := Vector UInt8 16

namespace Block

/-- The block that starts at a pointer. -/
def load (ibuf : Bytes) : Block := Vector.ofFn (fun i => ibuf.getD i 0)

/-- The byte by byte exclusive or. -/
def xor (a b : Block) : Block := Vector.zipWith (· ^^^ ·) a b

theorem xor_xor_cancel (a b : Block) : (a.xor b).xor a = b := by
  ext i hi
  simp only [xor, Vector.getElem_zipWith]
  rw [UInt8.xor_comm a[i], UInt8.xor_assoc, UInt8.xor_self, UInt8.xor_zero]

/-- A written block is loaded again. -/
theorem load_toList_append (b : Block) (rest : Bytes) : load (b.toList ++ rest) = b := by
  ext i hi
  simp only [load, Vector.getElem_ofFn]
  rw [List.getD_append _ _ _ _ (by rw [Vector.length_toList]; exact hi)]
  simp [List.getD_eq_getElem?_getD, hi]

theorem toList_load {ibuf : Bytes} (h : 16 ≤ ibuf.length) : (load ibuf).toList = ibuf.take 16 := by
  apply List.ext_getElem
  · rw [Vector.length_toList, List.length_take]
    omega
  · intro i hi hi'
    rw [Vector.length_toList] at hi
    simp only [load, Vector.getElem_toList, Vector.getElem_ofFn, List.getElem_take]
    exact List.getD_eq_getElem _ _ (by omega)

/-- Bytes of whole blocks. -/
def bytes (blocks : List Block) : Bytes := blocks.flatMap Vector.toList

theorem bytes_cons (b : Block) (blocks : List Block) :
    bytes (b :: blocks) = b.toList ++ bytes blocks := List.flatMap_cons

theorem length_bytes (blocks : List Block) : (bytes blocks).length = 16 * blocks.length := by
  induction blocks with
  | nil => rfl
  | cons b blocks ih =>
    rw [bytes_cons, List.length_append, Vector.length_toList, ih, List.length_cons]
    omega

/-- A buffer of whole blocks. -/
theorem exists_bytes (nb : ℕ) :
    ∀ buffer : Bytes, buffer.length = 16 * nb →
      ∃ blocks : List Block, blocks.length = nb ∧ buffer = bytes blocks := by
  induction nb with
  | zero => exact fun buffer h => ⟨[], rfl, List.length_eq_zero_iff.mp h⟩
  | succ nb ih =>
    intro buffer h
    obtain ⟨blocks, hblocks, hrest⟩ := ih (buffer.drop 16) (by rw [List.length_drop]; omega)
    refine ⟨load buffer :: blocks, by rw [List.length_cons, hblocks], ?_⟩
    rw [bytes_cons, toList_load (by omega), ← hrest, List.take_append_drop]

end Block

/-! ## The chaining mode -/

/-- The loop of `aes_cbc_encrypt`; what it does not write of the output stays. -/
def cbcEncryptLoop (encrypt : Block → Block) : (nb : ℕ) → (iv : Block) → (ibuf obuf : Bytes) → Bytes
  | 0, _, _, obuf => obuf
  | nb + 1, iv, ibuf, obuf =>
    let iv := encrypt (iv.xor (Block.load ibuf))
    iv.toList ++ cbcEncryptLoop encrypt nb iv (ibuf.drop 16) (obuf.drop 16)

/-- The loop of `aes_cbc_decrypt`. -/
def cbcDecryptLoop (decrypt : Block → Block) : (nb : ℕ) → (iv : Block) → (ibuf obuf : Bytes) → Bytes
  | 0, _, _, obuf => obuf
  | nb + 1, iv, ibuf, obuf =>
    let tmp := Block.load ibuf
    ((decrypt tmp).xor iv).toList ++ cbcDecryptLoop decrypt nb tmp (ibuf.drop 16) (obuf.drop 16)

/-- `aes_cbc_encrypt`, with its length of type `int`. -/
def aesCbcEncrypt (encrypt : Block → Block) (ibuf obuf : Bytes) (len : ℤ) (iv : Block) :
    Option Bytes :=
  if len < 0 ∨ len % 16 ≠ 0 then none
  else some (cbcEncryptLoop encrypt (len / 16).toNat iv ibuf obuf)

/-- `aes_cbc_decrypt`. -/
def aesCbcDecrypt (decrypt : Block → Block) (ibuf obuf : Bytes) (len : ℤ) (iv : Block) :
    Option Bytes :=
  if len < 0 ∨ len % 16 ≠ 0 then none
  else some (cbcDecryptLoop decrypt (len / 16).toNat iv ibuf obuf)

/-- `static_cast<int>` of a size. -/
def intOfSize (size : ℕ) : ℤ := (size : ℤ).bmod (2 ^ 32)

/-- The loop is the chaining of the blocks. -/
theorem cbcEncryptLoop_bytes (encrypt : Block → Block) (blocks : List Block) :
    ∀ (iv : Block) (obuf : Bytes), cbcEncryptLoop encrypt blocks.length iv (Block.bytes blocks) obuf =
      Block.bytes (BlockMode.encrypt Block.xor encrypt iv blocks) ++ obuf.drop (16 * blocks.length) := by
  induction blocks with
  | nil => intro iv obuf; rfl
  | cons b blocks ih =>
    intro iv obuf
    rw [List.length_cons, cbcEncryptLoop, BlockMode.encrypt]
    simp only [Block.bytes_cons, Block.load_toList_append]
    rw [List.drop_left' Vector.length_toList, ih, List.drop_drop, List.append_assoc,
      show 16 * (blocks.length + 1) = 16 + 16 * blocks.length by omega]

theorem cbcDecryptLoop_bytes (decrypt : Block → Block) (blocks : List Block) :
    ∀ (iv : Block) (obuf : Bytes), cbcDecryptLoop decrypt blocks.length iv (Block.bytes blocks) obuf =
      Block.bytes (BlockMode.decrypt Block.xor decrypt iv blocks) ++ obuf.drop (16 * blocks.length) := by
  induction blocks with
  | nil => intro iv obuf; rfl
  | cons b blocks ih =>
    intro iv obuf
    rw [List.length_cons, cbcDecryptLoop, BlockMode.decrypt]
    simp only [Block.bytes_cons, Block.load_toList_append]
    rw [List.drop_left' Vector.length_toList, ih, List.drop_drop, List.append_assoc,
      show 16 * (blocks.length + 1) = 16 + 16 * blocks.length by omega]

/-- The loop writes the blocks that it reads. -/
theorem cbcDecryptLoop_eq (decrypt : Block → Block) (nb : ℕ) :
    ∀ (iv : Block) (ibuf obuf : Bytes), ∃ written : Bytes, written.length = 16 * nb ∧
      cbcDecryptLoop decrypt nb iv ibuf obuf = written ++ obuf.drop (16 * nb) := by
  induction nb with
  | zero => exact fun iv ibuf obuf => ⟨[], rfl, rfl⟩
  | succ nb ih =>
    intro iv ibuf obuf
    obtain ⟨written, hlength, heq⟩ := ih (Block.load ibuf) (ibuf.drop 16) (obuf.drop 16)
    refine ⟨((decrypt (Block.load ibuf)).xor iv).toList ++ written, ?_, ?_⟩
    · rw [List.length_append, Vector.length_toList, hlength]
      omega
    · rw [cbcDecryptLoop, heq, List.drop_drop, List.append_assoc,
        show 16 * (nb + 1) = 16 + 16 * nb by omega]

theorem length_cbcEncryptLoop (encrypt : Block → Block) (nb : ℕ) :
    ∀ (iv : Block) (ibuf obuf : Bytes), 16 * nb ≤ obuf.length →
      (cbcEncryptLoop encrypt nb iv ibuf obuf).length = obuf.length := by
  induction nb with
  | zero => exact fun iv ibuf obuf _ => rfl
  | succ nb ih =>
    intro iv ibuf obuf h
    have hrest : 16 * nb ≤ (obuf.drop 16).length := by
      rw [List.length_drop]
      omega
    rw [cbcEncryptLoop, List.length_append, Vector.length_toList, ih _ _ _ hrest, List.length_drop]
    omega

/-- **The mode is undone** on whole blocks, if the cipher is. -/
theorem cbcDecryptLoop_cbcEncryptLoop {encrypt decrypt : Block → Block}
    (hcipher : ∀ b, decrypt (encrypt b) = b) {nb : ℕ} {buffer : Bytes} (h : buffer.length = 16 * nb)
    (iv : Block) (obuf : Bytes) (hobuf : obuf.length = buffer.length) :
    cbcDecryptLoop decrypt nb iv (cbcEncryptLoop encrypt nb iv buffer buffer) obuf = buffer := by
  obtain ⟨blocks, rfl, rfl⟩ := Block.exists_bytes nb buffer h
  rw [cbcEncryptLoop_bytes, List.drop_eq_nil_of_le h.le, List.append_nil]
  have hdecrypt := cbcDecryptLoop_bytes decrypt (BlockMode.encrypt Block.xor encrypt iv blocks) iv obuf
  rw [BlockMode.length_encrypt, BlockMode.decrypt_encrypt _ hcipher Block.xor_xor_cancel] at hdecrypt
  rw [hdecrypt, List.drop_eq_nil_of_le (hobuf.trans h).le, List.append_nil]

/-! ## Messages -/

/-- AES with a key of 256 bits: `aes_encrypt` and `aes_decrypt` after their key setup, which
does not fail. -/
structure Aes where
  encrypt : (key : Bytes) → Block → Block
  decrypt : (key : Bytes) → Block → Block

/-- A block is deciphered under the key that it was enciphered with. -/
def Aes.Inverse (aes : Aes) : Prop :=
  ∀ key : Bytes, key.length = 32 → ∀ block, aes.decrypt key (aes.encrypt key block) = block

/-- The bytes of an IV that are used. -/
def ivBytes (iv : Checksum512) : Block := Block.load (iv.array.drop 32)

/-- `encryptMessage`. -/
def encryptMessage (aes : Aes) (iv : Checksum512) (symmetricKey : Bytes) (message : Str) :
    Result Bytes :=
  if symmetricKey.length ≠ 32 then err .invalid "Symmetric key must be 32 bytes"
  else
    let padded := (message.length / 16 + 1) * 16
    let pad := (padded - message.length).toUInt8
    let buffer := message ++ List.replicate (padded - message.length) pad
    match aesCbcEncrypt (aes.encrypt symmetricKey) buffer buffer (intOfSize padded) (ivBytes iv) with
    | none => err .internal "AES encryption failed"
    | some buffer => .ok buffer

/-- `decryptMessage`. -/
def decryptMessage (aes : Aes) (iv : Checksum512) (symmetricKey message : Bytes) : Result Bytes :=
  if symmetricKey.length ≠ 32 then err .invalid "Symmetric key must be 32 bytes"
  else if message = [] ∨ message.length % 16 ≠ 0 then err .invalid "Invalid ciphertext length"
  else
    match aesCbcDecrypt (aes.decrypt symmetricKey) message (List.replicate message.length 0)
        (intOfSize message.length) (ivBytes iv) with
    | none => err .internal "AES decryption failed"
    | some buffer =>
      let pad := buffer.getLastD 0
      if pad = 0 ∨ 16 < pad ∨ buffer.length < pad.toNat then err .invalid "Invalid message padding"
      else .ok (buffer.take (buffer.length - pad.toNat))

/-- The plaintext of a ciphertext: all of its blocks deciphered. -/
def plaintext (aes : Aes) (iv : Checksum512) (symmetricKey message : Bytes) : Bytes :=
  cbcDecryptLoop (aes.decrypt symmetricKey) (message.length / 16) (ivBytes iv) message
    (List.replicate message.length 0)

/-! ## Sizes -/

theorem intOfSize_of_lt {size : ℕ} (h : size < 2 ^ 31) : intOfSize size = size := by
  unfold intOfSize
  exact Int.bmod_eq_of_le (by omega) (by omega)

/-- A size of 31 bits or more is never kept. -/
theorem intOfSize_lt {size : ℕ} (h : 2 ^ 31 ≤ size) : intOfSize size < size := by
  have hlt : intOfSize size < (2 ^ 32 + 1) / 2 := Int.bmod_lt (by omega)
  omega

theorem intOfSize_le (size : ℕ) : intOfSize size ≤ size := by
  by_cases h : size < 2 ^ 31
  · exact (intOfSize_of_lt h).le
  · exact (intOfSize_lt (Nat.le_of_not_lt h)).le

theorem length_plaintext (aes : Aes) (iv : Checksum512) (symmetricKey message : Bytes) :
    (plaintext aes iv symmetricKey message).length = message.length := by
  obtain ⟨written, hlength, heq⟩ := cbcDecryptLoop_eq (aes.decrypt symmetricKey)
    (message.length / 16) (ivBytes iv) message (List.replicate message.length 0)
  unfold plaintext
  rw [heq, List.length_append, hlength, List.length_drop, List.length_replicate]
  omega

/-! ## What is accepted -/

section Accepted

variable {aes : Aes} {iv : Checksum512} {symmetricKey : Bytes}

/-- A ciphertext that is deciphered: under a key of 32 bytes, of whole blocks, and of a size
that is an `int`. -/
structure Deciphered (symmetricKey ciphertext : Bytes) : Prop where
  key : symmetricKey.length = 32
  nonempty : ciphertext ≠ []
  blocks : ciphertext.length % 16 = 0
  size : ciphertext.length < 2 ^ 31

/-- The last byte alone decides on the padding. -/
theorem decryptMessage_of_deciphered {ciphertext : Bytes} (h : Deciphered symmetricKey ciphertext) :
    decryptMessage aes iv symmetricKey ciphertext =
      let text := plaintext aes iv symmetricKey ciphertext
      let pad := text.getLastD 0
      if pad = 0 ∨ 16 < pad ∨ text.length < pad.toNat then err .invalid "Invalid message padding"
      else .ok (text.take (text.length - pad.toNat)) := by
  have hdecrypt : aesCbcDecrypt (aes.decrypt symmetricKey) ciphertext
      (List.replicate ciphertext.length 0) (intOfSize ciphertext.length) (ivBytes iv) =
      some (plaintext aes iv symmetricKey ciphertext) := by
    have hblocks := h.blocks
    have hcount : ((ciphertext.length : ℤ) / 16).toNat = ciphertext.length / 16 := by omega
    unfold aesCbcDecrypt
    rw [intOfSize_of_lt h.size, if_neg (by omega), hcount]
    rfl
  unfold decryptMessage
  rw [if_neg (not_not_intro h.key), if_neg (not_or_intro h.nonempty (not_not_intro h.blocks)),
    hdecrypt]

/-- Of a size beyond an `int`, the end of the output is not written. -/
theorem getLastD_of_aesCbcDecrypt {decrypt : Block → Block} {ciphertext buffer : Bytes} {len : ℤ}
    {block : Block} (hlen : len < ciphertext.length)
    (h : aesCbcDecrypt decrypt ciphertext (List.replicate ciphertext.length 0) len block =
      some buffer) : buffer.getLastD 0 = 0 := by
  unfold aesCbcDecrypt at h
  split at h
  · cases h
  · rename_i hfit
    obtain ⟨written, hlength, heq⟩ := cbcDecryptLoop_eq decrypt (len / 16).toNat block ciphertext
      (List.replicate ciphertext.length 0)
    have hne : ciphertext.length - 16 * (len / 16).toNat ≠ 0 := by omega
    rw [← Option.some.inj h, heq, List.drop_replicate]
    simp [List.getLastD_eq_getLast?, List.getLast?_replicate, hne]

/-- Such a ciphertext is not accepted. -/
theorem decryptMessage_of_size {ciphertext : Bytes} (h : 2 ^ 31 ≤ ciphertext.length) :
    ∃ e, decryptMessage aes iv symmetricKey ciphertext = .error e := by
  have hsize := intOfSize_lt h
  unfold decryptMessage
  split
  · exact ⟨_, rfl⟩
  · split
    · exact ⟨_, rfl⟩
    · split
      · exact ⟨_, rfl⟩
      · rename_i buffer hbuffer
        simp only
        rw [getLastD_of_aesCbcDecrypt hsize hbuffer, if_pos (.inl rfl)]
        exact ⟨_, rfl⟩

theorem Deciphered.length_le {ciphertext : Bytes} (h : Deciphered symmetricKey ciphertext) :
    16 ≤ ciphertext.length := by
  have hpos := List.length_pos_iff.mpr h.nonempty
  have hblocks := h.blocks
  omega

/-- **The ciphertexts that are accepted**: those whose plaintext ends in a byte from 1 to 16,
without the bytes that it counts. -/
theorem decryptMessage_eq_ok {ciphertext message : Bytes} :
    decryptMessage aes iv symmetricKey ciphertext = .ok message ↔
      Deciphered symmetricKey ciphertext ∧
      ∃ last, (plaintext aes iv symmetricKey ciphertext).getLast? = some last ∧
        1 ≤ last.toNat ∧ last.toNat ≤ 16 ∧
        message = (plaintext aes iv symmetricKey ciphertext).take (ciphertext.length - last.toNat) := by
  have hlength := length_plaintext aes iv symmetricKey ciphertext
  have hzero : ∀ b : UInt8, b = 0 ↔ b.toNat = 0 := fun b => UInt8.toNat_inj.symm
  have hbound : ∀ b : UInt8, 16 < b ↔ 16 < b.toNat := fun b => UInt8.lt_iff_toNat_lt
  have hlast : ∀ b, (plaintext aes iv symmetricKey ciphertext).getLast? = some b →
      (plaintext aes iv symmetricKey ciphertext).getLastD 0 = b := by
    intro b hb
    rw [List.getLastD_eq_getLast?, hb]
    rfl
  constructor
  · intro h
    have hdeciphered : Deciphered symmetricKey ciphertext := by
      unfold decryptMessage at h
      split at h
      · cases h
      · rename_i hkey
        split at h
        · cases h
        · rename_i hwhole
          obtain ⟨hne, hblocks⟩ := not_or.mp hwhole
          refine ⟨not_not.mp hkey, hne, not_not.mp hblocks, ?_⟩
          -- A ciphertext whose length is no `int` fails.
          by_contra hsize
          obtain ⟨e, he⟩ : ∃ e, decryptMessage aes iv symmetricKey ciphertext = .error e :=
            decryptMessage_of_size (Nat.le_of_not_lt hsize)
          unfold decryptMessage at he
          rw [if_neg hkey, if_neg hwhole] at he
          rw [he] at h
          cases h
    have hlong := hdeciphered.length_le
    have hne : plaintext aes iv symmetricKey ciphertext ≠ [] := by
      rw [← List.length_pos_iff]
      omega
    rw [decryptMessage_of_deciphered hdeciphered] at h
    simp only [hlast _ (List.getLast?_eq_some_getLast hne)] at h
    split at h
    · cases h
    · rename_i hpad
      rw [hzero, hbound] at hpad
      refine ⟨hdeciphered, _, List.getLast?_eq_some_getLast hne, by omega, by omega, ?_⟩
      rw [← hlength]
      exact (Except.ok.inj h).symm
  · rintro ⟨hdeciphered, last, hsome, hpos, hle, rfl⟩
    have hlong := hdeciphered.length_le
    rw [decryptMessage_of_deciphered hdeciphered]
    simp only [hlast last hsome]
    rw [if_neg (by rw [hzero, hbound]; omega), hlength]

end Accepted

/-! ## Round trip -/

/-- A text whose last byte is the number of a padding, of which another byte differs. -/
def Inconsistent (text : Bytes) : Prop :=
  ∃ last, text.getLast? = some last ∧ 1 ≤ last.toNat ∧ last.toNat ≤ 16 ∧
    ∃ b ∈ text.drop (text.length - last.toNat), b ≠ last

section RoundTrip

variable {aes : Aes} {iv : Checksum512} {symmetricKey : Bytes}

/-- The bytes that are padded to a message. -/
def padBytes (message : Str) : ℕ := (message.length / 16 + 1) * 16 - message.length

theorem length_padded (message : Str) :
    (message ++ BlockMode.padding (padBytes message)).length = 16 * (message.length / 16 + 1) := by
  unfold padBytes
  rw [List.length_append, BlockMode.length_padding]
  omega

/-- A message of a size that is an `int` with its padding is enciphered whole. -/
theorem encryptMessage_of_size {message : Str} (hkey : symmetricKey.length = 32)
    (hsize : message.length < 2 ^ 31 - 16) :
    encryptMessage aes iv symmetricKey message =
      .ok (cbcEncryptLoop (aes.encrypt symmetricKey) (message.length / 16 + 1) (ivBytes iv)
        (message ++ BlockMode.padding (padBytes message))
        (message ++ BlockMode.padding (padBytes message))) := by
  have hpadded : (message.length / 16 + 1) * 16 < 2 ^ 31 := by omega
  have hcount : (((message.length / 16 + 1) * 16 : ℕ) / 16 : ℤ).toNat = message.length / 16 + 1 := by
    omega
  unfold encryptMessage
  rw [if_neg (not_not_intro hkey)]
  simp only [intOfSize_of_lt hpadded]
  unfold aesCbcEncrypt
  rw [if_neg (by omega), hcount]
  rfl

/-- What is enciphered is as long as the padded message. -/
theorem length_of_encryptMessage {message : Str} {ciphertext : Bytes}
    (h : encryptMessage aes iv symmetricKey message = .ok ciphertext) :
    symmetricKey.length = 32 ∧ ciphertext.length = (message.length / 16 + 1) * 16 := by
  have hsize := intOfSize_le ((message.length / 16 + 1) * 16)
  have hpadded := length_padded message
  unfold encryptMessage at h
  split at h
  · cases h
  · rename_i hkey
    refine ⟨not_not.mp hkey, ?_⟩
    simp only at h
    split at h
    · cases h
    · rename_i buffer hbuffer
      obtain rfl := Except.ok.inj h
      unfold aesCbcEncrypt at hbuffer
      split at hbuffer
      · cases hbuffer
      · change some (cbcEncryptLoop _ _ _ (message ++ BlockMode.padding (padBytes message))
          (message ++ BlockMode.padding (padBytes message))) = _ at hbuffer
        rw [← Option.some.inj hbuffer, length_cbcEncryptLoop _ _ _ _ _ (by omega), hpadded]
        omega

/-- **A message comes back** exactly under a key of 32 bytes, if its padded size is an
`int`. -/
theorem decryptMessage_encryptMessage_iff (haes : aes.Inverse) (message : Str) :
    (encryptMessage aes iv symmetricKey message >>= decryptMessage aes iv symmetricKey) =
        .ok message ↔
      symmetricKey.length = 32 ∧ message.length < 2 ^ 31 - 16 := by
  constructor
  · intro h
    obtain ⟨ciphertext, hciphertext, h⟩ := bind_eq_ok.mp h
    obtain ⟨hkey, hlength⟩ := length_of_encryptMessage hciphertext
    have hsize := (decryptMessage_eq_ok.mp h).1.size
    exact ⟨hkey, by omega⟩
  · rintro ⟨hkey, hsize⟩
    have hpadded := length_padded message
    have hpad : 1 ≤ padBytes message ∧ padBytes message ≤ 16 := by
      unfold padBytes
      omega
    have hlength := length_cbcEncryptLoop (aes.encrypt symmetricKey) (message.length / 16 + 1)
      (ivBytes iv) (message ++ BlockMode.padding (padBytes message)) _ hpadded.ge
    have htext := cbcDecryptLoop_cbcEncryptLoop (haes symmetricKey hkey) hpadded (ivBytes iv)
      (List.replicate (message ++ BlockMode.padding (padBytes message)).length 0) List.length_replicate
    have hvalue : (UInt8.ofNat (padBytes message)).toNat = padBytes message :=
      UInt8.toNat_ofNat_of_lt' (by simp only [UInt8.size]; omega)
    rw [encryptMessage_of_size hkey hsize, ok_bind, decryptMessage_eq_ok]
    unfold plaintext
    rw [hlength, hpadded, Nat.mul_div_cancel_left _ (by omega), ← hpadded, htext]
    refine ⟨⟨hkey, ?_, by omega, by omega⟩, _, BlockMode.getLast?_append_padding message hpad.1,
      by omega, by omega, ?_⟩
    · rw [← List.length_pos_iff]
      omega
    · rw [hvalue, List.length_append, BlockMode.length_padding, Nat.add_sub_cancel, List.take_left]

/-- A ciphertext is accepted with a whole padding only, exactly if its plaintext is not
inconsistent where it is deciphered. -/
theorem wellPadded_of_decryptMessage_iff (ciphertext : Bytes) :
    (∀ message, decryptMessage aes iv symmetricKey ciphertext = .ok message →
        BlockMode.WellPadded 16 (plaintext aes iv symmetricKey ciphertext)) ↔
      (Deciphered symmetricKey ciphertext →
        ¬ Inconsistent (plaintext aes iv symmetricKey ciphertext)) := by
  have hlength := length_plaintext aes iv symmetricKey ciphertext
  constructor
  · rintro h hdeciphered ⟨last, hlast, hpos, hle, b, hb, hdiffers⟩
    have hlong := hdeciphered.length_le
    have haccepted := decryptMessage_eq_ok.mpr ⟨hdeciphered, last, hlast, hpos, hle, rfl⟩
    have hpadded := (BlockMode.wellPadded_iff (by decide) hlast (by omega)).mp (h _ haccepted)
    exact hdiffers (hpadded.2.2 b hb)
  · intro h message haccepted
    obtain ⟨hdeciphered, last, hlast, hpos, hle, -⟩ := decryptMessage_eq_ok.mp haccepted
    have hlong := hdeciphered.length_le
    refine (BlockMode.wellPadded_iff (by decide) hlast (by omega)).mpr ⟨hpos, hle, fun b hb => ?_⟩
    by_contra hdiffers
    exact h hdeciphered ⟨last, hlast, hpos, hle, b, hb, hdiffers⟩

end RoundTrip

/-- **Sealed message padding.**  Under a cipher that is undone, a message comes back exactly if
the key has 32 bytes and the padded size is an `int`; and a ciphertext is accepted with a whole
padding only, exactly if its plaintext is not inconsistent where it is deciphered. -/
theorem sealed_padding_iff {aes : Aes} (haes : aes.Inverse) (iv : Checksum512)
    (symmetricKey : Bytes) :
    (∀ message : Str,
      (encryptMessage aes iv symmetricKey message >>= decryptMessage aes iv symmetricKey) =
          .ok message ↔
        symmetricKey.length = 32 ∧ message.length < 2 ^ 31 - 16) ∧
    (∀ ciphertext : Bytes,
      (∀ message, decryptMessage aes iv symmetricKey ciphertext = .ok message →
          BlockMode.WellPadded 16 (plaintext aes iv symmetricKey ciphertext)) ↔
        (Deciphered symmetricKey ciphertext →
          ¬ Inconsistent (plaintext aes iv symmetricKey ciphertext))) :=
  ⟨decryptMessage_encryptMessage_iff haes, wellPadded_of_decryptMessage_iff⟩

/-- The key of the bytes from 0 to 31. -/
def countingKey : Bytes := (List.range 32).map UInt8.ofNat

/-- A block, and what AES-256 makes of it under that key. -/
def plainBlock : Block :=
  #v[0x00, 0x11, 0x22, 0x33, 0x44, 0x55, 0x66, 0x77, 0x88, 0x99, 0xaa, 0xbb, 0xcc, 0xdd, 0xee, 0xff]

def cipherBlock : Block :=
  #v[0x8e, 0xa2, 0xb7, 0xca, 0x51, 0x67, 0x45, 0xbf, 0xea, 0xfc, 0x49, 0x90, 0x4b, 0x49, 0x60, 0x89]

/-- AES on those two blocks, and nothing done to any other. -/
def twoBlockAes : Aes where
  encrypt _ := Equiv.swap plainBlock cipherBlock
  decrypt _ := Equiv.swap cipherBlock plainBlock

theorem twoBlockAes_inverse : twoBlockAes.Inverse := by
  intro key _ block
  show Equiv.swap cipherBlock plainBlock (Equiv.swap plainBlock cipherBlock block) = block
  rw [Equiv.swap_comm, Equiv.swap_apply_self]

/-- The IV that brings one block of text to the block above. -/
def ivFor (text : Block) : Checksum512 where
  array := List.replicate 32 0 ++ (plainBlock.xor text).toList ++ List.replicate 16 0
  size_eq := by
    rw [List.length_append, List.length_append, Vector.length_toList]
    rfl

/-- A text with its padding. -/
def helloBlock : Block := #v[104, 101, 108, 108, 111, 11, 11, 11, 11, 11, 11, 11, 11, 11, 11, 11]

/-- A message comes back. -/
theorem sealed_padding_iff_hello :
    (encryptMessage twoBlockAes (ivFor helloBlock) countingKey "hello" >>=
      decryptMessage twoBlockAes (ivFor helloBlock) countingKey) = .ok (lit "hello") :=
  ((sealed_padding_iff twoBlockAes_inverse (ivFor helloBlock) countingKey).1 (lit "hello")).mpr
    (by decide)

/-- Sixteen bytes that end in a zero and a two. -/
def slippedBlock : Block := #v[104, 101, 108, 108, 111, 0, 0, 0, 0, 0, 0, 0, 0, 0, 0, 2]

/-- They are accepted as a message of fourteen bytes. -/
theorem not_sealed_padding :
    ∃ message, decryptMessage twoBlockAes (ivFor slippedBlock) countingKey cipherBlock.toList =
        .ok message ∧
      ¬ BlockMode.WellPadded 16
        (plaintext twoBlockAes (ivFor slippedBlock) countingKey cipherBlock.toList) := by
  have hplaintext : plaintext twoBlockAes (ivFor slippedBlock) countingKey cipherBlock.toList =
      slippedBlock.toList := by
    decide +kernel
  refine ⟨slippedBlock.toList.take 14, by decide +kernel, ?_⟩
  have hlast : slippedBlock.toList.getLast? = some 2 := by decide
  rw [hplaintext, BlockMode.wellPadded_iff (by decide) hlast (by decide)]
  decide

end Dwarfkit
