/-
# Messages between two keys

`sealMessage` and `unsealMessage` of `protocol_esr/sealed_messages.cpp`: the secret that
two keys share gives the symmetric key and the IV, and what is sent says which key and
which nonce they were made of.

* `PrivateKey.sharedSecret_comm` : both sides derive one secret;
* `unsealMessage_sealMessage` : what one side seals, the other unseals.
-/
import Dwarfkit.Antelope.Crypto
import Dwarfkit.ProtocolEsr.SealedMessages

namespace Dwarfkit

open Wire

/-! ## Sealed messages -/

/-- `SealedMessage`. -/
structure SealedMessage where
  fromKey : PublicKey
  nonce : UInt64
  ciphertext : Bytes
  checksum : UInt32

namespace SealedMessage

/-- `abi_traits<SealedMessage>`, the part that encodes. -/
def toABI (p : Platform) (sealedMessage : SealedMessage) : Result Bytes := do
  let fromKey ← (AbiTraits.publicKey p).toABI sealedMessage.fromKey
  let nonce ← AbiTraits.uint64.toABI sealedMessage.nonce
  let ciphertext ← AbiTraits.bytes.toABI sealedMessage.ciphertext
  let checksum ← AbiTraits.uint32.toABI sealedMessage.checksum
  return fromKey ++ (nonce ++ (ciphertext ++ checksum))

/-- The part that decodes. -/
def fromABI (p : Platform) : Decoder SealedMessage := do
  let fromKey ← (AbiTraits.publicKey p).fromABI
  let nonce ← AbiTraits.uint64.fromABI
  let ciphertext ← AbiTraits.bytes.fromABI
  let checksum ← AbiTraits.uint32.fromABI
  return { fromKey, nonce, ciphertext, checksum }

/-- What is written of a sealed message is read back. -/
theorem reads_fromABI (p : Platform) {sealedMessage : SealedMessage}
    (hkey : sealedMessage.fromKey.WireShaped) (hsize : sealedMessage.ciphertext.length < 2 ^ 32) :
    ∃ bytes, sealedMessage.toABI p = .ok bytes ∧ Reads (fromABI p) bytes sealedMessage := by
  obtain ⟨-, hfrom⟩ := AbiTraits.publicKey_roundTrips p sealedMessage.fromKey _ hkey rfl
  obtain ⟨-, hnonce⟩ := AbiTraits.uint64_roundTrips sealedMessage.nonce _ trivial rfl
  obtain ⟨-, hciphertext⟩ := AbiTraits.bytes_roundTrips sealedMessage.ciphertext _ hsize rfl
  obtain ⟨-, hchecksum⟩ := AbiTraits.uint32_roundTrips sealedMessage.checksum _ trivial rfl
  exact ⟨_, rfl, hfrom.bind (hnonce.bind (hciphertext.bind (hchecksum.bind_pure _)))⟩

end SealedMessage

section Sealing

variable (primitives : Primitives) (aes : Aes)

/-- `hashSource`: the nonce as eight bytes, and the secret. -/
def hashSource (secret : Checksum512) (nonce : UInt64) : Bytes :=
  leBytes 8 nonce.toNat ++ secret.array

/-- `createSymmetricKey`. -/
def createSymmetricKey (secret : Checksum512) (nonce : UInt64) : Bytes :=
  (primitives.sha512 (hashSource secret nonce)).array.take 32

/-- `createIV`. -/
def createIV (nonce : UInt64) (secret : Checksum512) : Checksum512 :=
  primitives.sha512 (hashSource secret nonce)

/-- A number of bytes, the lowest first. -/
def ofLowBytes (bytes : Bytes) : ℕ := Nat.ofDigits 256 (bytes.map UInt8.toNat)

/-- The nonce of a sealed message: the one given, or one of eight random bytes. -/
def nonceOf (secureRandom : ℕ → Result Bytes) : Option UInt64 → Result UInt64
  | some nonce => .ok nonce
  | none => do
    let random ← secureRandom 8
    return (ofLowBytes (random.take 8)).toUInt64

/-- `sealedMessagePayload`. -/
def sealedMessagePayload (secureRandom : ℕ → Result Bytes) (message : Str) (privateKey : PrivateKey)
    (publicKey : PublicKey) (nonce : Option UInt64) : Result SealedMessage := do
  let nonceValue ← nonceOf secureRandom nonce
  let secret ← privateKey.sharedSecret primitives publicKey
  let iv := createIV primitives nonceValue secret
  let symmetricKey := createSymmetricKey primitives secret nonceValue
  let ciphertext ← encryptMessage aes iv symmetricKey message
  let checksumHash := primitives.sha256 iv.array
  let checksum := (ofLowBytes (checksumHash.array.take 4)).toUInt32
  let fromKey ← privateKey.toPublic primitives.toCurves
  return { fromKey, nonce := nonceValue, ciphertext, checksum }

/-- `sealMessage`. -/
def sealMessage (secureRandom : ℕ → Result Bytes) (message : Str) (privateKey : PrivateKey)
    (publicKey : PublicKey) (nonce : Option UInt64) : Result SealedMessage :=
  sealedMessagePayload primitives aes secureRandom message privateKey publicKey nonce

/-- `unsealMessage`. -/
def unsealMessage (message : Bytes) (privateKey : PrivateKey) (publicKey : PublicKey)
    (nonce : UInt64) : Result Str := do
  let secret ← privateKey.sharedSecret primitives publicKey
  let iv := createIV primitives nonce secret
  let symmetricKey := createSymmetricKey primitives secret nonce
  decryptMessage aes iv symmetricKey message

end Sealing

/-! ## One secret -/

/-- What the libraries promise: the key of a secret is read by the exchange, which is the same
from both sides. -/
structure Curves.Agrees (curves : Curves) : Prop where
  k1 : ∀ a b A B, curves.k1Public a = some A → curves.k1Public b = some B →
    curves.k1Parses B.array = true ∧ curves.k1Ecdh B.array a = curves.k1Ecdh A.array b
  r1 : ∀ a b A B, curves.r1Public a = some A → curves.r1Public b = some B →
    Curves.isReadableP256Pubkey B.array = true ∧ curves.r1Ecdh a B.array = curves.r1Ecdh b A.array

variable {primitives : Primitives} {aes : Aes}

/-- What a public key was made of. -/
theorem PrivateKey.toPublic_eq_ok {curves : Curves} {k : PrivateKey} {publicKey : PublicKey}
    (h : k.toPublic curves = .ok publicKey) : publicKey.type = k.type ∧ k.data.length = 32 ∧
      ∃ compressed : Compressed, publicKey.data = compressed.array ∧
        (if k.type = .K1 then curves.k1Public k.data else curves.r1Public k.data) =
          some compressed := by
  obtain ⟨compressed, hcompressed, hpublic⟩ := bind_eq_ok.mp h
  cases hpublic
  unfold Curves.getPublic at hcompressed
  split at hcompressed
  · cases hcompressed
  · rename_i hlen
    refine ⟨rfl, not_not.mp hlen, compressed, rfl, ?_⟩
    split at hcompressed
    · cases hcompressed
    · rename_i found hfound
      rw [hfound, Except.ok.inj hcompressed]

/-- **Both sides derive one secret.** -/
theorem PrivateKey.sharedSecret_comm (h : primitives.toCurves.Agrees) {a b : PrivateKey}
    {A B : PublicKey} (htype : a.type = b.type) (hA : a.toPublic primitives.toCurves = .ok A)
    (hB : b.toPublic primitives.toCurves = .ok B) :
    a.sharedSecret primitives B = b.sharedSecret primitives A := by
  obtain ⟨-, hlenA, ca, hdataA, hcurveA⟩ := toPublic_eq_ok hA
  obtain ⟨-, hlenB, cb, hdataB, hcurveB⟩ := toPublic_eq_ok hB
  unfold PrivateKey.sharedSecret Curves.sharedSecret
  rw [if_neg (not_not.mpr hlenA), if_neg (not_not.mpr hlenB), hdataA, hdataB, ← htype]
  rw [← htype] at hcurveB
  cases hcurve : a.type with
  | K1 =>
    rw [hcurve, if_pos rfl] at hcurveA hcurveB
    obtain ⟨hparsesB, hecdh⟩ := h.k1 _ _ _ _ hcurveA hcurveB
    obtain ⟨hparsesA, -⟩ := h.k1 _ _ _ _ hcurveB hcurveA
    simp only [hparsesA, hparsesB, hecdh]
  | R1 =>
    rw [hcurve, if_neg (by decide)] at hcurveA hcurveB
    obtain ⟨hreadableB, hecdh⟩ := h.r1 _ _ _ _ hcurveA hcurveB
    obtain ⟨hreadableA, -⟩ := h.r1 _ _ _ _ hcurveB hcurveA
    simp only [hreadableA, hreadableB, hecdh]
  | WA => rfl

/-! ## Unsealing -/

/-- What sealing went through. -/
theorem sealMessage_eq_ok {secureRandom : ℕ → Result Bytes} {message : Str} {privateKey : PrivateKey}
    {publicKey : PublicKey} {nonce : Option UInt64} {sealedMessage : SealedMessage}
    (h : sealMessage primitives aes secureRandom message privateKey publicKey nonce =
      .ok sealedMessage) :
    (∀ n, nonce = some n → sealedMessage.nonce = n) ∧
      privateKey.toPublic primitives.toCurves = .ok sealedMessage.fromKey ∧
      ∃ secret, privateKey.sharedSecret primitives publicKey = .ok secret ∧
        encryptMessage aes (createIV primitives sealedMessage.nonce secret)
          (createSymmetricKey primitives secret sealedMessage.nonce) message =
            .ok sealedMessage.ciphertext := by
  unfold sealMessage sealedMessagePayload at h
  obtain ⟨nonceValue, hnonce, h⟩ := bind_eq_ok.mp h
  obtain ⟨secret, hsecret, h⟩ := bind_eq_ok.mp h
  obtain ⟨ciphertext, hciphertext, h⟩ := bind_eq_ok.mp h
  obtain ⟨fromKey, hfrom, h⟩ := bind_eq_ok.mp h
  cases h
  refine ⟨?_, hfrom, secret, hsecret, hciphertext⟩
  rintro n rfl
  cases hnonce
  rfl

/-- **What one side seals, the other unseals**, with the key and the nonce that the sealed message
names. -/
theorem unsealMessage_sealMessage (haes : aes.Inverse) (hagrees : primitives.toCurves.Agrees)
    {a b : PrivateKey} {B : PublicKey} (htype : a.type = b.type)
    (hB : b.toPublic primitives.toCurves = .ok B) {secureRandom : ℕ → Result Bytes} {message : Str}
    (hsize : message.length < 2 ^ 31 - 16) {nonce : Option UInt64} {sealedMessage : SealedMessage}
    (h : sealMessage primitives aes secureRandom message a B nonce = .ok sealedMessage) :
    unsealMessage primitives aes sealedMessage.ciphertext b sealedMessage.fromKey
      sealedMessage.nonce = .ok message := by
  obtain ⟨-, hA, secret, hsecret, hciphertext⟩ := sealMessage_eq_ok h
  rw [PrivateKey.sharedSecret_comm hagrees htype hA hB] at hsecret
  have hkey := (length_of_encryptMessage hciphertext).1
  have hback := (@decryptMessage_encryptMessage_iff aes
    (createIV primitives sealedMessage.nonce secret) _ haes message).mpr ⟨hkey, hsize⟩
  rw [hciphertext, ok_bind] at hback
  rw [unsealMessage, hsecret, ok_bind]
  exact hback

/-- The sealed message itself is read back. -/
theorem reads_sealMessage (p : Platform) {a : PrivateKey} {B : PublicKey}
    {secureRandom : ℕ → Result Bytes} {message : Str} (hsize : message.length < 2 ^ 31 - 16)
    {nonce : Option UInt64} {sealedMessage : SealedMessage}
    (h : sealMessage primitives aes secureRandom message a B nonce = .ok sealedMessage) :
    ∃ bytes, sealedMessage.toABI p = .ok bytes ∧
      Reads (SealedMessage.fromABI p) bytes sealedMessage := by
  obtain ⟨-, hA, secret, hsecret, hciphertext⟩ := sealMessage_eq_ok h
  obtain ⟨htype, -, compressed, hdata, -⟩ := PrivateKey.toPublic_eq_ok hA
  apply SealedMessage.reads_fromABI
  · -- A key that shares a secret is not a WebAuthn one, so its data is the point alone.
    unfold PublicKey.WireShaped
    rw [if_neg, hdata, compressed.size_eq]
    rw [htype]
    intro hWA
    obtain ⟨shared, hshared, -⟩ := bind_eq_ok.mp hsecret
    unfold Curves.sharedSecret at hshared
    split at hshared
    · cases hshared
    · rw [hWA] at hshared
      cases hshared
  · rw [(length_of_encryptMessage hciphertext).2]
    omega

/-- **A sealed message arrives.**  What is sent of it is read back, and with what was read and its
own key the other side has the message again. -/
theorem sealed_message_arrives (p : Platform) (haes : aes.Inverse)
    (hagrees : primitives.toCurves.Agrees) {a b : PrivateKey} {B : PublicKey}
    (htype : a.type = b.type) (hB : b.toPublic primitives.toCurves = .ok B)
    {secureRandom : ℕ → Result Bytes} {message : Str} (hsize : message.length < 2 ^ 31 - 16)
    {nonce : Option UInt64} {sealedMessage : SealedMessage}
    (h : sealMessage primitives aes secureRandom message a B nonce = .ok sealedMessage) :
    ∃ bytes, sealedMessage.toABI p = .ok bytes ∧
      ∀ received rest, (SealedMessage.fromABI p).run bytes = .ok (received, rest) →
        unsealMessage primitives aes received.ciphertext b received.fromKey received.nonce =
          .ok message ∧
        a.toPublic primitives.toCurves = .ok received.fromKey ∧
        ∀ n, nonce = some n → received.nonce = n := by
  obtain ⟨bytes, hbytes, hreads⟩ := reads_sealMessage p hsize h
  refine ⟨bytes, hbytes, ?_⟩
  intro received rest hreceived
  rw [hreads.run_eq] at hreceived
  cases hreceived
  obtain ⟨hnonce, hA, -⟩ := sealMessage_eq_ok h
  exact ⟨unsealMessage_sealMessage haes hagrees htype hB hsize h, hA, hnonce⟩

/-! ## Two keys -/

/-- The key of 32 bytes in a row. -/
def rowKey (first : ℕ) : PrivateKey where
  data := (List.range 32).map (fun i => (first + i).toUInt8)

/-- The point of the key from 33 on. -/
def rowPoint : Compressed :=
  ⟨[0x02, 0x20, 0x7b, 0xba, 0x70, 0xbc, 0x66, 0x30, 0x9b, 0xaa, 0x58, 0x2a, 0x6a, 0xc1, 0x20, 0xfd,
    0x52, 0xd6, 0x80, 0x26, 0xc5, 0x1f, 0x63, 0x26, 0xf8, 0xcc, 0xed, 0xcb, 0xd2, 0xc1, 0xb7, 0xeb,
    0x82], rfl⟩

/-- The first coordinate that the two keys share. -/
def sharedX : Checksum256 :=
  ⟨[0xf4, 0x0b, 0xb5, 0x48, 0xd1, 0x47, 0xb2, 0xc3, 0xcd, 0xcf, 0x63, 0x56, 0x58, 0xc3, 0xfc, 0xa8,
    0x7a, 0x3c, 0x1f, 0x85, 0xc7, 0xac, 0x00, 0x6e, 0x9b, 0x9e, 0x80, 0xd4, 0xdc, 0x70, 0xd8, 0x4d], rfl⟩

/-- Its SHA-512. -/
def sharedDigest : Checksum512 :=
  ⟨[0xcc, 0x8c, 0xd8, 0xa0, 0x26, 0xef, 0x39, 0x2a, 0x53, 0x3c, 0x19, 0xe4, 0x82, 0x26, 0xac, 0x18,
    0x72, 0xc2, 0x57, 0xe7, 0xd9, 0x89, 0xce, 0xef, 0xd1, 0x42, 0xc3, 0xd5, 0x5d, 0x86, 0xf3, 0x14,
    0x79, 0x62, 0x5b, 0x26, 0xc4, 0x23, 0x0c, 0x02, 0x12, 0x0d, 0xf9, 0x17, 0x87, 0xdd, 0x58, 0xd9,
    0xe3, 0x38, 0xba, 0xe5, 0x89, 0xb5, 0xaf, 0xf9, 0x3a, 0x60, 0xeb, 0xb2, 0x3d, 0xae, 0x04, 0x76], rfl⟩

/-- The SHA-512 of that behind the nonce 5. -/
def nonceDigest : Checksum512 :=
  ⟨[0x3f, 0x43, 0xeb, 0x62, 0xf0, 0x80, 0x69, 0x3e, 0x9e, 0x39, 0xe9, 0x7f, 0x5a, 0x06, 0x89, 0xe2,
    0x8c, 0xa7, 0x51, 0x3b, 0x65, 0x0f, 0xa4, 0xa2, 0x0a, 0x74, 0x39, 0x00, 0xf0, 0xc2, 0x35, 0x00,
    0x0d, 0x83, 0xbb, 0x85, 0x95, 0x6a, 0x22, 0xd5, 0xb5, 0x9d, 0xbe, 0x8e, 0x8b, 0x27, 0x45, 0xb2,
    0xb9, 0x19, 0xdb, 0x06, 0xd7, 0xa8, 0xd3, 0xf6, 0x85, 0x2b, 0x68, 0x41, 0xc0, 0x45, 0x87, 0x7a], rfl⟩

/-- The primitives, right for those two keys and that nonce. -/
def rowPrimitives : Primitives where
  hmacSha256 := fun _ _ => .zero 32
  k1Sign := fun _ _ _ => none
  k1Public := fun secret =>
    if secret = (rowKey 1).data then some countingPoint
    else if secret = (rowKey 33).data then some rowPoint
    else none
  k1ParsesCompact := fun _ _ _ => false
  k1Recover := fun _ _ _ _ => none
  k1Parses := fun pubkey => pubkey = countingPoint.array ∨ pubkey = rowPoint.array
  k1Ecdh := fun pubkey secret =>
    if (pubkey = rowPoint.array ∧ secret = (rowKey 1).data) ∨
      (pubkey = countingPoint.array ∧ secret = (rowKey 33).data) then some sharedX else none
  k1SeckeyVerify := fun _ => true
  r1Sign := fun _ _ => none
  r1Public := fun _ => none
  r1Recover := fun _ _ _ => none
  r1Ecdh := fun _ _ => none
  sha256 := fun _ =>
    ⟨[0x3f, 0xd9, 0xc7, 0x5c, 0xcd, 0xc1, 0x6f, 0x4e, 0x86, 0x31, 0x2e, 0xc2, 0xb9, 0x1f, 0x22, 0x35,
      0xd4, 0x84, 0x60, 0x4b, 0x21, 0xd5, 0x90, 0xdf, 0x46, 0x87, 0x99, 0x02, 0x90, 0xec, 0x78, 0x8f], rfl⟩
  ripemd160 := fun _ => .zero 20
  sha512 := fun data => if data = sharedX.array then sharedDigest else nonceDigest

/-- The keys that have a point. -/
theorem point_of_k1Public {secret : Bytes} {point : Compressed}
    (h : rowPrimitives.toCurves.k1Public secret = some point) :
    (secret = (rowKey 1).data ∧ point = countingPoint) ∨
      (secret = (rowKey 33).data ∧ point = rowPoint) := by
  change (if secret = (rowKey 1).data then some countingPoint
    else if secret = (rowKey 33).data then some rowPoint else none) = some point at h
  split at h
  · rename_i hsecret
    exact .inl ⟨hsecret, (Option.some.inj h).symm⟩
  · split at h
    · rename_i hsecret
      exact .inr ⟨hsecret, (Option.some.inj h).symm⟩
    · cases h

theorem agrees_rowPrimitives : rowPrimitives.toCurves.Agrees where
  k1 := by
    intro a b A B hA hB
    rcases point_of_k1Public hA with ⟨rfl, rfl⟩ | ⟨rfl, rfl⟩ <;>
      rcases point_of_k1Public hB with ⟨rfl, rfl⟩ | ⟨rfl, rfl⟩
    · exact ⟨rfl, rfl⟩
    · exact ⟨rfl, rfl⟩
    · exact ⟨rfl, rfl⟩
    · exact ⟨rfl, rfl⟩
  r1 := by
    intro a b A B hA
    cases hA

/-- The padded text under the IV. -/
def sealedPlain : Block :=
  #v[0x65, 0xe6, 0xd7, 0xe9, 0xfa, 0x61, 0x29, 0xde, 0xbe, 0x96, 0xb5, 0x85, 0x80, 0x2c, 0x4e, 0xb9]

/-- What AES-256 makes of it under the key. -/
def sealedCipher : Block :=
  #v[0x01, 0x0b, 0xa0, 0x0e, 0x1f, 0x8c, 0x60, 0xd7, 0x5c, 0x50, 0x7e, 0x61, 0xf8, 0x4a, 0x7d, 0x28]

/-- AES on those two blocks, and nothing done to any other. -/
def sealedAes : Aes where
  encrypt _ := Equiv.swap sealedPlain sealedCipher
  decrypt _ := Equiv.swap sealedCipher sealedPlain

theorem sealedAes_inverse : sealedAes.Inverse := by
  intro key _ block
  show Equiv.swap sealedCipher sealedPlain (Equiv.swap sealedPlain sealedCipher block) = block
  rw [Equiv.swap_comm, Equiv.swap_apply_self]

/-- "hello" from the one key to the other. -/
theorem sealed_message_arrives_hello :
    ∃ sealedMessage, sealMessage rowPrimitives sealedAes (fun _ => .ok []) "hello" (rowKey 1)
        { type := .K1, data := rowPoint.array } (some 5) = .ok sealedMessage ∧
      ∃ bytes, sealedMessage.toABI default = .ok bytes ∧
        ∀ received rest, (SealedMessage.fromABI default).run bytes = .ok (received, rest) →
          unsealMessage rowPrimitives sealedAes received.ciphertext (rowKey 33) received.fromKey
            received.nonce = .ok (lit "hello") ∧
          (rowKey 1).toPublic rowPrimitives.toCurves = .ok received.fromKey ∧
          ∀ n, some 5 = some n → received.nonce = n := by
  obtain ⟨sealedMessage, h⟩ : ∃ sealedMessage, sealMessage rowPrimitives sealedAes (fun _ => .ok [])
      "hello" (rowKey 1) { type := .K1, data := rowPoint.array } (some 5) = .ok sealedMessage :=
    ⟨_, rfl⟩
  have hpublic : (rowKey 33).toPublic rowPrimitives.toCurves =
      .ok { type := .K1, data := rowPoint.array } := rfl
  exact ⟨sealedMessage, h, @sealed_message_arrives rowPrimitives sealedAes default sealedAes_inverse
    agrees_rowPrimitives (rowKey 1) (rowKey 33) _ rfl hpublic _ _ (by decide) _ _ h⟩

end Dwarfkit
