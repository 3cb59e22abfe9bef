/-
# Signing and recovering

`crypto::sign`, `getPublic`, `recover`, `sharedSecret` and `generate` of
`src/antelope/crypto.cpp`, and the methods of `PrivateKey` over them.  The curves are
libsecp256k1's and trezor-crypto's: what is called of them comes in as a record.

* `Curves.sign_k1_eq_ok_iff` : the first canonical signature;
* `Curves.recover_sign` : a signature names the key that made it;
* `Curves.generate_eq_ok_iff` : the first valid draw of eight.
-/
import Dwarfkit.Antelope.Nonce
import Dwarfkit.Antelope.Chain.PrivateKey
import Dwarfkit.Library.Retry

namespace Dwarfkit

open Base58 Nonce

/-- `crypto::SignatureParts`. -/
structure SignatureParts where
  type : KeyType
  r : Checksum256
  s : Checksum256
  recid : ℕ := 0
  deriving DecidableEq

/-- A `std::array<uint8_t, 33>`. -/
abbrev Compressed := Checksum 33

/-- What is called of the curve libraries.  A signature is `r`, `s` and the recovery id; the
nonce of a K1 signature is asked for by the number of the library's own attempt. -/
structure Curves where
  hmacSha256 : Bytes → Bytes → Checksum256
  k1Sign : (message secret : Bytes) → (nonce : ℕ → Option Checksum256) →
    Option (Checksum256 × Checksum256 × ℕ)
  k1Public : (secret : Bytes) → Option Compressed
  k1ParsesCompact : (r s : Checksum256) → (recid : ℕ) → Bool
  k1Recover : (r s : Checksum256) → (recid : ℕ) → (message : Bytes) → Option Compressed
  k1Parses : (pubkey : Bytes) → Bool
  k1Ecdh : (pubkey secret : Bytes) → Option Checksum256
  k1SeckeyVerify : (secret : Bytes) → Bool
  r1Sign : (secret message : Bytes) → Option (Checksum256 × Checksum256 × ℕ)
  r1Public : (secret : Bytes) → Option Compressed
  r1Recover : (compact message : Bytes) → (recid : ℕ) → Option (Checksum 65)
  r1Ecdh : (secret pubkey : Bytes) → Option (Checksum 65)

namespace Curves

variable (curves : Curves)

/-! ## `crypto` -/

/-- The high bits of a number that EOSIO asks for: none, but for the second byte of a number
that starts with a zero. -/
def canonicalHalf (v : Checksum256) : Bool :=
  let v0 := v.array.getD 0 0
  let v1 := v.array.getD 1 0
  v0 &&& 0x80 = 0 ∧ ¬ (v0 = 0 ∧ v1 &&& 0x80 = 0)

/-- `canonical`. -/
def canonical (r s : Checksum256) : Bool := canonicalHalf r ∧ canonicalHalf s

/-- The values of `attempt` in the loop of `sign`, a byte that ends when it wraps. -/
def attempts : List UInt8 := (List.range 255).map (fun i => (i + 1).toUInt8)

/-- What the library answers at an attempt. -/
def k1Attempt (secret message : Bytes) (attempt : UInt8) : Option (Checksum256 × Checksum256 × ℕ) :=
  curves.k1Sign message secret (k1NonceFn curves.hmacSha256 message secret attempt)

/-- A round of the loop of `sign`: an answer that is not canonical is passed over. -/
def signRound (secret message : Bytes) (attempt : UInt8) : Result (Option SignatureParts) :=
  match curves.k1Attempt secret message attempt with
  | none => err .invalid "Failed to sign"
  | some (r, s, recid) => .ok (if canonical r s then some { type := .K1, r, s, recid } else none)

/-- `crypto::sign`. -/
def sign (secret message : Bytes) (type : KeyType) : Result SignatureParts :=
  if secret.length ≠ 32 ∨ message.length ≠ 32 then err .invalid "Invalid key or message length"
  else match type with
    | .K1 =>
      Retry.loop (curves.signRound secret message)
        { kind := .internal, message := "Failed to find canonical signature" } attempts
    | .R1 =>
      match curves.r1Sign secret message with
      | none => err .invalid "Failed to sign"
      | some (r, s, pby) => .ok { type := .R1, r, s, recid := pby }
    | .WA => err .unsupported "Cannot sign with WA keys"

/-- `crypto::getPublic`: WebAuthn keys are of the curve of R1. -/
def getPublic (secret : Bytes) (type : KeyType) : Result Compressed :=
  if secret.length ≠ 32 then err .invalid "Invalid private key length"
  else
    match if type = .K1 then curves.k1Public secret else curves.r1Public secret with
    | none => err .invalid "Invalid private key"
    | some compressed => .ok compressed

/-- The compressed form of a point. -/
def compress (uncompressed : Checksum 65) : Bytes :=
  (0x02 ||| (uncompressed.array.getD 64 0 &&& 1)) :: (uncompressed.array.drop 1).take 32

/-- The 32 bytes from a place on, of data that is long enough. -/
def slice32 (data : Bytes) (start : ℕ) : Checksum256 :=
  if h : ((data.drop start).take 32).length = 32 then ⟨(data.drop start).take 32, h⟩ else .zero 32

/-- `crypto::recover`. -/
def recover (signature : Bytes) (message : Checksum256) (type : KeyType) : Result Bytes :=
  if type = .WA then
    err .unsupported "can't recover webauthn public keys, please use @wharfkit/webauthn."
  else if signature.length < 65 then err .invalid "Invalid signature or message length"
  else
    let recid : ℤ := (signature.getD 0 0).toNat - 31
    if recid < 0 ∨ recid > 3 then err .invalid "Invalid recovery id"
    else if type = .K1 then
      let r := slice32 signature 1
      let s := slice32 signature 33
      if ¬ curves.k1ParsesCompact r s recid.toNat then err .invalid "Invalid signature"
      else
        match curves.k1Recover r s recid.toNat message.array with
        | none => err .invalid "Unable to recover public key"
        | some compressed => .ok compressed.array
    else
      match curves.r1Recover ((signature.drop 1).take 64) message.array recid.toNat with
      | none => err .invalid "Unable to recover public key"
      | some uncompressed => .ok (compress uncompressed)

/-- `isReadableP256Pubkey`. -/
def isReadableP256Pubkey (pubkey : Bytes) : Bool :=
  match pubkey.head? with
  | some first =>
    if first = 0x02 ∨ first = 0x03 then 33 ≤ pubkey.length
    else first = 0x04 ∧ 65 ≤ pubkey.length
  | none => false

/-- The point's first coordinate without its leading zeros, though never without its last
byte. -/
def minimal : Bytes → Bytes
  | [] => []
  | [b] => [b]
  | b :: rest => if b = 0 then minimal rest else b :: rest

/-- `crypto::sharedSecret`. -/
def sharedSecret (secret pubkey : Bytes) (type : KeyType) : Result Bytes :=
  if secret.length ≠ 32 then err .invalid "Invalid private key length"
  else match type with
    | .K1 =>
      if ¬ curves.k1Parses pubkey then err .invalid "Invalid public key"
      else
        match curves.k1Ecdh pubkey secret with
        | none => err .invalid "Failed to derive shared secret"
        | some x => .ok (minimal x.array)
    | .R1 =>
      if ¬ isReadableP256Pubkey pubkey then err .invalid "Invalid public key"
      else
        match curves.r1Ecdh secret pubkey with
        | none => err .invalid "Failed to derive shared secret"
        | some session => .ok (minimal ((session.array.drop 1).take 32))
    | .WA => err .unsupported "Cannot derive WA shared secrets"

/-- The order of nist256p1. -/
def p256Order : Bytes := [
  0xff, 0xff, 0xff, 0xff, 0x00, 0x00, 0x00, 0x00, 0xff, 0xff, 0xff, 0xff, 0xff, 0xff, 0xff, 0xff,
  0xbc, 0xe6, 0xfa, 0xad, 0xa7, 0x17, 0x9e, 0x84, 0xf3, 0xb9, 0xca, 0xc2, 0xfc, 0x63, 0x25, 0x51]

/-- Whether a draw is a key. -/
def validKey (type : KeyType) (key : Bytes) : Bool :=
  if type = .K1 then curves.k1SeckeyVerify key
  else key.any (· ≠ 0) ∧ compareBE key p256Order < 0

/-- A round of the loop of `generate`: a draw that is no key is passed over. -/
def generateRound (type : KeyType) (draw : Result Checksum256) : Result (Option Checksum256) := do
  let key ← draw
  return if curves.validKey type key.array then some key else none

/-- `crypto::generate`, over what `secureRandom(32)` gives each time: eight draws. -/
def generate (draws : ℕ → Result Checksum256) (type : KeyType) : Result Checksum256 :=
  Retry.loop (curves.generateRound type)
    { kind := .internal, message := "Failed to generate valid private key" }
    ((List.range 8).map draws)

end Curves

/-- The curves with the digests of `core/hash.hpp`. -/
structure Primitives extends Curves where
  sha256 : Bytes → Checksum256
  ripemd160 : Bytes → Checksum160
  sha512 : Bytes → Checksum512

/-- The primitives as the values of keys and signatures call them. -/
def Primitives.toCrypto (primitives : Primitives) : Crypto where
  sha256 := primitives.sha256
  ripemd160 := primitives.ripemd160
  recover := primitives.toCurves.recover

/-- `Signature::from`. -/
def Signature.ofParts (parts : SignatureParts) : Signature where
  type := parts.type
  data := (if parts.type = .K1 ∨ parts.type = .R1 then parts.recid + 31 else parts.recid).toUInt8 ::
    (parts.r.array ++ parts.s.array)

namespace PrivateKey

/-- `PrivateKey::signDigest`. -/
def signDigest (curves : Curves) (k : PrivateKey) (digest : Checksum256) : Result Signature := do
  let parts ← curves.sign k.data digest.array k.type
  return Signature.ofParts parts

/-- `PrivateKey::toPublic`. -/
def toPublic (curves : Curves) (k : PrivateKey) : Result PublicKey := do
  let compressed ← curves.getPublic k.data k.type
  return { type := k.type, data := compressed.array }

/-- `PrivateKey::sharedSecret`. -/
def sharedSecret (primitives : Primitives) (k : PrivateKey) (publicKey : PublicKey) :
    Result Checksum512 := do
  let shared ← primitives.toCurves.sharedSecret k.data publicKey.data k.type
  return primitives.sha512 shared

/-- `PrivateKey::generate`. -/
def generate (curves : Curves) (draws : ℕ → Result Checksum256) (type : KeyType) :
    Result PrivateKey := do
  let key ← curves.generate draws type
  if isAllZero key.array then
    err .internal "Failed to generate valid private key: Maximum retries exceeded"
  else return { type, data := key.array }

end PrivateKey

namespace Curves

variable {curves : Curves}

/-! ## The first canonical signature -/

/-- A number that is canonical as a half of a signature: it takes 32 bytes, and no sign byte. -/
def CanonicalHalf (v : Checksum256) : Prop :=
  2 ^ 247 ≤ bytesValue v.array ∧ bytesValue v.array < 2 ^ 255

theorem canonicalHalf_iff (v : Checksum256) : canonicalHalf v = true ↔ CanonicalHalf v := by
  have hbit (b : UInt8) : b &&& 0x80 = 0 ↔ b.toNat < 128 :=
    Wire.forall_byte (P := fun b => b &&& 0x80 = 0 ↔ b.toNat < 128) (by decide +kernel) b
  have hzero (b : UInt8) : b = 0 ↔ b.toNat = 0 := UInt8.toNat_inj.symm
  obtain ⟨array, hsize⟩ := v
  obtain ⟨v0, v1, rest, rfl⟩ : ∃ v0 v1 rest, array = v0 :: v1 :: rest := by
    match array, hsize with
    | v0 :: v1 :: rest, _ => exact ⟨v0, v1, rest, rfl⟩
  have hlen : rest.length = 30 := by
    simpa using hsize
  have hrest := bytesValue_lt rest
  have h0 := v0.toNat_lt
  have h1 := v1.toNat_lt
  have hvalue : bytesValue (v0 :: v1 :: rest) =
      v0.toNat * 256 ^ 31 + (v1.toNat * 256 ^ 30 + bytesValue rest) := by
    rw [bytesValue_cons, bytesValue_cons, List.length_cons, hlen]
  rw [hlen] at hrest
  unfold canonicalHalf CanonicalHalf
  rw [hvalue]
  simp only [List.getD_cons_zero, List.getD_cons_succ, hbit, hzero, decide_eq_true_eq]
  omega

theorem canonical_iff (r s : Checksum256) :
    canonical r s = true ↔ CanonicalHalf r ∧ CanonicalHalf s := by
  rw [canonical, decide_eq_true_iff, canonicalHalf_iff, canonicalHalf_iff]

/-- A round that is accepted. -/
theorem signRound_eq_some_iff {secret message : Bytes} {attempt : UInt8} {parts : SignatureParts} :
    curves.signRound secret message attempt = .ok (some parts) ↔ parts.type = .K1 ∧
      curves.k1Attempt secret message attempt = some (parts.r, parts.s, parts.recid) ∧
      CanonicalHalf parts.r ∧ CanonicalHalf parts.s := by
  unfold signRound
  cases curves.k1Attempt secret message attempt with
  | none => exact ⟨fun h => (by cases h), fun h => (by cases h.2.1)⟩
  | some answer =>
    obtain ⟨r, s, recid⟩ := answer
    simp only
    split
    · rename_i hcanonical
      constructor
      · intro h
        cases h
        exact ⟨rfl, rfl, (canonical_iff r s).mp hcanonical⟩
      · rintro ⟨htype, hanswer, -⟩
        cases hanswer
        rw [← htype]
    · rename_i hcanonical
      refine ⟨fun h => (by cases h), ?_⟩
      rintro ⟨-, hanswer, hboth⟩
      cases hanswer
      exact absurd ((canonical_iff _ _).mpr hboth) hcanonical

/-- A round that is passed over. -/
theorem signRound_eq_none_iff {secret message : Bytes} {attempt : UInt8} :
    curves.signRound secret message attempt = .ok none ↔ ∃ r s recid,
      curves.k1Attempt secret message attempt = some (r, s, recid) ∧
      ¬ (CanonicalHalf r ∧ CanonicalHalf s) := by
  unfold signRound
  cases curves.k1Attempt secret message attempt with
  | none => exact ⟨fun h => (by cases h), fun ⟨_, _, _, h, _⟩ => (by cases h)⟩
  | some answer =>
    obtain ⟨r, s, recid⟩ := answer
    simp only
    split
    · rename_i hcanonical
      refine ⟨fun h => (by cases h), ?_⟩
      rintro ⟨_, _, _, hanswer, hnot⟩
      cases hanswer
      exact absurd ((canonical_iff r s).mp hcanonical) hnot
    · rename_i hcanonical
      exact ⟨fun _ => ⟨r, s, recid, rfl, mt (canonical_iff r s).mpr hcanonical⟩, fun _ => rfl⟩

theorem getElem?_attempts (i : ℕ) (attempt : UInt8) :
    attempts[i]? = some attempt ↔ i < 255 ∧ attempt = (i + 1).toUInt8 := by
  rw [attempts, List.getElem?_map, Option.map_eq_some_iff]
  constructor
  · rintro ⟨k, hk, rfl⟩
    obtain ⟨hlt, hk⟩ := List.getElem?_eq_some_iff.mp hk
    rw [List.length_range] at hlt
    rw [List.getElem_range] at hk
    exact ⟨hk ▸ hlt, by rw [hk]⟩
  · rintro ⟨hlt, rfl⟩
    exact ⟨i, by rw [List.getElem?_range hlt], rfl⟩

/-- **K1 signatures are canonical.**  What `sign` returns is the answer of the library at the first
attempt, of 255, whose halves take 32 bytes without a sign byte, all attempts before having been
answered otherwise. -/
theorem sign_k1_eq_ok_iff (secret message : Bytes) (parts : SignatureParts) :
    curves.sign secret message .K1 = .ok parts ↔
      secret.length = 32 ∧ message.length = 32 ∧ parts.type = .K1 ∧ ∃ i < 255,
        curves.k1Attempt secret message (i + 1).toUInt8 = some (parts.r, parts.s, parts.recid) ∧
        CanonicalHalf parts.r ∧ CanonicalHalf parts.s ∧
        ∀ j < i, ∃ r s recid, curves.k1Attempt secret message (j + 1).toUInt8 = some (r, s, recid) ∧
          ¬ (CanonicalHalf r ∧ CanonicalHalf s) := by
  unfold sign
  split
  · rename_i hlen
    refine ⟨fun h => (by cases h), ?_⟩
    rintro ⟨hsecret, hmessage, -⟩
    exact absurd hlen (not_or.mpr ⟨not_not.mpr hsecret, not_not.mpr hmessage⟩)
  · rename_i hlen
    obtain ⟨hsecret, hmessage⟩ := not_or.mp hlen
    refine (Retry.loop_eq_ok_iff attempts).trans ?_
    constructor
    · rintro ⟨i, attempt, hfirst⟩
      obtain ⟨hlt, rfl⟩ := (getElem?_attempts i attempt).mp hfirst.at_index
      obtain ⟨htype, hanswer, hr, hs⟩ := signRound_eq_some_iff.mp hfirst.accepted
      refine ⟨not_not.mp hsecret, not_not.mp hmessage, htype, i, hlt, hanswer, hr, hs, ?_⟩
      intro j hj
      obtain ⟨earlier, hearlier, hpassed⟩ := hfirst.passed j hj
      obtain ⟨-, rfl⟩ := (getElem?_attempts j earlier).mp hearlier
      exact signRound_eq_none_iff.mp hpassed
    · rintro ⟨-, -, htype, i, hlt, hanswer, hr, hs, hearlier⟩
      refine ⟨i, _, (getElem?_attempts i _).mpr ⟨hlt, rfl⟩,
        signRound_eq_some_iff.mpr ⟨htype, hanswer, hr, hs⟩, ?_⟩
      intro j hj
      exact ⟨_, (getElem?_attempts j _).mpr ⟨by omega, rfl⟩,
        signRound_eq_none_iff.mpr (hearlier j hj)⟩

/-! ## The key of a signature -/

/-- What the libraries promise: a signature that was made is recovered to the key that made it. -/
structure Recovers (curves : Curves) : Prop where
  k1 : ∀ message secret nonce r s recid, curves.k1Sign message secret nonce = some (r, s, recid) →
    recid ≤ 3 ∧ curves.k1ParsesCompact r s recid = true ∧ ∃ key,
      curves.k1Public secret = some key ∧ curves.k1Recover r s recid message = some key
  r1 : ∀ secret message r s pby, curves.r1Sign secret message = some (r, s, pby) →
    pby ≤ 3 ∧ ∃ uncompressed key, curves.r1Public secret = some key ∧
      curves.r1Recover (r.array ++ s.array) message pby = some uncompressed ∧
      key.array = compress uncompressed

theorem slice32_head (b : UInt8) (r : Checksum256) (rest : Bytes) :
    slice32 (b :: (r.array ++ rest)) 1 = r := by
  have htake : ((b :: (r.array ++ rest)).drop 1).take 32 = r.array := by
    rw [List.drop_one, List.tail_cons, List.take_left' r.size_eq]
  unfold slice32
  rw [dif_pos (by rw [htake, r.size_eq])]
  exact Checksum.ext_array htake

theorem slice32_last (b : UInt8) (r s : Checksum256) :
    slice32 (b :: (r.array ++ s.array)) 33 = s := by
  have htake : ((b :: (r.array ++ s.array)).drop 33).take 32 = s.array := by
    rw [List.drop_succ_cons, List.drop_left' r.size_eq, List.take_of_length_le s.size_eq.le]
  unfold slice32
  rw [dif_pos (by rw [htake, s.size_eq])]
  exact Checksum.ext_array htake

/-- The first byte of a signature is read back as the recovery id. -/
theorem recid_of_header {recid : ℕ} (h : recid ≤ 3) :
    ((recid + 31).toUInt8.toNat : ℤ) - 31 = recid := by
  rw [UInt8.toNat_ofNat_of_lt' (by show recid + 31 < 256; omega)]
  omega

/-- **A signature names the key that made it**, and is well formed. -/
theorem recover_sign (h : curves.Recovers) {secret : Bytes} {digest : Checksum256} {type : KeyType}
    {parts : SignatureParts} (hsign : curves.sign secret digest.array type = .ok parts) :
    parts.type = type ∧ type ≠ .WA ∧ (Signature.ofParts parts).data.length = 65 ∧ ∃ key : Compressed,
      curves.getPublic secret type = .ok key ∧
      curves.recover (Signature.ofParts parts).data digest type = .ok key.array := by
  have hsize : (Signature.ofParts parts).data.length = 65 := by
    rw [Signature.ofParts, List.length_cons, List.length_append, parts.r.size_eq, parts.s.size_eq]
  have hshort : ¬ (Signature.ofParts parts).data.length < 65 := by omega
  unfold sign at hsign
  split at hsign
  · cases hsign
  · rename_i hlen
    obtain ⟨hsecret, -⟩ := not_or.mp hlen
    cases type with
    | K1 =>
      obtain ⟨i, attempt, hfirst⟩ := (Retry.loop_eq_ok_iff attempts).mp hsign
      obtain ⟨htype, hanswer, -⟩ := signRound_eq_some_iff.mp hfirst.accepted
      obtain ⟨hrecid, hparses, key, hkey, hrecover⟩ := h.k1 _ _ _ _ _ _ hanswer
      refine ⟨htype, by decide, hsize, key, ?_, ?_⟩
      · rw [getPublic, if_neg hsecret, if_pos rfl, hkey]
      · have hheader := recid_of_header hrecid
        unfold recover
        rw [if_neg (by decide), if_neg hshort]
        simp only [Signature.ofParts, htype, true_or, if_true, List.getD_cons_zero, hheader,
          slice32_head, slice32_last, Int.toNat_natCast, hparses, not_true_eq_false, if_false,
          hrecover]
        rw [if_neg (by omega)]
    | R1 =>
      cases hanswer : curves.r1Sign secret digest.array with
      | none => simp only [hanswer] at hsign; cases hsign
      | some answer =>
        obtain ⟨r, s, pby⟩ := answer
        simp only [hanswer] at hsign
        cases hsign
        obtain ⟨hpby, uncompressed, key, hkey, hrecover, hcompress⟩ := h.r1 _ _ _ _ _ hanswer
        refine ⟨rfl, by decide, hsize, key, ?_, ?_⟩
        · rw [getPublic, if_neg hsecret, if_neg (by decide), hkey]
        · have hheader := recid_of_header hpby
          have hcompact : (((pby + 31).toUInt8 :: (r.array ++ s.array)).drop 1).take 64 =
              r.array ++ s.array := by
            rw [List.drop_one, List.tail_cons]
            apply List.take_of_length_le
            rw [List.length_append, r.size_eq, s.size_eq]
          unfold recover
          rw [if_neg (by decide), if_neg hshort]
          simp only [Signature.ofParts, reduceCtorEq, or_true, if_true, if_false,
            List.getD_cons_zero, hheader, Int.toNat_natCast, hcompact, hrecover, hcompress]
          rw [if_neg (by omega)]
    | WA => cases hsign

/-! ## Draws of a key -/

theorem generateRound_eq_ok_iff {type : KeyType} {draw : Result Checksum256}
    {answer : Option Checksum256} : curves.generateRound type draw = .ok answer ↔ ∃ key,
      draw = .ok key ∧ answer = if curves.validKey type key.array then some key else none := by
  cases draw with
  | error e => exact ⟨fun h => (by cases h), fun ⟨_, h, _⟩ => (by cases h)⟩
  | ok key =>
    constructor
    · intro h
      cases h
      exact ⟨key, rfl, rfl⟩
    · rintro ⟨_, h, rfl⟩
      cases h
      rfl

/-- **The key that is generated** is the first valid one of at most eight draws. -/
theorem generate_eq_ok_iff {type : KeyType} {key : Checksum256} (draws : ℕ → Result Checksum256) :
    curves.generate draws type = .ok key ↔ ∃ i < 8, draws i = .ok key ∧
      curves.validKey type key.array = true ∧
      ∀ j < i, ∃ earlier, draws j = .ok earlier ∧ curves.validKey type earlier.array = false := by
  have hdraw (i : ℕ) (draw : Result Checksum256) :
      ((List.range 8).map draws)[i]? = some draw ↔ i < 8 ∧ draws i = draw := by
    rw [List.getElem?_map, Option.map_eq_some_iff]
    constructor
    · rintro ⟨k, hk, rfl⟩
      obtain ⟨hlt, hk⟩ := List.getElem?_eq_some_iff.mp hk
      rw [List.length_range] at hlt
      rw [List.getElem_range] at hk
      exact ⟨hlt, by rw [hk]⟩
    · rintro ⟨hlt, rfl⟩
      exact ⟨i, by rw [List.getElem?_range hlt], rfl⟩
  refine (Retry.loop_eq_ok_iff _).trans ⟨?_, ?_⟩
  · rintro ⟨i, draw, hfirst⟩
    obtain ⟨hlt, rfl⟩ := (hdraw i draw).mp hfirst.at_index
    obtain ⟨found, hfound, hanswer⟩ := generateRound_eq_ok_iff.mp hfirst.accepted
    split at hanswer
    · rename_i hvalid
      cases hanswer
      refine ⟨i, hlt, hfound, hvalid, ?_⟩
      intro j hj
      obtain ⟨draw, hdraw', hpassed⟩ := hfirst.passed j hj
      obtain ⟨-, rfl⟩ := (hdraw j draw).mp hdraw'
      obtain ⟨earlier, hearlier, hanswer⟩ := generateRound_eq_ok_iff.mp hpassed
      refine ⟨earlier, hearlier, ?_⟩
      by_contra hvalid
      rw [if_pos (Bool.eq_true_of_not_eq_false hvalid)] at hanswer
      cases hanswer
    · cases hanswer
  · rintro ⟨i, hlt, hkey, hvalid, hearlier⟩
    refine ⟨i, draws i, (hdraw i _).mpr ⟨hlt, rfl⟩, ?_, ?_⟩
    · exact generateRound_eq_ok_iff.mpr ⟨key, hkey, by rw [if_pos hvalid]⟩
    · intro j hj
      obtain ⟨earlier, hdraw', hinvalid⟩ := hearlier j hj
      refine ⟨draws j, (hdraw j _).mpr ⟨by omega, rfl⟩, ?_⟩
      exact generateRound_eq_ok_iff.mpr ⟨earlier, hdraw', by rw [hinvalid, if_neg (by decide)]⟩

end Curves

/-- The point of the key whose bytes are 1 to 32. -/
def countingPoint : Compressed :=
  ⟨[0x02, 0x84, 0xbf, 0x75, 0x62, 0x26, 0x2b, 0xbd, 0x69, 0x40, 0x08, 0x57, 0x48, 0xf3, 0xbe, 0x6a,
    0xfa, 0x52, 0xae, 0x31, 0x71, 0x55, 0x18, 0x1e, 0xce, 0x31, 0xb6, 0x63, 0x51, 0xcc, 0xff, 0xa4,
    0xb0], rfl⟩

end Dwarfkit
