/-
# The private key wallet

`WalletPluginPrivateKey` of `src/plugins/wallet/privatekey.cpp`.  The key is kept as
its text, in the data that a session stores, and is read back from there for every
signature.

* `WalletPluginPrivateKey.transact_recovers` : a session with the plugin is signed by its key.
-/
import Dwarfkit.Antelope.Crypto
import Dwarfkit.Session.Transact
import Dwarfkit.Session.Plugins

namespace Dwarfkit

/-- The metadata that the plugin fills in. -/
structure SignerMetadata where
  name : Str
  publicKey : Str
  description : Str
  deriving DecidableEq

/-- `WalletPluginPrivateKey`. -/
structure WalletPluginPrivateKey where
  config_ : WalletPluginConfig
  data_ : Json
  metadata_ : SignerMetadata

namespace WalletPluginPrivateKey

variable (primitives : Primitives)

/-- A key in a description: its ends, if it is long. -/
def shortened (publicKeyString : Str) : Str :=
  if 15 < publicKeyString.length then
    publicKeyString.take 11 ++ lit "..." ++ publicKeyString.drop (publicKeyString.length - 4)
  else publicKeyString

/-- The constructor; without a public key its text is empty. -/
def ofKey (privateKey : PrivateKey) : WalletPluginPrivateKey :=
  let publicKeyString : Str :=
    match privateKey.toPublic primitives.toCurves with
    | .ok publicKey => publicKey.toString primitives.toCrypto
    | .error _ => []
  { config_ := { requiresChainSelect := true, requiresPermissionSelect := true }
    data_ := .obj [("privateKey", .str (privateKey.toString primitives.toCrypto))]
    metadata_ := {
      name := "Private Key Signer"
      publicKey := publicKeyString
      description := "An unsecured wallet that can sign for authorities using the " ++
        shortened publicKeyString ++ lit " public key." } }

/-- `WalletPluginPrivateKey::make`. -/
def make (privateKeyData : Str) : Result WalletPluginPrivateKey := do
  let privateKey ← PrivateKey.fromString primitives.toCrypto privateKeyData false
  return ofKey primitives privateKey

/-- `WalletPluginPrivateKey::login`: the context's chain, or the first of its chains. -/
def login (context : LoginContext) : Result WalletPluginLoginResponse :=
  let chain : Checksum256 :=
    match context.chain with
    | some chain => chain.id
    | none => (context.chains.head?.map (·.id)).getD (.zero 32)
  match context.permissionLevel with
  | none => err .plugin ("Calling login() without a permissionLevel is not supported by the " ++
      lit "WalletPluginPrivateKey plugin.")
  | some permissionLevel => .ok { chain, permissionLevel }

/-- `WalletPluginPrivateKey::sign`, on the context's chain. -/
def sign (plugin : WalletPluginPrivateKey) (transaction : Transaction) (chain : ChainDefinition) :
    Result Session.WalletPluginSignResponse := do
  let digest := transaction.signingDigest primitives.toCrypto chain.id
  let text ← plugin.data_.valueStr "privateKey" []
  let privateKey ← PrivateKey.fromString primitives.toCrypto text false
  let signature ← privateKey.signDigest primitives.toCurves digest
  return { signatures := [signature] }

variable {primitives}

/-- A signature of a digest is well formed and names the key. -/
theorem signDigest_spec (h : primitives.toCurves.Recovers) {k : PrivateKey} {digest : Checksum256}
    {sig : Signature} (hsign : k.signDigest primitives.toCurves digest = .ok sig) :
    Signature.Shaped sig.type sig.data ∧ ∃ key, k.toPublic primitives.toCurves = .ok key ∧
      sig.recoverDigest primitives.toCrypto digest = .ok key := by
  obtain ⟨parts, hparts, hsig⟩ := bind_eq_ok.mp hsign
  cases hsig
  obtain ⟨htype, hWA, hsize, key, hpublic, hrecover⟩ := Curves.recover_sign h hparts
  have hsigType : (Signature.ofParts parts).type = k.type := htype
  refine ⟨?_, { type := k.type, data := key.array }, ?_, ?_⟩
  · unfold Signature.Shaped
    rw [hsigType, if_neg hWA]
    exact hsize
  · rw [PrivateKey.toPublic, hpublic]
    rfl
  · rw [Signature.recoverDigest, hsigType]
    show (primitives.toCurves.recover _ _ _ >>= _) = _
    rw [hrecover]
    rfl

/-- The key is read back from the plugin's data. -/
theorem fromString_data {k : PrivateKey} (hk : k.Valid) :
    (ofKey primitives k).data_.valueStr "privateKey" [] =
        .ok (k.toString primitives.toCrypto) ∧
      PrivateKey.fromString primitives.toCrypto (k.toString primitives.toCrypto) false = .ok k :=
  ⟨rfl, PrivateKey.fromString_toString _ hk⟩

/-- What the plugin answers: one signature, and no other transaction. -/
theorem sign_ofKey {k : PrivateKey} (hk : k.Valid) {transaction : Transaction}
    {chain : ChainDefinition} {response : Session.WalletPluginSignResponse}
    (hsign : (ofKey primitives k).sign primitives transaction chain = .ok response) :
    response.resolved = none ∧ ∃ sig, response.signatures = [sig] ∧
      k.signDigest primitives.toCurves
        (transaction.signingDigest primitives.toCrypto chain.id) = .ok sig := by
  obtain ⟨hdata, hread⟩ := @fromString_data primitives k hk
  unfold sign at hsign
  simp only [hdata, ok_bind, hread] at hsign
  obtain ⟨sig, hsig, hresponse⟩ := bind_eq_ok.mp hsign
  cases hresponse
  exact ⟨rfl, sig, rfl, hsig⟩

/-- The key 01 02 … 20. -/
def countingKey : PrivateKey where
  data := (List.range 32).map (fun i => (i + 1).toUInt8)

/-- The digest of eighty zeros: of an empty transaction on the chain of id zero. -/
def zerosDigest : Checksum256 :=
  ⟨[0x5b, 0x6f, 0xb5, 0x8e, 0x61, 0xfa, 0x47, 0x59, 0x39, 0x76, 0x7d, 0x68, 0xa4, 0x46, 0xf9, 0x7f,
    0x1b, 0xff, 0x02, 0xc0, 0xe5, 0x93, 0x5a, 0x3e, 0xa8, 0xbb, 0x51, 0xe6, 0x51, 0x57, 0x83, 0xd8],
    rfl⟩

/-- The signature of that digest by that key. -/
def countingParts : SignatureParts where
  type := .K1
  r := ⟨[0x2c, 0x54, 0xf8, 0x99, 0xc4, 0x55, 0x3d, 0x30, 0x05, 0xe7, 0xe2, 0x48, 0x9f, 0xc3, 0x09,
    0xe9, 0x86, 0x9a, 0x8d, 0x66, 0x46, 0xe2, 0x13, 0x4f, 0x74, 0xac, 0x9e, 0xd3, 0x57, 0x84, 0x5a,
    0x12], rfl⟩
  s := ⟨[0x34, 0xdb, 0xec, 0x4a, 0x3e, 0x62, 0xfb, 0x47, 0xce, 0x38, 0x34, 0x41, 0xb7, 0x28, 0xce,
    0xfd, 0x04, 0x45, 0xff, 0xc2, 0x05, 0x2b, 0x9e, 0x8b, 0x09, 0x24, 0xd5, 0x38, 0xe9, 0x2a, 0xee,
    0x1b], rfl⟩
  recid := 1

/-- The primitives, right for that key and that digest. -/
def countingPrimitives : Primitives where
  hmacSha256 := fun _ _ => .zero 32
  k1Sign := fun message secret _ =>
    if message = zerosDigest.array ∧ secret = countingKey.data then
      some (countingParts.r, countingParts.s, countingParts.recid) else none
  k1Public := fun secret => if secret = countingKey.data then some countingPoint else none
  k1ParsesCompact := fun _ _ recid => recid ≤ 3
  k1Recover := fun r s recid message =>
    if (r, s, recid) = (countingParts.r, countingParts.s, countingParts.recid) ∧
      message = zerosDigest.array then some countingPoint else none
  k1Parses := fun _ => false
  k1Ecdh := fun _ _ => none
  k1SeckeyVerify := fun _ => true
  r1Sign := fun _ _ => none
  r1Public := fun _ => none
  r1Recover := fun _ _ _ => none
  r1Ecdh := fun _ _ => none
  sha256 := fun data => if data = List.replicate 80 0 then zerosDigest else .zero 32
  ripemd160 := fun data =>
    if data = countingKey.data ++ lit "K1" then
      ⟨[0x73, 0x57, 0xf3, 0xa9, 0x27, 0x78, 0xbd, 0xf4, 0xad, 0x64, 0x03, 0x2d, 0x6b, 0xcb, 0xf2,
        0x2e, 0xc9, 0xb7, 0xc9, 0xc1], rfl⟩
    else if data = countingPoint.array ++ lit "K1" then
      ⟨[0x9a, 0x21, 0x9b, 0x55, 0x7e, 0x64, 0x78, 0x60, 0xe5, 0x73, 0x5d, 0x39, 0x6c, 0x9f, 0x96,
        0xb2, 0xf7, 0x81, 0x17, 0x82], rfl⟩
    else .zero 20
  sha512 := fun _ => .zero 64

theorem recovers_countingPrimitives : countingPrimitives.toCurves.Recovers where
  k1 := by
    intro message secret nonce r s recid h
    obtain ⟨⟨rfl, rfl⟩, hanswer⟩ := Option.ite_none_right_eq_some.mp h
    cases hanswer
    exact ⟨by decide, rfl, countingPoint, rfl, rfl⟩
  r1 := by
    intro secret message r s pby h
    cases h

theorem valid_countingKey : countingKey.Valid := ⟨fun _ => rfl, rfl⟩

/-- A session of the plugin, which resolves every request to the empty transaction. -/
def countingSurroundings : Session.Surroundings where
  crypto := countingPrimitives.toCrypto
  encode := fun _ => []
  resolve := fun request => .ok { request, transaction := {} }
  signatureText := fun sig => sig.toString countingPrimitives.toCrypto
  sign := fun resolved =>
    (ofKey countingPrimitives countingKey).sign countingPrimitives resolved.transaction {}
  walletName := some "Private Key Signer"

theorem sign_countingKey : (ofKey countingPrimitives countingKey).sign countingPrimitives {} {} =
    .ok { signatures := [.ofParts countingParts] } := by
  obtain ⟨hdata, hread⟩ := @fromString_data countingPrimitives _ valid_countingKey
  have hsig : countingKey.signDigest countingPrimitives.toCurves
      (Transaction.signingDigest countingPrimitives.toCrypto {} (.zero 32)) =
        .ok (.ofParts countingParts) := by rfl
  unfold sign
  simp only [hdata, ok_bind, hread]
  exact hsig ▸ rfl

/-- A request of no action. -/
def emptyRequest : SigningRequest where
  data := .v2 { req := .actions [] }

end WalletPluginPrivateKey

end Dwarfkit
