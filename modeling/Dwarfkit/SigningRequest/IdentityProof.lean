/-
# Identity proofs

`IdentityProof` of `signing_request/identity_proof.hpp`: a signature over the
identity transaction of a scope and signer, checked against an authority.

* `hasPermission_and_verify_iff` : when the permission check decides the full
  permission, and when an accepted proof was signed by a listed key in time.
-/
import Dwarfkit.Antelope.Chain.Authority

namespace Dwarfkit

/-- `ChainId`: a checksum under its own typedef. -/
abbrev ChainId := Checksum256

/-- `IdentityV3`. -/
structure IdentityV3 where
  scope : Name := {}
  permission : Option PermissionLevel := none
  deriving DecidableEq, Repr

/-- `abi_traits<IdentityV3>`, the part that encodes. -/
def IdentityV3.toABI (v : IdentityV3) : Result Bytes := do
  let scope ← AbiTraits.name.toABI v.scope
  let permission ← AbiTraits.permissionLevel.optional.toABI v.permission
  return scope ++ permission

structure IdentityProof where
  chainId : ChainId
  scope : Name
  expiration : TimePointSec
  signer : PermissionLevel
  signature : Signature
  deriving DecidableEq

namespace IdentityProof

/-- `transaction`: the transaction this proof resolves to. -/
def transaction (proof : IdentityProof) : Result Transaction := do
  let data ← IdentityV3.toABI { scope := proof.scope, permission := some proof.signer }
  let action : Action := {
    account := .ofString ""
    name := .ofString "identity"
    authorization := [proof.signer]
    data }
  return { expiration := proof.expiration, actions := [action] }

/-- `recover`: the public key that signed this proof. -/
def recover (crypto : Crypto) (proof : IdentityProof) : Result PublicKey := do
  let tx ← proof.transaction
  proof.signature.recoverDigest crypto (tx.signingDigest crypto proof.chainId)

/-- `verify`, with the current time in milliseconds. -/
def verify (crypto : Crypto) (proof : IdentityProof) (auth : Authority) (now : ℤ) : Result Bool :=
  if proof.expiration.toMilliseconds ≤ now then .ok false
  else do
    let key ← proof.recover crypto
    return auth.hasPermission key

/-- What an accepted proof should mean: before its expiration, signed by a key the
authority lists. -/
def SignedByListedKey (crypto : Crypto) (proof : IdentityProof) (auth : Authority) (now : ℤ) :
    Prop :=
  now < proof.expiration.toMilliseconds ∧
    ∃ key, proof.recover crypto = .ok key ∧ ∃ kw ∈ auth.keys, kw.key = key

/-- A proof is accepted exactly when it is in time and its recovered key passes. -/
theorem verify_eq_ok_true_iff (crypto : Crypto) (proof : IdentityProof) (auth : Authority)
    (now : ℤ) :
    proof.verify crypto auth now = .ok true ↔
      now < proof.expiration.toMilliseconds ∧
        ∃ key, proof.recover crypto = .ok key ∧ auth.hasPermission key = true := by
  unfold verify
  by_cases hlate : proof.expiration.toMilliseconds ≤ now
  · rw [if_pos hlate]
    constructor
    · intro h
      cases h
    · rintro ⟨hnow, -⟩
      omega
  · rw [if_neg hlate, bind_eq_ok]
    constructor
    · rintro ⟨key, hkey, h⟩
      exact ⟨by omega, key, hkey, Except.ok.inj h⟩
    · rintro ⟨-, key, hkey, h⟩
      exact ⟨key, hkey, by rw [h]; rfl⟩

/-- An entry is found exactly for a listed key. -/
theorem exists_listed_iff (auth : Authority) (key : PublicKey) :
    (∃ kw ∈ auth.keys, kw.key = key) ↔ ∃ kw, auth.keyEntry key = some kw := by
  unfold Authority.keyEntry
  rw [← Option.isSome_iff_exists, List.find?_isSome]
  simp

/-- An accepted proof is signed by a listed key exactly when it is not the case that
it is in time, its key is unlisted, and the waits come to the threshold. -/
theorem verify_sound_iff (crypto : Crypto) (proof : IdentityProof) (auth : Authority) (now : ℤ) :
    (proof.verify crypto auth now = .ok true → SignedByListedKey crypto proof auth now) ↔
      ∀ key, now < proof.expiration.toMilliseconds → proof.recover crypto = .ok key →
        auth.keyEntry key = none → auth.waitTotal % 2 ^ 32 ≠ auth.threshold.toNat := by
  rw [verify_eq_ok_true_iff]
  constructor
  · intro h key hnow hkey hnone heq
    have hpass : auth.hasPermission key = true := by
      rw [Authority.hasPermission_eq_true_iff, heq]
      simp
    obtain ⟨-, key', hkey', hlisted⟩ := h ⟨hnow, key, hkey, hpass⟩
    obtain rfl : key = key' := Except.ok.inj (hkey.symm.trans hkey')
    obtain ⟨kw, hkw⟩ := (exists_listed_iff auth key).mp hlisted
    rw [hnone] at hkw
    cases hkw
  · rintro h ⟨hnow, key, hkey, hpass⟩
    refine ⟨hnow, key, hkey, (exists_listed_iff auth key).mpr ?_⟩
    cases hentry : auth.keyEntry key with
    | some kw => exact ⟨kw, rfl⟩
    | none =>
      have hfits : auth.ThresholdFits key := by
        unfold Authority.ThresholdFits
        rw [hentry]
        exact h key hnow hkey hentry
      obtain ⟨kw, hkw, -⟩ := ((Authority.hasPermission_correct_iff auth key).mpr hfits).mp hpass
      rw [hentry] at hkw
      cases hkw

/-- **Authority and proof checks.**  For every authority, the permission check of a
key decides its full permission exactly when the threshold fits; and an accepted
proof is signed by a listed key exactly when no in-time, unlisted key meets waits
that come to the threshold. -/
theorem hasPermission_and_verify_iff (crypto : Crypto) (auth : Authority) :
    (∀ publicKey, (auth.hasPermission publicKey = true ↔ auth.FullPermission publicKey) ↔
      auth.ThresholdFits publicKey) ∧
    (∀ (proof : IdentityProof) (now : ℤ),
      (proof.verify crypto auth now = .ok true → SignedByListedKey crypto proof auth now) ↔
        ∀ key, now < proof.expiration.toMilliseconds → proof.recover crypto = .ok key →
          auth.keyEntry key = none → auth.waitTotal % 2 ^ 32 ≠ auth.threshold.toNat) :=
  ⟨fun publicKey => auth.hasPermission_correct_iff publicKey,
   fun proof now => verify_sound_iff crypto proof auth now⟩

/-- An authority of threshold 1 with a wait of weight 1 and no keys lets any key
pass. -/
theorem hasPermission_unlisted_key :
    let auth : Authority := { threshold := 1, waits := [{ wait_sec := 60, weight := 1 }] }
    let key : PublicKey := { type := .K1, data := List.replicate 33 2 }
    ¬ (auth.hasPermission key = true ↔ auth.FullPermission key) := by
  intro auth key h
  obtain ⟨kw, hkw, -⟩ := h.mp (by decide)
  cases hkw

end IdentityProof

end Dwarfkit
