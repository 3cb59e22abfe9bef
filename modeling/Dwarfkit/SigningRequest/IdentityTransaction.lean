/-
# The transaction of an identity proof

`ResolvedSigningRequest::getIdentityProof` keeps the parts of a resolved identity request, of
which `IdentityProof::transaction` builds the transaction again; `toString` and `fromString`
carry a proof in the text of an authorization header.

* `transaction_getIdentityProof_iff` : when the transaction is the one that was resolved;
* `fromString_toString_iff` : when a proof is read back from its text;
* `identityProof_consistent_iff` : both, for an identity request of version 3.
-/
import Dwarfkit.Antelope.Serializer.KeyText
import Dwarfkit.SigningRequest.Abi
import Dwarfkit.SigningRequest.Base64u
import Dwarfkit.SigningRequest.Resolve

namespace Dwarfkit

open Wire

/-! ## Proofs of resolved requests -/

namespace SigningRequest

/-- `getIdentityScope`. -/
def getIdentityScope (request : SigningRequest) : Option Name :=
  if request.isIdentity = false ∨ request.version ≤ 2 then none
  else match request.data with
    | .v3 { req := .identity identity, .. } => some identity.scope
    | _ => none

end SigningRequest

namespace ResolvedSigningRequest

/-- `getIdentityProof`: without a scope, the empty name. -/
def getIdentityProof (resolved : ResolvedSigningRequest) (sig : Signature) : Result IdentityProof :=
  if resolved.request.isIdentity = false then err .invalid "Not a identity request"
  else .ok {
    chainId := resolved.chainId
    scope := resolved.request.getIdentityScope.getD {}
    expiration := resolved.transaction.expiration
    signer := resolved.signer
    signature := sig }

/-- The proof stands for the transaction that was resolved, and so its key is recovered from
the digest of that. -/
def ProofFits (crypto : Crypto) (resolved : ResolvedSigningRequest) (sig : Signature) : Prop :=
  ∃ proof, resolved.getIdentityProof sig = .ok proof ∧
    proof.transaction = .ok resolved.transaction ∧
    proof.recover crypto =
      sig.recoverDigest crypto (resolved.transaction.signingDigest crypto resolved.chainId)

end ResolvedSigningRequest

/-! ## The transaction of a proof -/

/-- The signer satisfies the requested permission where that is not a placeholder. -/
def Satisfies (signer : PermissionLevel) (identity : IdentityV3) : Prop :=
  ∀ permission ∈ identity.permission,
    (permission.actor = placeholderName ∨ permission.actor = signer.actor) ∧
    (permission.permission = placeholderPermission ∨ permission.permission = placeholderName ∨
      permission.permission = signer.permission)

/-- No placeholder stands in data for another name than in the proof: in the scope, the actor
and the permission. -/
structure PlaceholdersFit (signer : PermissionLevel) (identity : IdentityV3) : Prop where
  scopeActor : identity.scope = placeholderName → signer.actor = placeholderName
  scopePermission : identity.scope = placeholderPermission → signer.permission = placeholderPermission
  actor : ∀ permission ∈ identity.permission, permission.actor = placeholderPermission →
    signer.permission = placeholderPermission
  permission : ∀ permission ∈ identity.permission, permission.permission = placeholderName →
    signer.actor = signer.permission

theorem placeholderName_ne : placeholderName ≠ placeholderPermission := by
  decide +kernel

/-- The authorization of a request that the signer satisfies is the signer. -/
theorem resolveAuth_of_satisfies {signer : PermissionLevel} {identity : IdentityV3}
    (h : Satisfies signer identity) :
    resolveAuth signer (SigningRequest.requestedPermission identity) = signer := by
  unfold SigningRequest.requestedPermission
  obtain ⟨actor, permission⟩ := signer
  cases hpermission : identity.permission with
  | none =>
    rw [Option.getD_none]
    unfold resolveAuth placeholderAuth
    simp only [if_true, ite_self]
  | some requested =>
    obtain ⟨hactor, hrequested⟩ := h requested hpermission
    simp only at hactor hrequested
    rw [Option.getD_some]
    unfold resolveAuth
    simp only [PermissionLevel.mk.injEq]
    constructor
    · split
      · rfl
      · exact hactor.resolve_left ‹_›
    · rcases hrequested with hrequested | hrequested | hrequested
      · rw [if_pos hrequested, ite_self]
      · have hne : requested.permission ≠ placeholderPermission := by
          rw [hrequested]
          exact placeholderName_ne
        rw [if_neg hne, if_pos hrequested]
      · rw [hrequested, ite_self, ite_self]

/-- A name keeps its place unless it is a placeholder for another name. -/
theorem resolveName_eq_self_iff (signer : PermissionLevel) (n : Name) :
    resolveName signer n = n ↔
      (n = placeholderName → signer.actor = placeholderName) ∧
      (n = placeholderPermission → signer.permission = placeholderPermission) := by
  unfold resolveName
  by_cases hname : n = placeholderName
  · have hne : n ≠ placeholderPermission := by
      rw [hname]
      exact placeholderName_ne
    rw [if_pos hname]
    simp [hname, placeholderName_ne]
  · rw [if_neg hname]
    by_cases hpermission : n = placeholderPermission
    · rw [if_pos hpermission]
      simp [hpermission, placeholderName_ne.symm]
    · rw [if_neg hpermission]
      simp [hname, hpermission]

/-- The requested actor is resolved as the signer's, unless it is the other placeholder. -/
theorem resolveName_actor_iff {signer : PermissionLevel} {n : Name}
    (h : n = placeholderName ∨ n = signer.actor) :
    resolveName signer n = signer.actor ↔
      (n = placeholderPermission → signer.permission = placeholderPermission) := by
  unfold resolveName
  by_cases hname : n = placeholderName
  · rw [if_pos hname, hname]
    simp [placeholderName_ne]
  · have hactor := h.resolve_left hname
    rw [if_neg hname]
    by_cases hpermission : n = placeholderPermission
    · rw [if_pos hpermission, ← hactor]
      simp [hpermission]
    · rw [if_neg hpermission]
      exact ⟨fun _ h => absurd h hpermission, fun _ => hactor⟩

/-- The requested permission is resolved as the signer's, unless it is the actor's
placeholder. -/
theorem resolveName_permission_iff {signer : PermissionLevel} {n : Name}
    (h : n = placeholderPermission ∨ n = placeholderName ∨ n = signer.permission) :
    resolveName signer n = signer.permission ↔
      (n = placeholderName → signer.actor = signer.permission) := by
  unfold resolveName
  by_cases hname : n = placeholderName
  · rw [if_pos hname]
    simp [hname]
  · rw [if_neg hname]
    by_cases hpermission : n = placeholderPermission
    · rw [if_pos hpermission]
      simp [hname]
    · rw [if_neg hpermission]
      have hself := (h.resolve_left hpermission).resolve_left hname
      exact ⟨fun _ h => absurd h hname, fun _ => hself⟩

/-- An identity's bytes are its names. -/
theorem identityBytes_inj {scope actor permission scope' actor' permission' : Name} :
    identityBytes scope actor permission = identityBytes scope' actor' permission' ↔
      scope = scope' ∧ actor = actor' ∧ permission = permission' := by
  constructor
  · intro h
    unfold identityBytes at h
    have hlength : ∀ n n' : Name, (writeInt 8 n.value.toNat).length = (writeInt 8 n'.value.toNat).length :=
      fun n n' => (length_leBytes 8 _).trans (length_leBytes 8 _).symm
    have hname : ∀ n n' : Name, writeInt 8 n.value.toNat = writeInt 8 n'.value.toNat → n = n' := by
      intro n n' heq
      rw [← name_of_writeInt n, heq, name_of_writeInt]
    obtain ⟨hscope, h⟩ := List.append_inj h (hlength _ _)
    obtain ⟨hactor, hpermission⟩ := List.append_inj (List.cons.inj h).2 (hlength _ _)
    exact ⟨hname _ _ hscope, hname _ _ hactor, hname _ _ hpermission⟩
  · rintro ⟨rfl, rfl, rfl⟩
    rfl

/-- **The names of a request are resolved as those of its proof** exactly if no placeholder
stands for another name. -/
theorem identityBytes_resolved_iff {signer : PermissionLevel} {identity : IdentityV3}
    (h : Satisfies signer identity) :
    identityBytes (resolveName signer identity.scope)
        (resolveName signer (SigningRequest.requestedPermission identity).actor)
        (resolveName signer (SigningRequest.requestedPermission identity).permission) =
      identityBytes identity.scope signer.actor signer.permission ↔
    PlaceholdersFit signer identity := by
  rw [identityBytes_inj, resolveName_eq_self_iff]
  unfold SigningRequest.requestedPermission
  cases hpermission : identity.permission with
  | none =>
    -- Without a permission the request asks for the placeholders, which stand for the signer.
    have hactor : resolveName signer placeholderName = signer.actor := if_pos rfl
    have hnone : resolveName signer placeholderPermission = signer.permission :=
      (resolveName_permission_iff (.inl rfl)).mpr fun heq => absurd heq placeholderName_ne.symm
    constructor
    · rintro ⟨⟨hfirst, hsecond⟩, -⟩
      refine ⟨hfirst, hsecond, ?_, ?_⟩
      · rw [hpermission]
        exact fun _ hmem => by cases hmem
      · rw [hpermission]
        exact fun _ hmem => by cases hmem
    · intro hfit
      exact ⟨⟨hfit.scopeActor, hfit.scopePermission⟩, hactor, hnone⟩
  | some requested =>
    obtain ⟨hactor, hrequested⟩ := h requested hpermission
    rw [Option.getD_some, resolveName_actor_iff hactor, resolveName_permission_iff hrequested]
    constructor
    · rintro ⟨⟨hfirst, hsecond⟩, hthird, hfourth⟩
      refine ⟨hfirst, hsecond, ?_, ?_⟩
      · rw [hpermission]
        rintro _ ⟨⟩
        exact hthird
      · rw [hpermission]
        rintro _ ⟨⟩
        exact hfourth
    · intro hfit
      exact ⟨⟨hfit.scopeActor, hfit.scopePermission⟩, hfit.actor requested hpermission,
        hfit.permission requested hpermission⟩

namespace SigningRequest

variable {p : Platform} {request : SigningRequest} {d : RequestData IdentityV3}
  {identity : IdentityV3} {now : ℤ} {abis : AbiMap} {signer : PermissionLevel}
  {ctx : TransactionContext} {resolved : ResolvedSigningRequest}

/-- What a resolved identity request of version 3 is. -/
theorem resolved_identityV3 (hversion : request.version = 3) (hdata : request.data = .v3 d)
    (hreq : d.req = .identity identity)
    (h : request.resolve p now abis signer ctx = .ok resolved) :
    resolved.request = request ∧ resolved.signer = signer ∧
      resolved.transaction = {
        expiration := resolved.transaction.expiration
        actions := [signedIdentityAction signer identity] } := by
  obtain ⟨tx, hresolution⟩ := resolve_eq_ok.mp h
  obtain ⟨resolved', hresolved', hrequest, hsigner, -, htransaction⟩ :=
    resolve_identityV3 p hversion hdata hreq now abis signer hresolution.chain
  obtain rfl := Except.ok.inj (h.symm.trans hresolved')
  exact ⟨hrequest, hsigner, htransaction⟩

/-- The proof of a resolved identity request. -/
theorem getIdentityProof_identityV3 (hversion : request.version = 3) (hdata : request.data = .v3 d)
    (hreq : d.req = .identity identity)
    (h : request.resolve p now abis signer ctx = .ok resolved) (sig : Signature) :
    resolved.getIdentityProof sig = .ok {
      chainId := resolved.chainId
      scope := identity.scope
      expiration := resolved.transaction.expiration
      signer
      signature := sig } := by
  obtain ⟨hrequest, hsigner, -⟩ := resolved_identityV3 hversion hdata hreq h
  obtain ⟨version, data, signature⟩ := request
  obtain ⟨chain_id, req, flags, callback, info⟩ := d
  simp only at hversion hdata hreq
  subst hversion hdata hreq
  unfold ResolvedSigningRequest.getIdentityProof
  rw [hrequest, hsigner]
  rfl

/-- **The transaction of a proof is the one that was resolved** exactly if no placeholder
stands for another name. -/
theorem transaction_getIdentityProof_iff (hversion : request.version = 3)
    (hdata : request.data = .v3 d) (hreq : d.req = .identity identity)
    (hsatisfies : Satisfies signer identity)
    (h : request.resolve p now abis signer ctx = .ok resolved) (sig : Signature) :
    resolved.ProofFits p.toCrypto sig ↔ PlaceholdersFit signer identity := by
  obtain ⟨-, -, htransaction⟩ := resolved_identityV3 hversion hdata hreq h
  have hproof := getIdentityProof_identityV3 hversion hdata hreq h sig
  have hbuilt : ∀ proof : IdentityProof, proof.transaction = .ok {
      expiration := proof.expiration
      actions := [identityAction [proof.signer]
        (identityBytes proof.scope proof.signer.actor proof.signer.permission)] } := fun _ => rfl
  rw [← identityBytes_resolved_iff hsatisfies]
  constructor
  · rintro ⟨proof, hproof', hsame, -⟩
    rw [hproof] at hproof'
    obtain rfl := Except.ok.inj hproof'
    rw [hbuilt, htransaction] at hsame
    -- The two transactions differ in nothing but the data of their action.
    have hactions := congrArg Transaction.actions (Except.ok.inj hsame)
    exact (congrArg Action.data (List.cons.inj hactions).1).symm
  · intro hsame
    have hequal : IdentityProof.transaction {
        chainId := resolved.chainId
        scope := identity.scope
        expiration := resolved.transaction.expiration
        signer
        signature := sig } = .ok resolved.transaction := by
      rw [hbuilt, htransaction]
      unfold signedIdentityAction
      rw [resolveAuth_of_satisfies hsatisfies, hsame]
    refine ⟨_, hproof, hequal, ?_⟩
    unfold IdentityProof.recover
    rw [hequal]
    rfl

end SigningRequest

/-! ## The text of a proof -/

namespace IdentityProof

/-- `abi_traits<IdentityProof>`, the part that encodes. -/
def toABI (p : Platform) (proof : IdentityProof) : Result Bytes := do
  let chainId ← AbiTraits.chainId.toABI proof.chainId
  let scope ← AbiTraits.name.toABI proof.scope
  let expiration ← AbiTraits.timePointSec.toABI proof.expiration
  let signer ← AbiTraits.permissionLevel.toABI proof.signer
  let signature ← (AbiTraits.signature p).toABI proof.signature
  return chainId ++ (scope ++ (expiration ++ (signer ++ signature)))

/-- The part that decodes. -/
def fromABI (p : Platform) : Decoder IdentityProof := do
  let chainId ← AbiTraits.chainId.fromABI
  let scope ← AbiTraits.name.fromABI
  let expiration ← AbiTraits.timePointSec.fromABI
  let signer ← AbiTraits.permissionLevel.fromABI
  let signature ← (AbiTraits.signature p).fromABI
  return { chainId, scope, expiration, signer, signature }

/-- `toString`: the failure of the encoder is dropped. -/
def toString (p : Platform) (proof : IdentityProof) : Str :=
  lit "EOSIO " ++ Base64u.encode ((proof.toABI p).toOption.getD []) false

/-- `fromString`. -/
def fromString (p : Platform) (value : Str) : Result IdentityProof :=
  match value.span (fun c => c ≠ 32) with
  | (_, []) => err .invalid "Invalid IdentityProof string"
  | (scheme, _ :: text) =>
    if scheme ≠ lit "EOSIO" ∨ 32 ∈ text then err .invalid "Invalid IdentityProof string"
    else do
      let (proof, _) ← (fromABI p).run (Base64u.decode text)
      return proof

/-- No character of base64 is a blank. -/
theorem blank_notMem_encode (data : Bytes) (urlSafe : Bool) : 32 ∉ Base64u.encode data urlSafe := by
  have hcharset : ∀ urlSafe : Bool, 32 ∉ Base64u.charset urlSafe := by decide +kernel
  exact fun hmem => hcharset urlSafe (Base64u.mem_charset_of_mem_encode hmem)

/-- What is written of a proof is read back. -/
theorem reads_fromABI (p : Platform) {proof : IdentityProof} (h : proof.signature.WireShaped) :
    ∃ bytes, proof.toABI p = .ok bytes ∧ Reads (fromABI p) bytes proof := by
  obtain ⟨-, hchain⟩ := AbiTraits.checksum_roundTrips "checksum256" 32 (by decide) proof.chainId _
    trivial rfl
  obtain ⟨-, hscope⟩ := AbiTraits.name_roundTrips proof.scope _ trivial rfl
  obtain ⟨-, hexpiration⟩ := AbiTraits.timePointSec_roundTrips proof.expiration _ trivial rfl
  obtain ⟨-, hsigner⟩ := AbiTraits.permissionLevel_roundTrips proof.signer _ trivial rfl
  obtain ⟨-, hsignature⟩ := AbiTraits.signature_roundTrips p proof.signature _ h rfl
  exact ⟨_, rfl, hchain.bind (hscope.bind (hexpiration.bind (hsigner.bind
    (hsignature.bind_pure _))))⟩

/-- The text of a proof is the scheme, a blank and the base64 of its bytes. -/
theorem fromString_toString_of_toABI (p : Platform) {proof : IdentityProof} {bytes : Bytes}
    (h : proof.toABI p = .ok bytes) :
    fromString p (proof.toString p) = Prod.fst <$> (fromABI p).run bytes := by
  have htext : proof.toString p = lit "EOSIO" ++ 32 :: Base64u.encode bytes false := by
    unfold toString
    rw [h]
    rfl
  have hspan : (proof.toString p).span (fun c => c ≠ 32) =
      (lit "EOSIO", 32 :: Base64u.encode bytes false) := by
    rw [htext]
    rfl
  unfold fromString
  rw [hspan]
  simp only
  rw [if_neg (by simpa using blank_notMem_encode bytes false), Base64u.decode_encode]
  cases (fromABI p).run bytes
  · rfl
  · rfl

/-- The signature of a proof that is read has the shape of its type. -/
theorem yields_shaped (p : Platform) :
    Yields (fromABI p) (fun proof => Signature.Shaped proof.signature.type proof.signature.data) := by
  intro s proof rest h
  obtain ⟨chainId, s₁, -, h⟩ := run_bind_eq_ok h
  obtain ⟨scope, s₂, -, h⟩ := run_bind_eq_ok h
  obtain ⟨expiration, s₃, -, h⟩ := run_bind_eq_ok h
  obtain ⟨signer, s₄, -, h⟩ := run_bind_eq_ok h
  obtain ⟨signature, s₅, hsignature, h⟩ := run_bind_eq_ok h
  cases h
  exact signature_yields_shaped p _ _ _ hsignature

/-- **The proofs that are read back from their text**: those whose signature has the shape of
its type. -/
theorem fromString_toString_iff (p : Platform) (proof : IdentityProof) :
    fromString p (proof.toString p) = .ok proof ↔
      Signature.Shaped proof.signature.type proof.signature.data := by
  constructor
  · intro h
    rw [fromString_toString_of_toABI p (rfl : proof.toABI p = .ok _)] at h
    cases hrun : (fromABI p).run ((proof.toABI p).toOption.getD []) with
    | error e =>
      change Prod.fst <$> (fromABI p).run ((proof.toABI p).toOption.getD []) = _ at h
      rw [hrun] at h
      cases h
    | ok read =>
      change Prod.fst <$> (fromABI p).run ((proof.toABI p).toOption.getD []) = _ at h
      rw [hrun] at h
      obtain ⟨read, rest⟩ := read
      obtain rfl : read = proof := Except.ok.inj h
      exact yields_shaped p _ _ _ hrun
  · intro h
    obtain ⟨bytes, hbytes, hread⟩ := reads_fromABI p (Signature.Shaped.wireShaped h)
    rw [fromString_toString_of_toABI p hbytes, hread.run_eq]
    rfl

end IdentityProof

/-! ## Requests and their proofs -/

namespace SigningRequest

/-- **Identity proof consistency.**  The proof of a resolved identity request of version 3
stands for the transaction that was resolved exactly if no placeholder of the request stands
for another name; and a proof is read back from its text exactly if its signature has the
shape of its type. -/
theorem identityProof_consistent_iff {p : Platform} {request : SigningRequest}
    {d : RequestData IdentityV3} {identity : IdentityV3} {now : ℤ} {abis : AbiMap}
    {signer : PermissionLevel} {ctx : TransactionContext} {resolved : ResolvedSigningRequest}
    (hversion : request.version = 3) (hdata : request.data = .v3 d)
    (hreq : d.req = .identity identity) (hsatisfies : Satisfies signer identity)
    (h : request.resolve p now abis signer ctx = .ok resolved) :
    (∀ sig, resolved.ProofFits p.toCrypto sig ↔ PlaceholdersFit signer identity) ∧
      ∀ proof, IdentityProof.fromString p (proof.toString p) = .ok proof ↔
        Signature.Shaped proof.signature.type proof.signature.data :=
  ⟨fun sig => transaction_getIdentityProof_iff hversion hdata hreq hsatisfies h sig,
    fun proof => proof.fromString_toString_iff p⟩

/-- alice, as a signer. -/
def signerAlice : PermissionLevel := { actor := .ofString "alice", permission := .ofString "active" }

/-- A request to identify for a scope, to whoever signs. -/
def identityRequest (scope : Name) : SigningRequest where
  version := 3
  data := .v3 {
    chain_id := .id (repeatedChain 1)
    req := .identity { scope } }

theorem satisfies_scope (signer : PermissionLevel) (scope : Name) :
    Satisfies signer { scope } := by
  intro permission hpermission
  cases hpermission

/-- The request is resolved for the chain it names. -/
theorem resolve_identityRequest (scope : Name) :
    ∃ resolved, (identityRequest scope).resolve default 0 [] signerAlice {} = .ok resolved := by
  have hchain : (identityRequest scope).resolveChain {} = .ok (repeatedChain 1) := rfl
  obtain ⟨resolved, hresolved, -⟩ := resolve_identityV3 default rfl rfl rfl 0 [] signerAlice hchain
  exact ⟨resolved, hresolved⟩

/-- The proof of a scope that is a name. -/
theorem identityProof_consistent_iff_dwarfkit :
    ∃ resolved, (identityRequest (.ofString "dwarfkit")).resolve default 0 [] signerAlice {} =
        .ok resolved ∧
      ∀ sig, resolved.ProofFits (default : Platform).toCrypto sig := by
  obtain ⟨resolved, hresolved⟩ := resolve_identityRequest (.ofString "dwarfkit")
  refine ⟨resolved, hresolved, fun sig => ?_⟩
  refine ((identityProof_consistent_iff rfl rfl rfl (satisfies_scope signerAlice _) hresolved).1 sig).mpr ?_
  refine ⟨?_, ?_, ?_, ?_⟩
  · decide +kernel
  · decide +kernel
  · intro permission hpermission
    cases hpermission
  · intro permission hpermission
    cases hpermission

/-- A scope that is the actor's placeholder is resolved in the transaction and kept in the
proof, which stands for another transaction. -/
theorem not_identityProof_consistent :
    ∃ resolved, (identityRequest placeholderName).resolve default 0 [] signerAlice {} = .ok resolved ∧
      ∀ sig, ¬ resolved.ProofFits (default : Platform).toCrypto sig := by
  obtain ⟨resolved, hresolved⟩ := resolve_identityRequest placeholderName
  refine ⟨resolved, hresolved, fun sig hfits => ?_⟩
  have hfit := (transaction_getIdentityProof_iff rfl rfl rfl (satisfies_scope signerAlice _) hresolved
    sig).mp hfits
  exact absurd (hfit.scopeActor rfl) (by decide +kernel)

end SigningRequest

end Dwarfkit
