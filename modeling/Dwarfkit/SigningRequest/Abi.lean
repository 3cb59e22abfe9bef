/-
# The binary form of signing requests

`abi_traits` of the types of `signing_request/abi.hpp`: chain ids, identities, the
request variants, info pairs, the request data in both versions, and the request
signature.

* `requestData_roundTrips`, `requestSignature_roundTrips` : they are read back, if
  their lengths fit and their strings are UTF-8.
-/
import Dwarfkit.Antelope.Serializer.Structs
import Dwarfkit.SigningRequest.ChainId

namespace Dwarfkit

open Wire

namespace AbiTraits

/-! ## Variants in json -/

/-- The receiver check of `Variant::from`: a type name and a value. -/
def variantPair (abiName : Str) : Json → Result (Str × Json)
  | .arr [.str name, value] => .ok (name, value)
  | _ => err .invalid (lit "Expected [type, value] for variant " ++ abiName)

/-- An index no alternative has. -/
def unknownVariantIdx {α : Type} (idx : UInt32) : Result α :=
  err .invalid (lit "Unknown variant idx: " ++ natToString idx.toNat)

def unknownVariantType {α : Type} (name : Str) : Result α :=
  err .invalid (lit "Unknown variant type: " ++ name)

/-! ## Chain ids -/

/-- `abi_traits<ChainAlias>`. -/
def chainAlias : AbiTraits UInt8 := { uint8 with abiName := "chain_alias" }

/-- `abi_traits<ChainId>`. -/
def chainId : AbiTraits ChainId :=
  { checksum256 with
    abiName := "chain_id"
    fromJSON := fun j => do
      let text ← j.getStr
      Checksum.ofHex 32 text }

/-- `abi_traits<ChainIdVariant>`. -/
def chainIdVariant : AbiTraits ChainIdVariant where
  abiName := "variant_id"
  toABI
    | .alias value => do
      let bytes ← chainAlias.toABI value
      return writeVaruint32 0 ++ bytes
    | .id value => do
      let bytes ← chainId.toABI value
      return writeVaruint32 1 ++ bytes
  fromABI := do
    let idx ← readVaruint32
    if idx = 0 then
      let value ← chainAlias.fromABI
      return .alias value
    else if idx = 1 then
      let value ← chainId.fromABI
      return .id value
    else .ofResult (unknownVariantIdx idx)
  toJSON
    | .alias value => .arr [.str chainAlias.abiName, chainAlias.toJSON value]
    | .id value => .arr [.str chainId.abiName, chainId.toJSON value]
  fromJSON j := do
    let (name, value) ← variantPair "variant_id" j
    if name = chainAlias.abiName then ChainIdVariant.alias <$> chainAlias.fromJSON value
    else if name = chainId.abiName then ChainIdVariant.id <$> chainId.fromJSON value
    else unknownVariantType name
  abiDefault := .alias 0

/-! ## Identities -/

/-- A member that is left out when it is absent. -/
def optionalMember {α : Type} (t : AbiTraits α) (key : Str) : Option α → List (Str × Json)
  | some v => [(key, t.toJSON v)]
  | none => []

/-- `abi_traits<IdentityV2>`. -/
def identityV2 : AbiTraits IdentityV2 where
  abiName := "identity"
  toABI := IdentityV2.toABI
  fromABI := do
    let permission ← permissionLevel.optional.fromABI
    return { permission }
  toJSON v := .obj (optionalMember permissionLevel "permission" v.permission)
  fromJSON j := do
    expectObject j
    let permission ← optionalField permissionLevel j "permission"
    return { permission }
  abiDefault := {}

/-- `abi_traits<IdentityV3>`. -/
def identityV3 : AbiTraits IdentityV3 where
  abiName := "identity"
  toABI := IdentityV3.toABI
  fromABI := do
    let scope ← name.fromABI
    let permission ← permissionLevel.optional.fromABI
    return { scope, permission }
  toJSON v := .obj ((lit "scope", name.toJSON v.scope) ::
    optionalMember permissionLevel "permission" v.permission)
  fromJSON j := do
    expectObject j
    let scope ← field name j "scope"
    let permission ← optionalField permissionLevel j "permission"
    return { scope, permission }
  abiDefault := {}

/-! ## Requests -/

/-- `abi_traits<RequestVariantV2>` and `abi_traits<RequestVariantV3>`, by the identity
type. -/
def requestVariant {I : Type} (identity : AbiTraits I) : AbiTraits (RequestVariant I) where
  abiName := "variant_req"
  toABI
    | .action value => do
      let bytes ← action.toABI value
      return writeVaruint32 0 ++ bytes
    | .actions value => do
      let bytes ← action.vector.toABI value
      return writeVaruint32 1 ++ bytes
    | .transaction value => do
      let bytes ← transaction.toABI value
      return writeVaruint32 2 ++ bytes
    | .identity value => do
      let bytes ← identity.toABI value
      return writeVaruint32 3 ++ bytes
  fromABI := do
    let idx ← readVaruint32
    if idx = 0 then
      let value ← action.fromABI
      return .action value
    else if idx = 1 then
      let value ← action.vector.fromABI
      return .actions value
    else if idx = 2 then
      let value ← transaction.fromABI
      return .transaction value
    else if idx = 3 then
      let value ← identity.fromABI
      return .identity value
    else .ofResult (unknownVariantIdx idx)
  toJSON
    | .action value => .arr [.str action.abiName, action.toJSON value]
    | .actions value => .arr [.str action.vector.abiName, action.vector.toJSON value]
    | .transaction value => .arr [.str transaction.abiName, transaction.toJSON value]
    | .identity value => .arr [.str identity.abiName, identity.toJSON value]
  fromJSON j := do
    let (name, value) ← variantPair "variant_req" j
    if name = action.abiName then RequestVariant.action <$> action.fromJSON value
    else if name = action.vector.abiName then
      RequestVariant.actions <$> action.vector.fromJSON value
    else if name = transaction.abiName then
      RequestVariant.transaction <$> transaction.fromJSON value
    else if name = identity.abiName then RequestVariant.identity <$> identity.fromJSON value
    else unknownVariantType name
  abiDefault := .action action.abiDefault

/-- `abi_traits<RequestFlags>`. -/
def requestFlags : AbiTraits RequestFlags where
  abiName := "request_flags"
  toABI v := uint8.toABI v.value
  fromABI := do
    let value ← uint8.fromABI
    return ⟨value⟩
  toJSON v := uint8.toJSON v.value
  fromJSON j := do
    let value ← uint8.fromJSON j
    return ⟨value⟩
  abiDefault := {}

/-- `abi_traits<InfoPair>`. -/
def infoPair : AbiTraits InfoPair where
  abiName := "info_pair"
  toABI v := do
    let key ← string.toABI v.key
    let value ← bytes.toABI v.value
    return key ++ value
  fromABI := do
    let key ← string.fromABI
    let value ← bytes.fromABI
    return { key, value }
  toJSON v := .obj [(lit "key", string.toJSON v.key), (lit "value", bytes.toJSON v.value)]
  fromJSON j := do
    expectObject j
    let key ← field string j "key"
    let value ← field bytes j "value"
    return { key, value }
  abiDefault := { key := [], value := [] }

/-- `abi_traits<RequestDataV2>` and `abi_traits<RequestDataV3>`, by the identity type. -/
def requestData {I : Type} (identity : AbiTraits I) : AbiTraits (RequestData I) where
  abiName := "signing_request"
  toABI v := do
    let chain_id ← chainIdVariant.toABI v.chain_id
    let req ← (requestVariant identity).toABI v.req
    let flags ← requestFlags.toABI v.flags
    let callback ← string.toABI v.callback
    let info ← infoPair.vector.toABI v.info
    return chain_id ++ req ++ flags ++ callback ++ info
  fromABI := do
    let chain_id ← chainIdVariant.fromABI
    let req ← (requestVariant identity).fromABI
    let flags ← requestFlags.fromABI
    let callback ← string.fromABI
    let info ← infoPair.vector.fromABI
    return { chain_id, req, flags, callback, info }
  toJSON v := .obj [(lit "chain_id", chainIdVariant.toJSON v.chain_id),
    (lit "req", (requestVariant identity).toJSON v.req), (lit "flags", requestFlags.toJSON v.flags),
    (lit "callback", string.toJSON v.callback), (lit "info", infoPair.vector.toJSON v.info)]
  fromJSON j := do
    expectObject j
    let chain_id ← field chainIdVariant j "chain_id"
    let req ← field (requestVariant identity) j "req"
    let flags ← field requestFlags j "flags"
    let callback ← field string j "callback"
    let info ← field infoPair.vector j "info"
    return { chain_id, req, flags, callback, info }
  abiDefault := { req := .action action.abiDefault }

/-- `abi_traits<RequestSignature>`. -/
def requestSignature (p : Platform) : AbiTraits RequestSignature where
  abiName := "request_signature"
  toABI v := do
    let signer ← name.toABI v.signer
    let sig ← (signature p).toABI v.signature
    return signer ++ sig
  fromABI := do
    let signer ← name.fromABI
    let sig ← (signature p).fromABI
    return { signer, signature := sig }
  toJSON v := .obj [(lit "signer", name.toJSON v.signer),
    (lit "signature", (signature p).toJSON v.signature)]
  fromJSON j := do
    expectObject j
    let signer ← field name j "signer"
    let sig ← field (signature p) j "signature"
    return { signer, signature := sig }
  abiDefault := { signer := {}, signature := (signature p).abiDefault }

end AbiTraits

/-! ## Lengths that fit -/

/-- The length prefixes of a request can hold its lengths. -/
def RequestVariant.Sized {I : Type} : RequestVariant I → Prop
  | .action a => a.Sized
  | .actions l => ActionsSized l
  | .transaction tx => tx.Sized
  | .identity _ => True

def InfoPair.Sized (pair : InfoPair) : Prop := TextFits pair.key ∧ pair.value.length < 2 ^ 32

/-- The length prefixes of some request data can hold its lengths, and its strings are
UTF-8. -/
structure RequestData.Sized {I : Type} (d : RequestData I) : Prop where
  req : d.req.Sized
  callback : TextFits d.callback
  info : d.info.length < 2 ^ 32 ∧ ∀ pair ∈ d.info, pair.Sized

namespace AbiTraits

/-! ## Round trips -/

/-- The index in front of an alternative. -/
theorem reads_alternative {α β : Type} {idx : UInt32} {f : UInt32 → Decoder β} {value : Decoder α}
    {make : α → β} {bytes : Bytes} {x : α} (hf : f idx = value >>= fun x => pure (make x))
    (h : Reads value bytes x) :
    Reads (readVaruint32 >>= f) (writeVaruint32 idx ++ bytes) (make x) := by
  refine (reads_readVaruint32 idx).bind ?_
  rw [hf]
  exact h.bind_pure make

/-- A written index is not empty. -/
theorem alternative_ne_nil (idx : UInt32) (bytes : Bytes) : writeVaruint32 idx ++ bytes ≠ [] :=
  fun h => writeVaruint32_ne_nil idx (List.append_eq_nil_iff.mp h).1

theorem chainIdVariant_writes : chainIdVariant.Writes := by
  rintro (value | value)
  · exact ⟨_, rfl⟩
  · exact ⟨_, rfl⟩

theorem chainIdVariant_roundTrips : chainIdVariant.RoundTrips (fun _ => True) := by
  rintro (value | value) bytes _ h
  · obtain ⟨written, hwritten, h⟩ := bind_eq_ok.mp h
    cases h
    obtain ⟨-, hread⟩ := uint8_roundTrips value written trivial hwritten
    exact ⟨alternative_ne_nil _ _, reads_alternative rfl hread⟩
  · obtain ⟨written, hwritten, h⟩ := bind_eq_ok.mp h
    cases h
    obtain ⟨-, hread⟩ := checksum_roundTrips "checksum256" 32 (by decide) value written trivial hwritten
    exact ⟨alternative_ne_nil _ _, reads_alternative rfl hread⟩

theorem identityV2_writes : identityV2.Writes :=
  fun v => optional_writes permissionLevel_writes v.permission

theorem identityV2_roundTrips : identityV2.RoundTrips (fun _ => True) := by
  intro v bytes _ h
  obtain ⟨hne, hread⟩ := optional_roundTrips permissionLevel_roundTrips v.permission bytes
    (fun _ _ => trivial) h
  exact ⟨hne, hread.bind_pure IdentityV2.mk⟩

theorem identityV3_writes : identityV3.Writes := by
  intro v
  obtain ⟨permission, hpermission⟩ := optional_writes permissionLevel_writes v.permission
  refine ⟨writeInt 8 v.scope.value.toNat ++ permission, ?_⟩
  show (permissionLevel.optional.toABI v.permission >>= fun permission => _) = _
  rw [hpermission]
  rfl

theorem identityV3_roundTrips : identityV3.RoundTrips (fun _ => True) := by
  intro v bytes _ h
  obtain ⟨scope, hscope, h⟩ := bind_eq_ok.mp h
  obtain ⟨permission, hpermission, h⟩ := bind_eq_ok.mp h
  cases h
  obtain ⟨hne, hscope⟩ := name_roundTrips _ scope trivial hscope
  obtain ⟨-, hpermission⟩ := optional_roundTrips permissionLevel_roundTrips v.permission permission
    (fun _ _ => trivial) hpermission
  exact ⟨by simp [hne], hscope.bind (hpermission.bind_pure _)⟩

theorem requestVariant_writes {I : Type} {identity : AbiTraits I} (h : identity.Writes) :
    (requestVariant identity).Writes := by
  have hmake : ∀ {α : Type} {t : AbiTraits α} (idx : UInt32) (x : α), t.Writes →
      ∃ bytes, (t.toABI x >>= fun bytes => pure (writeVaruint32 idx ++ bytes)) = .ok bytes := by
    intro α t idx x ht
    obtain ⟨bytes, hbytes⟩ := ht x
    exact ⟨writeVaruint32 idx ++ bytes, by rw [hbytes]; rfl⟩
  intro v
  cases v with
  | action value => exact hmake 0 value action_writes
  | actions value => exact hmake 1 value (vector_writes action_writes)
  | transaction value => exact hmake 2 value transaction_writes
  | identity value => exact hmake 3 value h

/-- **Requests are read back.** -/
theorem requestVariant_roundTrips {I : Type} {identity : AbiTraits I}
    (h : identity.RoundTrips (fun _ => True)) :
    (requestVariant identity).RoundTrips RequestVariant.Sized := by
  intro v bytes hsized hbytes
  cases v with
  | action value =>
    obtain ⟨written, hwritten, hbytes⟩ := bind_eq_ok.mp hbytes
    cases hbytes
    obtain ⟨-, hread⟩ := action_roundTrips value written hsized hwritten
    exact ⟨alternative_ne_nil _ _, reads_alternative rfl hread⟩
  | actions value =>
    obtain ⟨written, hwritten, hbytes⟩ := bind_eq_ok.mp hbytes
    cases hbytes
    obtain ⟨-, hread⟩ := vector_roundTrips action_roundTrips value written hsized hwritten
    exact ⟨alternative_ne_nil _ _, reads_alternative rfl hread⟩
  | transaction value =>
    obtain ⟨written, hwritten, hbytes⟩ := bind_eq_ok.mp hbytes
    cases hbytes
    obtain ⟨-, hread⟩ := transaction_roundTrips value written hsized hwritten
    exact ⟨alternative_ne_nil _ _, reads_alternative rfl hread⟩
  | identity value =>
    obtain ⟨written, hwritten, hbytes⟩ := bind_eq_ok.mp hbytes
    cases hbytes
    obtain ⟨-, hread⟩ := h value written trivial hwritten
    exact ⟨alternative_ne_nil _ _, reads_alternative rfl hread⟩

theorem infoPair_writes : infoPair.Writes := fun _ => ⟨_, rfl⟩

theorem infoPair_roundTrips : infoPair.RoundTrips InfoPair.Sized := by
  rintro pair bytes ⟨hkey, hvalue⟩ h
  obtain ⟨key, hwkey, h⟩ := bind_eq_ok.mp h
  obtain ⟨value, hwvalue, h⟩ := bind_eq_ok.mp h
  cases h
  obtain ⟨hne, hrkey⟩ := string_roundTrips _ key hkey hwkey
  obtain ⟨-, hrvalue⟩ := bytes_roundTrips _ value hvalue hwvalue
  exact ⟨by simp [hne], hrkey.bind (hrvalue.bind_pure _)⟩

theorem requestData_writes {I : Type} {identity : AbiTraits I} (h : identity.Writes) :
    (requestData identity).Writes := by
  intro d
  obtain ⟨chain_id, hchain⟩ := chainIdVariant_writes d.chain_id
  obtain ⟨req, hreq⟩ := requestVariant_writes h d.req
  obtain ⟨info, hinfo⟩ := vector_writes infoPair_writes d.info
  refine ⟨chain_id ++ req ++ writeInt 1 d.flags.value.toNat ++ writeString d.callback ++ info, ?_⟩
  show (chainIdVariant.toABI d.chain_id >>= fun chain_id =>
    (requestVariant identity).toABI d.req >>= fun req =>
    infoPair.vector.toABI d.info >>= fun info => _) = _
  rw [hchain, ok_bind, hreq, ok_bind, hinfo]
  rfl

/-- **Request data is read back.** -/
theorem requestData_roundTrips {I : Type} {identity : AbiTraits I}
    (h : identity.RoundTrips (fun _ => True)) :
    (requestData identity).RoundTrips RequestData.Sized := by
  intro d bytes hsized hbytes
  obtain ⟨chain_id, hchain, hbytes⟩ := bind_eq_ok.mp hbytes
  obtain ⟨req, hreq, hbytes⟩ := bind_eq_ok.mp hbytes
  obtain ⟨flags, hflags, hbytes⟩ := bind_eq_ok.mp hbytes
  obtain ⟨callback, hcallback, hbytes⟩ := bind_eq_ok.mp hbytes
  obtain ⟨info, hinfo, hbytes⟩ := bind_eq_ok.mp hbytes
  cases hbytes
  obtain ⟨hne, hchain⟩ := chainIdVariant_roundTrips _ chain_id trivial hchain
  obtain ⟨-, hreq⟩ := requestVariant_roundTrips h _ req hsized.req hreq
  obtain ⟨-, hflags⟩ := uint8_roundTrips _ flags trivial hflags
  obtain ⟨-, hcallback⟩ := string_roundTrips _ callback hsized.callback hcallback
  obtain ⟨-, hinfo⟩ := vector_roundTrips infoPair_roundTrips _ info hsized.info hinfo
  refine ⟨by simp [hne], ?_⟩
  rw [List.append_assoc, List.append_assoc, List.append_assoc]
  exact hchain.bind (hreq.bind ((hflags.bind_pure RequestFlags.mk).bind
    (hcallback.bind (hinfo.bind_pure _))))

theorem requestSignature_writes (p : Platform) : (requestSignature p).Writes := fun _ => ⟨_, rfl⟩

/-- **Request signatures are read back.** -/
theorem requestSignature_roundTrips (p : Platform) :
    (requestSignature p).RoundTrips (fun s => s.signature.WireShaped) := by
  intro s bytes hshaped h
  obtain ⟨signer, hsigner, h⟩ := bind_eq_ok.mp h
  obtain ⟨sig, hsig, h⟩ := bind_eq_ok.mp h
  cases h
  obtain ⟨hne, hsigner⟩ := name_roundTrips _ signer trivial hsigner
  obtain ⟨-, hsig⟩ := signature_roundTrips p _ sig hshaped hsig
  exact ⟨by simp [hne], hsigner.bind (hsig.bind_pure _)⟩

end AbiTraits

end Dwarfkit
