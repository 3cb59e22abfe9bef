/-
# Signing requests

The data of a signing request (`signing_request/abi.hpp`, in both versions) and the
members of `SigningRequest` that read and write it without resolving it.
-/
import Dwarfkit.SigningRequest.IdentityProof

namespace Dwarfkit

/-! ## Data -/

/-- `ChainIdVariant`: an alias of a known chain, or its id. -/
inductive ChainIdVariant where
  | alias (value : UInt8)
  | id (value : ChainId)
  deriving DecidableEq

/-- `IdentityV2`. -/
structure IdentityV2 where
  permission : Option PermissionLevel := none
  deriving DecidableEq, Repr

/-- `RequestVariantV2` and `RequestVariantV3`, by the identity type. -/
inductive RequestVariant (I : Type) where
  | action (value : Action)
  | actions (value : List Action)
  | transaction (value : Transaction)
  | identity (value : I)
  deriving DecidableEq

/-- `RequestFlags`. -/
structure RequestFlags where
  value : UInt8 := 0
  deriving DecidableEq, Repr

namespace RequestFlags

def broadcastFlag : UInt8 := 1
def backgroundFlag : UInt8 := 2

def setFlag (flags : RequestFlags) (flag : UInt8) (enabled : Bool) : RequestFlags :=
  ⟨if enabled then flags.value ||| flag else flags.value &&& ~~~flag⟩

def broadcast (flags : RequestFlags) : Bool := flags.value &&& broadcastFlag ≠ 0

def setBroadcast (flags : RequestFlags) (enabled : Bool) : RequestFlags :=
  flags.setFlag broadcastFlag enabled

def background (flags : RequestFlags) : Bool := flags.value &&& backgroundFlag ≠ 0

def setBackground (flags : RequestFlags) (enabled : Bool) : RequestFlags :=
  flags.setFlag backgroundFlag enabled

end RequestFlags

structure InfoPair where
  key : Str
  value : Bytes
  deriving DecidableEq, Repr

/-- `RequestDataV2` and `RequestDataV3`, by the identity type. -/
structure RequestData (I : Type) where
  chain_id : ChainIdVariant := .alias 0
  req : RequestVariant I
  flags : RequestFlags := {}
  callback : Str := []
  info : List InfoPair := []
  deriving DecidableEq

/-- `std::variant<RequestDataV2, RequestDataV3>`. -/
inductive VersionedData where
  | v2 (data : RequestData IdentityV2)
  | v3 (data : RequestData IdentityV3)
  deriving DecidableEq

structure RequestSignature where
  signer : Name
  signature : Signature
  deriving DecidableEq

/-- `SigningRequest`: version, data and signature. -/
structure SigningRequest where
  version : ℕ := 2
  data : VersionedData
  signature : Option RequestSignature := none
  deriving DecidableEq

/-! ## Members that hold in both versions -/

namespace VersionedData

def chain_id : VersionedData → ChainIdVariant
  | v2 d => d.chain_id
  | v3 d => d.chain_id

def flags : VersionedData → RequestFlags
  | v2 d => d.flags
  | v3 d => d.flags

def info : VersionedData → List InfoPair
  | v2 d => d.info
  | v3 d => d.info

/-- The same data with other info pairs. -/
def withInfo (info : List InfoPair) : VersionedData → VersionedData
  | v2 d => v2 { d with info := info }
  | v3 d => v3 { d with info := info }

/-- The same data with other flags. -/
def withFlags (flags : RequestFlags) : VersionedData → VersionedData
  | v2 d => v2 { d with flags := flags }
  | v3 d => v3 { d with flags := flags }

/-- Replacing the info pairs twice leaves the later ones. -/
@[simp]
theorem withInfo_withInfo (d : VersionedData) (info info' : List InfoPair) :
    (d.withInfo info').withInfo info = d.withInfo info := by
  cases d <;> rfl

end VersionedData

/-- `PlaceholderName`. -/
def placeholderName : Name := .ofString "............1"

/-- `PlaceholderPermission`. -/
def placeholderPermission : Name := .ofString "............2"

/-- `PlaceholderAuth`. -/
def placeholderAuth : PermissionLevel where
  actor := placeholderName
  permission := placeholderPermission

/-- `abi_traits<IdentityV2>`, the part that encodes. -/
def IdentityV2.toABI (v : IdentityV2) : Result Bytes :=
  AbiTraits.permissionLevel.optional.toABI v.permission

/-- The action of an identity request. -/
def identityAction (authorization : List PermissionLevel) (data : Bytes) : Action where
  account := .ofString ""
  name := .ofString "identity"
  authorization := authorization
  data := data

namespace SigningRequest

/-- `setBroadcast`. -/
def setBroadcast (request : SigningRequest) (enabled : Bool) : SigningRequest :=
  { request with data := request.data.withFlags (request.data.flags.setBroadcast enabled) }

/-- `setRawInfoKey`: in place if the key is there, at the end otherwise. -/
def setRawInfoKey (request : SigningRequest) (key : Str) (value : Bytes) : SigningRequest :=
  let info := request.data.info
  let updated :=
    match info.findIdx? (fun pair => pair.key = key) with
    | some i => info.modify i (fun pair => { pair with value := value })
    | none => info ++ [{ key := key, value := value }]
  { request with data := request.data.withInfo updated }

/-- `getRawActions`. -/
def getRawActions (request : SigningRequest) : Result (List Action) :=
  match request.data with
  | .v2 { req := .action a, .. } | .v3 { req := .action a, .. } => .ok [a]
  | .v2 { req := .actions l, .. } | .v3 { req := .actions l, .. } => .ok l
  | .v2 { req := .transaction tx, .. } | .v3 { req := .transaction tx, .. } => .ok tx.actions
  | .v2 { req := .identity v, .. } =>
    match v.permission with
    | some permission => do
      let data ← v.toABI
      return [identityAction [permission] data]
    | none => do
      let data ← hexToArray "0101000000000000000200000000000000"
      return [identityAction [placeholderAuth] data]
  | .v3 { req := .identity v, .. } => do
    let permission := v.permission.getD placeholderAuth
    let data ← IdentityV3.toABI { v with permission := some permission }
    return [identityAction [permission] data]

/-- `getRawTransaction`. -/
def getRawTransaction (request : SigningRequest) : Result Transaction :=
  match request.data with
  | .v2 { req := .transaction tx, .. } | .v3 { req := .transaction tx, .. } => .ok tx
  | _ => do
    let actions ← request.getRawActions
    return { actions := actions }

/-- `isIdentity`. -/
def isIdentity (request : SigningRequest) : Bool :=
  match request.data with
  | .v2 { req := .identity _, .. } | .v3 { req := .identity _, .. } => true
  | _ => false

/-- `isMultiChain`: the chain alias 0. -/
def isMultiChain (request : SigningRequest) : Bool := request.data.chain_id = .alias 0

/-! ## The same request but for its info pairs -/

/-- Two requests with the same version, chain id, variant, flags and callback. -/
def SameData (a b : SigningRequest) : Prop :=
  a.version = b.version ∧ a.data.withInfo [] = b.data.withInfo []

instance (a b : SigningRequest) : Decidable (SameData a b) :=
  inferInstanceAs (Decidable (_ ∧ _))

theorem SameData.refl (a : SigningRequest) : SameData a a := ⟨rfl, rfl⟩

theorem SameData.symm {a b : SigningRequest} (h : SameData a b) : SameData b a :=
  ⟨h.1.symm, h.2.symm⟩

theorem SameData.trans {a b c : SigningRequest} (hab : SameData a b) (hbc : SameData b c) :
    SameData a c :=
  ⟨hab.1.trans hbc.1, hab.2.trans hbc.2⟩

/-- Setting an info key keeps everything else. -/
theorem sameData_setRawInfoKey (request : SigningRequest) (key : Str) (value : Bytes) :
    SameData (request.setRawInfoKey key value) request := by
  refine ⟨rfl, ?_⟩
  unfold setRawInfoKey
  exact VersionedData.withInfo_withInfo _ _ _

end SigningRequest

end Dwarfkit
