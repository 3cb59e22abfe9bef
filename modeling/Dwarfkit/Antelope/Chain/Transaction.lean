/-
# Permission levels, actions and transactions

The structs of `antelope/chain/permission_level.hpp`, `action.hpp` and
`transaction.hpp`, with their binary and json forms.  A struct is written field
by field, and a json object must hold every field that may not be absent.
-/
import Dwarfkit.Antelope.Serializer.Traits

namespace Dwarfkit

open Wire

/-! ## Permission levels -/

/-- An actor and its permission. -/
structure PermissionLevel where
  actor : Name := {}
  permission : Name := {}
  deriving DecidableEq, Repr

namespace PermissionLevel

/-- `PermissionLevel::from(string_view)`: `<actor>@<permission>`. -/
def ofString (value : Str) : Result PermissionLevel :=
  let actor := value.takeWhile (· ≠ 64)
  let permission := (value.dropWhile (· ≠ 64)).drop 1
  if 64 ∉ value ∨ actor = [] ∨ permission = [] ∨ 64 ∈ permission then
    err .invalid
      "Invalid permission level string, should be in the format <actor>@<permission>"
  else .ok { actor := .ofString actor, permission := .ofString permission }

def toString (p : PermissionLevel) : Str := p.actor.toString ++ lit "@" ++ p.permission.toString

/-- `compare`: by actor, then permission. -/
def compare (a b : PermissionLevel) : Int :=
  let byActor := a.actor.compare b.actor
  if byActor ≠ 0 then byActor else a.permission.compare b.permission

end PermissionLevel

/-- `abi_traits<PermissionLevel>`: json also accepts the string form. -/
def AbiTraits.permissionLevel : AbiTraits PermissionLevel where
  abiName := "permission_level"
  toABI v := do
    let actor ← AbiTraits.name.toABI v.actor
    let permission ← AbiTraits.name.toABI v.permission
    return actor ++ permission
  fromABI := do
    let actor ← AbiTraits.name.fromABI
    let permission ← AbiTraits.name.fromABI
    return { actor, permission }
  toJSON v := .obj [(lit "actor", AbiTraits.name.toJSON v.actor),
    (lit "permission", AbiTraits.name.toJSON v.permission)]
  fromJSON j :=
    match j with
    | .str s => PermissionLevel.ofString s
    | _ => do
      expectObject j
      let actor ← AbiTraits.field .name j "actor"
      let permission ← AbiTraits.field .name j "permission"
      return { actor, permission }
  abiDefault := {}

/-! ## Actions -/

/-- An action: who runs it, what it is called, who authorizes it, and its encoded
data. -/
structure Action where
  account : Name := {}
  name : Name := {}
  authorization : List PermissionLevel := []
  data : Bytes := []
  deriving DecidableEq, Repr

/-- `abi_traits<Action>`. -/
def AbiTraits.action : AbiTraits Action where
  abiName := "action"
  toABI v := do
    let account ← AbiTraits.name.toABI v.account
    let name ← AbiTraits.name.toABI v.name
    let authorization ← AbiTraits.permissionLevel.vector.toABI v.authorization
    let data ← AbiTraits.bytes.toABI v.data
    return account ++ name ++ authorization ++ data
  fromABI := do
    let account ← AbiTraits.name.fromABI
    let name ← AbiTraits.name.fromABI
    let authorization ← AbiTraits.permissionLevel.vector.fromABI
    let data ← AbiTraits.bytes.fromABI
    return { account, name, authorization, data }
  toJSON v := .obj [(lit "account", AbiTraits.name.toJSON v.account),
    (lit "name", AbiTraits.name.toJSON v.name),
    (lit "authorization", AbiTraits.permissionLevel.vector.toJSON v.authorization),
    (lit "data", AbiTraits.bytes.toJSON v.data)]
  fromJSON j := do
    expectObject j
    let account ← AbiTraits.field .name j "account"
    let name ← AbiTraits.field .name j "name"
    let authorization ← AbiTraits.field AbiTraits.permissionLevel.vector j "authorization"
    let data ← AbiTraits.field .bytes j "data"
    return { account, name, authorization, data }
  abiDefault := {}

namespace Action

/-- `isBytesValue`: hex strings and arrays of numbers are already encoded. -/
def isBytesValue : Json → Bool
  | .str _ => true
  | .arr items => items.all Json.isNumber
  | _ => false

/-- `normalizeBytesValue`: an array of numbers becomes hex text. -/
def normalizeBytesValue (anyAction : Json) : Json :=
  match anyAction, anyAction.find "data" with
  | .obj members, some (.arr items) =>
    let bytes := items.map (fun item => UInt8.ofInt (item.getInteger.getD 0))
    .obj (Json.insert members "data" (.str (arrayToHex bytes)))
  | _, _ => anyAction

/-- `Action::from(json)`: the data must be encoded already. -/
def ofJson (anyAction : Json) : Result Action :=
  match anyAction.find "data" with
  | some data =>
    if isBytesValue data then AbiTraits.action.fromJSON (normalizeBytesValue anyAction)
    else err .invalid "Missing ABI definition when creating action with untyped action data"
  | none => err .invalid "Missing ABI definition when creating action with untyped action data"

end Action

/-! ## Transactions -/

/-- `TransactionExtension`. -/
structure TransactionExtension where
  type : UInt16 := 0
  data : Bytes := []
  deriving DecidableEq, Repr

/-- `TransactionHeader`. -/
structure TransactionHeader where
  expiration : TimePointSec := {}
  ref_block_num : UInt16 := 0
  ref_block_prefix : UInt32 := 0
  max_net_usage_words : UInt32 := 0
  max_cpu_usage_ms : UInt8 := 0
  delay_sec : UInt32 := 0
  deriving DecidableEq, Repr

/-- `Transaction`. -/
structure Transaction extends TransactionHeader where
  context_free_actions : List Action := []
  actions : List Action := []
  transaction_extensions : List TransactionExtension := []
  deriving DecidableEq, Repr

namespace AbiTraits

def transactionExtension : AbiTraits TransactionExtension where
  abiName := "transaction_extension"
  toABI v := do
    let type ← uint16.toABI v.type
    let data ← bytes.toABI v.data
    return type ++ data
  fromABI := do
    let type ← uint16.fromABI
    let data ← bytes.fromABI
    return { type, data }
  toJSON v := .obj [(lit "type", uint16.toJSON v.type), (lit "data", bytes.toJSON v.data)]
  fromJSON j := do
    expectObject j
    let type ← field uint16 j "type"
    let data ← field bytes j "data"
    return { type, data }
  abiDefault := {}

/-- The members of a header in json. -/
def headerMembers (v : TransactionHeader) : List (Str × Json) :=
  [(lit "expiration", timePointSec.toJSON v.expiration),
   (lit "ref_block_num", uint16.toJSON v.ref_block_num),
   (lit "ref_block_prefix", uint32.toJSON v.ref_block_prefix),
   (lit "max_net_usage_words", varuint32.toJSON v.max_net_usage_words),
   (lit "max_cpu_usage_ms", uint8.toJSON v.max_cpu_usage_ms),
   (lit "delay_sec", varuint32.toJSON v.delay_sec)]

def transactionHeader : AbiTraits TransactionHeader where
  abiName := "transaction_header"
  toABI v := do
    let expiration ← timePointSec.toABI v.expiration
    let num ← uint16.toABI v.ref_block_num
    let pref ← uint32.toABI v.ref_block_prefix
    let net ← varuint32.toABI v.max_net_usage_words
    let cpu ← uint8.toABI v.max_cpu_usage_ms
    let delay ← varuint32.toABI v.delay_sec
    return expiration ++ num ++ pref ++ net ++ cpu ++ delay
  fromABI := do
    let expiration ← timePointSec.fromABI
    let ref_block_num ← uint16.fromABI
    let ref_block_prefix ← uint32.fromABI
    let max_net_usage_words ← varuint32.fromABI
    let max_cpu_usage_ms ← uint8.fromABI
    let delay_sec ← varuint32.fromABI
    return { expiration, ref_block_num, ref_block_prefix, max_net_usage_words, max_cpu_usage_ms,
             delay_sec }
  toJSON v := .obj (headerMembers v)
  fromJSON j := do
    expectObject j
    let expiration ← field timePointSec j "expiration"
    let ref_block_num ← field uint16 j "ref_block_num"
    let ref_block_prefix ← field uint32 j "ref_block_prefix"
    let max_net_usage_words ← field varuint32 j "max_net_usage_words"
    let max_cpu_usage_ms ← field uint8 j "max_cpu_usage_ms"
    let delay_sec ← field varuint32 j "delay_sec"
    return { expiration, ref_block_num, ref_block_prefix, max_net_usage_words, max_cpu_usage_ms,
             delay_sec }
  abiDefault := {}

/-- `abi_traits<Transaction>`: the header's fields come first. -/
def transaction : AbiTraits Transaction where
  abiName := "transaction"
  toABI v := do
    let header ← transactionHeader.toABI v.toTransactionHeader
    let cfa ← action.vector.toABI v.context_free_actions
    let actions ← action.vector.toABI v.actions
    let extensions ← transactionExtension.vector.toABI v.transaction_extensions
    return header ++ cfa ++ actions ++ extensions
  fromABI := do
    let header ← transactionHeader.fromABI
    let context_free_actions ← action.vector.fromABI
    let actions ← action.vector.fromABI
    let transaction_extensions ← transactionExtension.vector.fromABI
    return { header with context_free_actions, actions, transaction_extensions }
  toJSON v := .obj (headerMembers v.toTransactionHeader ++
    [(lit "context_free_actions", action.vector.toJSON v.context_free_actions),
     (lit "actions", action.vector.toJSON v.actions),
     (lit "transaction_extensions", transactionExtension.vector.toJSON v.transaction_extensions)])
  fromJSON j := do
    let header ← transactionHeader.fromJSON j
    let context_free_actions ← field action.vector j "context_free_actions"
    let actions ← field action.vector j "actions"
    let transaction_extensions ← field transactionExtension.vector j "transaction_extensions"
    return { header with context_free_actions, actions, transaction_extensions }
  abiDefault := {}

end AbiTraits

namespace Transaction

/-- `withHeaderDefaults`: the three usage limits default to zero. -/
def withHeaderDefaults (object : Json) : Result Json :=
  match object with
  | .obj members =>
    .ok (.obj (members.foldl (fun merged m => Json.insert merged m.1 m.2)
      [(lit "max_net_usage_words", .int 0), (lit "max_cpu_usage_ms", .int 0),
       (lit "delay_sec", .int 0)]))
  | _ => thrown "[json.exception.type_error.312] cannot use update()"

/-- `Transaction::from(json)`: actions must be encoded already; a missing list is
empty. -/
def ofJson (object : Json) : Result Transaction := do
  let merged ← withHeaderDefaults object
  let header ← AbiTraits.transactionHeader.fromJSON merged
  let actions ← (object.jsonAt "actions").elements.mapM Action.ofJson
  let context_free_actions ← (object.jsonAt "context_free_actions").elements.mapM Action.ofJson
  let extensions := object.jsonAt "transaction_extensions"
  let transaction_extensions ←
    if extensions.isNull then .ok [] else AbiTraits.transactionExtension.vector.fromJSON extensions
  return { header with context_free_actions, actions, transaction_extensions }

/-- The bytes of a transaction, or what was written before an error. -/
def encoded (tx : Transaction) : Bytes :=
  match AbiTraits.transaction.toABI tx with
  | .ok bytes => bytes
  | .error _ => []

/-- `id`. -/
def id (crypto : Crypto) (tx : Transaction) : Checksum256 := crypto.sha256 tx.encoded

/-- `equals`: the same id. -/
def equals (crypto : Crypto) (tx other : Transaction) : Bool := tx.id crypto = other.id crypto

/-- `signingData`: the chain id, the transaction and 32 zero bytes. -/
def signingData (tx : Transaction) (chainId : Checksum256) : Bytes :=
  chainId.array ++ tx.encoded ++ List.replicate 32 0

/-- `signingDigest`. -/
def signingDigest (crypto : Crypto) (tx : Transaction) (chainId : Checksum256) : Checksum256 :=
  crypto.sha256 (tx.signingData chainId)

end Transaction

end Dwarfkit
