/-
# Creating signing requests

`SigningRequest::create` and `SigningRequest::identity`: json actions are encoded with
the ABIs that are at hand or fetched, the request data is typed, and chain, flags,
callback and info pairs are set.

* `create_eq_ok` : the parts of a created request;
* `identity_eq_ok` : an identity request with a scope has version 3, the scope, and no
  broadcast flag.
-/
import Dwarfkit.SigningRequest.Resolve
import Dwarfkit.SigningRequest.Encoding

namespace Dwarfkit

open Wire

/-! ## Arguments -/

/-- `CallbackType`. -/
structure CallbackType where
  url : Str
  background : Bool := false

/-- `SigningRequestCreateArguments`. -/
structure SigningRequestCreateArguments where
  action : Option Json := none
  actions : Option Json := none
  transaction : Option Json := none
  identity : Option Json := none
  chainId : Option ChainId := none
  anyChain : Bool := false
  chainIds : List ChainId := []
  broadcast : Option Bool := none
  callback : Option CallbackType := none
  info : List InfoPair := []

/-- `SigningRequestCreateIdentityArguments`. -/
structure SigningRequestCreateIdentityArguments where
  callback : CallbackType
  account : Option Name := none
  permission : Option Name := none
  scope : Option Name := none
  chainId : Option ChainId := none
  anyChain : Bool := false
  chainIds : List ChainId := []
  info : List InfoPair := []

/-- `SigningRequestEncodingOptions`, without the compression wish. -/
structure SigningRequestEncodingOptions where
  abiProvider : Option AbiProvider := none
  signatureProvider : Option (Checksum256 → Result RequestSignature) := none

/-! ## Json actions -/

namespace Json

/-- `j[key] = v`: null becomes an object, any other value but an object throws. -/
def assign (j : Json) (key : Str) (v : Json) : Result Json :=
  match j with
  | .obj members => .ok (.obj (insert members key v))
  | .null => .ok (.obj [(key, v)])
  | _ => thrown "[json.exception.type_error.305] cannot use operator[] with a string argument"

/-- `at(0)`. -/
def first (j : Json) : Result Json :=
  match j with
  | .arr (item :: _) => .ok item
  | .arr [] => thrown "[json.exception.out_of_range.401] array index 0 is out of range"
  | _ => thrown "[json.exception.type_error.304] cannot use at()"

end Json

namespace Action

/-- The name of a json action; it may be left out. -/
def jsonName (anyAction : Json) : Result Str :=
  match anyAction.find "name" with
  | some name => name.getStr
  | none => .ok []

/-- `Action::from(json, abi)`: data that is not encoded yet is encoded with the ABI. -/
def ofJsonWith (p : Platform) (anyAction : Json) (withAbi : ABI) : Result Action :=
  let data := (anyAction.find "data").getD .null
  if isBytesValue data then AbiTraits.action.fromJSON (normalizeBytesValue anyAction)
  else do
    let actionName ← jsonName anyAction
    match withAbi.getActionType (.ofString actionName) with
    | none => err .invalid (lit "The action \"" ++ actionName ++
        lit "\" does not exist on the ABI provided.")
    | some type => do
      let encoded ← Serializer.encode p data type withAbi
      let object ← anyAction.assign "data" (.str (arrayToHex encoded))
      AbiTraits.action.fromJSON object

end Action

namespace SigningRequest

/-- `encodeAction` of the source, as json: actions with object data need an ABI. -/
def encodeActionJson (p : Platform) (abis : AbiMap) (action : Json) : Result Json :=
  match (action.find "data").map Action.isBytesValue with
  | some true => do
    let typed ← Action.ofJson action
    return AbiTraits.action.toJSON typed
  | _ => do
    let account ← action.valueStr "account" []
    match abis.find (Name.ofString account).toString with
    | none => err .invalid (lit "Missing ABI for " ++ account)
    | some abi => do
      let typed ← Action.ofJsonWith p action abi
      return AbiTraits.action.toJSON typed

/-- The actions that may need an ABI. -/
def actionList (args : SigningRequestCreateArguments) : List Json :=
  match args.action, args.actions, args.transaction with
  | some action, _, _ => [action]
  | none, some actions, _ => actions.elements
  | none, none, some transaction => ((transaction.find "actions").getD .null).elements
  | none, none, none => []

/-- The ABI of an action's account is fetched if its data is not encoded and the ABI is
not at hand. -/
def fetchMissing (options : SigningRequestEncodingOptions) (abis : AbiMap) (action : Json) :
    Result AbiMap :=
  match (action.find "data").map Action.isBytesValue with
  | some false => do
    let text ← action.valueStr "account" []
    let account := Name.ofString text
    match abis.find account.toString, options.abiProvider with
    | some _, _ => return abis
    | none, none => err .invalid "Missing abi provider"
    | none, some getAbi => do
      let abi ← getAbi account
      return abis.emplace account.toString abi
  | _ => .ok abis

/-! ## The request value -/

/-- The fields a transaction gets when it does not have them. -/
def transactionDefaults : List (Str × Json) := [
  (lit "expiration", .str "1970-01-01T00:00:00.000"), (lit "ref_block_num", .int 0),
  (lit "ref_block_prefix", .int 0), (lit "context_free_actions", .arr []),
  (lit "transaction_extensions", .arr []), (lit "delay_sec", .int 0),
  (lit "max_cpu_usage_ms", .int 0), (lit "max_net_usage_words", .int 0), (lit "actions", .arr [])]

/-- Set a default unless the key is there. -/
def setDefault (tx : Json) (entry : Str × Json) : Result Json :=
  if tx.contains entry.1 then .ok tx else tx.assign entry.1 entry.2

/-- The type and the json value of the request. -/
def requestValue (p : Platform) (args : SigningRequestCreateArguments) (abis : AbiMap) :
    Result (Str × Json) :=
  match args.identity, args.action, args.actions, args.transaction with
  | some identity, _, _, _ => .ok (lit "identity", identity)
  | none, some action, none, none => do
    let encoded ← encodeActionJson p abis action
    return (lit "action", encoded)
  | none, none, some actions, none =>
    if actions.elements.length = 1 then do
      let action ← actions.first
      let encoded ← encodeActionJson p abis action
      return (lit "action", encoded)
    else do
      let encoded ← actions.elements.mapM (encodeActionJson p abis)
      return (lit "action[]", .arr encoded)
  | none, none, none, some transaction => do
    let tx ← transactionDefaults.foldlM setDefault transaction
    let actions ← tx.atKey "actions"
    let encoded ← actions.elements.mapM (encodeActionJson p abis)
    let tx ← tx.assign "actions" (.arr encoded)
    return (lit "transaction", tx)
  | _, _, _, _ => err .invalid (lit "Invalid arguments: Must have exactly one of action, " ++
      lit "actions or transaction")

/-! ## Version, chain, flags and info -/

/-- Multi-chain requests and scoped identities require version 3. -/
def requestVersion (args : SigningRequestCreateArguments) : ℕ :=
  if args.anyChain ∨ (args.identity.map (·.contains "scope")).getD false then 3 else 2

/-- The chain id variant. -/
def requestChain (args : SigningRequestCreateArguments) : Result ChainIdVariant :=
  if args.anyChain then .ok (.alias 0)
  else match args.chainId with
    | some id => .ok id.chainVariant
    | none => do
      let eos ← ChainId.ofAlias ChainName.eos.toUInt8
      return eos.chainVariant

/-- The flags: broadcast unless that is an identity request, or as asked for. -/
def requestFlags (args : SigningRequestCreateArguments) (reqType : Str) : RequestFlags :=
  let flags := ({} : RequestFlags).setBroadcast (args.broadcast.getD (reqType ≠ lit "identity"))
  match args.callback with
  | some callback => flags.setBackground callback.background
  | none => flags

/-- The callback url. -/
def requestCallback (args : SigningRequestCreateArguments) : Str :=
  match args.callback with
  | some callback => callback.url
  | none => []

/-- The info pairs; the chains a multi-chain request is for go last. -/
def requestInfo (args : SigningRequestCreateArguments) : Result (List InfoPair) :=
  if args.chainIds ≠ [] ∧ args.anyChain then do
    let encoded ← AbiTraits.chainIdVariant.vector.toABI (args.chainIds.map ChainId.chainVariant)
    return args.info ++ [{ key := "chain_ids", value := encoded }]
  else .ok args.info

/-- The typed data of a version. -/
def typedData {I : Type} (identity : AbiTraits I) (chain_id : ChainIdVariant) (flags : RequestFlags)
    (callback : Str) (info : List InfoPair) (reqJson : Json) : Result (RequestData I) := do
  let req ← (AbiTraits.requestVariant identity).fromJSON reqJson
  return { chain_id, req, flags, callback, info }

/-- The data of the request in its version. -/
def versionedData (version : ℕ) (chain_id : ChainIdVariant) (flags : RequestFlags)
    (callback : Str) (info : List InfoPair) (reqJson : Json) : Result VersionedData :=
  if version = 2 then
    VersionedData.v2 <$> typedData AbiTraits.identityV2 chain_id flags callback info reqJson
  else VersionedData.v3 <$> typedData AbiTraits.identityV3 chain_id flags callback info reqJson

/-! ## Signing -/

/-- `getSignatureDigest`: over the version, `request` and the data. -/
def getSignatureDigest (crypto : Crypto) (request : SigningRequest) : Checksum256 :=
  crypto.sha256 (request.version.toUInt8 :: lit "request" ++ request.getData)

/-- `sign`, if there is a signature provider. -/
def signWith (crypto : Crypto) (options : SigningRequestEncodingOptions)
    (request : SigningRequest) : Result SigningRequest :=
  match options.signatureProvider with
  | none => .ok request
  | some sign => do
    let sig ← sign (request.getSignatureDigest crypto)
    return { request with signature := some sig }

/-! ## Creation -/

/-- `create`. -/
def create (p : Platform) (args : SigningRequestCreateArguments)
    (options : SigningRequestEncodingOptions := {}) (presetAbis : AbiMap := []) :
    Result SigningRequest := do
  let abis ← (actionList args).foldlM (fetchMissing options) presetAbis
  let version := requestVersion args
  let (reqType, reqValue) ← requestValue p args abis
  let chain_id ← requestChain args
  let info ← requestInfo args
  let data ← versionedData version chain_id (requestFlags args reqType) (requestCallback args) info
    (.arr [.str reqType, reqValue])
  let request : SigningRequest := { version, data }
  if request.isIdentity && request.data.flags.broadcast then
    err .invalid "Invalid request (identity request cannot be broadcast)"
  else request.signWith p.toCrypto options

/-- The json of an identity. -/
def identityJson (args : SigningRequestCreateIdentityArguments) : Json :=
  let actor := args.account.getD placeholderName
  let permission := args.permission.getD placeholderPermission
  let members :=
    if actor = placeholderName ∧ permission = placeholderPermission then []
    else [(lit "permission", Json.obj [(lit "actor", .str actor.toString),
      (lit "permission", .str permission.toString)])]
  match args.scope with
  | some scope => .obj (members ++ [(lit "scope", .str scope.toString)])
  | none => .obj members

/-- `SigningRequest::identity`. -/
def identity (p : Platform) (args : SigningRequestCreateIdentityArguments)
    (options : SigningRequestEncodingOptions := {}) : Result SigningRequest :=
  create p {
    identity := some (identityJson args)
    chainId := args.chainId
    anyChain := args.anyChain
    chainIds := args.chainIds
    callback := some args.callback
    broadcast := some false
    info := args.info } options

/-! ## The parts of a created request -/

/-- Signing keeps the version and the data. -/
theorem signWith_eq_ok {crypto : Crypto} {options : SigningRequestEncodingOptions}
    {request rv : SigningRequest} (h : request.signWith crypto options = .ok rv) :
    rv.version = request.version ∧ rv.data = request.data := by
  unfold signWith at h
  cases hsign : options.signatureProvider with
  | none =>
    rw [hsign] at h
    cases h
    exact ⟨rfl, rfl⟩
  | some sign =>
    rw [hsign] at h
    obtain ⟨sig, -, h⟩ := bind_eq_ok.mp h
    cases h
    exact ⟨rfl, rfl⟩

/-- **The parts of a created request.** -/
theorem create_eq_ok {p : Platform} {args : SigningRequestCreateArguments}
    {options : SigningRequestEncodingOptions} {presetAbis : AbiMap} {rv : SigningRequest}
    (h : create p args options presetAbis = .ok rv) :
    ∃ abis reqType reqValue chain_id info,
      (actionList args).foldlM (fetchMissing options) presetAbis = .ok abis ∧
      requestValue p args abis = .ok (reqType, reqValue) ∧
      requestChain args = .ok chain_id ∧ requestInfo args = .ok info ∧
      rv.version = requestVersion args ∧
      versionedData (requestVersion args) chain_id (requestFlags args reqType)
        (requestCallback args) info (.arr [.str reqType, reqValue]) = .ok rv.data ∧
      (rv.isIdentity && rv.data.flags.broadcast) = false := by
  obtain ⟨abis, habis, h⟩ := bind_eq_ok.mp h
  obtain ⟨⟨reqType, reqValue⟩, hvalue, h⟩ := bind_eq_ok.mp h
  obtain ⟨chain_id, hchain, h⟩ := bind_eq_ok.mp h
  obtain ⟨info, hinfo, h⟩ := bind_eq_ok.mp h
  obtain ⟨data, hdata, h⟩ := bind_eq_ok.mp h
  simp only at h
  by_cases hbroadcast : (({ version := requestVersion args, data } : SigningRequest).isIdentity &&
      data.flags.broadcast) = true
  · rw [if_pos hbroadcast] at h
    cases h
  · rw [if_neg hbroadcast] at h
    obtain ⟨hversion, hsame⟩ := signWith_eq_ok h
    refine ⟨abis, reqType, reqValue, chain_id, info, habis, hvalue, hchain, hinfo, hversion, ?_, ?_⟩
    · rw [hsame]
      exact hdata
    · unfold isIdentity at hbroadcast ⊢
      rw [hsame]
      simpa using hbroadcast

/-- **An identity request with a scope**, for no account in particular: version 3, the
scope, no broadcast flag, and the chain and info pairs of the arguments. -/
theorem identity_eq_ok {p : Platform} {args : SigningRequestCreateIdentityArguments}
    {options : SigningRequestEncodingOptions} {rv : SigningRequest} {scope : Name}
    (hscope : args.scope = some scope) (haccount : args.account = none)
    (hpermission : args.permission = none) (h : identity p args options = .ok rv) :
    ∃ chain_id info,
      requestChain { chainId := args.chainId, anyChain := args.anyChain } = .ok chain_id ∧
      requestInfo { anyChain := args.anyChain, chainIds := args.chainIds, info := args.info } =
        .ok info ∧
      rv.version = 3 ∧
      rv.data = .v3 {
        chain_id
        req := .identity { scope }
        flags := (({} : RequestFlags).setBroadcast false).setBackground args.callback.background
        callback := args.callback.url
        info } := by
  obtain ⟨abis, reqType, reqValue, chain_id, info, -, hvalue, hchain, hinfo, hversion, hdata, -⟩ :=
    create_eq_ok h
  have hjson : identityJson args = .obj [(lit "scope", .str scope.toString)] := by
    unfold identityJson
    rw [hscope, haccount, hpermission]
    rfl
  -- A scope asks for version 3.
  have hversion3 : requestVersion {
      identity := some (identityJson args)
      chainId := args.chainId
      anyChain := args.anyChain
      chainIds := args.chainIds
      callback := some args.callback
      broadcast := some false
      info := args.info } = 3 := by
    unfold requestVersion
    rw [hjson]
    exact if_pos (.inr rfl)
  cases hvalue
  rw [hversion3] at hversion hdata
  rw [hjson] at hdata
  have hreq : (AbiTraits.requestVariant AbiTraits.identityV3).fromJSON
      (.arr [.str (lit "identity"), .obj [(lit "scope", .str scope.toString)]]) =
      .ok (.identity { scope := .ofString scope.toString }) := rfl
  rw [Name.ofString_toString] at hreq
  refine ⟨chain_id, info, hchain, hinfo, hversion, ?_⟩
  unfold versionedData typedData at hdata
  rw [if_neg (by decide), hreq] at hdata
  exact (Except.ok.inj hdata).symm

end SigningRequest

end Dwarfkit
