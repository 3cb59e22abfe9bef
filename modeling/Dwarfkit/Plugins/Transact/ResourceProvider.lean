/-
# Resource providers

`TransactPluginResourceProvider` of `plugins/transact/resource_provider.cpp`: a remote
service is offered the transaction, and what it answers with is taken in its place if it has
the original actions, adds nothing but what is allowed, and does not cost too much.
-/
import Dwarfkit.Plugins.Transact.AutoCorrect

namespace Dwarfkit

open Effects Wire

/-! ## Json -/

/-- `get<int>()`: of a number or a boolean. -/
def Json.getInt (j : Json) : Result Int32 :=
  match j with
  | .int n => .ok n.toInt32
  | .uint n => .ok n.toUInt32.toInt32
  | .float d => .ok (Int32.ofInt d.trunc)
  | .bool b => .ok (if b then 1 else 0)
  | _ => thrown "[json.exception.type_error.302] type must be number"

/-- `value(key, 0)`. -/
def Json.valueInt (j : Json) (key : Str) : Result Int32 := do
  let v ← j.valueOr key (.int 0)
  v.getInt

/-- `Serializer::objectify` of a resolved action. -/
def ResolvedAction.toJSON (action : ResolvedAction) : Json :=
  .obj [(lit "account", AbiTraits.name.toJSON action.account),
    (lit "name", AbiTraits.name.toJSON action.name),
    (lit "authorization", AbiTraits.permissionLevel.vector.toJSON action.authorization),
    (lit "data", action.data)]

/-- `Serializer::objectify` of a resolved transaction. -/
def ResolvedTransaction.toJSON (tx : ResolvedTransaction) : Json :=
  .obj (AbiTraits.headerMembers tx.toTransactionHeader ++
    [(lit "context_free_actions", .arr (tx.context_free_actions.map ResolvedAction.toJSON)),
     (lit "actions", .arr (tx.actions.map ResolvedAction.toJSON)),
     (lit "transaction_extensions",
        AbiTraits.transactionExtension.vector.toJSON tx.transaction_extensions)])

namespace ResourceProvider

/-! ## Actions -/

/-- `sameActionAs`. -/
def sameActionAs (original modified : Action) : Bool :=
  let matchesAuthorization :=
    original.authorization.length = modified.authorization.length &&
      !original.authorization.isEmpty &&
      (original.authorization.zip modified.authorization).all
        (fun (a, b) => a.actor = b.actor && a.permission = b.permission)
  original.account = modified.account && original.name = modified.name && matchesAuthorization &&
    original.data = modified.data

/-- `hasOriginalActions`. -/
def hasOriginalActions (original modified : Transaction) : Bool :=
  original.actions.all (fun originalAction =>
    modified.actions.any (fun modifiedAction => sameActionAs originalAction modifiedAction))

/-- `getNewActions`. -/
def getNewActions (original modified : Transaction) : List Action :=
  modified.actions.filter (fun modifiedAction =>
    !original.actions.any (fun originalAction => sameActionAs originalAction modifiedAction))

/-- `Transfer`. -/
structure Transfer where
  from_ : Name
  to_ : Name
  quantity : Asset
  memo : Str

/-- `Serializer::decode<Transfer>`. -/
def Transfer.fromABI : Decoder Transfer := do
  let from_ ← AbiTraits.name.fromABI
  let to_ ← AbiTraits.name.fromABI
  let quantity ← AbiTraits.asset.fromABI
  let memo ← AbiTraits.string.fromABI
  return { from_, to_, quantity, memo }

/-- `BuyRAMBytes`. -/
structure BuyRAMBytes where
  payer : Name
  receiver : Name
  bytes : UInt32 := 0

/-- `Serializer::decode<BuyRAMBytes>`. -/
def BuyRAMBytes.fromABI : Decoder BuyRAMBytes := do
  let payer ← AbiTraits.name.fromABI
  let receiver ← AbiTraits.name.fromABI
  let bytes ← AbiTraits.uint32.fromABI
  return { payer, receiver, bytes }

/-- The value that some bytes start with. -/
def decode {α : Type} (d : Decoder α) (data : Bytes) : Result α := do
  let (value, _) ← d.run data
  return value

def isNoop (action : Action) : Bool := action.name = .ofString "noop"

def isTransfer (action : Action) : Bool :=
  action.name = .ofString "transfer" &&
    (action.account = .ofString "eosio.token" || action.account = .ofString "core.vaulta")

def isBuyRAMBytes (action : Action) : Bool :=
  action.name = .ofString "buyrambytes" &&
    (action.account = .ofString "eosio" || action.account = .ofString "core.vaulta")

/-! ## What the user is told -/

/-- `id`. -/
def pluginId : Str := lit "transact-plugin-resource-provider"

/-- A reason to go on with the original request: its key and its default text. -/
structure Refusal where
  key : Str
  defaultValue : Str
  deriving DecidableEq

def noFees : Refusal where
  key := "rejected.no-fees"
  defaultValue := "A resource provider offered to cover this transaction for a fee, but fee-based transactions are disabled by the configuration using `allowFees = false`."

def originalModified : Refusal where
  key := "rejected.original-modified"
  defaultValue := "The original transaction returned by the resource provider has been modified too much. Continuing without the resource provider"

def unexpectedAction : Refusal where
  key := "rejected.unexpected-action"
  defaultValue := "The resource provider added an unexpected action to the transaction."

def invalidBuyrambytes : Refusal where
  key := "rejected.invalid-buyrambytes"
  defaultValue := "The resource provider added a RAM purchase for an account other than the requesting account."

def overMaxFee : Refusal where
  key := "rejected.max-fee"
  defaultValue := "The fee requested by the resource provider is unusually high and has been rejected."

/-- `willContinue`. -/
def willContinue (t : UserInterfaceTranslateFunction) : Str :=
  t "will-continue"
    { defaultValue := "The transaction will continue without the resource provider." }

/-- The default body of the prompt. -/
def feeBody : Str :=
  lit "Additional resources (\x7b\x7bresource\x7d\x7d) are required for your account to perform this transaction. Would you like to automatically purchase these resources and proceed?"

/-- The prompt for the fee. -/
def feePrompt (t : UserInterfaceTranslateFunction) (fee : Asset) (resourceTypes : List Str) :
    PromptArgs :=
  let values : Json := .obj [(lit "resource", .str (List.intercalate (lit "/") resourceTypes))]
  let cost : PromptElement := {
    type := .asset
    data := .obj [
      (lit "label", .str (t "fee.cost" { defaultValue := "Cost of \x7b\x7bresource\x7d\x7d", values })),
      (lit "value", .str fee.toString)] }
  { title := t "fee.title" { defaultValue := "Accept Transaction Fee?" }
    body := some (t "fee.body" { defaultValue := feeBody, values })
    elements := [cost, { type := .accept }] }

/-! ## The response -/

/-- `["data"]["request"]` of a response that has at least two items there. -/
def responseRequest (response : Json) : Option (Json × Json) :=
  match (response.jsonAt "data").find "request" with
  | some (.arr (variant :: value :: _)) => some (variant, value)
  | _ => none

/-- `getModifiedTransaction`. -/
def getModifiedTransaction (response : Json) : Result Transaction :=
  match responseRequest response with
  | some (.str variant, value) =>
    if variant = lit "action" then
      err .plugin "A resource provider providing an \"action\" is not supported."
    else if variant = lit "actions" then
      err .plugin "A resource provider providing \"actions\" is not supported."
    else if variant = lit "transaction" then AbiTraits.transaction.fromJSON value
    else err .plugin "Invalid request type provided by resource provider."
  | _ => err .plugin "Invalid request provided by resource provider."

/-- `validateResponseData`. -/
def validateResponseData (response : Json) : Result Unit :=
  if response.isObject then do
    let data := response.jsonAt "data"
    let code ← response.valueInt "code"
    if code = 402 ∧ data.contains "fee" = false then
      err .plugin ("Resource provider returned a response indicating required payment, but " ++
        "provided no fee amount.")
    else
      match data.find "signatures" with
      | some (.arr (_ :: _)) => .ok ()
      | _ => err .plugin "Resource provider did not return a signature."
  else err .plugin "Resource provider did not respond to the request."

/-- The signatures of a response. -/
def readSignatures (p : Platform) (response : Json) : Result (List Signature) :=
  ((response.jsonAt "data").jsonAt "signatures").elements.mapM (fun sig => do
    let text ← sig.getStr
    Signature.ofString p.toCrypto text)

/-- `value() > 0`. -/
def isPositive (fee : Asset) : Bool := 0 < fee.units

/-- `costValue(key) > 0`. -/
def costs (costs : Json) (key : Str) : Result Bool := do
  let text ← costs.valueStr key "0.0000 EOS"
  match Asset.fromString text with
  | .ok asset => return isPositive asset
  | .error _ => return false

/-- `resourceTypes`: what a fee is for. -/
def resourceTypes (response : Json) : Result (List Str) :=
  match (response.jsonAt "data").find "costs" with
  | some j => do
    let cpu ← costs j "cpu"
    let net ← costs j "net"
    let ram ← costs j "ram"
    return (if cpu then [lit "CPU"] else []) ++ (if net then [lit "NET"] else []) ++
      (if ram then [lit "RAM"] else [])
  | none => .ok ["Unknown"]

/-! ## Fees -/

/-- The first reason to refuse added actions, if there is one. -/
def refusal (actor : Name) : List Action → Result (Option Refusal)
  | [] => .ok none
  | action :: rest =>
    if !isNoop action && !isTransfer action && !isBuyRAMBytes action then .ok (some unexpectedAction)
    else if isBuyRAMBytes action then do
      let decoded ← decode BuyRAMBytes.fromABI action.data
      if decoded.receiver = actor then refusal actor rest else return some invalidBuyrambytes
    else refusal actor rest

/-- The quantities of added transfers. -/
def transferFees (addedActions : List Action) : Result (List Asset) :=
  (addedActions.filter isTransfer).mapM (fun action => do
    let decoded ← decode Transfer.fromABI action.data
    return decoded.quantity)

/-- The prices of added RAM purchases. -/
def ramFees (p : Platform) (ram : AutoCorrect.RAMState) (addedActions : List Action) :
    Result (List Asset) :=
  (addedActions.filter isBuyRAMBytes).mapM (fun action => do
    let decoded ← decode BuyRAMBytes.fromABI action.data
    ram.price_per (p.ofUInt64 decoded.bytes.toUInt64))

/-- `addedFees`. -/
def sumFees (allFees : List Asset) : Asset where
  units := allFees.foldl (fun units fee => units + fee.units) 0
  symbol :=
    match allFees with
    | [] => (AssetSymbol.ofString "4,TOKEN").toOption.getD {}
    | fee :: _ => fee.symbol

/-! ## The plugin -/

/-- `defaultEndpoints`. -/
def defaultEndpoints : List (Str × Str) := [
  ("aca376f206b8fc25a6ed44dbdc66547c36c6c33e3a119ffbeaef943642f0e906", "https://eos.greymass.com"),
  ("73e4385a2708e6d7048834fbc1079f2fabb17b3c125b146af438971e90716c4d",
    "https://jungle4.greymass.com"),
  ("4667b205c6838ef70ff7988f6e8257e8be0e1284a2f59699054a018f743b1d11", "https://telos.greymass.com"),
  ("1064487b3cd1a897ce03ae5b6a865651747e2e152090f99c1d19d44e01aea5a4", "https://wax.greymass.com")]

/-- `FetchRequest`.  The body is ASCII, so that `dump` always writes it. -/
structure FetchRequest where
  url : Str
  method : Str
  body : Json

/-- `FetchResponse`. -/
structure FetchResponse where
  status : ℤ
  body : Str

end ResourceProvider

open ResourceProvider

/-- `TransactPluginResourceProvider`, with what it runs with: the context, the fetch
provider, the RAM market of the chain, and the libraries. -/
structure ResourceProvider (W : Type) where
  allowFees : Bool := true
  maxFee : Option Asset := none
  endpoints : List (Str × Str) := defaultEndpoints
  p : Platform
  zlib : Zlib
  parse : Str → Option Json
  context : Transact.TransactContext W
  fetch : Option (FetchRequest → Effect W Error FetchResponse)
  ramState : Effect W Error AutoCorrect.RAMState

namespace ResourceProvider

variable {W : Type} (plugin : ResourceProvider W)

/-- `t`: the user interface's, or the default texts. -/
def t : UserInterfaceTranslateFunction :=
  match plugin.context.ui with
  | some ui => ui.getTranslate pluginId
  | none => fun _ options => options.defaultValue

/-- `getEndpoint`. -/
def getEndpoint : Str :=
  match plugin.endpoints.find? (fun entry => entry.1 = plugin.context.chain.id.hexString) with
  | some entry => entry.2
  | none => []

/-- The user is told why the offer is not taken. -/
def tell (refusal : Refusal) : Effect W Error Unit :=
  match plugin.context.ui with
  | some ui => ui.status (plugin.t refusal.key { defaultValue := refusal.defaultValue } ++
      lit " " ++ willContinue plugin.t)
  | none => pure ()

/-- `modifiedArgs`: the request as a transaction, with TaPoS values if it requires them. -/
def modifiedArgs (request : SigningRequest) :
    Effect W Error SigningRequestCreateArguments := do
  let abiCache ← look plugin.context.abiCache
  let abis ← outcome (request.fetchAbis (some abiCache))
  if Transact.requiresTapos request then do
    let info ← plugin.context.getInfo
    let header := info.getTransactionHeader 120
    let now ← look plugin.context.now
    let resolved ← outcome (request.resolveTransaction plugin.p now abis
      plugin.context.permissionLevel (Transact.TransactContext.taposContext header))
    let chainId ← outcome request.getChainId
    let ids ← outcome (if request.isMultiChain then request.getChainIds else .ok none)
    return { transaction := some resolved.toJSON, chainId := some chainId, chainIds := ids.getD [] }
  else do
    let now ← look plugin.context.now
    let resolved ← outcome (request.resolveTransaction plugin.p now abis
      plugin.context.permissionLevel {})
    return { transaction := some resolved.toJSON }

/-- `modifiedRequest`. -/
def modifiedRequest (request : SigningRequest) : Effect W Error SigningRequest := do
  let args ← plugin.modifiedArgs request
  let abiCache ← look plugin.context.abiCache
  outcome (SigningRequest.create plugin.p args { abiProvider := some abiCache })

/-- `validateRequest`. -/
def validateRequest (request : SigningRequest) : Result Unit := do
  let actions ← request.getRawActions
  match actions with
  | { authorization := level :: _, .. } :: _ =>
    if level.actor = plugin.context.permissionLevel.actor then return ()
    else err .plugin "The first authorizer of the transaction does not match this session."
  | _ => err .plugin "The first authorizer of the transaction does not match this session."

/-- The status and the body of the service's response, if there is one. -/
def response (endpoint : Str) (modifiedRequest : SigningRequest) :
    Effect W Error (Option (ℤ × Json)) :=
  match plugin.fetch with
  | none => return none
  | some fetch => do
    let response ← attempt (fetch {
      url := endpoint ++ lit "/v1/resource_provider/request_transaction"
      method := "POST"
      body := .obj [
        (lit "request", .str (modifiedRequest.encode plugin.zlib plugin.p)),
        (lit "signer", AbiTraits.permissionLevel.toJSON plugin.context.permissionLevel)] })
    match response with
    | .error _ => return none
    | .ok response => return (plugin.parse response.body).map (fun j => (response.status, j))

/-- `allFees`. -/
def allFees (addedActions : List Action) : Effect W Error (List Asset) := do
  let transfers ← outcome (transferFees addedActions)
  if (addedActions.filter isBuyRAMBytes).isEmpty then return transfers
  else do
    let ram ← plugin.ramState
    let prices ← outcome (ramFees plugin.p ram addedActions)
    return transfers ++ prices

/-- What the offer costs, if it can be taken. -/
def vet (modifiedRequest : SigningRequest) (responseJson : Json) :
    Effect W Error (Option Asset) := do
  let modifiedTransaction ← outcome (getModifiedTransaction responseJson)
  let rawTransaction ← outcome modifiedRequest.getRawTransaction
  if hasOriginalActions rawTransaction modifiedTransaction then do
    let addedActions := getNewActions rawTransaction modifiedTransaction
    let refused ← outcome (refusal plugin.context.permissionLevel.actor addedActions)
    match refused with
    | some reason => do
      plugin.tell reason
      return none
    | none => do
      let fees ← plugin.allFees addedActions
      let addedFees := sumFees fees
      match plugin.maxFee with
      | some maxFee =>
        if maxFee.units < addedFees.units then do
          plugin.tell overMaxFee
          return none
        else return some addedFees
      | none => return some addedFees
  else do
    plugin.tell originalModified
    return none

/-- The fee of a response that requires a payment, on the request. -/
def setFee (data : Json) (code : Int32) (request : SigningRequest) : Result SigningRequest :=
  match data.find "fee" with
  | some (.str text) =>
    if code = 402 then do
      let fee ← Asset.fromString text
      let encoded ← AbiTraits.asset.toABI fee
      return request.setRawInfoKey "txfee" encoded
    else .ok request
  | _ => .ok request

/-- `createRequest`: the request of the response, with the fee and its costs. -/
def createRequest (response : Json) : Effect W Error SigningRequest :=
  match responseRequest response with
  | none => outcome (err .plugin "Invalid request provided by resource provider.")
  | some (_, transaction) => do
    let request ← plugin.context.createRequest plugin.p transaction
    let data := response.jsonAt "data"
    let code ← outcome (if (response.jsonAt "code").isNumberInteger then
      (response.jsonAt "code").getInt else .ok 0)
    let request ← outcome (setFee data code request)
    if (data.jsonAt "costs").isObject then
      let cost := fun key => (data.jsonAt "costs").jsonStr key
      return ((request.setRawInfoKey "txfeecpu" (cost "cpu")).setRawInfoKey "txfeenet"
        (cost "net")).setRawInfoKey "txfeeram" (cost "ram")
    else return request

/-- The response is used: its request is created, its signatures are read, and the user is
asked to accept the fee. -/
def conclude (request : SigningRequest) (responseJson : Json) (addedFees : Asset) :
    Effect W Error Transact.TransactHookResponse := do
  outcome (validateResponseData responseJson)
  let modified ← plugin.createRequest responseJson
  let signatures ← outcome (readSignatures plugin.p responseJson)
  match plugin.context.ui, isPositive addedFees with
  | some ui, true => do
    let resources ← outcome (resourceTypes responseJson)
    let promptResponse ← attempt (ui.prompt (feePrompt plugin.t addedFees resources))
    match promptResponse with
    | .ok () => return { request := modified, signatures }
    | .error error =>
      if error.kind = .canceled then outcome (.error error) else return { request }
  | _, _ => return { request := modified, signatures }

/-- Whether the offer is taken, and what it costs: up to the check of the fee. -/
def review (request : SigningRequest) : Effect W Error (Option (Json × Asset)) :=
  if plugin.getEndpoint = [] then return none
  else do
    let modifiedRequest ← plugin.modifiedRequest request
    outcome (plugin.validateRequest modifiedRequest)
    let response ← plugin.response plugin.getEndpoint modifiedRequest
    match response with
    | none => return none
    | some (status, responseJson) =>
      if status ≠ 200 ∧ status ≠ 402 then return none
      else if status = 402 ∧ plugin.allowFees = false then do
        plugin.tell noFees
        return none
      else do
        let addedFees ← plugin.vet modifiedRequest responseJson
        return addedFees.map (fun addedFees => (responseJson, addedFees))

/-- `request`. -/
def request (request : SigningRequest) : Effect W Error Transact.TransactHookResponse := do
  let offer ← plugin.review request
  match offer with
  | none => return { request }
  | some (responseJson, addedFees) => plugin.conclude request responseJson addedFees

end ResourceProvider

end Dwarfkit
