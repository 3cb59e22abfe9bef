/-
# The Anchor wallet

`WalletPluginAnchor` (`plugins/wallet/anchor.cpp`) with its modes, its web authenticators and
its two transports.  A login leaves keys and a channel in the plugin's data; a sign sends the
request there, sealed, or opens it in a browser, and waits for the answer on a channel of its
own.  What the outside answers during a call is a part of the call; what the call does to the
outside is a list of events.
-/
import Dwarfkit.ProtocolEsr.Esr
import Dwarfkit.ProtocolEsr.Sealing
import Dwarfkit.ProtocolEsr.Signatures
import Dwarfkit.ProtocolEsr.WaitForCallback
import Dwarfkit.Session.Context
import Dwarfkit.SigningRequest.IdentityTransaction

namespace Dwarfkit

open Effects

/-! ## Requests -/

/-- The same data with another callback. -/
def VersionedData.withCallback (callback : Str) : VersionedData → VersionedData
  | v2 d => v2 { d with callback := callback }
  | v3 d => v3 { d with callback := callback }

namespace SigningRequest

/-- `setCallback`. -/
def setCallback (request : SigningRequest) (url : Str) (background : Bool) : SigningRequest :=
  { request with
    data := (request.data.withCallback url).withFlags
      (request.data.flags.setBackground background) }

/-- `setInfoKey`, of a flag. -/
def setInfoFlag (request : SigningRequest) (key : Str) (value : Bool) : SigningRequest :=
  request.setRawInfoKey key [if value then 1 else 0]

end SigningRequest

/-- `LinkInfo`. -/
structure LinkInfo where
  expiration : TimePointSec

/-- `Serializer::encode` of a `LinkInfo`. -/
def LinkInfo.toABI (link : LinkInfo) : Result Bytes := AbiTraits.timePointSec.toABI link.expiration

/-- `setTransactionCallback`. -/
def setTransactionCallback (uuid : Result Str) (request : SigningRequest) (buoyUrl : Str) :
    Result (SigningRequest × ReceiveOptions) := do
  let channel ← uuid
  let callback : ReceiveOptions := { channel, service := buoyUrl }
  return (request.setCallback (callback.service ++ lit "/" ++ callback.channel) true, callback)

/-- `isCallback`. -/
def isCallback (object : Json) : Bool := object.contains "tx"

namespace Anchor

/-! ## Modes -/

/-- `AnchorMode`. -/
inductive AnchorMode where
  | web
  | app
  deriving DecidableEq

/-- `modeString`. -/
def modeString : AnchorMode → Str
  | .web => "web"
  | .app => "app"

/-- `parseMode`. -/
def parseMode : Json → Option AnchorMode
  | .str s => if s = lit "web" then some .web else if s = lit "app" then some .app else none
  | _ => none

/-- A member that is not null, empty or false. -/
def truthy (data : Json) (key : Str) : Bool :=
  match data.find key with
  | none | some .null | some (.str []) | some (.bool false) => false
  | some _ => true

/-- `readMode`: the mode stored, or inferred from what else is. -/
def readMode (data : Json) : Option AnchorMode :=
  match (data.find "mode").bind parseMode with
  | some mode => some mode
  | none =>
    if truthy data "channelUrl" ∨ truthy data "signerKey" then some .app
    else if truthy data "encryptionKey" ∧ truthy data "messageKey" then some .web
    else none

/-- `clearMode`. -/
def clearMode : Json → Json
  | .obj members => .obj (Json.erase members "mode")
  | data => data

/-- `readLoginOptions`: the mode asked for in one call. -/
def readLoginOptions (dump : Json → Str) (id : Str) (arbitrary : Json) :
    Result (Option AnchorMode) :=
  match arbitrary.find id with
  | none | some .null => .ok none
  | some (.obj members) =>
    match Json.lookup members "mode" with
    | none => .ok none
    | some value =>
      match parseMode value with
      | some mode => .ok (some mode)
      | none => err .invalid (lit "Invalid Anchor mode: " ++ dump value)
  | some options => err .invalid (lit "Invalid Anchor login options: " ++ dump options)

/-! ## Web authenticators -/

/-- `toLower`. -/
def toLower (value : Str) : Str := value.map (fun c => if 65 ≤ c ∧ c ≤ 90 then c + 32 else c)

/-- A url without the slashes at its end. -/
def trimSlashes (url : Str) : Str := (url.reverse.dropWhile (· = 47)).reverse

/-- `findUrl`; the urls are in the order of their map. -/
def findUrl (urls : List (Str × Str)) (chainId : Str) : Option Str :=
  (urls.find? (fun entry => toLower entry.1 = chainId)).map (fun entry => trimSlashes entry.2)

/-- `DEFAULT_WEB_AUTHENTICATOR_URLS`. -/
def DEFAULT_WEB_AUTHENTICATOR_URLS : List (Str × Str) := [
  (lit "73e4385a2708e6d7048834fbc1079f2fabb17b3c125b146af438971e90716c4d",
    lit "https://jungle4.anchorwallet.io"),
  (lit "aca376f206b8fc25a6ed44dbdc66547c36c6c33e3a119ffbeaef943642f0e906",
    lit "https://vaulta.anchorwallet.io")]

/-- `resolveWebAuthenticatorUrl`. -/
def resolveWebAuthenticatorUrl (chainId : Option Str) (overrides : List (Str × Str)) : Option Str :=
  match chainId with
  | none | some [] => none
  | some chainId =>
    let key := toLower chainId
    match findUrl overrides key with
    | some url => some url
    | none => findUrl DEFAULT_WEB_AUTHENTICATOR_URLS key

/-! ## The plugin -/

/-- `WalletPluginAnchorOptions`, what the calls read of them. -/
structure Options where
  buoyUrl : Str := "https://cb.anchor.link"
  webAuthenticatorUrls : List (Str × Str) := []
  knownMobile : Bool := false

/-- What a call does to the outside: a prompt, a url for the embedder to open, a message that is
posted, and a wait for a callback. -/
inductive Event where
  | prompt (args : PromptArgs)
  | openLink (url : Str)
  | post (url : Str) (body : Bytes)
  | waitForCallback (options : Buoy.ReceiveOptions)

/-- The plugin's data, its mode for logins, and what it has done so far. -/
structure State where
  data_ : Json := .obj []
  loginModeOverride_ : Option AnchorMode := none
  events : List Event := []

/-- A call of the plugin. -/
abbrev AnchorM := Effect State Error

/-- What a call meets: the libraries, the options of the plugin, the context's part, and what is
drawn and answered during the call. -/
structure Call extends Options where
  z : Zlib
  p : Platform
  primitives : Primitives
  agree : p.toCrypto = primitives.toCrypto
  aes : Aes
  parse : Str → Option Json
  dump : Json → Str
  openLink : Option (Str → Bool) := none
  ui : Option (Str → UserInterfaceTranslateFunction)
  esrOptions : SigningRequestEncodingOptions := {}
  fetch : Bool := true
  now : ℤ
  generate : Result PrivateKey
  uuid : Result Str
  secureRandom : ℕ → Result Bytes
  waitForCallback : Buoy.ReceiveOptions → Result Json

/-- `WalletPluginLoginResponse`, with the proof. -/
structure LoginResponse extends WalletPluginLoginResponse where
  identityProof : Option IdentityProof := none

/-- `WalletPluginSignResponse`. -/
structure SignResponse where
  resolved : Option ResolvedSigningRequest
  signatures : List Signature

/-- What a sign reads of the `TransactContext` besides. -/
structure SignContext where
  chain : ChainDefinition
  permissionLevel : PermissionLevel
  appName : Option Str := none

/-- The plugin's id. -/
def id : Str := "anchor"

/-- An event of the call. -/
def emit (event : Event) : AnchorM Unit :=
  change (fun s => { s with events := s.events ++ [event] })

/-- `data[key] = v`. -/
def setData (key : Str) (v : Json) : AnchorM Unit := do
  let data_ ← look State.data_
  let data_ ← outcome (data_.assign key v)
  change (fun s => { s with data_ })

/-- `translate`; without a translator the fallback. -/
def translate (t : Option UserInterfaceTranslateFunction) (key fallback : Str) : Str :=
  match t with
  | some t => t key { defaultValue := fallback, values := .obj [] }
  | none => fallback

/-- A member that is a text and not empty. -/
def text (payload : Json) (key : Str) : Option Str :=
  match payload.find key with
  | some (.str []) => none
  | some (.str s) => some s
  | _ => none

namespace Call

variable (call : Call)

/-- The translations of the user interface. -/
def translator : Option UserInterfaceTranslateFunction := call.ui.map (fun ui => ui id)

/-- What a new request is drawn from. -/
def esr : EsrSurroundings PrivateKey where
  generate := call.generate
  toPublic := PrivateKey.toPublic call.primitives.toCurves
  uuid := call.uuid

/-- A call of the embedder's hook, if there is one; false where nothing could be opened. -/
def open_ (url : Str) : AnchorM Bool :=
  match call.openLink with
  | some openLink => do
    emit (.openLink url)
    return openLink url
  | none => return false

/-- The answer on a channel. -/
def answer (options : Buoy.ReceiveOptions) : AnchorM Json := do
  emit (.waitForCallback options)
  outcome (call.waitForCallback options)

/-- The context's `createRequest`, of a json transaction. -/
def createRequest (chain : ChainDefinition) (transaction : Json) : Result SigningRequest := do
  let created ← SigningRequest.create call.p
    { transaction := some transaction, chainId := some chain.id }
    { abiProvider := call.esrOptions.abiProvider }
  return created.setBroadcast false

/-- `esrLoginContext`. -/
def esrLoginContext (context : LoginContext) : EsrLoginContext where
  appName := context.appName
  chain := context.chain
  chains := context.chains
  esrOptions := call.esrOptions

end Call

/-! ## The native transport -/

namespace NativeTransport

variable (call : Call)

/-- The link that a prompt shows. -/
def linkElement (label href : Str) (more : List (Str × Json)) : PromptElement where
  type := .link
  label := some label
  data := .obj ([(lit "href", .str href), (lit "label", .str label)] ++ more)

/-- The prompt of a login: the request as a code, unless the device is a mobile one, and as a link. -/
def loginPrompt (t : Option UserInterfaceTranslateFunction)
    (bundle : IdentityRequestResponse PrivateKey) (sameDeviceUri : Str) : PromptArgs where
  title := translate t "login.title" "Connect with Anchor"
  body := some (translate t "login.body" ("Scan with Anchor on your mobile device or click the " ++
    lit "button below to open on this device."))
  elements :=
    (if call.knownMobile then []
      else [{ type := .qr, data := .str (bundle.request.encode call.z call.p (some true) false) }]) ++
    [linkElement (translate t "login.link" "Launch Anchor") sameDeviceUri
      [(lit "variant", .str "primary")]]

/-- The schemes of a channel that is kept. -/
def isChannelUrl (url : Str) : Bool :=
  (lit "http://").isPrefixOf url || (lit "https://").isPrefixOf url ||
    (lit "ws://").isPrefixOf url || (lit "wss://").isPrefixOf url

/-- A member of the metadata is kept if it is of the right kind. -/
def keep (metadata : List (Str × Json)) (key : Str) (accepts : Json → Bool) : AnchorM Unit :=
  match Json.lookup metadata key with
  | some v => if accepts v then setData key v else pure ()
  | none => pure ()

/-- `link_meta`, which does not have to be well formed. -/
def keepMetadata (payload : Json) : AnchorM Unit :=
  match (text payload "link_meta").bind call.parse with
  | some (.obj metadata) => do
    keep metadata "sameDevice" Json.isBoolean
    keep metadata "launchUrl" Json.isString
    keep metadata "triggerUrl" (fun _ => true)
  | _ => pure ()

/-- What a login keeps of the payload. -/
def keepLink (bundle : IdentityRequestResponse PrivateKey) (payload : Json) : AnchorM Unit :=
  match text payload "link_ch", text payload "link_key", text payload "link_name" with
  | some channelUrl, some link_key, some link_name => do
    setData "requestKey" (.str (bundle.requestKey.toString call.p.toCrypto))
    setData "privateKey" (.str (bundle.privateKey.toString call.p.toCrypto))
    if isChannelUrl channelUrl = false then
      outcome (err .invalid "Invalid callback channel from the wallet")
    else do
      setData "signerKey" (.str link_key)
      setData "channelUrl" (.str channelUrl)
      setData "channelName" (.str link_name)
      keepMetadata call payload
  | _, _, _ => pure ()

/-- The identity proof, if the payload is signed. -/
def proof (payload : Json) (resolved : ResolvedSigningRequest) : Result (Option IdentityProof) :=
  match payload.find "sig" with
  | some (.str sig) => do
    let signature ← Signature.ofString call.p.toCrypto sig
    let proof ← resolved.getIdentityProof signature
    return some proof
  | _ => .ok none

/-- The response to a payload. -/
def loginResponse (payload : Json) : Result LoginResponse := do
  let resolvedResponse ← ResolvedSigningRequest.fromPayload call.z call.p call.now
    call.esrOptions.abiProvider payload
  let chain ← Checksum.ofHex 32 (payload.jsonStr "cid")
  let identityProof ← proof call payload resolvedResponse
  return {
    chain, identityProof
    permissionLevel := {
      actor := .ofString (payload.jsonStr "sa")
      permission := .ofString (payload.jsonStr "sp") } }

/-- `NativeTransport::login`. -/
def login (context : LoginContext) (bundle : IdentityRequestResponse PrivateKey)
    (t : Option UserInterfaceTranslateFunction) : AnchorM LoginResponse :=
  if call.ui.isNone then outcome (err .invalid "No UI available")
  else do
    let sameDeviceUri := bundle.sameDeviceRequest.encode call.z call.p (some true) false
    let _ ← call.open_ sameDeviceUri
    emit (.prompt (loginPrompt call t bundle sameDeviceUri))
    let payload ← call.answer { channel := bundle.callback.channel, service := bundle.callback.service }
    outcome (verifyLoginCallbackResponse payload (call.esrLoginContext context))
    if !payload.contains "cid" || !payload.contains "sa" || !payload.contains "sp" then
      outcome (err .invalid "Invalid callback response")
    else do
      keepLink call bundle payload
      outcome (loginResponse call payload)

/-! ### Signing -/

/-- The prompt of a sign. -/
def signPrompt (t : Option UserInterfaceTranslateFunction) (channelName request href : Str)
    (expiration : TimePointSec) : PromptArgs where
  title := translate t "transact.title" "Complete using Anchor"
  body := some (translate t "transact.body" (lit "Please open your Anchor Wallet on \"" ++
    channelName ++ lit "\" to review and approve this transaction."))
  elements := [
    { type := .countdown
      data := .obj [
        (lit "label", .str (translate t "transact.await" "Waiting for response from Anchor")),
        (lit "end", .str expiration.toString)] },
    { type := .qr, data := .str request },
    linkElement (translate t "transact.label" "Sign manually or with another device") href []]

/-- Where `://` stands in a url. -/
def schemeEnd : Str → Option ℕ
  | [] => none
  | c :: rest =>
    if (lit "://").isPrefixOf (c :: rest) then some 0 else (schemeEnd rest).map (· + 1)

/-- The service and the channel of a stored channel url. -/
def splitChannel (channelUrl : Str) : Option (Str × Str) :=
  let start := match schemeEnd channelUrl with
    | none => 0
    | some schemeEnd => schemeEnd + 3
  match (channelUrl.drop start).findIdx? (· = 47) with
  | none => none
  | some i => some (channelUrl.take (start + i), channelUrl.drop (start + i + 1))

/-- The request is sealed for the wallet and posted on its channel. -/
def deliver (data : Json) (channelUrl uri : Str) : AnchorM Unit :=
  match splitChannel channelUrl with
  | none => pure ()
  | some (service, channel) => do
    let privateKeyText ← outcome (data.valueStr "privateKey" [])
    let privateKey ← outcome (PrivateKey.fromString call.p.toCrypto privateKeyText false)
    let signerKeyText ← outcome (data.valueStr "signerKey" [])
    let signerKey ← outcome (PublicKey.ofString call.p.toCrypto signerKeyText)
    let sealedMessage ← outcome (sealMessage call.primitives call.aes call.secureRandom uri
      privateKey signerKey none)
    let encoded ← outcome (sealedMessage.toABI call.p)
    if call.fetch then emit (.post (Buoy.sendUrl service channel) encoded) else pure ()

/-- The request goes to the wallet's channel or, without one, to this device. -/
def send (data : Json) (channelUrl uri sameDeviceUri : Str) : AnchorM Unit :=
  if channelUrl ≠ [] then deliver call data channelUrl uri
  else do
    let _ ← call.open_ sameDeviceUri

/-- A url that the wallet asked to have opened, if the embedder's hook may get it. -/
def launch (data : Json) (sameDevice : Bool) : AnchorM Unit :=
  let launchUrl := data.jsonStr "launchUrl"
  if sameDevice && ((lit "esr:").isPrefixOf launchUrl || (lit "http://").isPrefixOf launchUrl ||
      (lit "https://").isPrefixOf launchUrl) then do
    let _ ← call.open_ launchUrl
  else pure ()

/-- A request that nobody answered in time has expired. -/
def expired (t : Option UserInterfaceTranslateFunction) : Result Json → Result Json
  | .ok payload => .ok payload
  | .error error =>
    if error.kind = .transport then
      err .canceled (translate t "error.expired" "The request expired, please try again.")
    else .error error

/-- The request to sign a transaction, and the channel of its answer. -/
def signRequest (chain : ChainDefinition) (transaction : Transaction) :
    Result (SigningRequest × ReceiveOptions) := do
  let modifiedRequest ← call.createRequest chain (AbiTraits.transaction.toJSON transaction)
  let link ← LinkInfo.toABI { expiration := transaction.expiration }
  setTransactionCallback call.uuid (modifiedRequest.setRawInfoKey "link" link) call.buoyUrl

/-- The time that is left to answer, in milliseconds, if there is any. -/
def timeLeft (expiration : TimePointSec) : Option ℤ :=
  if 0 < expiration.toMilliseconds - call.now then some (expiration.toMilliseconds - call.now)
  else none

/-- The response to a payload. -/
def signResponse (t : Option UserInterfaceTranslateFunction) (payload : Json) :
    Result SignResponse := do
  let signatures ← extractSignaturesFromCallback call.p.toCrypto payload
  if !isCallback payload || signatures.isEmpty then
    err .invalid (translate t "error.not_completed" "The request was not completed.")
  else do
    let resolvedRequest ← ResolvedSigningRequest.fromPayload call.z call.p call.now
      call.esrOptions.abiProvider payload
    return { resolved := some resolvedRequest, signatures }

/-- `NativeTransport::sign`, without return url. -/
def sign (resolved : ResolvedSigningRequest) (context : SignContext) : AnchorM SignResponse :=
  if call.ui.isNone then outcome (err .invalid "No UI available")
  else do
    let t := call.translator
    let data ← look State.data_
    let (modifiedRequest, callback) ← outcome
      (signRequest call context.chain resolved.transaction)
    let sameDevice := data.find "sameDevice" = some (.bool true)
    let sameDeviceRequest := modifiedRequest.setInfoFlag "same_device" true
    launch call data sameDevice
    let channelName ← outcome (data.valueStr "channelName" [])
    emit (.prompt (signPrompt t channelName (modifiedRequest.encode call.z call.p (some true) false)
      (sameDeviceRequest.encode call.z call.p) resolved.transaction.expiration))
    let channelUrl ← outcome (data.valueStr "channelUrl" [])
    send call data channelUrl
      ((if sameDevice then sameDeviceRequest else modifiedRequest).encode call.z call.p (some true)
        false)
      (sameDeviceRequest.encode call.z call.p)
    let options : Buoy.ReceiveOptions := {
      channel := callback.channel
      service := callback.service
      timeout := timeLeft call resolved.transaction.expiration }
    emit (.waitForCallback options)
    let payload ← outcome (expired t (call.waitForCallback options))
    outcome (signResponse call t payload)

end NativeTransport

/-! ## The web transport -/

namespace WebTransport

variable (call : Call)

/-- `signPageUrl`. -/
def signPageUrl (baseUrl : Str) (params : List (Str × Str)) : Str :=
  baseUrl ++ lit "/sign?" ++ params.foldl (fun query param =>
    (if query = [] then query else query ++ lit "&") ++ param.1 ++ lit "=" ++ param.2) []

/-- `WebTransport::loginUrl`. -/
def loginUrl (context : LoginContext) (bundle : IdentityRequestResponse PrivateKey)
    (baseUrl : Str) : Str :=
  signPageUrl baseUrl [
    (lit "esr", bundle.request.encode call.z call.p),
    (lit "chain", (context.chain.map (fun chain => chain.id.hexString)).getD []),
    (lit "requestKey", bundle.requestKey.toString call.p.toCrypto)]

/-- The prompt while a page is open, or the page as a link where none could be opened. -/
def pagePrompt (t : Option UserInterfaceTranslateFunction) (opened : Bool) (url : Str) :
    PromptArgs :=
  if opened then {
    title := translate t "web.waiting.title" "Approve in Anchor"
    body := some (translate t "web.waiting.body" "Please approve this in the Anchor window.") }
  else {
    title := translate t "web.blocked.title" "Pop-up blocked"
    body := some (translate t "web.blocked.body"
      ("Pop-up blocked by your browser. Open the Anchor window " ++ lit "manually."))
    elements := [NativeTransport.linkElement (translate t "web.blocked.label" "Open Anchor") url
      [(lit "variant", .str "primary")]] }

/-- A page is opened, and shown to the user if there is a user interface. -/
def openPage (url : Str) : AnchorM Unit := do
  let opened ← call.open_ url
  match call.ui with
  | some _ => emit (.prompt (pagePrompt call.translator opened url))
  | none => pure ()

/-- The wallet's key of a payload is kept as it is. -/
def keepMessageKey (payload : Json) : AnchorM Unit :=
  match payload.find "link_key" with
  | some link_key => setData "messageKey" link_key
  | none => pure ()

/-- The identity proof, if the payload is signed and can be resolved. -/
def proof (payload : Json) : Result (Option IdentityProof) :=
  match payload.find "sig" with
  | some (.str sig) => do
    let signature ← Signature.ofString call.p.toCrypto sig
    match ResolvedSigningRequest.fromPayload call.z call.p call.now call.esrOptions.abiProvider
        payload with
    | .error _ => return none
    | .ok resolvedResponse => do
      let proof ← resolvedResponse.getIdentityProof signature
      return some proof
  | _ => .ok none

/-- The response to a payload. -/
def loginResponse (payload : Json) : Result LoginResponse :=
  match payload.find "cid" with
  | some (.str cid) => do
    let chain ← Checksum.ofHex 32 cid
    let actor ← payload.valueStr "sa" []
    let permission ← payload.valueStr "sp" []
    let identityProof ← proof call payload
    return {
      chain, identityProof
      permissionLevel := { actor := .ofString actor, permission := .ofString permission } }
  | _ => err .invalid "Login failed: No chain ID returned"

/-- `WebTransport::login`; a context without a name gets one, after the request was made. -/
def login (context : LoginContext) (bundle : IdentityRequestResponse PrivateKey) (baseUrl : Str) :
    AnchorM LoginResponse := do
  openPage call (loginUrl call context bundle baseUrl)
  let payload ← call.answer { channel := bundle.callback.channel, service := bundle.callback.service }
  setData "encryptionKey" (.str (bundle.privateKey.toString call.p.toCrypto))
  keepMessageKey payload
  outcome (loginResponse call payload)

/-- The nonce of eight random bytes, the highest first, cut to 53 bits. -/
def nonce (nonceBytes : Bytes) : UInt64 :=
  nonceBytes.foldl (fun (nonce : UInt64) byte => (nonce <<< 8) ||| byte.toUInt64) 0 &&&
    ((1 : UInt64) <<< 53 - 1)

/-- The page of a request, which is sealed for the wallet. -/
def signUrl (data : Json) (context : SignContext) (request : SigningRequest) (baseUrl : Str) :
    Result Str := do
  let nonceBytes ← call.secureRandom 8
  let nonce := nonce nonceBytes
  let encryptionKeyText ← data.valueStr "encryptionKey" []
  let encryptionKey ← PrivateKey.fromString call.p.toCrypto encryptionKeyText false
  let messageKeyText ← data.valueStr "messageKey" []
  let messageKey ← PublicKey.ofString call.p.toCrypto messageKeyText
  let sealedRequest ← sealMessage call.primitives call.aes call.secureRandom
    (request.encode call.z call.p) encryptionKey messageKey (some nonce)
  let requestKey ← encryptionKey.toPublic call.primitives.toCurves
  return signPageUrl baseUrl [
    (lit "sealed", arrayToHex sealedRequest.ciphertext),
    (lit "nonce", natToString nonce.toNat),
    (lit "chain", context.chain.id.hexString),
    (lit "accountName", context.permissionLevel.actor.toString),
    (lit "permissionName", context.permissionLevel.permission.toString),
    (lit "appName", context.appName.getD []),
    (lit "requestKey", requestKey.toString call.p.toCrypto)]

/-- The keys that a login left. -/
def checkKeys (data : Json) : Result Unit := do
  let encryptionKey ← data.valueStr "encryptionKey" []
  if encryptionKey = [] then err .invalid "No request keys available - please login first"
  else do
    let messageKey ← data.valueStr "messageKey" []
    if messageKey = [] then err .invalid "No request keys available - please login first"
    else return ()

/-- The response to a payload: what was asked for, with the signatures. -/
def signResponse (resolved : ResolvedSigningRequest) (payload : Json) : Result SignResponse := do
  let signatures ← extractSignaturesFromCallback call.p.toCrypto payload
  if !isCallback payload || signatures.isEmpty then
    err .invalid "Signing failed: No signatures returned"
  else return { resolved := some resolved, signatures }

/-- `WebTransport::sign`. -/
def sign (resolved : ResolvedSigningRequest) (context : SignContext) (baseUrl : Str) :
    AnchorM SignResponse := do
  let data ← look State.data_
  outcome (checkKeys data)
  let (modifiedRequest, callback) ← outcome
    (NativeTransport.signRequest call context.chain resolved.transaction)
  let signUrl ← outcome (signUrl call data context modifiedRequest baseUrl)
  openPage call signUrl
  let payload ← call.answer { channel := callback.channel, service := callback.service }
  outcome (signResponse call resolved payload)

end WebTransport

/-! ## The plugin's calls -/

section Calls

variable (call : Call)

/-- `setMode`. -/
def setMode : Option AnchorMode → AnchorM Unit
  | none => change (fun s => { s with loginModeOverride_ := none, data_ := clearMode s.data_ })
  | some mode => do
    setData "mode" (.str (modeString mode))
    change (fun s => { s with loginModeOverride_ := some mode })

/-- The transport of a login: the mode of the call, the override, or the app. -/
def loginMode (perCall loginModeOverride_ : Option AnchorMode) : AnchorMode :=
  match perCall with
  | some mode => mode
  | none => loginModeOverride_.getD .app

/-- The login with an authenticator on the web at hand. -/
def loginWith (context : LoginContext) (bundle : IdentityRequestResponse PrivateKey) (webUrl : Str)
    (mode : AnchorMode) : AnchorM LoginResponse := do
  setData "mode" (.str (modeString mode))
  match mode with
  | .web => WebTransport.login call context bundle webUrl
  | .app => NativeTransport.login call context bundle call.translator

/-- `handleLogin`. -/
def handleLogin (context : LoginContext) : AnchorM LoginResponse :=
  if call.ui.isNone then outcome (err .invalid "No UI available")
  else do
    let perCall ← outcome (readLoginOptions call.dump id context.arbitrary)
    let bundle ← outcome (createIdentityRequest call.p call.esr (call.esrLoginContext context)
      call.buoyUrl)
    match resolveWebAuthenticatorUrl (context.chain.map (fun chain => chain.id.hexString))
        call.webAuthenticatorUrls with
    | none => NativeTransport.login call context bundle call.translator
    | some webUrl => do
      let loginModeOverride_ ← look State.loginModeOverride_
      loginWith call context bundle webUrl (loginMode perCall loginModeOverride_)

/-- `handleSign`. -/
def handleSign (resolved : ResolvedSigningRequest) (context : SignContext) :
    AnchorM SignResponse := do
  let data ← look State.data_
  match (readMode data).getD .app with
  | .app => NativeTransport.sign call resolved context
  | .web =>
    match resolveWebAuthenticatorUrl (some context.chain.id.hexString)
        call.webAuthenticatorUrls with
    | none => outcome (err .invalid (("This session signs in the browser, but there is no Anchor web " ++
        lit "authenticator for chain ") ++ context.chain.id.hexString ++ lit "."))
    | some webUrl => WebTransport.sign call resolved context webUrl

end Calls

/-! ## Runs -/

/-- What an embedder does with the plugin: its calls, and a new plugin that is given the data of
the old one. -/
inductive Label where
  | setMode (mode : Option AnchorMode)
  | login (call : Call) (context : LoginContext)
  | sign (call : Call) (resolved : ResolvedSigningRequest) (context : SignContext)
  | restore (mode : Option AnchorMode)

/-- The plugin after a call, whatever came of it. -/
def step (options : Options) (s : State) : Label → State
  | .setMode mode => (exec (setMode mode) s).2
  | .login call context => (exec (handleLogin { call with toOptions := options } context) s).2
  | .sign call resolved context =>
    (exec (handleSign { call with toOptions := options } resolved context) s).2
  | .restore mode => { s with loginModeOverride_ := mode }

/-- The plugin after some calls. -/
def run (options : Options) : State → List Label → State := List.foldl (step options)

end Anchor

end Dwarfkit
