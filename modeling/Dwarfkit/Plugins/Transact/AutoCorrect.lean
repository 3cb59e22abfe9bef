/-
# Correcting transactions that lack resources

`TransactPluginAutoCorrect` of `plugins/transact/autocorrect.cpp`: a transaction is computed,
the resources it lacks are bought by actions prepended to it, up to three times, and the user
is asked to pay for them.  The resource states and their prices are the chain's.
-/
import Dwarfkit.Session.Context
import Dwarfkit.SigningRequest.Encoding

namespace Dwarfkit

open Effects

namespace AutoCorrect

/-! ## Texts -/

/-- A piece of a regular expression: a text, `(\d+)` or `(\w.+)`. -/
inductive Piece where
  | text (t : Str)
  | digits
  | word

def isDigit (c : UInt8) : Bool := 48 ≤ c ∧ c ≤ 57

/-- `\w`. -/
def isWordChar (c : UInt8) : Bool :=
  isDigit c || (65 ≤ c ∧ c ≤ 90) || (97 ≤ c ∧ c ≤ 122) || c = 95

/-- `.`: anything but the end of a line. -/
def isAny (c : UInt8) : Bool := c ≠ 10 && c ≠ 13

/-- The first result for a length, from `n` down to `least`. -/
def longest {α : Type} (f : ℕ → Option α) (least : ℕ) : (n : ℕ) → Option α
  | 0 => if least = 0 then f 0 else none
  | n + 1 => if n + 1 < least then none else (f (n + 1)).or (longest f least n)

/-- The groups of a match at the start of a text. -/
def matchPieces : List Piece → Str → Option (List Str)
  | [], _ => some []
  | .text t :: pieces, s => if t.isPrefixOf s then matchPieces pieces (s.drop t.length) else none
  | .digits :: pieces, s =>
    longest (fun n => (matchPieces pieces (s.drop n)).map (s.take n :: ·)) 1
      (s.takeWhile isDigit).length
  | .word :: pieces, s =>
    if (s.head?.map isWordChar).getD false then
      longest (fun n => (matchPieces pieces (s.drop n)).map (s.take n :: ·)) 2
        (s.takeWhile isAny).length
    else none

/-- `std::regex_search`: the groups of the first match. -/
def regexSearch (pattern : List Piece) (message : Str) : Option (List Str) :=
  message.tails.findSome? (matchPieces pattern)

def netPattern : List Piece :=
  [.text "transaction net usage is too high: ", .digits, .text " > ", .digits]

def cpuPattern : List Piece :=
  [.text "billed CPU time (", .digits,
    .text " us) is greater than the maximum billable CPU time for the transaction"]

def ramPattern : List Piece :=
  [.text "account ", .word, .text " has insufficient ram; needs ", .digits, .text " bytes has ",
    .digits, .text " bytes"]

/-! ## Chains -/

/-- `ChainFeature`. -/
inductive ChainFeature where
  | buyRAM
  | powerUp
  deriving DecidableEq

/-- `ChainConfig`. -/
structure ChainConfig where
  features : List ChainFeature
  sampleAccount : Str
  symbol : Str

/-- `chainConfigs`: EOS, Jungle 4 and WAX. -/
def chainConfigs : List (Str × ChainConfig) := [
  ("aca376f206b8fc25a6ed44dbdc66547c36c6c33e3a119ffbeaef943642f0e906",
    { features := [.buyRAM, .powerUp], sampleAccount := "eosio.reserv", symbol := "4,EOS" }),
  ("73e4385a2708e6d7048834fbc1079f2fabb17b3c125b146af438971e90716c4d",
    { features := [.buyRAM, .powerUp], sampleAccount := "eosio.reserv", symbol := "4,EOS" }),
  ("1064487b3cd1a897ce03ae5b6a865651747e2e152090f99c1d19d44e01aea5a4",
    { features := [.buyRAM, .powerUp], sampleAccount := "boost.wax", symbol := "8,WAX" })]

/-- The id of the EOS chain. -/
def eosId : Checksum256 :=
  ⟨[0xac, 0xa3, 0x76, 0xf2, 0x06, 0xb8, 0xfc, 0x25, 0xa6, 0xed, 0x44, 0xdb, 0xdc, 0x66, 0x54, 0x7c,
    0x36, 0xc6, 0xc3, 0x3e, 0x3a, 0x11, 0x9f, 0xfb, 0xea, 0xef, 0x94, 0x36, 0x42, 0xf0, 0xe9, 0x06],
    rfl⟩

/-- `chainConfigs().find(id)`. -/
def findConfig (id : Str) : Option ChainConfig :=
  (chainConfigs.find? (fun entry => entry.1 = id)).map Prod.snd

/-- `hasFeature`. -/
def hasFeature (config : ChainConfig) (feature : ChainFeature) : Bool := feature ∈ config.features

/-- `configSymbol`. -/
def configSymbol (config : ChainConfig) : AssetSymbol :=
  (AssetSymbol.ofString config.symbol).toOption.getD {}

/-! ## Numbers -/

/-- The operations on doubles. -/
structure Arithmetic where
  mul : Double → Double → Double
  add : Double → Double → Double
  sub : Double → Double → Double
  less : Double → Double → Bool
  /-- `Asset::value`. -/
  value : Asset → Double
  /-- The digits of `"%.*f"`. -/
  toFixed : Double → (precision : ℕ) → Str
  toUInt32 : Double → UInt32

/-- `multiplier`: 1.5. -/
def multiplier : Double := ⟨0x3ff8000000000000⟩

/-- `Symbol::convertFloat`. -/
def convertFloat (fp : Arithmetic) (symbol : AssetSymbol) (number : Double) : Result Int64 :=
  let digits := fp.toFixed number symbol.precision
  Asset.parseInt64 (digits.takeWhile (· ≠ 46) ++ (digits.dropWhile (· ≠ 46)).drop 1)

/-- `Asset::fromFloat`. -/
def assetFromFloat (fp : Arithmetic) (value : Double) (symbol : AssetSymbol) : Result Asset := do
  let units ← convertFloat fp symbol value
  return { units, symbol }

/-- `value(key, 0.0)`: throws on a member that is no number. -/
def valueDouble (p : Platform) (j : Json) (key : Str) : Result Double := do
  let v ← j.valueOr key (.float ⟨0⟩)
  match v.getDouble p with
  | some d => .ok d
  | none => thrown "[json.exception.type_error.302] type must be number"

/-- `std::stod` of a group of digits. -/
def groupDouble (p : Platform) (text : Str) : Result Double :=
  match p.stod text with
  | some d => .ok d
  | none => thrown "stod"

/-! ## What a response asks for -/

/-- The resources to buy. -/
inductive Need where
  | nothing
  | powerup (cpu net : Double)
  | buyram (needed : Double)

/-- `getException`. -/
def getException (response : Json) : Json :=
  match response.find "error" with
  | some (.null) | none =>
    match (response.jsonAt "processed").find "except" with
    | some except => except
    | none => .null
  | some error => error

section Diagnosis

variable (p : Platform) (fp : Arithmetic) (config : ChainConfig)

/-- The exception of a computed transaction. -/
def diagnoseException (exception : Json) : Result Need :=
  match exception.find "stack" with
  | some (.arr (.obj first :: _)) => do
    let name := exception.jsonStr "name"
    let data := (Json.obj first).jsonAt "data"
    if name = lit "tx_net_usage_exceeded" then do
      let usage ← valueDouble p data "net_usage"
      if hasFeature config .powerUp then return .powerup ⟨0⟩ (fp.mul usage multiplier)
      else return .nothing
    else if name = lit "tx_cpu_usage_exceeded" then do
      let billed ← valueDouble p data "billed"
      let billable ← valueDouble p data "billable"
      if hasFeature config .powerUp then
        return .powerup (fp.mul (fp.sub billed billable) multiplier) ⟨0⟩
      else return .nothing
    else if name = lit "ram_usage_exceeded" then do
      let available ← valueDouble p data "available"
      let needs ← valueDouble p data "needs"
      if hasFeature config .buyRAM then
        return .buyram (fp.mul (fp.sub needs available) multiplier)
      else return .nothing
    else return .nothing
  | _ => .ok .nothing

/-- `apierror::error`. -/
def chainError (error : Error) : Json :=
  ((error.details.jsonAt "response").jsonAt "json").jsonAt "error"

/-- `apierror::name`. -/
def errorName (error : Error) : Result Str :=
  let chainError := chainError error
  if chainError.isObject then chainError.valueStr "name" "unspecified" else .ok "unspecified"

/-- `apierror::details`. -/
def errorDetails (error : Error) : Result Json :=
  let chainError := chainError error
  if chainError.isObject then chainError.valueOr "details" (.arr []) else .ok (.arr [])

/-- The error of a request that the API refused. -/
def diagnoseError (error : Error) : Result Need :=
  if error.kind = .api then do
    let name ← errorName error
    let details ← errorDetails error
    let message ← match details with
      | .arr (first :: _) => first.valueStr "message" ""
      | _ => .ok []
    if name = lit "tx_net_usage_exceeded" then
      match regexSearch netPattern message, hasFeature config .powerUp with
      | some (usage :: _), true => do
        let usage ← groupDouble p usage
        return .powerup ⟨0⟩ (fp.mul usage multiplier)
      | _, _ => return .nothing
    else if name = lit "tx_cpu_usage_exceeded" then
      match regexSearch cpuPattern message, hasFeature config .powerUp with
      | some (billed :: _), true => do
        let billed ← groupDouble p billed
        return .powerup (fp.mul billed multiplier) ⟨0⟩
      | _, _ => return .nothing
    else if name = lit "ram_usage_exceeded" then
      match regexSearch ramPattern message, hasFeature config .buyRAM with
      | some (_ :: needs :: available :: _), true => do
        let needs ← groupDouble p needs
        let available ← groupDouble p available
        return .buyram (fp.add (fp.mul (fp.sub needs available) multiplier) (p.ofInt64 2))
      | _, _ => return .nothing
    else return .nothing
  else .ok .nothing

/-- What the answer of `compute_transaction` asks for. -/
def diagnose (response : Result Json) : Result Need :=
  match response with
  | .ok response => diagnoseException p fp config (getException response)
  | .error error => diagnoseError p fp config error

end Diagnosis

/-! ## The chain -/

/-- `Buyrambytes`. -/
structure Buyrambytes where
  payer : Name
  receiver : Name
  bytes : UInt32 := 0

/-- `abi_traits<Buyrambytes>`, the part that encodes. -/
def Buyrambytes.toABI (v : Buyrambytes) : Result Bytes := do
  let payer ← AbiTraits.name.toABI v.payer
  let receiver ← AbiTraits.name.toABI v.receiver
  let bytes ← AbiTraits.uint32.toABI v.bytes
  return payer ++ receiver ++ bytes

/-- `Powerup`. -/
structure Powerup where
  payer : Name
  receiver : Name
  days : UInt32 := 0
  net_frac : Int64 := 0
  cpu_frac : Int64 := 0
  max_payment : Asset

/-- `abi_traits<Powerup>`, the part that encodes. -/
def Powerup.toABI (v : Powerup) : Result Bytes := do
  let payer ← AbiTraits.name.toABI v.payer
  let receiver ← AbiTraits.name.toABI v.receiver
  let days ← AbiTraits.uint32.toABI v.days
  let net_frac ← AbiTraits.int64.toABI v.net_frac
  let cpu_frac ← AbiTraits.int64.toABI v.cpu_frac
  let max_payment ← AbiTraits.asset.toABI v.max_payment
  return payer ++ receiver ++ days ++ net_frac ++ cpu_frac ++ max_payment

/-- `AccountObject`: the RAM of an account. -/
structure AccountObject where
  ram_quota : Int64 := 0
  ram_usage : UInt64 := 0

/-- `SampleUsage`: the sampled CPU and NET. -/
structure SampleUsage where
  cpu : UInt128
  net : UInt128

/-- `RAMState`: its price. -/
structure RAMState where
  price_per : (bytes : Double) → Result Asset

/-- `PowerUpStateResource`, for CPU or NET. -/
structure PowerUpStateResource where
  price_per : SampleUsage → Double → Result Double
  frac : SampleUsage → Double → Result Int64

/-- `PowerUpState`. -/
structure PowerUpState where
  net : PowerUpStateResource
  cpu : PowerUpStateResource

/-- `APIClient` and `Resources`: what the plugin asks of the chain. -/
structure Client (W : Type) where
  get_account : Name → Effect W Error AccountObject
  compute_transaction : Transaction → Effect W Error Json
  ramState : Effect W Error RAMState
  powerupState : Effect W Error PowerUpState
  getSampledUsage : (sampleAccount : Str) → Effect W Error SampleUsage

/-! ## The plugin -/

/-- The members of the plugin. -/
structure Members where
  sample_ : Option SampleUsage := none
  price_ : Option Asset := none
  resources_ : List Str := []
  iterations_ : ℕ := 0

/-- The running total of the price. -/
def addPrice (total : Option Asset) (price : Asset) : Option Asset :=
  match total with
  | some total => some { total with units := total.units + price.units }
  | none => some price

/-- What is paid for: its price, and the names of the resources. -/
def Members.pay (price : Asset) (resources : List Str) (members : Members) : Members :=
  { members with
    price_ := addPrice members.price_ price
    resources_ := members.resources_ ++ resources }

/-- A purchase: its action, the price computed for it, and what it buys. -/
structure Purchase where
  action : Action
  price : Asset
  resources : List Str

/-- What a correction calls `correct` with again, and what it has bought. -/
structure Correction where
  request : SigningRequest
  account : AccountObject
  purchases : List Purchase

/-- What the plugin runs with: the chain, the context and the libraries. -/
structure Setting (W : Type) where
  p : Platform
  fp : Arithmetic
  zlib : Zlib
  client : Client W
  context : Transact.TransactContext W

/-- An action of the system contract, authorized by the signer. -/
def eosioAction (signer : PermissionLevel) (name : String) (data : Bytes) : Action where
  account := .ofString "eosio"
  name := .ofString name
  authorization := [signer]
  data := data

/-- A request with the purchase of RAM in front. -/
def prependBuyrambytes (signer : PermissionLevel) (bytes : UInt32) (request : SigningRequest) :
    Result (Action × SigningRequest) := do
  let data : Buyrambytes := { payer := signer.actor, receiver := signer.actor, bytes }
  let encoded ← data.toABI
  let newAction := eosioAction signer "buyrambytes" encoded
  let newRequest ← Transact.prependAction request newAction
  return (newAction, newRequest)

/-- A request with the purchase of CPU and NET in front. -/
def prependPowerup (signer : PermissionLevel) (net_frac cpu_frac : Int64) (max_payment : Asset)
    (request : SigningRequest) : Result (Action × SigningRequest) := do
  let data : Powerup :=
    { payer := signer.actor, receiver := signer.actor, days := 1, net_frac, cpu_frac, max_payment }
  let encoded ← data.toABI
  let newAction := eosioAction signer "powerup" encoded
  let newRequest ← Transact.prependAction request newAction
  return (newAction, newRequest)

namespace Setting

variable {W : Type} (setting : Setting W)

/-- `configFound`: the chain's entry. -/
def config : Option ChainConfig := findConfig setting.context.chain.id.hexString

/-- `sample_`, which is asked for once. -/
def sampled (config : ChainConfig) : Effect (W × Members) Error SampleUsage := do
  let sample ← look (fun s => s.2.sample_)
  match sample with
  | some usage => return usage
  | none =>
    let usage ← onFirst (setting.client.getSampledUsage config.sampleAccount)
    change (fun s => (s.1, { s.2 with sample_ := some usage }))
    return usage

/-- `buyram`, up to its call of `correct`. -/
def buyram (config : ChainConfig) (resolved : ResolvedSigningRequest) (account : AccountObject)
    (needed : Double) : Effect (W × Members) Error Correction := do
  let ram ← onFirst setting.client.ramState
  let _ ← setting.sampled config
  let ramPrice ← outcome (ram.price_per needed)
  let price ← outcome (assetFromFloat setting.fp (setting.fp.value ramPrice) (configSymbol config))
  change (fun s => (s.1, s.2.pay price ["RAM"]))
  let (newAction, newRequest) ← outcome
    (prependBuyrambytes resolved.signer (setting.fp.toUInt32 needed) resolved.request)
  return { request := newRequest, account, purchases := [⟨newAction, price, ["RAM"]⟩] }

/-- `ramNeeded`: for the action that powers up. -/
def ramNeeded : Int64 := 410

/-- The RAM an account needs to power up, if it has too little. -/
def extraRam (config : ChainConfig) (signer : PermissionLevel) (powered : Correction) :
    Effect (W × Members) Error Correction :=
  if powered.account.ram_quota - powered.account.ram_usage.toInt64 < ramNeeded then do
    let ram ← onFirst setting.client.ramState
    let account := { powered.account with ram_quota := powered.account.ram_quota + ramNeeded }
    let (ramAction, withRam) ← outcome
      (prependBuyrambytes signer ramNeeded.toUInt64.toUInt32 powered.request)
    let ramPriceAsset ← outcome (ram.price_per (setting.p.ofInt64 ramNeeded))
    let ramPrice ← outcome
      (assetFromFloat setting.fp (setting.fp.value ramPriceAsset) (configSymbol config))
    -- the source adds to the total only: `price_` is set, the powerup has been paid for
    change (fun s => (s.1, s.2.pay ramPrice ["RAM"]))
    return { request := withRam, account
             purchases := powered.purchases ++ [⟨ramAction, ramPrice, ["RAM"]⟩] }
  else return powered

/-- A price, or the smallest amount if there is none. -/
def priceOrMinimum (config : ChainConfig) (amount : Double) (price : Result Double) : Double :=
  match price with
  | .ok price => price
  | .error _ =>
    if setting.fp.less ⟨0⟩ amount then
      setting.fp.value { units := 1, symbol := configSymbol config }
    else ⟨0⟩

/-- An amount, or the minimum that is powered up. -/
def atLeast (amount : Double) (minimum : Int64) : Double :=
  if setting.fp.less amount (setting.p.ofInt64 minimum) then setting.p.ofInt64 minimum else amount

/-- `powerup`, up to its call of `correct`. -/
def powerup (config : ChainConfig) (resolved : ResolvedSigningRequest) (account : AccountObject)
    (cpu net : Double) : Effect (W × Members) Error Correction := do
  let state ← onFirst setting.client.powerupState
  let sample ← setting.sampled config
  let cpu := setting.atLeast cpu 2500
  let net := setting.atLeast net 10000
  let cpuPrice := setting.priceOrMinimum config cpu (state.cpu.price_per sample cpu)
  let netPrice := setting.priceOrMinimum config net (state.net.price_per sample net)
  let price ← outcome (assetFromFloat setting.fp
    (setting.fp.add cpuPrice (setting.fp.mul netPrice multiplier)) (configSymbol config))
  change (fun s => (s.1, s.2.pay price ["CPU", "NET"]))
  let netFrac ← outcome (state.net.frac sample net)
  let cpuFrac ← outcome (state.cpu.frac sample cpu)
  let (newAction, modifiedRequest) ← outcome
    (prependPowerup resolved.signer netFrac cpuFrac price resolved.request)
  setting.extraRam config resolved.signer
    { request := modifiedRequest, account, purchases := [⟨newAction, price, ["CPU", "NET"]⟩] }

/-- `correct`, up to its call of itself: the correction, or none if the request is to be
returned. -/
def correction (request : SigningRequest) (account : AccountObject) :
    Effect (W × Members) Error (Option Correction) := do
  change (fun s => (s.1, { s.2 with iterations_ := s.2.iterations_ + 1 }))
  let iterations ← look (fun s => s.2.iterations_)
  if 3 < iterations then
    outcome (err .plugin "Too many iterations. Please report this bug if you see it.")
  else
    match setting.config, setting.context.ui with
    | some config, some _ =>
      let resolved ← onFirst (setting.context.resolve setting.p request)
      let response ← onFirst (attempt (setting.client.compute_transaction resolved.transaction))
      let need ← outcome (diagnose setting.p setting.fp config response)
      match need with
      | .nothing => return none
      | .powerup cpu net =>
        let found ← setting.powerup config resolved account cpu net
        return some found
      | .buyram needed =>
        let found ← setting.buyram config resolved account needed
        return some found
    | _, _ => return none

/-- `correct`, with at most `calls` calls of itself: `correct_of_le` says that four are
all it makes. -/
def correct : (calls : ℕ) → SigningRequest → AccountObject →
    Effect (W × Members) Error SigningRequest
  | 0, _, _ => outcome (err .plugin "Too many iterations. Please report this bug if you see it.")
  | calls + 1, request, account => do
    let found ← setting.correction request account
    match found with
    | none => return request
    | some found => correct calls found.request found.account

/-- `id`. -/
def pluginId : Str := lit "transact-plugin-autocorrect"

/-- An element added to a `std::set<std::string>`. -/
def insertUnique (text : Str) : List Str → List Str
  | [] => [text]
  | t :: ts =>
    if text = t then t :: ts
    else if text < t then text :: t :: ts
    else t :: insertUnique text ts

/-- `unique`: the resources as a set. -/
def uniqueResources (resources : List Str) : List Str := resources.foldr insertUnique []

/-- `resourceList`. -/
def resourceList (unique : List Str) : Str := List.intercalate (lit "/") unique

/-- The default body of the prompt. -/
def feeBody : Str :=
  lit "Additional resources (\x7b\x7bresource\x7d\x7d) are required for your account to perform this transaction. Would you like to automatically purchase these resources from the network and proceed?"

/-- The prompt for the fee. -/
def feePrompt (t : UserInterfaceTranslateFunction) (price : Option Asset) (unique : List Str) :
    PromptArgs :=
  let values : Json := .obj [(lit "resource", .str (resourceList unique))]
  let cost : PromptElement := {
    type := .asset
    data := .obj [
      (lit "label", .str (t "fee.cost" { defaultValue := "Cost of \x7b\x7bresource\x7d\x7d", values })),
      (lit "value", .str ((price.map Asset.toString).getD []))] }
  { title := t "fee.title" { defaultValue := "Accept Transaction Fee?" }
    body := some (t "fee.body" { defaultValue := feeBody, values })
    elements := [cost, { type := .accept }] }

/-- The start of `run`: a new total, and the account. -/
def start (ui : Transact.UserInterface W) : Effect (W × Members) Error AccountObject := do
  change (fun s => (s.1, { s.2 with price_ := none, resources_ := [], iterations_ := 0 }))
  let t := ui.getTranslate pluginId
  onFirst (ui.status (t "checking" { defaultValue := "Checking transaction" }))
  onFirst (setting.client.get_account setting.context.permissionLevel.actor)

/-- What the user is asked about: the modified request, and the prompt unless there is
nothing to pay for. -/
def prepare (ui : Transact.UserInterface W) (request : SigningRequest) :
    Effect (W × Members) Error (SigningRequest × Option PromptArgs) := do
  let account ← setting.start ui
  let modified ← setting.correct 4 request account
  let price ← look (fun s => s.2.price_)
  let resources ← look (fun s => s.2.resources_)
  if modified.encode setting.zlib setting.p = request.encode setting.zlib setting.p ∧
      price.isNone then return (modified, none)
  else return (modified, some (feePrompt (ui.getTranslate pluginId) price (uniqueResources resources)))

/-- `run`. -/
def run (request : SigningRequest) : Effect (W × Members) Error Transact.TransactHookResponse :=
  match setting.context.ui with
  | none => return { request }
  | some ui => do
    let (modified, prompt) ← setting.prepare ui request
    match prompt with
    | none => return { request }
    | some prompt =>
      let promptResponse ← onFirst (attempt (ui.prompt prompt))
      match promptResponse with
      | .ok () => return { request := modified }
      | .error error =>
        if error.kind = .canceled then outcome (.error error) else return { request }

end Setting

end AutoCorrect

end Dwarfkit
