/-
# The session kit

`SessionKit` of `session/kit.cpp`: logging in and out, restoring sessions and
persisting them.  Every member is a program over the storage and the world of the
plugins; an error leaves whatever was written before it.
-/
import Dwarfkit.Session.Plugins

namespace Dwarfkit

open Effects

/-- What a kit's members change: the storage, and the world of its plugins. -/
structure KitState (W : Type) where
  storage : Storage
  world : W

/-- A member of the kit. -/
abbrev KitM (W : Type) (α : Type) := Effect (KitState W) Error α

/-- `SessionKit`.  `beforeLogin` and `afterLogin` are the hooks its login plugins
register. -/
structure SessionKit (W : Type) where
  appName : Str := []
  chains : List ChainDefinition
  ui : UserInterface W
  walletPlugins : List (WalletPlugin W)
  beforeLogin : List (LoginHook W) := []
  afterLogin : List (LoginHook W) := []

/-- `LoginResult`. -/
structure LoginResult (W : Type) where
  context : LoginContext
  response : WalletPluginLoginResponse
  session : Session W

namespace SessionKit

variable {W : Type}

/-! ## Storage and world -/

def read (key : StorageKey) : KitM W (Option JsonText) := look (fun s => s.storage key)

def write (key : StorageKey) (data : JsonText) : KitM W Unit :=
  change (fun s => { s with storage := Function.update s.storage key (some data) })

def remove (key : StorageKey) : KitM W Unit :=
  change (fun s => { s with storage := Function.update s.storage key none })

/-- A call into the world of the plugins. -/
def call {α : Type} (x : Effect W Error α) : KitM W α :=
  ofFunction (fun s => ((exec x s.world).1, { s with world := (exec x s.world).2 }))

variable (kit : SessionKit W)

/-! ## Chains and plugins -/

/-- `getChainDefinition`. -/
def getChainDefinition (id : Checksum256) (override : Option (List ChainDefinition) := none) :
    Result ChainDefinition :=
  match (override.getD kit.chains).find? (fun c => c.id = id) with
  | some chain => .ok chain
  | none => err .notFound (lit "No chain defined with an ID of: " ++ id.hexString)

/-- The wallet plugin of an id. -/
def findWalletPlugin (id : Str) : Option (WalletPlugin W) :=
  kit.walletPlugins.find? (fun plugin => plugin.id = id)

/-- `Checksum256::from(chain).value_or(fallback)`. -/
def chainIdOr (chain : Str) (fallback : Checksum256) : Checksum256 :=
  (Checksum.ofHex 32 chain).toOption.getD fallback

/-! ## Persisting -/

/-- Make a session the current one. -/
def setCurrent (serialized : SerializedSession) : KitM W Unit := do
  let text ← outcome serialized.toJSON.dump
  write .session text

/-- Put a session into the stored list. -/
def addToSessions (serialized : SerializedSession) : KitM W Unit := do
  let existing ← read .sessions
  match existing with
  | some existing => do
    let stored ← outcome (parseSessions existing)
    let text ← outcome (stringifySessions (addSession stored serialized))
    write .sessions text
  | none => do
    let text ← outcome (stringifySessions [serialized])
    write .sessions text

/-- `persistSession`. -/
def persistSession (session : Session W) (setAsDefault : Bool := true) : KitM W Unit := do
  let serialized ← look (fun s => session.serialize s.world)
  let serialized := { serialized with isDefault := some setAsDefault }
  if setAsDefault then do
    setCurrent serialized
    addToSessions serialized
  else addToSessions serialized

/-! ## Reading -/

/-- Is the wallet plugin of a session registered in this kit? -/
def registered (session : SerializedSession) : Bool :=
  kit.walletPlugins.any (fun plugin => plugin.id = session.walletPlugin.id)

/-- `getSessions`: only the sessions of registered wallet plugins. -/
def getSessions : KitM W (List SerializedSession) := do
  let data ← read .sessions
  match data with
  | none => pure []
  | some data => do
    let parsed ← outcome (parseSessions data)
    return parsed.filter kit.registered

/-! ## Logging out -/

/-- `logoutParams`. -/
def logoutParams (serialized : SerializedSession) : LogoutContext where
  chain := (kit.getChainDefinition (chainIdOr serialized.chain (.zero 32))).toOption.getD {}
  permissionLevel := {
    actor := .ofString serialized.actor, permission := .ofString serialized.permission }
  appName := kit.appName

/-- The call to the wallet plugin of a session, if it has one that implements it. -/
def logoutPlugin (serialized : SerializedSession) : KitM W Unit :=
  match kit.findWalletPlugin serialized.walletPlugin.id with
  | some plugin =>
    if plugin.hasLogout then call (plugin.logout (kit.logoutParams serialized)) else pure ()
  | none => pure ()

/-- `logoutSerialized`. -/
def logoutSerialized (serialized : SerializedSession) : KitM W Unit := do
  remove .session
  kit.logoutPlugin serialized
  let sessions ← kit.getSessions
  let other := sessions.filter (fun session => !sameSession session serialized)
  let text ← outcome (stringifySessions other)
  write .sessions text

/-- `logout(const Session&)`. -/
def logoutSession (session : Session W) : KitM W Unit := do
  let serialized ← look (fun s => session.serialize s.world)
  kit.logoutSerialized serialized

/-- `logout()`. -/
def logout : KitM W Unit := do
  remove .session
  let sessions ← kit.getSessions
  remove .sessions
  sessions.forM kit.logoutPlugin

/-! ## Restoring -/

/-- The stored session the arguments of `restore` name: the one of an identity, or the
default of a chain; without a list, the one they carry themselves. -/
def findStored (args : RestoreArgs) (data : Option JsonText) :
    Result (Option SerializedSession) :=
  match data with
  | some data => do
    let sessions ← parseSessions data
    return match args.actor, args.permission with
      | some actor, some permission => sessions.find? (fun s =>
          chainIdOr s.chain (.zero 32) = args.chain ∧ s.actor = actor ∧ s.permission = permission)
      | _, _ => sessions.find? (fun s =>
          chainIdOr s.chain (.zero 32) = args.chain ∧ s.defaultFlag = true)
  | none =>
    match args.actor, args.permission, args.walletPlugin with
    | some actor, some permission, some walletPlugin =>
      .ok (some { chain := args.chain.hexString, actor, permission, walletPlugin, data := args.data })
    | _, _, _ =>
      err .notFound "No sessions found in storage. A wallet plugin must be provided."

/-- The data a wallet plugin is given back: the stored data, then that of the arguments. -/
def restoreData (plugin : WalletPlugin W) (args : RestoreArgs) (serialized : SerializedSession) :
    W → W := fun w =>
  let w := if serialized.walletPlugin.data.isNull then w
    else plugin.setData serialized.walletPlugin.data w
  match args.walletPlugin with
  | some given =>
    if given.data.isNull || given.data.isEmptyObject then w else plugin.setData given.data w
  | none => w

/-- The session of a stored one. -/
def restoreFound (args : RestoreArgs) (serialized : SerializedSession) : KitM W (Session W) :=
  match kit.findWalletPlugin serialized.walletPlugin.id with
  | none => outcome (err .plugin (lit "No WalletPlugin found with the ID of: '" ++
      serialized.walletPlugin.id ++ lit "'"))
  | some plugin => do
    change (fun s => { s with world := restoreData plugin args serialized s.world })
    let chain ← outcome (kit.getChainDefinition (chainIdOr serialized.chain args.chain))
    return {
      chain
      permissionLevel := {
        actor := .ofString serialized.actor, permission := .ofString serialized.permission }
      walletPlugin := plugin
      appName := some kit.appName
      data := if serialized.data.isNull then .obj [] else serialized.data }

/-- `restore(const RestoreArgs&)`. -/
def restoreArgs (args : RestoreArgs) (options : LoginOptions := {}) :
    KitM W (Option (Session W)) := do
  let data ← read .sessions
  let found ← outcome (findStored args data)
  match found with
  | none => pure none
  | some serialized => do
    let session ← kit.restoreFound args serialized
    persistSession session (options.setAsDefault.getD true)
    return some session

/-- `restore(const SerializedSession&)`. -/
def restoreSerialized (serialized : SerializedSession) (options : LoginOptions := {}) :
    KitM W (Option (Session W)) := do
  let chain ← outcome (Checksum.ofHex 32 serialized.chain)
  kit.restoreArgs {
    chain
    actor := some serialized.actor
    permission := some serialized.permission
    walletPlugin := some serialized.walletPlugin
    data := serialized.data } options

/-- `restore()`: the current session. -/
def restore : KitM W (Option (Session W)) := do
  let data ← read .session
  match data with
  | none => pure none
  | some data =>
    match data.parsed with
    | none => outcome (err .storage "Failed to parse session from storage")
    | some parsed => do
      let serialized ← outcome (SerializedSession.fromJSON parsed)
      kit.restoreSerialized serialized

/-- `restoreAll`. -/
def restoreAll : KitM W (List (Session W)) := do
  let serializedSessions ← kit.getSessions
  let sessions ← serializedSessions.mapM (fun serialized => kit.restoreSerialized serialized)
  return sessions.filterMap (fun session => session)

/-! ## Logging in -/

/-- The chains a login may choose from. -/
def loginChains (options : LoginOptions) : Result (List ChainDefinition) :=
  match options.chains with
  | some ids => ids.mapM (fun id => kit.getChainDefinition id)
  | none => .ok kit.chains

/-- The context of a login request. -/
def loginContext (options : LoginOptions) (chains : List ChainDefinition) : LoginContext where
  appName := kit.appName
  arbitrary := options.arbitrary
  chains := chains
  walletPlugins := kit.walletPlugins.map (fun plugin =>
    { config := plugin.config, metadata := plugin.metadata })

/-- The wallet plugin that needs no choice: the only one, or the one of the options. -/
def predeterminedPlugin (options : LoginOptions) : Option ℕ :=
  if kit.walletPlugins.length = 1 then some 0
  else options.walletPlugin.bind (fun id => kit.walletPlugins.findIdx? (fun plugin => plugin.id = id))

/-- The context with a wallet plugin, and what that requires of the user. -/
def withPlugin (context : LoginContext) (index : ℕ) (plugin : WalletPlugin W) : LoginContext :=
  { context with
    walletPluginIndex := some index
    uiRequirements := {
      requiresChainSelect := plugin.config.requiresChainSelect
      requiresPermissionSelect := plugin.config.requiresPermissionSelect
      requiresPermissionEntry :=
        plugin.config.requiresPermissionEntry.getD context.uiRequirements.requiresPermissionEntry
      requiresWalletSelect := false } }

/-- The context with a chain, or with none. -/
def withChain (context : LoginContext) (chain : Option ChainDefinition) : LoginContext :=
  match chain with
  | some chain => { context with
      chain := some chain
      uiRequirements := { context.uiRequirements with requiresChainSelect := false } }
  | none => { context with
      uiRequirements := { context.uiRequirements with requiresChainSelect := true } }

/-- The chain that needs no choice: that of the options, or the only one. -/
def predeterminedChain (options : LoginOptions) (context : LoginContext) :
    Result (Option ChainDefinition) :=
  match options.chain with
  | some (.definition chain) => .ok (some chain)
  | some (.id id) => some <$> kit.getChainDefinition id (some context.chains)
  | none =>
    match context.chains with
    | [chain] => .ok (some chain)
    | _ => .ok none

/-- The context with a permission, if the options name one. -/
def withPermission (context : LoginContext) (permissionLevel : Option PermissionLevel) :
    LoginContext :=
  match permissionLevel with
  | some level => { context with
      permissionLevel := some level
      uiRequirements := { context.uiRequirements with requiresPermissionSelect := false } }
  | none => context

/-- What can be determined without the user: the wallet plugin, the chain and the
permission. -/
def predetermine (options : LoginOptions) (context : LoginContext) :
    Result (Option (WalletPlugin W) × LoginContext) := do
  let plugin := (kit.predeterminedPlugin options).bind (fun index =>
    kit.walletPlugins[index]?.map (fun plugin => (index, plugin)))
  let context := match plugin with
    | some (index, plugin) => withPlugin context index plugin
    | none => context
  let chain ← kit.predeterminedChain options context
  return (plugin.map Prod.snd, withPermission (withChain context chain) options.permissionLevel)

/-- The wallet plugin at the index the user interface answers with. -/
def userPlugin (index : ℤ) : Option (WalletPlugin W) :=
  if index < 0 then none else kit.walletPlugins[index.toNat]?

/-- The chain the user interface answers with must be one of the context's. -/
def answeredChain (answer : UserInterfaceLoginResponse) (context : LoginContext) :
    Result (Option ChainDefinition) :=
  match answer.chainId with
  | none => .ok context.chain
  | some id =>
    if context.chains.any (fun c => c.id = id) then
      some <$> kit.getChainDefinition id (some context.chains)
    else err .invalid
      "UserInterface did not return a chain ID matching the subset of chains."

/-- The answer of the user interface, on the context as it leaves it. -/
def applyAnswer (answer : UserInterfaceLoginResponse) (context : LoginContext) :
    Result (WalletPlugin W × LoginContext) :=
  match kit.userPlugin answer.walletPluginIndex with
  | none => err .plugin "UserInterface did not return a valid WalletPlugin index."
  | some plugin => do
    let chain ← kit.answeredChain answer context
    return (plugin, { context with
      chain := chain
      permissionLevel := answer.permissionLevel.orElse (fun _ => context.permissionLevel) })

/-- Is there anything left to ask the user? -/
def asksUser (context : LoginContext) : Bool :=
  context.uiRequirements.requiresChainSelect || context.uiRequirements.requiresPermissionSelect ||
    context.uiRequirements.requiresPermissionEntry || context.uiRequirements.requiresWalletSelect

/-- The login flow of the user interface, where something is left to ask. -/
def askUser (plugin : Option (WalletPlugin W)) (context : LoginContext) :
    KitM W (Option (WalletPlugin W) × LoginContext) :=
  if asksUser context then do
    let answer ← call (kit.ui.login context)
    let (plugin, context) ← outcome (kit.applyAnswer answer.1 answer.2)
    return (some plugin, context)
  else pure (plugin, context)

/-- The wallet plugin must support the chain that was selected. -/
def checkSupported (plugin : WalletPlugin W) (context : LoginContext) : Result Unit :=
  match context.chain with
  | some chain =>
    if plugin.config.supportedChains = [] ∨ chain.id.hexString ∈ plugin.config.supportedChains
    then .ok ()
    else err .plugin (lit "The wallet plugin '" ++ plugin.metadata.name.getD "unknown" ++
      lit "' does not support the chain '" ++ chain.id.hexString ++ lit "'")
  | none => .ok ()

/-- The part of a login that comes before the user is asked. -/
def prepare (options : LoginOptions) : KitM W (Option (WalletPlugin W) × LoginContext) := do
  let chains ← outcome (kit.loginChains options)
  call kit.ui.onLogin
  outcome (kit.predetermine options (kit.loginContext options chains))

/-- The part of a login that comes before its wallet plugin: which one to turn to, and
with what context. -/
def select (options : LoginOptions) : KitM W (WalletPlugin W × LoginContext) := do
  let (plugin, context) ← kit.prepare options
  let (plugin, context) ← kit.askUser plugin context
  match plugin with
  | none => outcome (err .plugin "No WalletPlugin available to perform the login.")
  | some plugin => do
    outcome (checkSupported plugin context)
    return (plugin, context)

/-- The hooks of a login, each on the context the one before left. -/
def runHooks (hooks : List (LoginHook W)) (context : LoginContext) : KitM W LoginContext :=
  hooks.foldlM (fun context hook => call (hook context)) context

/-- The session of a wallet's answer. -/
def sessionOfAnswer (plugin : WalletPlugin W) (response : WalletPluginLoginResponse) :
    Result (Session W) := do
  let chain ← kit.getChainDefinition response.chain
  return {
    chain
    permissionLevel := response.permissionLevel
    walletPlugin := plugin
    appName := some kit.appName }

/-- What a login does once it turns to the wallet plugin. -/
def loginWith (options : LoginOptions) (plugin : WalletPlugin W) (context : LoginContext) :
    KitM W (LoginResult W) := do
  let context ← runHooks kit.beforeLogin context
  let (response, context) ← call (plugin.login context)
  let session ← outcome (kit.sessionOfAnswer plugin response)
  let context ← runHooks kit.afterLogin context
  persistSession session (options.setAsDefault.getD true)
  call kit.ui.onLoginComplete
  return { context, response, session }

/-- `login`: an error is reported to the user interface. -/
def login (options : LoginOptions) : KitM W (LoginResult W) :=
  onFailure (do
    let (plugin, context) ← kit.select options
    kit.loginWith options plugin context)
    (fun e => call (kit.ui.onError e))

end SessionKit

end Dwarfkit
