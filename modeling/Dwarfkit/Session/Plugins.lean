/-
# Wallet plugins, the user interface and sessions

The parties a session kit works with (`session/wallet.hpp`, `session/ui.hpp`,
`session/login.hpp`, `session/session.hpp`).  What a plugin, a hook or the user
interface does is not the kit's to say: it is a program over a world of its own,
which may fail and which answers as it likes.
-/
import Dwarfkit.Antelope.Chain.Transaction
import Dwarfkit.Library.Effects
import Dwarfkit.Session.Storage

namespace Dwarfkit

open Effects

/-! ## Chains and wallet plugins -/

/-- `ChainDefinition`: what the kit reads of it. -/
structure ChainDefinition where
  id : Checksum256 := .zero 32
  url : Str := []
  deriving DecidableEq

/-- `WalletPluginConfig`. -/
structure WalletPluginConfig where
  requiresChainSelect : Bool := true
  requiresPermissionSelect : Bool := false
  requiresPermissionEntry : Option Bool := none
  supportedChains : List Str := []

/-- `WalletPluginMetadata`: the name. -/
structure WalletPluginMetadata where
  name : Option Str := none

/-- `WalletPluginLoginResponse`. -/
structure WalletPluginLoginResponse where
  chain : Checksum256
  permissionLevel : PermissionLevel

/-! ## The login context -/

/-- `UserInterfaceRequirements`. -/
structure UserInterfaceRequirements where
  requiresChainSelect : Bool := true
  requiresPermissionSelect : Bool := true
  requiresPermissionEntry : Bool := false
  requiresWalletSelect : Bool := true

/-- `UserInterfaceWalletPlugin`. -/
structure UserInterfaceWalletPlugin where
  config : WalletPluginConfig
  metadata : WalletPluginMetadata

/-- `LoginContext`. -/
structure LoginContext where
  appName : Str
  arbitrary : Json := .obj []
  chain : Option ChainDefinition := none
  chains : List ChainDefinition
  permissionLevel : Option PermissionLevel := none
  uiRequirements : UserInterfaceRequirements := {}
  walletPluginIndex : Option ℕ := none
  walletPlugins : List UserInterfaceWalletPlugin

/-- `UserInterfaceLoginResponse`. -/
structure UserInterfaceLoginResponse where
  chainId : Option Checksum256 := none
  permissionLevel : Option PermissionLevel := none
  walletPluginIndex : ℤ := 0

/-- `LogoutContext`: the session's chain and permission, and the name of the app. -/
structure LogoutContext where
  chain : ChainDefinition
  permissionLevel : PermissionLevel
  appName : Str

section World

variable (W : Type)

/-- `WalletPlugin`.  `data` and `setData` are what it keeps for its serialized form; a
login answers with the context as it leaves it. -/
structure WalletPlugin where
  id : Str
  config : WalletPluginConfig := {}
  metadata : WalletPluginMetadata := {}
  data : W → Json
  setData : Json → W → W
  login : LoginContext → Effect W Error (WalletPluginLoginResponse × LoginContext)
  hasLogout : Bool := false
  logout : LogoutContext → Effect W Error Unit := fun _ => pure ()

/-- `UserInterface`, the calls a login makes; it may change the context, too. -/
structure UserInterface where
  onLogin : Effect W Error Unit := pure ()
  login : LoginContext → Effect W Error (UserInterfaceLoginResponse × LoginContext)
  onLoginComplete : Effect W Error Unit := pure ()
  onError : Error → Effect W Error Unit := fun _ => pure ()

/-- `LoginHook`: it may change the context. -/
abbrev LoginHook := LoginContext → Effect W Error LoginContext

/-! ## Sessions -/

/-- `Session`: what a kit sets up and stores. -/
structure Session where
  chain : ChainDefinition
  permissionLevel : PermissionLevel
  walletPlugin : WalletPlugin W
  appName : Option Str := none
  data : Json := .obj []

end World

variable {W : Type}

/-- `WalletPlugin::serialize`. -/
def WalletPlugin.serialize (plugin : WalletPlugin W) (w : W) : SerializedWalletPlugin where
  id := plugin.id
  data := plugin.data w

/-- `Session::serialize`. -/
def Session.serialize (session : Session W) (w : W) : SerializedSession where
  chain := session.chain.id.hexString
  actor := session.permissionLevel.actor.toString
  permission := session.permissionLevel.permission.toString
  walletPlugin := session.walletPlugin.serialize w
  data := if session.data.isObject && !session.data.isEmptyObject then session.data else .null

/-- The identity a session is stored under. -/
def Session.identity (session : Session W) : SerializedSession.Identity where
  chain := session.chain.id.hexString
  actor := session.permissionLevel.actor.toString
  permission := session.permissionLevel.permission.toString

@[simp]
theorem Session.identity_serialize (session : Session W) (w : W) :
    (session.serialize w).identity = session.identity := rfl

/-! ## Options -/

/-- A chain as `LoginOptions` takes it: a definition, or the id of one of the kit's. -/
inductive ChainOption where
  | definition (chain : ChainDefinition)
  | id (id : Checksum256)

/-- `LoginOptions`. -/
structure LoginOptions where
  arbitrary : Json := .obj []
  chain : Option ChainOption := none
  chains : Option (List Checksum256) := none
  setAsDefault : Option Bool := none
  permissionLevel : Option PermissionLevel := none
  walletPlugin : Option Str := none

/-- `RestoreArgs`. -/
structure RestoreArgs where
  chain : Checksum256
  actor : Option Str := none
  permission : Option Str := none
  walletPlugin : Option SerializedWalletPlugin := none
  data : Json := .null

end Dwarfkit
