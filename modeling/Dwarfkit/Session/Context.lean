/-
# The context of transact plugins

What a plugin's hooks work with: the user interface (`session/ui.hpp`), `TransactContext`
with its `resolve` (`session/transact.cpp`), and the action lists of requests
(`session/utils.cpp`).  What the user interface and the chain answer is a program over a
world of its own.

* `getRawActions_prependAction` : a prepended action comes first, and nothing else moves;
* `exec_resolve_ok` : the parts of a resolution that succeeds;
* `resolve_keeps` : a resolution carries its request and the context's signer.
-/
import Dwarfkit.Session.Plugins
import Dwarfkit.SigningRequest.Create

namespace Dwarfkit

open Effects

/-! ## The user interface -/

/-- `PromptElementType`. -/
inductive PromptElementType where
  | accept
  | asset
  | button
  | close
  | countdown
  | link
  | qr
  | textarea
  deriving DecidableEq

/-- `PromptElement`. -/
structure PromptElement where
  type : PromptElementType := .button
  label : Option Str := none
  data : Json := .null
  deriving DecidableEq

/-- `PromptArgs`. -/
structure PromptArgs where
  title : Str
  body : Option Str := none
  optional : Bool := false
  elements : List PromptElement := []
  deriving DecidableEq

/-- `UserInterfaceTranslateOptions`. -/
structure UserInterfaceTranslateOptions where
  defaultValue : Str
  values : Json := .null

/-- `UserInterfaceTranslateFunction`. -/
abbrev UserInterfaceTranslateFunction := Str → UserInterfaceTranslateOptions → Str

namespace Transact

/-- `TransactHookResponse`. -/
structure TransactHookResponse where
  request : SigningRequest
  signatures : List Signature := []

section World

variable (W : Type)

/-- `UserInterface`, the calls a transact plugin makes. -/
structure UserInterface where
  getTranslate : Str → UserInterfaceTranslateFunction
  status : Str → Effect W Error Unit
  prompt : PromptArgs → Effect W Error Unit

/-- `GetInfoResponse`: what is asked of it. -/
structure GetInfoResponse where
  getTransactionHeader : (secondsAhead : UInt32) → TransactionHeader

/-- `TransactContext`, with the clock as the resolution reads it. -/
structure TransactContext where
  abiCache : W → AbiProvider
  chain : ChainDefinition
  getInfo : Effect W Error GetInfoResponse
  now : W → ℤ
  permissionLevel : PermissionLevel
  ui : Option (UserInterface W)

end World

/-! ## Resolving in a context -/

/-- `requiresTapos`. -/
def requiresTapos (request : SigningRequest) : Bool :=
  match request.getRawTransaction with
  | .ok tx => !request.isIdentity && !tx.hasTapos
  | .error _ => false

namespace TransactContext

variable {W : Type} (context : TransactContext W)

/-- The TaPoS values of the chain's head. -/
def taposContext (header : TransactionHeader) : TransactionContext where
  expiration := some header.expiration
  ref_block_num := some header.ref_block_num
  ref_block_prefix := some header.ref_block_prefix

/-- What a request is resolved with: the chain, and the TaPoS values it requires. -/
def resolveArgs (request : SigningRequest) (expireSeconds : UInt32) :
    Effect W Error TransactionContext :=
  if requiresTapos request then do
    let chainInfo ← context.getInfo
    return { taposContext (chainInfo.getTransactionHeader expireSeconds) with
      chainId := some context.chain.id }
  else return { chainId := some context.chain.id }

/-- `TransactContext::resolve`. -/
def resolve (p : Platform) (request : SigningRequest) (expireSeconds : UInt32 := 120) :
    Effect W Error ResolvedSigningRequest := do
  let resolveArgs ← context.resolveArgs request expireSeconds
  let abiCache ← look context.abiCache
  let abis ← outcome (request.fetchAbis (some abiCache))
  let now ← look context.now
  outcome (request.resolve p now abis context.permissionLevel resolveArgs)

/-- `Session::createRequest`, of a json transaction. -/
def createRequest (p : Platform) (transaction : Json) : Effect W Error SigningRequest := do
  let abiCache ← look context.abiCache
  let created ← outcome (SigningRequest.create p
    { transaction := some transaction, chainId := some context.chain.id }
    { abiProvider := some abiCache })
  return created.setBroadcast false

/-- **The parts of a resolution**: what it is resolved with is asked for first, the ABIs are then
those of the cache. -/
theorem exec_resolve_ok {p : Platform} {request : SigningRequest} {expireSeconds : UInt32}
    {w w' : W} {resolved : ResolvedSigningRequest} :
    exec (context.resolve p request expireSeconds) w = (.ok resolved, w') ↔
      ∃ args abis, exec (context.resolveArgs request expireSeconds) w = (.ok args, w') ∧
        request.fetchAbis (some (context.abiCache w')) = .ok abis ∧
        request.resolve p (context.now w') abis context.permissionLevel args = .ok resolved := by
  unfold resolve
  rw [exec_bind_ok]
  constructor
  · rintro ⟨args, u, hargs, h⟩
    rw [exec_look_bind] at h
    obtain ⟨abis, habis, h⟩ := exec_outcome_bind_ok.mp h
    rw [exec_look_bind, exec_outcome] at h
    obtain ⟨hresolve, rfl⟩ := Prod.mk.inj h
    exact ⟨args, abis, hargs, habis, hresolve⟩
  · rintro ⟨args, abis, hargs, habis, hresolve⟩
    refine ⟨args, w', hargs, ?_⟩
    rw [exec_look_bind, habis, exec_outcome_ok_bind, exec_look_bind, exec_outcome, hresolve]

/-- **A resolution carries its request and the context's signer.** -/
theorem resolve_keeps {p : Platform} {request : SigningRequest} {expireSeconds : UInt32} {w w' : W}
    {resolved : ResolvedSigningRequest}
    (h : exec (context.resolve p request expireSeconds) w = (.ok resolved, w')) :
    resolved.request = request ∧ resolved.signer = context.permissionLevel := by
  obtain ⟨args, abis, -, -, hresolve⟩ := context.exec_resolve_ok.mp h
  unfold SigningRequest.resolve at hresolve
  obtain ⟨tx, -, hresolve⟩ := bind_eq_ok.mp hresolve
  obtain ⟨actions, -, hresolve⟩ := bind_eq_ok.mp hresolve
  obtain ⟨context_free_actions, -, hresolve⟩ := bind_eq_ok.mp hresolve
  obtain ⟨chainId, -, hresolve⟩ := bind_eq_ok.mp hresolve
  cases hresolve
  exact ⟨rfl, rfl⟩

end TransactContext

/-! ## Action lists -/

/-- `Placement`. -/
inductive Placement where
  | append
  | prepend
  deriving DecidableEq

/-- A list with a new action in its place. -/
def Placement.place (newAction : Action) : Placement → List Action → List Action
  | .append, actions => actions ++ [newAction]
  | .prepend, actions => newAction :: actions

/-- `insertAction`, on the request variant of either version. -/
def insertVariant {I : Type} (newAction : Action) (placement : Placement) :
    RequestVariant I → Result (RequestVariant I)
  | .action action => .ok (.actions (placement.place newAction [action]))
  | .actions actions => .ok (.actions (placement.place newAction actions))
  | .transaction tx => .ok (.transaction { tx with actions := placement.place newAction tx.actions })
  | .identity _ => err .invalid "unknown data req type"

/-- `insertAction`. -/
def insertAction (request : SigningRequest) (newAction : Action) (placement : Placement) :
    Result SigningRequest :=
  match request.data with
  | .v2 d => do
    let req ← insertVariant newAction placement d.req
    return { request with data := .v2 { d with req } }
  | .v3 d => do
    let req ← insertVariant newAction placement d.req
    return { request with data := .v3 { d with req } }

/-- `appendAction`. -/
def appendAction (request : SigningRequest) (action : Action) : Result SigningRequest :=
  insertAction request action .append

/-- `prependAction`. -/
def prependAction (request : SigningRequest) (action : Action) : Result SigningRequest :=
  insertAction request action .prepend

/-- **Where an action is inserted**: in its place among the raw actions, which stay as
they are. -/
theorem getRawActions_insertAction {request request' : SigningRequest} {newAction : Action}
    {placement : Placement} (h : insertAction request newAction placement = .ok request') :
    ∃ actions, request.getRawActions = .ok actions ∧
      request'.getRawActions = .ok (placement.place newAction actions) := by
  obtain ⟨version, data, signature⟩ := request
  cases data with
  | v2 d =>
    obtain ⟨chain_id, req, flags, callback, info⟩ := d
    obtain ⟨req', hreq, h⟩ := bind_eq_ok.mp h
    cases h
    cases req with
    | action action =>
      cases hreq
      exact ⟨[action], rfl, rfl⟩
    | actions actions =>
      cases hreq
      exact ⟨actions, rfl, rfl⟩
    | transaction tx =>
      cases hreq
      exact ⟨tx.actions, rfl, rfl⟩
    | identity v => cases hreq
  | v3 d =>
    obtain ⟨chain_id, req, flags, callback, info⟩ := d
    obtain ⟨req', hreq, h⟩ := bind_eq_ok.mp h
    cases h
    cases req with
    | action action =>
      cases hreq
      exact ⟨[action], rfl, rfl⟩
    | actions actions =>
      cases hreq
      exact ⟨actions, rfl, rfl⟩
    | transaction tx =>
      cases hreq
      exact ⟨tx.actions, rfl, rfl⟩
    | identity v => cases hreq

/-- A prepended action comes first. -/
theorem getRawActions_prependAction {request request' : SigningRequest} {action : Action}
    (h : prependAction request action = .ok request') {actions : List Action}
    (hactions : request.getRawActions = .ok actions) :
    request'.getRawActions = .ok (action :: actions) := by
  obtain ⟨actions', hactions', hplaced⟩ := getRawActions_insertAction h
  rw [hactions] at hactions'
  cases hactions'
  exact hplaced

end Transact

end Dwarfkit
