/-
# The whole of a transact

`Session::transact` of `session/session.cpp` from the first notification of the user
interface to the answer, with the broadcast and the errors, over a world in which the
hooks, the wallet and the chain act.  What is done is logged by its stage.

* `transact_follows` : the stages are the beginning of one script, and the whole of it in
  a transact that succeeds; what is broadcast, and what of an error is told.
* `signing_eq_ok` : the parts of a signing that succeeds;
* `signing_eq_transact` : up to the afterSign hooks this is `Session.transact`.
-/
import Dwarfkit.Session.Transact
import Dwarfkit.Session.Plugins
import Dwarfkit.Antelope.Serializer.Serializer
import Dwarfkit.Antelope.Chain.PackedTransaction
import Dwarfkit.Library.Scripts

namespace Dwarfkit

namespace Session

open Effects

/-! ## Data -/

/-- `TransactResultReturnValue`; the type is the name of the action and its result's. -/
structure TransactResultReturnValue where
  contract : Name
  action : Name
  hex : Str
  data : Json
  returnType : Name × Str

/-- `TransactResult`, with what the broadcast adds. -/
structure TransactResponse extends TransactResult where
  response : Option Json := none
  returns : List TransactResultReturnValue := []

/-- The stages of a transact, as far as something outside of it is called. -/
inductive Stage where
  | onTransact
  | beforeSign
  | onSign
  | sign
  | afterSign
  | onSignComplete
  | onBroadcast
  | sendTransaction
  | afterBroadcast
  | onBroadcastComplete
  | onTransactComplete
  deriving DecidableEq, Repr

/-- What is observed of a transact: its stages, and what is sent to the chain and told to the user
interface as an error. -/
structure Log where
  stages : List Stage := []
  sent : List SignedTransaction := []
  errors : List Error := []

section World

variable (W : Type)

/-- `UserInterface`, the notifications of a transact. -/
structure TransactInterface where
  onTransact : Effect W Error Unit
  onSign : Effect W Error Unit
  onSignComplete : Effect W Error Unit
  onBroadcast : Effect W Error Unit
  onBroadcastComplete : Effect W Error Unit
  onTransactComplete : Effect W Error Unit
  onError : Error → Effect W Error Unit

/-- A session with the options of a transact: the texts, the user interface, the hooks of the
plugins, the wallet and the chain. -/
structure Pipeline where
  platform : Platform
  encode : SigningRequest → Str
  signatureText : Signature → Str
  walletName : Option Str
  modifyAllowed : Bool
  willBroadcast : Bool
  ui : Option (TransactInterface W)
  getMergedAbiCache : Effect W Error Unit
  createRequest : Effect W Error SigningRequest
  beforeSign : List (SigningRequest → Effect W Error (Option TransactHookResponse))
  resolve : SigningRequest → Effect W Error ResolvedSigningRequest
  sign : ResolvedSigningRequest → Effect W Error WalletPluginSignResponse
  afterSign : List (TransactResponse → Effect W Error TransactResponse)
  afterBroadcast : List (TransactResponse → Effect W Error TransactResponse)
  sendTransaction : SignedTransaction → Effect W Error Json
  getAbi : Name → Effect W Error ABI

end World

namespace Pipeline

variable {W : Type} (session : Pipeline W)

/-! ## Stages -/

/-- A call of something outside. -/
def perform {α : Type} (stage : Stage) (x : Effect W Error α) : Effect (W × Log) Error α := do
  change (fun s => (s.1, { s.2 with stages := s.2.stages ++ [stage] }))
  onFirst x

/-- A notification, if there is a user interface. -/
def notify (stage : Stage) (call : TransactInterface W → Effect W Error Unit) :
    Effect (W × Log) Error Unit :=
  match session.ui with
  | none => pure ()
  | some ui => perform stage (call ui)

/-! ## Signing -/

/-- The loop's state after a hook's answer. -/
def respond (s : LoopState) (response : Option TransactHookResponse) : LoopState :=
  let s := { s with hookIndex := s.hookIndex + 1 }
  match response with
  | none => s
  | some response =>
    let encoded := session.encode response.request
    let revision : TransactRevision := {
      allowModify := s.modifyAllowed
      code := lit "beforeSign#" ++ natToString s.hookIndex
      modified := match s.revisions.getLast? with
        | some last => decide (last.request ≠ encoded)
        | none => false
      request := encoded
      signatures := response.signatures.map session.signatureText }
    let s := { s with
      revisions := s.revisions ++ [revision]
      request := if s.modifyAllowed then updateRequest s.request response.request else s.request }
    if response.signatures ≠ [] then
      { s with modifyAllowed := false, signatures := s.signatures ++ response.signatures }
    else s

/-- One round of the loop over the beforeSign hooks. -/
def round (s : LoopState) (hook : SigningRequest → Effect W Error (Option TransactHookResponse)) :
    Effect (W × Log) Error LoopState := do
  let response ← perform .beforeSign (hook s.request)
  return session.respond s response

/-- The loop, from the created request. -/
def beforeSignLoop (request : SigningRequest) : Effect (W × Log) Error LoopState :=
  session.beforeSign.foldlM session.round
    { request := request
      modifyAllowed := session.modifyAllowed
      revisions := [{
        allowModify := true
        code := "original"
        modified := false
        request := session.encode request
        signatures := [] }] }

/-- The result with the wallet's signatures and, if that is allowed, its modification. -/
def merge (s : LoopState) (resolved : ResolvedSigningRequest)
    (walletResponse : WalletPluginSignResponse) : Result TransactResult :=
  let result : TransactResult := {
    request := s.request
    resolved := resolved
    revisions := s.revisions
    signatures := s.signatures ++ walletResponse.signatures }
  match walletResponse.resolved with
  | some walletResolved =>
    if !resolved.transaction.equals session.platform.toCrypto walletResolved.transaction then
      if s.modifyAllowed then
        .ok { result with request := walletResolved.request, resolved := walletResolved }
      else
        err .plugin (lit "The " ++ session.walletName.getD "wallet" ++
          lit " plugin modified the transaction when it was not allowed to.")
    else .ok result
  | none => .ok result

/-- From the start to the result that the afterSign hooks are given. -/
def signing : Effect (W × Log) Error TransactResult := do
  onFirst session.getMergedAbiCache
  session.notify .onTransact (·.onTransact)
  let request ← onFirst session.createRequest
  let s ← session.beforeSignLoop request
  let resolved ← onFirst (session.resolve s.request)
  session.notify .onSign (·.onSign)
  let walletResponse ← perform .sign (session.sign resolved)
  outcome (session.merge s resolved walletResponse)

/-- From the start to the end of the signing, with the afterSign hooks. -/
def signed : Effect (W × Log) Error TransactResponse := do
  let result ← session.signing
  let result ← session.afterSign.foldlM (fun result hook => perform .afterSign (hook result))
    { toTransactResult := result }
  session.notify .onSignComplete (·.onSignComplete)
  return result

/-! ## Broadcasting -/

/-- The `SignedTransaction` of a result. -/
def assemble (result : TransactResponse) : SignedTransaction where
  toTransaction := result.resolved.transaction
  signatures := result.signatures

/-- The return value of an action trace that has one. -/
def returnValue (actionTrace : Json) : Effect W Error (Option TransactResultReturnValue) :=
  match actionTrace.find "return_value_hex_data" with
  | some (.str hex) => do
    if hex = [] then return none
    let contract ← outcome ((actionTrace.jsonAt "act").valueStr "account" [])
    let action ← outcome ((actionTrace.jsonAt "act").valueStr "name" [])
    let abi ← session.getAbi (.ofString contract)
    match abi.action_results.find? (fun result => result.name = .ofString action) with
    | some returnType => do
      let bytes ← outcome (hexToArray hex)
      let data := Serializer.decode session.platform bytes returnType.result_type abi
      return some {
        contract := .ofString contract, action := .ofString action, hex
        data := data.toOption.getD (.str [])
        returnType := (returnType.name, returnType.result_type) }
    | none =>
      return some {
        contract := .ofString contract, action := .ofString action, hex, data := .str []
        returnType := (.ofString action, []) }
  | _ => return none

/-- `processReturnValues`. -/
def processReturnValues (response : Json) :
    Effect W Error (List TransactResultReturnValue) := do
  let decoded ← ((response.jsonAt "processed").jsonAt "action_traces").elements.mapM
    session.returnValue
  return decoded.filterMap id

/-- The call to the chain. -/
def send (tx : SignedTransaction) : Effect (W × Log) Error Json := do
  change (fun s => (s.1, { s.2 with sent := s.2.sent ++ [tx] }))
  perform .sendTransaction (session.sendTransaction tx)

/-- The return values, where the response has traces. -/
def returnsOf (response : Json) : Effect W Error (List TransactResultReturnValue) :=
  if response.contains "processed" ∧ (response.jsonAt "processed").contains "action_traces" then
    session.processReturnValues response
  else return []

/-- The broadcast of a signed result. -/
def broadcast (result : TransactResponse) : Effect (W × Log) Error TransactResponse := do
  session.notify .onBroadcast (·.onBroadcast)
  let response ← session.send (assemble result)
  let returns ← onFirst (session.returnsOf response)
  let result ← session.afterBroadcast.foldlM
    (fun result hook => perform .afterBroadcast (hook result))
    { result with response := some response, returns := returns }
  session.notify .onBroadcastComplete (·.onBroadcastComplete)
  return result

/-- The broadcast, where there is to be one. -/
def broadcasting (result : TransactResponse) : Effect (W × Log) Error TransactResponse :=
  if session.willBroadcast then session.broadcast result else pure result

/-- From the signed result to the end. -/
def finish (result : TransactResponse) : Effect (W × Log) Error TransactResponse := do
  let result ← session.broadcasting result
  session.notify .onTransactComplete (·.onTransactComplete)
  return result

/-- `pipeline`. -/
def pipeline : Effect (W × Log) Error TransactResponse := do
  let result ← session.signed
  session.finish result

/-! ## Errors -/

/-- `apierror::details`. -/
def errorDetails (error : Error) : Json :=
  let chainError := ((error.details.jsonAt "response").jsonAt "json").jsonAt "error"
  if chainError.isObject then (chainError.find "details").getD (.arr []) else .arr []

/-- The error that `transact` returns, and whether it is told to the user interface: of an error of
the chain the first message, if there is one. -/
def reported (error : Error) : Result (Error × Bool) :=
  if error.kind = .api then
    match errorDetails error with
    | .arr (first :: _) =>
      if first.contains "message" then do
        let message ← (first.jsonAt "message").getStr
        return ({ error with message }, true)
      else return (error, false)
    | _ => return (error, false)
  else return (error, true)

/-- What is told to the user interface, whose own failure does not count. -/
def tell (error : Error) (s : W × Log) : W × Log :=
  match session.ui with
  | none => s
  | some ui => ((exec (ui.onError error) s.1).2, { s.2 with errors := s.2.errors ++ [error] })

/-- `Session::transact`; an exception leaves the function past the handling of errors. -/
def transact : Effect (W × Log) Error TransactResponse :=
  ofFunction fun s =>
    match exec session.pipeline s with
    | (.ok result, t) => (.ok result, t)
    | (.error error, t) =>
      if error.kind = .exception then (.error error, t)
      else
        match reported error with
        | .error thrown => (.error thrown, t)
        | .ok (error, told) => (.error error, if told then session.tell error t else t)

/-! ## The script -/

/-- The stage of a notification. -/
def noted (stage : Stage) : List Stage := if session.ui.isSome then [stage] else []

/-- The stages up to the last signature. -/
def signingScript : List Stage :=
  session.noted .onTransact ++ (session.beforeSign.map (fun _ => .beforeSign) ++
    (session.noted .onSign ++ [.sign]))

/-- The stages up to the end of the signing. -/
def signedScript : List Stage :=
  session.signingScript ++ (session.afterSign.map (fun _ => .afterSign) ++
    session.noted .onSignComplete)

/-- The stages of the broadcast. -/
def broadcastScript : List Stage :=
  session.noted .onBroadcast ++ ([.sendTransaction] ++
    (session.afterBroadcast.map (fun _ => .afterBroadcast) ++ session.noted .onBroadcastComplete))

/-- The stages of a transact. -/
def script : List Stage :=
  session.signedScript ++ ((if session.willBroadcast then session.broadcastScript else []) ++
    session.noted .onTransactComplete)

/-! ## The stages -/

theorem follows_perform {α : Type} (stage : Stage) (x : Effect W Error α) :
    Follows (fun s => s.2.stages) [stage] (perform stage x) := by
  apply Follows.of_logged
  intro s
  unfold perform
  rw [exec_change_bind]
  exact Frames.onFirst Log.stages x _

theorem follows_notify (stage : Stage) (call : TransactInterface W → Effect W Error Unit) :
    Follows (fun s => s.2.stages) (session.noted stage) (session.notify stage call) := by
  unfold noted notify
  cases session.ui with
  | none => exact Follows.of_frames (Frames.pure _ ())
  | some ui => exact follows_perform stage (call ui)

/-- A loop over hooks has its stage once for each of them. -/
theorem follows_hooks {α β : Type} (stage : Stage) {f : β → α → Effect (W × Log) Error β}
    (hf : ∀ b a, Follows (fun s => s.2.stages) [stage] (f b a)) (hooks : List α) (b : β) :
    Follows (fun s => s.2.stages) (hooks.map (fun _ => stage)) (hooks.foldlM f b) := by
  rw [List.map_eq_flatMap]
  exact Follows.foldlM hf hooks b

theorem follows_beforeSignLoop (request : SigningRequest) :
    Follows (fun s => s.2.stages) (session.beforeSign.map (fun _ => .beforeSign))
      (session.beforeSignLoop request) := by
  apply follows_hooks
  intro s hook
  unfold round
  rw [← List.append_nil [Stage.beforeSign]]
  exact (follows_perform _ _).bind (fun _ => Follows.of_frames (Frames.pure _ _))

theorem follows_signing :
    Follows (fun s => s.2.stages) session.signingScript session.signing := by
  unfold signing signingScript
  refine Follows.after (Frames.onFirst Log.stages _) (fun _ => ?_)
  refine (session.follows_notify _ _).bind (fun _ => ?_)
  refine Follows.after (Frames.onFirst Log.stages _) (fun request => ?_)
  refine (session.follows_beforeSignLoop request).bind (fun s => ?_)
  refine Follows.after (Frames.onFirst Log.stages _) (fun resolved => ?_)
  refine (session.follows_notify _ _).bind (fun _ => ?_)
  rw [← List.append_nil [Stage.sign]]
  exact (follows_perform _ _).bind (fun _ => Follows.of_frames (Frames.outcome _ _))

theorem follows_signed : Follows (fun s => s.2.stages) session.signedScript session.signed := by
  unfold signed signedScript
  refine session.follows_signing.bind (fun result => ?_)
  refine (follows_hooks .afterSign (fun _ _ => follows_perform _ _) _ _).bind (fun result => ?_)
  rw [← List.append_nil (session.noted _)]
  exact (session.follows_notify _ _).bind (fun _ => Follows.of_frames (Frames.pure _ _))

theorem follows_send (tx : SignedTransaction) :
    Follows (fun s => s.2.stages) [.sendTransaction] (session.send tx) :=
  Follows.after (Frames.change (fun _ => rfl)) (fun _ => follows_perform _ _)

theorem follows_broadcast (result : TransactResponse) :
    Follows (fun s => s.2.stages) session.broadcastScript (session.broadcast result) := by
  unfold broadcast broadcastScript
  refine (session.follows_notify _ _).bind (fun _ => ?_)
  refine (session.follows_send _).bind (fun response => ?_)
  refine Follows.after (Frames.onFirst Log.stages _) (fun returns => ?_)
  refine (follows_hooks .afterBroadcast (fun _ _ => follows_perform _ _) _ _).bind
    (fun result => ?_)
  rw [← List.append_nil (session.noted _)]
  exact (session.follows_notify _ _).bind (fun _ => Follows.of_frames (Frames.pure _ _))

theorem follows_broadcasting (result : TransactResponse) :
    Follows (fun s => s.2.stages) (if session.willBroadcast then session.broadcastScript else [])
      (session.broadcasting result) := by
  unfold broadcasting
  split
  · exact session.follows_broadcast result
  · exact Follows.of_frames (Frames.pure _ _)

/-- **The pipeline** goes through its script in order. -/
theorem follows_pipeline : Follows (fun s => s.2.stages) session.script session.pipeline := by
  unfold pipeline finish script
  refine session.follows_signed.bind (fun result => ?_)
  refine (session.follows_broadcasting result).bind (fun result => ?_)
  rw [← List.append_nil (session.noted _)]
  exact (session.follows_notify _ _).bind (fun _ => Follows.of_frames (Frames.pure _ _))

/-! ## What is sent and told -/

section Views

variable {δ : Type} {view : Log → List δ}

theorem frames_perform (hview : ∀ log stages, view { log with stages } = view log) {α : Type}
    (stage : Stage) (x : Effect W Error α) : Frames (fun s => view s.2) (perform stage x) :=
  (Frames.change (fun s => hview s.2 _)).bind (fun _ => Frames.onFirst view x)

theorem frames_notify (hview : ∀ log stages, view { log with stages } = view log) (stage : Stage)
    (call : TransactInterface W → Effect W Error Unit) :
    Frames (fun s => view s.2) (session.notify stage call) := by
  unfold notify
  cases session.ui with
  | none => exact Frames.pure _ ()
  | some ui => exact frames_perform hview stage (call ui)

theorem frames_signing (hview : ∀ log stages, view { log with stages } = view log) :
    Frames (fun s => view s.2) session.signing := by
  unfold signing
  refine (Frames.onFirst view _).bind (fun _ => ?_)
  refine (session.frames_notify hview _ _).bind (fun _ => ?_)
  refine (Frames.onFirst view _).bind (fun request => Frames.bind ?_ (fun s => ?_))
  · unfold beforeSignLoop round
    exact Frames.foldlM (fun s hook => (frames_perform hview _ _).bind
      (fun response => Frames.pure _ _)) _ _
  · refine (Frames.onFirst view _).bind (fun _ => ?_)
    refine (session.frames_notify hview _ _).bind (fun _ => ?_)
    exact (frames_perform hview _ _).bind (fun _ => Frames.outcome _ _)

/-- The signing changes the log by its stages only. -/
theorem frames_signed (hview : ∀ log stages, view { log with stages } = view log) :
    Frames (fun s => view s.2) session.signed := by
  unfold signed
  refine (session.frames_signing hview).bind (fun result => ?_)
  refine (Frames.foldlM (fun _ _ => frames_perform hview _ _) _ _).bind (fun result => ?_)
  exact (session.frames_notify hview _ _).bind (fun _ => Frames.pure _ _)

end Views

/-- What a broadcast sends is the transaction of the signed result, once. -/
theorem follows_broadcast_sent (result : TransactResponse) :
    Follows (fun s => s.2.sent) [assemble result] (session.broadcast result) := by
  have hview : ∀ (log : Log) stages, { log with stages }.sent = log.sent := fun _ _ => rfl
  unfold broadcast send
  refine Follows.after (session.frames_notify hview _ _) (fun _ => ?_)
  rw [← List.append_nil [assemble result]]
  refine Follows.bind (Follows.of_logged (fun s => ?_)) (fun response => Follows.of_frames ?_)
  · rw [exec_change_bind]
    exact frames_perform hview _ _ _
  · refine (Frames.onFirst Log.sent _).bind (fun returns => ?_)
    refine (Frames.foldlM (fun _ _ => frames_perform hview _ _) _ _).bind (fun result => ?_)
    exact (session.frames_notify hview _ _).bind (fun _ => Frames.pure _ _)

theorem frames_send_errors (tx : SignedTransaction) :
    Frames (fun s => s.2.errors) (session.send tx) := by
  have hview : ∀ (log : Log) stages, { log with stages }.errors = log.errors := fun _ _ => rfl
  unfold send
  exact Frames.bind (Frames.change (fun s => rfl)) (fun _ => frames_perform hview _ _)

/-- The pipeline tells the user interface of no error. -/
theorem frames_pipeline_errors : Frames (fun s => s.2.errors) session.pipeline := by
  have hview : ∀ (log : Log) stages, { log with stages }.errors = log.errors := fun _ _ => rfl
  unfold pipeline finish broadcasting broadcast
  refine (session.frames_signed hview).bind (fun result => ?_)
  refine Frames.bind (Frames.ite ?_ ?_) (fun _ => ?_)
  · refine (session.frames_notify hview _ _).bind (fun _ => ?_)
    refine (session.frames_send_errors _).bind (fun response => ?_)
    refine (Frames.onFirst Log.errors _).bind (fun returns => ?_)
    refine (Frames.foldlM (fun _ _ => frames_perform hview _ _) _ _).bind (fun result => ?_)
    exact (session.frames_notify hview _ _).bind (fun _ => Frames.pure _ _)
  · exact Frames.pure _ _
  · exact (session.frames_notify hview _ _).bind (fun _ => Frames.pure _ _)

/-- What the broadcast of a signed result sends, if there is one. -/
theorem follows_broadcasting_sent (result : TransactResponse) :
    Follows (fun s => s.2.sent) (if session.willBroadcast then [assemble result] else [])
      (session.broadcasting result) := by
  unfold broadcasting
  split
  · exact session.follows_broadcast_sent result
  · exact Follows.of_frames (Frames.pure _ _)

/-- After the signing, the pipeline sends what the broadcast does. -/
theorem follows_finish_sent (result : TransactResponse) :
    Follows (fun s => s.2.sent) (if session.willBroadcast then [assemble result] else [])
      (session.finish result) := by
  unfold finish
  rw [← List.append_nil (if session.willBroadcast = true then _ else _)]
  refine (session.follows_broadcasting_sent result).bind (fun result => Follows.of_frames ?_)
  exact (session.frames_notify (fun _ _ => rfl) _ _).bind (fun _ => Frames.pure _ _)

/-- **What the pipeline sends** is nothing, or the signed result's transaction once. -/
theorem pipeline_sent {w : W} {t : W × Log} {r : Result TransactResponse}
    (h : exec session.pipeline (w, {}) = (r, t)) :
    (t.2.sent = [] ∧ (session.willBroadcast = true → r.toOption = none)) ∨
      session.willBroadcast = true ∧ ∃ result u, exec session.signed (w, {}) = (.ok result, u) ∧
        t.2.sent = [assemble result] := by
  have hview : ∀ (log : Log) stages, { log with stages }.sent = log.sent := fun _ _ => rfl
  unfold pipeline at h
  rw [exec_bind] at h
  rcases hsigned : exec session.signed (w, {}) with ⟨e | result, u⟩
  · rw [hsigned] at h
    cases h
    exact .inl ⟨(session.frames_signed hview).of_exec hsigned, fun _ => rfl⟩
  · rw [hsigned] at h
    have hu : u.2.sent = [] := (session.frames_signed hview).of_exec hsigned
    obtain ⟨hbegin, hall⟩ := (session.follows_finish_sent result).log_begins hu
    simp only at h
    rw [h] at hbegin hall
    cases hbroadcast : session.willBroadcast with
    | false =>
      rw [hbroadcast] at hbegin
      exact .inl ⟨List.prefix_nil.mp hbegin, fun h => by cases h⟩
    | true =>
      rw [hbroadcast, if_pos rfl] at hbegin hall
      rcases List.prefix_cons_iff.mp hbegin with hnone | ⟨rest, hsome, hrest⟩
      · refine .inl ⟨hnone, fun _ => ?_⟩
        cases r with
        | error e => rfl
        | ok a =>
          have hone := hall a rfl
          simp only at hnone hone
          rw [hnone] at hone
          cases hone
      · rw [List.prefix_nil.mp hrest] at hsome
        exact .inr ⟨rfl, result, u, rfl, hsome⟩

/-! ## The errors -/

/-- An error of the chain whose details start with a message. -/
def explained (error : Error) : Bool :=
  match errorDetails error with
  | .arr (first :: _) => first.contains "message"
  | _ => false

/-- An error that the user interface is told of. -/
def told (error : Error) : Bool :=
  error.kind ≠ .exception ∧ (error.kind = .api → explained error = true)

theorem told_of_exception {error : Error} (h : error.kind = .exception) : told error = false := by
  simp [told, h]

/-- The error that is returned is told exactly when it is one to tell. -/
theorem reported_eq_ok {error error' : Error} {b : Bool} (hkind : error.kind ≠ .exception)
    (h : reported error = .ok (error', b)) : b = told error' := by
  unfold reported at h
  split at h
  · rename_i hapi
    split at h
    · rename_i first rest hdetails
      split at h
      · rename_i hmessage
        obtain ⟨message, hmessage', hok⟩ := bind_eq_ok.mp h
        cases hok
        have hexplained : explained { error with message } = true := by
          change (match errorDetails error with
            | .arr (first :: _) => first.contains "message"
            | _ => false) = true
          rw [hdetails]
          exact hmessage
        simp [told, hexplained, hkind]
      · rename_i hmessage
        cases h
        simp [told, explained, hdetails, hmessage, hapi]
    · rename_i hdetails
      cases h
      have hexplained : explained error = false := by
        unfold explained
        split
        · rename_i first rest hfirst
          exact absurd hfirst (hdetails first rest)
        · rfl
      simp [told, hexplained, hapi]
  · rename_i hapi
    cases h
    simp [told, hkind, hapi]

/-- What is thrown on the way to the message is an exception. -/
theorem reported_eq_error {error thrown : Error} (h : reported error = .error thrown) :
    thrown.kind = .exception := by
  unfold reported at h
  split at h
  · split at h
    · rename_i first rest hdetails
      split at h
      · cases hmessage : first.jsonAt "message" with
        | str message =>
          rw [hmessage] at h
          cases h
        | _ =>
          rw [hmessage] at h
          cases h
          rfl
      · cases h
    · cases h
  · cases h

/-! ## The transact -/

/-- Handling an error adds no stage and sends nothing. -/
theorem tell_log (error : Error) (s : W × Log) :
    (session.tell error s).2 =
      { s.2 with errors := s.2.errors ++ if session.ui.isSome then [error] else [] } := by
  unfold tell
  cases session.ui with
  | none => simp
  | some ui => rfl

/-- What a transact comes to when its pipeline fails. -/
theorem transact_of_error {s t : W × Log} {error : Error}
    (h : exec session.pipeline s = (.error error, t)) :
    ∃ error', exec session.transact s =
      (.error error', if told error' = true then session.tell error' t else t) := by
  unfold transact
  rw [exec_ofFunction, h]
  by_cases hkind : error.kind = .exception
  · exact ⟨error, by simp [hkind, told_of_exception hkind]⟩
  · simp only [if_neg hkind]
    rcases hreported : reported error with thrown | ⟨error', b⟩
    · exact ⟨thrown, by simp [told_of_exception (reported_eq_error hreported)]⟩
    · exact ⟨error', by rw [← reported_eq_ok hkind hreported]⟩

/-- What is observed of a transact. -/
def observed (w : W) : Log := (exec session.transact (w, {})).2.2

/-- What a transact answers. -/
def answered (w : W) : Result TransactResponse := (exec session.transact (w, {})).1

/-- **A transact** goes through its script in order: it stops early only with an error.  It sends
nothing, or the transaction of the signed result, once; and the one error that the user interface
is told of is the one that is returned. -/
theorem transact_follows (w : W) :
    (observed session w).stages <+: script session ∧
      ((observed session w).sent = [] ∨ session.willBroadcast = true ∧
        ∃ result u, exec (signed session) (w, {}) = (.ok result, u) ∧
          (observed session w).sent = [assemble result]) ∧
      match answered session w with
      | .ok _ =>
        (observed session w).stages = script session ∧ (observed session w).errors = [] ∧
          (session.willBroadcast = true → (observed session w).sent ≠ [])
      | .error error =>
        (observed session w).errors =
          if session.ui.isSome ∧ told error = true then [error] else [] := by
  obtain ⟨hbegin, hscript⟩ := session.follows_pipeline.log_begins (s := (w, {})) rfl
  have herrors := session.frames_pipeline_errors (w, {})
  unfold observed answered
  rcases hpipeline : exec session.pipeline (w, {}) with ⟨error | result, t⟩
  · rw [hpipeline] at hbegin herrors
    obtain ⟨error', hexec⟩ := session.transact_of_error hpipeline
    have hlog : (exec session.transact (w, {})).2.2 = { t.2 with
        errors := if session.ui.isSome ∧ told error' = true then [error'] else [] } := by
      have hnone : t.2.errors = [] := herrors
      rw [hexec]
      cases told error' with
      | false => simp [← hnone]
      | true => simp [tell_log, hnone]
    rw [hlog, hexec]
    refine ⟨hbegin, ?_, rfl⟩
    rcases session.pipeline_sent hpipeline with ⟨hnone, -⟩ | hsent
    · exact .inl hnone
    · exact .inr hsent
  · rw [hpipeline] at hbegin hscript herrors
    have hexec : exec session.transact (w, {}) = (.ok result, t) := by
      unfold transact
      rw [exec_ofFunction, hpipeline]
    rw [hexec]
    rcases session.pipeline_sent hpipeline with
      ⟨hnone, hfailed⟩ | ⟨hbroadcast, u, v, hsigned, hsent⟩
    · refine ⟨hbegin, .inl hnone, hscript result rfl, herrors, fun hbroadcast => ?_⟩
      cases hfailed hbroadcast
    · refine ⟨hbegin, .inr ⟨hbroadcast, u, v, hsigned, hsent⟩, hscript result rfl, herrors, ?_⟩
      intro _ hnone
      rw [hsent] at hnone
      cases hnone

/-! ## What a signing comes to -/

/-- **What a hook's answer does** to the loop's state: a signed answer locks it, on the request it
came with unless that was locked before; another answer leaves the lock and the signatures, and
under the lock the request. -/
theorem respond_cases (s : LoopState) (response : Option TransactHookResponse) :
    ((∀ answer ∈ response, answer.signatures = []) ∧
        (session.respond s response).modifyAllowed = s.modifyAllowed ∧
        (session.respond s response).signatures = s.signatures ∧
        (s.modifyAllowed = false → (session.respond s response).request = s.request)) ∨
      ∃ answer, response = some answer ∧ answer.signatures ≠ [] ∧
        (session.respond s response).modifyAllowed = false ∧
        (session.respond s response).signatures = s.signatures ++ answer.signatures ∧
        (session.respond s response).request =
          if s.modifyAllowed then updateRequest s.request answer.request else s.request := by
  cases response with
  | none => exact .inl ⟨fun _ h => (by cases h), rfl, rfl, fun _ => rfl⟩
  | some answer =>
    by_cases hsigned : answer.signatures ≠ []
    · refine .inr ⟨answer, rfl, hsigned, ?_, ?_, ?_⟩
      · simp only [respond, if_pos hsigned]
      · simp only [respond, if_pos hsigned]
      · simp only [respond, if_pos hsigned]
    · refine .inl ⟨?_, ?_, ?_, fun hlocked => ?_⟩
      · rintro _ ⟨⟩
        exact not_not.mp hsigned
      · simp only [respond, if_neg hsigned]
      · simp only [respond, if_neg hsigned]
      · simp [respond, if_neg hsigned, hlocked]

/-- A round that succeeds is a hook's answer. -/
theorem exec_round_ok {s s' : LoopState}
    {hook : SigningRequest → Effect W Error (Option TransactHookResponse)} {t t' : W × Log}
    (h : exec (session.round s hook) t = (.ok s', t')) :
    ∃ response w, exec (hook s.request) t.1 = (.ok response, w) ∧
      s' = session.respond s response := by
  unfold round perform at h
  obtain ⟨response, u, hresponse, h⟩ := exec_bind_ok.mp h
  cases h
  rw [exec_change_bind] at hresponse
  unfold onFirst at hresponse
  rw [exec_ofFunction] at hresponse
  obtain ⟨hfirst, -⟩ := Prod.mk.inj hresponse
  exact ⟨response, _, Prod.ext hfirst rfl, rfl⟩

/-- Under the lock the request stays, and signatures are only added. -/
theorem locked_rounds {hooks : List (SigningRequest → Effect W Error (Option TransactHookResponse))}
    {s s' : LoopState} {t t' : W × Log} (hlocked : s.modifyAllowed = false)
    (h : exec (hooks.foldlM session.round s) t = (.ok s', t')) :
    s'.modifyAllowed = false ∧ s'.request = s.request ∧
      ∃ more, s'.signatures = s.signatures ++ more := by
  refine @exec_foldlM_ok _ _ _ _ (fun u : LoopState => u.modifyAllowed = false ∧
    u.request = s.request ∧ ∃ more, u.signatures = s.signatures ++ more) session.round hooks ?_ s s'
    t t' ⟨hlocked, rfl, [], (List.append_nil _).symm⟩ h
  rintro hook - u v u' v' ⟨hu, hrequest, more, hmore⟩ hround
  obtain ⟨response, -, -, rfl⟩ := session.exec_round_ok hround
  rcases session.respond_cases u response with
    ⟨-, hallowed, hsame, hkeep⟩ | ⟨answer, -, -, hallowed, happend, hkeep⟩
  · exact ⟨hallowed.trans hu, (hkeep hu).trans hrequest, more, hsame.trans hmore⟩
  · rw [hu] at hkeep
    refine ⟨hallowed, hkeep.trans hrequest, more ++ answer.signatures, ?_⟩
    rw [happend, hmore, List.append_assoc]

/-- A hook that signs nothing. -/
def Unsigning (hook : SigningRequest → Effect W Error (Option TransactHookResponse)) : Prop :=
  ∀ request w answer w', exec (hook request) w = (.ok (some answer), w') → answer.signatures = []

/-- Hooks that sign nothing leave the lock open and the signatures as they are. -/
theorem unsigned_rounds
    {hooks : List (SigningRequest → Effect W Error (Option TransactHookResponse))}
    (hhooks : ∀ hook ∈ hooks, Unsigning hook) {s s' : LoopState} {t t' : W × Log}
    (hallowed : s.modifyAllowed = true) (h : exec (hooks.foldlM session.round s) t = (.ok s', t')) :
    s'.modifyAllowed = true ∧ s'.signatures = s.signatures := by
  refine @exec_foldlM_ok _ _ _ _ (fun u : LoopState => u.modifyAllowed = true ∧
    u.signatures = s.signatures) session.round hooks ?_ s s' t t' ⟨hallowed, rfl⟩ h
  rintro hook hhook u v u' v' ⟨hu, hsignatures⟩ hround
  obtain ⟨response, w, hresponse, rfl⟩ := session.exec_round_ok hround
  rcases session.respond_cases u response with ⟨-, hsame, hkeep, -⟩ | ⟨answer, rfl, hsigned, -⟩
  · exact ⟨hsame.trans hu, hkeep.trans hsignatures⟩
  · exact absurd (hhooks hook hhook _ _ _ _ hresponse) hsigned

/-- Under the lock the wallet's modification is not taken. -/
theorem merge_locked {s : LoopState} {resolved : ResolvedSigningRequest}
    {walletResponse : WalletPluginSignResponse} {result : TransactResult}
    (hlocked : s.modifyAllowed = false) (h : session.merge s resolved walletResponse = .ok result) :
    result.request = s.request ∧ result.resolved = resolved ∧
      result.signatures = s.signatures ++ walletResponse.signatures := by
  unfold merge at h
  simp only at h
  split at h
  · split at h
    · rw [hlocked] at h
      cases h
    · cases h
      exact ⟨rfl, rfl, rfl⟩
  · cases h
    exact ⟨rfl, rfl, rfl⟩

/-- The loop's state on the created request. -/
def initial (request : SigningRequest) : LoopState where
  request := request
  modifyAllowed := session.modifyAllowed
  revisions := [{
    allowModify := true
    code := "original"
    modified := false
    request := session.encode request
    signatures := [] }]

theorem beforeSignLoop_eq (request : SigningRequest) :
    session.beforeSignLoop request =
      session.beforeSign.foldlM session.round (session.initial request) := rfl

/-- A request that hooks leave of the created one, in the world that they leave. -/
def Reaches (hooks : List (SigningRequest → Effect W Error (Option TransactHookResponse)))
    (request : SigningRequest) (w : W) : Prop :=
  ∃ v created t final u, exec session.createRequest v = (.ok created, t.1) ∧
    exec (hooks.foldlM session.round (session.initial created)) t = (.ok final, u) ∧
    final.request = request ∧ u.1 = w

/-- **The parts of a signing**: the created request, the loop over the hooks, the resolution of its
request, and the wallet's answer. -/
theorem signing_eq_ok {s t : W × Log} {result : TransactResult}
    (h : exec session.signing s = (.ok result, t)) :
    ∃ v created u final u' resolved w walletResponse,
      exec session.createRequest v = (.ok created, u.1) ∧
      exec (session.beforeSignLoop created) u = (.ok final, u') ∧
      exec (session.resolve final.request) u'.1 = (.ok resolved, w) ∧
      session.merge final resolved walletResponse = .ok result := by
  unfold signing at h
  obtain ⟨_, _, -, h⟩ := exec_onFirst_bind_ok.mp h
  obtain ⟨_, v, -, h⟩ := exec_bind_ok.mp h
  obtain ⟨created, w₁, hcreated, h⟩ := exec_onFirst_bind_ok.mp h
  obtain ⟨final, u', hloop, h⟩ := exec_bind_ok.mp h
  obtain ⟨resolved, w, hresolve, h⟩ := exec_onFirst_bind_ok.mp h
  obtain ⟨_, _, -, h⟩ := exec_bind_ok.mp h
  obtain ⟨walletResponse, _, -, h⟩ := exec_bind_ok.mp h
  rw [exec_outcome] at h
  exact ⟨v.1, created, (w₁, v.2), final, u', resolved, w, walletResponse, hcreated, hloop, hresolve,
    congrArg Prod.fst h⟩

/-! ## Hooks that only compute -/

section Computing

variable (created : Result SigningRequest) (hooks : List BeforeSignHook)
  (resolve : SigningRequest → Result ResolvedSigningRequest)
  (sign : ResolvedSigningRequest → Result WalletPluginSignResponse)

/-- What a session whose resolution and wallet only compute calls. -/
def surroundings : Surroundings where
  crypto := session.platform.toCrypto
  encode := session.encode
  resolve := resolve
  signatureText := session.signatureText
  sign := sign
  walletName := session.walletName

/-- A session without user interface, of whose parties none acts on the world. -/
def computing : Pipeline W :=
  { session with
    ui := none
    getMergedAbiCache := outcome (.ok ())
    createRequest := outcome created
    beforeSign := hooks.map (fun hook request => outcome (hook request))
    resolve := fun request => outcome (resolve request)
    sign := fun resolved => outcome (sign resolved) }

theorem beforeSign_eq (s : LoopState) (hook : BeforeSignHook) :
    Session.beforeSign (session.surroundings resolve sign) s hook =
      (hook s.request).map (session.respond s) := by
  unfold Session.beforeSign respond
  cases hook s.request with
  | error e => rfl
  | ok response =>
    cases response with
    | none => rfl
    | some response =>
      show (if _ then _ else _) = Except.ok (if _ then _ else _)
      split
      · rfl
      · rfl

theorem exec_perform_outcome {α : Type} (stage : Stage) (r : Result α) (t : W × Log) :
    exec (perform stage (outcome r)) t =
      (r, (t.1, { t.2 with stages := t.2.stages ++ [stage] })) := by
  unfold perform
  rw [exec_change_bind]
  rfl

/-- A round whose hook only computes. -/
theorem exec_round (s : LoopState) (hook : BeforeSignHook) (t : W × Log) :
    exec (session.round s (fun request => outcome (hook request))) t =
      (Session.beforeSign (session.surroundings resolve sign) s hook,
        (t.1, { t.2 with stages := t.2.stages ++ [.beforeSign] })) := by
  unfold round
  rw [session.beforeSign_eq resolve sign, exec_bind, exec_perform_outcome]
  cases hook s.request with
  | error e => rfl
  | ok response => rfl

/-- The loop over hooks that only compute. -/
theorem exec_rounds (s : LoopState) (t : W × Log) :
    (exec ((hooks.map (fun hook request => outcome (hook request))).foldlM session.round s) t).1 =
      Session.beforeSignLoop (session.surroundings resolve sign) s hooks := by
  unfold Session.beforeSignLoop
  induction hooks generalizing s t with
  | nil => rfl
  | cons hook hooks ih =>
    rw [List.map_cons, List.foldlM_cons, List.foldlM_cons, exec_bind,
      session.exec_round resolve sign]
    cases Session.beforeSign (session.surroundings resolve sign) s hook with
    | error e => rfl
    | ok s' => exact ih s' _

/-- **Up to the afterSign hooks** a session whose hooks only compute is `Session.transact`. -/
theorem signing_eq_transact (s : W × Log) :
    (exec (session.computing created hooks resolve sign).signing s).1 =
      Session.transact (session.surroundings resolve sign) created hooks session.modifyAllowed := by
  have hsigning : (session.computing created hooks resolve sign).signing = (do
      onFirst (outcome (.ok ()))
      pure ()
      let request ← onFirst (outcome created)
      let s ← (session.computing created hooks resolve sign).beforeSignLoop request
      let resolved ← onFirst (outcome (resolve s.request))
      pure ()
      let walletResponse ← perform .sign (outcome (sign resolved))
      outcome (session.merge s resolved walletResponse)) := rfl
  have hfirst : ∀ {α : Type} (r : Result α) (t : W × Log), exec (onFirst (outcome r)) t = (r, t) :=
    fun _ _ => rfl
  have hloop : ∀ request t, (exec ((session.computing created hooks resolve sign).beforeSignLoop
      request) t).1 = Session.beforeSignLoop (session.surroundings resolve sign)
        (.start (session.surroundings resolve sign) request session.modifyAllowed) hooks :=
    fun request t => session.exec_rounds hooks resolve sign _ t
  rw [hsigning, exec_bind, hfirst]
  simp only
  unfold Session.transact
  rw [exec_bind, hfirst]
  cases created with
  | error e => rfl
  | ok request =>
    simp only [exec_bind]
    have hloop := hloop request s
    rcases hrun : exec ((session.computing (.ok request) hooks resolve sign).beforeSignLoop
      request) s with ⟨e | u, t⟩
    · rw [hrun] at hloop
      rw [ok_bind, ← hloop]
      rfl
    · rw [hrun] at hloop
      rw [ok_bind, ← hloop, ok_bind]
      simp only [hfirst, exec_perform_outcome]
      change _ = (do
        let resolved ← resolve u.request
        let walletResponse ← sign resolved
        session.merge u resolved walletResponse)
      cases resolve u.request with
      | error e => rfl
      | ok resolved =>
        simp only [ok_bind]
        cases sign resolved with
        | error e => rfl
        | ok walletResponse => rfl

end Computing

end Pipeline

end Session

end Dwarfkit
