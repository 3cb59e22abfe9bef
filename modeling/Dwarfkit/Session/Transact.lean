/-
# Transacting with a session

`Session::transact` of `session/session.cpp`, up to the result its afterSign hooks are
given: the loop over the beforeSign hooks with its request, lock and signatures, the
resolution, and the wallet's signatures and modification.

* `locked_request` : once modifications are locked, the request stays;
* `transact_signatures_iff` : every hook signature in the result belongs to the request
  that is resolved, exactly when no hook signs another request under the lock.
-/
import Dwarfkit.SigningRequest.Request
import Dwarfkit.Library.Runs

namespace Dwarfkit

namespace Session

/-! ## Data -/

/-- `TransactHookResponse`. -/
structure TransactHookResponse where
  request : SigningRequest
  signatures : List Signature := []

/-- A beforeSign hook: what it answers to a clone of the current request, if anything. -/
abbrev BeforeSignHook := SigningRequest → Result (Option TransactHookResponse)

/-- `TransactRevision`. -/
structure TransactRevision where
  allowModify : Bool
  code : Str
  modified : Bool
  request : Str
  signatures : List Str

/-- `ResolvedSigningRequest`, what `transact` reads of it. -/
structure ResolvedSigningRequest where
  request : SigningRequest
  transaction : Transaction

/-- `WalletPluginSignResponse`. -/
structure WalletPluginSignResponse where
  resolved : Option ResolvedSigningRequest := none
  signatures : List Signature := []

/-- `TransactResult`, as the afterSign hooks get it. -/
structure TransactResult where
  request : SigningRequest
  resolved : ResolvedSigningRequest
  revisions : List TransactRevision
  signatures : List Signature

/-- What `transact` calls: the digests, the esr text of a request, its resolution in the context, the
text of a signature, and the wallet plugin with its name. -/
structure Surroundings where
  crypto : Crypto
  encode : SigningRequest → Str
  resolve : SigningRequest → Result ResolvedSigningRequest
  signatureText : Signature → Str
  sign : ResolvedSigningRequest → Result WalletPluginSignResponse
  walletName : Option Str

/-! ## The beforeSign loop -/

/-- `updateRequest`: the modified request, with the previous metadata set on it. -/
def updateRequest (previous modified : SigningRequest) : SigningRequest :=
  previous.data.info.foldl (fun request metadata =>
    request.setRawInfoKey metadata.key metadata.value) modified

/-- What the loop carries. -/
structure LoopState where
  request : SigningRequest
  modifyAllowed : Bool
  hookIndex : ℕ := 0
  signatures : List Signature := []
  revisions : List TransactRevision := []

/-- `addRevision`. -/
def addRevision (env : Surroundings) (revisions : List TransactRevision)
    (response : TransactHookResponse) (code : Str) (allowModify : Bool) :
    List TransactRevision :=
  let encoded := env.encode response.request
  let modified := match revisions.getLast? with
    | some last => decide (last.request ≠ encoded)
    | none => false
  revisions ++ [{
    allowModify := allowModify
    code := code
    modified := modified
    request := encoded
    signatures := response.signatures.map env.signatureText }]

/-- One round of the loop. -/
def beforeSign (env : Surroundings) (s : LoopState) (hook : BeforeSignHook) :
    Result LoopState := do
  let response ← hook s.request
  let s := { s with hookIndex := s.hookIndex + 1 }
  match response with
  | none => return s
  | some response =>
    let revisions := addRevision env s.revisions response
      (lit "beforeSign#" ++ natToString s.hookIndex) s.modifyAllowed
    let request := if s.modifyAllowed then updateRequest s.request response.request else s.request
    let s := { s with request := request, revisions := revisions }
    if response.signatures ≠ [] then
      return { s with modifyAllowed := false, signatures := s.signatures ++ response.signatures }
    else return s

/-- The loop over the hooks. -/
def beforeSignLoop (env : Surroundings) (s : LoopState) (hooks : List BeforeSignHook) :
    Result LoopState :=
  hooks.foldlM (beforeSign env) s

/-- The loop starts on the created request, which is the first revision. -/
def LoopState.start (env : Surroundings) (request : SigningRequest) (modifyAllowed : Bool) :
    LoopState where
  request := request
  modifyAllowed := modifyAllowed
  revisions := addRevision env [] { request := request } "original" true

/-! ## The transaction -/

/-- `transact`, from the request it created to the result before the afterSign hooks. -/
def transact (env : Surroundings) (created : Result SigningRequest)
    (hooks : List BeforeSignHook) (modifyAllowed : Bool) : Result TransactResult := do
  let initialRequest ← created
  let s ← beforeSignLoop env (.start env initialRequest modifyAllowed) hooks
  let resolved ← env.resolve s.request
  let walletResponse ← env.sign resolved
  let signatures := s.signatures ++ walletResponse.signatures
  let result : TransactResult := {
    request := s.request, resolved := resolved, revisions := s.revisions, signatures := signatures }
  match walletResponse.resolved with
  | some walletResolved =>
    if !resolved.transaction.equals env.crypto walletResolved.transaction then
      if s.modifyAllowed then
        return { result with request := walletResolved.request, resolved := walletResolved }
      else
        err .plugin (lit "The " ++ env.walletName.getD "wallet" ++
          lit " plugin modified the transaction when it was not allowed to.")
    else return result
  | none => return result

/-! ## What a round does -/

/-- `updateRequest` takes everything but the info pairs from the modified request. -/
theorem updateRequest_sameData (previous modified : SigningRequest) :
    SigningRequest.SameData (updateRequest previous modified) modified := by
  unfold updateRequest
  induction previous.data.info generalizing modified with
  | nil => exact .refl _
  | cons metadata info ih =>
    rw [List.foldl_cons]
    exact (ih _).trans (SigningRequest.sameData_setRawInfoKey _ _ _)

/-- The response of a hook in a state, if it carries signatures. -/
def signedResponse (s : LoopState) (hook : BeforeSignHook) : Option TransactHookResponse :=
  match hook s.request with
  | .ok (some response) => if response.signatures ≠ [] then some response else none
  | _ => none

/-- **What a round can do**: a signed response locks the loop, on the request it was
returned with unless that was locked before; another round leaves the lock and the
signatures, and under the lock the request. -/
theorem beforeSign_cases (env : Surroundings) {s t : LoopState} {hook : BeforeSignHook}
    (h : beforeSign env s hook = .ok t) :
    (signedResponse s hook = none ∧ t.modifyAllowed = s.modifyAllowed ∧
        t.signatures = s.signatures ∧ (s.modifyAllowed = false → t.request = s.request)) ∨
      ∃ response, signedResponse s hook = some response ∧ t.modifyAllowed = false ∧
        t.signatures = s.signatures ++ response.signatures ∧
        t.request =
          if s.modifyAllowed then updateRequest s.request response.request else s.request := by
  unfold beforeSign at h
  rw [bind_eq_ok] at h
  obtain ⟨answer, hanswer, h⟩ := h
  unfold signedResponse
  rw [hanswer]
  cases answer with
  | none =>
    cases h
    exact .inl ⟨rfl, rfl, rfl, fun _ => rfl⟩
  | some response =>
    by_cases hsigned : response.signatures ≠ []
    · simp only [if_pos hsigned] at h ⊢
      cases h
      exact .inr ⟨response, rfl, rfl, rfl, rfl⟩
    · simp only [if_neg hsigned] at h ⊢
      cases h
      refine .inl ⟨trivial, rfl, rfl, fun hlocked => ?_⟩
      simp [hlocked]

/-! ## What the loop does -/

/-- A round as a step of a run: a failing hook ends it. -/
def step (env : Surroundings) (s : LoopState) (hook : BeforeSignHook) : Option LoopState :=
  (beforeSign env s hook).toOption

theorem step_eq_some {env : Surroundings} {s t : LoopState} {hook : BeforeSignHook} :
    step env s hook = some t ↔ beforeSign env s hook = .ok t := by
  unfold step
  cases beforeSign env s hook <;> simp [Except.toOption]

/-- The loop is a run. -/
theorem beforeSignLoop_eq_ok (env : Surroundings) (s t : LoopState)
    (hooks : List BeforeSignHook) :
    beforeSignLoop env s hooks = .ok t ↔ Runs.run (step env) s hooks = some t := by
  unfold beforeSignLoop
  induction hooks generalizing s with
  | nil =>
    rw [List.foldlM_nil, Runs.run_nil]
    constructor
    · intro h
      cases h
      rfl
    · intro h
      cases h
      rfl
  | cons hook hooks ih =>
    rw [List.foldlM_cons, Runs.run_cons, bind_eq_ok, Option.bind_eq_some_iff]
    constructor
    · rintro ⟨u, hu, hrest⟩
      exact ⟨u, step_eq_some.mpr hu, (ih u).mp hrest⟩
    · rintro ⟨u, hu, hrest⟩
      exact ⟨u, step_eq_some.mp hu, (ih u).mpr hrest⟩

/-- **Once modifications are locked, the request stays** for the rest of the loop. -/
theorem locked_request (env : Surroundings) {s t : LoopState} {hooks : List BeforeSignHook}
    (hlocked : s.modifyAllowed = false) (hrun : Runs.run (step env) s hooks = some t) :
    t.request = s.request ∧ t.modifyAllowed = false := by
  have hall := Runs.AllStates.of_run (step env)
    (P := fun u => u.request = s.request ∧ u.modifyAllowed = false) (C := fun _ _ => True)
    (fun u hook v hu _ hstep => ?_) ⟨rfl, hlocked⟩ (Runs.allSteps_true (step env) s hooks)
  · exact hall.final (step env) hrun
  · obtain ⟨hrequest, hu⟩ := hu
    rcases beforeSign_cases env (step_eq_some.mp hstep) with
      ⟨-, hallowed, -, hkeep⟩ | ⟨response, -, hallowed, -, hkeep⟩
    · exact ⟨(hkeep hu).trans hrequest, hallowed.trans hu⟩
    · refine ⟨?_, hallowed⟩
      rw [hkeep, hu]
      exact hrequest

/-- The signed responses of the loop, in order. -/
def signedResponses (env : Surroundings) : LoopState → List BeforeSignHook →
    List TransactHookResponse
  | _, [] => []
  | s, hook :: hooks =>
    match step env s hook with
    | some t => (signedResponse s hook).toList ++ signedResponses env t hooks
    | none => []

/-- A hook signs no other request under the lock: what it returns together with
signatures is the current request, but for the info pairs. -/
def SignsCurrent (s : LoopState) (hook : BeforeSignHook) : Prop :=
  s.modifyAllowed = false → ∀ response, signedResponse s hook = some response →
    SigningRequest.SameData response.request s.request

/-- The signatures collected are those of the signed responses. -/
theorem signatures_eq (env : Surroundings) {s t : LoopState} {hooks : List BeforeSignHook}
    (hrun : Runs.run (step env) s hooks = some t) :
    t.signatures = s.signatures ++
      (signedResponses env s hooks).flatMap (fun response => response.signatures) := by
  induction hooks generalizing s with
  | nil =>
    cases hrun
    simp [signedResponses]
  | cons hook hooks ih =>
    rw [Runs.run_cons, Option.bind_eq_some_iff] at hrun
    obtain ⟨u, hu, hrest⟩ := hrun
    unfold signedResponses
    rw [hu, ih hrest]
    rcases beforeSign_cases env (step_eq_some.mp hu) with
      ⟨hnone, -, hsame, -⟩ | ⟨response, hsome, -, happend, -⟩
    · simp [hnone, hsame]
    · simp [hsome, happend]

/-- While modifications are allowed, nothing has been signed. -/
theorem signedResponses_of_unlocked (env : Surroundings) {s t : LoopState}
    {hooks : List BeforeSignHook} (hrun : Runs.run (step env) s hooks = some t)
    (hallowed : t.modifyAllowed = true) : signedResponses env s hooks = [] := by
  induction hooks generalizing s with
  | nil => rfl
  | cons hook hooks ih =>
    rw [Runs.run_cons, Option.bind_eq_some_iff] at hrun
    obtain ⟨u, hu, hrest⟩ := hrun
    unfold signedResponses
    rw [hu]
    rcases beforeSign_cases env (step_eq_some.mp hu) with
      ⟨hnone, -, -, -⟩ | ⟨response, -, hlocked, -, -⟩
    · simp only [hnone, Option.toList_none, List.nil_append]
      exact ih hrest
    · obtain ⟨-, hfinal⟩ := locked_request env hlocked hrest
      rw [hallowed] at hfinal
      cases hfinal

/-- **The signed responses belong to the final request** exactly when every hook that
signs under the lock signs the current request. -/
theorem signedResponses_iff (env : Surroundings) {s t : LoopState}
    {hooks : List BeforeSignHook} (hrun : Runs.run (step env) s hooks = some t) :
    (∀ response ∈ signedResponses env s hooks,
        SigningRequest.SameData response.request t.request) ↔
      Runs.AllSteps (step env) SignsCurrent s hooks := by
  induction hooks generalizing s with
  | nil => exact iff_of_true (fun _ h => by cases h) trivial
  | cons hook hooks ih =>
    rw [Runs.run_cons, Option.bind_eq_some_iff] at hrun
    obtain ⟨u, hu, hrest⟩ := hrun
    have hrec := ih hrest
    unfold signedResponses Runs.AllSteps
    rw [hu]
    simp only [Option.some.injEq, forall_eq']
    rw [← hrec]
    rcases beforeSign_cases env (step_eq_some.mp hu) with
      ⟨hnone, -, -, -⟩ | ⟨response, hsome, hlocked, -, hrequest⟩
    · simp [hnone, SignsCurrent]
    · -- the request the lock was set on is the final one
      obtain ⟨hfinal, -⟩ := locked_request env hlocked hrest
      have hhead : SigningRequest.SameData response.request t.request ↔ SignsCurrent s hook := by
        unfold SignsCurrent
        rw [hsome, hfinal, hrequest]
        cases hallowed : s.modifyAllowed with
        | true =>
          simp only [if_true, Bool.true_eq_false, false_implies, iff_true]
          exact (updateRequest_sameData s.request response.request).symm
        | false =>
          simp
      rw [← hhead, hsome]
      simp

/-! ## The result -/

/-- The parts of a successful transaction. -/
theorem transact_eq_ok (env : Surroundings) {created : Result SigningRequest}
    {hooks : List BeforeSignHook} {modifyAllowed : Bool} {result : TransactResult}
    (h : transact env created hooks modifyAllowed = .ok result) :
    ∃ request s wallet, created = .ok request ∧
      Runs.run (step env) (.start env request modifyAllowed) hooks = some s ∧
      result.signatures = s.signatures ++ wallet ∧
      ((result.request = s.request ∧ env.resolve s.request = .ok result.resolved) ∨
        s.modifyAllowed = true) := by
  unfold transact at h
  rw [bind_eq_ok] at h
  obtain ⟨request, hcreated, h⟩ := h
  rw [bind_eq_ok] at h
  obtain ⟨s, hloop, h⟩ := h
  rw [bind_eq_ok] at h
  obtain ⟨resolved, hresolve, h⟩ := h
  rw [bind_eq_ok] at h
  obtain ⟨walletResponse, -, h⟩ := h
  refine ⟨request, s, walletResponse.signatures, hcreated,
    (beforeSignLoop_eq_ok env _ s hooks).mp hloop, ?_⟩
  cases hwallet : walletResponse.resolved with
  | none =>
    simp only [hwallet] at h
    cases h
    exact ⟨rfl, .inl ⟨rfl, hresolve⟩⟩
  | some walletResolved =>
    simp only [hwallet] at h
    -- The wallet may answer with another transaction only while modifying is allowed.
    by_cases hmodified :
        (!resolved.transaction.equals env.crypto walletResolved.transaction) = true
    · rw [if_pos hmodified] at h
      by_cases hallowed : s.modifyAllowed = true
      · rw [if_pos hallowed] at h
        cases h
        exact ⟨rfl, .inr hallowed⟩
      · rw [if_neg hallowed] at h
        cases h
    · rw [if_neg hmodified] at h
      cases h
      exact ⟨rfl, .inl ⟨rfl, hresolve⟩⟩

/-- **The modification lock.**  A transaction resolves the request its lock was set on;
and the hook signatures in its result were all returned together with the request it
resolves exactly when no hook signs another request under the lock. -/
theorem transact_signatures_iff (env : Surroundings) (request : SigningRequest)
    (hooks : List BeforeSignHook) (modifyAllowed : Bool) (result : TransactResult)
    (h : transact env (.ok request) hooks modifyAllowed = .ok result) :
    let start : LoopState := .start env request modifyAllowed
    (∀ before after s, hooks = before ++ after → beforeSignLoop env start before = .ok s →
        s.modifyAllowed = false →
        result.request = s.request ∧ env.resolve s.request = .ok result.resolved) ∧
      (∃ wallet, result.signatures =
        (signedResponses env start hooks).flatMap (fun response => response.signatures) ++ wallet) ∧
      ((∀ response ∈ signedResponses env start hooks,
          SigningRequest.SameData response.request result.request) ↔
        Runs.AllSteps (step env) SignsCurrent start hooks) := by
  intro start
  obtain ⟨request', s, wallet, hcreated, hrun, hsignatures, hresult⟩ := transact_eq_ok env h
  cases hcreated
  refine ⟨fun before after u hhooks hbefore hlocked => ?_, ⟨wallet, ?_⟩, ?_⟩
  · rw [beforeSignLoop_eq_ok] at hbefore
    rw [hhooks, Runs.run_append, hbefore] at hrun
    obtain ⟨hfinal, hstill⟩ := locked_request env hlocked hrun
    rcases hresult with ⟨hrequest, hresolved⟩ | hallowed
    · rw [← hfinal]
      exact ⟨hrequest, hresolved⟩
    · rw [hallowed] at hstill
      cases hstill
  · rw [hsignatures, signatures_eq env hrun]
    rfl
  · have hiff := signedResponses_iff env hrun
    rcases hresult with ⟨hrequest, -⟩ | hallowed
    · rw [hrequest]
      exact hiff
    · -- As long as nothing set the lock, no hook signed.
      have hnone := signedResponses_of_unlocked env hrun hallowed
      rw [← hiff, hnone]
      exact iff_of_true (fun _ h => by cases h) (fun _ h => by cases h)

/-- Surroundings that resolve a request to its raw transaction, and a wallet that adds
no signature. -/
def rawSurroundings : Surroundings where
  crypto := (default : Platform).toCrypto
  encode := fun _ => []
  resolve := fun request => do
    let transaction ← request.getRawTransaction
    return { request := request, transaction := transaction }
  signatureText := fun _ => []
  sign := fun _ => .ok {}
  walletName := none

/-- A request for one action without data. -/
def actionRequest (name : Name) : SigningRequest where
  data := .v2 { req := .action { account := .ofString "eosio", name := name } }

/-- A hook that replaces the request and signs its own. -/
def cosign (name : Name) : BeforeSignHook := fun _ =>
  .ok (some {
    request := actionRequest name, signatures := [{ type := .K1, data := List.replicate 65 0 }] })

/-- A hook that signs its modification before anything is locked is within the rule. -/
theorem transact_cosigned :
    ∃ result, transact rawSurroundings (.ok (actionRequest (.ofString "noop")))
        [cosign (.ofString "buyram")] true = .ok result ∧
      ∀ response ∈ signedResponses rawSurroundings
          (.start rawSurroundings (actionRequest (.ofString "noop")) true)
          [cosign (.ofString "buyram")],
        SigningRequest.SameData response.request result.request := by
  refine ⟨_, rfl, (transact_signatures_iff rawSurroundings (actionRequest (.ofString "noop"))
    [cosign (.ofString "buyram")] true _ rfl).2.2.mpr ⟨fun hlocked => ?_, fun t _ => trivial⟩⟩
  cases hlocked

/-- Under the lock, the signature of a modification that is not applied still gets into
the result. -/
theorem unapplied_signature_kept :
    ∃ result, transact rawSurroundings (.ok (actionRequest (.ofString "noop")))
        [cosign (.ofString "buyram")] false = .ok result ∧
      result.signatures ≠ [] ∧
      ∃ response ∈ signedResponses rawSurroundings
          (.start rawSurroundings (actionRequest (.ofString "noop")) false)
          [cosign (.ofString "buyram")],
        ¬ SigningRequest.SameData response.request result.request := by
  refine ⟨_, rfl, by simp, _, List.mem_singleton.mpr rfl, ?_⟩
  decide

end Session

end Dwarfkit
