/-
# The P2P client and its heartbeat

`P2PClient` of `antelope/p2p/client.hpp`, next to what it has left with others: the timers
the embedder has armed for it and the writes the provider has not completed.  A timer
holds `handleHeartbeat` and fires once; a heartbeat's write arms the next timer when it
completes.  Listeners are called in the order of the log; what they do in turn comes as
further events.

* `quiet_of_idle` : a client without an interval and without armed timers writes no more
  heartbeats;
* `quiet_after_shutdown_iff` : when a shutdown silences the client.
-/
import Dwarfkit.Antelope.P2P.Types
import Dwarfkit.Library.Runs

namespace Dwarfkit

namespace P2P

/-! ## State -/

/-- A registered listener: its id, and whether it goes after its first call. -/
structure Listener where
  id : ℕ
  once : Bool
  deriving DecidableEq, Repr

/-- `P2PClientOptions`: is there a provider, the heartbeat interval, is there a timer
implementation. -/
structure P2PClientOptions where
  provider : Bool := false
  heartbeatTimoutMs : Option Int32 := none
  setTimeoutImpl : Bool := false
  deriving DecidableEq

/-- The client's members. -/
structure P2PClient where
  provider : Bool
  heartbeatTimoutMs_ : Option Int32
  setTimeoutImpl_ : Bool
  nextListenerId_ : ℕ := 1
  messageListeners_ : List Listener := []
  errorListeners_ : List Listener := []
  closeListeners_ : List Listener := []
  deriving DecidableEq

/-- What a write calls when it is done: the heartbeat's `resetHeartbeat`, or whatever the
caller of `send` gave. -/
inductive Done where
  | resetHeartbeat
  | caller
  deriving DecidableEq

/-- What the client did, in order: calls of the provider and of listeners. -/
inductive Call where
  | write (encoded : Bytes) (done : Done)
  | end_
  | destroy (error : Option Error)
  | message (listener : Listener) (message : NetMessage)
  | error (listener : Listener) (error : Error)
  | close (listener : Listener)
  deriving DecidableEq

/-- The client, the armed timers with their timeouts, the writes under way, and the log. -/
structure World where
  client : P2PClient
  armed : List Int32 := []
  writing : List Done := []
  log : List Call := []
  deriving DecidableEq

/-- What a call writes, if it is a heartbeat. -/
def Call.heartbeat : Call → Option Bytes
  | write encoded .resetHeartbeat => some encoded
  | _ => none

/-- The heartbeats written to the provider so far. -/
def World.heartbeats (w : World) : List Bytes := w.log.filterMap Call.heartbeat

/-! ## The client's functions -/

/-- `resetHeartbeat`: arm a timer. -/
def resetHeartbeat (w : World) : World :=
  match w.client.heartbeatTimoutMs_ with
  | some timeoutMs =>
    if w.client.setTimeoutImpl_ then { w with armed := w.armed ++ [timeoutMs] } else w
  | none => w

/-- `endHeartbeat`: forget the interval. -/
def endHeartbeat (w : World) : World :=
  { w with client := { w.client with heartbeatTimoutMs_ := none } }

/-- `send`. -/
def send (p : Platform) (w : World) (message : NetMessage) (done : Done) : Result World :=
  if w.client.provider then do
    let encoded ← (netMessage p).toABI message
    return { w with writing := w.writing ++ [done], log := w.log ++ [.write encoded done] }
  else err .invalid "Missing provider"

/-- `handleHeartbeat` at the time `now`: the result of `send` is dropped. -/
def handleHeartbeat (p : Platform) (w : World) (now : Int64) : World :=
  match send p w (.time_message { org := now }) .resetHeartbeat with
  | .ok w' => w'
  | .error _ => w

/-- `end`. -/
def end_ (w : World) : World :=
  let w := endHeartbeat w
  if w.client.provider then { w with log := w.log ++ [.end_] } else w

/-- `destroy`. -/
def destroy (w : World) (error : Option Error) : World :=
  let w := endHeartbeat w
  if w.client.provider then { w with log := w.log ++ [.destroy error] } else w

/-- `std::erase_if` of the listeners that are called once. -/
def eraseOnce (listeners : List Listener) : List Listener := listeners.filter (fun l => !l.once)

/-- `emitError`. -/
def emitError (w : World) (error : Error) : World :=
  { w with
    client := { w.client with errorListeners_ := eraseOnce w.client.errorListeners_ }
    log := w.log ++ w.client.errorListeners_.map (fun listener => .error listener error) }

/-- `handleData`. -/
def handleData (p : Platform) (w : World) (data : Bytes) : World :=
  match (netMessage p).fromABI.run data with
  | .error error => emitError w error
  | .ok (message, _) =>
    { w with
      client := { w.client with messageListeners_ := eraseOnce w.client.messageListeners_ }
      log := w.log ++ w.client.messageListeners_.map (fun listener => .message listener message) }

/-- The handler the client gave to `onClose`. -/
def handleClose (w : World) : World :=
  { w with
    client := { w.client with closeListeners_ := eraseOnce w.client.closeListeners_ }
    log := w.log ++ w.client.closeListeners_.map .close }

/-- The listener lists a registration can go to. -/
inductive Channel where
  | message
  | error
  | close
  deriving DecidableEq

/-- `addMessage`, `onError`, `onClose`. -/
def addListener (w : World) (channel : Channel) (once : Bool) : World :=
  let listener : Listener := { id := w.client.nextListenerId_, once }
  let client := { w.client with nextListenerId_ := w.client.nextListenerId_ + 1 }
  match channel with
  | .message =>
    { w with client := { client with messageListeners_ := client.messageListeners_ ++ [listener] } }
  | .error =>
    { w with client := { client with errorListeners_ := client.errorListeners_ ++ [listener] } }
  | .close =>
    { w with client := { client with closeListeners_ := client.closeListeners_ ++ [listener] } }

/-- `removeListener`. -/
def removeListener (w : World) (id : ℕ) : World :=
  let keep := fun (listeners : List Listener) => listeners.filter (fun l => l.id ≠ id)
  { w with client :=
    { w.client with
      messageListeners_ := keep w.client.messageListeners_
      errorListeners_ := keep w.client.errorListeners_
      closeListeners_ := keep w.client.closeListeners_ } }

/-- The constructor. -/
def start (options : P2PClientOptions) : World :=
  resetHeartbeat
    { client :=
      { provider := options.provider
        heartbeatTimoutMs_ := options.heartbeatTimoutMs
        setTimeoutImpl_ := options.setTimeoutImpl } }

/-! ## Runs -/

/-- What can happen to a client. -/
inductive Event where
  /-- An armed timer fires. -/
  | timer (i : ℕ) (now : Int64)
  /-- A write completes. -/
  | written (i : ℕ)
  | data (data : Bytes)
  | error (error : Error)
  | close
  | send (message : NetMessage)
  | end_
  | destroy (error : Option Error)
  | addListener (channel : Channel) (once : Bool)
  | removeListener (id : ℕ)

/-- The two ways of shutting the client down. -/
def Event.IsShutdown : Event → Prop
  | end_ => True
  | destroy _ => True
  | _ => False

/-- One event.  A timer must be armed, a write under way, and there must be a provider
for it to emit something. -/
def step (p : Platform) (w : World) : Event → Option World
  | .timer i now =>
    if i < w.armed.length then
      some (handleHeartbeat p { w with armed := w.armed.eraseIdx i } now)
    else none
  | .written i =>
    match w.writing[i]? with
    | some .resetHeartbeat => some (resetHeartbeat { w with writing := w.writing.eraseIdx i })
    | some .caller => some { w with writing := w.writing.eraseIdx i }
    | none => none
  | .data data => if w.client.provider then some (handleData p w data) else none
  | .error error => if w.client.provider then some (emitError w error) else none
  | .close => if w.client.provider then some (handleClose w) else none
  | .send message =>
    match send p w message .caller with
    | .ok w' => some w'
    | .error _ => some w
  | .end_ => some (end_ w)
  | .destroy error => some (destroy w error)
  | .addListener channel once => some (addListener w channel once)
  | .removeListener id => some (removeListener w id)

/-- However the run goes on, no further heartbeat is written. -/
def Quiet (p : Platform) (w : World) : Prop :=
  ∀ events w', Runs.run (step p) w events = some w' → w'.heartbeats = w.heartbeats

/-! ## What writes a heartbeat -/

/-- A time message can always be encoded. -/
theorem exists_encoded_time (p : Platform) (m : TimeMessage) :
    ∃ encoded, (netMessage p).toABI (.time_message m) = .ok encoded := ⟨_, rfl⟩

/-- A timer of a client with a provider writes a heartbeat: an encoded time message. -/
theorem heartbeats_handleHeartbeat (p : Platform) (w : World) (now : Int64)
    (hprovider : w.client.provider = true) :
    ∃ encoded, (netMessage p).toABI (.time_message { org := now }) = .ok encoded ∧
      (handleHeartbeat p w now).heartbeats = w.heartbeats ++ [encoded] := by
  obtain ⟨encoded, hencoded⟩ := exists_encoded_time p { org := now }
  refine ⟨encoded, hencoded, ?_⟩
  unfold handleHeartbeat send
  rw [if_pos hprovider, hencoded]
  show List.filterMap Call.heartbeat (w.log ++ [Call.write encoded .resetHeartbeat]) = _
  rw [List.filterMap_append]
  rfl

/-- Without a provider it does nothing. -/
theorem handleHeartbeat_of_no_provider (p : Platform) (w : World) (now : Int64)
    (hprovider : w.client.provider = false) : handleHeartbeat p w now = w := by
  unfold handleHeartbeat send
  rw [hprovider]
  rfl

/-- Calls that are no heartbeats. -/
theorem filterMap_heartbeat_append {log calls : List Call}
    (h : ∀ call ∈ calls, call.heartbeat = none) :
    (log ++ calls).filterMap Call.heartbeat = log.filterMap Call.heartbeat := by
  rw [List.filterMap_append, List.filterMap_eq_nil_iff.mpr h, List.append_nil]

/-- Calls of listeners are none. -/
theorem heartbeat_of_mem_map {listeners : List Listener} {call : Listener → Call}
    (h : ∀ listener, (call listener).heartbeat = none) :
    ∀ c ∈ listeners.map call, c.heartbeat = none := by
  intro c hc
  obtain ⟨listener, -, rfl⟩ := List.mem_map.mp hc
  exact h listener

/-- What an event other than a timer leaves as it was: the heartbeats and the provider,
and, once the interval is gone, the interval and the timers. -/
structure Untimed (w w' : World) : Prop where
  heartbeats : w'.heartbeats = w.heartbeats
  provider : w'.client.provider = w.client.provider
  interval : w.client.heartbeatTimoutMs_ = none → w'.client.heartbeatTimoutMs_ = none
  armed : w.client.heartbeatTimoutMs_ = none → w'.armed = w.armed

theorem Untimed.refl (w : World) : Untimed w w := ⟨rfl, rfl, id, fun _ => rfl⟩

/-- A write that completes arms a timer only where there is an interval. -/
theorem untimed_resetHeartbeat (w : World) : Untimed w (resetHeartbeat w) := by
  unfold resetHeartbeat
  split
  · rename_i hinterval
    split
    · exact ⟨rfl, rfl, id, fun h => by rw [h] at hinterval; cases hinterval⟩
    · exact .refl w
  · exact .refl w

theorem untimed_emitError (w : World) (error : Error) : Untimed w (emitError w error) :=
  ⟨filterMap_heartbeat_append (heartbeat_of_mem_map fun _ => rfl), rfl, id, fun _ => rfl⟩

theorem untimed_handleData (p : Platform) (w : World) (data : Bytes) :
    Untimed w (handleData p w data) := by
  unfold handleData
  split
  · exact untimed_emitError w _
  · exact ⟨filterMap_heartbeat_append (heartbeat_of_mem_map fun _ => rfl), rfl, id, fun _ => rfl⟩

theorem untimed_handleClose (w : World) : Untimed w (handleClose w) :=
  ⟨filterMap_heartbeat_append (heartbeat_of_mem_map fun _ => rfl), rfl, id, fun _ => rfl⟩

theorem untimed_send {p : Platform} {w w' : World} {message : NetMessage}
    (h : send p w message .caller = .ok w') : Untimed w w' := by
  unfold send at h
  split at h
  · obtain ⟨encoded, -, h⟩ := bind_eq_ok.mp h
    cases h
    refine ⟨filterMap_heartbeat_append ?_, rfl, id, fun _ => rfl⟩
    intro call hcall
    rw [List.mem_singleton.mp hcall]
    rfl
  · cases h

/-- Both ways of shutting down forget the interval and tell the provider. -/
theorem untimed_shutdown (w : World) (call : Call) (hcall : call.heartbeat = none) :
    Untimed w (let w := endHeartbeat w
      if w.client.provider then { w with log := w.log ++ [call] } else w) := by
  simp only
  split
  · refine ⟨filterMap_heartbeat_append ?_, rfl, fun _ => rfl, fun _ => rfl⟩
    intro c hc
    rw [List.mem_singleton.mp hc]
    exact hcall
  · exact ⟨rfl, rfl, fun _ => rfl, fun _ => rfl⟩

theorem untimed_addListener (w : World) (channel : Channel) (once : Bool) :
    Untimed w (addListener w channel once) := by
  cases channel with
  | message => exact ⟨rfl, rfl, id, fun _ => rfl⟩
  | error => exact ⟨rfl, rfl, id, fun _ => rfl⟩
  | close => exact ⟨rfl, rfl, id, fun _ => rfl⟩

/-- **One event**: a timer fires, or the heartbeats stay as they are. -/
theorem step_cases {p : Platform} {w w' : World} {event : Event}
    (hstep : step p w event = some w') :
    (∃ i now, event = .timer i now ∧ i < w.armed.length ∧
      w' = handleHeartbeat p { w with armed := w.armed.eraseIdx i } now) ∨ Untimed w w' := by
  cases event with
  | timer i now =>
    simp only [step, Option.ite_none_right_eq_some, Option.some.injEq] at hstep
    obtain ⟨hi, rfl⟩ := hstep
    exact .inl ⟨i, now, rfl, hi, rfl⟩
  -- From here on no heartbeat is sent: what each event does is `Untimed`.
  | written i =>
    right
    simp only [step] at hstep
    split at hstep
    · cases hstep
      have h := untimed_resetHeartbeat { w with writing := w.writing.eraseIdx i }
      exact ⟨h.heartbeats, h.provider, h.interval, h.armed⟩
    · cases hstep
      exact ⟨rfl, rfl, id, fun _ => rfl⟩
    · cases hstep
  | data data =>
    right
    simp only [step, Option.ite_none_right_eq_some, Option.some.injEq] at hstep
    obtain ⟨-, rfl⟩ := hstep
    exact untimed_handleData p w data
  | error error =>
    right
    simp only [step, Option.ite_none_right_eq_some, Option.some.injEq] at hstep
    obtain ⟨-, rfl⟩ := hstep
    exact untimed_emitError w error
  | close =>
    right
    simp only [step, Option.ite_none_right_eq_some, Option.some.injEq] at hstep
    obtain ⟨-, rfl⟩ := hstep
    exact untimed_handleClose w
  | send message =>
    right
    simp only [step] at hstep
    split at hstep
    · rename_i w₁ hsend
      cases hstep
      exact untimed_send hsend
    · cases hstep
      exact .refl w
  | end_ =>
    right
    cases hstep
    exact untimed_shutdown w .end_ rfl
  | destroy error =>
    right
    cases hstep
    exact untimed_shutdown w (.destroy error) rfl
  | addListener channel once =>
    right
    cases hstep
    exact untimed_addListener w channel once
  | removeListener id =>
    right
    cases hstep
    exact ⟨rfl, rfl, fun h => h, fun _ => rfl⟩

/-! ## Silence -/

/-- A client that will not write: it has forgotten its interval and no timer is armed, or
it has no provider. -/
def Idle (w : World) : Prop :=
  w.client.provider = false ∨ (w.client.heartbeatTimoutMs_ = none ∧ w.armed = [])

/-- An idle client writes no heartbeat and stays idle. -/
theorem Idle.step {p : Platform} {w w' : World} {event : Event} (hidle : Idle w)
    (hstep : P2P.step p w event = some w') : Idle w' ∧ w'.heartbeats = w.heartbeats := by
  rcases step_cases hstep with ⟨i, now, rfl, hi, rfl⟩ | huntimed
  · rcases hidle with hprovider | ⟨-, harmed⟩
    · rw [handleHeartbeat_of_no_provider p { w with armed := w.armed.eraseIdx i } now hprovider]
      exact ⟨.inl hprovider, rfl⟩
    · rw [harmed] at hi
      exact absurd hi (Nat.not_lt_zero i)
  · refine ⟨?_, huntimed.heartbeats⟩
    rcases hidle with hprovider | ⟨hinterval, harmed⟩
    · exact .inl (huntimed.provider.trans hprovider)
    · exact .inr ⟨huntimed.interval hinterval, (huntimed.armed hinterval).trans harmed⟩

/-- An idle client is quiet, whatever happens. -/
theorem quiet_of_idle {p : Platform} {w : World} (hidle : Idle w) : Quiet p w := by
  intro events
  induction events generalizing w with
  | nil =>
    intro w' hrun
    cases hrun
    rfl
  | cons event events ih =>
    intro w' hrun
    rw [Runs.run_cons, Option.bind_eq_some_iff] at hrun
    obtain ⟨w₁, hstep, hrest⟩ := hrun
    obtain ⟨hidle₁, heq⟩ := hidle.step hstep
    rw [ih hidle₁ w' hrest, heq]

/-- What a shutdown leaves: the interval is gone, the timers and the provider are as they
were. -/
theorem step_shutdown {p : Platform} {w w' : World} {event : Event}
    (hshutdown : event.IsShutdown) (hstep : step p w event = some w') :
    w'.client.heartbeatTimoutMs_ = none ∧ w'.armed = w.armed ∧
      w'.client.provider = w.client.provider := by
  cases event with
  | end_ =>
    cases hstep
    unfold end_
    simp only
    split
    · exact ⟨rfl, rfl, rfl⟩
    · exact ⟨rfl, rfl, rfl⟩
  | destroy error =>
    cases hstep
    unfold destroy
    simp only
    split
    · exact ⟨rfl, rfl, rfl⟩
    · exact ⟨rfl, rfl, rfl⟩
  | _ => exact hshutdown.elim

/-- **When a shutdown silences the client**: wherever a run has got to, after `end` or
`destroy` no heartbeat is written, however the run goes on, exactly when at the shutdown
no timer is armed or there is no provider. -/
theorem quiet_after_shutdown_iff (p : Platform) {w w' : World} {event : Event}
    (hshutdown : event.IsShutdown) (hstep : step p w event = some w') :
    Quiet p w' ↔ w.armed = [] ∨ w.client.provider = false := by
  obtain ⟨hinterval, harmed, hprovider⟩ := step_shutdown hshutdown hstep
  constructor
  · intro hquiet
    by_contra hnot
    rw [not_or] at hnot
    obtain ⟨hne, hsome⟩ := hnot
    -- the first timer fires
    have hi : 0 < w'.armed.length := by
      rw [harmed]
      exact List.length_pos_of_ne_nil hne
    have hfire : step p w' (.timer 0 0) =
        some (handleHeartbeat p { w' with armed := w'.armed.eraseIdx 0 } 0) := if_pos hi
    have hrun : Runs.run (step p) w' [.timer 0 0] =
        some (handleHeartbeat p { w' with armed := w'.armed.eraseIdx 0 } 0) := by
      rw [Runs.run_cons, hfire]
      rfl
    obtain ⟨encoded, -, hheartbeats⟩ := heartbeats_handleHeartbeat p
      { w' with armed := w'.armed.eraseIdx 0 } 0 (by simpa [hprovider] using hsome)
    have heq := hquiet _ _ hrun
    rw [hheartbeats] at heq
    have hlen := congrArg List.length heq
    simp [World.heartbeats] at hlen
  · rintro (hnone | hnone)
    · exact quiet_of_idle (.inr ⟨hinterval, harmed.trans hnone⟩)
    · exact quiet_of_idle (.inl (hprovider.trans hnone))

/-- A client whose timer has fired and whose heartbeat is being written: `end` silences
it. -/
theorem quiet_after_shutdown_iff_writing :
    Quiet default (end_ (handleHeartbeat default
      { start ⟨true, some 6789, true⟩ with armed := [] } 5)) :=
  (quiet_after_shutdown_iff default (show Event.end_.IsShutdown from trivial) rfl).mpr (.inl rfl)

/-- A timer that was armed before `end` writes a heartbeat after it. -/
theorem heartbeat_after_end :
    ¬ ∀ (options : P2PClientOptions) (before : List Event) (w w' : World) (event : Event),
      Runs.run (step default) (start options) before = some w → event.IsShutdown →
        step default w event = some w' → Quiet default w' := by
  intro h
  have hquiet := h ⟨true, some 6789, true⟩ [] _ _ .end_ rfl trivial rfl [.timer 0 0] _ rfl
  revert hquiet
  decide +kernel

end P2P

end Dwarfkit
