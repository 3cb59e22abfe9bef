/-
# The buoy listener

`Listener` of `protocol_esr/buoy.cpp`: messages of a channel over a web socket, which is
opened anew when it fails.  A message behind a `42 42 01 seq` header is acknowledged with
`42 42 02 seq`; a header alone is a heartbeat.  What the web socket, the clock and the
cancel token answer is a list of rounds, one for each time the loop goes around.

* `conversation_run` : every message that arrived is acknowledged at once and handed out
  once, in the order of arrival, over any number of calls;
* `disciplined_run` : the web socket is used only while it is open, and opened only while
  it is not;
* `receiveMessage_deadline` : what a deadline does, and what it leaves alone.
-/
import Dwarfkit.Core.Result
import Dwarfkit.Library.Runs

namespace Dwarfkit

namespace Buoy

/-! ## Urls -/

/-- `swapProtocol`. -/
def swapProtocol (service origin target : Str) : Str :=
  let rv := if origin.isPrefixOf service then target ++ service.drop origin.length else service
  if rv.getLast? = some 47 then rv.dropLast else rv

/-- The url a message is posted to. -/
def sendUrl (service channel : Str) : Str :=
  swapProtocol service "ws" "http" ++ lit "/" ++ channel

/-- The url a listener connects to. -/
def listenUrl (service channel : Str) : Str :=
  swapProtocol service "http" "ws" ++ lit "/" ++ channel ++ lit "?v=2"

/-! ## The listener -/

/-- `isCode`. -/
def isCode (error : Error) (code : Str) : Bool := error.details.find "code" = some (.str code)

/-- `backoff`, in milliseconds. -/
def backoff (tries : ℕ) : ℕ := min ((tries * 7) ^ 2) 5000

/-- `idleSlice`, in milliseconds. -/
def idleSlice : ℤ := 10000

/-- Nanoseconds in a millisecond; the clock counts the former. -/
def millisecond : ℤ := 1000000

/-- `Listener`: its url, and whether its socket is open. -/
structure Listener where
  url_ : Str
  connected_ : Bool := false
  deriving DecidableEq

/-- `Listener::make`; `webSocket` tells whether there is a provider. -/
def Listener.make (channel service : Str) (webSocket : Bool) : Result Listener :=
  if service = [] then err .invalid "Options must include a service url"
  else if channel = [] then err .invalid "Options must include a channel name"
  else if !webSocket then err .invalid "Options must include a websocket provider"
  else .ok { url_ := listenUrl service channel }

/-- What the listener does, with the answers it gets: calls of the web socket, readings of
the clock, and waits. -/
inductive Event where
  | connect (url : Str) (answer : Result Unit)
  | clock (now : ℤ)
  | receive (slice : ℤ) (answer : Result Bytes)
  | send (data : Bytes)
  | wait (timeout : ℕ) (cancelled : Bool)
  | close

/-- What the surroundings answer while the loop goes around once, if they are asked: is the
token cancelled, the connect, the clock before a receive, the receive, the clock after a
connect or a receive that failed, and whether the wait is cancelled. -/
structure Round where
  cancelled : Bool := false
  connect : Result Unit := .ok ()
  now : ℤ := 0
  receive : Result Bytes := .ok []
  failedAt : ℤ := 0
  waitCancelled : Bool := false

/-- What `receiveMessage` keeps between two rounds, next to the listener itself. -/
structure Loop where
  listener : Listener
  lastError : Option Error := none
  retries : ℕ := 0

def cancelled : Error := { kind := .canceled, message := "Cancelled" }

/-- `timedOut`: with the text of the last failure. -/
def timedOut (lastError : Option Error) : Error where
  kind := .transport
  message := "Timed out"
  details := .obj ((lit "code", .str "E_MESSAGE") ::
    (lastError.map (fun e => (lit "underlying", Json.str e.message))).toList)

/-- Where a round leads: to the next one, or out of the function. -/
inductive Exit where
  | again (loop : Loop)
  | done (listener : Listener) (result : Result Bytes)

/-- After a failure of the socket: time out if the deadline has passed, else wait and try
again. -/
def retry (deadline : Option ℤ) (s : Loop) (error : Error) (r : Round) : List Event × Exit :=
  let s := { s with lastError := some error }
  let wait : List Event × Exit :=
    ([.wait (backoff s.retries) r.waitCancelled],
      if r.waitCancelled then .done s.listener (.error cancelled)
      else .again { s with retries := s.retries + 1 })
  match deadline with
  | none => wait
  | some d =>
    if d ≤ r.failedAt then ([.clock r.failedAt], .done s.listener (.error (timedOut s.lastError)))
    else (.clock r.failedAt :: wait.1, wait.2)

/-- A message: the header is acknowledged and taken off. -/
def handle (s : Loop) (bytes : Bytes) : List Event × Exit :=
  match bytes with
  | 0x42 :: 0x42 :: 0x01 :: seq :: body =>
    ([.send [0x42, 0x42, 0x02, seq]],
      if body = [] then .again s else .done s.listener (.ok body))
  | _ => ([], .done s.listener (.ok bytes))

/-- Receive for a slice of the time. -/
def receiveFor (deadline : Option ℤ) (s : Loop) (slice : ℤ) (r : Round) : List Event × Exit :=
  let (events, next) := match r.receive with
    | .ok bytes => handle s bytes
    | .error error =>
      if error.kind = .canceled then ([], .done s.listener (.error cancelled))
      else if isCode error "E_TIMEOUT" then ([], .again s)
      else retry deadline { s with listener := { s.listener with connected_ := false } } error r
  (.receive slice r.receive :: events, next)

/-- With an open socket: how long there is to receive. -/
def listen (deadline : Option ℤ) (s : Loop) (r : Round) : List Event × Exit :=
  match deadline with
  | none => receiveFor deadline s idleSlice r
  | some d =>
    let remaining := (d - r.now).tdiv millisecond
    if remaining ≤ 0 then
      ([.clock r.now], .done s.listener (.error (timedOut s.lastError)))
    else
      let (events, next) := receiveFor deadline s (min remaining idleSlice) r
      (.clock r.now :: events, next)

/-- One round of the loop. -/
def iterate (deadline : Option ℤ) (s : Loop) (r : Round) : List Event × Exit :=
  if r.cancelled then ([], .done s.listener (.error cancelled))
  else if s.listener.connected_ then listen deadline s r
  else
    let dialed : Event := .connect s.listener.url_ r.connect
    match r.connect with
    | .error error =>
      let (events, next) := retry deadline s error r
      (dialed :: events, next)
    | .ok () =>
      let (events, next) := listen deadline
        { s with listener := { s.listener with connected_ := true }, retries := 0 } r
      (dialed :: events, next)

/-- How a call went: what it did, the listener after it, its result if it came to one, and
the rounds it did not need. -/
structure Course where
  events : List Event
  listener : Listener
  result : Option (Result Bytes)
  rest : List Round

/-- The loop, for as many rounds as it needs. -/
def receiveLoop (deadline : Option ℤ) : Loop → List Round → Course
  | s, [] => { events := [], listener := s.listener, result := none, rest := [] }
  | s, r :: rounds =>
    match iterate deadline s r with
    | (events, .done listener result) => { events, listener, result := some result, rest := rounds }
    | (events, .again s) =>
      let later := receiveLoop deadline s rounds
      { later with events := events ++ later.events }

/-- When a timeout in milliseconds runs out that started at the given time. -/
def deadlineOf (timeout : Option ℤ) (startedAt : ℤ) : Option ℤ :=
  timeout.map (fun t => startedAt + t * millisecond)

/-- `receiveMessage`.  With a timeout the clock is read at the start. -/
def Listener.receiveMessage (listener : Listener) (timeout : Option ℤ) (startedAt : ℤ)
    (rounds : List Round) : Course :=
  receiveLoop (deadlineOf timeout startedAt) { listener } rounds

/-- `connect`. -/
def Listener.connect (listener : Listener) (answer : Result Unit) :
    List Event × Listener × Result Unit :=
  if listener.connected_ then ([], listener, .ok ())
  else
    match answer with
    | .error error => ([.connect listener.url_ answer], listener, .error error)
    | .ok () => ([.connect listener.url_ answer], { listener with connected_ := true }, .ok ())

/-- `disconnect`. -/
def Listener.disconnect (listener : Listener) : List Event × Listener :=
  if listener.connected_ then ([.close], { listener with connected_ := false }) else ([], listener)

/-! ## The system -/

/-- The listener, what it has done, and what it has handed out. -/
structure State where
  listener : Listener
  trace : List Event := []
  returned : List (Result Bytes) := []

/-- What the owner of a listener does with it.  A `receiveMessage` comes with the rounds it
takes. -/
inductive Label where
  | connect (answer : Result Unit)
  | disconnect
  | receiveMessage (timeout : Option ℤ) (startedAt : ℤ) (rounds : List Round)

/-- One call; a `receiveMessage` has to come to a result with the last of its rounds. -/
def step (s : State) : Label → Option State
  | .connect answer =>
    let connected := s.listener.connect answer
    some { s with listener := connected.2.1, trace := s.trace ++ connected.1 }
  | .disconnect =>
    let disconnected := s.listener.disconnect
    some { s with listener := disconnected.2, trace := s.trace ++ disconnected.1 }
  | .receiveMessage timeout startedAt rounds =>
    let course := s.listener.receiveMessage timeout startedAt rounds
    match course.result, course.rest with
    | some result, [] =>
      some
        { listener := course.listener
          trace := s.trace ++ course.events
          returned := s.returned ++ [result] }
    | _, _ => none

/-! ## What the trace says -/

/-- What goes over the socket. -/
inductive Talk where
  | arrived (message : Bytes)
  | sent (data : Bytes)
  deriving DecidableEq

def Event.talk : Event → Option Talk
  | receive _ (.ok message) => some (.arrived message)
  | send data => some (.sent data)
  | _ => none

/-- The messages that have arrived. -/
def arrivals (trace : List Event) : List Bytes :=
  trace.filterMap (fun event =>
    match event with
    | .receive _ (.ok message) => some message
    | _ => none)

/-- The acknowledgement of a message, if its header asks for one. -/
def ackOf : Bytes → Option Bytes
  | 0x42 :: 0x42 :: 0x01 :: seq :: _ => some [0x42, 0x42, 0x02, seq]
  | _ => none

/-- What a message has to say: nothing if it is a heartbeat. -/
def bodyOf : Bytes → Option Bytes
  | 0x42 :: 0x42 :: 0x01 :: _ :: body => if body = [] then none else some body
  | message => some message

/-- A message with its acknowledgement. -/
def exchange (message : Bytes) : List Talk :=
  .arrived message :: ((ackOf message).map Talk.sent).toList

/-- **The conversation**: each message is acknowledged before the next one arrives, and what
the messages have to say has been handed out. -/
def Conversation (trace : List Event) (bodies : List Bytes) : Prop :=
  trace.filterMap Event.talk = (arrivals trace).flatMap exchange ∧
    bodies = (arrivals trace).filterMap bodyOf

/-- The bodies among the results. -/
def bodies (returned : List (Result Bytes)) : List Bytes := returned.filterMap Except.toOption

/-- What becomes of the socket: `none` where it is used in a state that does not allow it, or
opened to anything but the channel. -/
def socket (url : Str) : Bool → List Event → Option Bool
  | connected, [] => some connected
  | false, .connect target answer :: trace =>
    if target = url then socket url answer.isOk trace else none
  | true, .receive _ (.ok _) :: trace => socket url true trace
  | true, .receive _ (.error error) :: trace =>
    socket url (error.kind = .canceled ∨ isCode error "E_TIMEOUT") trace
  | true, .send _ :: trace => socket url true trace
  | true, .close :: trace => socket url false trace
  | connected, .clock _ :: trace => socket url connected trace
  | connected, .wait _ _ :: trace => socket url connected trace
  | _, _ => none

/-! ## Conversations -/

theorem conversation_nil : Conversation [] [] := ⟨rfl, rfl⟩

theorem arrivals_append (xs ys : List Event) : arrivals (xs ++ ys) = arrivals xs ++ arrivals ys :=
  List.filterMap_append

/-- Conversations one after the other. -/
theorem Conversation.append {xs ys : List Event} {bs cs : List Bytes} (h : Conversation xs bs)
    (h' : Conversation ys cs) : Conversation (xs ++ ys) (bs ++ cs) := by
  refine ⟨?_, ?_⟩
  · rw [List.filterMap_append, h.1, h'.1, arrivals_append, List.flatMap_append]
  · rw [h.2, h'.2, arrivals_append, List.filterMap_append]

/-- An event that says nothing. -/
theorem Conversation.cons_silent {event : Event} {trace : List Event} {bs : List Bytes}
    (h : Conversation trace bs) (htalk : event.talk = none) : Conversation (event :: trace) bs := by
  have harrivals : arrivals (event :: trace) = arrivals trace := by
    cases event with
    | receive slice answer =>
      cases answer with
      | ok message => cases htalk
      | error error => rfl
    | connect | clock | send | wait | close => rfl
  refine ⟨?_, ?_⟩
  · rw [List.filterMap_cons, htalk, harrivals]
    exact h.1
  · rw [harrivals]
    exact h.2

/-- The bodies a round hands out. -/
def Exit.bodies : Exit → List Bytes
  | .again _ => []
  | .done _ result => result.toOption.toList

theorem conversation_retry (deadline : Option ℤ) (s : Loop) (error : Error) (r : Round) :
    Conversation (retry deadline s error r).1 (retry deadline s error r).2.bodies := by
  have hwait : ∀ timeout cancelled, Conversation [.wait timeout cancelled] [] :=
    fun _ _ => conversation_nil.cons_silent rfl
  unfold retry
  cases deadline with
  | none =>
    cases r.waitCancelled
    · exact hwait _ _
    · exact hwait _ _
  | some d =>
    simp only
    split
    · exact conversation_nil.cons_silent rfl
    · cases r.waitCancelled
      · exact (hwait _ _).cons_silent rfl
      · exact (hwait _ _).cons_silent rfl

/-- A message that arrived is acknowledged and handed out. -/
theorem conversation_handle (s : Loop) (slice : ℤ) (bytes : Bytes) :
    Conversation (.receive slice (.ok bytes) :: (handle s bytes).1) (handle s bytes).2.bodies := by
  unfold handle
  split
  · rename_i seq body
    refine ⟨rfl, ?_⟩
    show _ = [_].filterMap bodyOf
    by_cases hbody : body = []
    · subst hbody
      rfl
    · rw [if_neg hbody]
      simp [bodyOf, hbody, Exit.bodies, Except.toOption]
  · rename_i hheader
    have hack : ackOf bytes = none := by
      unfold ackOf
      split
      · exact absurd rfl (hheader _ _)
      · rfl
    have hbody : bodyOf bytes = some bytes := by
      unfold bodyOf
      split
      · exact absurd rfl (hheader _ _)
      · rfl
    refine ⟨?_, ?_⟩
    · show [Talk.arrived bytes] = [bytes].flatMap exchange
      simp [exchange, hack]
    · show [bytes] = [bytes].filterMap bodyOf
      simp [hbody]

theorem conversation_receiveFor (deadline : Option ℤ) (s : Loop) (slice : ℤ) (r : Round) :
    Conversation (receiveFor deadline s slice r).1 (receiveFor deadline s slice r).2.bodies := by
  unfold receiveFor
  cases r.receive with
  | ok bytes => exact conversation_handle s slice bytes
  | error error =>
    simp only
    split
    · exact conversation_nil.cons_silent rfl
    · split
      · exact conversation_nil.cons_silent rfl
      · exact (conversation_retry _ _ _ _).cons_silent rfl

theorem conversation_listen (deadline : Option ℤ) (s : Loop) (r : Round) :
    Conversation (listen deadline s r).1 (listen deadline s r).2.bodies := by
  unfold listen
  cases deadline with
  | none => exact conversation_receiveFor _ _ _ _
  | some d =>
    simp only
    split
    · exact conversation_nil.cons_silent rfl
    · exact (conversation_receiveFor _ _ _ _).cons_silent rfl

theorem conversation_iterate (deadline : Option ℤ) (s : Loop) (r : Round) :
    Conversation (iterate deadline s r).1 (iterate deadline s r).2.bodies := by
  unfold iterate
  split
  · exact conversation_nil
  · split
    · exact conversation_listen _ _ _
    · cases r.connect with
      | error error => exact (conversation_retry _ _ _ _).cons_silent rfl
      | ok _ => exact (conversation_listen _ _ _).cons_silent rfl

/-- The loop hands out what its last message has to say; none of the others said anything. -/
theorem conversation_receiveLoop (deadline : Option ℤ) (s : Loop) (rounds : List Round) :
    Conversation (receiveLoop deadline s rounds).events
      (bodies (receiveLoop deadline s rounds).result.toList) := by
  induction rounds generalizing s with
  | nil => exact conversation_nil
  | cons r rounds ih =>
    have hround := conversation_iterate deadline s r
    rw [receiveLoop]
    rcases hnext : iterate deadline s r with ⟨events, next⟩
    rw [hnext] at hround
    cases next with
    | done listener result =>
      cases result with
      | ok body => exact hround
      | error error => exact hround
    | again s' => exact hround.append (ih s')

/-- The invariant of the system. -/
def State.Faithful (s : State) : Prop := Conversation s.trace (bodies s.returned)

/-- A `receiveMessage` that is done has a result. -/
theorem step_receiveMessage {s s' : State} {timeout : Option ℤ} {startedAt : ℤ}
    {rounds : List Round} (h : step s (.receiveMessage timeout startedAt rounds) = some s') :
    ∃ result, (s.listener.receiveMessage timeout startedAt rounds).result = some result ∧
      s' = { listener := (s.listener.receiveMessage timeout startedAt rounds).listener
             trace := s.trace ++ (s.listener.receiveMessage timeout startedAt rounds).events
             returned := s.returned ++ [result] } := by
  simp only [step] at h
  split at h
  · rename_i result hresult _
    exact ⟨result, hresult, (Option.some.inj h).symm⟩
  · cases h

/-- **One call** keeps the conversation. -/
theorem faithful_step {s s' : State} {label : Label} (hs : s.Faithful) (h : step s label = some s') :
    s'.Faithful := by
  cases label with
  | connect answer =>
    obtain rfl := Option.some.inj h
    have hevents : Conversation (s.listener.connect answer).1 [] := by
      unfold Listener.connect
      split
      · exact conversation_nil
      · cases answer with
        | error error => exact conversation_nil.cons_silent rfl
        | ok _ => exact conversation_nil.cons_silent rfl
    have hboth := Conversation.append hs hevents
    rwa [List.append_nil] at hboth
  | disconnect =>
    obtain rfl := Option.some.inj h
    have hevents : Conversation s.listener.disconnect.1 [] := by
      unfold Listener.disconnect
      split
      · exact conversation_nil.cons_silent rfl
      · exact conversation_nil
    have hboth := Conversation.append hs hevents
    rwa [List.append_nil] at hboth
  | receiveMessage timeout startedAt rounds =>
    obtain ⟨result, hresult, rfl⟩ := step_receiveMessage h
    have hloop := conversation_receiveLoop (deadlineOf timeout startedAt)
      { listener := s.listener } rounds
    rw [show (receiveLoop _ { listener := s.listener } rounds).result = some result from hresult]
      at hloop
    have hboth := Conversation.append hs hloop
    rwa [bodies, bodies, ← List.filterMap_append] at hboth

/-- **Every message is acknowledged and handed out once**, in the order of arrival, in every
state of every run of calls: no timeout, cancellation or failure of the socket loses one or
repeats one. -/
theorem conversation_run (listener : Listener) (labels : List Label) :
    Runs.AllStates step (fun s => Conversation s.trace (bodies s.returned)) { listener } labels :=
  Runs.AllStates.of_run step (fun _ _ _ hs _ hstep => faithful_step hs hstep) conversation_nil
    (Runs.allSteps_true step _ labels)

/-! ## The socket -/

section Socket

variable {url : Str}

@[simp]
theorem socket_nil (connected : Bool) : socket url connected [] = some connected := by
  cases connected <;> rfl

@[simp]
theorem socket_clock (connected : Bool) (now : ℤ) (trace : List Event) :
    socket url connected (.clock now :: trace) = socket url connected trace := by
  cases connected <;> rfl

@[simp]
theorem socket_wait (connected : Bool) (timeout : ℕ) (stop : Bool) (trace : List Event) :
    socket url connected (.wait timeout stop :: trace) = socket url connected trace := by
  cases connected <;> rfl

theorem socket_append (connected : Bool) (xs ys : List Event) :
    socket url connected (xs ++ ys) = (socket url connected xs).bind (fun c => socket url c ys) := by
  induction xs generalizing connected with
  | nil => rw [socket_nil]; rfl
  | cons event xs ih =>
    rw [List.cons_append]
    cases event with
    | connect target answer =>
      cases connected with
      | false =>
        simp only [socket]
        split
        · exact ih _
        · rfl
      | true => rfl
    | clock now => simp only [socket_clock, ih]
    | receive slice answer =>
      cases connected with
      | false => cases answer <;> rfl
      | true =>
        cases answer with
        | ok _ => exact ih true
        | error _ => exact ih _
    | send data =>
      cases connected with
      | false => rfl
      | true => exact ih true
    | wait timeout cancelled => simp only [socket_wait, ih]
    | close =>
      cases connected with
      | false => rfl
      | true => exact ih false

/-- The listener a round leaves. -/
def Exit.listener : Exit → Listener
  | .again s => s.listener
  | .done listener _ => listener

theorem socket_retry (deadline : Option ℤ) (s : Loop) (error : Error) (r : Round)
    (connected : Bool) :
    socket url connected (retry deadline s error r).1 = some connected ∧
      (retry deadline s error r).2.listener = s.listener := by
  unfold retry
  cases deadline with
  | none =>
    simp only [socket_wait, socket_nil, true_and]
    split <;> rfl
  | some d =>
    simp only
    split
    · simp only [socket_clock, socket_nil, true_and]
      rfl
    · simp only [socket_clock, socket_wait, socket_nil, true_and]
      split <;> rfl

theorem socket_handle (s : Loop) (bytes : Bytes) :
    socket url true (handle s bytes).1 = some true ∧ (handle s bytes).2.listener = s.listener := by
  unfold handle
  split
  · refine ⟨rfl, ?_⟩
    simp only
    split <;> rfl
  · exact ⟨rfl, rfl⟩

/-- What `receive` and what follows it do to an open socket: a failure closes it, and
nothing else does. -/
theorem socket_receiveFor (deadline : Option ℤ) (s : Loop) (slice : ℤ) (r : Round)
    (hs : s.listener.connected_ = true) :
    socket url true (receiveFor deadline s slice r).1 =
        some (receiveFor deadline s slice r).2.listener.connected_ ∧
      (receiveFor deadline s slice r).2.listener.url_ = s.listener.url_ := by
  unfold receiveFor
  cases r.receive with
  | ok bytes =>
    obtain ⟨hsocket, hlistener⟩ := @socket_handle url s bytes
    refine ⟨?_, ?_⟩
    · show socket url true (handle s bytes).1 = _
      rw [hsocket, hlistener, hs]
    · rw [hlistener]
  | error error =>
    simp only
    split
    · rename_i hcanceled
      refine ⟨?_, rfl⟩
      show socket url (decide (error.kind = .canceled ∨ _)) [] = some s.listener.connected_
      rw [decide_eq_true (.inl hcanceled), hs, socket_nil]
    · rename_i hcanceled
      split
      · rename_i htimeout
        refine ⟨?_, rfl⟩
        show socket url (decide (_ ∨ isCode error "E_TIMEOUT" = true)) [] =
          some s.listener.connected_
        rw [decide_eq_true (.inr htimeout), hs, socket_nil]
      · rename_i htimeout
        obtain ⟨hsocket, hlistener⟩ := @socket_retry url deadline
          { s with listener := { s.listener with connected_ := false } } error r false
        refine ⟨?_, ?_⟩
        · show socket url (decide (error.kind = .canceled ∨ isCode error "E_TIMEOUT" = true)) _ = _
          rw [decide_eq_false (not_or.mpr ⟨hcanceled, htimeout⟩), hsocket, hlistener]
        · rw [hlistener]

theorem socket_listen (deadline : Option ℤ) (s : Loop) (r : Round)
    (hs : s.listener.connected_ = true) :
    socket url true (listen deadline s r).1 = some (listen deadline s r).2.listener.connected_ ∧
      (listen deadline s r).2.listener.url_ = s.listener.url_ := by
  unfold listen
  cases deadline with
  | none => exact socket_receiveFor _ _ _ _ hs
  | some d =>
    simp only
    split
    · exact ⟨congrArg some hs.symm, rfl⟩
    · simp only [socket_clock]
      exact socket_receiveFor _ _ _ _ hs

/-- **One round** uses the socket as it is, and leaves the listener knowing what it is. -/
theorem socket_iterate (deadline : Option ℤ) (s : Loop) (r : Round)
    (hurl : s.listener.url_ = url) :
    socket url s.listener.connected_ (iterate deadline s r).1 =
        some (iterate deadline s r).2.listener.connected_ ∧
      (iterate deadline s r).2.listener.url_ = url := by
  unfold iterate
  split
  · exact ⟨socket_nil _, hurl⟩
  · split
    · rename_i hs
      rw [hs, ← hurl]
      exact socket_listen deadline s r hs
    · rename_i hs
      rw [Bool.eq_false_of_not_eq_true hs, ← hurl]
      cases r.connect with
      | error error =>
        obtain ⟨hsocket, hlistener⟩ := @socket_retry s.listener.url_ deadline s error r false
        refine ⟨?_, ?_⟩
        · show (if s.listener.url_ = s.listener.url_ then
            socket s.listener.url_ false (retry deadline s error r).1 else none) = _
          rw [if_pos rfl, hsocket, hlistener, Bool.eq_false_of_not_eq_true hs]
        · rw [hlistener]
      | ok _ =>
        have hlisten := @socket_listen s.listener.url_ deadline
          { s with listener := { s.listener with connected_ := true }, retries := 0 } r rfl
        refine ⟨?_, hlisten.2⟩
        show (if s.listener.url_ = s.listener.url_ then _ else none) = _
        rw [if_pos rfl]
        exact hlisten.1

theorem socket_receiveLoop (deadline : Option ℤ) (s : Loop) (rounds : List Round)
    (hurl : s.listener.url_ = url) :
    socket url s.listener.connected_ (receiveLoop deadline s rounds).events =
        some (receiveLoop deadline s rounds).listener.connected_ ∧
      (receiveLoop deadline s rounds).listener.url_ = url := by
  induction rounds generalizing s with
  | nil => exact ⟨socket_nil _, hurl⟩
  | cons r rounds ih =>
    have hround := socket_iterate deadline s r hurl
    rw [receiveLoop]
    rcases hnext : iterate deadline s r with ⟨events, next⟩
    rw [hnext] at hround
    cases next with
    | done listener result => exact hround
    | again s' =>
      obtain ⟨hsocket, hurl'⟩ := hround
      obtain ⟨hlater, hurl''⟩ := ih s' hurl'
      refine ⟨?_, hurl''⟩
      show socket url s.listener.connected_ (events ++ _) = _
      rw [socket_append, hsocket]
      exact hlater

theorem socket_connect (listener : Listener) (answer : Result Unit) (hurl : listener.url_ = url) :
    socket url listener.connected_ (listener.connect answer).1 =
        some (listener.connect answer).2.1.connected_ ∧
      (listener.connect answer).2.1.url_ = url := by
  unfold Listener.connect
  split
  · exact ⟨socket_nil _, hurl⟩
  · rename_i hconnected
    rw [Bool.eq_false_of_not_eq_true hconnected, ← hurl]
    cases answer with
    | error error =>
      refine ⟨?_, rfl⟩
      simp only [socket, if_true]
      exact congrArg some (Bool.eq_false_of_not_eq_true hconnected).symm
    | ok _ =>
      refine ⟨?_, rfl⟩
      simp only [socket, if_true]
      rfl

/-- A listener that is done with its socket leaves it closed. -/
theorem socket_disconnect (listener : Listener) :
    socket url listener.connected_ listener.disconnect.1 = some false ∧
      listener.disconnect.2 = { listener with connected_ := false } := by
  unfold Listener.disconnect
  split
  · rename_i hconnected
    rw [hconnected]
    exact ⟨rfl, rfl⟩
  · rename_i hconnected
    have hfalse := Bool.eq_false_of_not_eq_true hconnected
    rw [hfalse]
    refine ⟨rfl, ?_⟩
    rw [← hfalse]

/-- The listener knows whether its socket is open, and has used it accordingly. -/
def State.Disciplined (url : Str) (s : State) : Prop :=
  socket url false s.trace = some s.listener.connected_ ∧ s.listener.url_ = url

theorem disciplined_step {s s' : State} {label : Label} (hs : s.Disciplined url)
    (h : step s label = some s') : s'.Disciplined url := by
  obtain ⟨htrace, hurl⟩ := hs
  cases label with
  | connect answer =>
    obtain rfl := Option.some.inj h
    obtain ⟨hsocket, hurl'⟩ := socket_connect s.listener answer hurl
    refine ⟨?_, hurl'⟩
    rw [socket_append, htrace]
    exact hsocket
  | disconnect =>
    obtain rfl := Option.some.inj h
    obtain ⟨hsocket, hlistener⟩ := @socket_disconnect url s.listener
    refine ⟨?_, ?_⟩
    · show socket url false (s.trace ++ _) = some s.listener.disconnect.2.connected_
      rw [socket_append, htrace, hlistener]
      exact hsocket
    · show s.listener.disconnect.2.url_ = url
      rw [hlistener]
      exact hurl
  | receiveMessage timeout startedAt rounds =>
    obtain ⟨result, -, rfl⟩ := step_receiveMessage h
    obtain ⟨hsocket, hurl'⟩ := socket_receiveLoop (deadlineOf timeout startedAt)
      { listener := s.listener } rounds hurl
    refine ⟨?_, hurl'⟩
    rw [socket_append, htrace]
    exact hsocket

/-- **The web socket is used only while it is open**, and opened only while it is not and to
the url of the channel, in every state of every run: a receive, an acknowledgement or a close
always has the last successful connect before it, with no failure in between. -/
theorem disciplined_run (url : Str) (labels : List Label) :
    Runs.AllStates step (fun s => socket url false s.trace = some s.listener.connected_)
      { listener := { url_ := url } } labels := by
  have hall : Runs.AllStates step (State.Disciplined url) { listener := { url_ := url } } labels :=
    Runs.AllStates.of_run step (fun _ _ _ hs _ hstep => disciplined_step hs hstep) ⟨rfl, rfl⟩
      (Runs.allSteps_true step _ labels)
  exact hall.imp step (fun _ hs => hs.1)

end Socket

/-! ## Deadlines -/

/-- Each receive directly follows a reading of the clock, and ends by the deadline. -/
def InTime (d : ℤ) : Option ℤ → List Event → Prop
  | _, [] => True
  | _, .clock t :: trace => InTime d (some t) trace
  | some t, .receive slice _ :: trace =>
    0 < slice ∧ slice ≤ idleSlice ∧ t + slice * millisecond ≤ d ∧ InTime d none trace
  | none, .receive _ _ :: _ => False
  | _, _ :: trace => InTime d none trace

/-- Every reading of the clock comes before the deadline. -/
def Early (d : ℤ) (trace : List Event) : Prop := ∀ t, Event.clock t ∈ trace → t < d

/-- A reading of the clock at the deadline or after it is the last event. -/
def LateLast (d : ℤ) (trace : List Event) : Prop :=
  ∀ before t after, trace = before ++ .clock t :: after → d ≤ t → after = []

/-- What a failure of the socket is: a refused connect, or a receive that neither timed out
nor was cancelled. -/
def Event.failure : Event → Option Error
  | connect _ (.error error) => some error
  | receive _ (.error error) =>
    if error.kind = .canceled ∨ isCode error "E_TIMEOUT" then none else some error
  | _ => none

/-- The last failure of the socket. -/
def lastFailure (trace : List Event) : Option Error := (trace.filterMap Event.failure).getLast?

/-- The token was found cancelled in this round. -/
def Round.Cancelled (r : Round) : Prop :=
  r.cancelled = true ∨ r.waitCancelled = true ∨ ∃ error, r.receive = .error error ∧
    error.kind = .canceled

/-- Whenever the clock is read in this round, the deadline has passed. -/
def Round.Late (r : Round) (d : ℤ) : Prop := d ≤ r.now ∧ d ≤ r.failedAt

/-- An error after the deadline: the clock was read less than a millisecond before it or
later, and the error has the text of the last failure. -/
def TimedOut (deadline : Option ℤ) (lastError : Option Error) (trace : List Event) (error : Error) :
    Prop :=
  ∃ d t, deadline = some d ∧ trace.getLast? = some (.clock t) ∧ d < t + millisecond ∧
    error = timedOut ((lastFailure trace).or lastError)

theorem lastFailure_append (xs ys : List Event) :
    lastFailure (xs ++ ys) = (lastFailure ys).or (lastFailure xs) := by
  unfold lastFailure
  rw [List.filterMap_append, List.getLast?_append]

theorem lastFailure_cons (event : Event) (trace : List Event) :
    lastFailure (event :: trace) = (lastFailure trace).or event.failure := by
  have happend := lastFailure_append [event] trace
  rw [List.singleton_append] at happend
  rw [happend]
  congr 1
  unfold lastFailure
  cases hfailure : event.failure with
  | none => simp [hfailure]
  | some error => simp [hfailure]

/-- What was read before does not matter to a trace that needs no reading. -/
theorem InTime.mono {d : ℤ} {trace : List Event} (h : InTime d none trace) (last : Option ℤ) :
    InTime d last trace := by
  cases trace with
  | nil => trivial
  | cons event trace =>
    cases event with
    | receive slice answer => exact absurd h id
    | connect | clock | send | wait | close => cases last <;> exact h

theorem InTime.append {d : ℤ} {last : Option ℤ} {xs ys : List Event} (h : InTime d last xs)
    (h' : InTime d none ys) : InTime d last (xs ++ ys) := by
  induction xs generalizing last with
  | nil => exact h'.mono last
  | cons event xs ih =>
    cases event with
    | receive slice answer =>
      cases last with
      | none => exact absurd h id
      | some t =>
        obtain ⟨hpos, hslice, hend, hrest⟩ := h
        exact ⟨hpos, hslice, hend, ih hrest⟩
    | connect | clock | send | wait | close => cases last <;> exact ih h

theorem LateLast.of_early {d : ℤ} {trace : List Event} (h : Early d trace) : LateLast d trace := by
  rintro before t after rfl hlate
  have ht := h t (by simp)
  omega

/-- A late reading after early ones. -/
theorem LateLast.append {d : ℤ} {xs ys : List Event} (h : Early d xs) (h' : LateLast d ys) :
    LateLast d (xs ++ ys) := by
  intro before t after heq hlate
  rcases List.append_eq_append_iff.mp heq with ⟨mid, rfl, hys⟩ | ⟨mid, hxs, hmid⟩
  · exact h' mid t after hys hlate
  · cases mid with
    | nil => exact h' [] t after (by simpa using hmid.symm) hlate
    | cons event mid =>
      rw [List.cons_append, List.cons.injEq] at hmid
      have ht := h t (by rw [hxs, ← hmid.1]; simp)
      omega

/-- What a deadline does to a part of a round, as far as the rest of the call is concerned:
the events, and where they lead to. -/
structure Punctual (deadline : Option ℤ) (lastError : Option Error) (r : Round)
    (out : List Event × Exit) : Prop where
  inTime : ∀ d, deadline = some d → InTime d none out.1
  lateLast : ∀ d, deadline = some d → LateLast d out.1
  again : ∀ s, out.2 = .again s → s.lastError = (lastFailure out.1).or lastError ∧
    ∀ d, deadline = some d → Early d out.1
  failed : ∀ listener error, out.2 = .done listener (.error error) →
    (error = cancelled ∧ r.Cancelled) ∨ TimedOut deadline lastError out.1 error

theorem TimedOut.after {deadline : Option ℤ} {lastError : Option Error} {xs ys : List Event}
    {error : Error} (h : TimedOut deadline ((lastFailure xs).or lastError) ys error) :
    TimedOut deadline lastError (xs ++ ys) error := by
  obtain ⟨d, t, hd, hget, hlate, herror⟩ := h
  refine ⟨d, t, hd, ?_, hlate, ?_⟩
  · rw [List.getLast?_append, hget]
    rfl
  · rw [herror, lastFailure_append, Option.or_assoc]

/-- Events before the rest of a round, all of them early. -/
theorem Punctual.after {deadline : Option ℤ} {lastError : Option Error} {r : Round}
    {events : List Event} {next : Exit} (xs : List Event)
    (hearly : ∀ d, deadline = some d → Early d xs)
    (hin : ∀ d, deadline = some d → InTime d none events → InTime d none (xs ++ events))
    (h : Punctual deadline ((lastFailure xs).or lastError) r (events, next)) :
    Punctual deadline lastError r (xs ++ events, next) where
  inTime d hd := hin d hd (h.inTime d hd)
  lateLast d hd := LateLast.append (hearly d hd) (h.lateLast d hd)
  again s hs := by
    obtain ⟨hlast, hrest⟩ := h.again s hs
    refine ⟨?_, fun d hd t ht => ?_⟩
    · rw [hlast, lastFailure_append, Option.or_assoc]
    · rcases List.mem_append.mp ht with ht | ht
      · exact hearly d hd t ht
      · exact hrest d hd t ht
  failed listener error hdone := (h.failed listener error hdone).imp_right TimedOut.after

/-- Nothing more to do. -/
theorem punctual_nil {deadline : Option ℤ} {lastError : Option Error} {r : Round} {next : Exit}
    (hagain : ∀ s, next = .again s → s.lastError = lastError)
    (hfailed : ∀ listener error, next = .done listener (.error error) →
      error = cancelled ∧ r.Cancelled) : Punctual deadline lastError r ([], next) where
  inTime _ _ := trivial
  lateLast _ _ := LateLast.of_early (by simp [Early])
  again s hs := ⟨hagain s hs, by simp [Early]⟩
  failed listener error hdone := .inl (hfailed listener error hdone)

/-- The clock was read too late. -/
theorem punctual_timedOut {d t : ℤ} (lastError : Option Error) (r : Round) (listener : Listener)
    (hlate : d < t + millisecond) :
    Punctual (some d) lastError r ([.clock t], .done listener (.error (timedOut lastError))) where
  inTime _ _ := trivial
  lateLast d' _ := by
    intro before t' after h _
    cases before with
    | nil => exact (List.cons.inj h).2.symm
    | cons event before =>
      have hnil := (List.cons.inj h).2
      simp at hnil
  again s hs := by cases hs
  failed _ error hdone := by
    cases hdone
    exact .inr ⟨d, t, rfl, rfl, hlate, rfl⟩

theorem early_clock {d t : ℤ} (h : t < d) : Early d [.clock t] := by
  intro t' ht'
  cases List.mem_singleton.mp ht'
  exact h

theorem punctual_retry (deadline : Option ℤ) (s : Loop) (error : Error) (r : Round) :
    Punctual deadline (some error) r (retry deadline s error r) := by
  have hwait : Punctual deadline (some error) r ([.wait (backoff s.retries) r.waitCancelled] ++ [],
      if r.waitCancelled then .done s.listener (.error cancelled)
      else .again { s with lastError := some error, retries := s.retries + 1 }) := by
    refine Punctual.after _ (by simp [Early]) (fun _ _ h => h) (punctual_nil ?_ ?_)
    · intro s' hs'
      split at hs'
      · cases hs'
      · cases hs'
        rfl
    · intro listener e hdone
      split at hdone
      · rename_i hcancelled
        cases hdone
        exact ⟨rfl, .inr (.inl hcancelled)⟩
      · cases hdone
  unfold retry
  cases deadline with
  | none => exact hwait
  | some d =>
    simp only
    split
    · refine punctual_timedOut (some error) r s.listener ?_
      unfold millisecond
      omega
    · refine Punctual.after [.clock r.failedAt] ?_ (fun _ _ h => h) hwait
      intro d' hd'
      cases hd'
      exact early_clock (by omega)

theorem punctual_handle (deadline : Option ℤ) (s : Loop) (bytes : Bytes) (r : Round) :
    Punctual deadline s.lastError r (handle s bytes) := by
  unfold handle
  split
  · refine Punctual.after [.send _] (by simp [Early]) (fun _ _ h => h)
      (punctual_nil ?_ ?_)
    · intro s' hs'
      split at hs'
      · cases hs'
        rfl
      · cases hs'
    · intro listener e hdone
      split at hdone <;> cases hdone
  · exact punctual_nil (by simp) (by simp)

/-- What follows a receive. -/
theorem punctual_received (deadline : Option ℤ) (s : Loop) (slice : ℤ) (r : Round) :
    ∃ events, (receiveFor deadline s slice r).1 = .receive slice r.receive :: events ∧
      Punctual deadline ((lastFailure [.receive slice r.receive]).or s.lastError) r
        (events, (receiveFor deadline s slice r).2) := by
  unfold receiveFor
  cases hreceive : r.receive with
  | ok bytes => exact ⟨_, rfl, punctual_handle deadline s bytes r⟩
  | error error =>
    simp only
    split
    · rename_i hcanceled
      refine ⟨_, rfl, punctual_nil (by simp) ?_⟩
      intro listener e hdone
      cases hdone
      exact ⟨rfl, .inr (.inr ⟨error, hreceive, hcanceled⟩)⟩
    · rename_i hcanceled
      split
      · rename_i htimeout
        refine ⟨_, rfl, punctual_nil ?_ (by simp)⟩
        intro s' hs'
        cases hs'
        simp [lastFailure, Event.failure, htimeout]
      · rename_i htimeout
        refine ⟨_, rfl, ?_⟩
        have hfailure : lastFailure [.receive slice (.error error)] = some error := by
          simp [lastFailure, Event.failure, hcanceled, htimeout]
        rw [hfailure]
        exact punctual_retry deadline _ error r

/-- No whole millisecond is left once the time has passed. -/
theorem tdiv_millisecond_nonpos {left : ℤ} (h : left ≤ 0) : left.tdiv millisecond ≤ 0 := by
  have hneg : 0 ≤ (-left).tdiv millisecond := Int.tdiv_nonneg (by omega) (by decide)
  rw [Int.neg_tdiv] at hneg
  omega

/-- What fits into the time that is left ends by the deadline. -/
theorem slice_inTime {d now : ℤ} (h : ¬ (d - now).tdiv millisecond ≤ 0) :
    0 < min ((d - now).tdiv millisecond) idleSlice ∧
      min ((d - now).tdiv millisecond) idleSlice ≤ idleSlice ∧
      now + min ((d - now).tdiv millisecond) idleSlice * millisecond ≤ d ∧ now < d := by
  have hpos : 0 < d - now := by
    by_contra hneg
    exact h (tdiv_millisecond_nonpos (by omega))
  have hmul : (d - now).tdiv millisecond * millisecond ≤ d - now := by
    rw [Int.tdiv_eq_ediv_of_nonneg hpos.le]
    exact Int.ediv_mul_le _ (by decide)
  have hmin : min ((d - now).tdiv millisecond) idleSlice ≤ (d - now).tdiv millisecond :=
    min_le_left _ _
  have hslice : (0 : ℤ) < idleSlice := by decide
  refine ⟨lt_min (by omega) hslice, min_le_right _ _, ?_, by omega⟩
  have hle := Int.mul_le_mul_of_nonneg_right hmin (show (0 : ℤ) ≤ millisecond by decide)
  omega

theorem punctual_listen (deadline : Option ℤ) (s : Loop) (r : Round) :
    Punctual deadline s.lastError r (listen deadline s r) := by
  unfold listen
  cases deadline with
  | none =>
    obtain ⟨events, hevents, hrest⟩ := punctual_received none s idleSlice r
    have hall := Punctual.after [.receive idleSlice r.receive] (by simp) (by simp) hrest
    rw [List.singleton_append, ← hevents] at hall
    exact hall
  | some d =>
    simp only
    split
    · rename_i hlate
      refine punctual_timedOut s.lastError r s.listener ?_
      by_contra hearly
      have hone : (1 : ℤ) ≤ (d - r.now).tdiv millisecond :=
        Int.le_tdiv_of_mul_le (by decide) (by omega)
      omega
    · rename_i hleft
      obtain ⟨hpos, hidle, hend, hnow⟩ := slice_inTime hleft
      obtain ⟨events, hevents, hrest⟩ := punctual_received (some d) s
        (min ((d - r.now).tdiv millisecond) idleSlice) r
      rw [hevents]
      refine Punctual.after [.clock r.now, .receive _ r.receive] ?_ ?_ hrest
      · intro d' hd' t ht
        cases hd'
        simp only [List.mem_cons, Event.clock.injEq, reduceCtorEq, List.not_mem_nil, or_false] at ht
        omega
      · intro d' hd' hin
        cases hd'
        exact ⟨hpos, hidle, hend, hin⟩

/-- **One round** keeps to the deadline. -/
theorem punctual_iterate (deadline : Option ℤ) (s : Loop) (r : Round) :
    Punctual deadline s.lastError r (iterate deadline s r) := by
  unfold iterate
  split
  · rename_i hcancelled
    refine punctual_nil (by simp) ?_
    intro listener e hdone
    cases hdone
    exact ⟨rfl, .inl hcancelled⟩
  · split
    · exact punctual_listen deadline s r
    · cases r.connect with
      | error error =>
        exact Punctual.after [.connect s.listener.url_ (.error error)] (by simp [Early])
          (fun _ _ h => h) (punctual_retry deadline s error r)
      | ok _ =>
        exact Punctual.after [.connect s.listener.url_ (.ok ())] (by simp [Early])
          (fun _ _ h => h) (punctual_listen deadline
            { s with listener := { s.listener with connected_ := true }, retries := 0 } r)

theorem retry_late {d : ℤ} {s : Loop} {error : Error} {r : Round} (h : d ≤ r.failedAt) :
    ∃ listener result, (retry (some d) s error r).2 = .done listener result := by
  unfold retry
  simp only [if_pos h]
  exact ⟨_, _, rfl⟩

theorem listen_late {d : ℤ} {s : Loop} {r : Round} (h : d ≤ r.now) :
    ∃ listener result, (listen (some d) s r).2 = .done listener result := by
  have hleft : (d - r.now).tdiv millisecond ≤ 0 := tdiv_millisecond_nonpos (by omega)
  unfold listen
  simp only [if_pos hleft]
  exact ⟨_, _, rfl⟩

/-- A late round is the last one. -/
theorem iterate_late {d : ℤ} {s : Loop} {r : Round} (h : r.Late d) :
    ∃ listener result, (iterate (some d) s r).2 = .done listener result := by
  unfold iterate
  split
  · exact ⟨_, _, rfl⟩
  · split
    · exact listen_late h.1
    · cases r.connect with
      | error error => exact retry_late h.2
      | ok _ => exact listen_late h.1

/-- What a deadline does to a call. -/
structure Course.Punctual (deadline : Option ℤ) (lastError : Option Error) (rounds : List Round)
    (c : Course) : Prop where
  inTime : ∀ d, deadline = some d → InTime d none c.events
  lateLast : ∀ d, deadline = some d → LateLast d c.events
  ends : ∀ d, deadline = some d → (∃ r ∈ rounds, r.Late d) → c.result ≠ none
  failed : ∀ error, c.result = some (.error error) →
    (error = cancelled ∧ ∃ r ∈ rounds, r.Cancelled) ∨ TimedOut deadline lastError c.events error

theorem punctual_receiveLoop (deadline : Option ℤ) (s : Loop) (rounds : List Round) :
    (receiveLoop deadline s rounds).Punctual deadline s.lastError rounds := by
  induction rounds generalizing s with
  | nil =>
    refine ⟨fun _ _ => trivial, fun _ _ => LateLast.of_early (by simp [receiveLoop, Early]), ?_, ?_⟩
    · rintro d - ⟨r, hr, -⟩
      cases hr
    · intro error herror
      cases herror
  | cons r rounds ih =>
    have hround := punctual_iterate deadline s r
    have hlate : ∀ d, deadline = some d → r.Late d →
        ∃ listener result, (iterate deadline s r).2 = .done listener result := by
      rintro d rfl h
      exact iterate_late h
    rw [receiveLoop]
    rcases hnext : iterate deadline s r with ⟨events, next⟩
    rw [hnext] at hround hlate
    cases next with
    | done listener result =>
      refine ⟨hround.inTime, hround.lateLast, fun _ _ _ => by simp, ?_⟩
      intro error herror
      refine (hround.failed listener error ?_).imp_left ?_
      · exact congrArg _ (Option.some.inj herror)
      · rintro ⟨hcancelled, hr⟩
        exact ⟨hcancelled, r, by simp, hr⟩
    | again s' =>
      have hlater := ih s'
      obtain ⟨hlast, hearly⟩ := hround.again s' rfl
      refine ⟨?_, ?_, ?_, ?_⟩
      · intro d hd
        exact (hround.inTime d hd).append (hlater.inTime d hd)
      · intro d hd
        exact LateLast.append (hearly d hd) (hlater.lateLast d hd)
      · rintro d hd ⟨r', hr', hr'late⟩
        rcases List.mem_cons.mp hr' with rfl | hr'
        · obtain ⟨listener, result, hdone⟩ := hlate d hd hr'late
          cases hdone
        · exact hlater.ends d hd ⟨r', hr', hr'late⟩
      · intro error herror
        rcases hlater.failed error herror with ⟨hcancelled, r', hr', hfound⟩ | htimedOut
        · exact .inl ⟨hcancelled, r', by simp [hr'], hfound⟩
        · rw [hlast] at htimedOut
          exact .inr htimedOut.after

end Buoy

end Dwarfkit
