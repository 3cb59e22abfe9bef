/-
# The action stream client

`ActionStreamClient` of `actionstream/client.cpp`: a pull client over a socket that
may fail at any time.  It numbers the actions of one socket, resumes from the last
global sequence it accepted, and acknowledges what it delivered.

The client's state and what it did so far, newest first, make up the system that the
results are about:

* `Bookkeeping.next` : what the counters mean, in every reachable state;
* `correct_iff_fresh` : a run delivers without gap or duplicate exactly when every
  action it delivers is at or past the resume position.
-/
import Dwarfkit.Antelope.Serializer.Traits
import Dwarfkit.Library.Runs

namespace Dwarfkit

namespace ActionStream

/-! ## Data -/

structure Filter where
  contracts : List Name := []
  receivers : List Name := []
  actions : List Name := []
  deriving DecidableEq, Repr

/-- `StreamAction`. -/
structure StreamAction where
  globalSeq : UInt64
  blockNum : UInt32
  blockTime : Int64
  contract : Name
  action : Name
  receiver : Name
  trxId : Checksum256
  hexData : Option Str
  data : Option Json
  deriving DecidableEq

/-- What the client does that can be seen from outside, in callbacks, on the wire
and to its consumer.  `dialed` opens a socket, `arrived` is an action frame with its
sub sequence, and `delivered` records the resume position the action met. -/
inductive Event where
  | dialed
  | sent (msg : Json)
  | connected
  | disconnected
  | heartbeat (headSeq libSeq : UInt64)
  | catchupComplete (headSeq libSeq : UInt64)
  | error (code : ℤ) (message : Str)
  | gap (expected received : ℤ) (resumeSeq : UInt64)
  | arrived (subSeq : Option ℤ)
  | acked (seq : UInt64)
  | delivered (action : StreamAction) (subSeq : Option ℤ) (resume : UInt64)

/-- The client's fields.  Those that only time the reconnects (backoff, health) are
left out.  `expectedSubSeq` starts at 1 with each socket; no value disables the check. -/
structure Client where
  filter : Filter := {}
  decode : Bool := true
  ackInterval : Int64 := 1000
  startAtHead : Bool := false
  hasTransport : Bool := true
  socketLive : Bool := false
  currentSeq : UInt64 := 0
  lastAcked : UInt64 := 0
  hasAcked : Bool := false
  closed : Bool := false
  connected : Bool := false
  catchupComplete : Bool := false
  headSeq : UInt64 := 0
  libSeq : UInt64 := 0
  expectedSubSeq : Option ℤ := some 1

/-- `ActionStreamOptions`, and the filter the client was made with. -/
structure Options where
  startSeq : Option UInt64 := none
  startAtHead : Bool := false
  decode : Bool := true
  ackInterval : Int64 := 1000
  webSocket : Bool := true

/-- The constructor. -/
def Client.make (filter : Filter) (options : Options) : Client where
  filter := filter
  decode := options.decode
  ackInterval := options.ackInterval
  startAtHead := options.startAtHead
  hasTransport := options.webSocket
  currentSeq := if options.startAtHead then 0 else options.startSeq.getD 0

/-! ## The socket -/

/-- `teardownSocket`. -/
def teardownSocket (c : Client) : Client := { c with socketLive := false, connected := false }

/-- A filter list of the subscribe message, left out when empty. -/
def filterMember (key : Str) (names : List Name) : List (Str × Json) :=
  if names = [] then [] else [(key, .arr (names.map (fun n => .str n.toString)))]

/-- The message of `sendSubscribe`: resume after the last accepted action, or start
past the head. -/
def subscribeMessage (c : Client) : Json :=
  .obj ([(lit "type", .str "subscribe")] ++ filterMember "contracts" c.filter.contracts ++
    filterMember "receivers" c.filter.receivers ++ filterMember "actions" c.filter.actions ++
    (if 0 < c.currentSeq then [(lit "start_seq", .str (natToString c.currentSeq.toNat))]
     else if c.startAtHead then [(lit "start_seq", .str (natToString 0xffffffffffffffff))]
     else []) ++
    [(lit "decode", .bool c.decode)])

/-- `dial`, with the transport's answer: the per-socket fields are reset first. -/
def dial (c : Client) (connect : Result Unit) : Client × List Event × Result Unit :=
  if !c.hasTransport then (c, [], err .invalid "No WebSocket transport configured")
  else
    let c := { c with expectedSubSeq := some 1 }
    match connect with
    | .error e => (c, [.dialed], .error e)
    | .ok () =>
      ({ c with socketLive := true, connected := true },
        [.connected, .sent (subscribeMessage c), .dialed], .ok ())

/-! ## Incoming messages -/

/-- `jsonNum`, cut to an integer. -/
def jsonNumInt (p : Platform) (j : Json) (key : Str) : ℤ :=
  match (j.find key).bind (Json.getDouble p) with
  | some d => d.trunc
  | none => 0

/-- The sub sequence check of an action frame. -/
inductive SubSeqCheck where
  | pass (expected : Option ℤ) (subSeq : Option ℤ)
  | gap (expected received : ℤ)
  deriving DecidableEq

/-- The gap detection of `handleMessage`: an omitted `sub_seq` disables checking for
this socket. -/
def checkSubSeq (expected : Option ℤ) (msg : Json) : Result SubSeqCheck :=
  match msg.find "sub_seq", expected with
  | none, _ => .ok (.pass none none)
  | some sub, none => .ok (.pass none sub.getInt64.toOption)
  | some sub, some e => do
    let received ← sub.getInt64
    if received ≠ e then return .gap e received else return .pass (some (received + 1)) (some received)

/-- Has the frame a `trx_id` that is a non-empty string? -/
def trxIdOf (msg : Json) : Option Str :=
  match msg.find "trx_id" with
  | some (.str s) => if s = [] then none else some s
  | _ => none

/-- The action a frame carries. -/
def parseAction (p : Platform) (msg : Json) (trxId : Str) : Result StreamAction := do
  let action ← msg.valueStr "action" ""
  let receiver ← msg.valueStr "receiver" ""
  let id ← Checksum.ofHex 32 trxId
  return {
    globalSeq := msg.jsonUInt64 "global_seq"
    blockNum := (msg.jsonUInt64 "block_num").toUInt32
    blockTime := Int64.ofInt (jsonNumInt p msg "block_time")
    contract := .ofString (msg.jsonStr "contract")
    action := .ofString action
    receiver := .ofString receiver
    trxId := id
    hexData := match msg.find "hex_data" with
      | some (.str s) => some s
      | _ => none
    data := msg.find "data" }

/-- `acceptSeq`. -/
def acceptSeq (c : Client) (action : StreamAction) : Client :=
  if action.globalSeq < c.currentSeq then c else { c with currentSeq := action.globalSeq + 1 }

/-- `ackSeq`: past the last acknowledged one by at least the interval. -/
def ackSeq (c : Client) (action : StreamAction) : Client × List Event :=
  if c.ackInterval ≤ 0 then (c, [])
  else if c.hasAcked ∧ action.globalSeq ≤ c.lastAcked then (c, [])
  else if c.ackInterval.toUInt64 ≤ action.globalSeq - c.lastAcked then
    ({ c with lastAcked := action.globalSeq, hasAcked := true },
      if c.hasTransport ∧ c.socketLive then
        [.acked action.globalSeq, .sent (.obj [(lit "type", .str "ack"),
          (lit "seq", .str (natToString action.globalSeq.toNat))])]
      else [])
  else (c, [])

/-- The action part of `handleMessage`. -/
def handleAction (p : Platform) (c : Client) (msg : Json) :
    Client × List Event × Result (Option StreamAction) :=
  match checkSubSeq c.expectedSubSeq msg with
  | .error e => (c, [], .error e)
  | .ok (.gap expected received) =>
    (teardownSocket c,
      [.disconnected, .gap expected received c.currentSeq, .arrived (some received)], .ok none)
  | .ok (.pass expected subSeq) =>
    let c := { c with expectedSubSeq := expected }
    match trxIdOf msg with
    | none =>
      (c, [.error 5 (lit "Action " ++ msg.jsonStr "global_seq" ++ lit " arrived without a trx_id"),
        .arrived subSeq], .ok none)
    | some trxId =>
      match parseAction p msg trxId with
      | .error e => (c, [.arrived subSeq], .error e)
      | .ok action =>
        let (c', acks) := ackSeq (acceptSeq c action) action
        (c', .delivered action subSeq c.currentSeq :: acks ++ [.arrived subSeq], .ok (some action))

/-- `handleMessage`, on the parsed frame: none for text that is no json. -/
def handleMessage (p : Platform) (c : Client) (data : Option Json) :
    Client × List Event × Result (Option StreamAction) :=
  match data with
  | none => (c, [], .ok none)
  | some msg =>
    if !msg.isObject then (c, [], .ok none)
    else
      match msg.valueStr "type" "" with
      | .error e => (c, [], .error e)
      | .ok type =>
        let head := msg.jsonUInt64 "head_seq"
        let lib := msg.jsonUInt64 "lib_seq"
        if type = lit "heartbeat" then
          ({ c with headSeq := head, libSeq := lib }, [.heartbeat head lib], .ok none)
        else if type = lit "catchup_complete" then
          ({ c with headSeq := head, libSeq := lib, catchupComplete := true },
            [.catchupComplete head lib], .ok none)
        else if type = lit "error" then
          (c, [.error (jsonNumInt p msg "code") (msg.jsonStr "message")], .ok none)
        else if type ≠ lit "action" then (c, [], .ok none)
        else handleAction p c msg

/-! ## Pumping the socket -/

/-- What the surroundings answer during one `pumpOnce`: the dial at its start, the
receive (a parsed frame or an error), whether the backoff wait is canceled, and the
dial after a socket failure. -/
structure Surroundings where
  slice : Bool := false
  dial : Result Unit := .ok ()
  receive : Except Error (Option Json)
  waitCanceled : Bool := false
  redial : Result Unit := .ok ()

/-- `isTimeout`: reading the details of a transport error that has none throws. -/
def isTimeout (e : Error) : Result Bool :=
  if e.kind = .transport then do
    let code ← e.details.valueStr "code" ""
    return code = lit "E_TIMEOUT"
  else .ok false

/-- The start of `pumpOnce`: dial if there is no socket. -/
def ensureLive (c : Client) (connect : Result Unit) : Client × List Event × Result Unit :=
  if c.socketLive then (c, [], .ok ())
  else if !c.connected && !c.closed then dial c connect
  else (c, [], err .transport "Socket is not connected")

/-- The reconnect of `pumpOnce` after a socket failure. -/
def reconnect (c : Client) (waitCanceled : Bool) (redial : Result Unit) :
    Client × List Event × Result (Option StreamAction) :=
  let lost : List Event := if c.connected then [.disconnected] else []
  let c := teardownSocket c
  if c.closed then (c, lost, err .canceled "Client closed")
  else if waitCanceled then (c, lost, err .canceled "Client closed")
  else
    let (c, events, result) := dial c redial
    (c, events ++ lost, (fun _ => none) <$> result)

/-- The receive error part of `pumpOnce`. -/
def receiveError (c : Client) (e : Error) (env : Surroundings) :
    Client × List Event × Result (Option StreamAction) :=
  match isTimeout e with
  | .error thrown => (c, [], .error thrown)
  | .ok timeout =>
    if timeout && env.slice then (c, [], .error e)
    else if e.kind = .canceled then (c, [], .error e)
    else if timeout then (c, [], .ok none)
    else reconnect c env.waitCanceled env.redial

/-- `pumpOnce`. -/
def pumpOnce (p : Platform) (c : Client) (env : Surroundings) :
    Client × List Event × Result (Option StreamAction) :=
  match ensureLive c env.dial with
  | (c, opened, .error e) => (c, opened, .error e)
  | (c, opened, .ok ()) =>
    let (c, events, result) := match env.receive with
      | .ok data => handleMessage p c data
      | .error e => receiveError c e env
    (c, events ++ opened, result)

/-- `close`. -/
def close (c : Client) : Client × List Event :=
  if c.closed then (c, [])
  else (teardownSocket { c with closed := true }, if c.connected then [.disconnected] else [])

/-- `connect`. -/
def connect (c : Client) (answer : Result Unit) : Client × List Event × Result Unit :=
  if c.closed then (c, [], err .invalid "Client is closed") else dial c answer

/-! ## The system -/

/-- The client and what it did, newest first. -/
structure State where
  client : Client
  trace : List Event := []

/-- What its user does next: pump the socket once (as `next` and `nextWithTimeout` do
in their loops), close the client, or connect it. -/
inductive Label where
  | pump (env : Surroundings)
  | close
  | connect (answer : Result Unit)

/-- One step. -/
def next (p : Platform) (s : State) : Label → State
  | .pump env =>
    let (c, events, _) := pumpOnce p s.client env
    { client := c, trace := events ++ s.trace }
  | .close =>
    let (c, events) := close s.client
    { client := c, trace := events ++ s.trace }
  | .connect answer =>
    let (c, events, _) := connect s.client answer
    { client := c, trace := events ++ s.trace }

/-- The step function of the system; every step can be taken. -/
def step (p : Platform) (s : State) (l : Label) : Option State := some (next p s l)

/-! ## What the trace says -/

/-- Global sequences of the delivered actions, newest first. -/
def deliveredSeqs (tr : List Event) : List ℕ :=
  tr.filterMap (fun
    | .delivered action _ _ => some action.globalSeq.toNat
    | _ => none)

/-- Acknowledged sequences, newest first. -/
def ackedSeqs (tr : List Event) : List ℕ :=
  tr.filterMap (fun
    | .acked seq => some seq.toNat
    | _ => none)

/-- Sub sequences that arrived on the current socket, newest first. -/
def currentSocket : List Event → List (Option ℤ)
  | [] => []
  | .dialed :: _ => []
  | .arrived sub :: past => sub :: currentSocket past
  | _ :: past => currentSocket past

/-- The sub sequences `1, …, n`. -/
def subSeqsUpTo (n : ℤ) : List (Option ℤ) :=
  (List.range n.toNat).map (fun i : ℕ => some ((i : ℤ) + 1))

/-- An action with sub sequence `n` is delivered only after exactly `1, …, n - 1`, as
long as every action of its socket carried one. -/
def Contiguous : List Event → Prop
  | [] => True
  | .delivered _ subSeq _ :: past =>
    (∀ n, subSeq = some n → none ∉ currentSocket past →
      1 ≤ n ∧ (currentSocket past).reverse = subSeqsUpTo n) ∧ Contiguous past
  | _ :: past => Contiguous past

/-- No action is delivered below the resume position it met. -/
def NoneReplayed (tr : List Event) : Prop :=
  ∀ action subSeq resume, Event.delivered action subSeq resume ∈ tr →
    resume.toNat ≤ action.globalSeq.toNat

/-- Delivery without gap or duplicate. -/
structure Correct (s : State) : Prop where
  increasing : (deliveredSeqs s.trace).Pairwise (· > ·)
  noneReplayed : NoneReplayed s.trace
  contiguous : Contiguous s.trace
  resume : ∀ g, (deliveredSeqs s.trace).head? = some g → s.client.currentSeq.toNat = g + 1
  acksIncreasing : (ackedSeqs s.trace).Pairwise (· > ·)
  acksDelivered : ∀ a ∈ ackedSeqs s.trace, ∃ g, (deliveredSeqs s.trace).head? = some g ∧ a ≤ g

/-- What the expected sub sequence says about the arrivals on its socket: they are
`1, …, e - 1` when `e` is expected, and one of them had none when nothing is. -/
def SocketCount (expected : Option ℤ) (arrivals : List (Option ℤ)) : Prop :=
  match expected with
  | some e => 1 ≤ e ∧ arrivals.reverse = subSeqsUpTo (e - 1)
  | none => none ∈ arrivals

/-- What the client's counters mean. -/
structure Bookkeeping (s : State) : Prop where
  socket : s.client.socketLive = true →
    SocketCount s.client.expectedSubSeq (currentSocket s.trace)
  acked : if s.client.hasAcked then ∀ a ∈ ackedSeqs s.trace, a ≤ s.client.lastAcked.toNat
    else ackedSeqs s.trace = []
  contiguous : Contiguous s.trace
  acksIncreasing : (ackedSeqs s.trace).Pairwise (· > ·)

/-! ## What a step can do -/

/-- Events that tell nothing of sockets, arrivals, acknowledgements or deliveries. -/
def Quiet : Event → Prop
  | .dialed | .arrived _ | .acked _ | .delivered _ _ _ => False
  | _ => True

/-- The global counters are the same. -/
def SameCounters (c d : Client) : Prop :=
  d.currentSeq = c.currentSeq ∧ d.lastAcked = c.lastAcked ∧ d.hasAcked = c.hasAcked

/-- How an arriving sub sequence moves the expected one on. -/
inductive Passes : Option ℤ → Option ℤ → Option ℤ → Prop
  | omitted (e : Option ℤ) : Passes e none none
  | counted (n : ℤ) : Passes (some n) (some n) (some (n + 1))
  | off (sub : Option ℤ) : Passes none sub none

/-- The changes that deliver nothing: quiet events, a dial, an arrival, and one after
the other of these. -/
inductive Silent : State → State → Prop
  | quiet {s t : State} (events : List Event) (hevents : ∀ e ∈ events, Quiet e)
      (htrace : t.trace = events ++ s.trace) (hsame : SameCounters s.client t.client)
      (hexp : t.client.expectedSubSeq = s.client.expectedSubSeq)
      (hlive : t.client.socketLive = true → s.client.socketLive = true) : Silent s t
  | dial {s t : State} (htrace : t.trace = .dialed :: s.trace)
      (hsame : SameCounters s.client t.client) (hexp : t.client.expectedSubSeq = some 1) :
      Silent s t
  | arrive {s t : State} (sub : Option ℤ) (htrace : t.trace = .arrived sub :: s.trace)
      (hsame : SameCounters s.client t.client) (hlive : s.client.socketLive = true)
      (hpass : t.client.socketLive = true →
        Passes s.client.expectedSubSeq sub t.client.expectedSubSeq) : Silent s t
  | trans {s t u : State} (hst : Silent s t) (htu : Silent t u) : Silent s u

/-- A delivery, right after its arrival was counted: the resume position moves, an
acknowledgement may be sent, and the action is handed out. -/
structure Delivers (s : State) (action : StreamAction) (t : State) : Prop where
  sub : ∃ sub, (currentSocket s.trace).head? = some sub ∧
    (∀ n, sub = some n → s.client.expectedSubSeq = some (n + 1) ∨
      s.client.expectedSubSeq = none) ∧
    t.trace = .delivered action sub s.client.currentSeq ::
      (ackSeq (acceptSeq s.client action) action).2 ++ s.trace
  client : t.client = (ackSeq (acceptSeq s.client action) action).1
  live : s.client.socketLive = true

/-- The action an incoming frame makes the client deliver, if any: an action frame in
sequence on its socket, with a transaction id that parses. -/
def accepted (p : Platform) (c : Client) (msg : Json) : Option StreamAction :=
  if msg.isObject ∧ (msg.valueStr "type" "").toOption = some (lit "action") then
    match checkSubSeq c.expectedSubSeq msg, trxIdOf msg with
    | .ok (.pass _ _), some trxId => (parseAction p msg trxId).toOption
    | _, _ => none
  else none

/-- The action a step delivers, if any. -/
def deliveredBy (p : Platform) (c : Client) : Label → Option StreamAction
  | .pump env =>
    match ensureLive c env.dial, env.receive with
    | (c, _, .ok ()), .ok (some msg) => accepted p c msg
    | _, _ => none
  | _ => none

/-- A counted sub sequence is the one before the next, unless counting is off. -/
theorem Passes.counted_or_off {e sub e' : Option ℤ} (h : Passes e sub e') {n : ℤ}
    (hn : sub = some n) : e' = some (n + 1) ∨ e' = none := by
  cases h with
  | omitted e => cases hn
  | counted m =>
    obtain rfl : m = n := Option.some.inj hn
    exact .inl rfl
  | off sub => exact .inr rfl

/-- A passing check moves the expected sub sequence on. -/
theorem checkSubSeq_passes {expected e sub : Option ℤ} {msg : Json}
    (h : checkSubSeq expected msg = .ok (.pass e sub)) : Passes expected sub e := by
  unfold checkSubSeq at h
  split at h
  · cases h
    exact .omitted _
  · cases h
    exact .off _
  · rw [bind_eq_ok] at h
    obtain ⟨received, -, h⟩ := h
    split at h
    · cases h
    · rename_i heq
      cases h
      rw [not_not.mp heq]
      exact .counted _

/-- Dialing resets the socket's count and touches nothing else of the counters. -/
theorem dial_silent (c : Client) (answer : Result Unit) (tr : List Event) :
    Silent { client := c, trace := tr }
      { client := (dial c answer).1, trace := (dial c answer).2.1 ++ tr } := by
  unfold dial
  by_cases htransport : c.hasTransport = true
  · simp only [htransport, Bool.not_true, Bool.false_eq_true, if_false]
    cases answer with
    | error e => exact .dial rfl ⟨rfl, rfl, rfl⟩ rfl
    | ok u =>
      refine .trans (t := {
        client := { c with expectedSubSeq := some 1, socketLive := true, connected := true }
        trace := .dialed :: tr }) (.dial rfl ⟨rfl, rfl, rfl⟩ rfl) ?_
      refine .quiet [.connected, .sent (subscribeMessage { c with expectedSubSeq := some 1 })]
        (fun e he => ?_) rfl ⟨rfl, rfl, rfl⟩ rfl (fun h => h)
      rcases List.mem_cons.mp he with rfl | he
      · trivial
      · rw [List.mem_singleton.mp he]
        trivial
  · simp only [Bool.not_eq_true] at htransport
    simp only [htransport, Bool.not_false, if_true]
    exact .quiet [] (by simp) rfl ⟨rfl, rfl, rfl⟩ rfl (fun h => h)

/-- Nothing happening is silent. -/
theorem Silent.refl (s : State) : Silent s s :=
  .quiet [] (by simp) rfl ⟨rfl, rfl, rfl⟩ rfl (fun h => h)

/-- The start of a pump is silent, and leaves a live socket when it succeeds. -/
theorem ensureLive_silent (c : Client) (answer : Result Unit) (tr : List Event) :
    Silent { client := c, trace := tr }
        { client := (ensureLive c answer).1, trace := (ensureLive c answer).2.1 ++ tr } ∧
      ((ensureLive c answer).2.2 = .ok () → (ensureLive c answer).1.socketLive = true) := by
  unfold ensureLive
  by_cases hlive : c.socketLive = true
  · rw [if_pos hlive]
    exact ⟨.refl _, fun _ => hlive⟩
  · rw [if_neg hlive]
    by_cases hdial : (!c.connected && !c.closed) = true
    · rw [if_pos hdial]
      refine ⟨dial_silent c answer tr, fun h => ?_⟩
      unfold dial at h ⊢
      split at h
      · cases h
      · rename_i htransport
        rw [if_neg htransport]
        cases answer with
        | error e => cases h
        | ok u => rfl
    · rw [if_neg hdial]
      refine ⟨.refl _, fun h => ?_⟩
      cases h

/-- Tearing the socket down, with or without the callback, is silent. -/
theorem teardown_silent (c d : Client) (hd : SameCounters c d)
    (hexp : d.expectedSubSeq = c.expectedSubSeq) (hlive : d.socketLive = false)
    (lost : Prop) [Decidable lost] (tr : List Event) :
    Silent { client := c, trace := tr }
      { client := d, trace := (if lost then [.disconnected] else []) ++ tr } := by
  refine .quiet (if lost then [.disconnected] else []) (fun e he => ?_) rfl hd hexp
    (fun h => ?_)
  · split at he
    · rw [List.mem_singleton.mp he]
      trivial
    · cases he
  · rw [hlive] at h
    cases h

/-- A reconnect is silent. -/
theorem reconnect_silent (c : Client) (waitCanceled : Bool) (redial : Result Unit)
    (tr : List Event) :
    Silent { client := c, trace := tr }
      { client := (reconnect c waitCanceled redial).1
        trace := (reconnect c waitCanceled redial).2.1 ++ tr } := by
  have hdown := teardown_silent c (teardownSocket c) ⟨rfl, rfl, rfl⟩ rfl rfl
    (c.connected = true) tr
  unfold reconnect
  by_cases hclosed : (teardownSocket c).closed = true
  · simp only [hclosed, if_true]
    exact hdown
  · simp only [hclosed, Bool.false_eq_true, if_false]
    by_cases hwait : waitCanceled = true
    · simp only [hwait, if_true]
      exact hdown
    · simp only [hwait, Bool.false_eq_true, if_false]
      have hdial := dial_silent (teardownSocket c) redial
        ((if c.connected = true then [.disconnected] else []) ++ tr)
      rw [← List.append_assoc] at hdial
      exact .trans hdown hdial

/-- A receive error is silent. -/
theorem receiveError_silent (c : Client) (e : Error) (env : Surroundings) (tr : List Event) :
    Silent { client := c, trace := tr }
      { client := (receiveError c e env).1, trace := (receiveError c e env).2.1 ++ tr } := by
  unfold receiveError
  cases isTimeout e with
  | error thrown => exact .refl _
  | ok timeout =>
    by_cases hslice : (timeout && env.slice) = true
    · simp only [hslice, if_true]
      exact .refl _
    · by_cases hkind : e.kind = .canceled
      · simp only [hslice, hkind, Bool.false_eq_true, if_false, if_true]
        exact .refl _
      · cases timeout with
        | true =>
          simp only [hslice, hkind, Bool.false_eq_true, if_false, if_true]
          exact .refl _
        | false =>
          simp only [hslice, hkind, Bool.false_eq_true, if_false]
          exact reconnect_silent c env.waitCanceled env.redial tr

/-- An arriving action frame either delivers nothing, or delivers its action once its
arrival is counted. -/
theorem handleAction_cases (p : Platform) (c : Client) (msg : Json) (tr : List Event)
    (hlive : c.socketLive = true) :
    let t : State := {
      client := (handleAction p c msg).1, trace := (handleAction p c msg).2.1 ++ tr }
    let delivered : Option StreamAction :=
      match checkSubSeq c.expectedSubSeq msg, trxIdOf msg with
      | .ok (.pass _ _), some trxId => (parseAction p msg trxId).toOption
      | _, _ => none
    (delivered = none ∧ Silent { client := c, trace := tr } t) ∨
      ∃ action mid, delivered = some action ∧ Silent { client := c, trace := tr } mid ∧
        Delivers mid action t := by
  intro t delivered
  cases hcheck : checkSubSeq c.expectedSubSeq msg with
  | error e =>
    refine .inl ⟨by simp only [delivered, hcheck], ?_⟩
    simp only [t, handleAction, hcheck]
    exact .refl _
  | ok check =>
    cases check with
    | gap expected received =>
      refine .inl ⟨by simp only [delivered, hcheck], ?_⟩
      simp only [t, handleAction, hcheck]
      refine .trans (t := { client := teardownSocket c, trace := .arrived (some received) :: tr })
        (.arrive (some received) rfl ⟨rfl, rfl, rfl⟩ hlive (fun h => by cases h)) ?_
      refine .quiet [.disconnected, .gap expected received c.currentSeq] (fun e he => ?_) rfl
        ⟨rfl, rfl, rfl⟩ rfl (fun h => h)
      rcases List.mem_cons.mp he with rfl | he
      · trivial
      · rw [List.mem_singleton.mp he]
        trivial
    | pass expected subSeq =>
      have hpass := checkSubSeq_passes hcheck
      -- the state in which the arrival is counted
      set mid : State := {
        client := { c with expectedSubSeq := expected }, trace := .arrived subSeq :: tr } with hmid
      have harrive : Silent { client := c, trace := tr } mid :=
        .arrive subSeq rfl ⟨rfl, rfl, rfl⟩ hlive (fun _ => hpass)
      cases htrx : trxIdOf msg with
      | none =>
        refine .inl ⟨by simp only [delivered, hcheck, htrx], .trans harrive ?_⟩
        simp only [t, handleAction, hcheck, htrx]
        refine .quiet [.error 5 (lit "Action " ++ msg.jsonStr "global_seq" ++
          lit " arrived without a trx_id")] (fun e he => ?_) rfl ⟨rfl, rfl, rfl⟩ rfl (fun h => h)
        rw [List.mem_singleton.mp he]
        trivial
      | some trxId =>
        cases hparse : parseAction p msg trxId with
        | error e =>
          refine .inl ⟨by simp only [delivered, hcheck, htrx, hparse]; rfl, .trans harrive ?_⟩
          simp only [t, handleAction, hcheck, htrx, hparse]
          exact .refl _
        | ok action =>
          refine .inr ⟨action, mid, by simp only [delivered, hcheck, htrx, hparse]; rfl,
            harrive, ?_⟩
          simp only [t, handleAction, hcheck, htrx, hparse]
          refine ⟨⟨subSeq, rfl, fun n hn => ?_, ?_⟩, rfl, hlive⟩
          · show expected = _ ∨ expected = _
            exact hpass.counted_or_off hn
          · simp [hmid]

/-- **What one message can do.** -/
theorem handleMessage_cases (p : Platform) (c : Client) (data : Option Json) (tr : List Event)
    (hlive : c.socketLive = true) :
    let t : State := {
      client := (handleMessage p c data).1, trace := (handleMessage p c data).2.1 ++ tr }
    (data.bind (accepted p c) = none ∧ Silent { client := c, trace := tr } t) ∨
      ∃ action mid, data.bind (accepted p c) = some action ∧
        Silent { client := c, trace := tr } mid ∧ Delivers mid action t := by
  intro t
  -- Every branch but the action's emits one event and keeps the counters.
  have hquiet : ∀ (d : Client) (event : Event), SameCounters c d →
      d.expectedSubSeq = c.expectedSubSeq → d.socketLive = c.socketLive → Quiet event →
      Silent { client := c, trace := tr } { client := d, trace := [event] ++ tr } := by
    intro d event hsame hexp hl hevent
    refine .quiet [event] (fun e he => ?_) rfl hsame hexp (fun h => by rw [← hl]; exact h)
    rw [List.mem_singleton.mp he]
    exact hevent
  cases data with
  | none => exact .inl ⟨rfl, .refl _⟩
  | some msg =>
    by_cases hobj : msg.isObject = true
    · cases htype : msg.valueStr "type" "" with
      | error e =>
        refine .inl ⟨by simp [accepted, htype, Except.toOption], ?_⟩
        simp only [t, handleMessage, hobj, htype]
        exact .refl _
      | ok type =>
        by_cases haction : type = lit "action"
        · subst haction
          have haccepted : (some msg).bind (accepted p c) =
              (match checkSubSeq c.expectedSubSeq msg, trxIdOf msg with
                | .ok (.pass _ _), some trxId => (parseAction p msg trxId).toOption
                | _, _ => none) := by
            simp [accepted, hobj, htype, Except.toOption]
          rw [haccepted]
          have ht : t = {
              client := (handleAction p c msg).1, trace := (handleAction p c msg).2.1 ++ tr } := by
            simp only [t, handleMessage, hobj, htype]
            rfl
          rw [ht]
          exact handleAction_cases p c msg tr hlive
        · refine .inl ⟨by simp [accepted, htype, Except.toOption, haction], ?_⟩
          -- The types are compared in the order of the source's chain of `else if`.
          have hobj' : ¬ (!msg.isObject) = true := by simp [hobj]
          simp only [t, handleMessage, if_neg hobj', htype]
          by_cases hheart : type = lit "heartbeat"
          · simp only [if_pos hheart]
            exact hquiet _ _ ⟨rfl, rfl, rfl⟩ rfl rfl trivial
          · by_cases hcatch : type = lit "catchup_complete"
            · simp only [if_neg hheart, if_pos hcatch]
              exact hquiet _ _ ⟨rfl, rfl, rfl⟩ rfl rfl trivial
            · by_cases herror : type = lit "error"
              · simp only [if_neg hheart, if_neg hcatch, if_pos herror]
                exact hquiet _ _ ⟨rfl, rfl, rfl⟩ rfl rfl trivial
              · simp only [if_neg hheart, if_neg hcatch, if_neg herror, if_pos haction]
                exact .refl _
    · refine .inl ⟨by simp [accepted, hobj], ?_⟩
      simp only [t, handleMessage, hobj]
      exact .refl _

/-- **What one step can do**: deliver nothing, or deliver one action after silent
changes. -/
theorem next_cases (p : Platform) (s : State) (l : Label) :
    (deliveredBy p s.client l = none ∧ Silent s (next p s l)) ∨
      ∃ action mid, deliveredBy p s.client l = some action ∧ Silent s mid ∧
        Delivers mid action (next p s l) := by
  obtain ⟨c, tr⟩ := s
  cases l with
  | pump env =>
    obtain ⟨hopen, hlive⟩ := ensureLive_silent c env.dial tr
    unfold deliveredBy next pumpOnce
    rcases hensure : ensureLive c env.dial with ⟨d, opened, result⟩
    rw [hensure] at hopen hlive
    cases result with
    | error e =>
      refine .inl ⟨by simp only [hensure], ?_⟩
      simp only [hensure]
      exact hopen
    | ok u =>
      cases hreceive : env.receive with
      | error e =>
        refine .inl ⟨by simp only [hensure, hreceive], ?_⟩
        simp only [hensure, hreceive, List.append_assoc]
        exact .trans hopen (receiveError_silent d e env (opened ++ tr))
      | ok data =>
        -- The message is handled by the client that `ensureLive` left, after its events.
        have hcases := handleMessage_cases p d data (opened ++ tr) (hlive rfl)
        have hdelivered : (match ensureLive c env.dial, env.receive with
            | (c, _, .ok ()), .ok (some msg) => accepted p c msg
            | _, _ => none) = data.bind (accepted p d) := by
          rw [hensure, hreceive]
          cases data <;> rfl
        simp only [hensure, hreceive, List.append_assoc] at hdelivered ⊢
        rw [hdelivered]
        rcases hcases with ⟨hnone, hsilent⟩ | ⟨action, mid, hsome, hsilent, hdeliver⟩
        · exact .inl ⟨hnone, .trans hopen hsilent⟩
        · exact .inr ⟨action, mid, hsome, .trans hopen hsilent, hdeliver⟩
  | close =>
    refine .inl ⟨rfl, ?_⟩
    unfold next close
    by_cases hclosed : c.closed = true
    · simp only [if_pos hclosed]
      exact .refl _
    · simp only [if_neg hclosed]
      exact teardown_silent c (teardownSocket { c with closed := true }) ⟨rfl, rfl, rfl⟩ rfl rfl
        (c.connected = true) tr
  | connect answer =>
    refine .inl ⟨rfl, ?_⟩
    unfold next connect
    by_cases hclosed : c.closed = true
    · simp only [if_pos hclosed]
      exact .refl _
    · simp only [if_neg hclosed]
      exact dial_silent c answer tr

/-! ## Silent changes -/

section Quiet

variable {events : List Event} (h : ∀ e ∈ events, Quiet e) (tr : List Event)

include h

theorem deliveredSeqs_quiet : deliveredSeqs (events ++ tr) = deliveredSeqs tr := by
  have hnone : events.filterMap (fun
      | .delivered action _ _ => some action.globalSeq.toNat
      | _ => none) = [] := by
    rw [List.filterMap_eq_nil_iff]
    intro e he
    have hq := h e he
    cases e <;> first | rfl | exact hq.elim
  rw [deliveredSeqs, List.filterMap_append, hnone, List.nil_append]
  rfl

theorem ackedSeqs_quiet : ackedSeqs (events ++ tr) = ackedSeqs tr := by
  have hnone : events.filterMap (fun
      | .acked seq => some seq.toNat
      | _ => none) = [] := by
    rw [List.filterMap_eq_nil_iff]
    intro e he
    have hq := h e he
    cases e <;> first | rfl | exact hq.elim
  rw [ackedSeqs, List.filterMap_append, hnone, List.nil_append]
  rfl

theorem currentSocket_quiet : currentSocket (events ++ tr) = currentSocket tr := by
  induction events with
  | nil => rfl
  | cons e rest ih =>
    have hq := h e (by simp)
    have hrest := ih (fun e he => h e (by simp [he]))
    cases e <;> first | exact hrest | exact hq.elim

theorem contiguous_quiet : Contiguous (events ++ tr) ↔ Contiguous tr := by
  induction events with
  | nil => rfl
  | cons e rest ih =>
    have hq := h e (by simp)
    have hrest := ih (fun e he => h e (by simp [he]))
    cases e <;> first | exact hrest | exact hq.elim

theorem noneReplayed_quiet : NoneReplayed (events ++ tr) ↔ NoneReplayed tr := by
  unfold NoneReplayed
  constructor
  · intro hall action sub resume hmem
    exact hall action sub resume (List.mem_append_right _ hmem)
  · intro hall action sub resume hmem
    rcases List.mem_append.mp hmem with hmem | hmem
    · exact (h _ hmem).elim
    · exact hall action sub resume hmem

end Quiet

/-- What silent changes keep of the trace and the counters. -/
structure Kept (s t : State) : Prop where
  delivered : deliveredSeqs t.trace = deliveredSeqs s.trace
  acked : ackedSeqs t.trace = ackedSeqs s.trace
  contiguous : Contiguous t.trace ↔ Contiguous s.trace
  noneReplayed : NoneReplayed t.trace ↔ NoneReplayed s.trace
  counters : SameCounters s.client t.client

/-- An event on top that is no delivery and no acknowledgement keeps the trace's
facts. -/
theorem kept_cons {s t : State} (e : Event) (htrace : t.trace = e :: s.trace)
    (hsame : SameCounters s.client t.client) (hd : ∀ a b r, e ≠ .delivered a b r)
    (ha : ∀ n, e ≠ .acked n) : Kept s t := by
  refine ⟨?_, ?_, ?_, ?_, hsame⟩
  · rw [htrace]
    cases e <;> first | rfl | exact absurd rfl (hd _ _ _)
  · rw [htrace]
    cases e <;> first | rfl | exact absurd rfl (ha _)
  · rw [htrace]
    cases e <;> first | exact Iff.rfl | exact absurd rfl (hd _ _ _)
  · rw [htrace]
    constructor
    · intro hall action sub resume hmem
      exact hall action sub resume (List.mem_cons_of_mem _ hmem)
    · intro hall action sub resume hmem
      rcases List.mem_cons.mp hmem with heq | hmem
      · exact absurd heq.symm (hd _ _ _)
      · exact hall action sub resume hmem

/-- Silent changes keep the counters, the deliveries and the acknowledgements. -/
theorem Silent.kept {s t : State} (h : Silent s t) : Kept s t := by
  induction h with
  | quiet events hevents htrace hsame hexp hlive =>
    refine ⟨?_, ?_, ?_, ?_, hsame⟩
    · rw [htrace, deliveredSeqs_quiet hevents]
    · rw [htrace, ackedSeqs_quiet hevents]
    · rw [htrace, contiguous_quiet hevents]
    · rw [htrace, noneReplayed_quiet hevents]
  | dial htrace hsame hexp => exact kept_cons .dialed htrace hsame (by simp) (by simp)
  | arrive sub htrace hsame hlive hpass =>
    exact kept_cons (.arrived sub) htrace hsame (by simp) (by simp)
  | trans _ _ hst htu =>
    obtain ⟨h1, h2, h3⟩ := hst.counters
    obtain ⟨k1, k2, k3⟩ := htu.counters
    exact ⟨htu.delivered.trans hst.delivered, htu.acked.trans hst.acked,
      htu.contiguous.trans hst.contiguous, htu.noneReplayed.trans hst.noneReplayed,
      k1.trans h1, k2.trans h2, k3.trans h3⟩

/-! ## The counters' meaning -/

/-- The sub sequences up to `n` end with `n`. -/
theorem subSeqsUpTo_eq_concat {n : ℤ} (hn : 1 ≤ n) :
    subSeqsUpTo n = subSeqsUpTo (n - 1) ++ [some n] := by
  have hsucc : n.toNat = (n - 1).toNat + 1 := by omega
  have hlast : (((n - 1).toNat : ℤ)) + 1 = n := by omega
  unfold subSeqsUpTo
  rw [hsucc, List.range_succ, List.map_append, List.map_singleton, hlast]

/-- An arrival that passes the check is counted. -/
theorem SocketCount.arrive {e sub e' : Option ℤ} {arrivals : List (Option ℤ)}
    (h : SocketCount e arrivals) (hpass : Passes e sub e') :
    SocketCount e' (sub :: arrivals) := by
  cases hpass with
  | omitted e => exact List.mem_cons_self
  | counted n =>
    obtain ⟨hn, harrivals⟩ := h
    refine ⟨by omega, ?_⟩
    rw [List.reverse_cons, harrivals, add_sub_cancel_right, subSeqsUpTo_eq_concat hn]
  | off sub => exact List.mem_cons_of_mem _ h

/-- Silent changes keep the counters' meaning. -/
theorem Silent.bookkeeping {s t : State} (h : Silent s t) (hs : Bookkeeping s) :
    Bookkeeping t := by
  have hkept := h.kept
  obtain ⟨-, hlast, hhas⟩ := hkept.counters
  refine ⟨?_, ?_, hkept.contiguous.mpr hs.contiguous, ?_⟩
  · have hsocket := hs.socket
    clear hs hkept hlast hhas
    induction h with
    | quiet events hevents htrace hsame hexp hlive =>
      intro hl
      rw [hexp, htrace, currentSocket_quiet hevents]
      exact hsocket (hlive hl)
    | dial htrace hsame hexp =>
      intro hl
      rw [hexp, htrace]
      exact ⟨le_refl 1, rfl⟩
    | arrive sub htrace hsame hlive hpass =>
      intro hl
      rw [htrace]
      exact (hsocket hlive).arrive (hpass hl)
    | trans _ _ hst htu => exact htu (hst hsocket)
  · rw [hkept.acked, hlast, hhas]
    exact hs.acked
  · rw [hkept.acked]
    exact hs.acksIncreasing

/-- `acceptSeq` leaves all but the resume position. -/
theorem acceptSeq_fields (c : Client) (action : StreamAction) :
    (acceptSeq c action).lastAcked = c.lastAcked ∧ (acceptSeq c action).hasAcked = c.hasAcked ∧
      (acceptSeq c action).expectedSubSeq = c.expectedSubSeq ∧
      (acceptSeq c action).socketLive = c.socketLive := by
  unfold acceptSeq
  split
  · exact ⟨rfl, rfl, rfl, rfl⟩
  · exact ⟨rfl, rfl, rfl, rfl⟩

/-- Events of an acknowledgement. -/
def ackEvents (seq : UInt64) : List Event :=
  [.acked seq, .sent (.obj [(lit "type", .str "ack"),
    (lit "seq", .str (natToString seq.toNat))])]

/-- **What an acknowledgement can do**: nothing at all, or record a sequence past the
last one, and then tell the server or not. -/
theorem ackSeq_cases (c : Client) (action : StreamAction) :
    ackSeq c action = (c, []) ∨
      ((c.hasAcked = true → c.lastAcked < action.globalSeq) ∧
        (ackSeq c action).1 = { c with lastAcked := action.globalSeq, hasAcked := true } ∧
        ((ackSeq c action).2 = [] ∨ (ackSeq c action).2 = ackEvents action.globalSeq)) := by
  unfold ackSeq
  by_cases hinterval : c.ackInterval ≤ 0
  · exact .inl (if_pos hinterval)
  · rw [if_neg hinterval]
    by_cases hold : c.hasAcked = true ∧ action.globalSeq ≤ c.lastAcked
    · exact .inl (if_pos hold)
    · rw [if_neg hold]
      by_cases hdue : c.ackInterval.toUInt64 ≤ action.globalSeq - c.lastAcked
      · rw [if_pos hdue]
        refine .inr ⟨fun hhas => ?_, rfl, ?_⟩
        · exact UInt64.not_le.mp (fun hle => hold ⟨hhas, hle⟩)
        · by_cases hsend : c.hasTransport = true ∧ c.socketLive = true
          · exact .inr (if_pos hsend)
          · exact .inl (if_neg hsend)
      · exact .inl (if_neg hdue)

/-- The events of an acknowledgement arrive nowhere and deliver nothing. -/
theorem ackSeq_events (c : Client) (action : StreamAction) (tr : List Event) :
    deliveredSeqs ((ackSeq c action).2 ++ tr) = deliveredSeqs tr ∧
      currentSocket ((ackSeq c action).2 ++ tr) = currentSocket tr ∧
      (Contiguous ((ackSeq c action).2 ++ tr) ↔ Contiguous tr) ∧
      (NoneReplayed ((ackSeq c action).2 ++ tr) ↔ NoneReplayed tr) := by
  have hnone : (ackSeq c action).2 = [] ∨ (ackSeq c action).2 = ackEvents action.globalSeq := by
    rcases ackSeq_cases c action with h | ⟨-, -, h⟩
    · exact .inl (by rw [h])
    · exact h
  rcases hnone with h | h
  · rw [h]
    exact ⟨rfl, rfl, Iff.rfl, Iff.rfl⟩
  · rw [h]
    refine ⟨rfl, rfl, Iff.rfl, ?_⟩
    unfold NoneReplayed ackEvents
    constructor
    · intro hall a sub resume hmem
      exact hall a sub resume (List.mem_append_right _ hmem)
    · intro hall a sub resume hmem
      have hmem' : Event.delivered a sub resume ∈ tr := by simpa using hmem
      exact hall a sub resume hmem'

/-- What a delivery acknowledges: nothing new, or its own sequence, past all others. -/
theorem Delivers.acked {s t : State} {action : StreamAction} (h : Delivers s action t)
    (hs : Bookkeeping s) :
    ackedSeqs t.trace = ackedSeqs s.trace ∨
      (ackedSeqs t.trace = action.globalSeq.toNat :: ackedSeqs s.trace ∧
        ∀ a ∈ ackedSeqs s.trace, a < action.globalSeq.toNat) := by
  obtain ⟨sub, -, -, htrace⟩ := h.sub
  obtain ⟨hlast, hhas, -, -⟩ := acceptSeq_fields s.client action
  rw [htrace]
  rcases ackSeq_cases (acceptSeq s.client action) action with hack | ⟨hpast, -, hack | hack⟩
  · rw [hack]
    exact .inl rfl
  · rw [hack]
    exact .inl rfl
  · rw [hack]
    refine .inr ⟨rfl, fun a ha => ?_⟩
    have hacked := hs.acked
    by_cases hbefore : s.client.hasAcked = true
    · rw [if_pos hbefore] at hacked
      have hlt := UInt64.lt_iff_toNat_lt.mp (hpast (hhas.trans hbefore))
      rw [hlast] at hlt
      exact lt_of_le_of_lt (hacked a ha) hlt
    · rw [if_neg hbefore] at hacked
      rw [hacked] at ha
      cases ha

/-- A delivery keeps the counters' meaning. -/
theorem Delivers.bookkeeping {s t : State} {action : StreamAction} (h : Delivers s action t)
    (hs : Bookkeeping s) : Bookkeeping t := by
  obtain ⟨sub, hhead, hcount, htrace⟩ := h.sub
  obtain ⟨hlast, hhas, hexp, hlive⟩ := acceptSeq_fields s.client action
  obtain ⟨-, hsocket, hcontiguous, -⟩ :=
    ackSeq_events (acceptSeq s.client action) action s.trace
  have hnew := h.acked hs
  have hincreasing : (ackedSeqs t.trace).Pairwise (· > ·) := by
    rcases hnew with hsame | ⟨hcons, hlt⟩
    · rw [hsame]
      exact hs.acksIncreasing
    · rw [hcons]
      exact List.Pairwise.cons hlt hs.acksIncreasing
  refine ⟨fun hl => ?_, ?_, ?_, hincreasing⟩
  · -- an acknowledgement leaves the socket's count
    have hcurrent : currentSocket t.trace = currentSocket s.trace := by
      rw [htrace]
      exact hsocket
    have hexpected : t.client.expectedSubSeq = s.client.expectedSubSeq := by
      rw [h.client]
      rcases ackSeq_cases (acceptSeq s.client action) action with hack | ⟨-, hack, -⟩
      · rw [hack]
        exact hexp
      · rw [hack]
        exact hexp
    rw [hcurrent, hexpected]
    exact hs.socket h.live
  · have hold := hs.acked
    rw [h.client]
    rcases ackSeq_cases (acceptSeq s.client action) action with hack | ⟨hpast, hack, -⟩
    · have hsame : ackedSeqs t.trace = ackedSeqs s.trace := by
        rw [htrace, hack]
        rfl
      rw [hack, hsame]
      simp only [hhas, hlast]
      exact hold
    · rw [hack, if_pos rfl]
      intro a ha
      show a ≤ action.globalSeq.toNat
      rcases hnew with hsame | ⟨hcons, hlt⟩
      · rw [hsame] at ha
        by_cases hbefore : s.client.hasAcked = true
        · rw [if_pos hbefore] at hold
          have hlt := UInt64.lt_iff_toNat_lt.mp (hpast (hhas.trans hbefore))
          rw [hlast] at hlt
          exact le_of_lt (lt_of_le_of_lt (hold a ha) hlt)
        · rw [if_neg hbefore] at hold
          rw [hold] at ha
          cases ha
      · rw [hcons] at ha
        rcases List.mem_cons.mp ha with rfl | ha
        · exact le_refl _
        · exact le_of_lt (hlt a ha)
  · rw [htrace, List.cons_append]
    refine ⟨fun n hn hcounted => ?_, hcontiguous.mpr hs.contiguous⟩
    rw [hsocket] at hcounted ⊢
    have hall := hs.socket h.live
    rcases hcount n hn with hnext | hoff
    · rw [hnext] at hall
      obtain ⟨-, harrivals⟩ := hall
      rw [add_sub_cancel_right] at harrivals
      refine ⟨?_, harrivals⟩
      -- the action's own arrival is among them
      by_contra hlow
      have hzero : n.toNat = 0 := by omega
      have hempty : currentSocket s.trace = [] := by
        rw [← List.reverse_eq_nil_iff, harrivals, subSeqsUpTo, hzero]
        rfl
      rw [hempty] at hhead
      cases hhead
    · rw [hoff] at hall
      exact absurd hall hcounted

/-- **The counters keep their meaning** in every step. -/
theorem Bookkeeping.next (p : Platform) {s : State} (hs : Bookkeeping s) (l : Label) :
    Bookkeeping (next p s l) := by
  rcases next_cases p s l with ⟨-, hsilent⟩ | ⟨action, mid, -, hsilent, hdeliver⟩
  · exact hsilent.bookkeeping hs
  · exact hdeliver.bookkeeping (hsilent.bookkeeping hs)

/-! ## Delivery without gap or duplicate -/

/-- The initial state of a client. -/
def State.start (filter : Filter) (options : Options) : State where
  client := Client.make filter options

/-- A new client's counters mean nothing yet. -/
theorem bookkeeping_start (filter : Filter) (options : Options) :
    Bookkeeping (State.start filter options) where
  socket := fun h => by cases h
  acked := rfl
  contiguous := trivial
  acksIncreasing := .nil

/-- A new client has delivered nothing wrong. -/
theorem correct_start (filter : Filter) (options : Options) :
    Correct (State.start filter options) where
  increasing := .nil
  noneReplayed := fun _ _ _ h => by cases h
  contiguous := trivial
  resume := fun _ h => by cases h
  acksIncreasing := .nil
  acksDelivered := fun _ h => by cases h

/-- Silent changes neither make nor break the delivery. -/
theorem Silent.correct {s t : State} (h : Silent s t) (hs : Correct s) : Correct t := by
  have hkept := h.kept
  obtain ⟨hcurrent, -, -⟩ := hkept.counters
  refine ⟨?_, hkept.noneReplayed.mpr hs.noneReplayed, hkept.contiguous.mpr hs.contiguous,
    fun g hg => ?_, ?_, fun a ha => ?_⟩
  · rw [hkept.delivered]
    exact hs.increasing
  · rw [hkept.delivered] at hg
    rw [hcurrent]
    exact hs.resume g hg
  · rw [hkept.acked]
    exact hs.acksIncreasing
  · rw [hkept.acked] at ha
    rw [hkept.delivered]
    exact hs.acksDelivered a ha

/-- An action may be delivered from the resume position on, and if a position after it
exists. -/
def Admissible (c : Client) (action : StreamAction) : Prop :=
  c.currentSeq ≤ action.globalSeq ∧ action.globalSeq.toNat + 1 < 2 ^ 64

/-- The resume position after a delivery. -/
theorem Delivers.currentSeq {s t : State} {action : StreamAction} (h : Delivers s action t) :
    t.client.currentSeq = (acceptSeq s.client action).currentSeq := by
  rw [h.client]
  rcases ackSeq_cases (acceptSeq s.client action) action with hack | ⟨-, hack, -⟩
  · rw [hack]
  · rw [hack]

/-- The delivered sequences after a delivery. -/
theorem Delivers.delivered {s t : State} {action : StreamAction} (h : Delivers s action t) :
    deliveredSeqs t.trace = action.globalSeq.toNat :: deliveredSeqs s.trace := by
  obtain ⟨sub, -, -, htrace⟩ := h.sub
  obtain ⟨hdelivered, -, -, -⟩ := ackSeq_events (acceptSeq s.client action) action s.trace
  rw [htrace, List.cons_append, ← hdelivered]
  rfl

/-- **A delivery is right exactly when its action is admissible.** -/
theorem Delivers.correct_iff {s t : State} {action : StreamAction} (h : Delivers s action t)
    (hbook : Bookkeeping s) (hs : Correct s) : Correct t ↔ Admissible s.client action := by
  obtain ⟨sub, -, -, htrace⟩ := h.sub
  obtain ⟨-, -, -, hreplay⟩ := ackSeq_events (acceptSeq s.client action) action s.trace
  constructor
  · intro ht
    have hmem : Event.delivered action sub s.client.currentSeq ∈ t.trace := by
      rw [htrace]
      exact List.mem_append_left _ List.mem_cons_self
    have hle : s.client.currentSeq ≤ action.globalSeq :=
      UInt64.le_iff_toNat_le.mpr (ht.noneReplayed action sub s.client.currentSeq hmem)
    refine ⟨hle, ?_⟩
    have hresume := ht.resume action.globalSeq.toNat (by rw [h.delivered]; rfl)
    rw [← hresume]
    exact t.client.currentSeq.toNat_lt
  · rintro ⟨hle, hlast⟩
    have hle' := UInt64.le_iff_toNat_le.mp hle
    have hposition : t.client.currentSeq.toNat = action.globalSeq.toNat + 1 := by
      rw [h.currentSeq, acceptSeq, if_neg (UInt64.not_lt.mpr hle)]
      show (action.globalSeq + 1).toNat = _
      rw [UInt64.toNat_add]
      exact Nat.mod_eq_of_lt hlast
    -- everything delivered before is below the resume position
    have hbelow : ∀ g ∈ deliveredSeqs s.trace, g < action.globalSeq.toNat := by
      intro g hg
      have hincreasing := hs.increasing
      have hresume := hs.resume
      cases hseqs : deliveredSeqs s.trace with
      | nil =>
        rw [hseqs] at hg
        cases hg
      | cons newest older =>
        rw [hseqs] at hg hincreasing hresume
        have hnewest := hresume newest rfl
        rcases List.mem_cons.mp hg with rfl | hg
        · omega
        · have hlt := (List.pairwise_cons.mp hincreasing).1 g hg
          omega
    have hbook' := h.bookkeeping hbook
    refine ⟨?_, ?_, hbook'.contiguous, fun g hg => ?_, hbook'.acksIncreasing, fun a ha => ?_⟩
    · rw [h.delivered]
      exact List.Pairwise.cons hbelow hs.increasing
    · rw [htrace, List.cons_append]
      intro a b resume hmem
      rcases List.mem_cons.mp hmem with heq | hmem
      · cases heq
        exact hle'
      · exact hreplay.mpr hs.noneReplayed a b resume hmem
    · rw [h.delivered] at hg
      cases hg
      exact hposition
    · refine ⟨action.globalSeq.toNat, by rw [h.delivered]; rfl, ?_⟩
      rcases h.acked hbook with hsame | ⟨hcons, hlt⟩
      · rw [hsame] at ha
        obtain ⟨g, hg, hag⟩ := hs.acksDelivered a ha
        have hgt := hbelow g (List.mem_of_mem_head? hg)
        omega
      · rw [hcons] at ha
        rcases List.mem_cons.mp ha with rfl | ha
        · exact le_refl _
        · exact le_of_lt (hlt a ha)

/-- The frame a step receives, if it carries an action to deliver, carries an admissible
one. -/
def Fresh (p : Platform) (s : State) (l : Label) : Prop :=
  ∀ action, deliveredBy p s.client l = some action → Admissible s.client action

/-- A step from a right state is right exactly when what it delivers is admissible. -/
theorem next_correct_iff (p : Platform) {s : State} (hbook : Bookkeeping s) (hs : Correct s)
    (l : Label) : Correct (next p s l) ↔ Fresh p s l := by
  unfold Fresh
  rcases next_cases p s l with ⟨hnone, hsilent⟩ | ⟨action, mid, hsome, hsilent, hdeliver⟩
  · rw [hnone]
    refine iff_of_true (hsilent.correct hs) (fun action h => ?_)
    cases h
  · obtain ⟨hcurrent, -, -⟩ := hsilent.kept.counters
    rw [hsome, hdeliver.correct_iff (hsilent.bookkeeping hbook) (hsilent.correct hs)]
    unfold Admissible
    rw [hcurrent]
    constructor
    · intro h a ha
      cases ha
      exact h
    · intro h
      exact h action rfl

/-- **Delivery without gap or duplicate**, in every state of a run, is that no incoming
frame carries an action below the resume position it meets, or the very last sequence. -/
theorem correct_iff_fresh (p : Platform) (filter : Filter) (options : Options)
    (ls : List Label) :
    Runs.AllStates (step p) Correct (.start filter options) ls ↔
      Runs.AllSteps (step p) (Fresh p) (.start filter options) ls := by
  refine Runs.allStates_iff_allSteps (step p) (I := Bookkeeping) (D := fun _ => True)
    (fun s l t hbook _ hstep => ?_) (fun s l t hbook hs _ hstep => ?_)
    (fun s l _ _ _ hnone => ?_) (bookkeeping_start filter options)
    (correct_start filter options) (fun _ _ => trivial)
  · cases hstep
    exact hbook.next p l
  · cases hstep
    exact next_correct_iff p hbook hs l
  · cases hnone

/-- An action frame without a sub sequence. -/
def frame (globalSeq : Str) : Json :=
  .obj [(lit "type", .str "action"), (lit "global_seq", .str globalSeq),
    (lit "contract", .str "eosio"), (lit "action", .str "transfer"),
    (lit "trx_id", .str (List.replicate 64 48))]

/-- Sequence 100 arrives, the socket fails, and the server replays 100. -/
def replayRun : List Label :=
  [.pump { receive := .ok (some (frame "100")) },
   .pump { receive := .error { kind := .transport, details := .obj [] } },
   .pump { receive := .ok (some (frame "100")) }]

/-- A replayed action is delivered a second time. -/
theorem replayed_action_delivered :
    ¬ ∀ (p : Platform) (filter : Filter) (options : Options) (ls : List Label),
      Runs.AllStates (step p) Correct (.start filter options) ls := by
  intro h
  have hrun : (Runs.run (step default) (.start {} {}) replayRun).map
      (fun t => deliveredSeqs t.trace) = some [100, 100] := by
    decide +kernel
  obtain ⟨t, ht, hseqs⟩ := Option.map_eq_some_iff.mp hrun
  have hincreasing := ((h default {} {} replayRun).final (step default) ht).increasing
  rw [hseqs] at hincreasing
  simp at hincreasing

end ActionStream

end Dwarfkit
