/-
# Two clients on one stream

A `P2PClient` writes through its `SimpleEnvelopeP2PProvider` into a stream, and the
client at the other end gets what comes out of it, cut as the network pleases.  Both
ends go on with whatever else happens to them in between: timers, listeners that come
and go, messages in the other direction, a shutdown.

* `Connection.Faithful` : what was sent is what has been received and what is still
  under way, in this order;
* `received_run` : a listener that stays registered is called with the messages that
  were sent, each of them once and in order, whatever the interleaving.
-/
import Dwarfkit.Antelope.P2P.Client
import Dwarfkit.Antelope.P2P.NetMessages
import Dwarfkit.Antelope.P2P.Provider

namespace Dwarfkit

namespace P2P

open Wire Framing

/-! ## What is sent and what is received -/

/-- What a call hands to the provider. -/
def Call.written : Call → Option Bytes
  | write encoded _ => some encoded
  | _ => none

/-- What the client has handed to its provider so far. -/
def World.writes (w : World) : List Bytes := w.log.filterMap Call.written

/-- The messages an event hands to `send`, if `send` takes them: the caller's, or the
heartbeat's. -/
def sentBy (p : Platform) (w : World) : Event → List NetMessage
  | .send message =>
    match send p w message .caller with
    | .ok _ => [message]
    | .error _ => []
  | .timer _ now => if w.client.provider then [.time_message { org := now }] else []
  | _ => []

/-- What a call tells the listener `l`. -/
def Call.messageTo (l : Listener) : Call → Option NetMessage
  | message listener m => if listener = l then some m else none
  | _ => none

/-- The messages `l` was called with so far. -/
def World.received (l : Listener) (w : World) : List NetMessage :=
  w.log.filterMap (Call.messageTo l)

/-! ## The connection -/

/-- The two clients, what has been sent, the bytes on their way, and the envelope provider
that receives them. -/
structure Connection where
  sender : World
  sent : List NetMessage := []
  flight : Bytes := []
  envelope : SimpleEnvelopeP2PProvider := {}
  receiver : World

/-- What can happen: to either of the clients, or some of the bytes arrive. -/
inductive Action where
  | sender (event : Event)
  | deliver (n : ℕ)
  | receiver (event : Event)

/-- The handlers the client gave to its provider. -/
def receive (p : Platform) (w : World) : Result Bytes → World
  | .ok data => handleData p w data
  | .error error => emitError w error

/-- One action.  What the sender writes goes through its envelope provider; bytes arrive
in one chunk. -/
def Connection.step (p : Platform) (c : Connection) : Action → Option Connection
  | .sender event => do
    let sender ← P2P.step p c.sender event
    let written := sender.writes.drop c.sender.writes.length
    some { c with
      sender
      sent := c.sent ++ sentBy p c.sender event
      flight := c.flight ++ (written.map SimpleEnvelopeP2PProvider.write).flatten }
  | .deliver n =>
    let arrived := c.envelope.handleData (c.flight.take n)
    some { c with
      flight := c.flight.drop n
      envelope := arrived.2
      receiver := arrived.1.foldl (receive p) c.receiver }
  | .receiver event => do
    let receiver ← P2P.step p c.receiver event
    some { c with receiver }

/-- What the two ends have to keep to: the sender's messages can be read and are not too
long for a frame, and the receiver gets its data from the stream alone and leaves the
listener registered. -/
def Action.Permitted (p : Platform) (l : Listener) : Action → Prop
  | .sender (.send message) => message.Shaped ∧
      ∀ encoded, (netMessage p).toABI message = .ok encoded →
        encoded.length ≤ SimpleEnvelopeP2PProvider.maxReadLength
  | .receiver (.data _) => False
  | .receiver (.removeListener id) => id ≠ l.id
  | _ => True

/-- The listener is registered once, for good, and no later one gets its id. -/
structure Listens (l : Listener) (w : World) : Prop where
  count : w.client.messageListeners_.count l = 1
  again : l.once = false
  id : l.id < w.client.nextListenerId_

/-- A message that fits a frame, and its encoding. -/
def Sendable (p : Platform) (m : NetMessage) (encoded : Bytes) : Prop :=
  m.Shaped ∧ (netMessage p).toABI m = .ok encoded ∧
    encoded.length ≤ SimpleEnvelopeP2PProvider.maxReadLength

/-- **What was sent** is what `l` has received, and then what is still under way: whole
frames of it, some bytes of which the receiver may have buffered already. -/
def Connection.Faithful (p : Platform) (l : Listener) (c : Connection) : Prop :=
  ∃ (pending : List NetMessage) (encoded : List Bytes),
    c.sent = c.receiver.received l ++ pending ∧
    List.Forall₂ (Sendable p) pending encoded ∧
    c.envelope.remainingData_ ++ c.flight =
      (encoded.map SimpleEnvelopeP2PProvider.write).flatten

/-- The invariant of a connection. -/
structure Connection.Inv (p : Platform) (l : Listener) (c : Connection) : Prop where
  faithful : c.Faithful p l
  waiting : SimpleEnvelopeP2PProvider.cutter.front c.envelope.remainingData_ = .more
  listens : Listens l c.receiver

/-! ## The sender -/

/-- Calls that write nothing. -/
theorem filterMap_written_append {log calls : List Call} (h : ∀ call ∈ calls, call.written = none) :
    (log ++ calls).filterMap Call.written = log.filterMap Call.written := by
  rw [List.filterMap_append, List.filterMap_eq_nil_iff.mpr h, List.append_nil]

/-- Calls of listeners write nothing. -/
theorem written_of_mem_map {listeners : List Listener} {f : Listener → Call} {call : Call}
    (hf : ∀ l, (f l).written = none) (h : call ∈ listeners.map f) : call.written = none := by
  obtain ⟨l, -, rfl⟩ := List.mem_map.mp h
  exact hf l

/-- What `send` does: one write, of the encoded message. -/
theorem writes_send {p : Platform} {w w' : World} {m : NetMessage} {done : Done}
    (h : send p w m done = .ok w') :
    ∃ encoded, (netMessage p).toABI m = .ok encoded ∧ w'.writes = w.writes ++ [encoded] := by
  unfold send at h
  split at h
  · obtain ⟨encoded, hencoded, h⟩ := bind_eq_ok.mp h
    cases h
    refine ⟨encoded, hencoded, ?_⟩
    show List.filterMap Call.written (w.log ++ [Call.write encoded done]) = _
    rw [List.filterMap_append]
    rfl
  · cases h

theorem writes_resetHeartbeat (w : World) : (resetHeartbeat w).writes = w.writes := by
  unfold resetHeartbeat
  split
  · split <;> rfl
  · rfl

/-- **What an event writes** are the encoded messages it hands to `send`. -/
theorem writes_step {p : Platform} {w w' : World} {event : Event}
    (h : P2P.step p w event = some w') :
    ∃ encoded, w'.writes = w.writes ++ encoded ∧
      List.Forall₂ (fun m bytes => (netMessage p).toABI m = .ok bytes) (sentBy p w event)
        encoded := by
  -- Every event but the two that send leaves what was written as it is.
  have hquiet : ∀ {event : Event}, sentBy p w event = [] → w'.writes = w.writes →
      ∃ encoded, w'.writes = w.writes ++ encoded ∧
        List.Forall₂ (fun m bytes => (netMessage p).toABI m = .ok bytes) (sentBy p w event)
          encoded := by
    intro event hsent hwrites
    refine ⟨[], by rw [hwrites, List.append_nil], ?_⟩
    rw [hsent]
    exact .nil
  cases event with
  | timer i now =>
    simp only [P2P.step] at h
    split at h
    · cases h
      simp only [sentBy]
      by_cases hprovider : w.client.provider = true
      · obtain ⟨encoded, hencoded⟩ := exists_encoded_time p { org := now }
        refine ⟨[encoded], ?_, ?_⟩
        · unfold handleHeartbeat send
          rw [if_pos (show w.client.provider = true from hprovider), hencoded]
          show List.filterMap Call.written (w.log ++ [Call.write encoded .resetHeartbeat]) = _
          rw [List.filterMap_append]
          rfl
        · rw [if_pos hprovider]
          exact .cons hencoded .nil
      · rw [handleHeartbeat_of_no_provider p { w with armed := w.armed.eraseIdx i } now
          (Bool.eq_false_of_not_eq_true hprovider), if_neg hprovider]
        exact ⟨[], (List.append_nil _).symm, .nil⟩
    · cases h
  | written i =>
    refine hquiet rfl ?_
    simp only [P2P.step] at h
    split at h
    · cases h
      exact writes_resetHeartbeat _
    · cases h
      rfl
    · cases h
  | data data =>
    refine hquiet rfl ?_
    simp only [P2P.step] at h
    split at h
    · cases h
      unfold handleData
      split
      · exact filterMap_written_append (fun call hcall => written_of_mem_map (fun _ => rfl) hcall)
      · exact filterMap_written_append (fun call hcall => written_of_mem_map (fun _ => rfl) hcall)
    · cases h
  | error error =>
    refine hquiet rfl ?_
    simp only [P2P.step] at h
    split at h
    · cases h
      exact filterMap_written_append (fun call hcall => written_of_mem_map (fun _ => rfl) hcall)
    · cases h
  | close =>
    refine hquiet rfl ?_
    simp only [P2P.step] at h
    split at h
    · cases h
      exact filterMap_written_append (fun call hcall => written_of_mem_map (fun _ => rfl) hcall)
    · cases h
  | send message =>
    simp only [P2P.step] at h
    simp only [sentBy]
    cases hsend : send p w message .caller with
    | ok w₂ =>
      rw [hsend] at h
      cases h
      obtain ⟨encoded, hencoded, hwrites⟩ := writes_send hsend
      exact ⟨[encoded], hwrites, .cons hencoded .nil⟩
    | error e =>
      rw [hsend] at h
      cases h
      exact ⟨[], (List.append_nil _).symm, .nil⟩
  | end_ =>
    refine hquiet rfl ?_
    cases h
    unfold end_
    simp only
    split
    · exact filterMap_written_append (by simp [Call.written])
    · rfl
  | destroy error =>
    refine hquiet rfl ?_
    cases h
    unfold destroy
    simp only
    split
    · exact filterMap_written_append (by simp [Call.written])
    · rfl
  | addListener channel once =>
    refine hquiet rfl ?_
    cases h
    cases channel <;> rfl
  | removeListener id =>
    refine hquiet rfl ?_
    cases h
    rfl

/-- A time message is no longer than its four numbers and its index. -/
theorem length_of_encoded_time {p : Platform} {m : TimeMessage} {encoded : Bytes}
    (h : (netMessage p).toABI (.time_message m) = .ok encoded) : encoded.length ≤ 40 := by
  cases h
  simp [writeVaruint32, lebBytes, writeInt]

/-- What an event sends fits a frame, if its message does. -/
theorem fits_of_permitted {p : Platform} {l : Listener} {w : World} {event : Event}
    (h : (Action.sender event).Permitted p l) {m : NetMessage} (hm : m ∈ sentBy p w event)
    {encoded : Bytes} (hencoded : (netMessage p).toABI m = .ok encoded) :
    Sendable p m encoded := by
  cases event with
  | send message =>
    obtain ⟨hshaped, hlong⟩ := h
    simp only [sentBy] at hm
    split at hm
    · rw [List.mem_singleton] at hm
      subst hm
      exact ⟨hshaped, hencoded, hlong encoded hencoded⟩
    · cases hm
  | timer i now =>
    simp only [sentBy] at hm
    split at hm
    · rw [List.mem_singleton] at hm
      subst hm
      have hlen := length_of_encoded_time hencoded
      refine ⟨trivial, hencoded, ?_⟩
      unfold SimpleEnvelopeP2PProvider.maxReadLength
      omega
    · cases hm
  | written | data | error | close | end_ | destroy | addListener | removeListener => cases hm

/-! ## The receiver -/

/-- A message goes to `l` as often as `l` is registered. -/
theorem filterMap_messageTo_map (l : Listener) (listeners : List Listener) (m : NetMessage) :
    (listeners.map (fun listener => Call.message listener m)).filterMap (Call.messageTo l) =
      List.replicate (listeners.count l) m := by
  induction listeners with
  | nil => rfl
  | cons listener listeners ih =>
    rw [List.map_cons, List.filterMap_cons, ih]
    by_cases h : listener = l
    · subst h
      rw [List.count_cons_self, List.replicate_succ]
      simp [Call.messageTo]
    · rw [List.count_cons_of_ne h]
      simp [Call.messageTo, h]

/-- Calls that tell `l` nothing. -/
theorem received_append {l : Listener} {log calls : List Call}
    (h : ∀ call ∈ calls, call.messageTo l = none) :
    (log ++ calls).filterMap (Call.messageTo l) = log.filterMap (Call.messageTo l) := by
  rw [List.filterMap_append, List.filterMap_eq_nil_iff.mpr h, List.append_nil]

theorem messageTo_of_mem_map {l : Listener} {listeners : List Listener} {f : Listener → Call}
    {call : Call} (hf : ∀ listener, (f listener).messageTo l = none)
    (h : call ∈ listeners.map f) : call.messageTo l = none := by
  obtain ⟨listener, -, rfl⟩ := List.mem_map.mp h
  exact hf listener

/-- Only listeners that are called once go. -/
theorem count_eraseOnce {l : Listener} (hl : l.once = false) (listeners : List Listener) :
    (eraseOnce listeners).count l = listeners.count l :=
  List.count_filter (by simp [hl])

/-- **A message that can be read** is one call of `l`. -/
theorem handleData_of_reads {p : Platform} {l : Listener} {w : World} {data rest : Bytes}
    {m : NetMessage} (hl : Listens l w) (h : (netMessage p).fromABI.run data = .ok (m, rest)) :
    (handleData p w data).received l = w.received l ++ [m] ∧ Listens l (handleData p w data) := by
  unfold handleData
  rw [h]
  refine ⟨?_, ?_, hl.again, hl.id⟩
  · show List.filterMap (Call.messageTo l) (w.log ++ _) = _
    rw [List.filterMap_append, filterMap_messageTo_map, hl.count]
    rfl
  · show (eraseOnce w.client.messageListeners_).count l = 1
    rw [count_eraseOnce hl.again, hl.count]

/-- Errors tell `l` nothing. -/
theorem emitError_keeps {l : Listener} {w : World} (hl : Listens l w) (error : Error) :
    (emitError w error).received l = w.received l ∧ Listens l (emitError w error) :=
  ⟨received_append (fun _ hcall => messageTo_of_mem_map (fun _ => rfl) hcall),
    hl.count, hl.again, hl.id⟩

/-- Messages one after the other. -/
theorem received_foldl {p : Platform} {l : Listener} {messages : List NetMessage}
    {encoded : List Bytes} (h : List.Forall₂ (Sendable p) messages encoded) {w : World}
    (hl : Listens l w) :
    ((encoded.map .ok).foldl (receive p) w).received l = w.received l ++ messages ∧
      Listens l ((encoded.map .ok).foldl (receive p) w) := by
  induction h generalizing w with
  | nil => exact ⟨(List.append_nil _).symm, hl⟩
  | @cons m bytes messages encoded hm _ ih =>
    obtain ⟨hshaped, hbytes, hlong⟩ := hm
    have hsize : bytes.length < 2 ^ 32 := by
      unfold SimpleEnvelopeP2PProvider.maxReadLength at hlong
      omega
    obtain ⟨-, hread⟩ := netMessage_roundTrips p m bytes hshaped hbytes hsize
    obtain ⟨hreceived, hl'⟩ := handleData_of_reads hl hread.run_eq
    obtain ⟨hrest, hlast⟩ := ih hl'
    rw [List.map_cons, List.foldl_cons]
    refine ⟨?_, hlast⟩
    show ((encoded.map .ok).foldl (receive p) (handleData p w bytes)).received l = _
    rw [hrest, hreceived, List.append_assoc]
    rfl

/-- What else happens to the receiver tells `l` nothing and leaves it registered. -/
theorem listens_step {p : Platform} {l : Listener} {w w' : World} {event : Event}
    (hl : Listens l w) (hevent : (Action.receiver event).Permitted p l)
    (h : P2P.step p w event = some w') : w'.received l = w.received l ∧ Listens l w' := by
  cases event with
  | data data => exact absurd hevent id
  | timer i now =>
    simp only [P2P.step] at h
    split at h
    · cases h
      unfold handleHeartbeat send
      split
      · rename_i w₂ heq
        split at heq
        · obtain ⟨encoded, -, heq⟩ := bind_eq_ok.mp heq
          cases heq
          exact ⟨received_append (by simp [Call.messageTo]), hl.count, hl.again, hl.id⟩
        · cases heq
      · exact ⟨rfl, hl.count, hl.again, hl.id⟩
    · cases h
  | written i =>
    simp only [P2P.step] at h
    split at h
    · cases h
      unfold resetHeartbeat
      split
      · split
        · exact ⟨rfl, hl.count, hl.again, hl.id⟩
        · exact ⟨rfl, hl.count, hl.again, hl.id⟩
      · exact ⟨rfl, hl.count, hl.again, hl.id⟩
    · cases h
      exact ⟨rfl, hl.count, hl.again, hl.id⟩
    · cases h
  | error error =>
    simp only [P2P.step] at h
    split at h
    · cases h
      exact emitError_keeps hl error
    · cases h
  | close =>
    simp only [P2P.step] at h
    split at h
    · cases h
      exact ⟨received_append (fun _ hcall => messageTo_of_mem_map (fun _ => rfl) hcall),
        hl.count, hl.again, hl.id⟩
    · cases h
  | send message =>
    simp only [P2P.step] at h
    split at h
    · rename_i w₂ heq
      cases h
      unfold send at heq
      split at heq
      · obtain ⟨encoded, -, heq⟩ := bind_eq_ok.mp heq
        cases heq
        exact ⟨received_append (by simp [Call.messageTo]), hl.count, hl.again, hl.id⟩
      · cases heq
    · cases h
      exact ⟨rfl, hl⟩
  | end_ =>
    cases h
    unfold end_
    simp only
    split
    · exact ⟨received_append (by simp [Call.messageTo]), hl.count, hl.again, hl.id⟩
    · exact ⟨rfl, hl.count, hl.again, hl.id⟩
  | destroy error =>
    cases h
    unfold destroy
    simp only
    split
    · exact ⟨received_append (by simp [Call.messageTo]), hl.count, hl.again, hl.id⟩
    · exact ⟨rfl, hl.count, hl.again, hl.id⟩
  | addListener channel once =>
    cases h
    have hnext : l.id < w.client.nextListenerId_ + 1 := Nat.lt_succ_of_lt hl.id
    cases channel with
    | message =>
      refine ⟨rfl, ?_, hl.again, hnext⟩
      have hne : ({ id := w.client.nextListenerId_, once } : Listener) ≠ l := by
        rintro rfl
        exact absurd hl.id (lt_irrefl _)
      show (w.client.messageListeners_ ++ [_]).count l = 1
      rw [List.count_append, hl.count, List.count_singleton, if_neg (by simpa using hne)]
    | error => exact ⟨rfl, hl.count, hl.again, hnext⟩
    | close => exact ⟨rfl, hl.count, hl.again, hnext⟩
  | removeListener id =>
    cases h
    have hid : id ≠ l.id := hevent
    refine ⟨rfl, ?_, hl.again, hl.id⟩
    show (w.client.messageListeners_.filter (fun listener => listener.id ≠ id)).count l = 1
    rw [List.count_filter (by simpa using hid.symm), hl.count]

/-! ## The stream -/

/-- Frames that were sent can be read. -/
theorem encodes_of_sendable {p : Platform} {messages : List NetMessage} {encoded : List Bytes}
    (h : List.Forall₂ (Sendable p) messages encoded) :
    ∀ bytes ∈ encoded, SimpleEnvelopeP2PProvider.cutter.Encodes
      SimpleEnvelopeP2PProvider.write bytes := by
  induction h with
  | nil => simp
  | cons hm _ ih =>
    exact List.forall_mem_cons.mpr ⟨SimpleEnvelopeP2PProvider.encodes_write hm.2.2, ih⟩

/-- **A chunk of the stream** brings some of the messages under way, and the rest of them
stay under way. -/
theorem handleData_of_frames {p : Platform} {pending : List NetMessage} {encoded : List Bytes}
    (h : List.Forall₂ (Sendable p) pending encoded) {envelope : SimpleEnvelopeP2PProvider}
    {chunk rest : Bytes}
    (hstream : envelope.remainingData_ ++ (chunk ++ rest) =
      (encoded.map SimpleEnvelopeP2PProvider.write).flatten) :
    ∃ now later nowEncoded laterEncoded, pending = now ++ later ∧
      List.Forall₂ (Sendable p) now nowEncoded ∧ List.Forall₂ (Sendable p) later laterEncoded ∧
      (envelope.handleData chunk).1 = nowEncoded.map .ok ∧
      (envelope.handleData chunk).2.remainingData_ ++ rest =
        (laterEncoded.map SimpleEnvelopeP2PProvider.write).flatten ∧
      SimpleEnvelopeP2PProvider.cutter.front (envelope.handleData chunk).2.remainingData_ =
        .more := by
  have hall := Cutter.reaches_frames (encodes_of_sendable h) []
  rw [List.append_nil, ← hstream, ← List.append_assoc] at hall
  obtain ⟨cut, u, hcut, hstop⟩ :=
    Cutter.exists_reaches (c := SimpleEnvelopeP2PProvider.cutter) (envelope.remainingData_ ++ chunk)
  obtain ⟨uncut, rfl, hrest⟩ := (hcut.append rest).through hall
    (Cutter.no_frame_of_more SimpleEnvelopeP2PProvider.cutter.front_nil)
  have hmore : SimpleEnvelopeP2PProvider.cutter.front u = .more := by
    rcases hstop with hmore | ⟨e, hbad⟩
    · exact hmore
    · -- A bad front would still be bad in the whole stream, which ends without one.
      have hbad' := SimpleEnvelopeP2PProvider.cutter.bad_append rest hbad
      obtain ⟨-, hnil⟩ := hrest.eq_of_stop (Cutter.no_frame_of_bad hbad')
      rw [← hnil, SimpleEnvelopeP2PProvider.cutter.front_nil] at hbad'
      cases hbad'
  have hnow := List.forall₂_take_append pending cut uncut h
  have hlater := List.forall₂_drop_append pending cut uncut h
  have hflush := hcut.flush
  rw [SimpleEnvelopeP2PProvider.cutter.flush_of_more hmore] at hflush
  refine ⟨_, _, cut, uncut, (List.take_append_drop cut.length pending).symm, hnow, hlater, ?_, ?_,
    ?_⟩
  · show (SimpleEnvelopeP2PProvider.cutter.flush (envelope.remainingData_ ++ chunk)).1 = _
    rw [hflush, List.append_nil]
  · show (SimpleEnvelopeP2PProvider.cutter.flush (envelope.remainingData_ ++ chunk)).2 ++ rest = _
    rw [hflush]
    have hframes := Cutter.reaches_frames (encodes_of_sendable hnow)
      (uncut.map SimpleEnvelopeP2PProvider.write).flatten
    have hsame := hcut.append rest
    rw [List.append_assoc, hstream, List.map_append, List.flatten_append] at hsame
    exact hsame.unique hframes
  · show SimpleEnvelopeP2PProvider.cutter.front
      (SimpleEnvelopeP2PProvider.cutter.flush (envelope.remainingData_ ++ chunk)).2 = _
    rw [hflush]
    exact hmore

/-! ## Steps and runs -/

/-- **Every action keeps the invariant.** -/
theorem inv_step {p : Platform} {l : Listener} {c c' : Connection} {action : Action}
    (hc : c.Inv p l) (haction : action.Permitted p l) (h : c.step p action = some c') :
    c'.Inv p l := by
  obtain ⟨⟨pending, encoded, hsent, hpending, hstream⟩, hwaiting, hlistens⟩ := hc
  cases action with
  | sender event =>
    obtain ⟨sender, hsender, h⟩ := Option.bind_eq_some_iff.mp h
    cases h
    obtain ⟨written, hwrites, hwritten⟩ := writes_step hsender
    have hnew : List.Forall₂ (Sendable p) (sentBy p c.sender event) written := by
      refine List.Forall₂.imp ?_ ((List.forall₂_and_left _ _).mpr ⟨fun m hm => hm, hwritten⟩)
      rintro m bytes ⟨hm, hbytes⟩
      exact fits_of_permitted haction hm hbytes
    refine ⟨⟨pending ++ sentBy p c.sender event, encoded ++ written, ?_, ?_, ?_⟩, hwaiting,
      hlistens⟩
    · show c.sent ++ _ = _
      rw [hsent, List.append_assoc]
    · exact List.rel_append hpending hnew
    · show c.envelope.remainingData_ ++ (c.flight ++ _) = _
      rw [hwrites, List.drop_left, ← List.append_assoc, hstream, List.map_append,
        List.flatten_append]
  | deliver n =>
    obtain rfl := Option.some.inj h
    obtain ⟨now, later, nowEncoded, laterEncoded, rfl, hnow, hlater, hemitted, hrest, hmore⟩ :=
      @handleData_of_frames p pending encoded hpending c.envelope (c.flight.take n) (c.flight.drop n)
        (by rw [List.take_append_drop]; exact hstream)
    obtain ⟨hreceived, hlistens'⟩ := received_foldl hnow hlistens
    rw [← hemitted] at hreceived hlistens'
    refine ⟨⟨later, laterEncoded, ?_, hlater, hrest⟩, hmore, hlistens'⟩
    show c.sent = _
    rw [hreceived, hsent, List.append_assoc]
  | receiver event =>
    obtain ⟨receiver, hreceiver, h⟩ := Option.bind_eq_some_iff.mp h
    cases h
    obtain ⟨hreceived, hlistens'⟩ := listens_step hlistens haction hreceiver
    refine ⟨⟨pending, encoded, ?_, hpending, hstream⟩, hwaiting, hlistens'⟩
    show c.sent = receiver.received l ++ pending
    rw [hreceived, hsent]

/-- A new connection to a receiver that listens. -/
theorem inv_start (p : Platform) {l : Listener} (sender : World) {receiver : World}
    (hl : Listens l receiver) (hnone : receiver.received l = []) :
    ({ sender, receiver } : Connection).Inv p l :=
  ⟨⟨[], [], by rw [hnone]; rfl, .nil, rfl⟩, rfl, hl⟩

/-- **A run keeps the invariant.** -/
theorem inv_run {p : Platform} {l : Listener} {c c' : Connection} {actions : List Action}
    (hc : c.Inv p l) (hactions : ∀ action ∈ actions, action.Permitted p l)
    (h : Runs.run (Connection.step p) c actions = some c') : c'.Inv p l := by
  induction actions generalizing c with
  | nil =>
    cases h
    exact hc
  | cons action actions ih =>
    obtain ⟨c₁, hstep, hrun⟩ := Option.bind_eq_some_iff.mp h
    exact ih (inv_step hc (hactions action (by simp)) hstep)
      (fun a ha => hactions a (by simp [ha])) hrun

/-- Nothing is under way exactly when no byte is. -/
theorem received_eq_sent_iff {p : Platform} {l : Listener} {c : Connection} (hc : c.Inv p l) :
    c.receiver.received l = c.sent ↔ c.flight = [] := by
  obtain ⟨⟨pending, encoded, hsent, hpending, hstream⟩, hwaiting, -⟩ := hc
  constructor
  · intro h
    rw [h] at hsent
    have hnil : pending = [] := List.append_right_eq_self.mp hsent.symm
    subst hnil
    cases hpending
    exact (List.append_eq_nil_iff.mp hstream).2
  · intro hflight
    cases hpending with
    | nil => rw [hsent, List.append_nil]
    | @cons m bytes _ encoded hm _ =>
      -- A whole frame in the buffer would have been cut off.
      rw [hflight, List.append_nil, List.map_cons, List.flatten_cons] at hstream
      rw [hstream] at hwaiting
      have hframe := SimpleEnvelopeP2PProvider.encodes_write hm.2.2
        (encoded.map SimpleEnvelopeP2PProvider.write).flatten
      rw [hframe] at hwaiting
      cases hwaiting

/-- A client with a heartbeat, and one that listens. -/
def Connection.sample : Connection where
  sender := start { provider := true, heartbeatTimoutMs := some 5, setTimeoutImpl := true }
  receiver := addListener (start { provider := true }) .message false

/-- A time message and a heartbeat's, in three chunks, while the receiver registers and
drops another listener. -/
def Connection.sampleActions : List Action :=
  [.sender (.send (.time_message { org := 7 })), .deliver 3,
    .receiver (.addListener .message true), .sender (.timer 0 9), .deliver 40,
    .receiver (.removeListener 2), .deliver 100]

end P2P

end Dwarfkit
