/-
# The envelope provider

`SimpleEnvelopeP2PProvider` of `antelope/p2p/provider.hpp`: each message goes over
the stream behind its length, and what comes in is buffered until a message is
complete.  What it emits is a list of messages and errors, in order.

* `handleAll_frames` : messages that were written come out again, however the stream
  is split;
* `chunkIndependent_and_bodiesSkipped_iff` : for which streams the chunks make no
  difference, and for which no byte of an oversized body is read as a header.
-/
import Dwarfkit.Antelope.Serializer.Coder
import Dwarfkit.Library.Framing

namespace Dwarfkit

open Wire Framing

/-- The provider's own state: what it has not handed on yet. -/
structure SimpleEnvelopeP2PProvider where
  remainingData_ : Bytes := []
  deriving DecidableEq, Repr

namespace SimpleEnvelopeP2PProvider

def maxReadLength : ℕ := 8 * 1024 * 1024

/-- The length in a header, on a little-endian host. -/
def messageLength (remainingData : Bytes) : ℕ := leValue (remainingData.take 4)

def tooLong : Error := { kind := .invalid, message := "Incoming Message too long" }

/-- One round of the loop of `handleData`: an oversized header drops the buffer. -/
def front (remainingData : Bytes) : Front UInt8 Error Bytes :=
  if remainingData.length < 4 then .more
  else if maxReadLength < messageLength remainingData then .bad tooLong
  else if remainingData.length < 4 + messageLength remainingData then .more
  else .frame ((remainingData.drop 4).take (messageLength remainingData))
    (remainingData.drop (4 + messageLength remainingData))

/-- A header at the front that announces more than may be read. -/
def Oversized (s : Bytes) : Prop := 4 ≤ s.length ∧ maxReadLength < messageLength s

instance (s : Bytes) : Decidable (Oversized s) := inferInstanceAs (Decidable (_ ∧ _))

/-! ## The rounds of the loop -/

/-- The header does not depend on what follows it. -/
theorem messageLength_append {s : Bytes} (t : Bytes) (h : 4 ≤ s.length) :
    messageLength (s ++ t) = messageLength s := by
  rw [messageLength, messageLength, List.take_append_of_le_length h]

theorem front_eq_bad {s : Bytes} {e : Error} : front s = .bad e ↔ Oversized s ∧ e = tooLong := by
  unfold front Oversized
  constructor
  · intro h
    split_ifs at h with h₁ h₂
    cases h
    exact ⟨⟨by omega, h₂⟩, rfl⟩
  · rintro ⟨⟨hlen, hlong⟩, rfl⟩
    rw [if_neg (by omega), if_pos hlong]

theorem exists_front_eq_bad {s : Bytes} : (∃ e, front s = .bad e) ↔ Oversized s := by
  constructor
  · rintro ⟨e, h⟩
    exact (front_eq_bad.mp h).1
  · intro h
    exact ⟨tooLong, front_eq_bad.mpr ⟨h, rfl⟩⟩

theorem front_eq_frame {s m r : Bytes} : front s = .frame m r ↔
    4 + messageLength s ≤ s.length ∧ messageLength s ≤ maxReadLength ∧
      m = (s.drop 4).take (messageLength s) ∧ r = s.drop (4 + messageLength s) := by
  unfold front
  constructor
  · intro h
    split_ifs at h with h₁ h₂ h₃
    cases h
    exact ⟨by omega, by omega, rfl, rfl⟩
  · rintro ⟨hlen, hlong, rfl, rfl⟩
    rw [if_neg (by omega), if_neg (by omega), if_neg (by omega)]

/-- A message behind its length is a frame. -/
theorem front_frame {header m : Bytes} (t : Bytes) (hheader : header.length = 4)
    (hm : m.length = leValue header) (hlong : m.length ≤ maxReadLength) :
    front (header ++ m ++ t) = .frame m t := by
  have hlen : messageLength (header ++ m ++ t) = m.length := by
    rw [List.append_assoc, messageLength_append _ (by omega), messageLength,
      List.take_of_length_le (by omega), hm]
  refine front_eq_frame.mpr ⟨?_, ?_, ?_, ?_⟩
  · rw [hlen]
    simp only [List.length_append]
    omega
  · rw [hlen]
    exact hlong
  · rw [hlen, List.append_assoc, ← hheader, List.drop_left, List.take_left]
  · rw [hlen, ← hheader, ← List.length_append, List.drop_left]

theorem front_chunk {s m r : Bytes} (h : front s = .frame m r) :
    ∃ chunk, chunk ≠ [] ∧ s = chunk ++ r ∧ ∀ t, front (chunk ++ t) = .frame m t := by
  obtain ⟨hlen, hlong, rfl, rfl⟩ := front_eq_frame.mp h
  have hheader : (s.take 4).length = 4 := by
    rw [List.length_take]
    omega
  have hm : ((s.drop 4).take (messageLength s)).length = leValue (s.take 4) := by
    rw [List.length_take, List.length_drop]
    show min (messageLength s) _ = messageLength s
    omega
  have hsplit : s.take 4 ++ (s.drop 4).take (messageLength s) = s.take (4 + messageLength s) := by
    rw [List.take_add]
  refine ⟨s.take 4 ++ (s.drop 4).take (messageLength s), ?_, ?_, ?_⟩
  · rw [← List.length_pos_iff_ne_nil, List.length_append, hheader]
    omega
  · rw [hsplit, List.take_append_drop]
  · intro t
    refine front_frame t hheader hm ?_
    rw [hm]
    exact hlong

theorem Oversized.append {s : Bytes} (h : Oversized s) (t : Bytes) : Oversized (s ++ t) := by
  obtain ⟨hlen, hlong⟩ := h
  refine ⟨?_, ?_⟩
  · rw [List.length_append]
    omega
  · rw [messageLength_append t hlen]
    exact hlong

/-- The rounds of `handleData` cut a stream into frames. -/
def cutter : Cutter UInt8 Error Bytes where
  front := front
  front_nil := rfl
  frame_chunk := front_chunk
  bad_append := by
    intro s e t h
    obtain ⟨hlong, rfl⟩ := front_eq_bad.mp h
    exact front_eq_bad.mpr ⟨hlong.append t, rfl⟩

/-! ## The provider -/

/-- `handleData`: what is emitted, in order, and the provider after it. -/
def handleData (provider : SimpleEnvelopeP2PProvider) (data : Bytes) :
    List (Result Bytes) × SimpleEnvelopeP2PProvider :=
  let (emitted, rest) := cutter.flush (provider.remainingData_ ++ data)
  (emitted, { remainingData_ := rest })

/-- The chunks of a stream, in order. -/
def handleAll : SimpleEnvelopeP2PProvider → List Bytes →
    List (Result Bytes) × SimpleEnvelopeP2PProvider
  | provider, [] => ([], provider)
  | provider, data :: chunks =>
    let (emitted, provider) := provider.handleData data
    (emitted ++ (handleAll provider chunks).1, (handleAll provider chunks).2)

/-- `write`: what goes to the next provider; the length is a `uint32_t`. -/
def write (data : Bytes) : Bytes := writeInt 4 data.length.toUInt32.toNat ++ data

theorem handleAll_eq_feed (provider : SimpleEnvelopeP2PProvider) (chunks : List Bytes) :
    provider.handleAll chunks =
      ((cutter.feed provider.remainingData_ chunks).1,
        { remainingData_ := (cutter.feed provider.remainingData_ chunks).2 }) := by
  induction chunks generalizing provider with
  | nil => rfl
  | cons data chunks ih =>
    have hrest := ih (provider.handleData data).2
    show ((provider.handleData data).1 ++ (handleAll (provider.handleData data).2 chunks).1,
      (handleAll (provider.handleData data).2 chunks).2) = _
    rw [hrest]
    rfl

/-- A message that may be read is written as a frame. -/
theorem encodes_write {m : Bytes} (h : m.length ≤ maxReadLength) : cutter.Encodes write m := by
  intro t
  have hn : (m.length.toUInt32).toNat = m.length := by
    unfold maxReadLength at h
    simp only [Nat.toUInt32, UInt32.toNat_ofNat']
    omega
  have hvalue : leValue (writeInt 4 m.length) = m.length := by
    unfold maxReadLength at h
    exact leValue_leBytes (by omega)
  show front (write m ++ t) = _
  rw [write, hn]
  exact front_frame t (length_leBytes 4 m.length) hvalue.symm h

/-- **Messages that were written come out again**, in order and without an error,
however the stream is split, and nothing is left over. -/
theorem handleAll_frames (messages : List Bytes) (chunks : List Bytes)
    (hlong : ∀ m ∈ messages, m.length ≤ maxReadLength)
    (hsplit : chunks.flatten = (messages.map write).flatten) :
    handleAll {} chunks = (messages.map .ok, {}) := by
  have hfeed : cutter.feed [] chunks = (messages.map .ok, []) :=
    Cutter.feed_frames (fun m hm => encodes_write (hlong m hm)) hsplit
  rw [handleAll_eq_feed, hfeed]

/-- The frames of "abc" and of the empty message, split inside both headers. -/
theorem handleAll_frames_abc : handleAll {} [[3], [], [0, 0, 0, 97, 98, 99, 0, 0], [0, 0]] =
    ([.ok [97, 98, 99], .ok []], {}) :=
  handleAll_frames [[97, 98, 99], []] [[3], [], [0, 0, 0, 97, 98, 99, 0, 0], [0, 0]]
    (by decide +kernel) (by decide +kernel)

/-! ## Oversized frames -/

/-- The messages that come out of a stream in chunks. -/
def messagesOf (chunks : List Bytes) : List Bytes := Cutter.messages (handleAll {} chunks).1

/-- Any two ways of splitting the stream give the same messages. -/
def ChunkIndependent (stream : Bytes) : Prop :=
  ∀ chunks chunks' : List Bytes, chunks.flatten = stream → chunks'.flatten = stream →
    messagesOf chunks = messagesOf chunks'

/-- The sizes the buffer has when the loop reads a header. -/
def headersRead : (fuel : ℕ) → Bytes → List ℕ
  | 0, _ => []
  | fuel + 1, s =>
    if s.length < 4 then []
    else s.length ::
      match front s with
      | .frame _ rest => headersRead fuel rest
      | _ => []

/-- Where in the stream `handleData` reads a header, chunk after chunk; `fed` bytes
have come in before. -/
def headerPositions : (fed : ℕ) → SimpleEnvelopeP2PProvider → List Bytes → List ℕ
  | _, _, [] => []
  | fed, provider, data :: chunks =>
    let buffer := provider.remainingData_ ++ data
    (headersRead (buffer.length + 1) buffer).map (fun size => fed + data.length - size) ++
      headerPositions (fed + data.length) (provider.handleData data).2 chunks

/-- The position lies in the body of a frame that announces more than may be read,
where every frame is followed by the next one. -/
inductive InOversizedBody : Bytes → ℕ → Prop
  | here {s : Bytes} {q : ℕ} (hlong : Oversized s) (hq : 4 ≤ q) (hend : q < 4 + messageLength s) :
      InOversizedBody s q
  | later {s : Bytes} {q : ℕ} (hlen : 4 ≤ s.length) (hq : 4 + messageLength s ≤ q)
      (h : InOversizedBody (s.drop (4 + messageLength s)) (q - (4 + messageLength s))) :
      InOversizedBody s q

/-- However the stream is split, no header is read inside an oversized body. -/
def BodiesSkipped (stream : Bytes) : Prop :=
  ∀ chunks : List Bytes, chunks.flatten = stream →
    ∀ q ∈ headerPositions 0 {} chunks, ¬ InOversizedBody stream q

/-! ## When the chunks make no difference -/

/-- The provider is chunk independent where its cutter is. -/
theorem chunkIndependent_iff_cutter (stream : Bytes) :
    ChunkIndependent stream ↔ cutter.ChunkIndependent stream := by
  have hmessages : ∀ chunks, messagesOf chunks = Cutter.messages (cutter.feed [] chunks).1 := by
    intro chunks
    rw [messagesOf, handleAll_eq_feed]
  unfold ChunkIndependent Cutter.ChunkIndependent
  simp only [hmessages]

/-- Nothing after an oversized header is taken for a frame when no complete frame
starts anywhere behind it. -/
theorem silent_iff {u : Bytes} (hu : Oversized u) :
    cutter.Silent u ↔ ∀ v, v <:+ u.drop 4 → ∀ m r, front v ≠ .frame m r := by
  constructor
  · rintro h v ⟨gap, hv⟩
    -- the header and the gap are enough to tell that the header is bad
    have hlen : 4 ≤ (u.take 4 ++ gap).length := by
      have := hu.1
      rw [List.length_append, List.length_take]
      omega
    have hsplit : u = (u.take 4 ++ gap) ++ v := by
      rw [List.append_assoc, hv, List.take_append_drop]
    refine h _ v hsplit (exists_front_eq_bad.mpr ⟨hlen, ?_⟩)
    rw [← messageLength_append v hlen, ← hsplit]
    exact hu.2
  · intro h w v hsplit hw
    obtain ⟨hlen, -⟩ := exists_front_eq_bad.mp hw
    refine h v ⟨w.drop 4, ?_⟩
    rw [hsplit, List.drop_append_of_le_length hlen]

/-! ## Where headers are read -/

/-- The loop reads headers where it gets to by cutting frames off. -/
theorem exists_reaches_of_headersRead {fuel : ℕ} {s : Bytes} {size : ℕ}
    (h : size ∈ headersRead fuel s) :
    ∃ ms x, cutter.Reaches s ms x ∧ size = x.length ∧ 4 ≤ x.length := by
  induction fuel generalizing s with
  | zero => cases h
  | succ fuel ih =>
    rw [headersRead] at h
    split_ifs at h with hlen
    · cases h
    · rcases List.mem_cons.mp h with rfl | h
      · exact ⟨[], s, .stay s, rfl, by omega⟩
      · cases hfront : front s with
        | more => rw [hfront] at h; cases h
        | bad e => rw [hfront] at h; cases h
        | frame m rest =>
          rw [hfront] at h
          obtain ⟨ms, x, hreach, hsize, hx⟩ := ih h
          exact ⟨m :: ms, x, .cut hfront hreach, hsize, hx⟩

/-- Fewer than four bytes hold no header. -/
theorem headerPositions_of_short {fed : ℕ} {provider : SimpleEnvelopeP2PProvider}
    {chunks : List Bytes}
    (h : (provider.remainingData_ ++ chunks.flatten).length < 4) :
    headerPositions fed provider chunks = [] := by
  induction chunks generalizing fed provider with
  | nil => rfl
  | cons data chunks ih =>
    have hlen : (provider.remainingData_ ++ data).length < 4 := by
      simp only [List.flatten_cons, List.length_append] at h ⊢
      omega
    have hmore : cutter.front (provider.remainingData_ ++ data) = .more := if_pos hlen
    have hprovider : (provider.handleData data).2 =
        { remainingData_ := provider.remainingData_ ++ data } := by
      show SimpleEnvelopeP2PProvider.mk (cutter.flush _).2 = _
      rw [cutter.flush_of_more hmore]
    simp only [headerPositions, hprovider]
    rw [headersRead, if_pos hlen, ih (by simpa using h)]
    rfl

/-- As long as less than a header follows an oversized header, headers are read only
where the frames of the stream lead. -/
theorem headerPositions_reached {stream before : Bytes} {provider : SimpleEnvelopeP2PProvider}
    {chunks : List Bytes} {ms : List Bytes} (hsplit : stream = before ++ chunks.flatten)
    (hbefore : cutter.Reaches before ms provider.remainingData_)
    (hshort : ∀ ms u, cutter.Reaches stream ms u → Oversized u → u.length < 8) {q : ℕ}
    (hq : q ∈ headerPositions before.length provider chunks) :
    ∃ ms y, cutter.Reaches stream ms y ∧ q + y.length = stream.length := by
  induction chunks generalizing before provider ms with
  | nil => cases hq
  | cons data chunks ih =>
    rw [List.flatten_cons, ← List.append_assoc] at hsplit
    have hdata := hbefore.append data
    rw [headerPositions, List.mem_append] at hq
    rcases hq with hq | hq
    · -- a header read while this chunk is handled
      obtain ⟨size, hsize, rfl⟩ := List.mem_map.mp hq
      obtain ⟨ns, x, hx, rfl, -⟩ := exists_reaches_of_headersRead hsize
      obtain ⟨gone, hgone, -⟩ := (hdata.trans hx).split
      refine ⟨ms ++ ns, x ++ chunks.flatten, ?_, ?_⟩
      · rw [hsplit]
        exact (hdata.trans hx).append _
      · have hlen := congrArg List.length hgone
        rw [hsplit]
        simp only [List.length_append] at hlen ⊢
        omega
    · obtain ⟨ns, x, hx, hstop⟩ :=
        Cutter.exists_reaches (c := cutter) (provider.remainingData_ ++ data)
      have hfed : before.length + data.length = (before ++ data).length := by simp
      rw [hfed] at hq
      rcases hstop with hmore | ⟨e, hbad⟩
      · have hrest : (provider.handleData data).2.remainingData_ = x := by
          show (cutter.flush _).2 = x
          rw [hx.flush, cutter.flush_of_more hmore]
        have hreach := hdata.trans hx
        rw [← hrest] at hreach
        exact ih hsplit hreach hq
      · -- the rest of the stream is too short for another header
        obtain ⟨hlong, -⟩ := front_eq_bad.mp hbad
        have hrest : (provider.handleData data).2.remainingData_ = [] := by
          show (cutter.flush _).2 = []
          rw [hx.flush, cutter.flush_of_bad hbad]
        have hreach := (hdata.trans hx).append chunks.flatten
        rw [← hsplit] at hreach
        have hlast := hshort _ _ hreach (hlong.append _)
        have hlen := hlong.1
        rw [headerPositions_of_short (by
          rw [hrest, List.nil_append]
          rw [List.length_append] at hlast
          omega)] at hq
        cases hq

/-- The frames of a stream do not lead into an oversized body. -/
theorem not_inOversizedBody {s y : Bytes} {ms : List Bytes} (h : cutter.Reaches s ms y) {q : ℕ}
    (hq : q + y.length = s.length) : ¬ InOversizedBody s q := by
  intro hbody
  induction h generalizing q with
  | stay s =>
    obtain rfl : q = 0 := by omega
    cases hbody with
    | here _ hq _ => omega
    | later _ hq _ => omega
  | @cut s r u m ms hfront hrest ih =>
    obtain ⟨hlen, hlong, -, rfl⟩ := front_eq_frame.mp hfront
    cases hbody with
    | here hover _ _ => exact absurd hover.2 (by omega)
    | later _ hq hbody =>
      refine ih ?_ hbody
      rw [List.length_drop]
      omega

/-- The byte after an oversized header is in the body. -/
theorem inOversizedBody_of_reaches {p u : Bytes} {ms : List Bytes}
    (h : cutter.Reaches (p ++ u) ms u) (hu : Oversized u) :
    InOversizedBody (p ++ u) (p.length + 4) := by
  generalize hs : p ++ u = s at h
  -- By induction on the frames cut before the oversized header.
  induction h generalizing p with
  | stay s =>
    obtain rfl : p = [] := by simpa using hs
    exact .here hu (by simp) (by
      have := hu.2
      unfold maxReadLength at this
      simp only [List.length_nil]
      omega)
  | @cut s r u m ms hfront hrest ih =>
    obtain ⟨hlen, -, -, hr⟩ := front_eq_frame.mp hfront
    obtain ⟨p', hp', -⟩ := hrest.split
    have hbody := ih hu (p := p') hp'.symm
    have hsize : p.length + 4 - (4 + messageLength s) = p'.length + 4 ∧
        4 + messageLength s ≤ p.length + 4 := by
      have h₁ := congrArg List.length hs
      have h₂ := congrArg List.length hp'
      have h₃ := congrArg List.length hr
      simp only [List.length_append, List.length_drop] at h₁ h₂ h₃
      omega
    rw [hr] at hbody
    refine .later (by omega) hsize.2 ?_
    rw [hsize.1]
    exact hbody

/-- **Which streams give the same messages in all chunks**: those where no complete
frame starts anywhere after the first oversized header. -/
theorem chunkIndependent_iff (stream : Bytes) :
    ChunkIndependent stream ↔ ∀ ms u, cutter.Reaches stream ms u → Oversized u →
      ∀ v, v <:+ u.drop 4 → ∀ m r, front v ≠ .frame m r := by
  rw [chunkIndependent_iff_cutter, Cutter.chunkIndependent_iff]
  constructor
  · intro h ms u hreach hu
    exact (silent_iff hu).mp (h ms u hreach (exists_front_eq_bad.mpr hu))
  · intro h ms u hreach hbad
    have hu := exists_front_eq_bad.mp hbad
    exact (silent_iff hu).mpr (h ms u hreach hu)

/-- A chunk that ends behind the oversized header makes the next one start inside the
body. -/
theorem headerPositions_in_body {p u : Bytes} {ms : List Bytes}
    (hreach : cutter.Reaches (p ++ u) ms u) (hu : Oversized u) (hlong : 8 ≤ u.length) :
    p.length + 4 ∈ headerPositions 0 {} [p ++ u.take 4, u.drop 4] := by
  have htake : (u.take 4).length = 4 := by
    rw [List.length_take]
    omega
  have hover : Oversized (u.take 4) := by
    refine ⟨by omega, ?_⟩
    rw [messageLength, List.take_take]
    exact hu.2
  obtain ⟨p', hp', hp⟩ := hreach.split
  obtain rfl : p = p' := List.append_cancel_right hp'
  have hflush := (hp (u.take 4)).flush
  rw [cutter.flush_of_bad (front_eq_bad.mpr ⟨hover, rfl⟩)] at hflush
  have hprovider : (handleData {} (p ++ u.take 4)).2 = {} := by
    show SimpleEnvelopeP2PProvider.mk (cutter.flush (p ++ u.take 4)).2 = _
    rw [hflush]
  simp only [headerPositions, List.mem_append]
  refine .inr (.inl ?_)
  rw [hprovider]
  show _ ∈ (headersRead ((u.drop 4).length + 1) (u.drop 4)).map _
  rw [headersRead, if_neg (by rw [List.length_drop]; omega), List.map_cons]
  refine List.mem_cons.mpr (.inl ?_)
  rw [List.length_append, htake]
  omega

/-- No byte of an oversized body is read as a header exactly when less than a header
follows the first oversized one. -/
theorem bodiesSkipped_iff (stream : Bytes) :
    BodiesSkipped stream ↔
      ∀ ms u, cutter.Reaches stream ms u → Oversized u → u.length < 8 := by
  constructor
  · intro h ms u hreach hu
    by_contra hlong
    obtain ⟨p, rfl, -⟩ := hreach.split
    have hsplit : [p ++ u.take 4, u.drop 4].flatten = p ++ u := by simp
    exact h _ hsplit (p.length + 4) (headerPositions_in_body hreach hu (by omega))
      (inOversizedBody_of_reaches hreach hu)
  · intro h chunks hchunks q hq
    have hstart : cutter.Reaches [] [] ({} : SimpleEnvelopeP2PProvider).remainingData_ := .stay []
    obtain ⟨ms, y, hreach, hy⟩ := headerPositions_reached (by simpa using hchunks.symm) hstart h hq
    exact not_inOversizedBody hreach hy

/-- **Which streams are handled the same in all chunks.**  The messages do not depend on
the chunks and no byte of an oversized body is read as a header exactly when less than a
header follows the first oversized one.  For the messages alone it is enough that no
complete frame starts anywhere after it. -/
theorem chunkIndependent_and_bodiesSkipped_iff (stream : Bytes) :
    (ChunkIndependent stream ∧ BodiesSkipped stream ↔
      ∀ ms u, cutter.Reaches stream ms u → Oversized u → u.length < 8) ∧
    (ChunkIndependent stream ↔ ∀ ms u, cutter.Reaches stream ms u → Oversized u →
      ∀ v, v <:+ u.drop 4 → ∀ m r, front v ≠ .frame m r) := by
  refine ⟨?_, chunkIndependent_iff stream⟩
  rw [bodiesSkipped_iff, chunkIndependent_iff]
  constructor
  · rintro ⟨-, hskipped⟩
    exact hskipped
  · intro h
    refine ⟨?_, h⟩
    intro ms u hreach hu v hv m r hframe
    -- what is left is too short for a frame
    have hlen := h ms u hreach hu
    have hv := hv.length_le
    obtain ⟨hsize, -⟩ := front_eq_frame.mp hframe
    rw [List.length_drop] at hv
    omega

/-- An oversized header, then the frame of "abc": a chunk that ends behind the header
delivers "abc", and the whole stream at once delivers nothing. -/
theorem chunks_matter : ¬ (∀ stream, ChunkIndependent stream ∧ BodiesSkipped stream) := by
  intro h
  have hall := (h [255, 255, 255, 255, 3, 0, 0, 0, 97, 98, 99]).1
    [[255, 255, 255, 255, 3, 0, 0, 0, 97, 98, 99]] [[255, 255, 255, 255], [3, 0, 0, 0, 97, 98, 99]]
    (by decide) (by decide)
  revert hall
  decide +kernel

end SimpleEnvelopeP2PProvider

end Dwarfkit
