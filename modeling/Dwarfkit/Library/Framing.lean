/-
# Cutting a stream into frames

A receiver gets a stream in chunks, keeps what it cannot use yet in a buffer, and
cuts frames off the front of the buffer as long as it can.  A front that no frame
can start with is an error, and drops the buffer.

* `feed_of_more` : without a bad front the chunks do not matter;
* `feed_frames` : frames that were written one after the other are read back;
* `feed_of_bad` : what happens at a bad front depends on the chunks;
* `chunkIndependent_iff` : when it makes no difference to the messages.
-/
import Mathlib

namespace Framing

variable {σ ε β : Type}

/-- What stands at the front of a buffer: not enough symbols yet, a frame and what
follows it, or something no frame starts with. -/
inductive Front (σ ε β : Type) where
  | more
  | frame (message : β) (rest : List σ)
  | bad (error : ε)

/-- A way of cutting frames off.  A frame is told by its own symbols, and what
follows changes neither a frame nor a bad front. -/
structure Cutter (σ ε β : Type) where
  front : List σ → Front σ ε β
  front_nil : front [] = .more
  frame_chunk : ∀ {s : List σ} {m : β} {r : List σ}, front s = .frame m r →
    ∃ chunk, chunk ≠ [] ∧ s = chunk ++ r ∧ ∀ t, front (chunk ++ t) = .frame m t
  bad_append : ∀ {s : List σ} {e : ε} (t : List σ), front s = .bad e → front (s ++ t) = .bad e

namespace Cutter

variable (c : Cutter σ ε β)

/-! ## The loop -/

/-- Cut frames off while there are any: what was emitted, and the buffer left. -/
def drain : (fuel : ℕ) → List σ → List (Except ε β) × List σ
  | 0, s => ([], s)
  | fuel + 1, s =>
    match c.front s with
    | .more => ([], s)
    | .bad e => ([.error e], [])
    | .frame m rest => (.ok m :: (drain fuel rest).1, (drain fuel rest).2)

/-- The loop with fuel for the whole buffer. -/
def flush (s : List σ) : List (Except ε β) × List σ := c.drain (s.length + 1) s

/-- Append each chunk to the buffer and run the loop. -/
def feed : (buffer : List σ) → List (List σ) → List (Except ε β) × List σ
  | buffer, [] => ([], buffer)
  | buffer, chunk :: chunks =>
    let (emitted, rest) := c.flush (buffer ++ chunk)
    (emitted ++ (feed rest chunks).1, (feed rest chunks).2)

/-- A frame is not empty. -/
theorem length_lt_of_frame {s r : List σ} {m : β} (h : c.front s = .frame m r) :
    r.length < s.length := by
  obtain ⟨chunk, hne, rfl, -⟩ := c.frame_chunk h
  have hpos : 0 < chunk.length := List.length_pos_of_ne_nil hne
  rw [List.length_append]
  omega

/-- More fuel than symbols changes nothing. -/
theorem drain_eq_flush {fuel : ℕ} {s : List σ} (h : s.length < fuel) :
    c.drain fuel s = c.flush s := by
  induction fuel using Nat.strong_induction_on generalizing s with
  | _ fuel ih =>
    cases fuel with
    | zero => omega
    | succ fuel =>
      unfold flush
      rw [drain, drain]
      cases hfront : c.front s with
      | more => rfl
      | bad e => rfl
      | frame m rest =>
        have hlt := c.length_lt_of_frame hfront
        have hleft : c.drain fuel rest = c.flush rest := ih fuel (by omega) (by omega)
        have hright : c.drain s.length rest = c.flush rest := by
          rcases Nat.lt_or_ge s.length (fuel + 1) with hs | hs
          · exact ih s.length hs (by omega)
          · omega
        simp only [hleft, hright]

theorem flush_of_more {s : List σ} (h : c.front s = .more) : c.flush s = ([], s) := by
  rw [flush, drain, h]

theorem flush_of_bad {s : List σ} {e : ε} (h : c.front s = .bad e) :
    c.flush s = ([.error e], []) := by
  rw [flush, drain, h]

theorem flush_of_frame {s rest : List σ} {m : β} (h : c.front s = .frame m rest) :
    c.flush s = (.ok m :: (c.flush rest).1, (c.flush rest).2) := by
  have hfuel := c.drain_eq_flush (c.length_lt_of_frame h)
  rw [flush, drain, h]
  simp only [hfuel]

/-! ## Where the loop gets to -/

/-- Cutting the frames `ms` off `s` leads to `u`. -/
inductive Reaches : List σ → List β → List σ → Prop
  | stay (s : List σ) : Reaches s [] s
  | cut {s r u : List σ} {m : β} {ms : List β} (h : c.front s = .frame m r)
      (hrest : Reaches r ms u) : Reaches s (m :: ms) u

variable {c}

/-- The loop gets to a front that is no frame. -/
theorem exists_reaches (s : List σ) :
    ∃ ms u, c.Reaches s ms u ∧ (c.front u = .more ∨ ∃ e, c.front u = .bad e) := by
  induction hn : s.length using Nat.strong_induction_on generalizing s with
  | _ n ih =>
    cases hfront : c.front s with
    | more => exact ⟨[], s, .stay s, .inl hfront⟩
    | bad e => exact ⟨[], s, .stay s, .inr ⟨e, hfront⟩⟩
    | frame m r =>
      have hlt := c.length_lt_of_frame hfront
      obtain ⟨ms, u, hreach, hu⟩ := ih r.length (by omega) r rfl
      exact ⟨m :: ms, u, .cut hfront hreach, hu⟩

/-- The frames are a part of the stream that is cut the same whatever follows. -/
theorem Reaches.split {s u : List σ} {ms : List β} (h : c.Reaches s ms u) :
    ∃ p, s = p ++ u ∧ ∀ t, c.Reaches (p ++ t) ms t := by
  induction h with
  | stay s => exact ⟨[], rfl, fun t => .stay t⟩
  | cut hfront _ ih =>
    obtain ⟨chunk, -, rfl, hchunk⟩ := c.frame_chunk hfront
    obtain ⟨p, rfl, hp⟩ := ih
    refine ⟨chunk ++ p, by rw [List.append_assoc], fun t => ?_⟩
    rw [List.append_assoc]
    exact .cut (hchunk _) (hp t)

/-- What follows is carried along. -/
theorem Reaches.append {s u : List σ} {ms : List β} (h : c.Reaches s ms u) (t : List σ) :
    c.Reaches (s ++ t) ms (u ++ t) := by
  obtain ⟨p, rfl, hp⟩ := h.split
  rw [List.append_assoc]
  exact hp _

/-- Frames cut off one after the other. -/
theorem Reaches.trans {s u v : List σ} {ms ns : List β} (h : c.Reaches s ms u)
    (h' : c.Reaches u ns v) : c.Reaches s (ms ++ ns) v := by
  induction h with
  | stay s => exact h'
  | cut hfront _ ih => exact .cut hfront (ih h')

/-- A run of the loop to its end goes through every place it reaches. -/
theorem Reaches.through {s x u : List σ} {ms ns : List β} (hx : c.Reaches s ms x)
    (hu : c.Reaches s ns u) (hend : ∀ m r, c.front u ≠ .frame m r) :
    ∃ ls, ns = ms ++ ls ∧ c.Reaches x ls u := by
  induction hx generalizing ns with
  | stay s => exact ⟨ns, rfl, hu⟩
  | cut hfront _ ih =>
    cases hu with
    | stay => exact absurd hfront (hend _ _)
    | cut hfront' hrest =>
      rw [hfront] at hfront'
      cases hfront'
      obtain ⟨ls, rfl, hls⟩ := ih hrest
      exact ⟨ls, rfl, hls⟩

/-- Where the loop stops it stays. -/
theorem Reaches.eq_of_stop {s u : List σ} {ms : List β} (h : c.Reaches s ms u)
    (hend : ∀ m r, c.front s ≠ .frame m r) : ms = [] ∧ u = s := by
  cases h with
  | stay => exact ⟨rfl, rfl⟩
  | cut hfront _ => exact absurd hfront (hend _ _)

/-- What is left does not depend on anything but the frames that were cut off. -/
theorem Reaches.unique {s u v : List σ} {ms : List β} (h : c.Reaches s ms u)
    (h' : c.Reaches s ms v) : u = v := by
  induction h with
  | stay s =>
    cases h'
    rfl
  | cut hfront _ ih =>
    cases h' with
    | cut hfront' hrest =>
      rw [hfront] at hfront'
      cases hfront'
      exact ih hrest

/-- The loop emits the frames it cuts off. -/
theorem Reaches.flush {s u : List σ} {ms : List β} (h : c.Reaches s ms u) :
    c.flush s = (ms.map .ok ++ (c.flush u).1, (c.flush u).2) := by
  induction h with
  | stay s => rfl
  | cut hfront _ ih =>
    rw [c.flush_of_frame hfront, ih]
    rfl

theorem no_frame_of_more {s : List σ} (h : c.front s = .more) (m : β) (r : List σ) :
    c.front s ≠ .frame m r := by
  rw [h]
  nofun

theorem no_frame_of_bad {s : List σ} {e : ε} (h : c.front s = .bad e) (m : β) (r : List σ) :
    c.front s ≠ .frame m r := by
  rw [h]
  nofun

/-! ## Chunks -/

theorem feed_nil (buffer : List σ) : c.feed buffer [] = ([], buffer) := rfl

theorem feed_cons (buffer chunk : List σ) (chunks : List (List σ)) :
    c.feed buffer (chunk :: chunks) =
      ((c.flush (buffer ++ chunk)).1 ++ (c.feed (c.flush (buffer ++ chunk)).2 chunks).1,
        (c.feed (c.flush (buffer ++ chunk)).2 chunks).2) := rfl

/-- **Without a bad front the chunks do not matter**: what arrives in chunks is cut
as if it had arrived at once. -/
theorem feed_of_more {buffer u : List σ} {chunks : List (List σ)} {ms : List β}
    (hbuffer : c.front buffer = .more) (hreach : c.Reaches (buffer ++ chunks.flatten) ms u)
    (hu : c.front u = .more) : c.feed buffer chunks = (ms.map .ok, u) := by
  induction chunks generalizing buffer ms with
  | nil =>
    rw [List.flatten_nil, List.append_nil] at hreach
    obtain ⟨rfl, rfl⟩ := hreach.eq_of_stop (no_frame_of_more hbuffer)
    rfl
  | cons chunk chunks ih =>
    obtain ⟨ns, x, hx, hstop⟩ := exists_reaches (c := c) (buffer ++ chunk)
    rw [List.flatten_cons, ← List.append_assoc] at hreach
    obtain ⟨ls, rfl, hls⟩ := (hx.append chunks.flatten).through hreach (no_frame_of_more hu)
    rcases hstop with hmore | ⟨e, hbad⟩
    · rw [feed_cons, hx.flush, c.flush_of_more hmore]
      simp only [List.append_nil]
      rw [ih hmore hls, List.map_append]
    · -- a bad front stays bad, but the loop ends elsewhere
      have hbad' := c.bad_append chunks.flatten hbad
      obtain ⟨-, rfl⟩ := hls.eq_of_stop (no_frame_of_bad hbad')
      rw [hu] at hbad'
      cases hbad'

/-- **At a bad front** the receiver drops the rest of the chunk in which it has seen
enough to tell, and starts afresh with the chunks after it. -/
theorem feed_of_bad {buffer u : List σ} {chunks : List (List σ)} {ms : List β} {e : ε}
    (hbuffer : c.front buffer = .more) (hreach : c.Reaches (buffer ++ chunks.flatten) ms u)
    (hu : c.front u = .bad e) :
    ∃ w later, u = w ++ List.flatten later ∧ c.front w = .bad e ∧
      c.feed buffer chunks =
        (ms.map .ok ++ .error e :: (c.feed [] later).1, (c.feed [] later).2) := by
  induction chunks generalizing buffer ms with
  | nil =>
    rw [List.flatten_nil, List.append_nil] at hreach
    obtain ⟨-, rfl⟩ := hreach.eq_of_stop (no_frame_of_more hbuffer)
    rw [hu] at hbuffer
    cases hbuffer
  | cons chunk chunks ih =>
    obtain ⟨ns, x, hx, hstop⟩ := exists_reaches (c := c) (buffer ++ chunk)
    rw [List.flatten_cons, ← List.append_assoc] at hreach
    obtain ⟨ls, rfl, hls⟩ := (hx.append chunks.flatten).through hreach (no_frame_of_bad hu)
    rcases hstop with hmore | ⟨e', hbad⟩
    · obtain ⟨w, later, hw, hbad, hfeed⟩ := ih hmore hls
      refine ⟨w, later, hw, hbad, ?_⟩
      rw [feed_cons, hx.flush, c.flush_of_more hmore]
      simp only [List.append_nil]
      rw [hfeed, List.map_append, List.append_assoc]
    · have hbad' := c.bad_append chunks.flatten hbad
      obtain ⟨rfl, rfl⟩ := hls.eq_of_stop (no_frame_of_bad hbad')
      rw [hu] at hbad'
      cases hbad'
      refine ⟨x, chunks, rfl, hbad, ?_⟩
      rw [feed_cons, hx.flush, c.flush_of_bad hbad, List.append_nil, List.append_assoc]
      rfl

/-! ## Frames that were written -/

/-- `encode m` is a frame of `m`, whatever follows it. -/
def Encodes (c : Cutter σ ε β) (encode : β → List σ) (m : β) : Prop :=
  ∀ t, c.front (encode m ++ t) = .frame m t

theorem reaches_frames {encode : β → List σ} {ms : List β} (h : ∀ m ∈ ms, c.Encodes encode m)
    (t : List σ) : c.Reaches ((ms.map encode).flatten ++ t) ms t := by
  induction ms with
  | nil => exact .stay t
  | cons m ms ih =>
    rw [List.map_cons, List.flatten_cons, List.append_assoc]
    exact .cut (h m (by simp) _) (ih (fun n hn => h n (by simp [hn])))

/-- **Frames are read back**, however they are split into chunks. -/
theorem feed_frames {encode : β → List σ} {ms : List β} {chunks : List (List σ)}
    (h : ∀ m ∈ ms, c.Encodes encode m) (hsplit : chunks.flatten = (ms.map encode).flatten) :
    c.feed [] chunks = (ms.map .ok, []) := by
  have hreach := reaches_frames h []
  rw [List.append_nil, ← hsplit] at hreach
  exact feed_of_more c.front_nil hreach c.front_nil

/-! ## Messages and chunks -/

/-- The messages among what was emitted. -/
def messages (emitted : List (Except ε β)) : List β := emitted.filterMap Except.toOption

theorem messages_ok (ms : List β) : messages (ms.map (Except.ok (ε := ε))) = ms := by
  unfold messages
  rw [List.filterMap_map]
  exact List.filterMap_some

theorem messages_bad (ms : List β) (e : ε) (emitted : List (Except ε β)) :
    messages (ms.map .ok ++ .error e :: emitted) = ms ++ messages emitted := by
  have hok := messages_ok (ε := ε) ms
  unfold messages at hok ⊢
  rw [List.filterMap_append, hok]
  rfl

/-- Any two ways of splitting the stream give the same messages. -/
def ChunkIndependent (c : Cutter σ ε β) (stream : List σ) : Prop :=
  ∀ chunks chunks' : List (List σ), chunks.flatten = stream → chunks'.flatten = stream →
    messages (c.feed [] chunks).1 = messages (c.feed [] chunks').1

/-- Nothing after a bad front can be taken for a frame: however much of it was needed
to tell that it is bad, what is left does not start with one. -/
def Silent (c : Cutter σ ε β) (u : List σ) : Prop :=
  ∀ w v, u = w ++ v → (∃ e, c.front w = .bad e) → ∀ m r, c.front v ≠ .frame m r

/-- After a bad front with nothing to be taken for a frame there are no messages. -/
theorem Silent.messages_eq_nil {u w : List σ} (hu : c.Silent u) {chunks : List (List σ)}
    (hsplit : u = w ++ chunks.flatten) (hw : ∃ e, c.front w = .bad e) :
    messages (c.feed [] chunks).1 = [] := by
  induction hn : chunks.flatten.length using Nat.strong_induction_on generalizing w chunks with
  | _ n ih =>
    obtain ⟨e, he⟩ := hw
    obtain ⟨ms, x, hx, hstop⟩ := exists_reaches (c := c) chunks.flatten
    obtain ⟨rfl, rfl⟩ := hx.eq_of_stop (hu w _ hsplit ⟨e, he⟩)
    rcases hstop with hmore | ⟨e', hbad⟩
    · rw [feed_of_more c.front_nil hx hmore]
      rfl
    · obtain ⟨w', later, hlater, hw', hfeed⟩ := feed_of_bad c.front_nil hx hbad
      have hne : w' ≠ [] := by
        rintro rfl
        rw [c.front_nil] at hw'
        cases hw'
      have hpos : 0 < w'.length := List.length_pos_of_ne_nil hne
      rw [hfeed, messages_bad, List.nil_append]
      refine ih later.flatten.length ?_ (w := w ++ w') ?_ ⟨e, c.bad_append w' he⟩ rfl
      · rw [← hn, hlater, List.length_append]
        omega
      · rw [hsplit, hlater, List.append_assoc]

/-- **Chunks make no difference** to the messages exactly when the stream has no bad
front, or nothing after its first one can be taken for a frame. -/
theorem chunkIndependent_iff (stream : List σ) :
    c.ChunkIndependent stream ↔
      ∀ ms u, c.Reaches stream ms u → (∃ e, c.front u = .bad e) → c.Silent u := by
  constructor
  · intro h ms u hreach ⟨e, hu⟩ w v hsplit ⟨e', hw⟩ m r hv
    obtain ⟨p, rfl, hp⟩ := hreach.split
    have hpw := (hp w).flush
    rw [c.flush_of_bad hw] at hpw
    have hwhole := hreach.flush
    rw [c.flush_of_bad hu] at hwhole
    -- all at once, and with a chunk that ends where the front is seen to be bad
    have hmessages := h [p ++ u] [p ++ w, v] (by simp) (by simp [hsplit])
    simp only [feed_cons, feed_nil, List.nil_append, List.append_nil, hpw, hwhole,
      c.flush_of_frame hv, List.append_assoc] at hmessages
    rw [show [Except.error (α := β) e] = Except.error e :: [] from rfl, messages_bad] at hmessages
    simp only [List.cons_append, List.nil_append] at hmessages
    rw [messages_bad] at hmessages
    have hnil : [] = m :: messages (c.flush r).1 := List.append_cancel_left hmessages
    cases hnil
  · intro h chunks chunks' hchunks hchunks'
    obtain ⟨ms, u, hreach, hstop⟩ := exists_reaches (c := c) stream
    have hboth : ∀ chunks : List (List σ), chunks.flatten = stream →
        messages (c.feed [] chunks).1 = ms := by
      rintro chunks rfl
      rcases hstop with hmore | ⟨e, hbad⟩
      · rw [feed_of_more c.front_nil hreach hmore, messages_ok]
      · obtain ⟨w, later, hsplit, hw, hfeed⟩ := feed_of_bad c.front_nil hreach hbad
        have hsilent := h ms u hreach ⟨e, hbad⟩
        rw [hfeed, messages_bad, hsilent.messages_eq_nil hsplit ⟨e, hw⟩, List.append_nil]
    rw [hboth chunks hchunks, hboth chunks' hchunks']

end Cutter

end Framing
