/-
# Net messages are read back

Every struct of `antelope/p2p/types.hpp` writes its fields one after the other, and
reads them in the same order.  The length prefixes hold 32 bits, which a message of
less than `2 ^ 32` bytes cannot exceed, so that what has to be asked of a message is
only the shape of its keys and signatures and that its texts are UTF-8.

* `Coding.vector_roundTrips`, `Coding.optional_roundTrips` : the two containers;
* `netMessage_roundTrips` : a message that was written is read back.
-/
import Dwarfkit.Antelope.P2P.Types
import Dwarfkit.Antelope.Serializer.Structs

namespace Dwarfkit

namespace P2P

open Wire AbiTraits

/-! ## Codings -/

/-- The reader takes back what the writer wrote for a valid value, if it is not too
long for a length prefix, and the writer writes something. -/
def Coding.RoundTrips {α : Type} (t : Coding α) (valid : α → Prop) : Prop :=
  ∀ x bytes, valid x → t.toABI x = .ok bytes → bytes.length < 2 ^ 32 →
    bytes ≠ [] ∧ Reads t.fromABI bytes x

/-- A typed serialization is a coding once its json form is forgotten. -/
def binary {α : Type} (t : AbiTraits α) : Coding α where
  toABI := t.toABI
  fromABI := t.fromABI

theorem binary_roundTrips {α : Type} {t : AbiTraits α} {valid : α → Prop}
    (ht : t.RoundTrips valid) : (binary t).RoundTrips valid :=
  fun x bytes hx h _ => ht x bytes hx h

/-- The bytes themselves are no longer than what is written of them. -/
theorem length_lt_of_writeString {v : Str} (h : (writeString v).length < 2 ^ 32) :
    v.length < 2 ^ 32 := by
  unfold writeString at h
  rw [List.length_append] at h
  omega

theorem string_coded : (binary string).RoundTrips (fun s => isValidUTF8 s = true) := by
  intro x written hx h hsize
  cases h
  exact string_roundTrips x _ ⟨hx, length_lt_of_writeString hsize⟩ rfl

theorem bytes_coded : (binary bytes).RoundTrips (fun _ => True) := by
  intro x written _ h hsize
  cases h
  exact bytes_roundTrips x _ (length_lt_of_writeString hsize) rfl

/-- The items of a list that was written, each with its chunk. -/
theorem chunks_of_mapM {α : Type} {t : Coding α} {valid : α → Prop} (ht : t.RoundTrips valid)
    {l : List α} {items : List Bytes} (hvalid : ∀ x ∈ l, valid x)
    (h : l.mapM t.toABI = .ok items) (hsize : items.flatten.length < 2 ^ 32) :
    List.Forall₂ (fun x chunk => chunk ≠ [] ∧ Reads t.fromABI chunk x) l items := by
  induction l generalizing items with
  | nil =>
    cases h
    exact .nil
  | cons x l ih =>
    rw [List.mapM_cons] at h
    obtain ⟨chunk, hchunk, h⟩ := bind_eq_ok.mp h
    obtain ⟨rest, hrest, h⟩ := bind_eq_ok.mp h
    cases h
    rw [List.flatten_cons, List.length_append] at hsize
    have hx := ht x chunk (hvalid x (by simp)) hchunk (by omega)
    exact .cons hx (ih (fun y hy => hvalid y (by simp [hy])) hrest (by omega))

/-- A chunk for each item, none of them empty. -/
theorem length_le_flatten {α : Type} {P : α → Bytes → Prop} {l : List α} {items : List Bytes}
    (h : List.Forall₂ (fun x chunk => chunk ≠ [] ∧ P x chunk) l items) :
    l.length ≤ items.flatten.length := by
  induction h with
  | nil => exact le_rfl
  | @cons x chunk l items hx _ ih =>
    have hpos : 0 < chunk.length := List.length_pos_of_ne_nil hx.1
    rw [List.length_cons, List.flatten_cons, List.length_append]
    omega

/-- **Lists are read back.**  Their length needs no condition: every item takes a byte. -/
theorem Coding.vector_roundTrips {α : Type} {t : Coding α} {valid : α → Prop}
    (ht : t.RoundTrips valid) : t.vector.RoundTrips (fun l => ∀ x ∈ l, valid x) := by
  intro l written hvalid h hsize
  obtain ⟨items, hitems, h⟩ := bind_eq_ok.mp h
  cases h
  rw [List.length_append] at hsize
  have hchunks := chunks_of_mapM ht hvalid hitems (by omega)
  have hlen := length_le_flatten hchunks
  have hn : (l.length.toUInt32).toNat = l.length := by
    simp only [Nat.toUInt32, UInt32.toNat_ofNat']
    omega
  refine ⟨?_, ?_⟩
  · intro hnil
    exact writeVaruint32_ne_nil _ (List.append_eq_nil_iff.mp hnil).1
  · refine (reads_readVaruint32 l.length.toUInt32).bind ?_
    rw [hn]
    exact reads_readItems hchunks []

/-- **Optionals are read back.** -/
theorem Coding.optional_roundTrips {α : Type} {t : Coding α} {valid : α → Prop}
    (ht : t.RoundTrips valid) : t.optional.RoundTrips (fun o => ∀ x ∈ o, valid x) := by
  intro o written hvalid h hsize
  cases o with
  | none =>
    cases h
    exact ⟨by simp, fun _ => rfl⟩
  | some x =>
    obtain ⟨value, hvalue, h⟩ := bind_eq_ok.mp h
    cases h
    rw [List.length_cons] at hsize
    obtain ⟨-, hread⟩ := ht x value (hvalid x rfl) hvalue (by omega)
    exact ⟨by simp, (reads_readByte 1).bind (hread.bind_pure some)⟩

/-! ## Fields -/

theorem fields_nil {written : Bytes} : fields [] = .ok written ↔ written = [] := by
  constructor
  · intro h
    cases h
    rfl
  · rintro rfl
    rfl

/-- The first field comes first. -/
theorem fields_cons {part : Result Bytes} {parts : List (Result Bytes)} {written : Bytes} :
    fields (part :: parts) = .ok written ↔
      ∃ first rest, part = .ok first ∧ fields parts = .ok rest ∧ written = first ++ rest := by
  unfold fields
  rw [List.mapM_cons]
  constructor
  · intro h
    obtain ⟨items, hitems, h⟩ := bind_eq_ok.mp h
    obtain ⟨first, hfirst, hitems⟩ := bind_eq_ok.mp hitems
    obtain ⟨others, hothers, hitems⟩ := bind_eq_ok.mp hitems
    cases hitems
    cases h
    exact ⟨first, others.flatten, hfirst, by rw [hothers]; rfl, rfl⟩
  · rintro ⟨first, rest, hfirst, hrest, rfl⟩
    obtain ⟨others, hothers, hrest⟩ := bind_eq_ok.mp hrest
    cases hrest
    show ((part >>= fun first => parts.mapM id >>= fun others => pure (first :: others)) >>= _) = _
    rw [hfirst, ok_bind, hothers]
    rfl

/-- A struct of fields is not empty if its first field is not. -/
theorem append_ne_nil_of_left {first : Bytes} (h : first ≠ []) (rest : Bytes) :
    first ++ rest ≠ [] := by
  intro hnil
  exact h (List.append_eq_nil_iff.mp hnil).1

/-! ## The structs -/

/-- A handshake as a peer can read it. -/
structure HandshakeMessage.Shaped (m : HandshakeMessage) : Prop where
  key : m.key.WireShaped
  sig : m.sig.WireShaped
  p2pAddress : isValidUTF8 m.p2pAddress = true
  os : isValidUTF8 m.os = true
  agent : isValidUTF8 m.agent = true

theorem handshakeMessage_roundTrips (p : Platform) :
    (handshakeMessage p).RoundTrips HandshakeMessage.Shaped := by
  intro m written hm h hsize
  simp only [handshakeMessage, fields_cons, fields_nil] at h
  obtain ⟨networkVersion, _, h₁, ⟨chainId, _, h₂, ⟨nodeId, _, h₃, ⟨key, _, h₄, ⟨time, _, h₅,
    ⟨token, _, h₆, ⟨sig, _, h₇, ⟨p2pAddress, _, h₈, ⟨number, _, h₉, ⟨blockId, _, h₁₀,
    ⟨headNum, _, h₁₁, ⟨headId, _, h₁₂, ⟨os, _, h₁₃, ⟨agent, _, h₁₄, ⟨generation, _, h₁₅,
    rfl, rfl⟩, rfl⟩, rfl⟩, rfl⟩, rfl⟩, rfl⟩, rfl⟩, rfl⟩, rfl⟩, rfl⟩, rfl⟩, rfl⟩, rfl⟩, rfl⟩,
    rfl⟩ := h
  simp only [List.length_append] at hsize
  obtain ⟨hne, r₁⟩ := uint16_roundTrips _ _ trivial h₁
  obtain ⟨-, r₂⟩ := checksum_roundTrips _ 32 (by norm_num) _ _ trivial h₂
  obtain ⟨-, r₃⟩ := checksum_roundTrips _ 32 (by norm_num) _ _ trivial h₃
  obtain ⟨-, r₄⟩ := publicKey_roundTrips p _ _ hm.key h₄
  obtain ⟨-, r₅⟩ := int64_roundTrips _ _ trivial h₅
  obtain ⟨-, r₆⟩ := checksum_roundTrips _ 32 (by norm_num) _ _ trivial h₆
  obtain ⟨-, r₇⟩ := signature_roundTrips p _ _ hm.sig h₇
  obtain ⟨-, r₈⟩ := string_coded _ _ hm.p2pAddress h₈ (by omega)
  obtain ⟨-, r₉⟩ := uint32_roundTrips _ _ trivial h₉
  obtain ⟨-, r₁₀⟩ := checksum_roundTrips _ 32 (by norm_num) _ _ trivial h₁₀
  obtain ⟨-, r₁₁⟩ := uint32_roundTrips _ _ trivial h₁₁
  obtain ⟨-, r₁₂⟩ := checksum_roundTrips _ 32 (by norm_num) _ _ trivial h₁₂
  obtain ⟨-, r₁₃⟩ := string_coded _ _ hm.os h₁₃ (by omega)
  obtain ⟨-, r₁₄⟩ := string_coded _ _ hm.agent h₁₄ (by omega)
  obtain ⟨-, r₁₅⟩ := int16_roundTrips _ _ trivial h₁₅
  refine ⟨append_ne_nil_of_left hne _, ?_⟩
  rw [List.append_nil]
  exact r₁.bind (r₂.bind (r₃.bind (r₄.bind (r₅.bind (r₆.bind (r₇.bind (r₈.bind (r₉.bind
    (r₁₀.bind (r₁₁.bind (r₁₂.bind (r₁₃.bind (r₁₄.bind (r₁₅.bind_pure _))))))))))))))

theorem chainSizeMessage_roundTrips : chainSizeMessage.RoundTrips (fun _ => True) := by
  intro m written _ h _
  simp only [chainSizeMessage, fields_cons, fields_nil] at h
  obtain ⟨number, _, h₁, ⟨blockId, _, h₂, ⟨headNum, _, h₃, ⟨headId, _, h₄, rfl, rfl⟩, rfl⟩, rfl⟩,
    rfl⟩ := h
  obtain ⟨hne, r₁⟩ := uint32_roundTrips _ _ trivial h₁
  obtain ⟨-, r₂⟩ := checksum_roundTrips _ 32 (by norm_num) _ _ trivial h₂
  obtain ⟨-, r₃⟩ := uint32_roundTrips _ _ trivial h₃
  obtain ⟨-, r₄⟩ := checksum_roundTrips _ 32 (by norm_num) _ _ trivial h₄
  refine ⟨append_ne_nil_of_left hne _, ?_⟩
  rw [List.append_nil]
  exact r₁.bind (r₂.bind (r₃.bind (r₄.bind_pure _)))

theorem goAwayMessage_roundTrips : goAwayMessage.RoundTrips (fun _ => True) := by
  intro m written _ h _
  simp only [goAwayMessage, fields_cons, fields_nil] at h
  obtain ⟨reason, _, h₁, ⟨nodeId, _, h₂, rfl, rfl⟩, rfl⟩ := h
  obtain ⟨hne, r₁⟩ := uint8_roundTrips _ _ trivial h₁
  obtain ⟨-, r₂⟩ := checksum_roundTrips _ 32 (by norm_num) _ _ trivial h₂
  refine ⟨append_ne_nil_of_left hne _, ?_⟩
  rw [List.append_nil]
  exact r₁.bind (r₂.bind_pure _)

theorem timeMessage_roundTrips : timeMessage.RoundTrips (fun _ => True) := by
  intro m written _ h _
  simp only [timeMessage, fields_cons, fields_nil] at h
  obtain ⟨org, _, h₁, ⟨rec_, _, h₂, ⟨xmt, _, h₃, ⟨dst, _, h₄, rfl, rfl⟩, rfl⟩, rfl⟩, rfl⟩ := h
  obtain ⟨hne, r₁⟩ := int64_roundTrips _ _ trivial h₁
  obtain ⟨-, r₂⟩ := int64_roundTrips _ _ trivial h₂
  obtain ⟨-, r₃⟩ := int64_roundTrips _ _ trivial h₃
  obtain ⟨-, r₄⟩ := int64_roundTrips _ _ trivial h₄
  refine ⟨append_ne_nil_of_left hne _, ?_⟩
  rw [List.append_nil]
  exact r₁.bind (r₂.bind (r₃.bind (r₄.bind_pure _)))

/-- Lists of checksums, as `notice_message` and `request_message` have them. -/
theorem checksums_roundTrips (abiName : Str) {l : List Checksum256} {written : Bytes}
    (h : (checksum abiName 32).vector.toABI l = .ok written) (hsize : written.length < 2 ^ 32) :
    written ≠ [] ∧ Reads (checksum abiName 32).vector.fromABI written l :=
  Coding.vector_roundTrips (binary_roundTrips (checksum_roundTrips abiName 32 (by norm_num)))
    l written (fun _ _ => trivial) h hsize

theorem noticeMessage_roundTrips : noticeMessage.RoundTrips (fun _ => True) := by
  intro m written _ h hsize
  simp only [noticeMessage, fields_cons, fields_nil] at h
  obtain ⟨knownTrx, _, h₁, ⟨knownBlocks, _, h₂, rfl, rfl⟩, rfl⟩ := h
  simp only [List.length_append] at hsize
  obtain ⟨hne, r₁⟩ := checksums_roundTrips _ h₁ (by omega)
  obtain ⟨-, r₂⟩ := checksums_roundTrips _ h₂ (by omega)
  refine ⟨append_ne_nil_of_left hne _, ?_⟩
  rw [List.append_nil]
  exact r₁.bind (r₂.bind_pure _)

theorem requestMessage_roundTrips : requestMessage.RoundTrips (fun _ => True) := by
  intro m written _ h hsize
  simp only [requestMessage, fields_cons, fields_nil] at h
  obtain ⟨reqTrx, _, h₁, ⟨reqBlocks, _, h₂, rfl, rfl⟩, rfl⟩ := h
  simp only [List.length_append] at hsize
  obtain ⟨hne, r₁⟩ := checksums_roundTrips _ h₁ (by omega)
  obtain ⟨-, r₂⟩ := checksums_roundTrips _ h₂ (by omega)
  refine ⟨append_ne_nil_of_left hne _, ?_⟩
  rw [List.append_nil]
  exact r₁.bind (r₂.bind_pure _)

theorem syncRequestMessage_roundTrips : syncRequestMessage.RoundTrips (fun _ => True) := by
  intro m written _ h _
  simp only [syncRequestMessage, fields_cons, fields_nil] at h
  obtain ⟨startBlock, _, h₁, ⟨endBlock, _, h₂, rfl, rfl⟩, rfl⟩ := h
  obtain ⟨hne, r₁⟩ := uint32_roundTrips _ _ trivial h₁
  obtain ⟨-, r₂⟩ := uint32_roundTrips _ _ trivial h₂
  refine ⟨append_ne_nil_of_left hne _, ?_⟩
  rw [List.append_nil]
  exact r₁.bind (r₂.bind_pure _)

/-! ## Blocks -/

theorem newProducersEntry_roundTrips (p : Platform) :
    (newProducersEntry p).RoundTrips (fun e => e.block_signing_key.WireShaped) := by
  intro e written he h _
  simp only [newProducersEntry, fields_cons, fields_nil] at h
  obtain ⟨producer_name, _, h₁, ⟨block_signing_key, _, h₂, rfl, rfl⟩, rfl⟩ := h
  obtain ⟨hne, r₁⟩ := name_roundTrips _ _ trivial h₁
  obtain ⟨-, r₂⟩ := publicKey_roundTrips p _ _ he h₂
  refine ⟨append_ne_nil_of_left hne _, ?_⟩
  rw [List.append_nil]
  exact r₁.bind (r₂.bind_pure _)

/-- A schedule whose keys a peer can read. -/
def NewProducers.Shaped (s : NewProducers) : Prop :=
  ∀ e ∈ s.producers, e.block_signing_key.WireShaped

theorem newProducers_roundTrips (p : Platform) :
    (newProducers p).RoundTrips NewProducers.Shaped := by
  intro s written hs h hsize
  simp only [newProducers, fields_cons, fields_nil] at h
  obtain ⟨version, _, h₁, ⟨producers, _, h₂, rfl, rfl⟩, rfl⟩ := h
  simp only [List.length_append] at hsize
  obtain ⟨hne, r₁⟩ := uint32_roundTrips _ _ trivial h₁
  obtain ⟨-, r₂⟩ := Coding.vector_roundTrips (newProducersEntry_roundTrips p) _ _ hs h₂ (by omega)
  refine ⟨append_ne_nil_of_left hne _, ?_⟩
  rw [List.append_nil]
  exact r₁.bind (r₂.bind_pure _)

theorem blockExtension_roundTrips : blockExtension.RoundTrips (fun _ => True) := by
  intro x written _ h hsize
  simp only [blockExtension, fields_cons, fields_nil] at h
  obtain ⟨type, _, h₁, ⟨data, _, h₂, rfl, rfl⟩, rfl⟩ := h
  simp only [List.length_append] at hsize
  obtain ⟨hne, r₁⟩ := uint16_roundTrips _ _ trivial h₁
  obtain ⟨-, r₂⟩ := bytes_coded _ _ trivial h₂ (by omega)
  refine ⟨append_ne_nil_of_left hne _, ?_⟩
  rw [List.append_nil]
  exact r₁.bind (r₂.bind_pure _)

theorem packedTransaction_roundTrips (p : Platform) :
    (packedTransaction p).RoundTrips (fun t => ∀ s ∈ t.signatures, s.WireShaped) := by
  intro t written ht h hsize
  simp only [packedTransaction, fields_cons, fields_nil] at h
  obtain ⟨signatures, _, h₁, ⟨compression, _, h₂, ⟨cfd, _, h₃, ⟨packed, _, h₄, rfl, rfl⟩, rfl⟩,
    rfl⟩, rfl⟩ := h
  simp only [List.length_append] at hsize
  obtain ⟨hne, r₁⟩ := Coding.vector_roundTrips (binary_roundTrips (signature_roundTrips p)) _ _ ht
    h₁ (by omega)
  obtain ⟨-, r₂⟩ := uint8_roundTrips _ _ trivial h₂
  obtain ⟨-, r₃⟩ := bytes_coded _ _ trivial h₃ (by omega)
  obtain ⟨-, r₄⟩ := bytes_coded _ _ trivial h₄ (by omega)
  refine ⟨append_ne_nil_of_left hne _, ?_⟩
  rw [List.append_nil]
  exact r₁.bind (r₂.bind (r₃.bind (r₄.bind_pure _)))

/-- An alternative is written behind its index. -/
theorem alternative_eq_ok {index : UInt32} {value : Result Bytes} {written : Bytes} :
    alternative index value = .ok written ↔
      ∃ bytes, value = .ok bytes ∧ written = writeVaruint32 index ++ bytes := by
  unfold alternative
  rw [bind_eq_ok]
  constructor
  · rintro ⟨bytes, hvalue, h⟩
    cases h
    exact ⟨bytes, hvalue, rfl⟩
  · rintro ⟨bytes, hvalue, rfl⟩
    exact ⟨bytes, hvalue, rfl⟩

/-- A transaction of a block as a peer can read it. -/
def TrxVariant.Shaped : TrxVariant → Prop
  | .id _ => True
  | .packed trx => ∀ s ∈ trx.signatures, s.WireShaped

theorem trxVariant_roundTrips (p : Platform) : (trxVariant p).RoundTrips TrxVariant.Shaped := by
  intro v written hv h hsize
  cases v with
  | id checksum =>
    obtain ⟨value, hvalue, rfl⟩ := alternative_eq_ok.mp h
    obtain ⟨-, hread⟩ := checksum_roundTrips _ 32 (by norm_num) _ _ trivial hvalue
    exact ⟨append_ne_nil_of_left (writeVaruint32_ne_nil 0) _,
      (reads_readVaruint32 0).bind (hread.map TrxVariant.id)⟩
  | packed trx =>
    obtain ⟨value, hvalue, rfl⟩ := alternative_eq_ok.mp h
    rw [List.length_append] at hsize
    obtain ⟨-, hread⟩ := packedTransaction_roundTrips p _ _ hv hvalue (by omega)
    exact ⟨append_ne_nil_of_left (writeVaruint32_ne_nil 1) _,
      (reads_readVaruint32 1).bind (hread.map TrxVariant.packed)⟩

theorem fullTransactionReceipt_roundTrips (p : Platform) :
    (fullTransactionReceipt p).RoundTrips (fun r => r.trx.Shaped) := by
  intro r written hr h hsize
  simp only [fullTransactionReceipt, fields_cons, fields_nil] at h
  obtain ⟨status, _, h₁, ⟨cpu, _, h₂, ⟨net, _, h₃, ⟨trx, _, h₄, rfl, rfl⟩, rfl⟩, rfl⟩, rfl⟩ := h
  simp only [List.length_append] at hsize
  obtain ⟨hne, r₁⟩ := uint8_roundTrips _ _ trivial h₁
  obtain ⟨-, r₂⟩ := uint32_roundTrips _ _ trivial h₂
  obtain ⟨-, r₃⟩ := varuint32_roundTrips _ _ trivial h₃
  obtain ⟨-, r₄⟩ := trxVariant_roundTrips p _ _ hr h₄ (by omega)
  refine ⟨append_ne_nil_of_left hne _, ?_⟩
  rw [List.append_nil]
  exact r₁.bind (r₂.bind (r₃.bind (r₄.bind_pure _)))

/-- `any` has no binary form: what was written held no header extension. -/
theorem headerExtensions_roundTrips {l : List Json} {written : Bytes}
    (h : any.vector.toABI l = .ok written) : written ≠ [] ∧ Reads any.vector.fromABI written l := by
  cases l with
  | nil =>
    cases h
    exact ⟨append_ne_nil_of_left (writeVaruint32_ne_nil 0) [],
      (reads_readVaruint32 0).bind (Reads.pure [])⟩
  | cons x l =>
    obtain ⟨items, hitems, -⟩ := bind_eq_ok.mp h
    rw [List.mapM_cons] at hitems
    obtain ⟨first, hfirst, -⟩ := bind_eq_ok.mp hitems
    cases hfirst

/-- A header whose schedule a peer can read. -/
def BlockHeader.Shaped (b : BlockHeader) : Prop := ∀ s ∈ b.new_producers, s.Shaped

theorem blockHeader_roundTrips (p : Platform) : (blockHeader p).RoundTrips BlockHeader.Shaped := by
  intro b written hb h hsize
  simp only [blockHeader, fields_cons, fields_nil] at h
  obtain ⟨timeSlot, _, h₁, ⟨producer, _, h₂, ⟨confirmed, _, h₃, ⟨previous, _, h₄, ⟨trx, _, h₅,
    ⟨action, _, h₆, ⟨version, _, h₇, ⟨producers, _, h₈, ⟨extensions, _, h₉, rfl, rfl⟩, rfl⟩, rfl⟩,
    rfl⟩, rfl⟩, rfl⟩, rfl⟩, rfl⟩, rfl⟩ := h
  simp only [List.length_append] at hsize
  obtain ⟨hne, r₁⟩ := uint32_roundTrips _ _ trivial h₁
  obtain ⟨-, r₂⟩ := name_roundTrips _ _ trivial h₂
  obtain ⟨-, r₃⟩ := uint16_roundTrips _ _ trivial h₃
  obtain ⟨-, r₄⟩ := checksum_roundTrips _ 32 (by norm_num) _ _ trivial h₄
  obtain ⟨-, r₅⟩ := checksum_roundTrips _ 32 (by norm_num) _ _ trivial h₅
  obtain ⟨-, r₆⟩ := checksum_roundTrips _ 32 (by norm_num) _ _ trivial h₆
  obtain ⟨-, r₇⟩ := uint32_roundTrips _ _ trivial h₇
  obtain ⟨-, r₈⟩ := Coding.optional_roundTrips (newProducers_roundTrips p) _ _ hb h₈ (by omega)
  obtain ⟨-, r₉⟩ := headerExtensions_roundTrips h₉
  refine ⟨append_ne_nil_of_left hne _, ?_⟩
  rw [List.append_nil]
  exact r₁.bind (r₂.bind (r₃.bind (r₄.bind (r₅.bind (r₆.bind (r₇.bind (r₈.bind
    (r₉.bind_pure _))))))))

/-- A block as a peer can read it. -/
structure SignedBlock.Shaped (b : SignedBlock) : Prop where
  header : b.toBlockHeader.Shaped
  producer_signature : b.producer_signature.WireShaped
  transactions : ∀ r ∈ b.transactions, r.trx.Shaped

theorem signedBlock_roundTrips (p : Platform) : (signedBlock p).RoundTrips SignedBlock.Shaped := by
  intro b written hb h hsize
  simp only [signedBlock, fields_cons, fields_nil] at h
  obtain ⟨header, _, h₁, ⟨sig, _, h₂, ⟨transactions, _, h₃, ⟨extensions, _, h₄, rfl, rfl⟩, rfl⟩,
    rfl⟩, rfl⟩ := h
  simp only [List.length_append] at hsize
  obtain ⟨hne, r₁⟩ := blockHeader_roundTrips p _ _ hb.header h₁ (by omega)
  obtain ⟨-, r₂⟩ := signature_roundTrips p _ _ hb.producer_signature h₂
  obtain ⟨-, r₃⟩ := Coding.vector_roundTrips (fullTransactionReceipt_roundTrips p) _ _
    hb.transactions h₃ (by omega)
  obtain ⟨-, r₄⟩ := Coding.vector_roundTrips blockExtension_roundTrips _ _
    (fun _ _ => trivial) h₄ (by omega)
  refine ⟨append_ne_nil_of_left hne _, ?_⟩
  rw [List.append_nil]
  exact r₁.bind (r₂.bind (r₃.bind (r₄.bind_pure _)))

/-! ## The variant -/

/-- A message as a peer can read it: keys and signatures have the shape of their type,
texts are UTF-8. -/
def NetMessage.Shaped : NetMessage → Prop
  | .handshake_message m => m.Shaped
  | .signed_block b => b.Shaped
  | .packed_transaction t => ∀ s ∈ t.signatures, s.WireShaped
  | _ => True

/-- One alternative of the variant, read by the coding its index selects. -/
theorem reads_alternative {α : Type} {t : Coding α} {valid : α → Prop} (ht : t.RoundTrips valid)
    {read : UInt32 → Decoder NetMessage} {make : α → NetMessage} {index : UInt32} {x : α}
    {written : Bytes} (hread : read index = make <$> t.fromABI) (hx : valid x)
    (h : alternative index (t.toABI x) = .ok written) (hsize : written.length < 2 ^ 32) :
    written ≠ [] ∧ Reads (readVaruint32 >>= read) written (make x) := by
  obtain ⟨value, hvalue, rfl⟩ := alternative_eq_ok.mp h
  rw [List.length_append] at hsize
  obtain ⟨-, hvalue⟩ := ht x value hx hvalue (by omega)
  refine ⟨append_ne_nil_of_left (writeVaruint32_ne_nil index) _, ?_⟩
  refine (reads_readVaruint32 index).bind ?_
  rw [hread]
  exact hvalue.map make

/-- **Net messages are read back.** -/
theorem netMessage_roundTrips (p : Platform) : (netMessage p).RoundTrips NetMessage.Shaped := by
  intro m written hm h hsize
  cases m with
  | handshake_message m =>
    exact reads_alternative (handshakeMessage_roundTrips p) rfl hm h hsize
  | chain_size_message m => exact reads_alternative chainSizeMessage_roundTrips rfl trivial h hsize
  | go_away_message m => exact reads_alternative goAwayMessage_roundTrips rfl trivial h hsize
  | time_message m => exact reads_alternative timeMessage_roundTrips rfl trivial h hsize
  | notice_message m => exact reads_alternative noticeMessage_roundTrips rfl trivial h hsize
  | request_message m => exact reads_alternative requestMessage_roundTrips rfl trivial h hsize
  | sync_request_message m =>
    exact reads_alternative syncRequestMessage_roundTrips rfl trivial h hsize
  | signed_block b => exact reads_alternative (signedBlock_roundTrips p) rfl hm h hsize
  | packed_transaction t =>
    exact reads_alternative (packedTransaction_roundTrips p) rfl hm h hsize

end P2P

end Dwarfkit
