/-
# Signed and packed transactions

`SignedTransaction` and `PackedTransaction` of `antelope/chain/transaction.hpp`.  Packing
writes the transaction and the context free data apart from each other, and may compress
both; unpacking reads the transaction back.

* `getSignedTransaction_fromSigned` : what unpacking gives of a packed transaction;
* `getSignedTransaction_fromSigned_iff` : when that is the transaction that was packed.
-/
import Dwarfkit.Core.Zlib
import Dwarfkit.Antelope.Serializer.Tight

namespace Dwarfkit

/-- `SignedTransaction`. -/
structure SignedTransaction extends Transaction where
  signatures : List Signature := []
  context_free_data : List Bytes := []
  deriving DecidableEq, Repr

/-- `CompressionType`. -/
inductive CompressionType where
  | none
  | zlib
  deriving DecidableEq, Repr

/-- The enumerator's `uint8_t`. -/
def CompressionType.value : CompressionType → UInt8
  | none => 0
  | zlib => 1

/-- `PackedTransaction`. -/
structure PackedTransaction where
  signatures : List Signature := []
  compression : UInt8 := 0
  packed_context_free_data : Bytes := []
  packed_trx : Bytes := []
  deriving DecidableEq, Repr

namespace PackedTransaction

/-- Compress one of the two parts, if that is wanted. -/
def pack (z : ZlibFormat) (compression : CompressionType) (data : Bytes) : Result Bytes :=
  match compression with
  | .zlib => z.zlibCompress data
  | .none => .ok data

/-- `fromSigned`. -/
def fromSigned (z : ZlibFormat) (signed : SignedTransaction)
    (compression : CompressionType := .zlib) : Result PackedTransaction := do
  let packedTrx ← AbiTraits.transaction.toABI signed.toTransaction
  let packedCfd ← AbiTraits.bytes.vector.toABI signed.context_free_data
  let packed_trx ← pack z compression packedTrx
  let packed_context_free_data ← pack z compression packedCfd
  return { signatures := signed.signatures
           compression := compression.value
           packed_context_free_data
           packed_trx }

/-- `Serializer::decode<Transaction>`: bytes after the transaction are ignored. -/
def decodeTransaction (data : Bytes) : Result Transaction := do
  let (transaction, _) ← AbiTraits.transaction.fromABI.run data
  return transaction

/-- `getTransaction`. -/
def getTransaction (z : ZlibFormat) (packed : PackedTransaction) : Result Transaction :=
  match packed.compression.toNat with
  | 0 => decodeTransaction packed.packed_trx
  | 1 => do
    let inflated ← z.zlibUncompress packed.packed_trx
    decodeTransaction inflated
  | n => err .invalid (lit "Unknown transaction compression " ++ natToString n)

/-- `getSignedTransaction`: the context free data is not decoded. -/
def getSignedTransaction (z : ZlibFormat) (packed : PackedTransaction) :
    Result SignedTransaction := do
  let transaction ← packed.getTransaction z
  return { toTransaction := transaction, signatures := packed.signatures }

/-- Pack a transaction and unpack it again. -/
def repack (z : ZlibFormat) (signed : SignedTransaction) (compression : CompressionType) :
    Result SignedTransaction := do
  let packed ← fromSigned z signed compression
  packed.getSignedTransaction z

/-! ## The round trip -/

variable {z : ZlibFormat}

/-- Packing a part does not fail. -/
theorem exists_pack (hz : z.Lawful) (compression : CompressionType) (data : Bytes) :
    ∃ packed, pack z compression data = .ok packed := by
  cases compression with
  | none => exact ⟨data, rfl⟩
  | zlib => exact hz.compresses data

/-- What the packed transaction inflates to: the transaction's bytes within the cap, and
nothing longer than the cap otherwise. -/
def unpack (z : ZlibFormat) (compression : CompressionType) (packed : Bytes) : Result Bytes :=
  match compression with
  | .none => .ok packed
  | .zlib => z.zlibUncompress packed

/-- Unpacking reads what the packed transaction inflates to. -/
theorem repack_eq (hz : z.Lawful) (signed : SignedTransaction) (compression : CompressionType)
    {bytes packed : Bytes} (hbytes : AbiTraits.transaction.toABI signed.toTransaction = .ok bytes)
    (hpacked : pack z compression bytes = .ok packed) :
    repack z signed compression = (do
      let inflated ← unpack z compression packed
      let transaction ← decodeTransaction inflated
      return { toTransaction := transaction, signatures := signed.signatures }) := by
  have hwrites : AbiTraits.bytes.Writes := fun _ => ⟨_, rfl⟩
  obtain ⟨cfd, hcfd⟩ := AbiTraits.vector_writes hwrites signed.context_free_data
  obtain ⟨packedCfd, hpackedCfd⟩ := exists_pack hz compression cfd
  unfold repack fromSigned
  rw [hbytes, ok_bind, hcfd, ok_bind, hpacked, ok_bind, hpackedCfd, ok_bind]
  cases compression with
  | none => rfl
  | zlib =>
    show (z.zlibUncompress packed >>= decodeTransaction) >>= _ = _
    rw [bind_assoc]
    rfl

/-- Within the cap, a part that was packed inflates to itself. -/
theorem unpack_pack (hz : z.Lawful) {compression : CompressionType} {data packed : Bytes}
    (hcap : compression = .zlib → data.length ≤ maxInflateOutput)
    (hpacked : pack z compression data = .ok packed) :
    unpack z compression packed = .ok data := by
  cases compression with
  | none =>
    cases hpacked
    rfl
  | zlib => exact hz.undoes data packed (hcap rfl) hpacked

/-- **Unpacking a packed transaction** gives its header, actions, extensions and signatures
back, without the context free data. -/
theorem getSignedTransaction_fromSigned (hz : z.Lawful) (signed : SignedTransaction)
    (compression : CompressionType) (hsized : signed.toTransaction.Sized)
    (hcap : compression = .zlib → signed.toTransaction.encoded.length ≤ maxInflateOutput) :
    repack z signed compression = .ok { signed with context_free_data := [] } := by
  obtain ⟨bytes, hbytes⟩ := AbiTraits.transaction_writes signed.toTransaction
  have hencoded : signed.toTransaction.encoded = bytes := by
    rw [Transaction.encoded, hbytes]
  obtain ⟨packed, hpacked⟩ := exists_pack hz compression bytes
  have hunpack := unpack_pack hz (by rwa [hencoded] at hcap) hpacked
  obtain ⟨-, hread⟩ := AbiTraits.transaction_roundTrips _ bytes hsized hbytes
  rw [repack_eq hz signed compression hbytes hpacked, hunpack, ok_bind, decodeTransaction,
    hread.run_eq]
  rfl

/-- What is unpacked fits its length prefixes, and what was inflated for it fits the cap. -/
theorem sized_of_repack (hz : z.Lawful) {signed signed' : SignedTransaction}
    {compression : CompressionType} (h : repack z signed compression = .ok signed') :
    signed'.toTransaction.Sized ∧ signed'.context_free_data = [] ∧
      (compression = .zlib → signed'.toTransaction.encoded.length ≤ maxInflateOutput) := by
  obtain ⟨bytes, hbytes⟩ := AbiTraits.transaction_writes signed.toTransaction
  obtain ⟨packed, hpacked⟩ := exists_pack hz compression bytes
  rw [repack_eq hz signed compression hbytes hpacked] at h
  obtain ⟨inflated, hinflated, h⟩ := bind_eq_ok.mp h
  obtain ⟨transaction, hdecode, h⟩ := bind_eq_ok.mp h
  cases h
  obtain ⟨⟨tx, rest⟩, hread, hdecode⟩ := bind_eq_ok.mp hdecode
  cases hdecode
  obtain ⟨hsized, again, hagain, hlen⟩ := AbiTraits.transaction_tight _ _ _ hread
  refine ⟨hsized, rfl, ?_⟩
  rintro rfl
  -- the transaction's own bytes are no more than the bytes it was read from
  have hcap := hz.capped inflated packed hinflated
  have hencoded : transaction.encoded = again := by
    rw [Transaction.encoded, hagain]
  show (transaction.encoded).length ≤ _
  rw [hencoded]
  omega

/-- **A packed transaction is unpacked to itself** exactly when it has no context free
data, its lengths fit their prefixes, and it fits the inflate cap where it is compressed. -/
theorem getSignedTransaction_fromSigned_iff (hz : z.Lawful) (signed : SignedTransaction)
    (compression : CompressionType) :
    repack z signed compression = .ok signed ↔
      signed.context_free_data = [] ∧ signed.toTransaction.Sized ∧
        (compression = .zlib → signed.toTransaction.encoded.length ≤ maxInflateOutput) := by
  constructor
  · intro h
    obtain ⟨hsized, hcfd, hcap⟩ := sized_of_repack hz h
    exact ⟨hcfd, hsized, hcap⟩
  · rintro ⟨hcfd, hsized, hcap⟩
    rw [getSignedTransaction_fromSigned hz signed compression hsized hcap, ← hcfd]

/-! ## One transaction -/

/-- A compressor with recorded outputs; anything else goes behind a zero byte, with which
no recorded output starts. -/
def recordedZlib (records : List (Bytes × Bytes)) : ZlibFormat where
  zlibCompress data :=
    match records.find? (fun e => e.1 = data) with
    | some e => .ok e.2
    | none => .ok (0 :: data)
  zlibUncompress compressed :=
    match records.find? (fun e => e.2 = compressed) with
    | some e => .ok e.1
    | none =>
      match compressed with
      | 0 :: data =>
        if data.length ≤ maxInflateOutput then .ok data
        else err .invalid "compressed data too large"
      | _ => err .invalid "invalid compressed data"

theorem recordedZlib_lawful {records : List (Bytes × Bytes)}
    (hinjective : ∀ a ∈ records, ∀ b ∈ records, a.2 = b.2 → a.1 = b.1)
    (hzero : ∀ e ∈ records, ∀ data, e.2 ≠ 0 :: data)
    (hcap : ∀ e ∈ records, e.1.length ≤ maxInflateOutput) :
    (recordedZlib records).Lawful := by
  refine ⟨?_, ?_, ?_⟩
  · intro data
    unfold recordedZlib
    simp only
    split
    · exact ⟨_, rfl⟩
    · exact ⟨_, rfl⟩
  · intro data compressed hlen h
    unfold recordedZlib at h ⊢
    simp only at h ⊢
    split at h
    · rename_i e he
      cases h
      have hmem := List.mem_of_find?_eq_some he
      have hdata : e.1 = data := by simpa using List.find?_some he
      -- A record is found by its compressed form, which no other record shares.
      cases hfind : records.find? (fun e' => e'.2 = e.2) with
      | none => exact absurd (List.find?_eq_none.mp hfind e hmem) (by simp)
      | some e' =>
        have heq : e'.2 = e.2 := by simpa using List.find?_some hfind
        simp only
        rw [hinjective e' (List.mem_of_find?_eq_some hfind) e hmem heq, hdata]
    · cases h
      have hfind : records.find? (fun e => e.2 = 0 :: data) = none := by
        rw [List.find?_eq_none]
        intro e he
        simpa using hzero e he data
      rw [hfind]
      simp only [if_pos hlen]
  · intro data compressed h
    unfold recordedZlib at h
    simp only at h
    split at h
    · rename_i e he
      cases h
      exact hcap e (List.mem_of_find?_eq_some he)
    · split at h
      · split at h
        · cases h
          assumption
        · cases h
      · cases h

/-- A transaction with one action and one signature. -/
def signedTransfer : SignedTransaction where
  expiration := ⟨0x5f5e1000⟩
  ref_block_num := 7
  ref_block_prefix := 9
  actions := [{ account := ⟨1⟩, name := ⟨2⟩, authorization := [{ actor := ⟨3⟩, permission := ⟨4⟩ }],
                data := [0xab, 0xcd] }]
  signatures := [{ type := .K1, data := List.replicate 65 7 }]

/-- What zlib makes of its bytes and of an empty list of context free data. -/
def transferZlib : ZlibFormat :=
  recordedZlib
    [(signedTransfer.toTransaction.encoded,
       [120, 156, 99, 16, 136, 139, 103, 103, 224, 100, 128, 0, 70, 70, 40, 131, 9, 38, 192, 12,
        101, 176, 192, 36, 86, 159, 101, 0, 0, 47, 134, 2, 100]),
     ([0], [120, 156, 99, 0, 0, 0, 1, 0, 1])]

theorem transferZlib_lawful : transferZlib.Lawful :=
  recordedZlib_lawful (by decide +kernel) (by simp) (by decide +kernel)

theorem signedTransfer_sized : signedTransfer.toTransaction.Sized := by
  refine ⟨⟨by decide, ?_⟩, ⟨by decide, ?_⟩, by decide, ?_⟩
  · intro a ha
    cases ha
  · intro a ha
    obtain rfl := List.mem_singleton.mp ha
    exact ⟨by decide, by decide⟩
  · intro x hx
    cases hx

theorem getSignedTransaction_fromSigned_iff_transfer :
    repack transferZlib signedTransfer .zlib = .ok signedTransfer :=
  (getSignedTransaction_fromSigned_iff transferZlib_lawful signedTransfer .zlib).mpr
    ⟨rfl, signedTransfer_sized, fun _ => by decide +kernel⟩

/-- A transaction with context free data comes back without it. -/
theorem context_free_data_dropped :
    ¬ ∀ z : ZlibFormat, z.Lawful → ∀ signed compression,
      repack z signed compression = .ok signed := by
  intro h
  have hone := h transferZlib transferZlib_lawful { context_free_data := [[1]] } .none
  revert hone
  decide +kernel

end PackedTransaction

end Dwarfkit
