/-
# Net messages

The message structs of `antelope/p2p/types.hpp` and the `net_message` variant over them,
with their binary forms.  The client has no use for their json forms.
-/
import Dwarfkit.Antelope.Chain.PackedTransaction

namespace Dwarfkit

open Wire

/-! ## Types of the chain -/

/-- `BlockId`: 32 bytes. -/
abbrev BlockId := Checksum 32

namespace AbiTraits

def blockId : AbiTraits BlockId := checksum "block_id_type" 32

/-- `abi_traits<json>`: not a binary type. -/
def any : AbiTraits Json where
  abiName := "any"
  toABI _ := err .invalid "Unable to encode any type to binary"
  fromABI := decodeErr .invalid "Unable to decode 'any' type from binary"
  toJSON := id
  fromJSON := .ok
  abiDefault := .null

end AbiTraits

namespace P2P

/-! ## The structs -/

structure HandshakeMessage where
  networkVersion : UInt16 := 0
  chainId : Checksum256 := default
  nodeId : Checksum256 := default
  key : PublicKey := {}
  time : Int64 := 0
  token : Checksum256 := default
  sig : Signature := {}
  p2pAddress : Str := []
  lastIrreversibleBlockNumber : UInt32 := 0
  lastIrreversibleBlockId : BlockId := default
  headNum : UInt32 := 0
  headId : BlockId := default
  os : Str := []
  agent : Str := []
  generation : Int16 := 0
  deriving DecidableEq

structure ChainSizeMessage where
  lastIrreversibleBlockNumber : UInt32 := 0
  lastIrreversibleBlockId : BlockId := default
  headNum : UInt32 := 0
  headId : BlockId := default
  deriving DecidableEq

structure GoAwayMessage where
  reason : UInt8 := 0
  nodeId : Checksum256 := default
  deriving DecidableEq

structure TimeMessage where
  org : Int64 := 0
  rec_ : Int64 := 0
  xmt : Int64 := 0
  dst : Int64 := 0
  deriving DecidableEq

structure NoticeMessage where
  knownTrx : List Checksum256 := []
  knownBlocks : List BlockId := []
  deriving DecidableEq

structure RequestMessage where
  reqTrx : List Checksum256 := []
  reqBlocks : List BlockId := []
  deriving DecidableEq

structure SyncRequestMessage where
  startBlock : UInt32 := 0
  endBlock : UInt32 := 0
  deriving DecidableEq

structure NewProducersEntry where
  producer_name : Name := {}
  block_signing_key : PublicKey := {}
  deriving DecidableEq

structure NewProducers where
  version : UInt32 := 0
  producers : List NewProducersEntry := []
  deriving DecidableEq

structure BlockExtension where
  type : UInt16 := 0
  data : Bytes := []
  deriving DecidableEq

/-- `TrxVariant`. -/
inductive TrxVariant where
  | id (checksum : Checksum256)
  | packed (trx : PackedTransaction)
  deriving DecidableEq

structure FullTransactionReceipt where
  status : UInt8 := 0
  cpu_usage_us : UInt32 := 0
  net_usage_words : UInt32 := 0
  trx : TrxVariant
  deriving DecidableEq

structure BlockHeader where
  timeSlot : UInt32 := 0
  producer : Name := {}
  confirmed : UInt16 := 0
  previous : BlockId := default
  transaction_mroot : BlockId := default
  action_mroot : BlockId := default
  schedule_version : UInt32 := 0
  new_producers : Option NewProducers := none
  header_extensions : List Json := []
  deriving DecidableEq

structure SignedBlock extends BlockHeader where
  producer_signature : Signature := {}
  transactions : List FullTransactionReceipt := []
  block_extensions : List BlockExtension := []
  deriving DecidableEq

/-- `NetMessage`. -/
inductive NetMessage where
  | handshake_message (message : HandshakeMessage)
  | chain_size_message (message : ChainSizeMessage)
  | go_away_message (message : GoAwayMessage)
  | time_message (message : TimeMessage)
  | notice_message (message : NoticeMessage)
  | request_message (message : RequestMessage)
  | sync_request_message (message : SyncRequestMessage)
  | signed_block (block : SignedBlock)
  | packed_transaction (trx : PackedTransaction)
  deriving DecidableEq

/-! ## Binary forms -/

/-- The binary half of `abi_traits`. -/
structure Coding (α : Type) where
  toABI : α → Result Bytes
  fromABI : Decoder α

/-- The fields of a struct, one after the other. -/
def fields (parts : List (Result Bytes)) : Result Bytes := do
  let bytes ← parts.mapM id
  return bytes.flatten

/-- `abi_traits<std::vector<T>>` over the binary half. -/
def Coding.vector {α : Type} (t : Coding α) : Coding (List α) where
  toABI v := do
    let items ← v.mapM t.toABI
    return writeVaruint32 v.length.toUInt32 ++ items.flatten
  fromABI := do
    let len ← readVaruint32
    AbiTraits.readItems t.fromABI len.toNat []

/-- `abi_traits<std::optional<T>>` over the binary half. -/
def Coding.optional {α : Type} (t : Coding α) : Coding (Option α) where
  toABI
    | some v => do
      let value ← t.toABI v
      return 1 :: value
    | none => .ok [0]
  fromABI := do
    let present ← readByte
    if present = 0 then return none
    else
      let value ← t.fromABI
      return some value

open AbiTraits

def handshakeMessage (p : Platform) : Coding HandshakeMessage where
  toABI v := fields [uint16.toABI v.networkVersion, checksum256.toABI v.chainId,
    checksum256.toABI v.nodeId, (publicKey p).toABI v.key, int64.toABI v.time,
    checksum256.toABI v.token, (signature p).toABI v.sig, string.toABI v.p2pAddress,
    uint32.toABI v.lastIrreversibleBlockNumber, blockId.toABI v.lastIrreversibleBlockId,
    uint32.toABI v.headNum, blockId.toABI v.headId, string.toABI v.os, string.toABI v.agent,
    int16.toABI v.generation]
  fromABI := do
    let networkVersion ← uint16.fromABI
    let chainId ← checksum256.fromABI
    let nodeId ← checksum256.fromABI
    let key ← (publicKey p).fromABI
    let time ← int64.fromABI
    let token ← checksum256.fromABI
    let sig ← (signature p).fromABI
    let p2pAddress ← string.fromABI
    let lastIrreversibleBlockNumber ← uint32.fromABI
    let lastIrreversibleBlockId ← blockId.fromABI
    let headNum ← uint32.fromABI
    let headId ← blockId.fromABI
    let os ← string.fromABI
    let agent ← string.fromABI
    let generation ← int16.fromABI
    return { networkVersion, chainId, nodeId, key, time, token, sig, p2pAddress,
             lastIrreversibleBlockNumber, lastIrreversibleBlockId, headNum, headId, os, agent,
             generation }

def chainSizeMessage : Coding ChainSizeMessage where
  toABI v := fields [uint32.toABI v.lastIrreversibleBlockNumber,
    blockId.toABI v.lastIrreversibleBlockId, uint32.toABI v.headNum, blockId.toABI v.headId]
  fromABI := do
    let lastIrreversibleBlockNumber ← uint32.fromABI
    let lastIrreversibleBlockId ← blockId.fromABI
    let headNum ← uint32.fromABI
    let headId ← blockId.fromABI
    return { lastIrreversibleBlockNumber, lastIrreversibleBlockId, headNum, headId }

def goAwayMessage : Coding GoAwayMessage where
  toABI v := fields [uint8.toABI v.reason, checksum256.toABI v.nodeId]
  fromABI := do
    let reason ← uint8.fromABI
    let nodeId ← checksum256.fromABI
    return { reason, nodeId }

def timeMessage : Coding TimeMessage where
  toABI v := fields [int64.toABI v.org, int64.toABI v.rec_, int64.toABI v.xmt, int64.toABI v.dst]
  fromABI := do
    let org ← int64.fromABI
    let rec_ ← int64.fromABI
    let xmt ← int64.fromABI
    let dst ← int64.fromABI
    return { org, rec_, xmt, dst }

def noticeMessage : Coding NoticeMessage where
  toABI v := fields [checksum256.vector.toABI v.knownTrx, blockId.vector.toABI v.knownBlocks]
  fromABI := do
    let knownTrx ← checksum256.vector.fromABI
    let knownBlocks ← blockId.vector.fromABI
    return { knownTrx, knownBlocks }

def requestMessage : Coding RequestMessage where
  toABI v := fields [checksum256.vector.toABI v.reqTrx, blockId.vector.toABI v.reqBlocks]
  fromABI := do
    let reqTrx ← checksum256.vector.fromABI
    let reqBlocks ← blockId.vector.fromABI
    return { reqTrx, reqBlocks }

def syncRequestMessage : Coding SyncRequestMessage where
  toABI v := fields [uint32.toABI v.startBlock, uint32.toABI v.endBlock]
  fromABI := do
    let startBlock ← uint32.fromABI
    let endBlock ← uint32.fromABI
    return { startBlock, endBlock }

def newProducersEntry (p : Platform) : Coding NewProducersEntry where
  toABI v := fields [name.toABI v.producer_name, (publicKey p).toABI v.block_signing_key]
  fromABI := do
    let producer_name ← name.fromABI
    let block_signing_key ← (publicKey p).fromABI
    return { producer_name, block_signing_key }

def newProducers (p : Platform) : Coding NewProducers where
  toABI v := fields [uint32.toABI v.version, (newProducersEntry p).vector.toABI v.producers]
  fromABI := do
    let version ← uint32.fromABI
    let producers ← (newProducersEntry p).vector.fromABI
    return { version, producers }

def blockExtension : Coding BlockExtension where
  toABI v := fields [uint16.toABI v.type, bytes.toABI v.data]
  fromABI := do
    let type ← uint16.fromABI
    let data ← bytes.fromABI
    return { type, data }

def packedTransaction (p : Platform) : Coding PackedTransaction where
  toABI v := fields [(signature p).vector.toABI v.signatures, uint8.toABI v.compression,
    bytes.toABI v.packed_context_free_data, bytes.toABI v.packed_trx]
  fromABI := do
    let signatures ← (signature p).vector.fromABI
    let compression ← uint8.fromABI
    let packed_context_free_data ← bytes.fromABI
    let packed_trx ← bytes.fromABI
    return { signatures, compression, packed_context_free_data, packed_trx }

/-- An alternative of a variant behind its index. -/
def alternative (index : UInt32) (value : Result Bytes) : Result Bytes := do
  let bytes ← value
  return writeVaruint32 index ++ bytes

/-- `variantFromABIImpl` without an alternative. -/
def unknownIdx {α : Type} (idx : ℕ) : Decoder α :=
  decodeErr .invalid (lit "Unknown variant idx: " ++ natToString idx)

def trxVariant (p : Platform) : Coding TrxVariant where
  toABI
    | .id checksum => alternative 0 (checksum256.toABI checksum)
    | .packed trx => alternative 1 ((packedTransaction p).toABI trx)
  fromABI := do
    let idx ← readVaruint32
    match idx.toNat with
    | 0 => .id <$> checksum256.fromABI
    | 1 => .packed <$> (packedTransaction p).fromABI
    | idx => unknownIdx idx

def fullTransactionReceipt (p : Platform) : Coding FullTransactionReceipt where
  toABI v := fields [uint8.toABI v.status, uint32.toABI v.cpu_usage_us,
    varuint32.toABI v.net_usage_words, (trxVariant p).toABI v.trx]
  fromABI := do
    let status ← uint8.fromABI
    let cpu_usage_us ← uint32.fromABI
    let net_usage_words ← varuint32.fromABI
    let trx ← (trxVariant p).fromABI
    return { status, cpu_usage_us, net_usage_words, trx }

def blockHeader (p : Platform) : Coding BlockHeader where
  toABI v := fields [uint32.toABI v.timeSlot, name.toABI v.producer, uint16.toABI v.confirmed,
    blockId.toABI v.previous, blockId.toABI v.transaction_mroot, blockId.toABI v.action_mroot,
    uint32.toABI v.schedule_version, (newProducers p).optional.toABI v.new_producers,
    any.vector.toABI v.header_extensions]
  fromABI := do
    let timeSlot ← uint32.fromABI
    let producer ← name.fromABI
    let confirmed ← uint16.fromABI
    let previous ← blockId.fromABI
    let transaction_mroot ← blockId.fromABI
    let action_mroot ← blockId.fromABI
    let schedule_version ← uint32.fromABI
    let new_producers ← (newProducers p).optional.fromABI
    let header_extensions ← any.vector.fromABI
    return { timeSlot, producer, confirmed, previous, transaction_mroot, action_mroot,
             schedule_version, new_producers, header_extensions }

/-- The header's fields come first. -/
def signedBlock (p : Platform) : Coding SignedBlock where
  toABI v := fields [(blockHeader p).toABI v.toBlockHeader,
    (signature p).toABI v.producer_signature,
    (fullTransactionReceipt p).vector.toABI v.transactions,
    blockExtension.vector.toABI v.block_extensions]
  fromABI := do
    let header ← (blockHeader p).fromABI
    let producer_signature ← (signature p).fromABI
    let transactions ← (fullTransactionReceipt p).vector.fromABI
    let block_extensions ← blockExtension.vector.fromABI
    return { header with producer_signature, transactions, block_extensions }

def netMessage (p : Platform) : Coding NetMessage where
  toABI
    | .handshake_message m => alternative 0 ((handshakeMessage p).toABI m)
    | .chain_size_message m => alternative 1 (chainSizeMessage.toABI m)
    | .go_away_message m => alternative 2 (goAwayMessage.toABI m)
    | .time_message m => alternative 3 (timeMessage.toABI m)
    | .notice_message m => alternative 4 (noticeMessage.toABI m)
    | .request_message m => alternative 5 (requestMessage.toABI m)
    | .sync_request_message m => alternative 6 (syncRequestMessage.toABI m)
    | .signed_block m => alternative 7 ((signedBlock p).toABI m)
    | .packed_transaction m => alternative 8 ((packedTransaction p).toABI m)
  fromABI := do
    let idx ← readVaruint32
    match idx.toNat with
    | 0 => .handshake_message <$> (handshakeMessage p).fromABI
    | 1 => .chain_size_message <$> chainSizeMessage.fromABI
    | 2 => .go_away_message <$> goAwayMessage.fromABI
    | 3 => .time_message <$> timeMessage.fromABI
    | 4 => .notice_message <$> noticeMessage.fromABI
    | 5 => .request_message <$> requestMessage.fromABI
    | 6 => .sync_request_message <$> syncRequestMessage.fromABI
    | 7 => .signed_block <$> (signedBlock p).fromABI
    | 8 => .packed_transaction <$> (packedTransaction p).fromABI
    | idx => unknownIdx idx

end P2P

end Dwarfkit
