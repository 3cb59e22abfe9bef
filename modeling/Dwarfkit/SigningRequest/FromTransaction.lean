/-
# Requests from serialized transactions

`SigningRequest::fromTransaction` puts the bytes of request data together around a
serialized transaction and reads them; `create` builds the same data from the transaction's
json form.

* `agreesWithCreate_iff` : the two requests are the same, exactly when the transaction's
  lengths fit their prefixes.
-/
import Dwarfkit.Antelope.Chain.AbiForms
import Dwarfkit.Antelope.Serializer.JsonForms
import Dwarfkit.Antelope.Serializer.Tight
import Dwarfkit.SigningRequest.Create

namespace Dwarfkit

open Wire

namespace SigningRequest

/-- `fromTransaction`. -/
def fromTransaction (z : Zlib) (p : Platform) (chainId : ChainId) (serializedTransaction : Bytes) :
    Result SigningRequest := do
  let chain ← AbiTraits.chainIdVariant.toABI chainId.chainVariant
  let data := 2 :: (chain ++ [2] ++ serializedTransaction ++
    [RequestFlags.broadcastFlag] ++ [0] ++ [0])
  fromData z p data

/-- The arguments of `create` for a transaction on a chain. -/
def transactionArgs (chainId : ChainId) (tx : Transaction) : SigningRequestCreateArguments where
  transaction := some (AbiTraits.transaction.toJSON tx)
  chainId := some chainId

/-- The request both of them are to return. -/
def transactionRequest (chainId : ChainId) (tx : Transaction) : SigningRequest where
  version := 2
  data := .v2 { chain_id := chainId.chainVariant, req := .transaction tx, flags := ⟨1⟩ }

/-! ## Creating it -/

section Create

variable {p : Platform} {abiProvider : Option AbiProvider} {chainId : ChainId} {tx : Transaction}

/-- An action in json has its data encoded. -/
theorem isBytesValue_toJSON (action : Action) :
    ((AbiTraits.action.toJSON action).find "data").map Action.isBytesValue = some true := rfl

theorem foldlM_fetchMissing (options : SigningRequestEncodingOptions) (abis : AbiMap)
    (actions : List Action) :
    (actions.map AbiTraits.action.toJSON).foldlM (fetchMissing options) abis = .ok abis := by
  induction actions with
  | nil => rfl
  | cons action actions ih =>
    have hfetch : fetchMissing options abis (AbiTraits.action.toJSON action) = .ok abis := by
      unfold fetchMissing
      rw [isBytesValue_toJSON]
    rw [List.map_cons, List.foldlM_cons, hfetch, ok_bind, ih]

theorem encodeActionJson_toJSON (abis : AbiMap) (action : Action) :
    encodeActionJson p abis (AbiTraits.action.toJSON action) =
      .ok (AbiTraits.action.toJSON action) := by
  have hread : Action.ofJson (AbiTraits.action.toJSON action) = .ok action :=
    AbiTraits.action_readsJson.read action
  unfold encodeActionJson
  rw [isBytesValue_toJSON]
  simp only
  rw [hread]
  rfl

theorem mapM_encodeActionJson (abis : AbiMap) (actions : List Action) :
    (actions.map AbiTraits.action.toJSON).mapM (encodeActionJson p abis) =
      .ok (actions.map AbiTraits.action.toJSON) := by
  induction actions with
  | nil => rfl
  | cons action actions ih =>
    rw [List.map_cons, List.mapM_cons, encodeActionJson_toJSON, ok_bind, ih]
    rfl

/-- Nothing is missing in the json form of a transaction. -/
theorem foldlM_setDefault :
    transactionDefaults.foldlM setDefault (AbiTraits.transaction.toJSON tx) =
      .ok (AbiTraits.transaction.toJSON tx) := rfl

theorem requestValue_transactionArgs (abis : AbiMap) :
    requestValue p (transactionArgs chainId tx) abis =
      .ok (lit "transaction", AbiTraits.transaction.toJSON tx) := by
  have hat : (AbiTraits.transaction.toJSON tx).atKey "actions" =
      .ok (.arr (tx.actions.map AbiTraits.action.toJSON)) := rfl
  have hassign : (AbiTraits.transaction.toJSON tx).assign "actions"
      (.arr (tx.actions.map AbiTraits.action.toJSON)) = .ok (AbiTraits.transaction.toJSON tx) := rfl
  unfold requestValue transactionArgs
  simp only
  rw [foldlM_setDefault, ok_bind, hat, ok_bind]
  show ((tx.actions.map AbiTraits.action.toJSON).mapM (encodeActionJson p abis) >>= _) = _
  rw [mapM_encodeActionJson, ok_bind, hassign]
  rfl

theorem versionedData_transaction :
    versionedData 2 chainId.chainVariant ⟨1⟩ [] []
      (.arr [.str (lit "transaction"), AbiTraits.transaction.toJSON tx]) =
      .ok (transactionRequest chainId tx).data := by
  have hvariant (value : Json) : (AbiTraits.requestVariant AbiTraits.identityV2).fromJSON
      (.arr [.str (lit "transaction"), value]) =
        RequestVariant.transaction <$> AbiTraits.transaction.fromJSON value := by
    have haction : ¬ lit "transaction" = AbiTraits.action.abiName := by decide
    have hactions : ¬ lit "transaction" = AbiTraits.action.vector.abiName := by decide
    have hself : lit "transaction" = AbiTraits.transaction.abiName := by decide
    unfold AbiTraits.requestVariant AbiTraits.variantPair
    simp only [ok_bind]
    rw [if_neg haction, if_neg hactions, if_pos hself]
  unfold versionedData typedData
  rw [if_pos rfl, hvariant, AbiTraits.transaction_readsJson.read]
  rfl

theorem actionList_transactionArgs :
    actionList (transactionArgs chainId tx) = tx.actions.map AbiTraits.action.toJSON := rfl

theorem requestFlags_transactionArgs :
    requestFlags (transactionArgs chainId tx) "transaction" = ⟨1⟩ := by
  have hnot : lit "transaction" ≠ lit "identity" := by decide
  unfold requestFlags
  simp only [transactionArgs, Option.getD_none, decide_eq_true hnot]
  decide

theorem requestInfo_transactionArgs : requestInfo (transactionArgs chainId tx) = .ok [] := by
  unfold requestInfo
  rw [if_neg (by rintro ⟨h, -⟩; exact h rfl)]
  rfl

/-- **`create` returns the request**, whatever the transaction. -/
theorem create_transactionArgs :
    create p (transactionArgs chainId tx) { abiProvider := abiProvider } =
      .ok (transactionRequest chainId tx) := by
  have hversion : requestVersion (transactionArgs chainId tx) = 2 := by
    unfold requestVersion transactionArgs
    simp
  have hchain : requestChain (transactionArgs chainId tx) = .ok chainId.chainVariant := by
    unfold requestChain transactionArgs
    simp
  have hcallback : requestCallback (transactionArgs chainId tx) = [] := by
    unfold requestCallback transactionArgs
    simp
  refine bind_eq_ok.mpr ⟨[], ?_, ?_⟩
  · rw [actionList_transactionArgs]
    exact foldlM_fetchMissing _ _ _
  refine bind_eq_ok.mpr ⟨_, requestValue_transactionArgs _, ?_⟩
  refine bind_eq_ok.mpr ⟨_, hchain, ?_⟩
  refine bind_eq_ok.mpr ⟨_, requestInfo_transactionArgs, ?_⟩
  refine bind_eq_ok.mpr ⟨(transactionRequest chainId tx).data, ?_, ?_⟩
  · rw [hversion, hcallback]
    show versionedData 2 _ (requestFlags (transactionArgs chainId tx) "transaction") [] [] _ = _
    rw [requestFlags_transactionArgs]
    exact versionedData_transaction
  · rw [hversion]
    rfl

end Create

/-! ## Reading it -/

/-- The bytes that are put together are the request's own. -/
theorem getData_transactionRequest {chainId : ChainId} {chain : Bytes}
    (hchain : AbiTraits.chainIdVariant.toABI chainId.chainVariant = .ok chain) (tx : Transaction) :
    (transactionRequest chainId tx).getData =
      chain ++ [2] ++ tx.encoded ++ [RequestFlags.broadcastFlag] ++ [0] ++ [0] := by
  obtain ⟨bytes, hbytes⟩ := AbiTraits.transaction_writes tx
  have hencoded : tx.encoded = bytes := by
    unfold Transaction.encoded
    rw [hbytes]
  have hreq : (AbiTraits.requestVariant AbiTraits.identityV2).toABI (.transaction tx) =
      .ok ([2] ++ bytes) := by
    show (AbiTraits.transaction.toABI tx >>= fun bytes => _) = _
    rw [hbytes]
    rfl
  have hflags : AbiTraits.requestFlags.toABI ⟨1⟩ = .ok [1] := rfl
  have hcallback : AbiTraits.string.toABI [] = .ok [0] := rfl
  have hinfo : AbiTraits.infoPair.vector.toABI [] = .ok [0] := rfl
  unfold getData transactionRequest VersionedData.toABI AbiTraits.requestData
  simp only [hchain, hreq, hflags, hcallback, hinfo, ok_bind, hencoded]
  show chain ++ ([2] ++ bytes) ++ [1] ++ [0] ++ [0] = _
  rw [← List.append_assoc chain]
  rfl

/-- The request is read from these bytes. -/
theorem fromTransaction_eq (z : Zlib) (p : Platform) (chainId : ChainId) (tx : Transaction) :
    fromTransaction z p chainId tx.encoded =
      fromData z p (2 :: (transactionRequest chainId tx).getData) := by
  obtain ⟨chain, hchain⟩ := AbiTraits.chainIdVariant_writes chainId.chainVariant
  rw [getData_transactionRequest hchain]
  unfold fromTransaction
  rw [hchain]
  rfl

theorem encodable_transactionRequest (chainId : ChainId) {tx : Transaction} (h : tx.Sized) :
    (transactionRequest chainId tx).Encodable where
  version := rfl
  sized := by
    refine ⟨h, ⟨rfl, Nat.two_pow_pos 32⟩, Nat.two_pow_pos 32, ?_⟩
    intro pair hpair
    cases hpair
  signature := by
    rintro sig ⟨⟩
  notBroadcast := rfl

/-- A transaction whose lengths fit is read back. -/
theorem fromTransaction_encoded (z : Zlib) (p : Platform) (chainId : ChainId) {tx : Transaction}
    (h : tx.Sized) :
    fromTransaction z p chainId tx.encoded = .ok (transactionRequest chainId tx) := by
  rw [fromTransaction_eq]
  refine fromData_packed z p (encodable_transactionRequest chainId h)
    (show ((2 : UInt8) &&& ~~~compressedFlag).toNat = 2 by decide) ?_
  have hsignature : (transactionRequest chainId tx).getSignatureData p = [] := rfl
  rw [hsignature, List.append_nil]
  exact if_neg (by decide)

/-- A transaction that was read fits its length prefixes. -/
theorem yields_transaction {I : Type} (identity : AbiTraits I) :
    Yields (AbiTraits.requestVariant identity).fromABI
      (fun v => ∀ tx, v = .transaction tx → tx.Sized) := by
  have hother {α : Type} {r : Decoder α} {make : α → RequestVariant I}
      (hmake : ∀ a tx, make a ≠ .transaction tx) :
      Yields (do
        let value ← r
        return make value : Decoder (RequestVariant I))
        (fun v => ∀ tx, v = .transaction tx → tx.Sized) :=
    (ABI.yields_any r).bind (fun a _ => Yields.pure (fun tx h => absurd h (hmake a tx)))
  refine (ABI.yields_any readVaruint32).bind (fun idx _ => ?_)
  split_ifs
  · exact hother (by rintro a tx ⟨⟩)
  · exact hother (by rintro a tx ⟨⟩)
  · refine Yields.bind (P := Transaction.Sized) ?_ ?_
    · intro s tx rest h
      exact (AbiTraits.transaction_tight s tx rest h).1
    · rintro tx htx
      exact Yields.pure (by rintro tx' ⟨⟩; exact htx)
  · exact hother (by rintro a tx ⟨⟩)
  · intro s v rest h
    cases h

theorem yields_requestData {I : Type} (identity : AbiTraits I) :
    Yields (AbiTraits.requestData identity).fromABI
      (fun d => ∀ tx, d.req = .transaction tx → tx.Sized) := by
  refine (ABI.yields_any _).bind (fun chain_id _ => ?_)
  refine (yields_transaction identity).bind (fun req hreq => ?_)
  refine (ABI.yields_any _).bind (fun flags _ => ?_)
  refine (ABI.yields_any _).bind (fun callback _ => ?_)
  exact (ABI.yields_any _).bind (fun info _ => Yields.pure hreq)

/-- So does the transaction of a request in version 2. -/
theorem sized_of_fromData {z : Zlib} {p : Platform} {bytes : Bytes} {request : SigningRequest}
    {d : RequestData IdentityV2} {tx : Transaction} (h : fromData z p bytes = .ok request)
    (hdata : request.data = .v2 d) (htx : d.req = .transaction tx) : tx.Sized := by
  rcases bytes with _ | ⟨header, payload⟩
  · cases h
  unfold fromData at h
  simp only at h
  split at h
  · cases h
  obtain ⟨unpacked, -, h⟩ := bind_eq_ok.mp h
  obtain ⟨⟨read, rest⟩, hread, h⟩ := bind_eq_ok.mp h
  obtain ⟨⟨signature, end_⟩, -, h⟩ := bind_eq_ok.mp h
  simp only at h
  split at h
  · cases h
  cases h
  obtain rfl : read = .v2 d := hdata
  unfold VersionedData.fromABI at hread
  split at hread
  · rw [StateT.run_bind] at hread
    obtain ⟨⟨d', afterData⟩, hd, hread⟩ := bind_eq_ok.mp hread
    cases hread
    exact yields_requestData AbiTraits.identityV2 _ _ _ hd tx htx
  · rw [StateT.run_bind] at hread
    obtain ⟨⟨d', afterData⟩, hd, hread⟩ := bind_eq_ok.mp hread
    cases hread

/-! ## The two ways -/

/-- `fromTransaction` of an encoded transaction and `create` with its json form return
requests with the same version and the same data, whose bytes and digests are therefore the
same. -/
structure SameRequest (crypto : Crypto) (request created : SigningRequest) : Prop where
  version : request.version = created.version
  data : request.data = created.data
  bytes : request.getData = created.getData
  digest : request.getSignatureDigest crypto = created.getSignatureDigest crypto

/-- Both succeed, with the same request. -/
def AgreesWithCreate (z : Zlib) (p : Platform) (abiProvider : Option AbiProvider)
    (chainId : ChainId) (tx : Transaction) : Prop :=
  ∃ request created, fromTransaction z p chainId tx.encoded = .ok request ∧
    create p (transactionArgs chainId tx) { abiProvider := abiProvider } = .ok created ∧
    SameRequest p.toCrypto request created

theorem agreesWithCreate_of_sized {z : Zlib} {p : Platform} {abiProvider : Option AbiProvider}
    {chainId : ChainId} {tx : Transaction} (h : tx.Sized) :
    AgreesWithCreate z p abiProvider chainId tx :=
  ⟨_, _, fromTransaction_encoded z p chainId h, create_transactionArgs, rfl, rfl, rfl, rfl⟩

theorem sized_of_agreesWithCreate {z : Zlib} {p : Platform} {abiProvider : Option AbiProvider}
    {chainId : ChainId} {tx : Transaction} (h : AgreesWithCreate z p abiProvider chainId tx) :
    tx.Sized := by
  obtain ⟨request, created, hread, hcreate, hsame⟩ := h
  rw [create_transactionArgs] at hcreate
  cases hcreate
  rw [fromTransaction_eq] at hread
  exact sized_of_fromData hread hsame.data rfl

/-- **A request from a serialized transaction is the created one** exactly when every list
and byte string of the transaction fits its length prefix. -/
theorem agreesWithCreate_iff (z : Zlib) (p : Platform) (abiProvider : Option AbiProvider)
    (chainId : ChainId) (tx : Transaction) :
    AgreesWithCreate z p abiProvider chainId tx ↔ tx.Sized :=
  ⟨sized_of_agreesWithCreate, agreesWithCreate_of_sized⟩

/-- A transaction with one action, whose data are as many bytes. -/
def dataTransaction (n : ℕ) : Transaction where
  actions := [{ data := List.replicate n 0xff }]

/-- Where the count of a list of extensions should be, no list is read. -/
theorem run_transaction_cut (rest : Bytes) :
    AbiTraits.transaction.fromABI.run (List.replicate 13 0 ++ ([0] ++ ([1] ++ List.replicate 16 0 ++
      [0] ++ [0] ++ (List.replicate 6 0xff ++ rest)))) = err .invalid "Varint too large" := by
  have hheader (tail : Bytes) : AbiTraits.transactionHeader.fromABI.run (List.replicate 13 0 ++ tail) =
      .ok ({}, tail) := rfl
  have hfree (tail : Bytes) : AbiTraits.action.vector.fromABI.run ([0] ++ tail) = .ok ([], tail) := rfl
  have hactions : Reads AbiTraits.action.vector.fromABI ([1] ++ List.replicate 16 0 ++ [0] ++ [0])
      [{}] := by
    refine (AbiTraits.vector_roundTrips AbiTraits.action_roundTrips [{}] _ ⟨by decide, ?_⟩ rfl).2
    intro action haction
    rw [List.mem_singleton.mp haction]
    exact ⟨by decide, by decide⟩
  have hextensions : AbiTraits.transactionExtension.vector.fromABI.run (List.replicate 6 0xff ++ rest) =
      err .invalid "Varint too large" := rfl
  unfold AbiTraits.transaction
  simp only [StateT.run_bind]
  rw [hheader, ok_bind]
  simp only
  rw [hfree, ok_bind]
  simp only
  rw [hactions, ok_bind]
  simp only
  rw [hextensions]
  rfl

/-- Bytes that are no transaction are refused. -/
theorem fromTransaction_error {z : Zlib} {p : Platform} {chainId : ChainId} {bytes : Bytes}
    {e : Error}
    (h : AbiTraits.transaction.fromABI.run (bytes ++ [RequestFlags.broadcastFlag, 0, 0]) = .error e) :
    fromTransaction z p chainId bytes = .error e := by
  obtain ⟨chain, hchain⟩ := AbiTraits.chainIdVariant_writes chainId.chainVariant
  obtain ⟨-, hread⟩ := AbiTraits.chainIdVariant_roundTrips _ chain trivial hchain
  have hidx (tail : Bytes) : readVaruint32.run (2 :: tail) = .ok (2, tail) := rfl
  -- The chain and the index of the variant are read, and then the transaction fails.
  have hreq : (AbiTraits.requestVariant AbiTraits.identityV2).fromABI.run
      (2 :: (bytes ++ [RequestFlags.broadcastFlag, 0, 0])) = .error e := by
    unfold AbiTraits.requestVariant
    simp only [StateT.run_bind]
    rw [hidx, ok_bind]
    show ((AbiTraits.transaction.fromABI >>= fun value =>
      pure (RequestVariant.transaction value)).run _ : Result _) = _
    rw [StateT.run_bind, h]
    rfl
  have hdata : (VersionedData.fromABI 2).run
      (chain ++ 2 :: (bytes ++ [RequestFlags.broadcastFlag, 0, 0])) = .error e := by
    unfold VersionedData.fromABI AbiTraits.requestData
    simp only [if_true, StateT.run_bind]
    rw [hread, ok_bind]
    simp only
    rw [hreq]
    rfl
  have hpayload : chain ++ [2] ++ bytes ++ [RequestFlags.broadcastFlag] ++ [0] ++ [0] =
      chain ++ 2 :: (bytes ++ [RequestFlags.broadcastFlag, 0, 0]) := by
    simp only [List.append_assoc, List.cons_append, List.nil_append]
  have hunpack : unpack z 2 (chain ++ 2 :: (bytes ++ [RequestFlags.broadcastFlag, 0, 0])) =
      .ok (chain ++ 2 :: (bytes ++ [RequestFlags.broadcastFlag, 0, 0])) := if_neg (by decide)
  have hheader : ((2 : UInt8) &&& ~~~compressedFlag).toNat = 2 := by decide
  unfold fromTransaction
  rw [hchain, ok_bind]
  simp only [hpayload]
  unfold fromData
  simp only [hheader]
  rw [if_neg (by decide), hunpack, ok_bind, hdata]
  rfl

/-- Of `2 ^ 32` bytes of data none are read, and what is left is no list of extensions. -/
theorem fromTransaction_cut :
    fromTransaction storedZlib default (.zero 32) (dataTransaction (2 ^ 32)).encoded =
      err .invalid "Varint too large" := by
  have hlength : (2 ^ 32 : ℕ).toUInt32 = 0 := by decide
  obtain ⟨n, hn⟩ : ∃ n, 2 ^ 32 = 6 + n := ⟨2 ^ 32 - 6, by norm_num⟩
  rw [hn] at hlength ⊢
  -- The length is written as zero, so the bytes behind it are read as what follows.
  have hdata : writeString (List.replicate (6 + n) (0xff : UInt8)) =
      [0] ++ (List.replicate 6 0xff ++ List.replicate n 0xff) := by
    unfold writeString
    rw [List.length_replicate, hlength, List.replicate_add]
    rfl
  have hencoded (data : Bytes) : ({ actions := [{ data := data }] } : Transaction).encoded =
      List.replicate 13 0 ++ ([0] ++ ([1] ++ List.replicate 16 0 ++ [0] ++ writeString data)) ++ [0] := by
    have haction : AbiTraits.action.toABI { data := data } =
        .ok (List.replicate 16 0 ++ [0] ++ writeString data) := by
      have hname : AbiTraits.name.toABI {} = .ok (List.replicate 8 0) := rfl
      have hauthorization : AbiTraits.permissionLevel.vector.toABI [] = .ok [0] := rfl
      have hbytes : AbiTraits.bytes.toABI data = .ok (writeString data) := rfl
      unfold AbiTraits.action
      simp only [hname, hauthorization, hbytes, ok_bind]
      rfl
    have hactions : AbiTraits.action.vector.toABI [{ data := data }] =
        .ok ([1] ++ (List.replicate 16 0 ++ [0] ++ writeString data)) := by
      have hitems : [({ data := data } : Action)].mapM AbiTraits.action.toABI =
          .ok [List.replicate 16 0 ++ [0] ++ writeString data] := by
        rw [List.mapM_cons, haction]
        rfl
      have hcount : writeVaruint32 (1 : ℕ).toUInt32 = [1] := by decide
      unfold AbiTraits.vector
      simp only
      rw [hitems, ok_bind, List.flatten_singleton, List.length_singleton, hcount]
      rfl
    have hheader : AbiTraits.transactionHeader.toABI {} = .ok (List.replicate 13 0) := rfl
    have hfree : AbiTraits.action.vector.toABI [] = .ok [0] := rfl
    have hextensions : AbiTraits.transactionExtension.vector.toABI [] = .ok [0] := rfl
    unfold Transaction.encoded AbiTraits.transaction
    simp only [hheader, hfree, hactions, hextensions, ok_bind]
    rfl
  refine fromTransaction_error ?_
  unfold dataTransaction
  rw [hencoded, hdata]
  have hassoc : List.replicate 13 0 ++ ([0] ++ ([1] ++ List.replicate 16 0 ++ [0] ++
      ([0] ++ (List.replicate 6 0xff ++ List.replicate n 0xff)))) ++ [0] ++
        [RequestFlags.broadcastFlag, 0, 0] =
      List.replicate 13 0 ++ ([0] ++ ([1] ++ List.replicate 16 0 ++ [0] ++ [0] ++
        (List.replicate 6 (0xff : UInt8) ++ (List.replicate n 0xff ++ [0, RequestFlags.broadcastFlag, 0, 0])))) := by
    simp only [List.append_assoc, List.cons_append, List.nil_append]
  rw [hassoc]
  exact run_transaction_cut _

end SigningRequest

end Dwarfkit
