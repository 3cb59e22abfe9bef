/-
# Requests from elsewhere

Which json exceptions leave the functions on signing requests: none where a request is read
or resolved, and where one is created those of its actions only.  The payload of a callback
comes from a remote wallet, and some of its fields are read with throwing accessors.

* `contained_fromData`, `contained_resolve`, `contained_create` : requests;
* `contained_fromPayload_iff` : payloads.
-/
import Dwarfkit.Antelope.Chain.JsonBoundary
import Dwarfkit.Antelope.Serializer.Misreads
import Dwarfkit.SigningRequest.Callback
import Dwarfkit.SigningRequest.Create

namespace Dwarfkit

open Wire

/-! ## Reading -/

/-- Bytes that are only misread let no exception out. -/
theorem contained_run {α : Type} {d : Decoder α} (h : FailsIn Misread d) (s : Bytes) :
    Contained (d.run s) := by
  intro e he hexception
  obtain ⟨hinvalid, -⟩ := h s e he
  rw [hinvalid] at hexception
  cases hexception

namespace AbiTraits

theorem permissionLevel_misreads : permissionLevel.Misreads :=
  name_misreads.bind (fun _ => name_misreads.map _)

theorem action_misreads : action.Misreads :=
  name_misreads.bind (fun _ => name_misreads.bind (fun _ =>
    (vector_misreads permissionLevel_misreads).bind (fun _ => bytes_misreads.map _)))

theorem transactionExtension_misreads : transactionExtension.Misreads :=
  (readInt_map_misreads 2 _).bind (fun _ => bytes_misreads.map _)

theorem transactionHeader_misreads : transactionHeader.Misreads :=
  (readInt_map_misreads 4 _).bind (fun _ => (readInt_map_misreads 2 _).bind (fun _ =>
    (readInt_map_misreads 4 _).bind (fun _ => readVaruint32_misreads.bind (fun _ =>
      (readInt_map_misreads 1 _).bind (fun _ => readVaruint32_misreads.map _)))))

theorem transaction_misreads : transaction.Misreads :=
  transactionHeader_misreads.bind (fun _ => (vector_misreads action_misreads).bind (fun _ =>
    (vector_misreads action_misreads).bind (fun _ =>
      (vector_misreads transactionExtension_misreads).map _)))

/-- An index no alternative has. -/
theorem unknownVariantIdx_misreads {α : Type} (idx : UInt32) :
    FailsIn Misread (Decoder.ofResult (unknownVariantIdx idx : Result α)) := by
  refine ofResult_misreads ((errorsIn_error_iff _).mpr (misread_of_head ?_))
  intro h
  cases h

theorem chainIdVariant_misreads : chainIdVariant.Misreads :=
  readVaruint32_misreads.bind (fun _ => FailsIn.ite ((readInt_map_misreads 1 _).map _)
    (FailsIn.ite ((checksum_misreads "checksum256" 32).map _) (unknownVariantIdx_misreads _)))

theorem identityV2_misreads : identityV2.Misreads :=
  (optional_misreads permissionLevel_misreads).map _

theorem identityV3_misreads : identityV3.Misreads :=
  name_misreads.bind (fun _ => (optional_misreads permissionLevel_misreads).map _)

theorem requestVariant_misreads {I : Type} {identity : AbiTraits I} (h : identity.Misreads) :
    (requestVariant identity).Misreads :=
  readVaruint32_misreads.bind (fun _ => FailsIn.ite (action_misreads.map _)
    (FailsIn.ite ((vector_misreads action_misreads).map _)
      (FailsIn.ite (transaction_misreads.map _)
        (FailsIn.ite (h.map _) (unknownVariantIdx_misreads _)))))

theorem infoPair_misreads : infoPair.Misreads :=
  readString_misreads.bind (fun _ => bytes_misreads.map _)

theorem requestData_misreads {I : Type} {identity : AbiTraits I} (h : identity.Misreads) :
    (requestData identity).Misreads :=
  chainIdVariant_misreads.bind (fun _ => (requestVariant_misreads h).bind (fun _ =>
    ((readInt_map_misreads 1 _).map _).bind (fun _ => readString_misreads.bind (fun _ =>
      (vector_misreads infoPair_misreads).map _))))

theorem requestSignature_misreads (p : Platform) : (requestSignature p).Misreads :=
  name_misreads.bind (fun _ => (signature_misreads p).map _)

end AbiTraits

/-- The data of either version. -/
theorem versionedData_misreads (version : ℕ) : FailsIn Misread (VersionedData.fromABI version) :=
  FailsIn.ite ((AbiTraits.requestData_misreads AbiTraits.identityV2_misreads).map _)
    ((AbiTraits.requestData_misreads AbiTraits.identityV3_misreads).map _)

theorem readSignature_misreads (p : Platform) : FailsIn Misread (SigningRequest.readSignature p) :=
  canRead_misreads.bind (fun _ =>
    FailsIn.ite ((AbiTraits.requestSignature_misreads p).map _) (FailsIn.pure _))

/-- The library's inflating reports its errors. -/
def InflatesContained (z : Zlib) : Prop := ∀ payload, Contained (z.inflateRaw payload)

/-- A provider of ABIs reports its errors. -/
def ProvidesContained (abiProvider : Option AbiProvider) : Prop :=
  ∀ getAbi, abiProvider = some getAbi → ∀ account, Contained (getAbi account)

namespace SigningRequest

/-- **A request that is read** lets no exception out, whatever the bytes. -/
theorem contained_fromData {z : Zlib} (hz : InflatesContained z) (p : Platform) (data : Bytes) :
    Contained (fromData z p data) := by
  cases data with
  | nil => simp [fromData]
  | cons header payload =>
    unfold fromData
    simp only
    split
    · simp
    · refine Contained.bind ?_ (fun payload _ => ?_)
      · unfold unpack
        split
        · exact hz payload
        · exact contained_ok _
      · refine Contained.bind (contained_run (versionedData_misreads _) _) (fun data _ => ?_)
        refine Contained.bind (contained_run (readSignature_misreads p) _) (fun signature _ => ?_)
        split
        · simp
        · exact contained_ok _

theorem contained_ofUri {z : Zlib} (hz : InflatesContained z) (p : Platform) (uri : Str) :
    Contained (ofUri z p uri) := by
  unfold ofUri
  split
  · simp
  · exact contained_fromData hz p _

end SigningRequest

/-! ## Resolving -/

theorem contained_identityV2 (v : IdentityV2) : Contained v.toABI := by
  obtain ⟨bytes, hbytes⟩ := AbiTraits.optional_writes (fun level => ⟨_, rfl⟩ :
    AbiTraits.permissionLevel.Writes) v.permission
  have h : v.toABI = .ok bytes := hbytes
  rw [h]
  exact contained_ok _

theorem contained_identityV3 (v : IdentityV3) : Contained v.toABI := by
  obtain ⟨bytes, hbytes⟩ := AbiTraits.optional_writes (fun level => ⟨_, rfl⟩ :
    AbiTraits.permissionLevel.Writes) v.permission
  refine Contained.bind (contained_ok _) (fun scope _ => ?_)
  rw [hbytes]
  exact contained_ok _

theorem contained_variantChainId (chain : ChainIdVariant) : Contained (variantChainId chain) := by
  unfold variantChainId
  split
  · exact contained_ok _
  · unfold ChainId.ofAlias
    split
    · exact contained_ofHex 32 _
    · simp

namespace SigningRequest

theorem contained_getRawActions (request : SigningRequest) : Contained request.getRawActions := by
  unfold getRawActions
  split
  case h_7 =>
    split
    · exact Contained.bind (contained_identityV2 _) (fun _ _ => contained_ok _)
    · exact Contained.bind (contained_hexToArray _) (fun _ _ => contained_ok _)
  case h_8 => exact Contained.bind (contained_identityV3 _) (fun _ _ => contained_ok _)
  all_goals exact contained_ok _

theorem contained_getRawTransaction (request : SigningRequest) :
    Contained request.getRawTransaction := by
  unfold getRawTransaction
  split
  · exact contained_ok _
  · exact contained_ok _
  · exact Contained.bind (contained_getRawActions request) (fun _ _ => contained_ok _)

/-- The ABIs of a request. -/
theorem contained_fetchAbis (request : SigningRequest) {abiProvider : Option AbiProvider}
    (h : ProvidesContained abiProvider) : Contained (request.fetchAbis abiProvider) := by
  unfold fetchAbis
  simp only
  split
  · exact contained_ok _
  · cases abiProvider with
    | none => simp
    | some getAbi =>
      exact errorsIn_foldlM (fun abis account _ =>
        Contained.bind (h getAbi rfl account) (fun _ _ => contained_ok _)) []

theorem contained_getChainIds (request : SigningRequest) : Contained request.getChainIds := by
  unfold getChainIds
  split
  · exact contained_ok _
  · split
    · exact contained_ok _
    · refine Contained.bind (contained_run
        (AbiTraits.vector_misreads AbiTraits.chainIdVariant_misreads) _) (fun variants _ => ?_)
      exact Contained.bind (contained_mapM (fun variant _ => contained_variantChainId variant))
        (fun _ _ => contained_ok _)

theorem contained_actionAbi (version : ℕ) (abis : AbiMap) (account name : Name) :
    Contained (actionAbi version abis account name) := by
  unfold actionAbi
  split
  · exact contained_ok _
  · split <;> simp

/-- One action, its data decoded. -/
theorem contained_resolveAction (p : Platform) (version : ℕ) (abis : AbiMap)
    (signer : Option PermissionLevel) (action : Action) :
    Contained (resolveAction p version abis signer action) := by
  unfold resolveAction
  refine Contained.bind (contained_actionAbi version abis _ _) (fun abi _ => ?_)
  split
  · simp
  · refine Contained.bind ?_ (fun data _ => ?_)
    · unfold Action.decodeData
      split
      · simp
      · exact Serializer.contained_decode p _ _ abi
    · split
      · exact contained_ok _
      · exact contained_ok _

theorem contained_taposHeader (request : SigningRequest) (now : ℤ) (ctx : TransactionContext)
    (tx : TransactionHeader) : Contained (request.taposHeader now ctx tx) := by
  unfold taposHeader
  split
  · split
    · exact contained_ok _
    · split
      · exact contained_ok _
      · simp
  · split
    · exact contained_ok _
    · exact contained_ok _

/-- **A transaction that is resolved** lets no exception out. -/
theorem contained_resolveTransaction (p : Platform) (request : SigningRequest) (now : ℤ)
    (abis : AbiMap) (signer : PermissionLevel) (ctx : TransactionContext) :
    Contained (request.resolveTransaction p now abis signer ctx) := by
  unfold resolveTransaction
  refine Contained.bind (contained_getRawTransaction request) (fun tx _ => ?_)
  refine Contained.bind (contained_taposHeader request now ctx _) (fun header _ => ?_)
  refine Contained.bind ?_ (fun _ _ => contained_ok _)
  refine Contained.bind (contained_getRawActions request) (fun actions _ => ?_)
  exact contained_mapM (fun action _ => contained_resolveAction p _ abis _ action)

/-- One action, its data encoded again. -/
theorem contained_encodeAction (p : Platform) (version : ℕ) (abis : AbiMap)
    (action : ResolvedAction) : Contained (encodeAction p version abis action) := by
  unfold encodeAction
  refine Contained.bind (contained_actionAbi version abis _ _) (fun abi _ => ?_)
  split
  · simp
  · exact Contained.bind (Serializer.contained_encode p _ _ abi) (fun _ _ => contained_ok _)

theorem contained_encodeContextFree (action : ResolvedAction) :
    Contained (encodeContextFree action) := by
  unfold encodeContextFree
  split
  · exact Contained.bind (contained_hexToArray _) (fun _ _ => contained_ok _)
  · exact contained_ok _

theorem contained_resolveChain (request : SigningRequest) (ctx : TransactionContext) :
    Contained (request.resolveChain ctx) := by
  unfold resolveChain
  split
  · split
    · simp
    · refine Contained.bind (contained_getChainIds request) (fun ids _ => ?_)
      split
      · split
        · exact contained_ok _
        · simp
      · exact contained_ok _
  · exact contained_variantChainId _

/-- **So does a request.** -/
theorem contained_resolve (p : Platform) (request : SigningRequest) (now : ℤ) (abis : AbiMap)
    (signer : PermissionLevel) (ctx : TransactionContext) :
    Contained (request.resolve p now abis signer ctx) := by
  unfold resolve
  refine Contained.bind (contained_resolveTransaction p request now abis signer ctx)
    (fun tx _ => ?_)
  refine Contained.bind (contained_mapM (fun action _ => contained_encodeAction p _ abis action))
    (fun actions _ => ?_)
  refine Contained.bind (contained_mapM (fun action _ => contained_encodeContextFree action))
    (fun context_free_actions _ => ?_)
  exact Contained.bind (contained_resolveChain request ctx) (fun _ _ => contained_ok _)

end SigningRequest

/-! ## Payloads -/

namespace ResolvedSigningRequest

theorem contained_payloadExpiration_iff {payload : Json} (hobject : payload.isObject = true) :
    Contained (payloadExpiration payload) ↔ payload.TextAt "ex" := by
  unfold payloadExpiration
  split
  · rw [contained_bind_iff, Json.contained_valueStr_iff]
    constructor
    · rintro ⟨⟨-, htext⟩, -⟩
      exact htext
    · intro htext
      refine ⟨⟨hobject, htext⟩, fun text _ => ?_⟩
      refine Contained.bind ?_ (fun _ _ => contained_ok _)
      exact Contained.bind (contained_milliseconds text) (fun _ _ => contained_ok _)
  · rename_i habsent
    refine ⟨fun _ v hv => ?_, fun _ => contained_ok _⟩
    unfold Json.contains at habsent
    rw [hv] at habsent
    exact absurd rfl habsent

theorem contained_payloadChain_iff {payload : Json} (hobject : payload.isObject = true)
    (request : SigningRequest) :
    Contained (payloadChain payload request) ↔ payload.TextAt "cid" := by
  unfold payloadChain
  split
  · rw [contained_bind_iff, Json.contained_valueStr_iff]
    constructor
    · rintro ⟨⟨-, htext⟩, -⟩
      exact htext
    · intro htext
      exact ⟨⟨hobject, htext⟩, fun text _ => contained_ofHex 32 text⟩
  · rename_i habsent
    refine ⟨fun _ v hv => ?_, fun _ => contained_variantChainId _⟩
    unfold Json.contains at habsent
    rw [hv] at habsent
    exact absurd rfl habsent

/-- What a payload has to be: an object whose fields `req`, `ex`, `cid`, `sa` and `sp` are
texts or missing, as far as they are read. -/
def PayloadReadable (z : Zlib) (p : Platform) (abiProvider : Option AbiProvider)
    (payload : Json) : Prop :=
  payload.isObject = true ∧ payload.TextAt "req" ∧
  ∀ uri request abis, payload.valueStr "req" [] = .ok uri →
    SigningRequest.ofUri z p uri = .ok request → request.fetchAbis abiProvider = .ok abis →
    payload.TextAt "ex" ∧ ∀ expiration, payloadExpiration payload = .ok expiration →
      payload.TextAt "cid" ∧ ∀ chainId, payloadChain payload request = .ok chainId →
        payload.TextAt "sa" ∧ payload.TextAt "sp"

/-- **A payload lets an exception out** exactly where a field is read that is no text. -/
theorem contained_fromPayload_iff {z : Zlib} (hz : InflatesContained z) (p : Platform) (now : ℤ)
    {abiProvider : Option AbiProvider} (hprovider : ProvidesContained abiProvider)
    (payload : Json) :
    Contained (fromPayload z p now abiProvider payload) ↔
      PayloadReadable z p abiProvider payload := by
  unfold fromPayload PayloadReadable
  rw [contained_bind_iff, Json.contained_valueStr_iff, and_assoc]
  refine and_congr_right (fun hobject => and_congr_right (fun hreq => ?_))
  constructor
  · -- The fields are read in this order, each after the one before it was read.
    intro h uri request abis huri hrequest habis
    have h := (contained_bind_iff.mp (h uri huri)).2 request hrequest
    have h := (contained_bind_iff.mp h).2 abis habis
    obtain ⟨hex, h⟩ := contained_bind_iff.mp h
    refine ⟨(contained_payloadExpiration_iff hobject).mp hex, ?_⟩
    intro expiration hexpiration
    obtain ⟨hcid, h⟩ := contained_bind_iff.mp (h expiration hexpiration)
    refine ⟨(contained_payloadChain_iff hobject request).mp hcid, ?_⟩
    intro chainId hchainId
    obtain ⟨hsa, h⟩ := contained_bind_iff.mp (h chainId hchainId)
    have htext := ((Json.contained_valueStr_iff _ _ _).mp hsa).2
    obtain ⟨actor, hactor⟩ := Json.exists_valueStr hobject htext []
    obtain ⟨hsp, -⟩ := contained_bind_iff.mp (h actor hactor)
    exact ⟨htext, ((Json.contained_valueStr_iff _ _ _).mp hsp).2⟩
  · intro h uri huri
    refine Contained.bind (SigningRequest.contained_ofUri hz p uri) (fun request hrequest => ?_)
    refine Contained.bind (request.contained_fetchAbis hprovider) (fun abis habis => ?_)
    obtain ⟨hex, h⟩ := h uri request abis huri hrequest habis
    refine Contained.bind ((contained_payloadExpiration_iff hobject).mpr hex)
      (fun expiration hexpiration => ?_)
    obtain ⟨hcid, h⟩ := h expiration hexpiration
    refine Contained.bind ((contained_payloadChain_iff hobject request).mpr hcid)
      (fun chainId hchainId => ?_)
    obtain ⟨hsa, hsp⟩ := h chainId hchainId
    refine Contained.bind ((Json.contained_valueStr_iff _ _ _).mpr ⟨hobject, hsa⟩) (fun actor _ => ?_)
    refine Contained.bind ((Json.contained_valueStr_iff _ _ _).mpr ⟨hobject, hsp⟩)
      (fun permission _ => ?_)
    exact request.contained_resolve p now abis _ _

end ResolvedSigningRequest

/-! ## Creating -/

namespace AbiTraits

theorem transaction_contained (j : Json) : Contained (transaction.fromJSON j) := by
  refine Contained.bind (contained_transactionHeader j) (fun _ _ => ?_)
  refine Contained.bind (contained_field (vector_contained action_contained) j _) (fun _ _ => ?_)
  refine Contained.bind (contained_field (vector_contained action_contained) j _) (fun _ _ => ?_)
  exact Contained.bind (contained_field (vector_contained transactionExtension_contained) j _)
    (fun _ _ => contained_ok _)

theorem identityV2_contained (j : Json) : Contained (identityV2.fromJSON j) := by
  refine Contained.bind (contained_expectObject j) (fun _ _ => ?_)
  refine Contained.bind ?_ (fun _ _ => contained_ok _)
  unfold optionalField
  split
  · exact contained_ok _
  · exact contained_ok _
  · exact Contained.bind (permissionLevel_contained.fromJSON _) (fun _ _ => contained_ok _)

theorem requestVariant_contained (j : Json) :
    Contained ((requestVariant identityV2).fromJSON j) := by
  unfold requestVariant
  refine Contained.bind ?_ (fun pair _ => ?_)
  · unfold variantPair
    split <;> simp
  · simp only
    split
    · exact contained_map_iff.mpr (action_contained.fromJSON _)
    · split
      · exact contained_map_iff.mpr ((vector_contained action_contained).fromJSON _)
      · split
        · exact contained_map_iff.mpr (transaction_contained _)
        · split
          · exact contained_map_iff.mpr (identityV2_contained _)
          · simp [unknownVariantType]

end AbiTraits

namespace SigningRequest

/-- A json action that can be encoded or refused: its data is encoded already, or its account
and its name are texts or missing. -/
def EntryReadable (entry : Json) : Prop :=
  (entry.find "data").map Action.isBytesValue = some true ∨
    entry.isObject = true ∧ entry.TextAt "account" ∧ entry.TextAt "name"

theorem contained_fetchMissing {options : SigningRequestEncodingOptions}
    (hprovider : ProvidesContained options.abiProvider) (abis : AbiMap) {entry : Json}
    (hentry : EntryReadable entry) : Contained (fetchMissing options abis entry) := by
  unfold fetchMissing
  split
  · rename_i hdata
    rcases hentry with hbytes | ⟨hobject, haccount, -⟩
    · rw [hbytes] at hdata
      cases hdata
    · refine Contained.bind ((Json.contained_valueStr_iff _ _ _).mpr ⟨hobject, haccount⟩)
        (fun text _ => ?_)
      simp only
      split
      · exact contained_ok _
      · simp
      · rename_i getAbi _ hgetAbi
        exact Contained.bind (hprovider getAbi hgetAbi _) (fun _ _ => contained_ok _)
  · exact contained_ok _

theorem contained_encodeActionJson (p : Platform) (abis : AbiMap) {entry : Json}
    (hentry : EntryReadable entry) : Contained (encodeActionJson p abis entry) := by
  unfold encodeActionJson
  split
  · exact Contained.bind (Action.contained_ofJson entry) (fun _ _ => contained_ok _)
  · rename_i hdata
    rcases hentry with hbytes | ⟨hobject, haccount, hname⟩
    · exact absurd hbytes hdata
    · refine Contained.bind ((Json.contained_valueStr_iff _ _ _).mpr ⟨hobject, haccount⟩)
        (fun text _ => ?_)
      split
      · simp
      · rename_i abi _
        refine Contained.bind ((Action.contained_ofJsonWith_iff p entry abi).mpr ?_)
          (fun _ _ => contained_ok _)
        exact Or.inr ⟨hname, Or.inl hobject⟩

/-- A transaction that can be created: an object whose actions can be encoded or refused. -/
structure TransactionReadable (tx : Json) : Prop where
  isObject : tx.isObject = true
  entries : ∀ entry ∈ ((tx.find "actions").getD .null).elements, EntryReadable entry

/-- Setting defaults: the members that are there stay. -/
theorem foldlM_setDefault_obj (defaults : List (Str × Json)) (members : List (Str × Json)) :
    ∃ members', defaults.foldlM setDefault (.obj members) = .ok (.obj members') ∧
      ∀ key, Json.lookup members' key =
        (Json.lookup members key).or (Json.lookup defaults key) := by
  induction defaults generalizing members with
  | nil => exact ⟨members, rfl, fun key => (Option.or_none).symm⟩
  | cons entry defaults ih =>
    rw [List.foldlM_cons]
    have hlookup (key : Str) : Json.lookup (entry :: defaults) key =
        if entry.1 = key then some entry.2 else Json.lookup defaults key := by
      unfold Json.lookup
      rw [List.find?_cons]
      by_cases h : entry.1 = key
      · simp [h]
      · simp [h]
    -- A default is written only where no member of the name is.
    cases hfound : Json.lookup members entry.1 with
    | some v =>
      have hstep : setDefault (.obj members) entry = .ok (.obj members) := by
        unfold setDefault
        rw [if_pos]
        show (Json.lookup members entry.1).isSome = true
        rw [hfound]
        rfl
      obtain ⟨members', hfold, hmembers'⟩ := ih members
      refine ⟨members', by rw [hstep, ok_bind, hfold], fun key => ?_⟩
      rw [hmembers', hlookup]
      by_cases hkey : entry.1 = key
      · rw [← hkey, hfound]
        rfl
      · rw [if_neg hkey]
    | none =>
      have hstep : setDefault (.obj members) entry =
          .ok (.obj (Json.insert members entry.1 entry.2)) := by
        unfold setDefault
        rw [if_neg]
        · rfl
        · show ¬ (Json.lookup members entry.1).isSome = true
          rw [hfound]
          simp
      obtain ⟨members', hfold, hmembers'⟩ := ih (Json.insert members entry.1 entry.2)
      refine ⟨members', by rw [hstep, ok_bind, hfold], fun key => ?_⟩
      rw [hmembers', hlookup]
      by_cases hkey : entry.1 = key
      · rw [← hkey, Json.lookup_insert_self, hfound]
        simp
      · rw [if_neg hkey, Json.lookup_insert_of_ne _ _ (Ne.symm hkey)]

/-- **A created request** lets no exception out, if the transaction is readable. -/
theorem contained_create (p : Platform) {args : SigningRequestCreateArguments} {tx : Json}
    (hargs : args.identity = none ∧ args.action = none ∧ args.actions = none ∧
      args.transaction = some tx) (htx : TransactionReadable tx)
    (hversion : args.anyChain = false) {options : SigningRequestEncodingOptions}
    (hprovider : ProvidesContained options.abiProvider) (hsigner : options.signatureProvider = none) :
    Contained (create p args options) := by
  obtain ⟨hidentity, haction, hactions, htransaction⟩ := hargs
  have hlist : actionList args = ((tx.find "actions").getD .null).elements := by
    unfold actionList
    rw [haction, hactions, htransaction]
  unfold create
  refine Contained.bind ?_ (fun abis _ => ?_)
  · rw [hlist]
    exact errorsIn_foldlM (fun abis entry hentry =>
      contained_fetchMissing hprovider abis (htx.entries entry hentry)) []
  refine Contained.bind ?_ (fun value _ => ?_)
  · -- the actions are still there once the defaults are set
    unfold requestValue
    rw [hidentity, haction, hactions, htransaction]
    cases tx with
    | obj members =>
      obtain ⟨members', hfold, hmembers'⟩ := foldlM_setDefault_obj transactionDefaults members
      have hdefault : Json.lookup transactionDefaults "actions" = some (.arr []) := by decide +kernel
      have hfound := hmembers' "actions"
      rw [hdefault] at hfound
      simp only
      rw [hfold, ok_bind]
      unfold Json.atKey
      simp only
      have hentries : ∀ entry ∈ ((Json.lookup members "actions").getD .null).elements,
          EntryReadable entry := htx.entries
      cases hmember : Json.lookup members "actions" with
      | some actions =>
        rw [hmember] at hfound hentries
        rw [hfound]
        refine Contained.bind (contained_ok _) (fun actions' hactions' => ?_)
        cases hactions'
        refine Contained.bind (contained_mapM (fun entry hentry =>
          contained_encodeActionJson p abis (hentries entry hentry))) (fun encoded _ => ?_)
        exact Contained.bind (contained_ok _) (fun _ _ => contained_ok _)
      | none =>
        rw [hmember] at hfound
        rw [hfound]
        exact contained_ok _
    | _ => cases htx.isObject
  -- What is left reads no json: the chain, the info pairs, the version and the signature.
  refine Contained.bind ?_ (fun chain_id _ => ?_)
  · unfold requestChain
    rw [hversion]
    split
    · exact contained_ok _
    · split
      · exact contained_ok _
      · exact Contained.bind (contained_variantChainId (.alias ChainName.eos.toUInt8)) (fun _ _ => contained_ok _)
  refine Contained.bind ?_ (fun info _ => ?_)
  · unfold requestInfo
    rw [hversion, if_neg (by simp)]
    exact contained_ok _
  refine Contained.bind ?_ (fun data _ => ?_)
  · have hv2 : requestVersion args = 2 := by
      unfold requestVersion
      rw [hversion, hidentity]
      rfl
    unfold versionedData
    rw [if_pos hv2]
    refine contained_map_iff.mpr ?_
    exact Contained.bind (AbiTraits.requestVariant_contained _) (fun _ _ => contained_ok _)
  simp only
  split
  · simp
  · unfold signWith
    rw [hsigner]
    exact contained_ok _

/-- An action that was read is readable: its data is a text. -/
theorem entryReadable_of_fromJSON {entry : Json} {action : Action}
    (h : AbiTraits.action.fromJSON entry = .ok action) : EntryReadable entry := by
  obtain ⟨_, -, h⟩ := bind_eq_ok.mp h
  obtain ⟨account, -, h⟩ := bind_eq_ok.mp h
  obtain ⟨name, -, h⟩ := bind_eq_ok.mp h
  obtain ⟨authorization, -, h⟩ := bind_eq_ok.mp h
  obtain ⟨data, hdata, -⟩ := bind_eq_ok.mp h
  unfold AbiTraits.field at hdata
  left
  cases hfind : entry.find "data" with
  | none =>
    rw [hfind] at hdata
    cases hdata
  | some v =>
    rw [hfind] at hdata
    cases v with
    | str text => rfl
    | _ => cases hdata

/-- A transaction that was read is readable. -/
theorem transactionReadable_of_fromJSON {j : Json} {tx : Transaction}
    (h : AbiTraits.transaction.fromJSON j = .ok tx) : TransactionReadable j := by
  obtain ⟨header, hheader, h⟩ := bind_eq_ok.mp h
  obtain ⟨context_free_actions, -, h⟩ := bind_eq_ok.mp h
  obtain ⟨actions, hactions, -⟩ := bind_eq_ok.mp h
  refine ⟨?_, fun entry hentry => ?_⟩
  · obtain ⟨_, hobject, -⟩ := bind_eq_ok.mp hheader
    cases j with
    | obj members => rfl
    | _ => cases hobject
  · unfold AbiTraits.field at hactions
    cases hfind : j.find "actions" with
    | none =>
      rw [hfind] at hactions
      cases hactions
    | some v =>
      rw [hfind] at hactions hentry
      cases v with
      | arr items =>
        obtain ⟨action, -, haction⟩ := exists_of_mapM hactions hentry
        exact entryReadable_of_fromJSON haction
      | _ => cases hactions

end SigningRequest

end Dwarfkit
