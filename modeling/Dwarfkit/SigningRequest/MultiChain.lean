/-
# Requests for several chains

A request that is created for any chain with a list of chain ids carries the list in an info
pair behind those of its arguments.  Resolution asks for a chosen chain and looks it up in the
first pair of that key.

* `chainIds_read` : the list that was written is read back, or the front of it;
* `sameData_of_roundTripped` : what comes back from a uri has the data of the request;
* `stays_iff_listsOnly` : when a request is resolved for the chains of its list only.
-/
import Dwarfkit.SigningRequest.Create

namespace Dwarfkit

open Wire

/-! ## The chain list in its pair -/

namespace AbiTraits

/-- A list is read back up to what its length prefix holds. -/
theorem reads_vector_prefix {α : Type} {t : AbiTraits α} (ht : t.RoundTrips (fun _ => True))
    {l : List α} {bytes : Bytes} (h : t.vector.toABI l = .ok bytes) :
    ∃ rest, t.vector.fromABI.run bytes = .ok (l.take (l.length % 2 ^ 32), rest) := by
  obtain ⟨items, hitems, h⟩ := bind_eq_ok.mp h
  cases h
  have hchunks := forall₂_of_mapM ht (fun _ _ => trivial) hitems
  have hprefix := List.forall₂_take (l.length % 2 ^ 32) hchunks
  have hread := reads_readItems hprefix []
  have hlen : (l.length.toUInt32).toNat = (l.take (l.length % 2 ^ 32)).length := by
    simp only [Nat.toUInt32, UInt32.toNat_ofNat', List.length_take]
    omega
  refine ⟨(items.drop (l.length % 2 ^ 32)).flatten, ?_⟩
  have hsplit : items.flatten = (items.take (l.length % 2 ^ 32)).flatten ++
      (items.drop (l.length % 2 ^ 32)).flatten := by
    rw [← List.flatten_append, List.take_append_drop]
  have hall : Reads t.vector.fromABI (writeVaruint32 l.length.toUInt32 ++
      (items.take (l.length % 2 ^ 32)).flatten) (l.take (l.length % 2 ^ 32)) := by
    refine (reads_readVaruint32 l.length.toUInt32).bind ?_
    rw [hlen]
    exact hread
  rw [hsplit, ← List.append_assoc]
  exact hall _

end AbiTraits

/-- The chains that the bytes of a pair list. -/
def listedChains (raw : Bytes) : Result (List ChainId) := do
  let (variants, _) ← AbiTraits.chainIdVariant.vector.fromABI.run raw
  variants.mapM variantChainId

/-- The variants of some chains name these. -/
theorem mapM_variantChainId (ids : List ChainId) :
    (ids.map ChainId.chainVariant).mapM variantChainId = .ok ids := by
  induction ids with
  | nil => rfl
  | cons id ids ih =>
    rw [List.map_cons, List.mapM_cons, ChainId.variantChainId_chainVariant, ok_bind, ih]
    rfl

/-- **The list that was written is read back**, or the front of it where it is too long. -/
theorem chainIds_read {ids : List ChainId} {raw : Bytes}
    (h : AbiTraits.chainIdVariant.vector.toABI (ids.map ChainId.chainVariant) = .ok raw) :
    ∃ n, listedChains raw = .ok (ids.take n) := by
  obtain ⟨rest, hread⟩ := AbiTraits.reads_vector_prefix AbiTraits.chainIdVariant_roundTrips h
  refine ⟨ids.length % 2 ^ 32, ?_⟩
  unfold listedChains
  rw [hread, ok_bind, List.length_map, ← List.map_take]
  exact mapM_variantChainId _

namespace SigningRequest

/-! ## Resolution -/

/-- Every resolution is for a chosen chain of the list. -/
def Stays (p : Platform) (ids : List ChainId) (request : SigningRequest) : Prop :=
  ∀ now abis signer ctx resolved, request.resolve p now abis signer ctx = .ok resolved →
    ∃ id ∈ ids, ctx.chainId = some id ∧ resolved.chainId = id

/-- The first pair of the chain list's key, where there is one, lists chains of `ids` only. -/
def ListsOnly (ids : List ChainId) (info : List InfoPair) : Prop :=
  ∀ pair listed, info.find? (fun pair => pair.key = lit "chain_ids") = some pair →
    listedChains pair.value = .ok listed → ∀ id ∈ listed, id ∈ ids

/-- The request is resolved in no context. -/
def NeverResolves (p : Platform) (request : SigningRequest) : Prop :=
  ∀ now abis signer ctx resolved, request.resolve p now abis signer ctx ≠ .ok resolved

/-- A multi-chain request is resolved for a chosen chain, one of the list it finds. -/
theorem resolveChain_eq_ok {request : SigningRequest} {ctx : TransactionContext} {id : ChainId}
    {pair : InfoPair} (hmulti : request.data.chain_id = .alias 0)
    (hpair : request.data.info.find? (fun pair => pair.key = lit "chain_ids") = some pair) :
    request.resolveChain ctx = .ok id ↔
      ctx.chainId = some id ∧ ∃ listed, listedChains pair.value = .ok listed ∧ id ∈ listed := by
  have hmulti : request.isMultiChain = true := by simpa [isMultiChain] using hmulti
  have hraw : request.getRawInfoKey (lit "chain_ids") = some pair.value := by
    unfold getRawInfoKey
    rw [hpair]
    rfl
  have hids : request.getChainIds = some <$> listedChains pair.value := by
    unfold getChainIds listedChains
    rw [hmulti, if_neg (by decide), hraw]
    simp only
    cases AbiTraits.chainIdVariant.vector.fromABI.run pair.value with
    | error e => rfl
    | ok read => rfl
  unfold resolveChain
  rw [if_pos hmulti, hids]
  -- A context without a chain is refused before the list is looked at.
  cases ctx.chainId with
  | none => simp [err]
  | some chosen =>
    cases hlisted : listedChains pair.value with
    | error e =>
      simp only [reduceCtorEq, false_and, exists_false, and_false, iff_false]
      exact fun h => by cases h
    | ok listed =>
      simp only [Except.map_ok, ok_bind, Option.some.injEq, Except.ok.injEq, exists_eq_left']
      by_cases hmem : chosen ∈ listed
      · rw [if_pos hmem]
        constructor
        · intro h
          cases h
          exact ⟨rfl, hmem⟩
        · rintro ⟨rfl, -⟩
          rfl
      · rw [if_neg hmem]
        constructor
        · intro h
          cases h
        · rintro ⟨rfl, h⟩
          exact absurd h hmem

/-- **A request is resolved for the chains of its list only** exactly if the pair it finds
lists no other, or it cannot be resolved at all. -/
theorem stays_iff_listsOnly (p : Platform) {request : SigningRequest} {ids : List ChainId}
    {info : List InfoPair} {raw : Bytes} (hmulti : request.data.chain_id = .alias 0)
    (hinfo : request.data.info = info ++ [{ key := "chain_ids", value := raw }])
    (hraw : AbiTraits.chainIdVariant.vector.toABI (ids.map ChainId.chainVariant) = .ok raw) :
    Stays p ids request ↔ ListsOnly ids info ∨ NeverResolves p request := by
  have hfind := @List.find?_append InfoPair (fun pair => pair.key = lit "chain_ids") info
    [{ key := "chain_ids", value := raw }]
  rw [← hinfo] at hfind
  constructor
  · intro hstays
    by_contra hnot
    rw [not_or] at hnot
    obtain ⟨hlists, hresolves⟩ := hnot
    unfold ListsOnly at hlists
    unfold NeverResolves at hresolves
    push Not at hlists hresolves
    obtain ⟨pair, listed, hpair, hlisted, id, hid, hforeign⟩ := hlists
    obtain ⟨now, abis, signer, ctx, resolved, hresolved⟩ := hresolves
    obtain ⟨tx, hresolution⟩ := resolve_eq_ok.mp hresolved
    rw [hpair] at hfind
    -- the same resolution, for a chain that is not of the list
    have hchosen : request.resolve p now abis signer { ctx with chainId := some id } =
        .ok { resolved with chainId := id } := by
      have hchain : request.resolveChain { ctx with chainId := some id } = .ok id :=
        (resolveChain_eq_ok hmulti hfind).mpr ⟨rfl, listed, hlisted, hid⟩
      exact resolve_eq_ok.mpr ⟨tx, { hresolution with chain := hchain }⟩
    obtain ⟨id', hmem, hctx, -⟩ := hstays _ _ _ _ _ hchosen
    rw [← Option.some.inj hctx] at hmem
    exact hforeign hmem
  · rintro (hlists | hnever)
    · intro now abis signer ctx resolved hresolved
      obtain ⟨tx, hresolution⟩ := resolve_eq_ok.mp hresolved
      cases hpair : info.find? (fun pair => pair.key = lit "chain_ids") with
      | some pair =>
        rw [hpair] at hfind
        obtain ⟨hctx, listed, hlisted, hmem⟩ :=
          (resolveChain_eq_ok hmulti hfind).mp hresolution.chain
        exact ⟨_, hlists pair listed hpair hlisted _ hmem, hctx, rfl⟩
      | none =>
        rw [hpair] at hfind
        obtain ⟨hctx, listed, hlisted, hmem⟩ :=
          (resolveChain_eq_ok hmulti (hfind.trans rfl)).mp hresolution.chain
        obtain ⟨n, hread⟩ := chainIds_read hraw
        rw [hread] at hlisted
        obtain rfl := Except.ok.inj hlisted
        exact ⟨_, List.mem_of_mem_take hmem, hctx, rfl⟩
    · intro now abis signer ctx resolved hresolved
      exact absurd hresolved (hnever now abis signer ctx resolved)

/-! ## Round trips -/

/-- What `from` makes of the uris that `encode` writes, any number of times. -/
inductive RoundTripped (z : Zlib) (p : Platform) (request : SigningRequest) : SigningRequest → Prop
  | refl : RoundTripped z p request request
  | step {before after : SigningRequest} (h : RoundTripped z p request before)
    (compress : Option Bool) (slashes : Bool) (scheme : Str) (zlib : Bool) (hscheme : 58 ∉ scheme)
    (hread : ofUri z p (before.encode z p compress slashes (scheme ++ [58]) zlib) = .ok after) :
    RoundTripped z p request after

/-- What is unpacked, if anything is, is what was packed. -/
theorem unpack_of_pack {z : Zlib} (hz : z.Faithful) (shouldCompress : Bool) {version : ℕ}
    (h : version = 2 ∨ version = 3) (array : Bytes) :
    ∃ header payload, pack z shouldCompress version.toUInt8 array = header :: payload ∧
      (header &&& ~~~compressedFlag).toNat = version ∧
      ∀ bytes, unpack z header payload = .ok bytes → bytes = array := by
  obtain ⟨header, payload, hpack, hheader, hunpack⟩ := unpack_packed z shouldCompress h array
  refine ⟨header, payload, hpack, hheader, ?_⟩
  intro bytes hbytes
  rcases hunpack with hplain | ⟨-, hdeflate, hinflate⟩
  · rw [hplain] at hbytes
    exact (Except.ok.inj hbytes).symm
  · rw [hinflate] at hbytes
    exact hz array payload bytes hdeflate hbytes

/-- **What comes back from a uri has the data of the request**, whatever its signature. -/
theorem data_of_ofUri {z : Zlib} (hz : z.Faithful) {p : Platform} {request after : SigningRequest}
    (hversion : request.version = request.data.version) (hsized : request.data.Sized)
    {compress : Option Bool} {slashes : Bool} {scheme : Str} {zlib : Bool} (hscheme : 58 ∉ scheme)
    (h : ofUri z p (request.encode z p compress slashes (scheme ++ [58]) zlib) = .ok after) :
    after.version = request.version ∧ after.data = request.data := by
  have hcases : request.version = 2 ∨ request.version = 3 := by
    rw [hversion]
    cases request.data with
    | v2 d => exact .inl rfl
    | v3 d => exact .inr rfl
  obtain ⟨header, payload, hpack, hheader, hunpack⟩ := unpack_of_pack hz (compress.getD zlib) hcases
    (request.getData ++ request.getSignatureData p)
  obtain ⟨bytes, hbytes, hread⟩ := reads_data hsized
  rw [← hversion] at hread
  have hdata : request.getData = bytes := by
    unfold getData
    rw [hbytes]
    rfl
  unfold encode at h
  simp only at h
  rw [ofUri_scheme z p hscheme, hpack] at h
  unfold fromData at h
  simp only [hheader] at h
  rw [if_neg (by omega)] at h
  obtain ⟨unpacked, hunpacked, h⟩ := bind_eq_ok.mp h
  rw [hunpack unpacked hunpacked, hdata, hread, ok_bind] at h
  -- The signature is read of what follows the data, which is known by then.
  obtain ⟨⟨signature, rest⟩, -, h⟩ := bind_eq_ok.mp h
  simp only at h
  split at h
  · cases h
  · cases h
    exact ⟨rfl, rfl⟩

/-- The data survives any number of round trips. -/
theorem sameData_of_roundTripped {z : Zlib} (hz : z.Faithful) {p : Platform}
    {request after : SigningRequest} (hversion : request.version = request.data.version)
    (hsized : request.data.Sized) (h : RoundTripped z p request after) :
    after.version = request.version ∧ after.data = request.data := by
  induction h with
  | refl => exact ⟨rfl, rfl⟩
  | step _ compress slashes scheme zlib hscheme hread ih =>
    obtain ⟨hsameVersion, hsame⟩ := ih
    have hback := data_of_ofUri hz (by rw [hsameVersion, hsame, hversion]) (by rwa [hsame]) hscheme
      hread
    exact ⟨hback.1.trans hsameVersion, hback.2.trans hsame⟩

/-! ## Created requests -/

/-- The chain, the version and the info pairs of a request for several chains. -/
theorem create_multiChain {p : Platform} {args : SigningRequestCreateArguments}
    {options : SigningRequestEncodingOptions} {presetAbis : AbiMap} {request : SigningRequest}
    (hany : args.anyChain = true) (hids : args.chainIds ≠ [])
    (h : create p args options presetAbis = .ok request) :
    request.version = request.data.version ∧ request.data.chain_id = .alias 0 ∧
    ∃ raw, AbiTraits.chainIdVariant.vector.toABI (args.chainIds.map ChainId.chainVariant) = .ok raw ∧
      request.data.info = args.info ++ [{ key := "chain_ids", value := raw }] := by
  obtain ⟨abis, reqType, reqValue, chain_id, info, -, -, hchain, hinfo, hversion, hdata, -⟩ :=
    create_eq_ok h
  have hthree : requestVersion args = 3 := if_pos (.inl hany)
  have hchain : chain_id = .alias 0 := by
    unfold requestChain at hchain
    rw [if_pos hany] at hchain
    exact (Except.ok.inj hchain).symm
  unfold requestInfo at hinfo
  rw [if_pos ⟨hids, hany⟩] at hinfo
  obtain ⟨raw, hraw, hinfo⟩ := bind_eq_ok.mp hinfo
  rw [hthree] at hversion hdata
  unfold versionedData at hdata
  rw [if_neg (by decide)] at hdata
  obtain ⟨d, hd, hdata⟩ := map_eq_ok.mp hdata
  obtain ⟨req, -, hd⟩ := bind_eq_ok.mp hd
  cases hinfo
  cases hd
  rw [← hdata]
  exact ⟨hversion, hchain, raw, hraw, rfl⟩

/-- **A request for several chains** is resolved for the chains of its list only, before and
after any round trip, exactly if no pair of its own info lists another chain in front of the
list; and a chain is the one its variant names. -/
theorem multiChain_stays_iff {p : Platform} {args : SigningRequestCreateArguments}
    {options : SigningRequestEncodingOptions} {presetAbis : AbiMap} {request : SigningRequest}
    (hany : args.anyChain = true) (hids : args.chainIds ≠ [])
    (h : create p args options presetAbis = .ok request) :
    (Stays p args.chainIds request ↔ ListsOnly args.chainIds args.info ∨ NeverResolves p request) ∧
    (request.data.Sized → ∀ z, Zlib.Faithful z → ∀ after, RoundTripped z p request after →
      (Stays p args.chainIds after ↔ ListsOnly args.chainIds args.info ∨ NeverResolves p after)) ∧
    ∀ id : ChainId, variantChainId id.chainVariant = .ok id := by
  obtain ⟨hversion, hmulti, raw, hraw, hinfo⟩ := create_multiChain hany hids h
  refine ⟨stays_iff_listsOnly p hmulti hinfo hraw, ?_, ChainId.variantChainId_chainVariant⟩
  intro hsized z hz after hafter
  obtain ⟨-, hsame⟩ := sameData_of_roundTripped hz hversion hsized hafter
  exact stays_iff_listsOnly p (by rw [hsame, hmulti]) (by rw [hsame, hinfo]) hraw

/-- No actions, for one chain. -/
def oneChain (info : List InfoPair) : SigningRequestCreateArguments where
  actions := some (.arr [])
  anyChain := true
  chainIds := [repeatedChain 1]
  info := info

/-- The request that is made of it. -/
def oneChainRequest (info : List InfoPair) : SigningRequest where
  version := 3
  data := .v3 {
    req := .actions []
    flags := { value := 1 }
    info := info ++ [{ key := "chain_ids", value := 1 :: 1 :: List.replicate 32 1 }] }

theorem create_oneChain (info : List InfoPair) :
    create default (oneChain info) = .ok (oneChainRequest info) := by
  have hvariant : ChainId.chainVariant (repeatedChain 1) = .id (repeatedChain 1) := by
    decide +kernel
  have hids : [repeatedChain 1].map ChainId.chainVariant = [.id (repeatedChain 1)] := by
    rw [List.map_singleton, hvariant]
  have hinfo : requestInfo (oneChain info) =
      .ok (info ++ [{ key := "chain_ids", value := 1 :: 1 :: List.replicate 32 1 }]) := by
    unfold requestInfo oneChain
    simp only [hids]
    rfl
  unfold create
  rw [hinfo]
  rfl

/-- A request without pairs of its own. -/
theorem multiChain_stays_iff_oneChain :
    Stays default [repeatedChain 1] (oneChainRequest []) ↔
      ListsOnly [repeatedChain 1] [] ∨ NeverResolves default (oneChainRequest []) :=
  (@multiChain_stays_iff _ (oneChain []) {} [] _ rfl (List.cons_ne_nil _ _)
    (create_oneChain [])).1

/-- With a pair for another chain in front of its list, a request is resolved for that
chain. -/
theorem not_multiChain_stays :
    create default (oneChain [{ key := "chain_ids", value := 1 :: 1 :: List.replicate 32 2 }]) =
      .ok (oneChainRequest [{ key := "chain_ids", value := 1 :: 1 :: List.replicate 32 2 }]) ∧
    ¬ Stays default [repeatedChain 1]
      (oneChainRequest [{ key := "chain_ids", value := 1 :: 1 :: List.replicate 32 2 }]) := by
  refine ⟨create_oneChain _, fun h => ?_⟩
  have hisOk : ((oneChainRequest
      [{ key := "chain_ids", value := 1 :: 1 :: List.replicate 32 2 }]).resolve default 0 []
      { actor := .ofString "alice", permission := .ofString "active" }
      { expiration := some {}, ref_block_num := some 1, ref_block_prefix := some 1,
        chainId := some (repeatedChain 2) }).isOk = true := by
    decide +kernel
  cases hresolved : (oneChainRequest
      [{ key := "chain_ids", value := 1 :: 1 :: List.replicate 32 2 }]).resolve default 0 []
      { actor := .ofString "alice", permission := .ofString "active" }
      { expiration := some {}, ref_block_num := some 1, ref_block_prefix := some 1,
        chainId := some (repeatedChain 2) } with
  | error e =>
    rw [hresolved] at hisOk
    cases hisOk
  | ok resolved =>
    obtain ⟨id, hid, hctx, -⟩ := h _ _ _ _ _ hresolved
    rw [← Option.some.inj hctx] at hid
    exact absurd hid (by decide +kernel)

end SigningRequest

end Dwarfkit
