/-
# Login over signing requests

`createIdentityRequest` and `verifyLoginCallbackResponse` of `protocol_esr/esr.cpp`:
the identity request of a login context, and the check of the callback payload a
wallet answers with.

* `resolvesWithin_iff` : when the request can be resolved for the context's chains only;
* `acceptsWithin_iff` : when a payload is accepted for the context's chains only;
* `within_iff` : both, exactly when a chain is chosen.
-/
import Dwarfkit.Session.Plugins
import Dwarfkit.SigningRequest.MultiChain

namespace Dwarfkit

open Wire

/-! ## Data -/

/-- `EsrLoginContext`. -/
structure EsrLoginContext where
  appName : Str
  chain : Option ChainDefinition := none
  chains : List ChainDefinition := []
  esrOptions : SigningRequestEncodingOptions := {}

/-- `buoy::ReceiveOptions`: the channel. -/
structure ReceiveOptions where
  channel : Str
  service : Str
  deriving DecidableEq

/-- `BuoySession`. -/
structure BuoySession where
  session_name : Name
  request_key : PublicKey
  user_agent : Option Str

/-- `IdentityRequestResponse`, over the type of private keys. -/
structure IdentityRequestResponse (K : Type) where
  callback : ReceiveOptions
  request : SigningRequest
  sameDeviceRequest : SigningRequest
  requestKey : PublicKey
  privateKey : K

/-- What is drawn anew for each request: a private key and a channel. -/
structure EsrSurroundings (K : Type) where
  generate : Result K
  toPublic : K → Result PublicKey
  uuid : Result Str

/-- `abi_traits<BuoySession>`, the part that encodes: the user agent is an extension. -/
def BuoySession.toABI (p : Platform) (session : BuoySession) : Result Bytes := do
  let session_name ← AbiTraits.name.toABI session.session_name
  let request_key ← (AbiTraits.publicKey p).toABI session.request_key
  match session.user_agent with
  | none => return session_name ++ request_key
  | some user_agent => do
    let user_agent ← AbiTraits.string.toABI user_agent
    return session_name ++ request_key ++ user_agent

/-! ## The identity request -/

/-- `getUserAgent`. -/
def getUserAgent : Str := "@wharfkit/protocol-esr 1.6.1 dwarfkit/1.0.0"

/-- `prepareCallback`. -/
def prepareCallback (callbackChannel : ReceiveOptions) : CallbackType where
  url := callbackChannel.service ++ lit "/" ++ callbackChannel.channel
  background := true

/-- `prepareCallbackChannel`. -/
def prepareCallbackChannel {K : Type} (env : EsrSurroundings K) (buoyUrl : Str) :
    Result ReceiveOptions := do
  let channel ← env.uuid
  return { channel, service := buoyUrl }

namespace EsrLoginContext

/-- Neither a chosen chain nor a single one. -/
def isMultiChain (context : EsrLoginContext) : Bool :=
  ¬ (context.chain.isSome ∨ context.chains.length = 1)

/-- The chain id of the request; without one it is for any chain. -/
def requestChainId (context : EsrLoginContext) : Option ChainId :=
  if context.isMultiChain then none else context.chain.map (·.id)

/-- The chain ids of a multi-chain request. -/
def requestChainIds (context : EsrLoginContext) : List ChainId :=
  if context.isMultiChain then context.chains.map (·.id) else []

end EsrLoginContext

/-- The arguments of the identity request, with the link to answer to. -/
def identityArguments (context : EsrLoginContext) (callbackChannel : ReceiveOptions)
    (link : Bytes) : SigningRequestCreateIdentityArguments where
  callback := prepareCallback callbackChannel
  scope := some (.ofString context.appName)
  chainId := context.requestChainId
  anyChain := context.requestChainId.isNone
  chainIds := context.requestChainIds
  info := [{ key := "link", value := link }, { key := "scope", value := context.appName }]

/-- `createIdentityRequest`. -/
def createIdentityRequest {K : Type} (p : Platform) (env : EsrSurroundings K)
    (context : EsrLoginContext) (buoyUrl : Str) : Result (IdentityRequestResponse K) := do
  let privateKey ← env.generate
  let requestKey ← env.toPublic privateKey
  let createInfo : BuoySession := {
    session_name := .ofString context.appName
    request_key := requestKey
    user_agent := some getUserAgent }
  let callbackChannel ← prepareCallbackChannel env buoyUrl
  let link ← createInfo.toABI p
  let request ← SigningRequest.identity p (identityArguments context callbackChannel link)
    context.esrOptions
  return { callback := callbackChannel, request, sameDeviceRequest := request, requestKey,
           privateKey }

/-! ## The callback payload -/

/-- The first signature is there and not empty. -/
def hasSig (callbackResponse : Json) : Bool :=
  match callbackResponse.find "sig" with
  | some (.str sig) => sig ≠ []
  | _ => false

/-- The chain a single-chain response must be for. -/
def EsrLoginContext.expectedChain (context : EsrLoginContext) : Option ChainDefinition :=
  match context.chain with
  | some chain => some chain
  | none => context.chains.head?

/-- `verifyLoginCallbackResponse`. -/
def verifyLoginCallbackResponse (callbackResponse : Json) (context : EsrLoginContext) :
    Result Unit :=
  if hasSig callbackResponse = false then
    err .invalid "Invalid response, must have at least one signature"
  else if context.chain = none ∧ 1 < context.chains.length then
    if callbackResponse.contains "cid" then .ok ()
    else err .invalid "Multi chain response payload must specify resolved chain id (cid)"
  else
    match context.expectedChain, callbackResponse.find "cid" with
    | some chain, some cid =>
      if cid = .str chain.id.hexString then .ok ()
      else err .invalid "Got response for wrong chain id"
    | _, _ => .ok ()

/-! ## The context's chains -/

/-- The chains of a context: the chosen one, or the members of its list. -/
def EsrLoginContext.Allows (context : EsrLoginContext) (id : ChainId) : Prop :=
  match context.chain with
  | some chain => id = chain.id
  | none => ∃ chain ∈ context.chains, chain.id = id

/-- Some signer can resolve the request for a chain in some context. -/
def SigningRequest.Resolvable (p : Platform) (request : SigningRequest) (chainId : ChainId) :
    Prop :=
  ∃ now abis signer ctx resolved,
    request.resolve p now abis signer ctx = .ok resolved ∧ resolved.chainId = chainId

/-- A request that can be resolved for chains of the context only. -/
def ResolvesWithin (p : Platform) (request : SigningRequest) (context : EsrLoginContext) : Prop :=
  ∀ chainId, request.Resolvable p chainId → context.Allows chainId

/-- A context whose check accepts no payload that names another chain. -/
def AcceptsWithin (context : EsrLoginContext) : Prop :=
  ∀ payload cid, verifyLoginCallbackResponse payload context = .ok () →
    payload.find "cid" = some cid → ∃ id, context.Allows id ∧ cid = .str id.hexString

/-! ## The request of a context -/

/-- What the request for a context is made of, as far as its chains go. -/
theorem createIdentityRequest_eq_ok {K : Type} {p : Platform} {env : EsrSurroundings K}
    {context : EsrLoginContext} {buoyUrl : Str} {rv : IdentityRequestResponse K}
    (h : createIdentityRequest p env context buoyUrl = .ok rv) :
    ∃ (d : RequestData IdentityV3) (link : Bytes),
      rv.request.version = 3 ∧ rv.request.data = .v3 d ∧
      d.req = .identity { scope := .ofString context.appName } ∧
      SigningRequest.requestChain {
        chainId := context.requestChainId
        anyChain := context.requestChainId.isNone } = .ok d.chain_id ∧
      SigningRequest.requestInfo {
        anyChain := context.requestChainId.isNone
        chainIds := context.requestChainIds
        info := [{ key := "link", value := link },
          { key := "scope", value := context.appName }] } = .ok d.info := by
  obtain ⟨privateKey, -, h⟩ := bind_eq_ok.mp h
  obtain ⟨requestKey, -, h⟩ := bind_eq_ok.mp h
  obtain ⟨callbackChannel, -, h⟩ := bind_eq_ok.mp h
  obtain ⟨link, -, h⟩ := bind_eq_ok.mp h
  obtain ⟨request, hrequest, h⟩ := bind_eq_ok.mp h
  cases h
  obtain ⟨chain_id, info, hchain, hinfo, hversion, hdata⟩ :=
    @SigningRequest.identity_eq_ok _ _ _ _ (.ofString context.appName) rfl rfl rfl hrequest
  exact ⟨_, link, hversion, hdata, rfl, hchain, hinfo⟩

section Chains

variable {K : Type} {p : Platform} {env : EsrSurroundings K} {context : EsrLoginContext}
  {buoyUrl : Str} {rv : IdentityRequestResponse K}

/-- With a chosen chain the request is for that chain. -/
theorem resolveChain_chosen (h : createIdentityRequest p env context buoyUrl = .ok rv)
    {chain : ChainDefinition} (hchosen : context.chain = some chain) (ctx : TransactionContext) :
    rv.request.resolveChain ctx = .ok chain.id := by
  obtain ⟨d, link, -, hdata, -, hchain, -⟩ := createIdentityRequest_eq_ok h
  have hid : context.requestChainId = some chain.id := by
    unfold EsrLoginContext.requestChainId EsrLoginContext.isMultiChain
    rw [hchosen]
    rfl
  rw [hid] at hchain
  obtain hvariant : ChainId.chainVariant chain.id = d.chain_id := Except.ok.inj hchain
  have hsingle : rv.request.isMultiChain = false := by
    unfold SigningRequest.isMultiChain
    rw [hdata]
    show decide (d.chain_id = .alias 0) = false
    rw [← hvariant]
    exact decide_eq_false (ChainId.chainVariant_ne_any chain.id)
  unfold SigningRequest.resolveChain
  rw [hsingle]
  show variantChainId rv.request.data.chain_id = _
  rw [hdata]
  show variantChainId d.chain_id = _
  rw [← hvariant]
  exact ChainId.variantChainId_chainVariant chain.id

/-- Without a chosen chain the request is for any chain. -/
theorem isMultiChain_unchosen (h : createIdentityRequest p env context buoyUrl = .ok rv)
    (hnone : context.chain = none) :
    rv.request.isMultiChain = true ∧ ∃ link,
      SigningRequest.requestInfo {
        anyChain := true
        chainIds := context.requestChainIds
        info := [{ key := "link", value := link },
          { key := "scope", value := context.appName }] } = .ok rv.request.data.info := by
  obtain ⟨d, link, -, hdata, -, hchain, hinfo⟩ := createIdentityRequest_eq_ok h
  have hid : context.requestChainId = none := by
    unfold EsrLoginContext.requestChainId
    rw [hnone]
    split
    · rfl
    · rfl
  rw [hid] at hchain hinfo
  obtain hany : .alias 0 = d.chain_id := Except.ok.inj hchain
  unfold SigningRequest.isMultiChain
  rw [hdata]
  exact ⟨decide_eq_true hany.symm, link, hinfo⟩

/-- A single chain in the list is not put into the request. -/
theorem resolveChain_single (h : createIdentityRequest p env context buoyUrl = .ok rv)
    (hnone : context.chain = none) (hsingle : context.chains.length = 1) (chainId : ChainId) :
    rv.request.resolveChain { chainId := some chainId } = .ok chainId := by
  obtain ⟨hmulti, link, hinfo⟩ := isMultiChain_unchosen h hnone
  have hids : context.requestChainIds = [] := by
    unfold EsrLoginContext.requestChainIds EsrLoginContext.isMultiChain
    rw [hsingle]
    simp
  rw [hids] at hinfo
  have hno : rv.request.getChainIds = .ok none := by
    unfold SigningRequest.getChainIds SigningRequest.getRawInfoKey
    rw [hmulti, ← Except.ok.inj hinfo]
    rfl
  unfold SigningRequest.resolveChain
  rw [hmulti]
  simp only [hno, ok_bind]
  rfl

/-- The chains of a longer list are put into the request. -/
theorem resolveChain_list (h : createIdentityRequest p env context buoyUrl = .ok rv)
    (hnone : context.chain = none) (hlist : 1 < context.chains.length) {ctx : TransactionContext}
    {chainId : ChainId} (hchain : rv.request.resolveChain ctx = .ok chainId) :
    chainId ∈ context.chains.map (·.id) := by
  obtain ⟨hmulti, link, hinfo⟩ := isMultiChain_unchosen h hnone
  have hids : context.requestChainIds = context.chains.map (·.id) := by
    unfold EsrLoginContext.requestChainIds EsrLoginContext.isMultiChain
    rw [hnone, if_pos]
    have hne : context.chains.length ≠ 1 := by omega
    simpa using hne
  have hne : context.chains.map (·.id) ≠ [] := by
    intro hnil
    rw [List.map_eq_nil_iff.mp hnil] at hlist
    cases hlist
  unfold SigningRequest.requestInfo at hinfo
  rw [hids, if_pos ⟨hne, rfl⟩] at hinfo
  obtain ⟨raw, hraw, hinfo⟩ := bind_eq_ok.mp hinfo
  obtain ⟨n, hread⟩ := chainIds_read hraw
  have hpair : rv.request.data.info.find? (fun pair => pair.key = lit "chain_ids") =
      some { key := "chain_ids", value := raw } := by
    rw [← Except.ok.inj hinfo]
    rfl
  have halias : rv.request.data.chain_id = .alias 0 := by
    simpa [SigningRequest.isMultiChain] using hmulti
  obtain ⟨-, listed, hlisted, hmem⟩ :=
    (SigningRequest.resolveChain_eq_ok halias hpair).mp hchain
  rw [hread] at hlisted
  cases hlisted
  exact List.mem_of_mem_take hmem

/-- **The request of a context** can be resolved for its chains only, unless no chain is
chosen and the list has a single one. -/
theorem resolvesWithin_iff (h : createIdentityRequest p env context buoyUrl = .ok rv)
    (hcontext : context.chain.isSome ∨ context.chains ≠ []) :
    ResolvesWithin p rv.request context ↔ ¬ (context.chain = none ∧ context.chains.length = 1) := by
  constructor
  · rintro hwithin ⟨hnone, hsingle⟩
    obtain ⟨chain, hchains⟩ := List.length_eq_one_iff.mp hsingle
    -- The request made for a list of one chain resolves for any other chain as well.
    obtain ⟨other, hother⟩ : ∃ other : ChainId, other ≠ chain.id := by
      by_cases hzero : chain.id = .zero 32
      · refine ⟨⟨List.replicate 32 1, List.length_replicate⟩, ?_⟩
        rw [hzero]
        decide
      · exact ⟨.zero 32, fun h => hzero h.symm⟩
    obtain ⟨d, link, hversion, hdata, hreq, -, -⟩ := createIdentityRequest_eq_ok h
    obtain ⟨resolved, hresolve, hid⟩ := SigningRequest.resolve_identity p hversion hdata hreq 0 []
      placeholderAuth (resolveChain_single h hnone hsingle other)
    have hallows := hwithin other ⟨_, _, _, _, resolved, hresolve, hid⟩
    unfold EsrLoginContext.Allows at hallows
    rw [hnone, hchains] at hallows
    obtain ⟨member, hmember, hmemberId⟩ := hallows
    rw [List.mem_singleton.mp hmember] at hmemberId
    exact hother hmemberId.symm
  · rintro hnot chainId ⟨now, abis, signer, ctx, resolved, hresolve, hid⟩
    obtain ⟨tx, hresolution⟩ := SigningRequest.resolve_eq_ok.mp hresolve
    have hchain := hresolution.chain
    rw [hid] at hchain
    unfold EsrLoginContext.Allows
    cases hchosen : context.chain with
    | some chain =>
      rw [resolveChain_chosen h hchosen ctx] at hchain
      exact (Except.ok.inj hchain).symm
    | none =>
      have hne : context.chains ≠ [] := by
        rcases hcontext with hsome | hne
        · rw [hchosen] at hsome
          cases hsome
        · exact hne
      have hlist : 1 < context.chains.length := by
        have hpos : 0 < context.chains.length := List.length_pos_of_ne_nil hne
        have hone : context.chains.length ≠ 1 := fun hone => hnot ⟨hchosen, hone⟩
        omega
      obtain ⟨chain, hmem, hchainId⟩ := List.mem_map.mp (resolveChain_list h hchosen hlist hchain)
      exact ⟨chain, hmem, hchainId⟩

end Chains

/-! ## The check of a payload -/

/-- A payload with a signature that names `cid` as its chain. -/
def signedPayload (cid : Json) : Json := .obj [("sig", .str "SIG"), ("cid", cid)]

/-- **The check of a context** accepts its chains only when a chain is chosen or the
list has a single one; a longer list is not looked at. -/
theorem acceptsWithin_iff (context : EsrLoginContext)
    (hcontext : context.chain.isSome ∨ context.chains ≠ []) :
    AcceptsWithin context ↔ context.chain.isSome ∨ context.chains.length = 1 := by
  constructor
  · intro hwithin
    by_contra hnot
    obtain ⟨hnone, hlength⟩ := not_or.mp hnot
    have hchain : context.chain = none := by simpa using hnone
    have hlist : 1 < context.chains.length := by
      rcases hcontext with hsome | hne
      · exact absurd hsome hnone
      · have hpos := List.length_pos_of_ne_nil hne
        omega
    -- With several chains any answer is accepted, even one without a chain id.
    have haccepts : verifyLoginCallbackResponse (signedPayload .null) context = .ok () := by
      unfold verifyLoginCallbackResponse
      rw [if_neg (by decide), if_pos ⟨hchain, hlist⟩]
      rfl
    obtain ⟨id, -, hcid⟩ := hwithin _ .null haccepts rfl
    cases hcid
  · intro hsingle payload cid haccepts hcid
    have hexpected : ∃ chain, context.expectedChain = some chain ∧ context.Allows chain.id ∧
        ¬ (context.chain = none ∧ 1 < context.chains.length) := by
      unfold EsrLoginContext.expectedChain EsrLoginContext.Allows
      cases hchain : context.chain with
      | some chain => exact ⟨chain, rfl, rfl, fun h => by cases h.1⟩
      | none =>
        rw [hchain] at hsingle
        rcases hsingle with hsome | hone
        · cases hsome
        · obtain ⟨chain, hchains⟩ := List.length_eq_one_iff.mp hone
          rw [hchains]
          exact ⟨chain, rfl, ⟨chain, by simp, rfl⟩, fun h => absurd h.2 (by simp)⟩
    obtain ⟨chain, hchain, hallows, hnot⟩ := hexpected
    unfold verifyLoginCallbackResponse at haccepts
    rw [hchain, hcid, if_neg hnot] at haccepts
    split at haccepts
    · cases haccepts
    · simp only at haccepts
      split at haccepts
      · rename_i heq
        exact ⟨chain.id, hallows, heq⟩
      · cases haccepts

/-- **Login requests and callbacks stay within the context's chains** exactly when a chain
is chosen: without one, the request of a single-member list is for any chain, and the
check of a longer list lets any chain pass. -/
theorem within_iff {K : Type} (p : Platform) (env : EsrSurroundings K) (context : EsrLoginContext)
    (buoyUrl : Str) (rv : IdentityRequestResponse K)
    (hcontext : context.chain.isSome ∨ context.chains ≠ [])
    (h : createIdentityRequest p env context buoyUrl = .ok rv) :
    (ResolvesWithin p rv.request context ↔
      ¬ (context.chain = none ∧ context.chains.length = 1)) ∧
    (AcceptsWithin context ↔ context.chain.isSome ∨ context.chains.length = 1) ∧
    (ResolvesWithin p rv.request context ∧ AcceptsWithin context ↔ context.chain.isSome) := by
  have hresolves := resolvesWithin_iff h hcontext
  have haccepts := acceptsWithin_iff context hcontext
  refine ⟨hresolves, haccepts, ?_⟩
  rw [hresolves, haccepts]
  cases hchain : context.chain with
  | some chain => simp
  | none => simp

/-! ## Three logins -/

/-- A chain whose id repeats one byte. -/
def byteChain (b : UInt8) : ChainDefinition where
  id := ⟨List.replicate 32 b, List.length_replicate⟩
  url := "https://chain.example.com"

/-- A key and a channel that are always the same. -/
def fixedSurroundings : EsrSurroundings Bytes where
  generate := .ok (List.replicate 32 7)
  toPublic _ := .ok { type := .K1, data := List.replicate 33 2 }
  uuid := .ok "11111111-2222-4333-8444-555555555555"

/-- A login with a chosen chain out of two. -/
def chosenContext : EsrLoginContext where
  appName := "demo"
  chain := some (byteChain 1)
  chains := [byteChain 1, byteChain 2]

theorem within_chosenContext :
    ∃ rv, createIdentityRequest default fixedSurroundings chosenContext "https://cb.anchor.link" =
        .ok rv ∧
      ResolvesWithin default rv.request chosenContext ∧ AcceptsWithin chosenContext := by
  have hcreated : (createIdentityRequest default fixedSurroundings chosenContext
      "https://cb.anchor.link").toOption.isSome = true := by decide +kernel
  cases h : createIdentityRequest default fixedSurroundings chosenContext
      "https://cb.anchor.link" with
  | error e =>
    rw [h] at hcreated
    cases hcreated
  | ok rv =>
    exact ⟨rv, rfl, (within_iff default fixedSurroundings chosenContext "https://cb.anchor.link" rv
      (.inl rfl) h).2.2.mpr rfl⟩

/-- A login with a single chain in the list, and none chosen. -/
def singleContext : EsrLoginContext where
  appName := "demo"
  chains := [byteChain 1]

/-- A login with two chains, and none chosen. -/
def listContext : EsrLoginContext where
  appName := "demo"
  chains := [byteChain 1, byteChain 2]

/-- The request of the single chain resolves for another one, and the check of the two
chains accepts a third. -/
theorem other_chains_pass :
    (∃ rv, createIdentityRequest default fixedSurroundings singleContext "https://cb.anchor.link" =
        .ok rv ∧
      rv.request.Resolvable default (byteChain 3).id ∧ ¬ singleContext.Allows (byteChain 3).id) ∧
    verifyLoginCallbackResponse (signedPayload (.str (byteChain 3).id.hexString)) listContext =
      .ok () ∧
    ¬ listContext.Allows (byteChain 3).id := by
  have hcreated : (createIdentityRequest default fixedSurroundings singleContext
      "https://cb.anchor.link").toOption.isSome = true := by decide +kernel
  have hne : ∀ b : UInt8, b ≠ 3 → (byteChain b).id ≠ (byteChain 3).id := by
    intro b hb h
    have harray := congrArg (fun c => c.array.head?) h
    exact hb (Option.some.inj harray)
  refine ⟨?_, rfl, ?_⟩
  · cases h : createIdentityRequest default fixedSurroundings singleContext
        "https://cb.anchor.link" with
    | error e =>
      rw [h] at hcreated
      cases hcreated
    | ok rv =>
      obtain ⟨d, link, hversion, hdata, hreq, -, -⟩ := createIdentityRequest_eq_ok h
      obtain ⟨resolved, hresolve, hid⟩ := SigningRequest.resolve_identity default hversion hdata
        hreq 0 [] placeholderAuth (resolveChain_single h rfl rfl (byteChain 3).id)
      refine ⟨rv, rfl, ⟨_, _, _, _, resolved, hresolve, hid⟩, ?_⟩
      rintro ⟨chain, hchain, hchainId⟩
      rw [List.mem_singleton.mp hchain] at hchainId
      exact hne 1 (by decide) hchainId
  · rintro ⟨chain, hchain, hchainId⟩
    rcases List.mem_pair.mp hchain with rfl | rfl
    · exact hne 1 (by decide) hchainId
    · exact hne 2 (by decide) hchainId

end Dwarfkit
