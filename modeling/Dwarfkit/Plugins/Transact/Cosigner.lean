/-
# The cosigner

`TransactPluginCosigner` of `src/plugins/transact/cosigner.cpp`.  Its hook puts a noop of the
cosigner first, who assumes the resource costs, resolves and signs the request, and answers
with a request of what it signed.  The session resolves that request again, so the signature
counts only if the second resolution comes to the same transaction.

* `resolve_cosigned` : a request of a resolved transaction is resolved to it in its context;
* `signing_cosigned` : in a session with the plugin the transaction that was cosigned is the
  one that is resolved in the end, and the cosigner's key is recovered from it.
-/
import Dwarfkit.Plugins.Wallet.PrivateKey
import Dwarfkit.Session.Context
import Dwarfkit.Session.Pipeline
import Dwarfkit.SigningRequest.Settled

namespace Dwarfkit

open Effects

/-! ## The plugin -/

/-- `CosignerOptions`. -/
structure CosignerOptions where
  actor : Name
  permission : Name
  privateKey : PrivateKey
  contract : Option Name := none
  action : Option Name := none

/-- `TransactPluginCosigner`. -/
structure TransactPluginCosigner where
  actor : Name
  permission : Name
  privateKey : PrivateKey
  contract : Name := .ofString "greymassnoop"
  action : Name := .ofString "noop"

namespace TransactPluginCosigner

/-- The constructor. -/
def ofOptions (options : CosignerOptions) : TransactPluginCosigner :=
  let plugin : TransactPluginCosigner := {
    actor := options.actor
    permission := options.permission
    privateKey := options.privateKey }
  { plugin with
    contract := options.contract.getD plugin.contract
    action := options.action.getD plugin.action }

/-- The noop action, which assumes the resource costs. -/
def newAction (plugin : TransactPluginCosigner) : Action where
  account := plugin.contract
  name := plugin.action
  authorization := [{ actor := plugin.actor, permission := plugin.permission }]
  data := []

/-- `prependNoop`. -/
def prependNoop (plugin : TransactPluginCosigner) (request : SigningRequest) :
    Result SigningRequest :=
  Transact.prependAction request plugin.newAction

variable {W : Type} (primitives : Primitives) (p : Platform)
  (context : Transact.TransactContext W) (plugin : TransactPluginCosigner)

/-- The beforeSign hook that `register_` adds. -/
def beforeSign (request : SigningRequest) :
    Effect W Error (Option Session.TransactHookResponse) := do
  let modifiedRequest ← outcome (plugin.prependNoop request)
  let resolved ← context.resolve p modifiedRequest
  let chainId ← outcome request.getChainId
  let signature ← outcome (plugin.privateKey.signDigest primitives.toCurves
    (resolved.transaction.signingDigest primitives.toCrypto chainId))
  let newRequest ← context.createRequest p (AbiTraits.transaction.toJSON resolved.transaction)
  return some { request := newRequest, signatures := [signature] }

end TransactPluginCosigner

/-! ## Resolving in the same context -/

namespace Transact.TransactContext

variable {W : Type} {context : TransactContext W} {p : Platform}

/-- What it takes for the resolution of a request to be its own: faithful data, no identity past
version 2, and TaPoS values. -/
structure Settles (context : TransactContext W) (p : Platform) (request : SigningRequest)
    (resolved : ResolvedSigningRequest) (w : W) : Prop where
  faithful : ∀ abis, request.fetchAbis (some (context.abiCache w)) = .ok abis →
    request.FaithfulActions p abis
  identity : request.IdentityInV2
  tapos : resolved.transaction.hasTapos = true

/-- **A request of a resolved transaction** is resolved to it in its context, without asking the
chain. -/
theorem resolve_cosigned {request request' : SigningRequest} {resolved : ResolvedSigningRequest}
    {expireSeconds : UInt32} {chainId : ChainId} {w w' v : W}
    (h : exec (context.resolve p request expireSeconds) w = (.ok resolved, w'))
    (hsettles : context.Settles p request resolved w') (hsigner : Concrete context.permissionLevel)
    (hrequest' : request'.OfTransaction chainId resolved.transaction)
    (hcache : context.abiCache v = context.abiCache w') (expireSeconds' : UInt32) :
    ∃ again, exec (context.resolve p request' expireSeconds') v = (.ok again, v) ∧
      again.transaction = resolved.transaction := by
  obtain ⟨args, abis, -, habis, hresolve⟩ := context.exec_resolve_ok.mp h
  obtain ⟨tx, hresolution⟩ := SigningRequest.resolve_eq_ok.mp hresolve
  have hraw := SigningRequest.getRawActions_of_getRawTransaction hresolution.raw
  have hdecoded := hresolution.decoded
  unfold SigningRequest.resolveActions at hdecoded
  rw [hraw, ok_bind] at hdecoded
  -- The same ABIs are asked for, and the cache has them.
  have hrequired := SigningRequest.getRequiredAbis_congr hraw
    (SigningRequest.getRawActions_of_getRawTransaction hrequest'.raw)
    (SigningRequest.keeps_actions hdecoded hresolution.encoded)
  have habis' : request'.fetchAbis (some (context.abiCache v)) = .ok abis := by
    unfold SigningRequest.fetchAbis at habis ⊢
    rw [hrequired, hcache]
    exact habis
  have hargs : exec (context.resolveArgs request' expireSeconds') v =
      (.ok { chainId := some context.chain.id }, v) := by
    have hnone : requiresTapos request' = false := by
      unfold requiresTapos
      rw [hrequest'.raw]
      simp [hsettles.tapos]
    unfold resolveArgs
    rw [hnone, if_neg Bool.false_ne_true, exec_pure]
  have hagain := SigningRequest.resolve_settled hresolve (hsettles.faithful abis habis)
    hsettles.identity hsigner hsettles.tapos hrequest' (context.now v)
    { chainId := some context.chain.id }
  exact ⟨_, context.exec_resolve_ok.mpr ⟨_, abis, hargs, habis', hagain⟩, rfl⟩

/-- The request that is created of a transaction. -/
theorem createRequest_toJSON (tx : Transaction) (w : W) :
    exec (context.createRequest p (AbiTraits.transaction.toJSON tx)) w =
      (.ok ((SigningRequest.transactionRequest context.chain.id tx).setBroadcast false), w) := by
  have hcreate : SigningRequest.create p
      { transaction := some (AbiTraits.transaction.toJSON tx), chainId := some context.chain.id }
      { abiProvider := some (context.abiCache w) } =
        .ok (SigningRequest.transactionRequest context.chain.id tx) :=
    SigningRequest.create_transactionArgs
  unfold createRequest
  rw [exec_look_bind, hcreate, exec_outcome_ok_bind, exec_pure]

end Transact.TransactContext

namespace TransactPluginCosigner

/-! ## The hook -/

section Hook

variable {W : Type} (primitives : Primitives) (p : Platform)
  (context : Transact.TransactContext W) (plugin : TransactPluginCosigner)

/-- What the plugin has signed: the transaction that a request with the noop is resolved to, on the
chain of that request. -/
structure Cosigned (request modified : SigningRequest) (resolved : ResolvedSigningRequest)
    (chainId : ChainId) (sig : Signature) (w w' : W) : Prop where
  prepended : plugin.prependNoop request = .ok modified
  resolution : exec (context.resolve p modified) w = (.ok resolved, w')
  chain : request.getChainId = .ok chainId
  signature : plugin.privateKey.signDigest primitives.toCurves
    (resolved.transaction.signingDigest primitives.toCrypto chainId) = .ok sig

variable {primitives p context plugin}

/-- **What the hook answers**: its signature, with a request of the transaction that it signed. -/
theorem beforeSign_eq_ok {request : SigningRequest} {answer : Option Session.TransactHookResponse}
    {w w' : W} (h : exec (plugin.beforeSign primitives p context request) w = (.ok answer, w')) :
    ∃ modified resolved chainId sig,
      plugin.Cosigned primitives p context request modified resolved chainId sig w w' ∧
      answer = some {
        request := (SigningRequest.transactionRequest context.chain.id
          resolved.transaction).setBroadcast false
        signatures := [sig] } := by
  unfold beforeSign at h
  obtain ⟨modified, hmodified, h⟩ := exec_outcome_bind_ok.mp h
  obtain ⟨resolved, u, hresolved, h⟩ := exec_bind_ok.mp h
  obtain ⟨chainId, hchain, h⟩ := exec_outcome_bind_ok.mp h
  obtain ⟨sig, hsig, h⟩ := exec_outcome_bind_ok.mp h
  obtain ⟨newRequest, v, hnew, h⟩ := exec_bind_ok.mp h
  rw [Transact.TransactContext.createRequest_toJSON] at hnew
  cases hnew
  cases h
  exact ⟨modified, resolved, chainId, sig, ⟨hmodified, hresolved, hchain, hsig⟩, rfl⟩

end Hook

/-! ## A session with the plugin -/

section Session

variable {W : Type} (primitives : Primitives) (p : Platform)
  (context : Transact.TransactContext W) (plugin : TransactPluginCosigner)

/-- A session that lets the plugin's hook modify the request: the hooks before it sign nothing,
requests are resolved in the plugin's context, and its cache answers alike all along. -/
structure Cosigning (session : Session.Pipeline W) (expireSeconds : UInt32)
    (before after :
      List (SigningRequest → Effect W Error (Option Session.TransactHookResponse))) : Prop where
  hooks : session.beforeSign = before ++ plugin.beforeSign primitives p context :: after
  unsigning : ∀ hook ∈ before, Session.Pipeline.Unsigning hook
  modifyAllowed : session.modifyAllowed = true
  resolve : session.resolve = fun request => do
    let resolved ← context.resolve p request expireSeconds
    return { request := resolved.request, transaction := resolved.transaction }
  cache : ∀ w w', context.abiCache w = context.abiCache w'

variable {primitives p context plugin} {session : Session.Pipeline W}
  {expireSeconds : UInt32}
  {before after : List (SigningRequest → Effect W Error (Option Session.TransactHookResponse))}

/-- **The loop over the hooks** ends under the lock, on a request of the transaction that the plugin
signed, and its signature is the first. -/
theorem beforeSignLoop_cosigned
    (hsession : plugin.Cosigning primitives p context session expireSeconds before after)
    {created : SigningRequest} {v : W} {t t' : W × Session.Log} {final : Session.LoopState}
    (hcreated : exec session.createRequest v = (.ok created, t.1))
    (h : exec (session.beforeSignLoop created) t = (.ok final, t')) :
    ∃ request modified resolved chainId sig w w' more,
      session.Reaches before request w ∧
      plugin.Cosigned primitives p context request modified resolved chainId sig w w' ∧
      final.modifyAllowed = false ∧
      final.request.OfTransaction context.chain.id resolved.transaction ∧
      final.signatures = sig :: more := by
  rw [Session.Pipeline.beforeSignLoop_eq, hsession.hooks, List.foldlM_append] at h
  obtain ⟨s, u, hbefore, h⟩ := exec_bind_ok.mp h
  rw [List.foldlM_cons] at h
  obtain ⟨s', u', hround, hafter⟩ := exec_bind_ok.mp h
  obtain ⟨hallowed, hnone⟩ :=
    session.unsigned_rounds hsession.unsigning hsession.modifyAllowed hbefore
  obtain ⟨response, w, hanswer, rfl⟩ := session.exec_round_ok hround
  obtain ⟨modified, resolved, chainId, sig, hcosigned, hresponse⟩ := beforeSign_eq_ok hanswer
  have hreaches : session.Reaches before s.request u.1 := ⟨v, created, t, s, u, hcreated, hbefore,
    rfl, rfl⟩
  rcases session.respond_cases s response with
    ⟨hunsigned, -⟩ | ⟨answer, hsome, -, hlocked, hsignatures, hrequest⟩
  · cases hunsigned _ hresponse
  · rw [hresponse] at hsome
    cases hsome
    -- The signed answer locks the loop on the plugin's request.
    rw [hallowed, if_pos rfl] at hrequest
    obtain ⟨hfinal, hsame, more, hmore⟩ := session.locked_rounds hlocked hafter
    refine ⟨s.request, modified, resolved, chainId, sig, u.1, w, more, hreaches, hcosigned, hfinal,
      ?_, ?_⟩
    · apply SigningRequest.OfTransaction.of_sameData
      rw [hsame, hrequest]
      exact Session.updateRequest_sameData _ _
    · rw [hmore, hsignatures, hnone]
      rfl

/-- **The transaction that was cosigned is the one that is resolved in the end**, and the key of the
cosigner is recovered from the first signature for it.  What reaches the plugin must be data that a
resolution does not change again. -/
theorem signing_cosigned (h : primitives.toCurves.Recovers)
    (hsession : plugin.Cosigning primitives p context session expireSeconds before after)
    (hsigner : Concrete context.permissionLevel)
    (hsettles : ∀ request modified resolved chainId sig w w', session.Reaches before request w →
      plugin.Cosigned primitives p context request modified resolved chainId sig w w' →
      context.Settles p modified resolved w')
    {s t : W × Session.Log} {result : Session.TransactResult}
    (hrun : exec session.signing s = (.ok result, t)) :
    ∃ request modified resolved chainId sig w w' more key,
      session.Reaches before request w ∧
      plugin.Cosigned primitives p context request modified resolved chainId sig w w' ∧
      result.resolved.transaction = resolved.transaction ∧
      result.signatures = sig :: more ∧
      plugin.privateKey.toPublic primitives.toCurves = .ok key ∧
      sig.recoverDigest primitives.toCrypto
        (result.resolved.transaction.signingDigest primitives.toCrypto chainId) = .ok key := by
  obtain ⟨v, created, u, final, u', answer, w, walletResponse, hcreated, hloop, hresolve, hmerge⟩ :=
    session.signing_eq_ok hrun
  obtain ⟨request, modified, resolved, chainId, sig, w₁, w₂, more, hreaches, hcosigned, hlocked,
    hrequest, hsignatures⟩ := beforeSignLoop_cosigned hsession hcreated hloop
  obtain ⟨-, hresolved, hall⟩ := session.merge_locked hlocked hmerge
  obtain ⟨-, key, hpublic, hrecover⟩ :=
    WalletPluginPrivateKey.signDigest_spec h hcosigned.signature
  -- The session resolves the plugin's request to what the plugin signed.
  obtain ⟨again, hagain, htransaction⟩ :=
    Transact.TransactContext.resolve_cosigned hcosigned.resolution
      (hsettles _ _ _ _ _ _ _ hreaches hcosigned) hsigner hrequest (hsession.cache u'.1 w₂)
      expireSeconds
  rw [hsession.resolve, exec_bind_of_ok hagain, exec_pure] at hresolve
  cases hresolve
  have hsame : result.resolved.transaction = resolved.transaction := by
    rw [hresolved]
    exact htransaction
  refine ⟨request, modified, resolved, chainId, sig, w₁, w₂, more ++ walletResponse.signatures, key,
    hreaches, hcosigned, hsame, ?_, hpublic, ?_⟩
  · rw [hall, hsignatures, List.cons_append]
  · rw [hsame]
    exact hrecover

end Session

/-! ## A cosigned noop -/

/-- The contract of the noop. -/
def noopABI : ABI where
  structs := [⟨"noop", "", []⟩]
  actions := [{ name := .ofString "noop", type := "noop", ricardian_contract := [] }]

/-- A cosigner with the key 01 02 … 20. -/
def countingCosigner : TransactPluginCosigner := ofOptions {
  actor := .ofString "cosigner"
  permission := .ofString "active"
  privateKey := WalletPluginPrivateKey.countingKey }

/-- The header that the chain gives. -/
def countingHeader : TransactionHeader where
  expiration := ⟨1⟩
  ref_block_num := 1
  ref_block_prefix := 1

/-- The digest of the noop alone, on the chain of id zero. -/
def noopDigest : Checksum256 :=
  ⟨[0xa4, 0xc5, 0x73, 0x72, 0x68, 0x22, 0xdf, 0x14, 0x6c, 0x30, 0x07, 0x24, 0x6f, 0x8d, 0xeb, 0x76,
    0xb4, 0x99, 0xe7, 0x22, 0xeb, 0x42, 0x2c, 0xa5, 0x77, 0x99, 0x1e, 0x3c, 0x3d, 0x1b, 0x0b, 0x2a],
    rfl⟩

/-- The signature of that digest by that key. -/
def noopParts : SignatureParts where
  type := .K1
  r := ⟨[0x54, 0x6a, 0xc6, 0x56, 0x8d, 0x1c, 0x67, 0x85, 0x36, 0xf0, 0x21, 0xa7, 0xf6, 0xf2, 0xa7,
    0xcd, 0x9d, 0xbb, 0x3e, 0xb1, 0xd2, 0x1d, 0x61, 0x52, 0xa5, 0x8f, 0x30, 0xa1, 0xcf, 0x83, 0x7a,
    0x09], rfl⟩
  s := ⟨[0x46, 0x24, 0x4d, 0xda, 0x98, 0xdc, 0x24, 0x6b, 0x08, 0x15, 0x2a, 0x2b, 0xf5, 0x32, 0x83,
    0x54, 0xcf, 0x7c, 0x5f, 0x68, 0xc0, 0xa7, 0x0a, 0x46, 0x5c, 0xc3, 0x54, 0x37, 0x68, 0x47, 0x53,
    0x82], rfl⟩

/-- The primitives, right for that key and that digest. -/
def noopPrimitives : Primitives :=
  { WalletPluginPrivateKey.countingPrimitives with
    k1Sign := fun message secret _ =>
      if message = noopDigest.array ∧ secret = WalletPluginPrivateKey.countingKey.data then
        some (noopParts.r, noopParts.s, noopParts.recid) else none
    k1Recover := fun r s recid message =>
      if (r, s, recid) = (noopParts.r, noopParts.s, noopParts.recid) ∧
        message = noopDigest.array then some countingPoint else none
    sha256 := fun data =>
      if data = Transaction.signingData
        { toTransactionHeader := countingHeader, actions := [countingCosigner.newAction] }
        (.zero 32) then noopDigest else .zero 32 }

theorem recovers_noopPrimitives : noopPrimitives.toCurves.Recovers where
  k1 := by
    intro message secret nonce r s recid h
    obtain ⟨⟨rfl, rfl⟩, hanswer⟩ := Option.ite_none_right_eq_some.mp h
    cases hanswer
    exact ⟨by decide, rfl, countingPoint, rfl, rfl⟩
  r1 := by
    intro secret message r s pby h
    cases h

/-- A platform with these primitives. -/
def noopPlatform : Platform := { (default : Platform) with toCrypto := noopPrimitives.toCrypto }

/-- A context on the chain of id zero. -/
def noopContext : Transact.TransactContext Unit where
  abiCache := fun _ _ => .ok noopABI
  chain := {}
  getInfo := pure { getTransactionHeader := fun _ => countingHeader }
  now := fun _ => 0
  permissionLevel := SigningRequest.signerBob
  ui := none

/-- A request of no action, for that chain. -/
def noopRequest : SigningRequest where
  data := .v2 { chain_id := ChainId.chainVariant (.zero 32), req := .actions [] }

/-- The same with the noop. -/
def noopModified : SigningRequest where
  data := .v2 {
    chain_id := ChainId.chainVariant (.zero 32)
    req := .actions [countingCosigner.newAction] }

/-- A session whose only hook is the plugin's, and whose wallet signs nothing. -/
def noopSession : Session.Pipeline Unit where
  platform := noopPlatform
  encode := fun _ => []
  signatureText := fun sig => sig.toString noopPrimitives.toCrypto
  walletName := none
  modifyAllowed := true
  willBroadcast := false
  ui := none
  getMergedAbiCache := pure ()
  createRequest := pure noopRequest
  beforeSign := [countingCosigner.beforeSign noopPrimitives noopPlatform noopContext]
  resolve := fun request => do
    let resolved ← noopContext.resolve noopPlatform request
    return { request := resolved.request, transaction := resolved.transaction }
  sign := fun _ => pure {}
  afterSign := []
  afterBroadcast := []
  sendTransaction := fun _ => pure .null
  getAbi := fun _ => pure noopABI

/-- The resolved type of the noop's data. -/
def noopArena : ABI.Arena := [{ name := "noop", fields := some [] }]

theorem resolveType_noop : noopABI.resolveType "noop" = (noopArena, 0) := by
  decide +kernel

/-- The noop has no data, which is faithful. -/
theorem noop_faithful (p : Platform) : Serializer.Faithful p noopABI "noop" [] := by
  unfold Serializer.Faithful
  rw [resolveType_noop]
  refine ⟨.obj [], ?written, ?reversible, ?lossless, ?unmistakable⟩
  case written =>
    unfold Serializer.encode
    rw [resolveType_noop]
    rfl
  case reversible =>
    unfold Serializer.Reversible
    rw [resolveType_noop]
    exact And.intro (fun h => Bool.noConfusion h) (And.intro rfl (And.intro rfl trivial))
  case lossless =>
    unfold Serializer.Lossless
    rw [resolveType_noop]
    exact And.intro rfl (And.intro rfl (And.intro (by decide) (fun _ h => by cases h)))
  case unmistakable =>
    exact And.intro trivial (fun _ h => by cases h)

/-- What reaches the plugin is the created request, which settles. -/
theorem noop_settles {request modified : SigningRequest} {resolved : ResolvedSigningRequest}
    {chainId : ChainId} {sig : Signature} {w w' : Unit}
    (hreaches : noopSession.Reaches [] request w)
    (hcosigned : countingCosigner.Cosigned noopPrimitives noopPlatform noopContext request modified
      resolved chainId sig w w') : noopContext.Settles noopPlatform modified resolved w' := by
  obtain ⟨v, created, t, final, u, hcreated, hrounds, rfl, rfl⟩ := hreaches
  cases hcreated
  cases hrounds
  obtain ⟨hprepended, hresolution, -, -⟩ := hcosigned
  obtain rfl : noopModified = modified := Except.ok.inj hprepended
  have hrun : (exec (noopContext.resolve noopPlatform noopModified) ()).1.toOption.map
      (·.transaction.hasTapos) = some true := by decide +kernel
  refine ⟨?faithful, ?identity, ?tapos⟩
  case faithful =>
    intro abis habis tx htx action haction abi type habi htype
    cases htx
    obtain rfl := List.mem_singleton.mp haction
    obtain rfl : [(lit "greymassnoop", noopABI)] = abis := Except.ok.inj habis
    obtain rfl : noopABI = abi := Except.ok.inj habi
    obtain rfl : lit "noop" = type := Option.some.inj htype
    exact noop_faithful noopPlatform
  case identity =>
    intro tx htx action haction hidentity
    rfl
  case tapos =>
    rw [show exec (noopContext.resolve noopPlatform noopModified) () = _ from hresolution] at hrun
    exact Option.some.inj hrun

/-- A request of no action is cosigned. -/
theorem signing_cosigned_noop : ∃ result t, exec noopSession.signing ((), {}) = (.ok result, t) ∧
    ∃ request modified resolved chainId sig w w' more key,
      noopSession.Reaches [] request w ∧
      countingCosigner.Cosigned noopPrimitives noopPlatform noopContext request modified resolved
        chainId sig w w' ∧
      result.resolved.transaction = resolved.transaction ∧
      result.signatures = sig :: more ∧
      countingCosigner.privateKey.toPublic noopPrimitives.toCurves = .ok key ∧
      sig.recoverDigest noopPrimitives.toCrypto
        (result.resolved.transaction.signingDigest noopPrimitives.toCrypto chainId) = .ok key := by
  have hsome : (exec noopSession.signing ((), {})).1.toOption.isSome = true := by decide +kernel
  obtain ⟨result, hrun⟩ := exec_of_isSome hsome
  have hsigner : Concrete noopContext.permissionLevel :=
    ⟨⟨by decide, by decide⟩, ⟨by decide, by decide⟩⟩
  have hsession :
      countingCosigner.Cosigning noopPrimitives noopPlatform noopContext noopSession 120 [] [] :=
    ⟨rfl, fun _ h => (by cases h), rfl, rfl, fun _ _ => rfl⟩
  exact ⟨result, _, hrun, signing_cosigned recovers_noopPrimitives hsession hsigner
    (fun _ _ _ _ _ _ _ hreaches hcosigned => noop_settles hreaches hcosigned) hrun⟩

end TransactPluginCosigner

end Dwarfkit
