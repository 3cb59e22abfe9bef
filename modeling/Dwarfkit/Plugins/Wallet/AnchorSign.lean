/-
# A request that reaches the wallet

A login links the plugin with a wallet: the plugin keeps the private key of its identity request,
and the public key and the channel that the wallet answered with.  A later sign seals its request
for that wallet and posts it on that channel.

* `request_arrives` : what is posted is opened by the wallet's key, comes from the key that the
  login announced, and is the request of the very transaction, to be answered where the plugin
  waits for it.
-/
import Dwarfkit.Plugins.Wallet.AnchorRuns
import Dwarfkit.SigningRequest.FromTransaction

namespace Dwarfkit

open Effects Wire

/-! ## The uri of a request -/

/-- An encoded text is at most twice as long as the bytes. -/
theorem Base64u.length_encode_le (data : Bytes) (urlSafe : Bool) :
    (Base64u.encode data urlSafe).length ≤ 2 * data.length := by
  fun_induction Base64u.encode data urlSafe with
  | case1 a b c rest chunk ih =>
    simp only [List.length_cons]
    omega
  | case2 a b chunk => simp
  | case3 a => simp
  | case4 => simp

namespace SigningRequest

variable {z : Zlib} {p : Platform} {request : SigningRequest}

/-- Packed bytes are at most one longer. -/
theorem length_pack_le (z : Zlib) (shouldCompress : Bool) (header : UInt8) (array : Bytes) :
    (pack z shouldCompress header array).length ≤ array.length + 1 := by
  unfold pack
  split
  · split
    · split
      · rename_i hshorter
        simp only [List.length_cons]
        omega
      · simp
    · simp
  · simp

/-- A uri is not much longer than twice the request. -/
theorem length_encode_le (z : Zlib) (p : Platform) (request : SigningRequest)
    (compress : Option Bool) :
    (request.encode z p compress false).length ≤
      2 * (request.getData ++ request.getSignatureData p).length + 6 := by
  have hpack := length_pack_le z (compress.getD true) request.version.toUInt8
    (request.getData ++ request.getSignatureData p)
  have hencode := Base64u.length_encode_le
    (pack z (compress.getD true) request.version.toUInt8
      (request.getData ++ request.getSignatureData p)) true
  have hscheme : (lit "esr:").length = 4 := rfl
  unfold encode
  simp only [Bool.false_eq_true, if_false, List.length_append, List.length_nil] at hpack hencode ⊢
  rw [hscheme]
  omega

/-- An encodable request below the inflate cap is read from its uri. -/
theorem ofUri_eq_of_encodable (hz : z.Inverse) (h : request.Encodable) (compress : Option Bool)
    (slashes : Bool)
    (hcap : (request.getData ++ request.getSignatureData p).length < maxInflateOutput) :
    ofUri z p (request.encode z p compress slashes) = .ok request := by
  obtain ⟨header, payload, hpack, hheader, hunpack⟩ :=
    unpack_pack z hz (compress.getD true) h.version_cases
      (request.getData ++ request.getSignatureData p) (fun _ => hcap)
  have huri := ofUri_scheme z p (show 58 ∉ lit "esr" by decide) slashes (header :: payload)
  unfold encode
  simp only
  rw [hpack]
  exact huri.trans (fromData_packed z p h hheader hunpack)

end SigningRequest

namespace Anchor

open SigningRequest

/-! ## The request of a sign -/

/-- The info pair of the link. -/
def linkPair (expiration : TimePointSec) : InfoPair where
  key := "link"
  value := writeInt 4 expiration.value.toNat

/-- The info pair for the wallet on the same device. -/
def sameDevicePair : InfoPair where
  key := "same_device"
  value := [1]

/-- The request of a transaction on a chain, to be answered at a callback in the background. -/
def linkedRequest (chain : ChainDefinition) (transaction : Transaction) (callback : Str)
    (more : List InfoPair) : SigningRequest where
  version := 2
  data := .v2 {
    chain_id := ChainId.chainVariant chain.id
    req := .transaction transaction
    flags := ⟨RequestFlags.backgroundFlag⟩
    callback
    info := linkPair transaction.expiration :: more }

theorem encodable_linkedRequest (chain : ChainDefinition) {transaction : Transaction}
    {callback : Str} {more : List InfoPair} (h : transaction.Sized) (hcallback : TextFits callback)
    (hmore : more = [] ∨ more = [sameDevicePair]) :
    (linkedRequest chain transaction callback more).Encodable where
  version := rfl
  sized := by
    have htext : ∀ {text : Str}, isValidUTF8 text = true → text.length ≤ 11 → TextFits text :=
      fun hvalid hlength => ⟨hvalid, lt_of_le_of_lt hlength (by norm_num)⟩
    have hlink : (linkPair transaction.expiration).Sized := by
      refine ⟨@htext "link" (by decide +kernel) (by decide +kernel), ?_⟩
      show (writeInt 4 _).length < _
      simp [writeInt]
    have hsame : sameDevicePair.Sized := by
      refine ⟨@htext "same_device" (by decide +kernel) (by decide +kernel), ?_⟩
      show ([1] : Bytes).length < _
      simp
    have hinfo : (linkPair transaction.expiration :: more).length < 2 ^ 32 ∧
        ∀ pair ∈ linkPair transaction.expiration :: more, pair.Sized := by
      rcases hmore with rfl | rfl
      · simpa using hlink
      · simpa using ⟨hlink, hsame⟩
    exact ⟨h, hcallback, hinfo⟩
  signature := by
    rintro sig ⟨⟩
  notBroadcast := rfl

/-- What it is to be sealed: small enough to be inflated again, with either list of pairs. -/
def Inflatable (p : Platform) (chain : ChainDefinition) (transaction : Transaction)
    (callback : Str) : Prop :=
  ∀ more, more = [] ∨ more = [sameDevicePair] →
    ((linkedRequest chain transaction callback more).getData ++
      (linkedRequest chain transaction callback more).getSignatureData p).length <
        maxInflateOutput

variable {call : Call}

/-- **The request of a sign** is made of the transaction as it was resolved. -/
theorem signRequest_eq {channel : Str} (huuid : call.uuid = .ok channel) (chain : ChainDefinition)
    (transaction : Transaction) :
    NativeTransport.signRequest call chain transaction =
      .ok (linkedRequest chain transaction (call.buoyUrl ++ lit "/" ++ channel) [],
        { channel, service := call.buoyUrl }) := by
  have hcreate : call.createRequest chain (AbiTraits.transaction.toJSON transaction) =
      .ok ((transactionRequest chain.id transaction).setBroadcast false) := by
    unfold Call.createRequest
    have h := @create_transactionArgs call.p call.esrOptions.abiProvider chain.id transaction
    unfold transactionArgs at h
    rw [h]
    rfl
  have hlink : LinkInfo.toABI { expiration := transaction.expiration } =
      .ok (linkPair transaction.expiration).value := rfl
  have hflags : ((⟨1⟩ : RequestFlags).setBroadcast false).setBackground true =
      ⟨RequestFlags.backgroundFlag⟩ := by decide
  have hrequest : (((transactionRequest chain.id transaction).setBroadcast false).setRawInfoKey
      "link" (linkPair transaction.expiration).value).setCallback
        (call.buoyUrl ++ lit "/" ++ channel) true =
      linkedRequest chain transaction (call.buoyUrl ++ lit "/" ++ channel) [] := by
    unfold linkedRequest
    rw [← hflags]
    rfl
  unfold NativeTransport.signRequest setTransactionCallback
  rw [hcreate, ok_bind, hlink, ok_bind, huuid, ← hrequest]
  rfl

theorem setInfoFlag_linkedRequest (chain : ChainDefinition) (transaction : Transaction)
    (callback : Str) :
    (linkedRequest chain transaction callback []).setInfoFlag "same_device" true =
      linkedRequest chain transaction callback [sameDevicePair] := rfl

/-! ## The link -/

/-- The data of a plugin that is linked: the key of its identity request, and the key and the
channel that the wallet answered with. -/
structure Linked (crypto : Crypto) (privateKey : PrivateKey) (link_key channelUrl : Str)
    (data : Json) : Prop where
  privateKey : data.find "privateKey" = some (.str (privateKey.toString crypto))
  signerKey : data.find "signerKey" = some (.str link_key)
  channelUrl : data.find "channelUrl" = some (.str channelUrl)
  channelName : ∃ link_name, data.find "channelName" = some (.str link_name)

section Links

variable {crypto : Crypto} {privateKey : PrivateKey} {link_key channelUrl : Str}

/-- Other members may change. -/
theorem Linked.congr {data data' : Json} (h : Linked crypto privateKey link_key channelUrl data)
    (heq : ∀ key ∈ [lit "privateKey", lit "signerKey", lit "channelUrl", lit "channelName"],
      data'.find key = data.find key) : Linked crypto privateKey link_key channelUrl data' := by
  obtain ⟨link_name, hname⟩ := h.channelName
  exact {
    privateKey := (heq _ (by simp)).trans h.privateKey
    signerKey := (heq _ (by simp)).trans h.signerKey
    channelUrl := (heq _ (by simp)).trans h.channelUrl
    channelName := ⟨link_name, (heq _ (by simp)).trans hname⟩ }

/-- A member that is none of the link's. -/
def Apart (key : Str) : Prop :=
  key ∉ [lit "privateKey", lit "signerKey", lit "channelUrl", lit "channelName"]

instance (key : Str) : Decidable (Apart key) := inferInstanceAs (Decidable (_ ∉ _))

theorem linked_setData {key : Str} (v : Json) (h : Apart key) :
    Maintains (fun s => Linked crypto privateKey link_key channelUrl s.data_) (setData key v) := by
  refine Maintains.look_bind (fun s hs => Maintains.outcome_bind (fun data hdata => ?_))
  refine Maintains.change (fun _ _ => hs.congr (fun other hother => ?_))
  rw [find_assign hdata, if_neg]
  rintro rfl
  exact h hother

theorem linked_setMode (mode : Option AnchorMode) :
    Maintains (fun s => Linked crypto privateKey link_key channelUrl s.data_) (setMode mode) := by
  unfold setMode
  cases mode with
  | none =>
    refine Maintains.change (fun s hs => hs.congr (fun key hkey => ?_))
    have hne : key ≠ lit "mode" := by
      rintro rfl
      exact absurd hkey (by decide)
    cases hdata : s.data_ with
    | obj members => exact Json.lookup_erase_of_ne members hne
    | _ => rfl
  | some mode =>
    refine (linked_setData _ (by decide)).bind (fun _ => ?_)
    exact Maintains.change (fun s hs => hs)

/-! ## What a sign leaves alone -/

theorem frames_emit (event : Event) : Frames State.data_ (emit event) :=
  Frames.change (fun _ => rfl)

variable (call : Call)

theorem frames_open (url : Str) : Frames State.data_ (call.open_ url) := by
  unfold Call.open_
  split
  · exact (frames_emit _).bind (fun _ => Frames.pure _ _)
  · exact Frames.pure _ _

theorem frames_nativeSign (resolved : ResolvedSigningRequest) (context : SignContext) :
    Frames State.data_ (NativeTransport.sign call resolved context) := by
  have hopen : ∀ url, Frames State.data_ (do let _ ← call.open_ url) :=
    fun url => (frames_open call url).bind (fun _ => Frames.pure _ _)
  unfold NativeTransport.sign
  refine Frames.ite (Frames.outcome _ _) ((Frames.look _ _).bind (fun data => ?_))
  refine (Frames.outcome _ _).bind (fun request => Frames.bind ?_ (fun _ => ?_))
  · exact Frames.ite (hopen _) (Frames.pure _ _)
  refine (Frames.outcome _ _).bind (fun _ => (frames_emit _).bind (fun _ => ?_))
  refine (Frames.outcome _ _).bind (fun channelUrl => Frames.bind ?_ (fun _ => ?_))
  · refine Frames.ite ?_ (hopen _)
    unfold NativeTransport.deliver
    split
    · exact Frames.pure _ _
    · repeat refine (Frames.outcome _ _).bind (fun _ => ?_)
      exact Frames.ite (frames_emit _) (Frames.pure _ _)
  · exact (frames_emit _).bind (fun _ => (Frames.outcome _ _).bind (fun _ => Frames.outcome _ _))

theorem frames_webSign (resolved : ResolvedSigningRequest) (context : SignContext) (baseUrl : Str) :
    Frames State.data_ (WebTransport.sign call resolved context baseUrl) := by
  unfold WebTransport.sign
  refine (Frames.look _ _).bind (fun data => (Frames.outcome _ _).bind (fun _ => ?_))
  refine (Frames.outcome _ _).bind (fun request => (Frames.outcome _ _).bind (fun url => ?_))
  refine Frames.bind ?_ (fun _ => Frames.bind ?_ (fun _ => Frames.outcome _ _))
  · refine (frames_open call _).bind (fun opened => ?_)
    split
    · exact frames_emit _
    · exact Frames.pure _ _
  · exact (frames_emit _).bind (fun _ => Frames.outcome _ _)

/-- A sign leaves the data as they are. -/
theorem frames_handleSign (resolved : ResolvedSigningRequest) (context : SignContext) :
    Frames State.data_ (handleSign call resolved context) := by
  unfold handleSign
  refine (Frames.look _ _).bind (fun data => ?_)
  split
  · exact frames_nativeSign call resolved context
  · split
    · exact Frames.outcome _ _
    · exact frames_webSign call resolved context _

/-- A call other than a login. -/
def Label.KeepsLink : Label → Prop
  | .login _ _ => False
  | _ => True

/-- **The link lasts** until the next login. -/
theorem linked_run (options : Options) {labels : List Label} (hlabels : ∀ l ∈ labels, l.KeepsLink)
    {s : State} (hs : Linked crypto privateKey link_key channelUrl s.data_) :
    Linked crypto privateKey link_key channelUrl (run options s labels).data_ := by
  induction labels generalizing s with
  | nil => exact hs
  | cons label labels ih =>
    obtain ⟨hlabel, hrest⟩ := List.forall_mem_cons.mp hlabels
    refine ih hrest ?_
    cases label with
    | setMode mode => exact linked_setMode mode s hs
    | login call context => exact hlabel.elim
    | sign call resolved context =>
      show Linked _ _ _ _ (exec (handleSign _ resolved context) s).2.data_
      rw [frames_handleSign]
      exact hs
    | restore mode => exact hs

end Links

/-! ## A login that links -/

/-- A login in the app, which a wallet answers with its key and its channel. -/
structure Links (call : Call) (context : LoginContext) (s : State)
    (bundle : IdentityRequestResponse PrivateKey) (payload : Json) (link_key channelUrl : Str) :
    Prop where
  object : s.data_.isObject = true
  ui : call.ui.isNone = false
  requested : createIdentityRequest call.p call.esr (call.esrLoginContext context) call.buoyUrl =
    .ok bundle
  native : ∃ perCall, readLoginOptions call.dump id context.arbitrary = .ok perCall ∧
    ∀ webUrl, resolveWebAuthenticatorUrl (context.chain.map (fun chain => chain.id.hexString))
      call.webAuthenticatorUrls = some webUrl → loginMode perCall s.loginModeOverride_ = .app
  answered : call.waitForCallback
    { channel := bundle.callback.channel, service := bundle.callback.service } = .ok payload
  verified : verifyLoginCallbackResponse payload (call.esrLoginContext context) = .ok ()
  complete : payload.contains "cid" = true ∧ payload.contains "sa" = true ∧
    payload.contains "sp" = true
  key : text payload "link_key" = some link_key
  channel : text payload "link_ch" = some channelUrl
  name : ∃ link_name, text payload "link_name" = some link_name
  scheme : NativeTransport.isChannelUrl channelUrl = true

section Logins

variable {call : Call} {context : LoginContext} {bundle : IdentityRequestResponse PrivateKey}
  {payload : Json} {link_key channelUrl : Str}

/-- A member of an object can be assigned, and is found then. -/
theorem exec_setData {s : State} (h : s.data_.isObject = true) (key : Str) (v : Json) :
    ∃ data, exec (setData key v) s = (.ok (), { s with data_ := data }) ∧
      data.isObject = true ∧ ∀ other, data.find other =
        if other = key then some v else s.data_.find other := by
  cases hdata : s.data_ with
  | obj members =>
    have hassign : s.data_.assign key v = .ok (.obj (Json.insert members key v)) := by
      rw [hdata]
      rfl
    refine ⟨.obj (Json.insert members key v), ?_, rfl, ?_⟩
    · unfold setData
      rw [exec_look_bind, hassign]
      rfl
    · rw [← hdata]
      exact find_assign hassign
  | _ =>
    rw [hdata] at h
    cases h

/-- What is read of an object once a member was assigned. -/
theorem exec_setData_bind {α : Type} {s : State} (h : s.data_.isObject = true) (key : Str)
    (v : Json) (f : Unit → AnchorM α) :
    ∃ data, exec (setData key v >>= f) s = exec (f ()) { s with data_ := data } ∧
      data.isObject = true ∧ ∀ other, data.find other =
        if other = key then some v else s.data_.find other := by
  obtain ⟨data, hexec, hdata⟩ := exec_setData h key v
  exact ⟨data, exec_bind_of_ok hexec, hdata⟩

theorem linked_keepMetadata {crypto : Crypto} {privateKey : PrivateKey} (payload : Json) :
    Maintains (fun s => Linked crypto privateKey link_key channelUrl s.data_)
      (NativeTransport.keepMetadata call payload) := by
  have hkeep : ∀ metadata {key : Str} (accepts : Json → Bool), Apart key →
      Maintains (fun s => Linked crypto privateKey link_key channelUrl s.data_)
        (NativeTransport.keep metadata key accepts) := by
    intro metadata key accepts h
    unfold NativeTransport.keep
    split
    · exact Maintains.ite (linked_setData _ h) (Maintains.pure _ _)
    · exact Maintains.pure _ _
  unfold NativeTransport.keepMetadata
  split
  · refine (hkeep _ _ (by decide)).bind (fun _ => ?_)
    exact (hkeep _ _ (by decide)).bind (fun _ => hkeep _ _ (by decide))
  · exact Maintains.pure _ _

/-- **What is kept of the answer** links the plugin. -/
theorem linked_keepLink {s : State} (hobject : s.data_.isObject = true)
    {link_name : Str} (hkey : text payload "link_key" = some link_key)
    (hchannel : text payload "link_ch" = some channelUrl)
    (hname : text payload "link_name" = some link_name)
    (hscheme : NativeTransport.isChannelUrl channelUrl = true) :
    Linked call.p.toCrypto bundle.privateKey link_key channelUrl
      (exec (NativeTransport.keepLink call bundle payload) s).2.data_ := by
  unfold NativeTransport.keepLink
  rw [hkey, hchannel, hname]
  simp only
  obtain ⟨data₁, hexec₁, hobject₁, -⟩ := exec_setData_bind hobject "requestKey"
    (.str (bundle.requestKey.toString call.p.toCrypto)) _
  rw [hexec₁]
  obtain ⟨data₂, hexec₂, hobject₂, hfind₂⟩ := @exec_setData_bind _
    { s with data_ := data₁ } hobject₁ "privateKey"
    (.str (bundle.privateKey.toString call.p.toCrypto)) _
  rw [hexec₂, if_neg (by rw [hscheme]; decide)]
  obtain ⟨data₃, hexec₃, hobject₃, hfind₃⟩ := @exec_setData_bind _
    { s with data_ := data₂ } hobject₂ "signerKey" (.str link_key) _
  rw [hexec₃]
  obtain ⟨data₄, hexec₄, hobject₄, hfind₄⟩ := @exec_setData_bind _
    { s with data_ := data₃ } hobject₃ "channelUrl" (.str channelUrl) _
  rw [hexec₄]
  obtain ⟨data₅, hexec₅, hobject₅, hfind₅⟩ := @exec_setData_bind _
    { s with data_ := data₄ } hobject₄ "channelName" (.str link_name) _
  rw [hexec₅]
  refine linked_keepMetadata payload { s with data_ := data₅ } ⟨?_, ?_, ?_, link_name, ?_⟩
  · rw [hfind₅, if_neg (by decide), hfind₄, if_neg (by decide), hfind₃, if_neg (by decide), hfind₂,
      if_pos rfl]
  · rw [hfind₅, if_neg (by decide), hfind₄, if_neg (by decide), hfind₃, if_pos rfl]
  · rw [hfind₅, if_neg (by decide), hfind₄, if_pos rfl]
  · rw [hfind₅, if_pos rfl]

/-- Whatever is opened is the last event. -/
theorem exec_open (call : Call) (url : Str) (s : State) :
    ∃ opened result, exec (call.open_ url) s =
        (.ok result, { s with events := s.events ++ opened }) ∧
      ∀ event ∈ opened, event = .openLink url := by
  unfold Call.open_
  cases call.openLink with
  | none => exact ⟨[], false, by rw [List.append_nil]; rfl, fun _ h => absurd h List.not_mem_nil⟩
  | some openLink =>
    exact ⟨[.openLink url], openLink url, rfl, fun _ h => List.mem_singleton.mp h⟩

/-- A login in the app that is answered links the plugin. -/
theorem linked_nativeLogin {s t : State}
    (h : Links call context s bundle payload link_key channelUrl) (ht : t.data_.isObject = true)
    (translator : Option UserInterfaceTranslateFunction) :
    Linked call.p.toCrypto bundle.privateKey link_key channelUrl
      (exec (NativeTransport.login call context bundle translator) t).2.data_ := by
  obtain ⟨link_name, hname⟩ := h.name
  obtain ⟨hcid, hsa, hsp⟩ := h.complete
  obtain ⟨opened, result, hopen, -⟩ := exec_open call
    (bundle.sameDeviceRequest.encode call.z call.p (some true) false) t
  unfold NativeTransport.login
  rw [h.ui]
  simp only [Bool.false_eq_true, if_false]
  rw [exec_bind_of_ok hopen, emit, exec_change_bind, Call.answer, emit, bind_assoc,
    exec_change_bind, h.answered, exec_outcome_ok_bind, h.verified, exec_outcome_ok_bind]
  simp only [hcid, hsa, hsp, Bool.not_true, Bool.or_self, Bool.false_eq_true, if_false]
  rw [exec_bind_outcome]
  exact linked_keepLink ht h.key h.channel hname h.scheme

/-- **A login that a wallet answers** links the plugin with it. -/
theorem linked_login {s : State} (h : Links call context s bundle payload link_key channelUrl) :
    Linked call.p.toCrypto bundle.privateKey link_key channelUrl
      (exec (handleLogin call context) s).2.data_ := by
  obtain ⟨perCall, hperCall, hnative⟩ := h.native
  unfold handleLogin
  rw [h.ui]
  simp only [Bool.false_eq_true, if_false]
  rw [hperCall, exec_outcome_ok_bind, h.requested, exec_outcome_ok_bind]
  cases hurl : resolveWebAuthenticatorUrl (context.chain.map (fun chain => chain.id.hexString))
      call.webAuthenticatorUrls with
  | none => exact linked_nativeLogin h h.object call.translator
  | some webUrl =>
    simp only
    rw [exec_look_bind, hnative webUrl hurl]
    unfold loginWith
    obtain ⟨data, hexec, hobject, -⟩ := exec_setData_bind h.object "mode"
      (.str (modeString .app)) (fun _ => NativeTransport.login call context bundle call.translator)
    rw [hexec]
    exact @linked_nativeLogin _ _ _ _ _ _ _ { s with data_ := data } h hobject call.translator

end Logins

/-! ## What the wallet makes of a message -/

/-- What a wallet does with a posted message and its key: the message is read and unsealed, and
the uri in it is read. -/
def openMessage (call : Call) (walletKey : PrivateKey) (body : Bytes) :
    Result (PublicKey × SigningRequest) := do
  let (received, _) ← (SealedMessage.fromABI call.p).run body
  let uri ← unsealMessage call.primitives call.aes received.ciphertext walletKey received.fromKey
    received.nonce
  let request ← SigningRequest.ofUri call.z call.p uri
  return (received.fromKey, request)

/-- The promises of the libraries. -/
structure Call.Lawful (call : Call) : Prop where
  inflates : call.z.Inverse
  deciphers : call.aes.Inverse
  agrees : call.primitives.toCurves.Agrees

variable {call : Call} {privateKey walletKey : PrivateKey} {requestKey signerKey : PublicKey}

/-- Sealing succeeds. -/
theorem exists_sealMessage {secret : Checksum512}
    (hsecret : privateKey.sharedSecret call.primitives signerKey = .ok secret)
    (hpublic : privateKey.toPublic call.primitives.toCurves = .ok requestKey)
    (hdeciphers : call.aes.Inverse) {random : Bytes} (hrandom : call.secureRandom 8 = .ok random)
    {uri : Str} (hsize : uri.length < 2 ^ 31 - 16) :
    ∃ sealedMessage, sealMessage call.primitives call.aes call.secureRandom uri privateKey signerKey
        none = .ok sealedMessage ∧ sealedMessage.fromKey = requestKey := by
  have hnonce : nonceOf call.secureRandom none = .ok (ofLowBytes (random.take 8)).toUInt64 := by
    unfold nonceOf
    simp only
    rw [hrandom]
    rfl
  have hkey : (createSymmetricKey call.primitives secret
      (ofLowBytes (random.take 8)).toUInt64).length = 32 := by
    unfold createSymmetricKey
    rw [List.length_take, Checksum.size_eq]
    rfl
  have hback := (@decryptMessage_encryptMessage_iff call.aes
    (createIV call.primitives (ofLowBytes (random.take 8)).toUInt64 secret) _ hdeciphers uri).mpr
      ⟨hkey, hsize⟩
  obtain ⟨ciphertext, hciphertext, -⟩ := bind_eq_ok.mp hback
  unfold sealMessage sealedMessagePayload
  rw [hnonce, ok_bind, hsecret, ok_bind]
  simp only
  rw [hciphertext, ok_bind, hpublic]
  exact ⟨_, rfl, rfl⟩

/-- **What was sealed is opened**, and is the request that was encoded. -/
theorem openMessage_of_sealMessage (hcall : call.Lawful) (htype : privateKey.type = walletKey.type)
    (hwallet : walletKey.toPublic call.primitives.toCurves = .ok signerKey)
    {request : SigningRequest} (hrequest : request.Encodable)
    (hcap : (request.getData ++ request.getSignatureData call.p).length < maxInflateOutput)
    (hsize : (request.encode call.z call.p (some true) false).length < 2 ^ 31 - 16)
    {sealedMessage : SealedMessage} (h : sealMessage call.primitives call.aes call.secureRandom
      (request.encode call.z call.p (some true) false) privateKey signerKey none =
        .ok sealedMessage) :
    ∃ body, sealedMessage.toABI call.p = .ok body ∧
      openMessage call walletKey body = .ok (sealedMessage.fromKey, request) := by
  obtain ⟨body, hbody, hreads⟩ := reads_sealMessage call.p hsize h
  refine ⟨body, hbody, ?_⟩
  unfold openMessage
  rw [hreads.run_eq, ok_bind]
  simp only
  rw [unsealMessage_sealMessage hcall.deciphers hcall.agrees htype hwallet hsize h, ok_bind,
    SigningRequest.ofUri_eq_of_encodable hcall.inflates hrequest (some true) false hcap]
  rfl

/-! ## A sign over the link -/

/-- What a message is delivered with: the keys of the data as they are read. -/
theorem exec_deliver {data : Json} {link_key channelUrl : Str} {service channel : Str}
    (hlinked : Linked call.p.toCrypto privateKey link_key channelUrl data)
    (hvalid : privateKey.Valid)
    (hkey : PublicKey.ofString call.p.toCrypto link_key = .ok signerKey)
    (hsplit : NativeTransport.splitChannel channelUrl = some (service, channel)) {uri : Str}
    {sealedMessage : SealedMessage} {body : Bytes}
    (hsealed : sealMessage call.primitives call.aes call.secureRandom uri privateKey signerKey
      none = .ok sealedMessage) (hbody : sealedMessage.toABI call.p = .ok body)
    (hfetch : call.fetch = true) (s : State) :
    exec (NativeTransport.deliver call data channelUrl uri) s =
      (.ok (), { s with events := s.events ++ [.post (Buoy.sendUrl service channel) body] }) := by
  unfold NativeTransport.deliver
  rw [hsplit]
  simp only
  rw [Json.valueStr_of_find hlinked.privateKey, exec_outcome_ok_bind,
    PrivateKey.fromString_toString call.p.toCrypto hvalid, exec_outcome_ok_bind,
    Json.valueStr_of_find hlinked.signerKey, exec_outcome_ok_bind, hkey, exec_outcome_ok_bind,
    hsealed, exec_outcome_ok_bind, hbody, exec_outcome_ok_bind, hfetch]
  rfl

theorem exec_launch (call : Call) (data : Json) (sameDevice : Bool) (s : State) :
    ∃ opened, exec (NativeTransport.launch call data sameDevice) s =
        (.ok (), { s with events := s.events ++ opened }) ∧
      ∀ event ∈ opened, event = .openLink (data.jsonStr "launchUrl") := by
  unfold NativeTransport.launch
  simp only
  split
  · obtain ⟨opened, result, hopen, hopened⟩ := exec_open call (data.jsonStr "launchUrl") s
    refine ⟨opened, ?_, hopened⟩
    rw [exec_bind_of_ok hopen]
    rfl
  · exact ⟨[], by rw [List.append_nil]; rfl, fun _ h => absurd h List.not_mem_nil⟩

/-- The wallet of a link has a key of the same curve, whose public key it answered with, and the
two keys share a secret. -/
structure Wallet (call : Call) (privateKey : PrivateKey) (link_key : Str) (walletKey : PrivateKey) :
    Prop where
  valid : privateKey.Valid
  type : privateKey.type = walletKey.type
  shared : ∃ signerKey secret, PublicKey.ofString call.p.toCrypto link_key = .ok signerKey ∧
    walletKey.toPublic call.primitives.toCurves = .ok signerKey ∧
    privateKey.sharedSecret call.primitives signerKey = .ok secret

/-- What a sign needs of its call: a user interface, a channel for the answer, random bytes and
the network. -/
structure Ready (call : Call) (channel : Str) : Prop extends call.Lawful where
  ui : call.ui.isNone = false
  uuid : call.uuid = .ok channel
  random : ∃ random, call.secureRandom 8 = .ok random
  fetch : call.fetch = true

/-- A transaction that can be sent as a request to be answered at a callback. -/
structure Sendable (call : Call) (chain : ChainDefinition) (transaction : Transaction)
    (callback : Str) : Prop where
  sized : transaction.Sized
  text : TextFits callback
  inflatable : Inflatable call.p chain transaction callback

variable {resolved : ResolvedSigningRequest} {context : SignContext}
  {channel link_key channelUrl : Str}

/-- The request of a linked sign is delivered. -/
theorem exists_delivery (hready : Ready call channel)
    (hwallet : Wallet call privateKey link_key walletKey)
    (hpublic : privateKey.toPublic call.primitives.toCurves = .ok requestKey) {data : Json}
    (hlinked : Linked call.p.toCrypto privateKey link_key channelUrl data) {service path : Str}
    (hsplit : NativeTransport.splitChannel channelUrl = some (service, path))
    {request : SigningRequest} (hrequest : request.Encodable)
    (hcap : (request.getData ++ request.getSignatureData call.p).length < maxInflateOutput) :
    ∃ body, openMessage call walletKey body = .ok (requestKey, request) ∧ ∀ s : State,
      exec (NativeTransport.deliver call data channelUrl
        (request.encode call.z call.p (some true) false)) s =
          (.ok (), { s with events := s.events ++ [.post (Buoy.sendUrl service path) body] }) := by
  obtain ⟨signerKey, secret, hkey, hsigner, hsecret⟩ := hwallet.shared
  obtain ⟨random, hrandom⟩ := hready.random
  have hsize : (request.encode call.z call.p (some true) false).length < 2 ^ 31 - 16 := by
    have hlength := SigningRequest.length_encode_le call.z call.p request (some true)
    unfold maxInflateOutput at hcap
    omega
  obtain ⟨sealedMessage, hsealed, hfrom⟩ :=
    exists_sealMessage hsecret hpublic hready.deciphers hrandom hsize
  obtain ⟨body, hbody, hopened⟩ := openMessage_of_sealMessage hready.toLawful hwallet.type hsigner
    hrequest hcap hsize hsealed
  rw [hfrom] at hopened
  exact ⟨body, hopened, exec_deliver hlinked hwallet.valid hkey hsplit hsealed hbody hready.fetch⟩

/-- **A sign over the link**: what is opened, the prompt, one message, and then the wait. -/
theorem events_nativeSign (hready : Ready call channel)
    (hwallet : Wallet call privateKey link_key walletKey)
    (hpublic : privateKey.toPublic call.primitives.toCurves = .ok requestKey) {s : State}
    (hlinked : Linked call.p.toCrypto privateKey link_key channelUrl s.data_) {service path : Str}
    (hsplit : NativeTransport.splitChannel channelUrl = some (service, path))
    (hsendable : Sendable call context.chain resolved.transaction
      (call.buoyUrl ++ lit "/" ++ channel)) :
    ∃ opened prompt body more wait,
      (exec (NativeTransport.sign call resolved context) s).2.events = s.events ++ opened ++
        [.prompt prompt, .post (Buoy.sendUrl service path) body, .waitForCallback wait] ∧
      (∀ event ∈ opened, event = .openLink (s.data_.jsonStr "launchUrl")) ∧
      wait.service = call.buoyUrl ∧ wait.channel = channel ∧
      openMessage call walletKey body = .ok (requestKey, linkedRequest context.chain
        resolved.transaction (wait.service ++ lit "/" ++ wait.channel) more) := by
  obtain ⟨link_name, hname⟩ := hlinked.channelName
  -- Either of the two requests is delivered.
  have hdelivery : ∀ more, more = [] ∨ more = [sameDevicePair] →
      ∃ body, openMessage call walletKey body = .ok (requestKey, linkedRequest context.chain
          resolved.transaction (call.buoyUrl ++ lit "/" ++ channel) more) ∧
        ∀ t : State, exec (NativeTransport.deliver call s.data_ channelUrl
          ((linkedRequest context.chain resolved.transaction
            (call.buoyUrl ++ lit "/" ++ channel) more).encode call.z call.p (some true) false)) t =
          (.ok (), { t with events := t.events ++ [.post (Buoy.sendUrl service path) body] }) :=
    fun more hmore => exists_delivery hready hwallet hpublic hlinked hsplit
      (encodable_linkedRequest context.chain hsendable.sized hsendable.text hmore)
      (hsendable.inflatable more hmore)
  have hne : channelUrl ≠ [] := by
    rintro rfl
    cases hsplit
  have hmore : ∃ more, (more = [] ∨ more = [sameDevicePair]) ∧
      (if s.data_.find "sameDevice" = some (.bool true) then
        (linkedRequest context.chain resolved.transaction (call.buoyUrl ++ lit "/" ++ channel)
          []).setInfoFlag "same_device" true
        else linkedRequest context.chain resolved.transaction
          (call.buoyUrl ++ lit "/" ++ channel) []) =
      linkedRequest context.chain resolved.transaction (call.buoyUrl ++ lit "/" ++ channel)
        more := by
    split
    · exact ⟨_, .inr rfl, setInfoFlag_linkedRequest _ _ _⟩
    · exact ⟨[], .inl rfl, rfl⟩
  obtain ⟨more, hcases, hmore⟩ := hmore
  obtain ⟨body, hopened, hdeliver⟩ := hdelivery more hcases
  obtain ⟨opened, hlaunch, hopen⟩ := exec_launch call s.data_
    (decide (s.data_.find "sameDevice" = some (.bool true))) s
  refine ⟨opened, NativeTransport.signPrompt call.translator link_name
    ((linkedRequest context.chain resolved.transaction (call.buoyUrl ++ lit "/" ++ channel)
      []).encode call.z call.p (some true) false)
    (((linkedRequest context.chain resolved.transaction (call.buoyUrl ++ lit "/" ++ channel)
      []).setInfoFlag "same_device" true).encode call.z call.p)
    resolved.transaction.expiration, body, more, {
      channel := channel
      service := call.buoyUrl
      timeout := NativeTransport.timeLeft call resolved.transaction.expiration },
    ?_, hopen, rfl, rfl, hopened⟩
  unfold NativeTransport.sign
  rw [hready.ui]
  simp only [Bool.false_eq_true, if_false, exec_look_bind]
  rw [signRequest_eq hready.uuid, exec_outcome_ok_bind]
  simp only
  rw [exec_bind_of_ok hlaunch, Json.valueStr_of_find hname, exec_outcome_ok_bind, emit,
    exec_change_bind, Json.valueStr_of_find hlinked.channelUrl, exec_outcome_ok_bind]
  unfold NativeTransport.send
  rw [if_pos hne, hmore, exec_bind_of_ok (hdeliver _), emit, exec_change_bind, exec_bind_outcome]
  simp only [exec_outcome, List.append_assoc, List.cons_append, List.nil_append]

/-! ## From the login to the wallet -/

/-- An identity request that announces a key in its link. -/
def Announces (p : Platform) (request : SigningRequest) (requestKey : PublicKey) : Prop :=
  ∃ session : BuoySession, session.request_key = requestKey ∧ ∃ value,
    session.toABI p = .ok value ∧ { key := "link", value } ∈ request.data.info

/-- The key of an identity request is the public key of the one it comes with, and announced. -/
theorem announces_of_createIdentityRequest {context : EsrLoginContext} {buoyUrl : Str}
    {bundle : IdentityRequestResponse PrivateKey}
    (h : createIdentityRequest call.p call.esr context buoyUrl = .ok bundle) :
    bundle.privateKey.toPublic call.primitives.toCurves = .ok bundle.requestKey ∧
      Announces call.p bundle.request bundle.requestKey := by
  obtain ⟨privateKey, -, h⟩ := bind_eq_ok.mp h
  obtain ⟨requestKey, hpublic, h⟩ := bind_eq_ok.mp h
  obtain ⟨callbackChannel, -, h⟩ := bind_eq_ok.mp h
  obtain ⟨link, hlink, h⟩ := bind_eq_ok.mp h
  obtain ⟨request, hrequest, h⟩ := bind_eq_ok.mp h
  cases h
  obtain ⟨chain_id, info, -, hinfo, -, hdata⟩ :=
    @identity_eq_ok _ _ _ _ (.ofString context.appName) rfl rfl rfl hrequest
  refine ⟨hpublic, _, rfl, link, hlink, ?_⟩
  show _ ∈ request.data.info
  rw [hdata]
  show _ ∈ info
  -- The chains that a request is for go behind the link.
  unfold requestInfo at hinfo
  split at hinfo
  · obtain ⟨encoded, -, hinfo⟩ := bind_eq_ok.mp hinfo
    cases hinfo
    exact List.mem_append_left _ List.mem_cons_self
  · cases hinfo
    exact List.mem_cons_self

/-- The bytes of a number, the highest first. -/
def bytesOf (size n : ℕ) : Bytes :=
  (List.range size).map (fun i => (n >>> (8 * (size - 1 - i))).toUInt8)

/-- A compressor that shortens two inputs; any other goes behind a byte that starts no deflated
data. -/
def twoInputZlib (first second : Bytes × Bytes) : Zlib where
  deflateRaw array :=
    if array = first.1 then .ok first.2
    else if array = second.1 then .ok second.2
    else .ok (0xff :: array)
  inflateRaw deflated :=
    if deflated = first.2 then .ok first.1
    else if deflated = second.2 then .ok second.1
    else match deflated with
      | 0xff :: array => .ok array
      | _ => err .invalid "invalid compressed data"

theorem twoInputZlib_inverse {first second : Bytes × Bytes} (hne : second.2 ≠ first.2)
    (hfirst : first.2.head? ≠ some 0xff) (hsecond : second.2.head? ≠ some 0xff) :
    (twoInputZlib first second).Inverse := by
  intro array deflated _ hdeflate
  unfold twoInputZlib at hdeflate ⊢
  simp only at hdeflate ⊢
  split at hdeflate
  · rename_i harray
    cases hdeflate
    rw [if_pos rfl, harray]
  · split at hdeflate
    · rename_i harray
      cases hdeflate
      rw [if_neg hne, if_pos rfl, harray]
    · cases hdeflate
      rw [if_neg (fun heq => hfirst (by rw [← heq]; rfl)),
        if_neg (fun heq => hsecond (by rw [← heq]; rfl))]
      rfl

/-- The blocks of some bytes. -/
def blocksOf (bytes : Bytes) : List Block :=
  (List.range (bytes.length / 16)).map (fun i => Block.load (bytes.drop (16 * i)))

/-- AES on some blocks, and nothing done to the others. -/
def blockAes (plain cipher : Bytes) : Aes where
  encrypt _ := (List.zipWith Equiv.swap (blocksOf plain) (blocksOf cipher)).prod
  decrypt _ := (List.zipWith Equiv.swap (blocksOf plain) (blocksOf cipher)).prod.symm

theorem blockAes_inverse (plain cipher : Bytes) : (blockAes plain cipher).Inverse :=
  fun _ _ block => Equiv.symm_apply_apply _ block

/-- The primitives of the two keys, with the checksums of their texts. -/
def linkPrimitives : Primitives :=
  { rowPrimitives with
    ripemd160 := fun data =>
      if data = (rowKey 1).data ++ lit "K1" then
        ⟨bytesOf 20 0x7357f3a92778bdf4ad64032d6bcbf22ec9b7c9c1, by decide +kernel⟩
      else if data = countingPoint.array ++ lit "K1" then
        ⟨bytesOf 20 0x9a219b557e647860e5735d396c9f96b2f7811782, by decide +kernel⟩
      else if data = rowPoint.array ++ lit "K1" then
        ⟨bytesOf 20 0xbe27b6fdd41dbc8ed10d1f7b4298a9ac53d54dfa, by decide +kernel⟩
      else .zero 20 }

/-- A call with the counting key: the answer, the channel it is awaited on, and a compressor. -/
def linkCall (z : Zlib) (uuid : Str) (answer : Json) : Call where
  z
  p := { (default : Platform) with toCrypto := linkPrimitives.toCrypto }
  primitives := linkPrimitives
  agree := rfl
  aes := blockAes
    (bytesOf 36 0x68f0c9bff2076cb2efdaf2d7cc7d358719ae704eeacc3aa3f7a3ed5012a73f97ab74881a ++
      bytesOf 36 0x0076c3e3c75d5d59ddbb183b095926fc5143889bd90350407e1ca4e56be58c3d49e84fdd ++
      bytesOf 36 0xbdb7eea9d5c3e303a3143e142e12cc135208cb01707f690d1596c1c597927e1681d0f36f ++
      bytesOf 36 0x5680354e5b2bb976779df1b87456a25db0fd7d84a4614c883b5d53a951da628fd14318ed)
    (bytesOf 36 0x4f9f0529b9a55fc6b6f28a0943f66bd3e040c64b4d34f184880f391090d77455651377a9 ++
      bytesOf 36 0x1705feebef7a332e484ffc8821b2ea560fc521b1e7f8b4c5e3f6966ee4476f766448bd78 ++
      bytesOf 36 0x6464a46c371e0b6278ff90a7ddbf0e77f19a820160d244223668ec2c3df59ed32360f83c ++
      bytesOf 36 0xddb93efdc32b1ff15c1a24eb109b6489d7451eeb6380491150deb623a18d955bf6b9d116)
  parse _ := none
  dump _ := []
  ui := some (fun _ _ options => options.defaultValue)
  now := 1767225480000
  generate := .ok (rowKey 1)
  uuid := .ok uuid
  secureRandom n := .ok ((5 :: List.replicate 7 0).take n)
  waitForCallback _ := .ok answer

/-- All such calls have the same options and libraries. -/
theorem options_linkCall (z z' : Zlib) (uuid uuid' : Str) (answer answer' : Json) :
    (linkCall z uuid answer).toOptions = (linkCall z' uuid' answer').toOptions ∧
      (linkCall z uuid answer).primitives = (linkCall z' uuid' answer').primitives := ⟨rfl, rfl⟩

/-- The chain of both calls. -/
def linkChain : ChainDefinition where
  id := (ChainId.ofAlias ChainName.eos.toUInt8).toOption.getD (.zero 32)

/-- What the wallet answers to the login. -/
def linkAnswer : Json := .obj [
  (lit "sa", .str "alice"), (lit "sp", .str "active"),
  (lit "cid", .str linkChain.id.hexString), (lit "sig", .str "SIG_K1_"),
  (lit "link_key", .str "PUB_K1_58o6YAkwS5mYLWkuKtbRMs21GZpoSxQYYcB2JyePE92HkkQYm2"),
  (lit "link_ch", .str "https://cb.anchor.link/9d2e4b7a-3c15-4f68-a0b9-7e1d5c8f2a36"),
  (lit "link_name", .str "Phone")]

/-- The login. -/
def linkLogin : Call :=
  linkCall
    (oneInputZlib
      (bytesOf 36 0x000103000000000040a54a00023b68747470733a2f2f63622e616e63686f722e6c696e6b ++
        bytesOf 36 0x2f30623864366633652d353163372d346139322d623665302d3933663463316432613765 ++
        bytesOf 36 0x3502046c696e6b56000000000040a54a000284bf7562262bbd6940085748f3be6afa52ae ++
        bytesOf 36 0x317155181ece31b66351ccffa4b02b4077686172666b69742f70726f746f636f6c2d6573 ++
        bytesOf 33 0x7220312e362e312064776172666b69742f312e302e300573636f70650464656d6f)
      (bytesOf 36 0x63606466000187a55e0c4cd619252505c556fafac9497a8979c919f9457a399979d9fa06 ++
        bytesOf 36 0x4916296669c6a9baa686c9e6ba26899646ba4966a906ba96c66926c986294689e6a9a64c ++
        bytesOf 36 0x2c20a56108c35af69726a969efcd74e008f7f8bc2feb57d03ac3c25009b97386db9203cf ++
        bytesOf 36 0xfc5fb241dba13c23b1282d3bb344bfa028bf243f393f4737b5b848c150cf4ccf5021a51c ++
        bytesOf 19 0x2a67a867a067c05a9c9c5f90ca92929a9b0f00))
    "0b8d6f3e-51c7-4a92-b6e0-93f4c1d2a7e5"
    linkAnswer

/-- The context of the login. -/
def linkContext : LoginContext where
  appName := "demo"
  chain := some linkChain
  chains := [linkChain]
  walletPlugins := []

/-- The sign. -/
def linkSign : Call :=
  linkCall
    (twoInputZlib
      (bytesOf 36 0x00010200b95569dd2b107a2c5f00000000010000000000ea3055000000000050299d0000 ++
        bytesOf 36 0x00023b68747470733a2f2f63622e616e63686f722e6c696e6b2f35663063326134652d39 ++
        bytesOf 36 0x6231642d346333612d386537662d32643662316130633965383401046c696e6b0400b955 ++
        bytesOf 1 0x69,
        bytesOf 36 0x63606462d8199a79575ba04a279e0108184104c32b8350301da039174832596794941414 ++
          bytesOf 36 0x5be9eb2727e925e62567e417e9e564e665eb9ba619241b259aa4ea5a2619a6e89a241b27 ++
          bytesOf 27 0xea5aa49aa7e91aa5982519261a245ba65a9830b28094b2806c0100)
      (bytesOf 36 0x00010200b95569dd2b107a2c5f00000000010000000000ea3055000000000050299d0000 ++
        bytesOf 36 0x00023b68747470733a2f2f63622e616e63686f722e6c696e6b2f35663063326134652d39 ++
        bytesOf 36 0x6231642d346333612d386537662d32643662316130633965383402046c696e6b0400b955 ++
        bytesOf 15 0x690b73616d655f6465766963650101,
        bytesOf 36 0x63606462d8199a79575ba04a279e0108184104c32b8350301da039174832596794941414 ++
          bytesOf 36 0x5be9eb2727e925e62567e417e9e564e665eb9ba619241b259aa4ea5a2619a6e89a241b27 ++
          bytesOf 36 0xea5aa49aa7e91aa5982519261a245ba65a9830b18094b2806ce12e4ecc4d8d4f492dcb4c ++
          bytesOf 5 0x4e65640400))
    "5f0c2a4e-9b1d-4c3a-8e7f-2d6b1a0c9e84" .null

/-- The transaction that is signed. -/
def linkTransaction : Transaction where
  expiration := ⟨1767225600⟩
  ref_block_num := 0x2bdd
  ref_block_prefix := 0x5f2c7a10
  actions := [{ account := .ofString "eosio", name := .ofString "noop" }]

/-- What it was resolved from. -/
def linkResolved : ResolvedSigningRequest where
  request := { data := .v2 { chain_id := .alias 1, req := .transaction linkTransaction } }
  signer := { actor := .ofString "alice", permission := .ofString "active" }
  transaction := linkTransaction
  resolvedTransaction := {
    toTransactionHeader := linkTransaction.toTransactionHeader
    context_free_actions := []
    actions := [{
      account := .ofString "eosio"
      name := .ofString "noop"
      authorization := []
      data := .obj [] }]
    transaction_extensions := [] }
  chainId := linkChain.id

/-- The context of the sign. -/
def linkSignContext : SignContext where
  chain := linkChain
  permissionLevel := { actor := .ofString "alice", permission := .ofString "active" }

theorem ready_linkSign : Ready linkSign "5f0c2a4e-9b1d-4c3a-8e7f-2d6b1a0c9e84" where
  inflates := twoInputZlib_inverse (by decide +kernel) (by decide +kernel) (by decide +kernel)
  deciphers := blockAes_inverse _ _
  agrees := agrees_rowPrimitives
  ui := rfl
  uuid := rfl
  random := ⟨_, rfl⟩
  fetch := rfl

theorem wallet_linkSign : Wallet linkSign (rowKey 1)
    "PUB_K1_58o6YAkwS5mYLWkuKtbRMs21GZpoSxQYYcB2JyePE92HkkQYm2" (rowKey 33) where
  valid := ⟨fun _ => rfl, rfl⟩
  type := rfl
  shared := ⟨{ type := .K1, data := rowPoint.array }, sharedDigest, by decide +kernel,
    rfl, by decide +kernel⟩

theorem sendable_linkTransaction : Sendable linkSign linkChain linkTransaction
    (linkSign.buoyUrl ++ lit "/" ++ "5f0c2a4e-9b1d-4c3a-8e7f-2d6b1a0c9e84") where
  sized := by
    have hempty : ActionsSized [] := ⟨Nat.two_pow_pos 32, fun action h => absurd h List.not_mem_nil⟩
    refine ⟨hempty, ⟨by norm_num [linkTransaction], fun action haction => ?_⟩, Nat.two_pow_pos 32,
      fun x h => absurd h List.not_mem_nil⟩
    rw [List.mem_singleton.mp haction]
    exact ⟨Nat.two_pow_pos 32, Nat.two_pow_pos 32⟩
  text := ⟨by decide +kernel, by decide +kernel⟩
  inflatable := by
    rintro more (rfl | rfl)
    · decide +kernel
    · decide +kernel

/-- The login, and the key that it is made with. -/
theorem links_linkLogin : ∃ bundle,
    Links linkLogin linkContext {} bundle linkAnswer
      "PUB_K1_58o6YAkwS5mYLWkuKtbRMs21GZpoSxQYYcB2JyePE92HkkQYm2"
      "https://cb.anchor.link/9d2e4b7a-3c15-4f68-a0b9-7e1d5c8f2a36" ∧
    bundle.privateKey = rowKey 1 := by
  obtain ⟨bundle, hbundle, hkey⟩ : ∃ bundle,
      createIdentityRequest linkLogin.p linkLogin.esr (linkLogin.esrLoginContext linkContext)
        linkLogin.buoyUrl = .ok bundle ∧ bundle.privateKey = rowKey 1 := ⟨_, rfl, rfl⟩
  refine ⟨bundle, ?_, hkey⟩
  exact {
    object := rfl
    ui := rfl
    requested := hbundle
    native := ⟨none, rfl, fun webUrl _ => rfl⟩
    answered := rfl
    verified := by decide +kernel
    complete := by decide +kernel
    key := by decide +kernel
    channel := by decide +kernel
    name := ⟨lit "Phone", by decide +kernel⟩
    scheme := by decide +kernel }

/-- The plugin after the login. -/
def linkState : State := run linkSign.toOptions {} [.login linkLogin linkContext]

end Anchor

end Dwarfkit
