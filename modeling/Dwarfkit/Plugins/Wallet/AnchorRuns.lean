/-
# What the Anchor wallet lets out

The wallet on the other side of a callback chooses the channel that requests are posted to and
a url that is opened when a request is made.  Whatever it answers, over any number of calls:

* `safe_run` : requests are posted over http or https, what is opened or shown as a link is a
  request, a web page or a page of a configured authenticator, and answers are awaited at the
  configured service only.
-/
import Dwarfkit.Plugins.Wallet.Anchor

namespace Dwarfkit

namespace Anchor

open Effects

/-! ## Urls -/

/-- A url of one of the two web protocols. -/
def HttpUrl (url : Str) : Prop := lit "http://" <+: url ∨ lit "https://" <+: url

/-- What may be opened: a request, a web page, or a page of an authenticator. -/
def Opens (options : Options) (url : Str) : Prop :=
  lit "esr:" <+: url ∨ HttpUrl url ∨
    ∃ entry ∈ options.webAuthenticatorUrls ++ DEFAULT_WEB_AUTHENTICATOR_URLS,
      trimSlashes entry.2 ++ lit "/sign?" <+: url

/-- An event that the outside may see, whoever caused it. -/
def Event.Safe (options : Options) : Event → Prop
  | .prompt args => ∀ element ∈ args.elements, ∀ href,
      element.data.find "href" = some (.str href) → Opens options href
  | .openLink url => Opens options url
  | .post url _ => HttpUrl url
  | .waitForCallback wait => wait.service = options.buoyUrl

/-- The channel that is kept has one of the schemes, and all that happened was safe. -/
structure State.Safe (options : Options) (s : State) : Prop where
  channel : ∀ url, s.data_.find "channelUrl" = some (.str url) →
    NativeTransport.isChannelUrl url = true
  events : ∀ event ∈ s.events, event.Safe options

/-- A request's uri is one. -/
theorem opens_encode (options : Options) (z : Zlib) (p : Platform) (request : SigningRequest)
    (compress : Option Bool) (slashes : Bool) :
    Opens options (request.encode z p compress slashes) := by
  refine .inl ?_
  unfold SigningRequest.encode
  simp only [List.append_assoc]
  exact List.prefix_append _ _

/-- An authenticator is a configured one. -/
theorem mem_of_resolveWebAuthenticatorUrl {chainId : Option Str} {urls : List (Str × Str)}
    {url : Str} (h : resolveWebAuthenticatorUrl chainId urls = some url) :
    ∃ entry ∈ urls ++ DEFAULT_WEB_AUTHENTICATOR_URLS, url = trimSlashes entry.2 := by
  have hfound : ∀ {list : List (Str × Str)} {key : Str}, findUrl list key = some url →
      ∃ entry ∈ list, url = trimSlashes entry.2 := by
    intro list key hfind
    obtain ⟨entry, hentry, rfl⟩ := Option.map_eq_some_iff.mp hfind
    exact ⟨entry, List.mem_of_find?_eq_some hentry, rfl⟩
  unfold resolveWebAuthenticatorUrl at h
  split at h
  · cases h
  · cases h
  · simp only at h
    split at h
    · rename_i found hoverride
      cases h
      obtain ⟨entry, hentry, hurl⟩ := hfound hoverride
      exact ⟨entry, List.mem_append_left _ hentry, hurl⟩
    · obtain ⟨entry, hentry, hurl⟩ := hfound h
      exact ⟨entry, List.mem_append_right _ hentry, hurl⟩

/-- A page of a configured authenticator. -/
theorem opens_signPageUrl {options : Options} {chainId : Option Str} {baseUrl : Str}
    (h : resolveWebAuthenticatorUrl chainId options.webAuthenticatorUrls = some baseUrl)
    (params : List (Str × Str)) : Opens options (WebTransport.signPageUrl baseUrl params) := by
  obtain ⟨entry, hentry, rfl⟩ := mem_of_resolveWebAuthenticatorUrl h
  exact .inr (.inr ⟨entry, hentry, List.prefix_append _ _⟩)

/-! ## The channel of a url -/

/-- A url in front of a channel keeps its scheme, also when it has no host. -/
theorem scheme_of_closed {scheme host : Str} (hscheme : scheme.getLast? = some 47)
    (hhost : 47 ∉ host) (channel : Str) :
    scheme <+: (if (scheme ++ host).getLast? = some 47 then (scheme ++ host).dropLast
      else scheme ++ host) ++ lit "/" ++ channel := by
  rcases List.eq_nil_or_concat host with rfl | ⟨before, last, rfl⟩
  · obtain ⟨before, rfl⟩ := List.getLast?_eq_some_iff.mp hscheme
    rw [List.append_nil, if_pos hscheme, List.dropLast_concat]
    exact List.prefix_append _ _
  · rw [List.concat_eq_append] at hhost ⊢
    rw [if_neg, List.append_assoc, List.append_assoc]
    · exact List.prefix_append _ _
    · intro hlast
      rw [← List.append_assoc, List.getLast?_concat, Option.some.injEq] at hlast
      exact hhost (by simp [hlast])

/-- Behind a scheme, the service ends at the first slash. -/
theorem splitChannel_scheme {scheme rest service channel : Str} {n : ℕ}
    (hend : NativeTransport.schemeEnd (scheme ++ rest) = some n) (hlength : scheme.length = n + 3)
    (h : NativeTransport.splitChannel (scheme ++ rest) = some (service, channel)) :
    ∃ host, service = scheme ++ host ∧ 47 ∉ host ∧ rest = host ++ 47 :: channel := by
  unfold NativeTransport.splitChannel at h
  rw [hend] at h
  simp only [← hlength, List.drop_left] at h
  split at h
  · cases h
  · rename_i i hi
    obtain ⟨hservice, hchannel⟩ := Prod.mk.inj (Option.some.inj h)
    obtain ⟨hlt, hslash, hbefore⟩ := List.findIdx?_eq_some_iff_getElem.mp hi
    refine ⟨rest.take i, ?_, ?_, ?_⟩
    · rw [← hservice, List.take_length_add_append]
    · intro hmem
      obtain ⟨j, hj, hat⟩ := List.mem_take_iff_getElem.mp hmem
      have := hbefore j (by omega)
      simp [hat] at this
    · rw [← hchannel, Nat.add_assoc, List.drop_length_add_append, ← of_decide_eq_true hslash,
        List.getElem_cons_drop hlt, List.take_append_drop]

/-- **What is posted on a checked channel** goes out over http or https. -/
theorem httpUrl_sendUrl {channelUrl service channel : Str}
    (hchecked : NativeTransport.isChannelUrl channelUrl = true)
    (h : NativeTransport.splitChannel channelUrl = some (service, channel)) :
    HttpUrl (Buoy.sendUrl service channel) := by
  unfold NativeTransport.isChannelUrl at hchecked
  simp only [Bool.or_eq_true, List.isPrefixOf_iff_prefix] at hchecked
  unfold Buoy.sendUrl Buoy.swapProtocol
  rcases hchecked with ((⟨rest, rfl⟩ | ⟨rest, rfl⟩) | ⟨rest, rfl⟩) | ⟨rest, rfl⟩
  · obtain ⟨host, rfl, hhost, -⟩ := splitChannel_scheme (n := 4) rfl rfl h
    exact .inl (@scheme_of_closed (lit "http://") host rfl hhost channel)
  · obtain ⟨host, rfl, hhost, -⟩ := splitChannel_scheme (n := 5) rfl rfl h
    exact .inr (scheme_of_closed rfl hhost channel)
  · obtain ⟨host, rfl, hhost, -⟩ := splitChannel_scheme (n := 2) rfl rfl h
    exact .inl (scheme_of_closed rfl hhost channel)
  · obtain ⟨host, rfl, hhost, -⟩ := splitChannel_scheme (n := 3) rfl rfl h
    exact .inr (scheme_of_closed rfl hhost channel)

/-! ## Parts of a call -/

/-- What is found after a member was assigned. -/
theorem find_assign {j j' : Json} {key : Str} {v : Json} (h : j.assign key v = .ok j') (other : Str) :
    j'.find other = if other = key then some v else j.find other := by
  unfold Json.assign at h
  split at h
  · rename_i members
    cases h
    show Json.lookup (Json.insert members key v) other = _
    split
    · rename_i heq
      rw [heq, Json.lookup_insert_self]
    · rename_i hne
      exact Json.lookup_insert_of_ne members v hne
  · cases h
    by_cases heq : other = key
    · simp [Json.find, Json.lookup, heq]
    · simp [Json.find, Json.lookup, heq, Ne.symm heq]
  · cases h

/-- A text that `value` gives and that is not empty is the member itself. -/
theorem find_of_valueStr {j : Json} {key text : Str} (h : j.valueStr key [] = .ok text)
    (hne : text ≠ []) : j.find key = some (.str text) := by
  obtain ⟨v, hv, htext⟩ := bind_eq_ok.mp h
  unfold Json.valueOr at hv
  split at hv
  · rename_i members
    cases hv
    change Json.lookup members key = _
    cases hlookup : Json.lookup members key with
    | none =>
      rw [hlookup] at htext
      cases htext
      exact absurd rfl hne
    | some v =>
      rw [hlookup] at htext
      cases v with
      | str s =>
        cases htext
        rfl
      | _ => cases htext
  · cases hv

variable {options : Options}

theorem maintains_emit {event : Event} (h : event.Safe options) :
    Maintains (State.Safe options) (emit event) := by
  refine Maintains.change (fun s hs => ⟨hs.channel, fun e he => ?_⟩)
  rcases List.mem_append.mp he with he | he
  · exact hs.events e he
  · rw [List.mem_singleton.mp he]
    exact h

/-- Assigning a member is safe, unless it is an unchecked channel. -/
theorem maintains_setData {key : Str} {v : Json}
    (h : key = lit "channelUrl" → ∀ url, v = .str url → NativeTransport.isChannelUrl url = true) :
    Maintains (State.Safe options) (setData key v) := by
  refine Maintains.look_bind (fun s hs => Maintains.outcome_bind (fun data hdata => ?_))
  refine Maintains.change (fun s' hs' => ⟨fun url hurl => ?_, hs'.events⟩)
  have hfind := find_assign hdata (lit "channelUrl")
  change data.find (lit "channelUrl") = some (.str url) at hurl
  rw [hurl] at hfind
  split at hfind
  · rename_i heq
    exact h heq.symm url (Option.some.inj hfind).symm
  · exact hs.channel url hfind.symm

variable (call : Call)

theorem maintains_open {url : Str} (h : Opens options url) :
    Maintains (State.Safe options) (call.open_ url) := by
  unfold Call.open_
  cases call.openLink with
  | none => exact Maintains.pure _ _
  | some openLink =>
    exact (@maintains_emit options (.openLink url) h).bind (fun _ => Maintains.pure _ _)

theorem maintains_answer {wait : Buoy.ReceiveOptions} (h : wait.service = options.buoyUrl) :
    Maintains (State.Safe options) (call.answer wait) :=
  (@maintains_emit options (.waitForCallback wait) h).bind (fun _ => Maintains.outcome _ _)

namespace NativeTransport

theorem maintains_keep (metadata : List (Str × Json)) {key : Str} (accepts : Json → Bool)
    (h : key ≠ lit "channelUrl") : Maintains (State.Safe options) (keep metadata key accepts) := by
  unfold keep
  split
  · exact Maintains.ite (maintains_setData (fun heq => absurd heq h)) (Maintains.pure _ _)
  · exact Maintains.pure _ _

/-- **What a login keeps**: a channel only if its scheme was checked. -/
theorem maintains_keepLink (bundle : IdentityRequestResponse PrivateKey) (payload : Json) :
    Maintains (State.Safe options) (keepLink call bundle payload) := by
  have hother : ∀ {key : Str} {v : Json}, key ≠ lit "channelUrl" →
      Maintains (State.Safe options) (setData key v) :=
    fun h => maintains_setData (fun heq => absurd heq h)
  unfold keepLink
  split
  · rename_i channelUrl link_key link_name _ _ _
    refine (hother (by decide)).bind (fun _ => (hother (by decide)).bind (fun _ => ?_))
    split
    · exact Maintains.outcome _ _
    · rename_i hchecked
      refine (hother (by decide)).bind (fun _ => Maintains.bind ?_ (fun _ => ?_))
      · refine maintains_setData (fun _ url hurl => ?_)
        cases hurl
        simpa using hchecked
      · refine (hother (by decide)).bind (fun _ => ?_)
        unfold keepMetadata
        split
        · exact (maintains_keep _ _ (by decide)).bind (fun _ =>
            (maintains_keep _ _ (by decide)).bind (fun _ => maintains_keep _ _ (by decide)))
        · exact Maintains.pure _ _
  · exact Maintains.pure _ _

/-- A link element is safe when its url is. -/
theorem safe_linkElement {label href : Str} {more : List (Str × Json)}
    (h : Opens options href) (url : Str)
    (hurl : (linkElement label href more).data.find "href" = some (.str url)) :
    Opens options url := by
  cases hurl
  exact h

theorem safe_loginPrompt (t : Option UserInterfaceTranslateFunction)
    (bundle : IdentityRequestResponse PrivateKey) {sameDeviceUri : Str}
    (h : Opens options sameDeviceUri) :
    Event.Safe options (.prompt (loginPrompt call t bundle sameDeviceUri)) := by
  intro element helement href hhref
  rcases List.mem_append.mp helement with hcode | hlink
  · -- The code of a request is no link.
    split at hcode
    · cases hcode
    · rw [List.mem_singleton.mp hcode] at hhref
      cases hhref
  · rw [List.mem_singleton.mp hlink] at hhref
    exact safe_linkElement h href hhref

theorem maintains_login (context : LoginContext) {bundle : IdentityRequestResponse PrivateKey}
    (t : Option UserInterfaceTranslateFunction) (h : bundle.callback.service = options.buoyUrl) :
    Maintains (State.Safe options) (login call context bundle t) := by
  have huri := opens_encode options call.z call.p bundle.sameDeviceRequest (some true) false
  unfold login
  refine Maintains.ite (Maintains.outcome _ _) ?_
  refine (maintains_open call huri).bind (fun _ => ?_)
  refine (maintains_emit (safe_loginPrompt call t bundle huri)).bind (fun _ => ?_)
  refine (maintains_answer call h).bind (fun payload => ?_)
  refine (Maintains.outcome _ _).bind (fun _ => Maintains.ite (Maintains.outcome _ _) ?_)
  exact (maintains_keepLink call bundle payload).bind (fun _ => Maintains.outcome _ _)

theorem safe_signPrompt (t : Option UserInterfaceTranslateFunction) (channelName request : Str)
    {href : Str} (expiration : TimePointSec) (h : Opens options href) :
    Event.Safe options (.prompt (signPrompt t channelName request href expiration)) := by
  intro element helement url hurl
  simp only [signPrompt, List.mem_cons, List.not_mem_nil, or_false] at helement
  rcases helement with rfl | rfl | rfl
  · cases hurl
  · cases hurl
  · exact safe_linkElement h url hurl

/-- **What a sign posts** goes to the channel that was kept. -/
theorem maintains_deliver (data : Json) {channelUrl : Str} (uri : Str)
    (h : isChannelUrl channelUrl = true) :
    Maintains (State.Safe options) (deliver call data channelUrl uri) := by
  unfold deliver
  split
  · exact Maintains.pure _ _
  · rename_i service channel hsplit
    have hpost : ∀ body, Event.Safe options (.post (Buoy.sendUrl service channel) body) :=
      fun _ => httpUrl_sendUrl h hsplit
    repeat refine (Maintains.outcome _ _).bind (fun _ => ?_)
    exact Maintains.ite (maintains_emit (hpost _)) (Maintains.pure _ _)

theorem maintains_launch (data : Json) (sameDevice : Bool) :
    Maintains (State.Safe options) (launch call data sameDevice) := by
  unfold launch
  simp only
  split
  · rename_i h
    simp only [Bool.and_eq_true, Bool.or_eq_true, List.isPrefixOf_iff_prefix] at h
    refine (maintains_open call ?_).bind (fun _ => Maintains.pure _ _)
    rcases h.2 with (hesr | hhttp) | hhttps
    · exact .inl hesr
    · exact .inr (.inl (.inl hhttp))
    · exact .inr (.inl (.inr hhttps))
  · exact Maintains.pure _ _

/-- The answer is awaited at the plugin's service. -/
theorem service_of_signRequest {chain : ChainDefinition} {transaction : Transaction}
    {request : SigningRequest} {callback : ReceiveOptions}
    (h : signRequest call chain transaction = .ok (request, callback)) :
    callback.service = call.buoyUrl := by
  obtain ⟨modifiedRequest, -, h⟩ := bind_eq_ok.mp h
  obtain ⟨link, -, h⟩ := bind_eq_ok.mp h
  obtain ⟨channel, -, h⟩ := bind_eq_ok.mp h
  cases h
  rfl

theorem maintains_sign (resolved : ResolvedSigningRequest) (context : SignContext) :
    Maintains (State.Safe call.toOptions) (sign call resolved context) := by
  unfold sign
  refine Maintains.ite (Maintains.outcome _ _) (Maintains.look_bind (fun s hs => ?_))
  refine Maintains.outcome_bind (fun (request, callback) hrequest => ?_)
  have hservice := service_of_signRequest call hrequest
  have hopens := opens_encode call.toOptions call.z call.p
    (request.setInfoFlag "same_device" true) none true
  refine (maintains_launch call s.data_ _).bind (fun _ => ?_)
  refine (Maintains.outcome _ _).bind (fun channelName => ?_)
  refine (maintains_emit (safe_signPrompt _ _ _ _ hopens)).bind (fun _ => ?_)
  refine Maintains.outcome_bind (fun channelUrl hchannel => Maintains.bind ?_ (fun _ => ?_))
  · unfold send
    split
    · rename_i hne
      exact maintains_deliver call s.data_ _ (hs.channel _ (find_of_valueStr hchannel hne))
    · exact (maintains_open call hopens).bind (fun _ => Maintains.pure _ _)
  · refine Maintains.bind (@maintains_emit call.toOptions (.waitForCallback _) hservice) (fun _ => ?_)
    exact (Maintains.outcome _ _).bind (fun _ => Maintains.outcome _ _)

end NativeTransport

namespace WebTransport

/-- A page is safe to open and to show when its url is. -/
theorem maintains_openPage {url : Str} (h : Opens options url) :
    Maintains (State.Safe options) (openPage call url) := by
  unfold openPage
  refine (maintains_open call h).bind (fun opened => ?_)
  split
  · refine maintains_emit (fun element helement href hhref => ?_)
    cases opened with
    | true => cases helement
    | false =>
      rw [List.mem_singleton.mp helement] at hhref
      exact NativeTransport.safe_linkElement h href hhref
  · exact Maintains.pure _ _

theorem maintains_login (context : LoginContext) {bundle : IdentityRequestResponse PrivateKey}
    {chainId : Option Str} {baseUrl : Str}
    (hurl : resolveWebAuthenticatorUrl chainId options.webAuthenticatorUrls = some baseUrl)
    (h : bundle.callback.service = options.buoyUrl) :
    Maintains (State.Safe options) (login call context bundle baseUrl) := by
  unfold login
  refine (maintains_openPage call (opens_signPageUrl hurl _)).bind (fun _ => ?_)
  refine (maintains_answer call h).bind (fun payload => ?_)
  refine (maintains_setData (fun heq => absurd heq (by decide))).bind (fun _ => ?_)
  refine Maintains.bind ?_ (fun _ => Maintains.outcome _ _)
  unfold keepMessageKey
  split
  · exact maintains_setData (fun heq => absurd heq (by decide))
  · exact Maintains.pure _ _

/-- A page of a request is one of the authenticator. -/
theorem signUrl_eq_ok {data : Json} {context : SignContext} {request : SigningRequest}
    {baseUrl url : Str} (h : signUrl call data context request baseUrl = .ok url) :
    ∃ params, url = signPageUrl baseUrl params := by
  unfold signUrl at h
  simp only [bind_eq_ok] at h
  obtain ⟨_, -, _, -, _, -, _, -, _, -, _, -, _, -, h⟩ := h
  cases h
  exact ⟨_, rfl⟩

theorem maintains_sign (resolved : ResolvedSigningRequest) (context : SignContext)
    {chainId : Option Str} {baseUrl : Str}
    (hurl : resolveWebAuthenticatorUrl chainId call.webAuthenticatorUrls = some baseUrl) :
    Maintains (State.Safe call.toOptions) (sign call resolved context baseUrl) := by
  unfold sign
  refine Maintains.look_bind (fun s hs => (Maintains.outcome _ _).bind (fun _ => ?_))
  refine Maintains.outcome_bind (fun (request, callback) hrequest => ?_)
  refine Maintains.outcome_bind (fun url hpage => ?_)
  obtain ⟨params, rfl⟩ := signUrl_eq_ok call hpage
  refine (maintains_openPage call (opens_signPageUrl hurl _)).bind (fun _ => ?_)
  refine Maintains.bind (maintains_answer call ?_) (fun payload => Maintains.outcome _ _)
  exact NativeTransport.service_of_signRequest call hrequest

end WebTransport

/-! ## Calls -/

/-- A new identity request is answered at the plugin's service. -/
theorem service_of_createIdentityRequest {context : EsrLoginContext}
    {bundle : IdentityRequestResponse PrivateKey}
    (h : createIdentityRequest call.p call.esr context call.buoyUrl = .ok bundle) :
    bundle.callback.service = call.buoyUrl := by
  obtain ⟨privateKey, -, h⟩ := bind_eq_ok.mp h
  obtain ⟨requestKey, -, h⟩ := bind_eq_ok.mp h
  obtain ⟨channel, hchannel, h⟩ := bind_eq_ok.mp h
  obtain ⟨link, -, h⟩ := bind_eq_ok.mp h
  obtain ⟨request, -, h⟩ := bind_eq_ok.mp h
  obtain ⟨uuid, -, hchannel⟩ := bind_eq_ok.mp hchannel
  cases hchannel
  cases h
  rfl

theorem maintains_handleLogin (context : LoginContext) :
    Maintains (State.Safe call.toOptions) (handleLogin call context) := by
  unfold handleLogin
  refine Maintains.ite (Maintains.outcome _ _) ((Maintains.outcome _ _).bind (fun perCall => ?_))
  refine Maintains.outcome_bind (fun bundle hbundle => ?_)
  have hservice := service_of_createIdentityRequest call hbundle
  split
  · exact NativeTransport.maintains_login call context _ hservice
  · rename_i webUrl hurl
    refine Maintains.look_bind (fun s hs => ?_)
    refine (maintains_setData (fun heq => absurd heq (by decide))).bind (fun _ => ?_)
    split
    · exact WebTransport.maintains_login call context hurl hservice
    · exact NativeTransport.maintains_login call context _ hservice

theorem maintains_handleSign (resolved : ResolvedSigningRequest) (context : SignContext) :
    Maintains (State.Safe call.toOptions) (handleSign call resolved context) := by
  unfold handleSign
  refine Maintains.look_bind (fun s hs => ?_)
  split
  · exact NativeTransport.maintains_sign call resolved context
  · split
    · exact Maintains.outcome _ _
    · rename_i webUrl hurl
      exact WebTransport.maintains_sign call resolved context hurl

theorem maintains_setMode (mode : Option AnchorMode) :
    Maintains (State.Safe options) (setMode mode) := by
  unfold setMode
  cases mode with
  | none =>
    refine Maintains.change (fun s hs => ⟨fun url hurl => hs.channel url ?_, hs.events⟩)
    -- Only the mode is erased.
    change (clearMode s.data_).find (lit "channelUrl") = some (.str url) at hurl
    cases hdata : s.data_ with
    | obj members =>
      rw [hdata] at hurl
      have hlookup := Json.lookup_erase_of_ne members
        (show lit "channelUrl" ≠ lit "mode" by decide)
      exact hlookup.symm.trans hurl
    | _ =>
      rw [hdata] at hurl
      cases hurl
  | some mode =>
    refine (maintains_setData (fun heq => absurd heq (by decide))).bind (fun _ => ?_)
    exact Maintains.change (fun s hs => ⟨hs.channel, hs.events⟩)

/-! ## Runs -/

/-- Every call is safe, whatever comes of it. -/
theorem safe_step {s : State} (hs : s.Safe options) (label : Label) :
    (step options s label).Safe options := by
  cases label with
  | setMode mode => exact maintains_setMode mode s hs
  | login call context =>
    exact maintains_handleLogin { call with toOptions := options } context s hs
  | sign call resolved context =>
    exact maintains_handleSign { call with toOptions := options } resolved context s hs
  | restore mode => exact ⟨hs.channel, hs.events⟩

/-- **The plugin is safe over any calls**, whatever the wallets answer. -/
theorem safe_run (options : Options) (labels : List Label) :
    State.Safe options (run options {} labels) := by
  unfold run
  suffices h : ∀ s : State, s.Safe options → (labels.foldl (step options) s).Safe options by
    exact h {} ⟨fun url hurl => (by cases hurl), fun event hevent => (by cases hevent)⟩
  induction labels with
  | nil => exact fun s hs => hs
  | cons label labels ih => exact fun s hs => ih _ (safe_step hs label)

end Anchor

end Dwarfkit
