/-
# Json from elsewhere

What a resource provider and a remote wallet answer with is json of any shape.  Most of its
fields are looked at before they are read, and a few are read with accessors that throw.

* `containedFrom_review` : up to the check of the fee no exception escapes;
* `containedFrom_conclude_iff` : after it, the kinds of `code`, of the signatures and of the
  costs matter;
* `remotePayloads_contained_iff` : exactly when no exception escapes.
-/
import Dwarfkit.Plugins.Transact.ResourceProvider
import Dwarfkit.SigningRequest.Contained

namespace Dwarfkit

open Effects Wire

/-! ## Programs -/

section Programs

variable {W α β : Type}

/-- No json exception escapes from a program that runs in a world. -/
abbrev ContainedFrom (x : Effect W Error α) (w : W) : Prop := Contained (exec x w).1

theorem containedFrom_pure (a : α) (w : W) : ContainedFrom (pure a : Effect W Error α) w :=
  contained_ok a

/-- A sequence is contained exactly when its parts are, as far as it gets. -/
theorem containedFrom_bind_iff {x : Effect W Error α} {f : α → Effect W Error β} {w : W} :
    ContainedFrom (x >>= f) w ↔
      ContainedFrom x w ∧ ∀ a u, exec x w = (.ok a, u) → ContainedFrom (f a) u := by
  unfold ContainedFrom
  rw [exec_bind]
  rcases exec x w with ⟨e | a, u⟩
  · simp
  · simp

theorem ContainedFrom.bind {x : Effect W Error α} {f : α → Effect W Error β} {w : W}
    (hx : ContainedFrom x w) (hf : ∀ a u, exec x w = (.ok a, u) → ContainedFrom (f a) u) :
    ContainedFrom (x >>= f) w :=
  containedFrom_bind_iff.mpr ⟨hx, hf⟩

/-- A sequence that starts with a result. -/
theorem containedFrom_outcome_bind_iff {r : Result α} {f : α → Effect W Error β} {w : W} :
    ContainedFrom (outcome r >>= f) w ↔
      Contained r ∧ ∀ a, r = .ok a → ContainedFrom (f a) w := by
  rw [containedFrom_bind_iff]
  refine and_congr_right (fun _ => ?_)
  constructor
  · intro h a ha
    exact h a w (by rw [exec_outcome, ha])
  · rintro h a u hexec
    rw [exec_outcome] at hexec
    cases hexec
    exact h a rfl

theorem ContainedFrom.outcome_bind {r : Result α} {f : α → Effect W Error β} {w : W}
    (hr : Contained r) (hf : ∀ a, r = .ok a → ContainedFrom (f a) w) :
    ContainedFrom (outcome r >>= f) w :=
  containedFrom_outcome_bind_iff.mpr ⟨hr, hf⟩

/-- Reading the world. -/
theorem ContainedFrom.look_bind {view : W → α} {f : α → Effect W Error β} {w : W}
    (h : ContainedFrom (f (view w)) w) : ContainedFrom (look view >>= f) w := by
  unfold ContainedFrom
  rw [exec_look_bind]
  exact h

end Programs

/-! ## Accessors -/

namespace Json

theorem contained_getInt_iff (j : Json) :
    Contained j.getInt ↔ j.isNumber = true ∨ j.isBoolean = true := by
  cases j <;> simp [getInt, isNumber, isBoolean]

/-- `value(key, 0)` is contained on an object whose member is a number, a boolean or missing. -/
theorem contained_valueInt_iff (j : Json) (key : Str) :
    Contained (j.valueInt key) ↔ j.isObject = true ∧
      ∀ v, j.find key = some v → v.isNumber = true ∨ v.isBoolean = true := by
  cases j with
  | obj members =>
    have hvalue : (obj members).valueInt key = ((lookup members key).getD (.int 0)).getInt := rfl
    rw [hvalue, contained_getInt_iff]
    have hobject : (obj members).isObject = true := rfl
    unfold find
    cases hfind : lookup members key with
    | none => simp [hfind, isNumber, hobject]
    | some v => simp [hfind, hobject]
  | null | bool _ | int _ | uint _ | float _ | str _ | arr _ =>
    simp [valueInt, valueOr, isObject, thrown, err]

end Json

namespace ResourceProvider

/-! ## The response -/

theorem contained_decode {α : Type} {d : Decoder α} (h : FailsIn Misread d) (data : Bytes) :
    Contained (decode d data) :=
  Contained.bind (contained_run h data) (fun _ _ => contained_ok _)

theorem transfer_misreads : FailsIn Misread Transfer.fromABI :=
  AbiTraits.name_misreads.bind (fun _ => AbiTraits.name_misreads.bind (fun _ =>
    AbiTraits.asset_misreads.bind (fun _ => readString_misreads.map _)))

theorem buyRAMBytes_misreads : FailsIn Misread BuyRAMBytes.fromABI :=
  AbiTraits.name_misreads.bind (fun _ => AbiTraits.name_misreads.bind (fun _ =>
    (AbiTraits.readInt_map_misreads 4 _).map _))

/-- The transaction of a response is checked at every step. -/
theorem contained_getModifiedTransaction (response : Json) :
    Contained (getModifiedTransaction response) := by
  unfold getModifiedTransaction
  split
  · split
    · simp
    · split
      · simp
      · split
        · exact AbiTraits.transaction_contained _
        · simp
  · simp

/-- A response with a transaction is an object, and its transaction is readable. -/
theorem getModifiedTransaction_ok {response : Json} {tx : Transaction}
    (h : getModifiedTransaction response = .ok tx) :
    response.isObject = true ∧ ∃ variant value, responseRequest response = some (variant, value) ∧
      SigningRequest.TransactionReadable value := by
  unfold getModifiedTransaction at h
  constructor
  · cases response with
    | obj members => rfl
    | _ => cases h
  · split at h
    · rename_i variant value hrequest
      split at h
      · cases h
      · split at h
        · cases h
        · split at h
          · exact ⟨_, value, hrequest, SigningRequest.transactionReadable_of_fromJSON h⟩
          · cases h
    · cases h

theorem contained_refusal (actor : Name) (addedActions : List Action) :
    Contained (refusal actor addedActions) := by
  induction addedActions with
  | nil => exact contained_ok _
  | cons action rest ih =>
    unfold refusal
    split
    · exact contained_ok _
    · split
      · refine Contained.bind (contained_decode buyRAMBytes_misreads _) (fun decoded _ => ?_)
        split
        · exact ih
        · exact contained_ok _
      · exact ih

theorem contained_transferFees (addedActions : List Action) :
    Contained (transferFees addedActions) :=
  contained_mapM (fun _ _ =>
    Contained.bind (contained_decode transfer_misreads _) (fun _ _ => contained_ok _))

theorem contained_setFee (data : Json) (code : Int32) (request : SigningRequest) :
    Contained (setFee data code request) := by
  unfold setFee
  split
  · split
    · refine Contained.bind (contained_asset _) (fun fee _ => ?_)
      exact Contained.bind (AbiTraits.asset_contained.toABI fee) (fun _ _ => contained_ok _)
    · exact contained_ok _
  · exact contained_ok _

/-- What `code` has to be: a number, a boolean, or missing. -/
def CodeReadable (response : Json) : Prop :=
  ∀ v, response.find "code" = some v → v.isNumber = true ∨ v.isBoolean = true

/-- What the signatures have to be: texts, up to the first that is no signature. -/
def SignaturesReadable (p : Platform) (response : Json) : Prop :=
  ∀ front sig rest, ((response.jsonAt "data").jsonAt "signatures").elements = front ++ sig :: rest →
    (∀ b ∈ front, ∃ text signature, b = .str text ∧
      Signature.ofString p.toCrypto text = .ok signature) →
    sig.isString = true

/-- What the costs have to be: missing, or an object whose members are texts or missing. -/
def CostsReadable (response : Json) : Prop :=
  ∀ j, (response.jsonAt "data").find "costs" = some j →
    j.isObject = true ∧ j.TextAt "cpu" ∧ j.TextAt "net" ∧ j.TextAt "ram"

theorem contained_validateResponseData_iff {response : Json} (hobject : response.isObject = true) :
    Contained (validateResponseData response) ↔ CodeReadable response := by
  unfold validateResponseData
  rw [if_pos hobject]
  simp only
  rw [contained_bind_iff, Json.contained_valueInt_iff]
  constructor
  · rintro ⟨⟨-, hcode⟩, -⟩
    exact hcode
  · intro hcode
    refine ⟨⟨hobject, hcode⟩, fun code _ => ?_⟩
    split
    · simp
    · split
      · exact contained_ok _
      · simp

theorem contained_readSignatures_iff (p : Platform) (response : Json) :
    Contained (readSignatures p response) ↔ SignaturesReadable p response := by
  have hstep (sig : Json) : Contained (do
      let text ← sig.getStr
      Signature.ofString p.toCrypto text) ↔ sig.isString = true := by
    rw [contained_bind_iff, Json.contained_getStr_iff]
    exact ⟨And.left, fun h => ⟨h, fun text _ => contained_signature p.toCrypto text⟩⟩
  have hread (b : Json) : (∃ signature, (do
      let text ← b.getStr
      Signature.ofString p.toCrypto text) = .ok signature) ↔
        ∃ text signature, b = .str text ∧ Signature.ofString p.toCrypto text = .ok signature := by
    cases b with
    | str text =>
      constructor
      · rintro ⟨signature, h⟩
        exact ⟨text, signature, rfl, h⟩
      · rintro ⟨text', signature, heq, h⟩
        cases heq
        exact ⟨signature, h⟩
    | _ =>
      constructor
      · rintro ⟨signature, h⟩
        cases h
      · rintro ⟨text, signature, h, -⟩
        cases h
  unfold readSignatures SignaturesReadable
  rw [contained_mapM_iff]
  simp only [hstep, hread]

theorem contained_costs_iff (j : Json) (key : Str) :
    Contained (costs j key) ↔ j.isObject = true ∧ j.TextAt key := by
  unfold costs
  rw [contained_bind_iff, Json.contained_valueStr_iff]
  refine ⟨And.left, fun h => ⟨h, fun text _ => ?_⟩⟩
  split
  · exact contained_ok _
  · exact contained_ok _

/-- A cost that can be read is read. -/
theorem exists_costs {j : Json} (hobject : j.isObject = true) {key : Str} (h : j.TextAt key) :
    ∃ positive, costs j key = .ok positive := by
  obtain ⟨text, htext⟩ := Json.exists_valueStr hobject h "0.0000 EOS"
  unfold costs
  rw [htext, ok_bind]
  split
  · exact ⟨_, rfl⟩
  · exact ⟨_, rfl⟩

theorem contained_resourceTypes_iff (response : Json) :
    Contained (resourceTypes response) ↔ CostsReadable response := by
  unfold resourceTypes CostsReadable
  cases hcosts : (response.jsonAt "data").find "costs" with
  | none => simp
  | some j =>
    constructor
    · rintro h _ ⟨⟩
      obtain ⟨hcpu, h⟩ := contained_bind_iff.mp h
      obtain ⟨hobject, hcpu⟩ := (contained_costs_iff j _).mp hcpu
      obtain ⟨cpu, hread⟩ := exists_costs hobject hcpu
      obtain ⟨hnet, h⟩ := contained_bind_iff.mp (h cpu hread)
      obtain ⟨-, hnet⟩ := (contained_costs_iff j _).mp hnet
      obtain ⟨net, hread⟩ := exists_costs hobject hnet
      obtain ⟨hram, -⟩ := contained_bind_iff.mp (h net hread)
      exact ⟨hobject, hcpu, hnet, ((contained_costs_iff j _).mp hram).2⟩
    · intro h
      obtain ⟨hobject, hcpu, hnet, hram⟩ := h j rfl
      refine Contained.bind ((contained_costs_iff j _).mpr ⟨hobject, hcpu⟩) (fun _ _ => ?_)
      refine Contained.bind ((contained_costs_iff j _).mpr ⟨hobject, hnet⟩) (fun _ _ => ?_)
      exact Contained.bind ((contained_costs_iff j _).mpr ⟨hobject, hram⟩) (fun _ _ => contained_ok _)

/-! ## The plugin -/

variable {W : Type} (plugin : ResourceProvider W)

/-- What is not the plugin's reports its errors: the ABIs, the chain, the market's prices and
the status line. -/
structure Outside : Prop where
  abis : ∀ w account, Contained (plugin.context.abiCache w account)
  info : ∀ w, ContainedFrom plugin.context.getInfo w
  market : ∀ w, ContainedFrom plugin.ramState w
  prices : ∀ w ram u, exec plugin.ramState w = (.ok ram, u) → ∀ bytes, Contained (ram.price_per bytes)
  status : ∀ ui, plugin.context.ui = some ui → ∀ text w, ContainedFrom (ui.status text) w

variable {plugin}

/-- The ABIs are provided without exceptions. -/
theorem Outside.provides (h : plugin.Outside) (w : W) :
    ProvidesContained (some (plugin.context.abiCache w)) := by
  rintro getAbi ⟨⟩ account
  exact h.abis w account

theorem containedFrom_tell (h : plugin.Outside) (reason : Refusal) (w : W) :
    ContainedFrom (plugin.tell reason) w := by
  unfold tell
  split
  · rename_i ui hui
    exact h.status ui hui _ w
  · exact containedFrom_pure _ w

/-- A resolved transaction is readable as json. -/
theorem transactionReadable_toJSON (tx : ResolvedTransaction) :
    SigningRequest.TransactionReadable tx.toJSON where
  isObject := rfl
  entries := by
    intro entry hentry
    have hfind : tx.toJSON.find "actions" = some (.arr (tx.actions.map ResolvedAction.toJSON)) := rfl
    rw [hfind] at hentry
    obtain ⟨action, -, rfl⟩ := List.mem_map.mp hentry
    refine Or.inr ⟨rfl, ?_, ?_⟩
    · rintro v ⟨⟩
      rfl
    · rintro v ⟨⟩
      rfl

/-- The request as a transaction: its arguments are contained, and hold a transaction only. -/
theorem modifiedArgs_readable (h : plugin.Outside) (request : SigningRequest) (w : W) :
    ContainedFrom (plugin.modifiedArgs request) w ∧
      ∀ args u, exec (plugin.modifiedArgs request) w = (.ok args, u) →
        ∃ tx, (args.identity = none ∧ args.action = none ∧ args.actions = none ∧
          args.transaction = some tx) ∧ SigningRequest.TransactionReadable tx ∧
          args.anyChain = false := by
  unfold modifiedArgs
  constructor
  · refine ContainedFrom.look_bind ?_
    refine ContainedFrom.outcome_bind (request.contained_fetchAbis (h.provides w))
      (fun abis _ => ?_)
    -- A request that has no header yet gets one from the chain; the other is resolved as it is.
    split
    · refine ContainedFrom.bind (h.info w) (fun info u _ => ?_)
      refine ContainedFrom.look_bind ?_
      refine ContainedFrom.outcome_bind (request.contained_resolveTransaction _ _ _ _ _)
        (fun resolved _ => ?_)
      refine ContainedFrom.outcome_bind (contained_variantChainId _) (fun chainId _ => ?_)
      refine ContainedFrom.outcome_bind ?_ (fun ids _ => containedFrom_pure _ u)
      split
      · exact request.contained_getChainIds
      · exact contained_ok _
    · refine ContainedFrom.look_bind ?_
      exact ContainedFrom.outcome_bind (request.contained_resolveTransaction _ _ _ _ _)
        (fun resolved _ => containedFrom_pure _ w)
  · intro args u hexec
    rw [exec_look_bind] at hexec
    obtain ⟨abis, -, hexec⟩ := exec_outcome_bind_ok.mp hexec
    split at hexec
    · obtain ⟨info, u', -, hexec⟩ := exec_bind_ok.mp hexec
      rw [exec_look_bind] at hexec
      obtain ⟨resolved, -, hexec⟩ := exec_outcome_bind_ok.mp hexec
      obtain ⟨chainId, -, hexec⟩ := exec_outcome_bind_ok.mp hexec
      obtain ⟨ids, -, hexec⟩ := exec_outcome_bind_ok.mp hexec
      cases hexec
      exact ⟨resolved.toJSON, ⟨rfl, rfl, rfl, rfl⟩, transactionReadable_toJSON resolved, rfl⟩
    · rw [exec_look_bind] at hexec
      obtain ⟨resolved, -, hexec⟩ := exec_outcome_bind_ok.mp hexec
      cases hexec
      exact ⟨resolved.toJSON, ⟨rfl, rfl, rfl, rfl⟩, transactionReadable_toJSON resolved, rfl⟩

theorem containedFrom_modifiedRequest (h : plugin.Outside) (request : SigningRequest) (w : W) :
    ContainedFrom (plugin.modifiedRequest request) w := by
  obtain ⟨hargs, hreadable⟩ := modifiedArgs_readable h request w
  refine ContainedFrom.bind hargs (fun args u hexec => ?_)
  obtain ⟨tx, htransaction, htx, hchain⟩ := hreadable args u hexec
  refine ContainedFrom.look_bind ?_
  exact SigningRequest.contained_create plugin.p htransaction htx hchain (h.provides u) rfl

theorem contained_validateRequest (request : SigningRequest) :
    Contained (plugin.validateRequest request) := by
  refine Contained.bind request.contained_getRawActions (fun actions _ => ?_)
  split
  · split
    · exact contained_ok _
    · simp
  · simp

theorem containedFrom_response (endpoint : Str) (modifiedRequest : SigningRequest) (w : W) :
    ContainedFrom (plugin.response endpoint modifiedRequest) w := by
  unfold response
  split
  · exact containedFrom_pure _ w
  · -- an error of the fetch provider is not passed on
    unfold ContainedFrom
    rw [exec_attempt_bind]
    split
    · exact contained_ok _
    · exact contained_ok _

theorem containedFrom_allFees (h : plugin.Outside) (addedActions : List Action) (w : W) :
    ContainedFrom (plugin.allFees addedActions) w := by
  refine ContainedFrom.outcome_bind (contained_transferFees addedActions) (fun transfers _ => ?_)
  split
  · exact containedFrom_pure _ w
  · refine ContainedFrom.bind (h.market w) (fun ram u hram => ?_)
    refine ContainedFrom.outcome_bind ?_ (fun prices _ => containedFrom_pure _ u)
    exact contained_mapM (fun action _ =>
      Contained.bind (contained_decode buyRAMBytes_misreads _) (fun _ _ => h.prices w ram u hram _))

theorem containedFrom_vet (h : plugin.Outside) (modifiedRequest : SigningRequest)
    (responseJson : Json) (w : W) :
    ContainedFrom (plugin.vet modifiedRequest responseJson) w := by
  unfold vet
  refine ContainedFrom.outcome_bind (contained_getModifiedTransaction responseJson)
    (fun modifiedTransaction _ => ?_)
  refine ContainedFrom.outcome_bind modifiedRequest.contained_getRawTransaction
    (fun rawTransaction _ => ?_)
  split
  · refine ContainedFrom.outcome_bind (contained_refusal _ _) (fun refused _ => ?_)
    cases refused with
    | some reason =>
      exact ContainedFrom.bind (containedFrom_tell h reason w) (fun _ u _ => containedFrom_pure _ u)
    | none =>
      refine ContainedFrom.bind (containedFrom_allFees h _ w) (fun fees u _ => ?_)
      simp only
      split
      · split
        · exact ContainedFrom.bind (containedFrom_tell h _ u) (fun _ u _ => containedFrom_pure _ u)
        · exact containedFrom_pure _ u
      · exact containedFrom_pure _ u
  · exact ContainedFrom.bind (containedFrom_tell h _ w) (fun _ u _ => containedFrom_pure _ u)

/-- **Up to the check of the fee** no exception escapes, whatever the response. -/
theorem containedFrom_review (h : plugin.Outside) (request : SigningRequest) (w : W) :
    ContainedFrom (plugin.review request) w := by
  unfold review
  split
  · exact containedFrom_pure _ w
  · refine ContainedFrom.bind (containedFrom_modifiedRequest h request w)
      (fun modifiedRequest u _ => ?_)
    refine ContainedFrom.outcome_bind (contained_validateRequest modifiedRequest) (fun _ _ => ?_)
    refine ContainedFrom.bind (containedFrom_response _ modifiedRequest u) (fun response v _ => ?_)
    cases response with
    | none => exact containedFrom_pure _ v
    | some answer =>
      obtain ⟨status, responseJson⟩ := answer
      simp only
      split
      · exact containedFrom_pure _ v
      · split
        · exact ContainedFrom.bind (containedFrom_tell h _ v) (fun _ u _ => containedFrom_pure _ u)
        · exact ContainedFrom.bind (containedFrom_vet h modifiedRequest responseJson v)
            (fun _ u _ => containedFrom_pure _ u)

/-- An offer that is taken has a transaction. -/
theorem review_some {request : SigningRequest} {responseJson : Json} {addedFees : Asset} {w u : W}
    (h : exec (plugin.review request) w = (.ok (some (responseJson, addedFees)), u)) :
    ∃ tx, getModifiedTransaction responseJson = .ok tx := by
  unfold review at h
  split at h
  · cases h
  · obtain ⟨modifiedRequest, u', -, h⟩ := exec_bind_ok.mp h
    obtain ⟨_, -, h⟩ := exec_outcome_bind_ok.mp h
    obtain ⟨response, v, -, h⟩ := exec_bind_ok.mp h
    cases response with
    | none => cases h
    | some answer =>
      obtain ⟨status, responseJson'⟩ := answer
      simp only at h
      split at h
      · cases h
      · split at h
        · obtain ⟨_, v', -, h⟩ := exec_bind_ok.mp h
          cases h
        · obtain ⟨fee, v', hvet, h⟩ := exec_bind_ok.mp h
          cases fee with
          | none => cases h
          | some fee =>
            cases h
            obtain ⟨tx, htx, -⟩ := exec_outcome_bind_ok.mp hvet
            exact ⟨tx, htx⟩

/-- The request of a response that has a transaction is created without exceptions. -/
theorem containedFrom_createRequest (h : plugin.Outside) {responseJson : Json} {tx : Transaction}
    (htx : getModifiedTransaction responseJson = .ok tx) (w : W) :
    ContainedFrom (plugin.createRequest responseJson) w := by
  obtain ⟨-, variant, value, hrequest, hreadable⟩ := getModifiedTransaction_ok htx
  unfold createRequest
  rw [hrequest]
  refine ContainedFrom.bind ?_ (fun request u _ => ?_)
  · refine ContainedFrom.look_bind ?_
    refine ContainedFrom.outcome_bind ?_ (fun created _ => containedFrom_pure _ w)
    exact SigningRequest.contained_create plugin.p ⟨rfl, rfl, rfl, rfl⟩ hreadable rfl (h.provides w)
      rfl
  · refine ContainedFrom.outcome_bind ?_ (fun code _ => ?_)
    · split
      · rename_i hinteger
        refine (Json.contained_getInt_iff _).mpr (Or.inl ?_)
        cases hcode : responseJson.jsonAt "code" <;> simp_all [Json.isNumberInteger, Json.isNumber]
      · exact contained_ok _
    · refine ContainedFrom.outcome_bind (contained_setFee _ _ _) (fun request' _ => ?_)
      split
      · exact containedFrom_pure _ u
      · exact containedFrom_pure _ u

variable (plugin)

/-- What a response that is used has to be, as far as it is read: its `code` at once, its
signatures once the rest is in order, and its costs if the user is asked about a fee. -/
structure ResponseReadable (responseJson : Json) (addedFees : Asset) (w : W) : Prop where
  code : CodeReadable responseJson
  signatures : validateResponseData responseJson = .ok () → ∀ modified u,
    exec (plugin.createRequest responseJson) w = (.ok modified, u) →
    SignaturesReadable plugin.p responseJson ∧
      ((∃ signatures, readSignatures plugin.p responseJson = .ok signatures) →
        plugin.context.ui.isSome = true → isPositive addedFees = true → CostsReadable responseJson)

variable {plugin}

/-- **After the check of the fee**, an exception escapes exactly where a field of another kind
is read. -/
theorem containedFrom_conclude_iff (h : plugin.Outside) (request : SigningRequest)
    {responseJson : Json} {tx : Transaction} (htx : getModifiedTransaction responseJson = .ok tx)
    (addedFees : Asset) (w : W) :
    ContainedFrom (plugin.conclude request responseJson addedFees) w ↔
      plugin.ResponseReadable responseJson addedFees w := by
  obtain ⟨hobject, -⟩ := getModifiedTransaction_ok htx
  unfold conclude
  rw [containedFrom_outcome_bind_iff, contained_validateResponseData_iff hobject]
  constructor
  · -- In the order of the source: the code, the request, the signatures, the costs shown.
    rintro ⟨hcode, hrest⟩
    refine ⟨hcode, fun hvalid modified u hcreate => ?_⟩
    obtain ⟨-, hrest⟩ := containedFrom_bind_iff.mp (hrest () hvalid)
    obtain ⟨hsignatures, hrest⟩ := containedFrom_outcome_bind_iff.mp (hrest modified u hcreate)
    refine ⟨(contained_readSignatures_iff _ _).mp hsignatures, ?_⟩
    rintro ⟨signatures, hread⟩ hui hpositive
    obtain ⟨ui, hui⟩ := Option.isSome_iff_exists.mp hui
    have hrest := hrest signatures hread
    rw [hui, hpositive] at hrest
    obtain ⟨hcosts, -⟩ := containedFrom_outcome_bind_iff.mp hrest
    exact (contained_resourceTypes_iff _).mp hcosts
  · rintro ⟨hcode, hrest⟩
    refine ⟨hcode, fun _ hvalid => ?_⟩
    refine ContainedFrom.bind (containedFrom_createRequest h htx w) (fun modified u hcreate => ?_)
    obtain ⟨hsignatures, hrest⟩ := hrest hvalid modified u hcreate
    refine ContainedFrom.outcome_bind ((contained_readSignatures_iff _ _).mpr hsignatures)
      (fun signatures hread => ?_)
    split
    · rename_i ui hui hpositive
      refine ContainedFrom.outcome_bind ((contained_resourceTypes_iff _).mpr
        (hrest ⟨signatures, hread⟩ (by rw [hui]; rfl) hpositive)) (fun resources _ => ?_)
      unfold ContainedFrom
      rw [exec_attempt_bind]
      split
      · exact contained_ok _
      · split
        · rename_i hcanceled
          refine (contained_error_iff _).mpr ?_
          rw [hcanceled]
          simp
        · exact contained_ok _
    · exact containedFrom_pure _ u

variable (plugin)

/-- What the offer for a request has to be, if it is one that can be taken. -/
def OfferReadable (request : SigningRequest) (w : W) : Prop :=
  ∀ responseJson addedFees u,
    exec (plugin.review request) w = (.ok (some (responseJson, addedFees)), u) →
    plugin.ResponseReadable responseJson addedFees u

variable {plugin}

theorem containedFrom_request_iff (h : plugin.Outside) (request : SigningRequest) (w : W) :
    ContainedFrom (plugin.request request) w ↔ plugin.OfferReadable request w := by
  unfold ResourceProvider.request OfferReadable
  rw [containedFrom_bind_iff]
  constructor
  · rintro ⟨-, hrest⟩ responseJson addedFees u hreview
    obtain ⟨tx, htx⟩ := review_some hreview
    exact (containedFrom_conclude_iff h request htx addedFees u).mp (hrest _ u hreview)
  · intro hreadable
    refine ⟨containedFrom_review h request w, fun offer u hreview => ?_⟩
    cases offer with
    | none => exact containedFrom_pure _ u
    | some answer =>
      obtain ⟨responseJson, addedFees⟩ := answer
      obtain ⟨tx, htx⟩ := review_some hreview
      exact (containedFrom_conclude_iff h request htx addedFees u).mpr
        (hreadable responseJson addedFees u hreview)

end ResourceProvider

/-- **Json from elsewhere**: exactly when no exception escapes from the request of a resource
provider, and from the payload of a wallet. -/
theorem remotePayloads_contained_iff {W : Type} {plugin : ResourceProvider W}
    (houtside : plugin.Outside) (request : SigningRequest) (w : W) {z : Zlib}
    (hz : InflatesContained z) (p : Platform) (now : ℤ) {abiProvider : Option AbiProvider}
    (hprovider : ProvidesContained abiProvider) (payload : Json) :
    (ContainedFrom (plugin.request request) w ↔ plugin.OfferReadable request w) ∧
      (Contained (ResolvedSigningRequest.fromPayload z p now abiProvider payload) ↔
        ResolvedSigningRequest.PayloadReadable z p abiProvider payload) :=
  ⟨ResourceProvider.containedFrom_request_iff houtside request w,
    ResolvedSigningRequest.contained_fromPayload_iff hz p now hprovider payload⟩

/-! ## Kinds that are not looked at -/

namespace ResourceProvider

/-- An ABI with an action without data. -/
def noopABI : ABI where
  structs := [{ name := "noop", base := [], fields := [] }]
  actions := [{ name := .ofString "noop", type := "noop", ricardian_contract := [] }]

/-- A transaction of alice's, with its TaPoS values. -/
def noopTransaction : Transaction where
  expiration := ⟨1⟩
  ref_block_num := 1
  ref_block_prefix := 1
  actions := [{
    account := .ofString "alice"
    name := .ofString "noop"
    authorization := [{ actor := .ofString "alice", permission := .ofString "active" }] }]

/-- The request for it, on the EOS chain. -/
def noopRequest : SigningRequest where
  data := .v2 { chain_id := .alias 1, req := .transaction noopTransaction }

/-- A response with the transaction as it was, and with the members `more`. -/
def noopResponse (signatures : List Json) (more : List (Str × Json)) : Json :=
  .obj ((lit "data", .obj [
    (lit "request", .arr [.str "transaction", AbiTraits.transaction.toJSON noopTransaction]),
    (lit "signatures", .arr signatures)]) :: more)

/-- The plugin on the EOS chain, for alice, with a service that answers with a response. -/
def answering (response : Json) : ResourceProvider Unit where
  p := default
  zlib := { deflateRaw := .ok, inflateRaw := .ok }
  parse := fun _ => some response
  context := {
    abiCache := fun _ _ => .ok noopABI
    chain := { id := AutoCorrect.eosId }
    getInfo := outcome (err .transport "")
    now := fun _ => 0
    permissionLevel := { actor := .ofString "alice", permission := .ofString "active" }
    ui := none }
  fetch := some (fun _ => pure { status := 200, body := [] })
  ramState := outcome (err .notFound "No rammarket state found")

theorem outside_answering (response : Json) : (answering response).Outside where
  abis := fun _ _ => contained_ok _
  info := fun _ => (contained_err_iff _ _ _ _).mpr (by decide)
  market := fun _ => (contained_err_iff _ _ _ _).mpr (by decide)
  prices := by
    rintro w ram u ⟨⟩
  status := by
    rintro ui ⟨⟩

end ResourceProvider

open ResourceProvider in
/-- A signature that is a number and a code that is a text let an exception out of the resource
provider's response, and a request that is a number out of a wallet's payload. -/
theorem remotePayloads_escape :
    ¬ ContainedFrom ((answering (noopResponse [.uint 5] [])).request noopRequest) () ∧
    ¬ ContainedFrom ((answering (noopResponse [.str ""] [(lit "code", .str "402")])).request
      noopRequest) () ∧
    ¬ Contained (ResolvedSigningRequest.fromPayload { deflateRaw := .ok, inflateRaw := .ok } default
      0 none (.obj [(lit "req", .uint 5)])) := by
  refine ⟨?_, ?_, ?_⟩
  · decide +kernel
  · decide +kernel
  · decide +kernel

open ResourceProvider in
/-- A text that is no signature is an error, and so is an empty payload. -/
theorem remotePayloads_readable :
    (answering (noopResponse [.str ""] [])).OfferReadable noopRequest () ∧
    ResolvedSigningRequest.PayloadReadable { deflateRaw := .ok, inflateRaw := .ok } default none
      (.obj []) := by
  have hz : InflatesContained { deflateRaw := .ok, inflateRaw := .ok } := fun _ => contained_ok _
  have hprovider : ProvidesContained none := fun getAbi h => absurd h (by simp)
  obtain ⟨hrequest, hpayload⟩ := remotePayloads_contained_iff
    (outside_answering (noopResponse [.str ""] [])) noopRequest () hz default 0 hprovider (.obj [])
  refine ⟨hrequest.mp ?_, hpayload.mp ?_⟩
  · decide +kernel
  · decide +kernel

end Dwarfkit
