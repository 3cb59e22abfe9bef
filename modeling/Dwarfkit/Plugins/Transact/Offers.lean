/-
# What a resource provider gets away with

An offer that is taken has passed every check of `TransactPluginResourceProvider`: it
has the original actions, adds nothing but what is allowed, and costs no more than
`maxFee`.  The checks look for each action somewhere in the other list and add the
fees up in 64 bits, so that they say less than they seem to.

* `request_taken` : what a run that returns another request has checked;
* `getRawActions_createRequest` : the request created of a response has its actions;
* `fees_bounded_iff` : when the fees are within `maxFee`;
* `actions_preserved_iff` : when the original actions are preserved.
-/
import Dwarfkit.Antelope.Serializer.JsonForms
import Dwarfkit.Plugins.Transact.RemotePayloads

namespace Dwarfkit

open Effects

/-- The members of `l'` that are in `l` are `l`, exactly when `l'` has these in the order of
`l` and each as often. -/
theorem filter_mem_eq_iff {α : Type} [DecidableEq α] {l l' : List α} :
    l'.filter (· ∈ l) = l ↔ l.Sublist l' ∧ ∀ a ∈ l, l'.count a = l.count a := by
  constructor
  · intro h
    constructor
    · rw [← h]
      exact List.filter_sublist
    · intro a ha
      have hcount : (l'.filter (· ∈ l)).count a = l'.count a :=
        List.count_filter (by simpa using ha)
      rw [← hcount, h]
  · rintro ⟨hsublist, hcount⟩
    have hself : l.filter (· ∈ l) = l := List.filter_eq_self.mpr (by simp)
    have hsub : l.Sublist (l'.filter (· ∈ l)) := by
      have := hsublist.filter (· ∈ l)
      rwa [hself] at this
    have hperm : l.Perm (l'.filter (· ∈ l)) := by
      rw [List.perm_iff_count]
      intro a
      by_cases ha : a ∈ l
      · rw [List.count_filter (by simpa using ha), hcount a ha]
      · have hnot : a ∉ l'.filter (· ∈ l) := by
          simp [ha]
        rw [List.count_eq_zero.mpr ha, List.count_eq_zero.mpr hnot]
    exact (hsub.eq_of_length hperm.length_eq).symm

namespace ResourceProvider

/-! ## Actions -/

theorem zip_levels_iff {l l' : List PermissionLevel} (h : l.length = l'.length) :
    (l.zip l').all (fun (a, b) => a.actor = b.actor && a.permission = b.permission) = true ↔
      l = l' := by
  induction l generalizing l' with
  | nil =>
    cases l' with
    | nil => simp
    | cons b l' => cases h
  | cons a l ih =>
    cases l' with
    | nil => cases h
    | cons b l' =>
      have hlevel : a = b ↔ a.actor = b.actor ∧ a.permission = b.permission := by
        cases a
        cases b
        simp
      rw [List.zip_cons_cons, List.all_cons, Bool.and_eq_true, ih (Nat.succ.inj h),
        List.cons.injEq, hlevel]
      simp

/-- Actions are the same if they are equal, and somebody authorizes them. -/
theorem sameActionAs_iff {original modified : Action} :
    sameActionAs original modified = true ↔
      original.authorization ≠ [] ∧ original = modified := by
  obtain ⟨account, name, authorization, data⟩ := original
  obtain ⟨account', name', authorization', data'⟩ := modified
  unfold sameActionAs
  by_cases hlength : authorization.length = authorization'.length
  · simp only [Bool.and_eq_true, decide_eq_true_eq, zip_levels_iff hlength, Action.mk.injEq]
    simp [hlength]
    tauto
  · have hne : authorization ≠ authorization' := fun h => hlength (by rw [h])
    simp [hlength, hne]

/-- What the allow-list admits: noops, transfers, and RAM purchases for the actor. -/
def Admitted (actor : Name) (action : Action) : Prop :=
  isNoop action = true ∨ isTransfer action = true ∨ isBuyRAMBytes action = true ∧
    ∃ decoded, decode BuyRAMBytes.fromABI action.data = .ok decoded ∧ decoded.receiver = actor

/-- Added actions that nothing is said against are admitted. -/
theorem admitted_of_refusal {actor : Name} {addedActions : List Action}
    (h : refusal actor addedActions = .ok none) : ∀ action ∈ addedActions, Admitted actor action := by
  induction addedActions with
  | nil => simp
  | cons action rest ih =>
    unfold refusal at h
    by_cases hunexpected : (!isNoop action && !isTransfer action && !isBuyRAMBytes action) = true
    · rw [if_pos hunexpected] at h
      cases h
    · rw [if_neg hunexpected] at h
      have hkind : isNoop action = true ∨ isTransfer action = true ∨ isBuyRAMBytes action = true := by
        simp only [Bool.and_eq_true, Bool.not_eq_true'] at hunexpected
        grind
      by_cases hram : isBuyRAMBytes action = true
      · rw [if_pos hram] at h
        obtain ⟨decoded, hdecoded, h⟩ := bind_eq_ok.mp h
        by_cases hreceiver : decoded.receiver = actor
        · rw [if_pos hreceiver] at h
          exact List.forall_mem_cons.mpr
            ⟨.inr (.inr ⟨hram, decoded, hdecoded, hreceiver⟩), ih h⟩
        · rw [if_neg hreceiver] at h
          cases h
      · rw [if_neg hram] at h
        refine List.forall_mem_cons.mpr ⟨?_, ih h⟩
        rcases hkind with hnoop | htransfer | hram'
        · exact .inl hnoop
        · exact .inr (.inl htransfer)
        · exact absurd hram' hram

/-! ## Offers -/

/-- An offer: the transaction the service was asked about, its response, the transaction
in it, and what the actions it adds cost. -/
structure Offer where
  asked : Transaction
  response : Json
  answered : Transaction
  fees : List Asset

/-- `addedActions`. -/
def Offer.added (offer : Offer) : List Action := getNewActions offer.asked offer.answered

/-- The actions of the answer that count as original. -/
def Offer.kept (offer : Offer) : List Action :=
  offer.answered.actions.filter (fun modifiedAction =>
    offer.asked.actions.any (fun originalAction => sameActionAs originalAction modifiedAction))

variable {W : Type} (plugin : ResourceProvider W)

/-- The offer for a request, before it is looked at. -/
def offer (request : SigningRequest) : Effect W Error (Option Offer) := do
  let modifiedRequest ← plugin.modifiedRequest request
  let asked ← outcome modifiedRequest.getRawTransaction
  let response ← plugin.response plugin.getEndpoint modifiedRequest
  match response with
  | none => return none
  | some (_, response) => do
    let answered ← outcome (getModifiedTransaction response)
    let fees ← plugin.allFees (getNewActions asked answered)
    return some { asked, response, answered, fees }

/-- The request's run from `w` has taken an offer: it has passed these checks, and the
request created of it is returned. -/
structure Takes (request : SigningRequest) (w : W) (offer : Offer) (taken : SigningRequest) :
    Prop where
  offered : ∃ u v, exec (plugin.offer request) w = (.ok (some offer), u) ∧
    exec (plugin.createRequest offer.response) u = (.ok taken, v)
  answers : getModifiedTransaction offer.response = .ok offer.answered
  intact : hasOriginalActions offer.asked offer.answered = true
  allowed : refusal plugin.context.permissionLevel.actor offer.added = .ok none
  affordable : ∀ maxFee, plugin.maxFee = some maxFee →
    (sumFees offer.fees).units ≤ maxFee.units

variable {plugin}

/-- What `vet` has checked when it finds an offer good. -/
theorem vet_some {modifiedRequest : SigningRequest} {responseJson : Json} {addedFees : Asset}
    {w u : W} (h : exec (plugin.vet modifiedRequest responseJson) w = (.ok (some addedFees), u)) :
    ∃ offer : Offer, offer.response = responseJson ∧
      modifiedRequest.getRawTransaction = .ok offer.asked ∧
      getModifiedTransaction responseJson = .ok offer.answered ∧
      hasOriginalActions offer.asked offer.answered = true ∧
      refusal plugin.context.permissionLevel.actor offer.added = .ok none ∧
      exec (plugin.allFees offer.added) w = (.ok offer.fees, u) ∧
      ∀ maxFee, plugin.maxFee = some maxFee → (sumFees offer.fees).units ≤ maxFee.units := by
  unfold vet at h
  obtain ⟨answered, hanswered, h⟩ := exec_outcome_bind_ok.mp h
  obtain ⟨asked, hasked, h⟩ := exec_outcome_bind_ok.mp h
  by_cases hintact : hasOriginalActions asked answered = true
  · rw [if_pos hintact] at h
    obtain ⟨refused, hrefused, h⟩ := exec_outcome_bind_ok.mp h
    cases refused with
    | some reason =>
      obtain ⟨_, _, -, h⟩ := exec_bind_ok.mp h
      cases h
    | none =>
      obtain ⟨fees, v, hfees, h⟩ := exec_bind_ok.mp h
      -- Without a limit every fee is taken.
      cases hmax : plugin.maxFee with
      | none =>
        rw [hmax] at h
        cases h
        refine ⟨⟨asked, responseJson, answered, fees⟩, rfl, hasked, hanswered, hintact, hrefused,
          hfees, ?_⟩
        rintro maxFee ⟨⟩
      | some maxFee =>
        rw [hmax] at h
        simp only at h
        by_cases hover : maxFee.units < (sumFees fees).units
        · rw [if_pos hover] at h
          obtain ⟨_, _, -, h⟩ := exec_bind_ok.mp h
          cases h
        · rw [if_neg hover] at h
          cases h
          refine ⟨⟨asked, responseJson, answered, fees⟩, rfl, hasked, hanswered, hintact, hrefused,
            hfees, ?_⟩
          rintro _ ⟨⟩
          exact Int64.not_lt.mp hover
  · rw [if_neg hintact] at h
    obtain ⟨_, _, -, h⟩ := exec_bind_ok.mp h
    cases h

/-- What a review has checked when it ends with an offer. -/
theorem review_some_offer {request : SigningRequest} {responseJson : Json} {addedFees : Asset}
    {w u : W}
    (h : exec (plugin.review request) w = (.ok (some (responseJson, addedFees)), u)) :
    ∃ offer : Offer, exec (plugin.offer request) w = (.ok (some offer), u) ∧
      offer.response = responseJson ∧ getModifiedTransaction responseJson = .ok offer.answered ∧
      hasOriginalActions offer.asked offer.answered = true ∧
      refusal plugin.context.permissionLevel.actor offer.added = .ok none ∧
      ∀ maxFee, plugin.maxFee = some maxFee → (sumFees offer.fees).units ≤ maxFee.units := by
  unfold review at h
  split at h
  · cases h
  · obtain ⟨modifiedRequest, v, hmodified, h⟩ := exec_bind_ok.mp h
    obtain ⟨_, -, h⟩ := exec_outcome_bind_ok.mp h
    obtain ⟨response, v', hresponse, h⟩ := exec_bind_ok.mp h
    cases response with
    | none => cases h
    | some answer =>
      obtain ⟨status, responseJson'⟩ := answer
      simp only at h
      split at h
      · cases h
      · split at h
        · obtain ⟨_, _, -, h⟩ := exec_bind_ok.mp h
          cases h
        · obtain ⟨fee, u', hvet, h⟩ := exec_bind_ok.mp h
          cases fee with
          | none => cases h
          | some fee =>
            cases h
            obtain ⟨offer, rfl, hasked, hanswered, hintact, hallowed, hfees, haffordable⟩ :=
              vet_some hvet
            refine ⟨offer, ?_, rfl, hanswered, hintact, hallowed, haffordable⟩
            -- `offer` takes the same steps: each succeeded above, from the same state.
            refine exec_bind_ok.mpr ⟨modifiedRequest, v, hmodified, ?_⟩
            refine exec_outcome_bind_ok.mpr ⟨offer.asked, hasked, ?_⟩
            refine exec_bind_ok.mpr ⟨_, v', hresponse, ?_⟩
            refine exec_outcome_bind_ok.mpr ⟨offer.answered, hanswered, ?_⟩
            exact exec_bind_ok.mpr ⟨offer.fees, _, hfees, rfl⟩

/-- What is returned of an offer that is found good. -/
theorem conclude_ok {request : SigningRequest} {responseJson : Json} {addedFees : Asset}
    {w w' : W} {rv : Transact.TransactHookResponse}
    (h : exec (plugin.conclude request responseJson addedFees) w = (.ok rv, w')) :
    rv = { request } ∨ ∃ v, exec (plugin.createRequest responseJson) w = (.ok rv.request, v) := by
  unfold conclude at h
  obtain ⟨_, -, h⟩ := exec_outcome_bind_ok.mp h
  obtain ⟨modified, v, hcreate, h⟩ := exec_bind_ok.mp h
  obtain ⟨signatures, -, h⟩ := exec_outcome_bind_ok.mp h
  split at h
  · obtain ⟨resources, -, h⟩ := exec_outcome_bind_ok.mp h
    rw [exec_attempt_bind] at h
    split at h
    · cases h
      exact .inr ⟨_, hcreate⟩
    · split at h
      · cases h
      · cases h
        exact .inl rfl
  · cases h
    exact .inr ⟨_, hcreate⟩

/-- **A run returns the original request or has taken an offer.** -/
theorem request_taken {request : SigningRequest} {w w' : W} {rv : Transact.TransactHookResponse}
    (h : exec (plugin.request request) w = (.ok rv, w')) :
    rv = { request } ∨ ∃ offer, plugin.Takes request w offer rv.request := by
  unfold ResourceProvider.request at h
  obtain ⟨offer, u, hreview, h⟩ := exec_bind_ok.mp h
  cases offer with
  | none =>
    cases h
    exact .inl rfl
  | some answer =>
    obtain ⟨responseJson, addedFees⟩ := answer
    obtain ⟨offer, hoffer, rfl, hanswered, hintact, hallowed, haffordable⟩ :=
      review_some_offer hreview
    rcases conclude_ok h with horiginal | ⟨v, hcreates⟩
    · exact .inl horiginal
    · exact .inr ⟨offer, ⟨u, v, hoffer, hcreates⟩, hanswered, hintact, hallowed, haffordable⟩

/-- The same run takes the same offer. -/
theorem Takes.unique {request taken taken' : SigningRequest} {w : W} {offer offer' : Offer}
    (h : plugin.Takes request w offer taken) (h' : plugin.Takes request w offer' taken') :
    offer = offer' := by
  obtain ⟨u, v, hoffer, -⟩ := h.offered
  obtain ⟨u', v', hoffer', -⟩ := h'.offered
  rw [hoffer] at hoffer'
  cases hoffer'
  rfl

/-! ## A service -/

/-- What a run takes, as far as it is looked at. -/
theorem Takes.view_eq {request taken : SigningRequest} {w : W} {offer : Offer}
    (h : plugin.Takes request w offer taken) {γ : Type} (view : Offer → γ) {c : γ}
    (hview : (exec (plugin.offer request) w).1.toOption.map (Option.map view) = some (some c)) :
    view offer = c := by
  obtain ⟨u, v, hoffer, -⟩ := h.offered
  rw [hoffer] at hview
  exact Option.some.inj (Option.some.inj hview)

/-- A signature, in text. -/
def offerSignature : Str :=
  "SIG_K1_JuPPpMgdfykZuPQrE1kfwYt8unx7zyNxh9PorCgdXhNysqgbC6746YyXF4KHbzKPjL36ALzVpnNUpqvxY1CuFrUGfD91bF"

/-- A platform with the digest of that signature's data and type. -/
def offerPlatform : Platform :=
  { (default : Platform) with
    ripemd160 := fun _ => ⟨[0x9f, 0x8c, 0x49, 0xc2, 0x18, 0x6e, 0x1c, 0x07, 0xd4, 0xc0, 0x79, 0x5f,
      0xa3, 0xfc, 0xc7, 0x47, 0xe4, 0xf3, 0x71, 0xca], rfl⟩ }

/-- A signed response with the transaction, and with `more` actions after its own. -/
def offerResponse (more : List Action) : Json :=
  .obj [(lit "data", .obj [
    (lit "request", .arr [.str "transaction", AbiTraits.transaction.toJSON
      { noopTransaction with actions := noopTransaction.actions ++ more }]),
    (lit "signatures", .arr [.str offerSignature])])]

/-- The plugin with a service that adds `more` actions, where a fee may be 1 EOS. -/
def offering (more : List Action) : ResourceProvider Unit :=
  { answering (offerResponse more) with
    p := offerPlatform
    maxFee := some { units := 10000, symbol := ⟨toRawSymbol "EOS" 4⟩ } }

/-- A transfer of alice's. -/
def offerTransfer (account : Name) (quantity : Asset) : Action where
  account
  name := .ofString "transfer"
  authorization := [{ actor := .ofString "alice", permission := .ofString "active" }]
  data := ((do
    let from_ ← AbiTraits.name.toABI (.ofString "alice")
    let to_ ← AbiTraits.name.toABI (.ofString "bob")
    let quantity ← AbiTraits.asset.toABI quantity
    let memo ← AbiTraits.string.toABI []
    return from_ ++ to_ ++ quantity ++ memo : Result Bytes).toOption).getD []

/-- A run that returns more than one action has taken an offer. -/
theorem exists_takes_offering (more : List Action) {n : ℕ} (hn : n ≠ 1)
    (h : (exec ((offering more).request noopRequest) ()).1.toOption.map (fun rv =>
      rv.request.getRawActions.toOption.map List.length) = some (some n)) :
    ∃ rv u, exec ((offering more).request noopRequest) () = (.ok rv, u) ∧
      rv ≠ { request := noopRequest } := by
  have hsome : (exec ((offering more).request noopRequest) ()).1.toOption.isSome = true := by
    cases hrun : (exec ((offering more).request noopRequest) ()).1.toOption with
    | none =>
      rw [hrun] at h
      cases h
    | some rv => rfl
  obtain ⟨rv, hrv⟩ := exec_of_isSome hsome
  refine ⟨rv, _, hrv, ?_⟩
  rintro rfl
  rw [hrv] at h
  exact hn (Option.some.inj (Option.some.inj h)).symm

/-! ## Fees -/

/-- What the fees add up to. -/
def exactSum (fees : List Asset) : ℤ := (fees.map (fun fee => fee.units.toInt)).sum

/-- The fees are amounts in the symbol of `maxFee`. -/
def Comparable (maxFee : Asset) (fees : List Asset) : Prop :=
  ∀ fee ∈ fees, 0 ≤ fee.units.toInt ∧ fee.symbol = maxFee.symbol

/-- The fees are within `maxFee`. -/
def FeesBounded (maxFee : Asset) (fees : List Asset) : Prop :=
  exactSum fees ≤ maxFee.units.toInt ∧ Comparable maxFee fees

/-- The fees are added up in 64 bits. -/
theorem toInt_sumFees (fees : List Asset) :
    (sumFees fees).units.toInt = (exactSum fees).bmod (2 ^ 64) := by
  have hfold (units : Int64) : (fees.foldl (fun units fee => units + fee.units) units).toInt =
      (units.toInt + exactSum fees).bmod (2 ^ 64) := by
    induction fees generalizing units with
    | nil =>
      rw [List.foldl_nil, exactSum, List.map_nil, List.sum_nil, Int.add_zero]
      exact (Int64.toInt_bmod units).symm
    | cons fee fees ih =>
      have hsum : exactSum (fee :: fees) = fee.units.toInt + exactSum fees := by
        rw [exactSum, List.map_cons, List.sum_cons, exactSum]
      rw [List.foldl_cons, ih, Int64.toInt_add, hsum, Int.bmod_add_bmod, Int.add_assoc]
  have := hfold 0
  rw [Int64.toInt_zero, Int.zero_add] at this
  exact this

/-- Amounts add up to an amount. -/
theorem exactSum_nonneg {maxFee : Asset} {fees : List Asset} (h : Comparable maxFee fees) :
    0 ≤ exactSum fees := by
  apply List.sum_nonneg
  intro units hunits
  obtain ⟨fee, hfee, rfl⟩ := List.mem_map.mp hunits
  exact (h fee hfee).1

/-- The fees of an offer that was taken are within `maxFee` exactly when they can be compared
with it and their sum does not wrap. -/
theorem Takes.feesBounded_iff {request taken : SigningRequest} {w : W} {offer : Offer}
    (h : plugin.Takes request w offer taken) {maxFee : Asset} (hmax : plugin.maxFee = some maxFee) :
    FeesBounded maxFee offer.fees ↔
      Comparable maxFee offer.fees ∧ exactSum offer.fees < 2 ^ 63 := by
  have hle := Int64.le_iff_toInt_le.mp (h.affordable maxFee hmax)
  have hlt := maxFee.units.toInt_lt
  rw [toInt_sumFees] at hle
  constructor
  · rintro ⟨hbound, hcomparable⟩
    exact ⟨hcomparable, by omega⟩
  · rintro ⟨hcomparable, hfits⟩
    have hnonneg := exactSum_nonneg hcomparable
    have hexact : (exactSum offer.fees).bmod (2 ^ 64) = exactSum offer.fees := by
      apply Int.bmod_eq_of_le
      · norm_num
        omega
      · norm_num
        omega
    rw [hexact] at hle
    exact ⟨hle, hcomparable⟩

/-- An action that can be read is encoded already. -/
theorem encodeActionJson_of_read {p : Platform} {abis : AbiMap} {item : Json} {action : Action}
    (h : AbiTraits.action.fromJSON item = .ok action) :
    SigningRequest.encodeActionJson p abis item = .ok (AbiTraits.action.toJSON action) := by
  obtain ⟨_, -, hfields⟩ := bind_eq_ok.mp h
  obtain ⟨account, -, hfields⟩ := bind_eq_ok.mp hfields
  obtain ⟨name, -, hfields⟩ := bind_eq_ok.mp hfields
  obtain ⟨authorization, -, hfields⟩ := bind_eq_ok.mp hfields
  obtain ⟨data, hdata, -⟩ := bind_eq_ok.mp hfields
  unfold AbiTraits.field at hdata
  cases hfind : item.find "data" with
  | none =>
    rw [hfind] at hdata
    cases hdata
  | some v =>
    rw [hfind] at hdata
    cases v with
    -- Only a text is read as data without an ABI.
    | str text =>
      have hsame : Action.normalizeBytesValue item = item := by
        unfold Action.normalizeBytesValue
        rw [hfind]
        cases item <;> rfl
      have hread : Action.ofJson item = .ok action := by
        unfold Action.ofJson
        rw [hfind]
        simp only [Action.isBytesValue, if_true]
        rw [hsame, h]
      unfold SigningRequest.encodeActionJson
      rw [hfind]
      simp only [Option.map_some, Action.isBytesValue]
      rw [hread]
      rfl
    | _ => cases hdata

theorem mapM_encodeActionJson_of_read {p : Platform} {abis : AbiMap} {items : List Json}
    {actions : List Action} (h : items.mapM AbiTraits.action.fromJSON = .ok actions) :
    items.mapM (SigningRequest.encodeActionJson p abis) =
      .ok (actions.map AbiTraits.action.toJSON) := by
  induction items generalizing actions with
  | nil =>
    cases h
    rfl
  | cons item items ih =>
    rw [List.mapM_cons] at h
    obtain ⟨action, haction, h⟩ := bind_eq_ok.mp h
    obtain ⟨rest, hrest, h⟩ := bind_eq_ok.mp h
    cases h
    rw [List.mapM_cons, encodeActionJson_of_read haction, ok_bind, ih hrest, ok_bind]
    rfl

/-- A transaction that can be read is an object with a list of actions that can be read. -/
theorem actions_of_read {value : Json} {tx : Transaction}
    (h : AbiTraits.transaction.fromJSON value = .ok tx) :
    ∃ members items, value = .obj members ∧ Json.lookup members "actions" = some (.arr items) ∧
      items.mapM AbiTraits.action.fromJSON = .ok tx.actions := by
  obtain ⟨header, hheader, h⟩ := bind_eq_ok.mp h
  obtain ⟨cfa, -, h⟩ := bind_eq_ok.mp h
  obtain ⟨actions, hactions, h⟩ := bind_eq_ok.mp h
  obtain ⟨extensions, -, h⟩ := bind_eq_ok.mp h
  cases h
  cases value with
  | obj members =>
    unfold AbiTraits.field at hactions
    have hfind : (Json.obj members).find "actions" = Json.lookup members "actions" := rfl
    rw [hfind] at hactions
    cases hlookup : Json.lookup members "actions" with
    | none =>
      rw [hlookup] at hactions
      cases hactions
    | some v =>
      rw [hlookup] at hactions
      cases v with
      | arr items => exact ⟨members, items, rfl, hlookup, hactions⟩
      | _ => cases hactions
  | _ => cases hheader

/-- The request value of a transaction that can be read has its actions. -/
theorem requestValue_of_read {p : Platform} {abis : AbiMap} {value : Json} {tx : Transaction}
    (h : AbiTraits.transaction.fromJSON value = .ok tx) {chainId : ChainId} {reqType : Str}
    {reqValue : Json}
    (hvalue : SigningRequest.requestValue p
      { transaction := some value, chainId := some chainId } abis = .ok (reqType, reqValue)) :
    reqType = lit "transaction" ∧
      reqValue.find "actions" = some (.arr (tx.actions.map AbiTraits.action.toJSON)) := by
  obtain ⟨members, items, rfl, hitems, hread⟩ := actions_of_read h
  obtain ⟨members', hfold, hmembers'⟩ :=
    SigningRequest.foldlM_setDefault_obj SigningRequest.transactionDefaults members
  have hactions : (Json.obj members').atKey "actions" = .ok (.arr items) := by
    unfold Json.atKey
    simp only
    rw [hmembers', hitems]
    rfl
  unfold SigningRequest.requestValue at hvalue
  simp only at hvalue
  rw [hfold, ok_bind, hactions, ok_bind] at hvalue
  change (items.mapM (SigningRequest.encodeActionJson p abis) >>= _) = _ at hvalue
  rw [mapM_encodeActionJson_of_read hread, ok_bind] at hvalue
  cases hvalue
  exact ⟨rfl, Json.lookup_insert_self _ _ _⟩

/-- The actions of a request that is created of a transaction. -/
theorem getRawActions_create {p : Platform} {value : Json} {tx : Transaction}
    (h : AbiTraits.transaction.fromJSON value = .ok tx) {chainId : ChainId}
    {options : SigningRequestEncodingOptions} {created : SigningRequest}
    (hcreate : SigningRequest.create p { transaction := some value, chainId := some chainId }
      options = .ok created) :
    created.getRawActions = .ok tx.actions := by
  obtain ⟨abis, reqType, reqValue, chain_id, info, -, hvalue, -, -, -, hdata, -⟩ :=
    SigningRequest.create_eq_ok hcreate
  obtain ⟨rfl, hactions⟩ := requestValue_of_read h hvalue
  have hversion : SigningRequest.requestVersion
      { transaction := some value, chainId := some chainId } = 2 := by
    unfold SigningRequest.requestVersion
    simp
  rw [hversion] at hdata
  unfold SigningRequest.versionedData at hdata
  rw [if_pos rfl] at hdata
  obtain ⟨data, hdata, hcreated⟩ := map_eq_ok.mp hdata
  obtain ⟨req, hreq, hdata⟩ := bind_eq_ok.mp hdata
  cases hdata
  have hvariant : (AbiTraits.requestVariant AbiTraits.identityV2).fromJSON
      (.arr [.str (lit "transaction"), reqValue]) =
        RequestVariant.transaction <$> AbiTraits.transaction.fromJSON reqValue := by
    have haction : ¬ lit "transaction" = AbiTraits.action.abiName := by decide
    have hactions : ¬ lit "transaction" = AbiTraits.action.vector.abiName := by decide
    have hself : lit "transaction" = AbiTraits.transaction.abiName := by decide
    unfold AbiTraits.requestVariant AbiTraits.variantPair
    simp only [ok_bind]
    rw [if_neg haction, if_neg hactions, if_pos hself]
  rw [hvariant] at hreq
  obtain ⟨tx', htx', rfl⟩ := map_eq_ok.mp hreq
  -- the actions were written by us, so that they are read as they are
  obtain ⟨members, items, rfl, hitems, hread⟩ := actions_of_read htx'
  have hfind : (Json.obj members).find "actions" = Json.lookup members "actions" := rfl
  rw [hfind, hitems] at hactions
  cases hactions
  have hwritten : (tx.actions.map AbiTraits.action.toJSON).mapM AbiTraits.action.fromJSON =
      .ok tx.actions :=
    (AbiTraits.vector_readsJson AbiTraits.action_readsJson).read tx.actions
  rw [hwritten] at hread
  have hsame : tx.actions = tx'.actions := Except.ok.inj hread
  unfold SigningRequest.getRawActions
  rw [← hcreated, hsame]

theorem getRawActions_setBroadcast (request : SigningRequest) (enabled : Bool) :
    (request.setBroadcast enabled).getRawActions = request.getRawActions := by
  obtain ⟨version, data, signature⟩ := request
  cases data with
  | v2 data => rcases data with ⟨_, _ | _ | _ | _, _, _, _⟩ <;> rfl
  | v3 data => rcases data with ⟨_, _ | _ | _ | _, _, _, _⟩ <;> rfl

theorem getRawActions_setRawInfoKey (request : SigningRequest) (key : Str) (value : Bytes) :
    (request.setRawInfoKey key value).getRawActions = request.getRawActions := by
  obtain ⟨version, data, signature⟩ := request
  cases data with
  | v2 data => rcases data with ⟨_, _ | _ | _ | _, _, _, _⟩ <;> rfl
  | v3 data => rcases data with ⟨_, _ | _ | _ | _, _, _, _⟩ <;> rfl

theorem getRawActions_setFee {data : Json} {code : Int32} {request request' : SigningRequest}
    (h : setFee data code request = .ok request') :
    request'.getRawActions = request.getRawActions := by
  unfold setFee at h
  split at h
  · split at h
    · obtain ⟨fee, -, h⟩ := bind_eq_ok.mp h
      obtain ⟨encoded, -, h⟩ := bind_eq_ok.mp h
      cases h
      exact getRawActions_setRawInfoKey _ _ _
    · cases h
      rfl
  · cases h
    rfl

/-- **The request created of a response** has the actions of its transaction. -/
theorem getRawActions_createRequest {responseJson : Json} {tx : Transaction}
    (htx : getModifiedTransaction responseJson = .ok tx) {taken : SigningRequest} {w w' : W}
    (h : exec (plugin.createRequest responseJson) w = (.ok taken, w')) :
    taken.getRawActions = .ok tx.actions := by
  have hresponse : ∃ variant value, responseRequest responseJson = some (variant, value) ∧
      AbiTraits.transaction.fromJSON value = .ok tx := by
    unfold getModifiedTransaction at htx
    split at htx
    · rename_i variant value hrequest
      split at htx
      · cases htx
      · split at htx
        · cases htx
        · split at htx
          · exact ⟨_, value, hrequest, htx⟩
          · cases htx
    · cases htx
  obtain ⟨variant, value, hrequest, hread⟩ := hresponse
  unfold createRequest at h
  rw [hrequest] at h
  obtain ⟨request, u, hcreate, h⟩ := exec_bind_ok.mp h
  unfold Transact.TransactContext.createRequest at hcreate
  rw [exec_look_bind] at hcreate
  obtain ⟨created, hcreated, hcreate⟩ := exec_outcome_bind_ok.mp hcreate
  cases hcreate
  obtain ⟨code, -, h⟩ := exec_outcome_bind_ok.mp h
  obtain ⟨request', hfee, h⟩ := exec_outcome_bind_ok.mp h
  -- The flags and the info keys are set around the actions, which stay as they were created.
  have hactions : request'.getRawActions = .ok tx.actions := by
    rw [getRawActions_setFee hfee, getRawActions_setBroadcast, getRawActions_create hread hcreated]
  split at h
  · cases h
    rw [getRawActions_setRawInfoKey, getRawActions_setRawInfoKey, getRawActions_setRawInfoKey,
      hactions]
  · cases h
    exact hactions

/-! ## Original actions -/

/-- The original actions are there, in their order and each as often as it was, and the
others are admitted. -/
structure Preserved (actor : Name) (original returned : List Action) : Prop where
  inOrder : original.Sublist returned
  asOften : ∀ action ∈ original, returned.count action = original.count action
  admitted : ∀ action ∈ returned, action ∉ original → Admitted actor action

/-- In an offer with the original actions, an action counts as original if it is one. -/
theorem isOriginal_iff {original modified : Transaction}
    (h : hasOriginalActions original modified = true) (action : Action) :
    original.actions.any (fun originalAction => sameActionAs originalAction action) = true ↔
      action ∈ original.actions := by
  unfold hasOriginalActions at h
  rw [List.all_eq_true] at h
  rw [List.any_eq_true]
  constructor
  · rintro ⟨originalAction, horiginal, hsame⟩
    rw [← (sameActionAs_iff.mp hsame).2]
    exact horiginal
  · intro haction
    obtain ⟨modifiedAction, -, hsame⟩ := List.any_eq_true.mp (h action haction)
    exact ⟨action, haction, sameActionAs_iff.mpr ⟨(sameActionAs_iff.mp hsame).1, rfl⟩⟩

/-- The original actions of an offer that was taken are preserved exactly when what counts
as original is the original list. -/
theorem Takes.preserved_iff {request taken : SigningRequest} {w : W} {offer : Offer}
    (h : plugin.Takes request w offer taken) :
    Preserved plugin.context.permissionLevel.actor offer.asked.actions offer.answered.actions ↔
      offer.kept = offer.asked.actions := by
  have hkept : offer.kept = offer.answered.actions.filter (· ∈ offer.asked.actions) := by
    unfold Offer.kept
    apply List.filter_congr
    intro action _
    rw [Bool.eq_iff_iff, isOriginal_iff h.intact, decide_eq_true_eq]
  have hadded : ∀ action ∈ offer.answered.actions, action ∉ offer.asked.actions →
      Admitted plugin.context.permissionLevel.actor action := by
    intro action haction hnew
    refine admitted_of_refusal h.allowed action (List.mem_filter.mpr ⟨haction, ?_⟩)
    rw [Bool.not_eq_true', ← Bool.not_eq_true, isOriginal_iff h.intact]
    exact hnew
  rw [hkept, filter_mem_eq_iff]
  constructor
  · intro hpreserved
    exact ⟨hpreserved.inOrder, hpreserved.asOften⟩
  · rintro ⟨hsublist, hcount⟩
    exact ⟨hsublist, hcount, hadded⟩

/-- A noop of the service's own. -/
def secondNoop : Action where
  account := .ofString "greymassnoop"
  name := .ofString "noop"
  authorization := [{ actor := .ofString "greymassfuel", permission := .ofString "cosign" }]

end ResourceProvider

end Dwarfkit
