/-
# Callback payloads

`ResolvedSigningRequest::getCallback` and `fromPayload`: the payload a wallet answers
with flattens a resolution into texts, and the receiver resolves the request in it
again in a context made of these texts.

* `fromPayload_getCallback` : the resolution comes back.
-/
import Dwarfkit.Antelope.Chain.Calendar
import Dwarfkit.SigningRequest.Encoding
import Dwarfkit.SigningRequest.Resolve

namespace Dwarfkit

open Wire

/-! ## Callbacks -/

/-- `ResolvedCallback`. -/
structure ResolvedCallback where
  url : Str
  background : Bool
  payload : Json

/-- What is before and behind the first place where two bytes stand next to each other. -/
def splitAtPair (a b : UInt8) : Str → Option (Str × Str)
  | x :: y :: rest =>
    if x = a ∧ y = b then some ([], rest)
    else (splitAtPair a b (y :: rest)).map (fun parts => (x :: parts.1, parts.2))
  | _ => none

/-- The `{{variable}}` placeholders of a url; `fuel` is its length, which every
placeholder shortens. -/
def templateUrl (payload : Json) : (fuel : ℕ) → Str → Str
  | 0, source => source
  | fuel + 1, source =>
    match splitAtPair 123 123 source with
    | none => source
    | some (before, rest) =>
      match splitAtPair 125 125 rest with
      | none => source
      | some (key, rest) => before ++ payload.jsonStr key ++ templateUrl payload fuel rest

/-- The members of further signatures, numbered from `i`. -/
def addSignatures (crypto : Crypto) (members : List (Str × Json)) :
    (i : ℕ) → List Signature → List (Str × Json)
  | _, [] => members
  | i, sig :: signatures =>
    addSignatures crypto
      (Json.insert members (lit "sig" ++ natToString i) (.str (sig.toString crypto))) (i + 1)
      signatures

namespace VersionedData

/-- Whether the callback is to be made in the background. -/
def background (d : VersionedData) : Bool := d.flags.background

end VersionedData

namespace ResolvedSigningRequest

/-- The members of a payload with one signature. -/
def payloadMembers (z : Zlib) (p : Platform) (resolved : ResolvedSigningRequest) (sig : Signature)
    (zlib : Bool) : List (Str × Json) := [
  (lit "sig", .str (sig.toString p.toCrypto)),
  (lit "tx", .str (resolved.transaction.id p.toCrypto).hexString),
  (lit "rbn", .str (natToString resolved.transaction.ref_block_num.toNat)),
  (lit "rid", .str (natToString resolved.transaction.ref_block_prefix.toNat)),
  (lit "ex", .str resolved.transaction.expiration.toString),
  (lit "req", .str (resolved.request.encode z p none true (lit "esr" ++ [58]) zlib)),
  (lit "sa", .str resolved.signer.actor.toString),
  (lit "sp", .str resolved.signer.permission.toString),
  (lit "cid", .str resolved.chainId.hexString)]

/-- The payload of `getCallback`; `zlib` is the request's own option. -/
def payload (z : Zlib) (p : Platform) (resolved : ResolvedSigningRequest) (sig : Signature)
    (more : List Signature) (blockNum : Option UInt32) (zlib : Bool) : Json :=
  let members := addSignatures p.toCrypto (payloadMembers z p resolved sig zlib) 0 more
  match blockNum with
  | some blockNum => .obj (Json.insert members "bn" (.str (natToString blockNum.toNat)))
  | none => .obj members

/-- `getCallback`. -/
def getCallback (z : Zlib) (p : Platform) (resolved : ResolvedSigningRequest)
    (signatures : List Signature) (blockNum : Option UInt32 := none) (zlib : Bool := true) :
    Result (Option ResolvedCallback) :=
  let callback := resolved.request.data.callback
  if callback = [] then .ok none
  else match signatures with
    | [] => err .invalid "Must have at least one signature to resolve callback"
    | sig :: more =>
      let payload := payload z p resolved sig more blockNum zlib
      .ok (some {
        url := templateUrl payload callback.length callback
        background := resolved.request.data.background
        payload })

/-! ## Payloads -/

/-- `payloadUInt`: a decimal text, or nothing. -/
def payloadUInt (payload : Json) (key : Str) : Option UInt64 :=
  match payload.find key with
  | some (.str text) => Json.fromCharsUInt64 text
  | _ => none

/-- The expiration of a payload, if it has one. -/
def payloadExpiration (payload : Json) : Result (Option TimePointSec) :=
  if payload.contains "ex" then do
    let text ← payload.valueStr "ex" []
    let expiration ← TimePointSec.fromString text
    return some expiration
  else .ok none

/-- The chain of a payload, or the request's own. -/
def payloadChain (payload : Json) (request : SigningRequest) : Result ChainId :=
  if payload.contains "cid" then do
    let text ← payload.valueStr "cid" []
    Checksum.ofHex 32 text
  else request.getChainId

/-- `fromPayload`, with the current time in milliseconds. -/
def fromPayload (z : Zlib) (p : Platform) (now : ℤ) (abiProvider : Option AbiProvider)
    (payload : Json) : Result ResolvedSigningRequest := do
  let uri ← payload.valueStr "req" []
  let request ← SigningRequest.ofUri z p uri
  let abis ← request.fetchAbis abiProvider
  let expiration ← payloadExpiration payload
  let chainId ← payloadChain payload request
  let actor ← payload.valueStr "sa" []
  let permission ← payload.valueStr "sp" []
  let ctx : TransactionContext := {
    ref_block_num := (payloadUInt payload "rbn").map UInt64.toUInt16
    ref_block_prefix := (payloadUInt payload "rid").map UInt64.toUInt32
    expiration
    chainId := some chainId }
  request.resolve p now abis { actor := .ofString actor, permission := .ofString permission } ctx

end ResolvedSigningRequest

/-! ## Texts -/

/-- A decimal text below the bound is read back. -/
theorem fromCharsUInt64_natToString {n : ℕ} (h : n < 2 ^ 64) :
    Json.fromCharsUInt64 (natToString n) = some n.toUInt64 := by
  have hdigits : ¬ (natToString n = [] ∨ (natToString n).any (fun c => c < 48 ∨ 57 < c) = true) := by
    rintro (hnil | hany)
    · exact natToString_ne_nil n hnil
    · obtain ⟨c, hc, hout⟩ := List.any_eq_true.mp hany
      obtain ⟨hlow, hhigh⟩ := digit_of_mem_natToString hc
      rcases of_decide_eq_true hout with hlt | hlt
      · have := UInt8.lt_iff_toNat_lt.mp hlt
        simp at this
        omega
      · have := UInt8.lt_iff_toNat_lt.mp hlt
        simp at this
        omega
  unfold Json.fromCharsUInt64
  rw [if_neg hdigits]
  simp only [digitsValue_natToString]
  rw [if_pos h]

/-- Further signatures leave the other members alone. -/
theorem lookup_addSignatures (crypto : Crypto) {key : Str} (hkey : ¬ lit "sig" <+: key)
    (signatures : List Signature) (members : List (Str × Json)) (i : ℕ) :
    Json.lookup (addSignatures crypto members i signatures) key = Json.lookup members key := by
  induction signatures generalizing members i with
  | nil => rfl
  | cons sig signatures ih =>
    have hne : key ≠ lit "sig" ++ natToString i := fun h => hkey ⟨_, h.symm⟩
    rw [addSignatures, ih, Json.lookup_insert_of_ne _ _ hne]

namespace ResolvedSigningRequest

/-- A member of the payload with one signature is a member of the payload. -/
theorem find_payload (z : Zlib) (p : Platform) (resolved : ResolvedSigningRequest)
    (sig : Signature) (more : List Signature) (blockNum : Option UInt32) (zlib : Bool) {key : Str}
    (hkey : ¬ lit "sig" <+: key) (hbn : key ≠ lit "bn") :
    (resolved.payload z p sig more blockNum zlib).find key =
      Json.lookup (resolved.payloadMembers z p sig zlib) key := by
  have hmembers := lookup_addSignatures p.toCrypto hkey more (resolved.payloadMembers z p sig zlib) 0
  unfold payload
  cases blockNum with
  | none => exact hmembers
  | some blockNum =>
    show Json.lookup (Json.insert _ _ _) key = _
    rw [Json.lookup_insert_of_ne _ _ hbn]
    exact hmembers

end ResolvedSigningRequest

/-! ## The ABIs of a request -/

namespace AbiMap

/-- An emplaced entry is found, unless the name was there. -/
theorem find_emplace (abis : AbiMap) (account : Str) (abi : ABI) (key : Str) :
    (abis.emplace account abi).find key =
      match abis.find key with
      | some found => some found
      | none => if account = key then some abi else none := by
  have happend : AbiMap.find (abis ++ [(account, abi)]) key =
      match abis.find key with
      | some found => some found
      | none => if account = key then some abi else none := by
    unfold find
    rw [List.find?_append]
    cases hfind : abis.find? (fun entry => entry.1 = key) with
    | some entry => rfl
    | none =>
      by_cases hkey : account = key
      · simp [hkey]
      · simp [hkey]
  unfold emplace
  cases haccount : abis.find account with
  | none => exact happend
  | some found =>
    cases hfind : abis.find key with
    | some other => rfl
    | none =>
      have hne : account ≠ key := by
        rintro rfl
        rw [hfind] at haccount
        cases haccount
      simp [hne]

end AbiMap

namespace SigningRequest

/-- A provider that has the ABIs of a map, for the required accounts. -/
def Provides (request : SigningRequest) (getAbi : AbiProvider) (abis : AbiMap) : Prop :=
  ∀ account ∈ request.getRequiredAbis, ∀ abi, abis.find account.toString = some abi →
    getAbi account = .ok abi

/-- Fetching gives the map's entries, and all of those asked for. -/
theorem foldlM_emplace {getAbi : AbiProvider} {abis : AbiMap} {accounts : List Name}
    (h : ∀ account ∈ accounts, ∃ abi, abis.find account.toString = some abi ∧
      getAbi account = .ok abi) {acc : AbiMap}
    (hacc : ∀ key abi, acc.find key = some abi → abis.find key = some abi) :
    ∃ rv, accounts.foldlM (fun (rv : AbiMap) account => do
        let abi ← getAbi account
        return rv.emplace account.toString abi) acc = .ok rv ∧
      (∀ key abi, rv.find key = some abi → abis.find key = some abi) ∧
      (∀ key, (acc.find key).isSome → (rv.find key).isSome) ∧
      ∀ account ∈ accounts, (rv.find account.toString).isSome := by
  induction accounts generalizing acc with
  | nil => exact ⟨acc, rfl, hacc, fun _ h => h, fun _ h => by cases h⟩
  | cons account accounts ih =>
    obtain ⟨abi, hfind, hget⟩ := h account (by simp)
    -- `emplace` keeps an ABI that is there, and both are the map's.
    have hstep : ∀ key found, (acc.emplace account.toString abi).find key = some found →
        abis.find key = some found := by
      intro key found hkey
      rw [AbiMap.find_emplace] at hkey
      cases hold : acc.find key with
      | some other =>
        rw [hold] at hkey
        cases hkey
        exact hacc key _ hold
      | none =>
        rw [hold] at hkey
        simp only at hkey
        split at hkey
        · rename_i heq
          cases hkey
          rw [← heq]
          exact hfind
        · cases hkey
    have hkeeps : ∀ key, (acc.find key).isSome →
        ((acc.emplace account.toString abi).find key).isSome := by
      intro key hkey
      obtain ⟨found, hfound⟩ := Option.isSome_iff_exists.mp hkey
      rw [AbiMap.find_emplace, hfound]
      rfl
    have hadded : ((acc.emplace account.toString abi).find account.toString).isSome := by
      rw [AbiMap.find_emplace]
      cases acc.find account.toString with
      | some found => rfl
      | none => simp
    obtain ⟨rv, hrv, hsound, hmore, hall⟩ := ih (fun a ha => h a (by simp [ha])) hstep
    refine ⟨rv, ?_, hsound, fun key hkey => hmore key (hkeeps key hkey), ?_⟩
    · rw [List.foldlM_cons, hget, ok_bind]
      exact hrv
    · intro a ha
      rcases List.mem_cons.mp ha with rfl | ha
      · exact hmore _ hadded
      · exact hall a ha

/-- **The ABIs that a request was resolved with are fetched again** from a provider that
has them. -/
theorem fetchAbis_sameAbis {request : SigningRequest} {getAbi : AbiProvider} {abis : AbiMap}
    (hprovides : request.Provides getAbi abis)
    (hhas : ∀ account ∈ request.getRequiredAbis, (abis.find account.toString).isSome) :
    ∃ rv, request.fetchAbis (some getAbi) = .ok rv ∧ request.SameAbis abis rv := by
  have hfound : ∀ account ∈ request.getRequiredAbis, ∃ abi,
      abis.find account.toString = some abi ∧ getAbi account = .ok abi := by
    intro account haccount
    obtain ⟨abi, habi⟩ := Option.isSome_iff_exists.mp (hhas account haccount)
    exact ⟨abi, habi, hprovides account haccount abi habi⟩
  obtain ⟨rv, hrv, hsound, -, hall⟩ := foldlM_emplace hfound
    (fun key abi (h : AbiMap.find [] key = some abi) => by cases h)
  have hsame : request.SameAbis abis rv := by
    intro account haccount
    obtain ⟨abi, habi⟩ := Option.isSome_iff_exists.mp (hall account haccount)
    rw [habi]
    exact hsound _ _ habi
  unfold fetchAbis
  by_cases hnil : request.getRequiredAbis = []
  · refine ⟨[], by rw [if_pos hnil], ?_⟩
    intro account haccount
    rw [hnil] at haccount
    cases haccount
  · refine ⟨rv, ?_, hsame⟩
    rw [if_neg hnil]
    exact hrv

/-- A resolved request found the ABIs of its required accounts. -/
theorem Resolution.hasAbis {p : Platform} {request : SigningRequest} {now : ℤ} {abis : AbiMap}
    {signer : PermissionLevel} {ctx : TransactionContext} {resolved : ResolvedSigningRequest}
    {tx : Transaction} (h : Resolution p request now abis signer ctx resolved tx) :
    ∀ account ∈ request.getRequiredAbis, (abis.find account.toString).isSome := by
  intro account haccount
  obtain ⟨actions, hraw, hdecoded⟩ := bind_eq_ok.mp h.decoded
  unfold getRequiredAbis at haccount
  rw [hraw] at haccount
  rcases mem_requiredAbis.mp haccount with hnil | ⟨action, hmem, hidentity, rfl⟩
  · cases hnil
  · obtain ⟨rv, -, hrv⟩ := exists_of_mapM hdecoded hmem
    obtain ⟨-, -, -, abi, -, -, habi, -⟩ := resolveAction_eq_ok hrv
    unfold actionAbi at habi
    rw [hidentity] at habi
    cases hfind : abis.find action.account.toString with
    | some found => rfl
    | none =>
      simp only [hfind] at habi
      cases habi

/-! ## The header in the payload's context -/

/-- The TaPoS values of a resolution give the same header when they are put back into a
context, whatever else that context holds. -/
theorem taposHeader_again {request : SigningRequest} {now now' : ℤ} {ctx ctx' : TransactionContext}
    {tx header : TransactionHeader} (h : request.taposHeader now ctx tx = .ok header)
    (hexpiration : ctx'.expiration = some header.expiration)
    (hnum : ctx'.ref_block_num = some header.ref_block_num)
    (hblock : ctx'.ref_block_prefix = some header.ref_block_prefix) :
    request.taposHeader now' ctx' tx = .ok header := by
  unfold taposHeader at h ⊢
  by_cases htapos : request.isIdentity = false ∧ tx.hasTapos = false
  · rw [if_pos htapos] at h ⊢
    rw [hexpiration, hnum, hblock]
    simp only
    -- the header differs from the raw one in its three TaPoS values only
    split at h
    · cases h
      rfl
    · split at h
      · cases h
        rfl
      · cases h
  · rw [if_neg htapos] at h ⊢
    by_cases hidentity : request.isIdentity = true ∧ 2 < request.version
    · rw [if_pos hidentity] at h ⊢
      rw [hexpiration]
      cases h
      rfl
    · rw [if_neg hidentity] at h ⊢
      exact h

/-- The chain of a resolution is resolved again when it is put back into a context. -/
theorem resolveChain_again {request : SigningRequest} {ctx ctx' : TransactionContext}
    {chainId : ChainId} (h : request.resolveChain ctx = .ok chainId)
    (hchain : ctx'.chainId = some chainId) : request.resolveChain ctx' = .ok chainId := by
  unfold resolveChain at h ⊢
  by_cases hmulti : request.isMultiChain = true
  · rw [if_pos hmulti] at h ⊢
    rw [hchain]
    cases hctx : ctx.chainId with
    | none =>
      rw [hctx] at h
      cases h
    | some chosen =>
      rw [hctx] at h
      have hsame : chosen = chainId := by
        obtain ⟨ids, -, h⟩ := bind_eq_ok.mp h
        cases ids with
        | none => exact Except.ok.inj h
        | some ids =>
          simp only at h
          split at h
          · exact Except.ok.inj h
          · cases h
      rw [← hsame] at h ⊢
      exact h
  · rw [if_neg hmulti] at h ⊢
    exact h

end SigningRequest

/-! ## The round trip -/

namespace ResolvedSigningRequest

/-- The payload's context, for a request whose uri is read back. -/
theorem fromPayload_payload {z : Zlib} {p : Platform} {resolved : ResolvedSigningRequest}
    {zlib : Bool}
    (huri : SigningRequest.ofUri z p (resolved.request.encode z p none true (lit "esr" ++ [58]) zlib) =
      .ok resolved.request) (now : ℤ) (abiProvider : Option AbiProvider) (sig : Signature)
    (more : List Signature) (blockNum : Option UInt32) :
    fromPayload z p now abiProvider (resolved.payload z p sig more blockNum zlib) = (do
      let abis ← resolved.request.fetchAbis abiProvider
      resolved.request.resolve p now abis resolved.signer {
        ref_block_num := some resolved.transaction.ref_block_num
        ref_block_prefix := some resolved.transaction.ref_block_prefix
        expiration := some resolved.transaction.expiration
        chainId := some resolved.chainId }) := by
  have hfind : ∀ (key : Str) {v : Json}, ¬ lit "sig" <+: key → key ≠ lit "bn" →
      Json.lookup (resolved.payloadMembers z p sig zlib) key = some v →
      (resolved.payload z p sig more blockNum zlib).find key = some v := by
    intro key v hkey hbn h
    rw [find_payload z p resolved sig more blockNum zlib hkey hbn, h]
  -- None of these names begins with `sig`, so the signatures added later hide none of them.
  have hreq := hfind (lit "req") (by decide) (by decide) rfl
  have hrbn := hfind (lit "rbn") (by decide) (by decide) rfl
  have hrid := hfind (lit "rid") (by decide) (by decide) rfl
  have hex := hfind (lit "ex") (by decide) (by decide) rfl
  have hcid := hfind (lit "cid") (by decide) (by decide) rfl
  have hsa := hfind (lit "sa") (by decide) (by decide) rfl
  have hsp := hfind (lit "sp") (by decide) (by decide) rfl
  generalize resolved.payload z p sig more blockNum zlib = payload at *
  have hnum : (payloadUInt payload "rbn").map UInt64.toUInt16 =
      some resolved.transaction.ref_block_num := by
    have hlt := resolved.transaction.ref_block_num.toNat_lt
    unfold payloadUInt
    rw [hrbn]
    simp only
    rw [fromCharsUInt64_natToString (by omega), Option.map_some]
    simp
  have hprefix : (payloadUInt payload "rid").map UInt64.toUInt32 =
      some resolved.transaction.ref_block_prefix := by
    have hlt := resolved.transaction.ref_block_prefix.toNat_lt
    unfold payloadUInt
    rw [hrid]
    simp only
    rw [fromCharsUInt64_natToString (by omega), Option.map_some]
    simp
  have hexpiration : payloadExpiration payload = .ok (some resolved.transaction.expiration) := by
    have hcontains : payload.contains "ex" = true := by
      unfold Json.contains
      rw [hex]
      rfl
    unfold payloadExpiration
    rw [if_pos hcontains, Json.valueStr_of_find hex, ok_bind, TimePointSec.fromString_toString]
    rfl
  have hchain : payloadChain payload resolved.request = .ok resolved.chainId := by
    have hcontains : payload.contains "cid" = true := by
      unfold Json.contains
      rw [hcid]
      rfl
    unfold payloadChain
    rw [if_pos hcontains, Json.valueStr_of_find hcid, ok_bind]
    exact Checksum.ofHex_hexString _
  unfold fromPayload
  rw [Json.valueStr_of_find hreq, ok_bind, huri, ok_bind]
  simp only [hexpiration, hchain, Json.valueStr_of_find hsa, Json.valueStr_of_find hsp, ok_bind, hnum,
    hprefix, Name.ofString_toString]

/-- **The resolution comes back from its payload.**  For every resolution of a request that
can be carried in a uri, every non-empty list of signatures, and a provider with the same
ABIs, the payload of the callback resolves to the same resolution at any later time. -/
theorem fromPayload_getCallback (z : Zlib) (hz : z.Inverse) (p : Platform)
    (request : SigningRequest) (now : ℤ) (abis : AbiMap) (signer : PermissionLevel)
    (ctx : TransactionContext) (resolved : ResolvedSigningRequest)
    (hresolve : request.resolve p now abis signer ctx = .ok resolved)
    (hencodable : request.Encodable) (zlib : Bool)
    (hcap : zlib = true →
      (request.getData ++ request.getSignatureData p).length < maxInflateOutput)
    (hcallback : request.data.callback ≠ []) (sig : Signature) (more : List Signature)
    (blockNum : Option UInt32) (getAbi : AbiProvider) (hprovides : request.Provides getAbi abis)
    (now' : ℤ) :
    ∃ callback, resolved.getCallback z p (sig :: more) blockNum zlib = .ok (some callback) ∧
      fromPayload z p now' (some getAbi) callback.payload = .ok resolved := by
  obtain ⟨tx, h⟩ := SigningRequest.resolve_eq_ok.mp hresolve
  have hrequest := h.request_eq
  have huri : SigningRequest.ofUri z p
      (resolved.request.encode z p none true (lit "esr" ++ [58]) zlib) = .ok resolved.request := by
    rw [hrequest]
    exact SigningRequest.ofUri_encode z hz p request hencodable none true (lit "esr") (by decide) zlib
      hcap
  obtain ⟨abis', hfetch, hsame⟩ := SigningRequest.fetchAbis_sameAbis hprovides h.hasAbis
  -- The payload fixes the header and the chain, so neither the time nor the context matters.
  have hagain : request.resolve p now' abis' signer {
      ref_block_num := some resolved.transaction.ref_block_num
      ref_block_prefix := some resolved.transaction.ref_block_prefix
      expiration := some resolved.transaction.expiration
      chainId := some resolved.chainId } = .ok resolved := by
    refine SigningRequest.resolve_congr hsame (SigningRequest.resolve_eq_ok.mpr ⟨tx, {
      h with
      tapos := ?_
      chain := ?_ }⟩)
    · exact SigningRequest.taposHeader_again h.tapos rfl rfl rfl
    · exact SigningRequest.resolveChain_again h.chain rfl
  refine ⟨{
    url := templateUrl (resolved.payload z p sig more blockNum zlib)
      resolved.request.data.callback.length resolved.request.data.callback
    background := resolved.request.data.background
    payload := resolved.payload z p sig more blockNum zlib }, ?_, ?_⟩
  · unfold getCallback
    rw [if_neg (by rwa [hrequest])]
  · rw [fromPayload_payload huri, hrequest, hfetch, ok_bind, h.signer_eq]
    exact hagain

/-! ## A logged note -/

/-- A contract that logs a note. -/
def logAbi : ABI where
  structs := [⟨"log", "", [⟨"memo", "string"⟩]⟩]
  actions := [⟨.ofString "log", "log", ""⟩]

/-- A request to log a note, by whoever signs it. -/
def logRequest : SigningRequest where
  data := .v2 {
    chain_id := .alias 1
    req := .action {
      account := .ofString "demo"
      name := .ofString "log"
      authorization := [placeholderAuth]
      data := [2, 104, 105] }
    callback := "https://example.com/?tx={{tx}}" }

/-- The context it is resolved in. -/
def logContext : TransactionContext where
  expiration := some ⟨1700000000⟩
  ref_block_num := some 7
  ref_block_prefix := some 9

def alice : PermissionLevel where
  actor := .ofString "alice"
  permission := .ofString "active"

def zeroSignature : Signature where
  type := .K1
  data := List.replicate 65 0

theorem encodable_logRequest : logRequest.Encodable where
  version := rfl
  sized := by
    refine ⟨⟨by decide, by decide⟩, ⟨by decide +kernel, by decide +kernel⟩, by decide, ?_⟩
    intro pair hpair
    cases hpair
  signature := by
    rintro sig ⟨⟩
  notBroadcast := rfl

theorem fromPayload_getCallback_log :
    ∃ resolved callback,
      logRequest.resolve default 0 [(lit "demo", logAbi)] alice logContext = .ok resolved ∧
      resolved.getCallback SigningRequest.storedZlib default [zeroSignature, zeroSignature] (some 5)
        false = .ok (some callback) ∧
      fromPayload SigningRequest.storedZlib default 12345 (some fun _ => .ok logAbi)
        callback.payload = .ok resolved := by
  have hresolves : (logRequest.resolve default 0 [(lit "demo", logAbi)] alice
      logContext).toOption.isSome = true := by decide +kernel
  have hprovides : logRequest.Provides (fun _ => .ok logAbi) [(lit "demo", logAbi)] := by
    intro account _ abi habi
    unfold AbiMap.find at habi
    rw [List.find?_cons] at habi
    split at habi
    · cases habi
      rfl
    · cases habi
  cases h : logRequest.resolve default 0 [(lit "demo", logAbi)] alice logContext with
  | error e =>
    rw [h] at hresolves
    cases hresolves
  | ok resolved =>
    obtain ⟨callback, hcallback, hback⟩ := fromPayload_getCallback SigningRequest.storedZlib
      SigningRequest.storedZlib_inverse default logRequest 0 [(lit "demo", logAbi)] alice logContext
      resolved h encodable_logRequest false (fun h => by cases h) (by decide) zeroSignature
      [zeroSignature] (some 5) (fun _ => .ok logAbi) hprovides 12345
    exact ⟨resolved, callback, rfl, hcallback, hback⟩

/-! ## What does not come back -/

/-- A payload whose uri is not read back is refused. -/
theorem fromPayload_of_error {z : Zlib} {p : Platform} {resolved : ResolvedSigningRequest}
    {zlib : Bool} {e : Error}
    (huri : SigningRequest.ofUri z p (resolved.request.encode z p none true (lit "esr" ++ [58]) zlib) =
      .error e) (now : ℤ) (abiProvider : Option AbiProvider) (sig : Signature)
    (more : List Signature) (blockNum : Option UInt32) :
    fromPayload z p now abiProvider (resolved.payload z p sig more blockNum zlib) = .error e := by
  have hreq : (resolved.payload z p sig more blockNum zlib).find "req" =
      some (.str (resolved.request.encode z p none true (lit "esr" ++ [58]) zlib)) := by
    rw [find_payload z p resolved sig more blockNum zlib (by decide) (by decide)]
    rfl
  unfold fromPayload
  rw [Json.valueStr_of_find hreq, ok_bind, huri]
  rfl

/-- A request that resolves, and whose payload is refused. -/
def Refused (request : SigningRequest) (zlib : Bool) : Prop :=
  ∃ resolved callback,
    request.resolve default 0 [] alice { logContext with chainId := some (.zero 32) } = .ok resolved ∧
    resolved.getCallback SigningRequest.storedZlib default [zeroSignature] none zlib =
      .ok (some callback) ∧
    ∃ e, fromPayload SigningRequest.storedZlib default 0 none callback.payload = .error e

/-- It is enough that the uri is not read back. -/
theorem refused_of_error {request : SigningRequest} {zlib : Bool} {resolved : ResolvedSigningRequest}
    (hresolve : request.resolve default 0 [] alice { logContext with chainId := some (.zero 32) } =
      .ok resolved) (hcallback : request.data.callback ≠ []) {e : Error}
    (huri : SigningRequest.ofUri SigningRequest.storedZlib default
      (request.encode SigningRequest.storedZlib default none true (lit "esr" ++ [58]) zlib) = .error e) :
    Refused request zlib := by
  obtain ⟨tx, h⟩ := SigningRequest.resolve_eq_ok.mp hresolve
  rw [← h.request_eq] at huri hcallback
  refine ⟨resolved, {
    url := templateUrl (resolved.payload SigningRequest.storedZlib default zeroSignature [] none zlib)
      resolved.request.data.callback.length resolved.request.data.callback
    background := resolved.request.data.background
    payload := resolved.payload SigningRequest.storedZlib default zeroSignature [] none zlib },
    hresolve, ?_, e, fromPayload_of_error huri 0 none zeroSignature [] none⟩
  unfold getCallback
  rw [if_neg hcallback]

/-- A request with a callback and no actions resolves in every context with TaPoS values. -/
theorem resolve_callbackRequest (callback : Str) :
    ∃ resolved, (SigningRequest.callbackRequest callback).resolve default 0 [] alice
      { logContext with chainId := some (.zero 32) } = .ok resolved := ⟨_, rfl⟩

theorem refused_callbackRequest {callback : Str} {zlib : Bool} (hlen : 0 < callback.length)
    {e : Error}
    (huri : SigningRequest.ofUri SigningRequest.storedZlib default
      ((SigningRequest.callbackRequest callback).encode SigningRequest.storedZlib default none true
        (lit "esr" ++ [58]) zlib) = .error e) :
    Refused (SigningRequest.callbackRequest callback) zlib := by
  obtain ⟨resolved, hresolve⟩ := resolve_callbackRequest callback
  refine refused_of_error hresolve ?_ huri
  rintro (rfl : callback = [])
  cases hlen

/-- An identity request that asks for a broadcast. -/
def broadcastIdentity : SigningRequest where
  version := 3
  data := .v3 {
    req := .identity { scope := .ofString "dwarfkit" }
    flags := ⟨1⟩
    callback := "https://example.com/login" }

/-- What is read of a callback of `2 ^ 32` bytes `3`: none of it, and three info pairs. -/
def cutData : VersionedData :=
  .v2 { req := .actions [], callback := [], info := List.replicate 3 ⟨[3, 3, 3], [3, 3, 3]⟩ }

theorem sized_cutData : cutData.Sized := by
  refine ⟨⟨by decide, ?_⟩, ⟨by decide, by decide⟩, by decide, ?_⟩
  · intro action haction
    cases haction
  · intro pair hpair
    rw [List.eq_of_mem_replicate hpair]
    exact ⟨⟨by decide, by decide⟩, by decide⟩

theorem toABI_cutData :
    cutData.toABI = .ok ([0, 0] ++ [1, 0] ++ [0] ++ [0] ++ List.replicate 25 3) := by
  decide +kernel

/-- What stands behind them is no signature. -/
theorem fromData_cut (rest : Bytes) :
    SigningRequest.fromData SigningRequest.storedZlib default (2 ::
      ([0, 0] ++ [1, 0] ++ [0] ++ [0] ++ List.replicate 25 3 ++ (List.replicate 9 3 ++ rest))) =
      err .invalid "Unknown curve type" := by
  obtain ⟨bytes, hbytes, hread⟩ := SigningRequest.reads_data sized_cutData
  rw [toABI_cutData] at hbytes
  have hcut : [0, 0] ++ [1, 0] ++ [0] ++ [0] ++ List.replicate 25 3 = bytes := Except.ok.inj hbytes
  have hrun : (VersionedData.fromABI 2).run (bytes ++ (List.replicate 9 3 ++ rest)) =
      .ok (cutData, List.replicate 9 3 ++ rest) := hread (List.replicate 9 3 ++ rest)
  have hsignature : (SigningRequest.readSignature default).run (List.replicate 9 3 ++ rest) =
      err .invalid "Unknown curve type" := rfl
  have hheader : ((2 : UInt8) &&& ~~~SigningRequest.compressedFlag).toNat = 2 := by decide
  have hunpack : SigningRequest.unpack SigningRequest.storedZlib 2
      (bytes ++ (List.replicate 9 3 ++ rest)) = .ok (bytes ++ (List.replicate 9 3 ++ rest)) :=
    if_neg (by decide)
  rw [hcut]
  unfold SigningRequest.fromData
  simp only [hheader]
  rw [if_neg (by decide), hunpack, ok_bind, hrun, ok_bind]
  simp only [hsignature]
  rfl

/-- A callback of `2 ^ 32` bytes is cut off by its length prefix. -/
theorem ofUri_encode_cut :
    SigningRequest.ofUri SigningRequest.storedZlib default
      ((SigningRequest.callbackRequest (List.replicate (2 ^ 32) 3)).encode SigningRequest.storedZlib
        default none true (lit "esr" ++ [58]) false) =
      err .invalid "Unknown curve type" := by
  have hlength : (2 ^ 32 : ℕ).toUInt32 = 0 := by decide
  obtain ⟨n, hn⟩ : ∃ n, 2 ^ 32 = 25 + (9 + n) := ⟨2 ^ 32 - 34, by norm_num⟩
  rw [hn] at hlength ⊢
  have hwrite : writeString (List.replicate (25 + (9 + n)) (3 : UInt8)) =
      [0] ++ (List.replicate 25 3 ++ (List.replicate 9 3 ++ List.replicate n 3)) := by
    unfold writeString
    rw [List.length_replicate, hlength, List.replicate_add, List.replicate_add]
    rfl
  have huri := SigningRequest.ofUri_scheme SigningRequest.storedZlib default
    (show 58 ∉ lit "esr" by decide) true (SigningRequest.pack SigningRequest.storedZlib false 2
      ((SigningRequest.callbackRequest (List.replicate (25 + (9 + n)) 3)).getData ++ []))
  refine Eq.trans huri ?_
  rw [SigningRequest.getData_callbackRequest, hwrite]
  show SigningRequest.fromData SigningRequest.storedZlib default (2 :: _) = _
  have hpayload : [0, 0] ++ [1, 0] ++ [0] ++ ([0] ++ (List.replicate 25 (3 : UInt8) ++
        (List.replicate 9 3 ++ List.replicate n 3))) ++ [0] ++ [] =
      [0, 0] ++ [1, 0] ++ [0] ++ [0] ++ List.replicate 25 3 ++
        (List.replicate 9 3 ++ (List.replicate n 3 ++ [0])) := by
    simp only [List.append_assoc, List.append_nil]
  rw [hpayload]
  exact fromData_cut _

/-- A broadcast identity request, a callback that is no UTF-8, a callback too long for its
length prefix and a compressed request above the inflate cap resolve, and their payloads are
refused. -/
theorem payloads_refused :
    Refused broadcastIdentity false ∧ Refused (SigningRequest.callbackRequest [0xff]) false ∧
    Refused (SigningRequest.callbackRequest (List.replicate (2 ^ 32) 3)) false ∧
    Refused (SigningRequest.callbackRequest (List.replicate maxInflateOutput 97)) true := by
  refine ⟨?_, ?_, ?_, ?_⟩
  · obtain ⟨resolved, hresolve, -⟩ := SigningRequest.resolve_identity default
      (show broadcastIdentity.version = 3 from rfl) rfl rfl 0 [] alice
      (show broadcastIdentity.resolveChain { logContext with chainId := some (.zero 32) } =
        .ok (.zero 32) from rfl)
    have huri : SigningRequest.ofUri SigningRequest.storedZlib default
        (broadcastIdentity.encode SigningRequest.storedZlib default none true (lit "esr" ++ [58])
          false) =
        err .invalid "Invalid request (identity request cannot be broadcast)" := by decide +kernel
    exact refused_of_error hresolve (by decide) huri
  · have huri : SigningRequest.ofUri SigningRequest.storedZlib default
        ((SigningRequest.callbackRequest [0xff]).encode SigningRequest.storedZlib default none true
          (lit "esr" ++ [58]) false) =
        err .invalid "Invalid UTF-8 data" := by decide +kernel
    exact refused_callbackRequest (by decide) huri
  · exact refused_callbackRequest (by rw [List.length_replicate]; norm_num) ofUri_encode_cut
  · exact refused_callbackRequest (by rw [List.length_replicate]; decide)
      (SigningRequest.ofUri_encode_large le_rfl default)

end ResolvedSigningRequest

end Dwarfkit
