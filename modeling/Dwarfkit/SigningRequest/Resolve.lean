/-
# Resolving signing requests

`resolveActions`, `resolveTransaction` and `resolve` of
`signing_request/signing_request.cpp`: the actions of a request with their data
decoded and its placeholders replaced by the signer, the TaPoS values of a context,
the data encoded again, and the chain.

* `resolve_eq_ok` : what a resolution is made of;
* `resolve_congr` : it depends on the ABIs of the required accounts only.
-/
import Dwarfkit.Antelope.Serializer.Serializer
import Dwarfkit.SigningRequest.Abi

namespace Dwarfkit

open Wire

/-! ## ABIs -/

/-- `AbiMap`, by account name. -/
abbrev AbiMap := List (Str × ABI)

namespace AbiMap

/-- `find`. -/
def find (abis : AbiMap) (account : Str) : Option ABI :=
  (abis.find? (fun entry => entry.1 = account)).map Prod.snd

/-- `emplace`: an entry that is there stays. -/
def emplace (abis : AbiMap) (account : Str) (abi : ABI) : AbiMap :=
  match abis.find account with
  | some _ => abis
  | none => abis ++ [(account, abi)]

end AbiMap

/-- `AbiProvider`. -/
abbrev AbiProvider := Name → Result ABI

/-- The name of the identity action. -/
def identityName : Name := .ofString "identity"

/-- `isIdentityAction`. -/
def isIdentityAction (account name : Name) : Bool := account.value = 0 ∧ name = identityName

/-- `identityAbi`: the synthesized ABI of the identity struct of a version, with its
action. -/
def identityAbi (version : ℕ) : ABI where
  structs := [
    { name := "permission_level", base := [], fields := [
      { name := "actor", type := "name" }, { name := "permission", type := "name" }] },
    { name := "identity", base := [], fields :=
      (if version = 2 then [] else [{ name := "scope", type := "name" }]) ++
        [{ name := "permission", type := "permission_level?" }] }]
  actions := [{ name := identityName, type := "identity", ricardian_contract := [] }]

/-! ## Resolved data -/

/-- `ResolvedAction`. -/
structure ResolvedAction where
  account : Name
  name : Name
  authorization : List PermissionLevel
  data : Json

/-- `ResolvedTransaction`. -/
structure ResolvedTransaction extends TransactionHeader where
  context_free_actions : List ResolvedAction
  actions : List ResolvedAction
  transaction_extensions : List TransactionExtension

/-- `TransactionContext`. -/
structure TransactionContext where
  timestamp : Option TimePointSec := none
  expire_seconds : Option UInt32 := none
  block_num : Option UInt32 := none
  ref_block_num : Option UInt16 := none
  ref_block_prefix : Option UInt32 := none
  expiration : Option TimePointSec := none
  chainId : Option ChainId := none

/-- `ResolvedSigningRequest`. -/
structure ResolvedSigningRequest where
  request : SigningRequest
  signer : PermissionLevel
  transaction : Transaction
  resolvedTransaction : ResolvedTransaction
  chainId : ChainId

/-- `hasTapos`. -/
def TransactionHeader.hasTapos (tx : TransactionHeader) : Bool :=
  ¬ (tx.expiration.value = 0 ∧ tx.ref_block_num = 0 ∧ tx.ref_block_prefix = 0)

/-- `expirationTime`, with the current time in milliseconds. -/
def expirationTime (now : ℤ) (timestamp : Option TimePointSec) (expireSeconds : Option UInt32) :
    TimePointSec :=
  let ts := timestamp.getD (.fromMilliseconds now)
  ⟨ts.value + expireSeconds.getD 60⟩

/-! ## Placeholders -/

mutual

/-- The placeholder walk over decoded data: a text that is a placeholder becomes the
signer's name. -/
def resolvePlaceholders (signer : PermissionLevel) : Json → Json
  | .str s =>
    if s = lit "............1" then .str signer.actor.toString
    else if s = lit "............2" then .str signer.permission.toString
    else .str s
  | .arr items => .arr (resolveItems signer items)
  | .obj members => .obj (resolveMembers signer members)
  | j => j

def resolveItems (signer : PermissionLevel) : List Json → List Json
  | [] => []
  | item :: items => resolvePlaceholders signer item :: resolveItems signer items

def resolveMembers (signer : PermissionLevel) : List (Str × Json) → List (Str × Json)
  | [] => []
  | (key, item) :: members => (key, resolvePlaceholders signer item) :: resolveMembers signer members

end

/-- The placeholders of an authorization; the actor's also stands for the permission. -/
def resolveAuth (signer auth : PermissionLevel) : PermissionLevel :=
  let actor := if auth.actor = placeholderName then signer.actor else auth.actor
  let permission :=
    if auth.permission = placeholderPermission then signer.permission else auth.permission
  let permission := if permission = placeholderName then signer.permission else permission
  { actor, permission }

/-- `Action::decodeData`. -/
def Action.decodeData (p : Platform) (action : Action) (abi : ABI) : Result Json :=
  match abi.getActionType action.name with
  | none => err .invalid (lit "Action " ++ action.name.toString ++
      lit " does not exist in provided ABI")
  | some type => Serializer.decode p action.data type abi

/-- The ABI an action is read with. -/
def actionAbi (version : ℕ) (abis : AbiMap) (account name : Name) : Result ABI :=
  if isIdentityAction account name then .ok (identityAbi version)
  else match abis.find account.toString with
    | some abi => .ok abi
    | none => err .invalid (lit "Missing ABI definition for " ++ account.toString)

namespace SigningRequest

/-! ## Required ABIs -/

/-- `getRequiredAbis`. -/
def getRequiredAbis (request : SigningRequest) : List Name :=
  match request.getRawActions with
  | .error _ => []
  | .ok actions => actions.foldl (fun rv action =>
      if isIdentityAction action.account action.name then rv
      else if action.account ∈ rv then rv else rv ++ [action.account]) []

/-- `fetchAbis`. -/
def fetchAbis (request : SigningRequest) (abiProvider : Option AbiProvider) : Result AbiMap :=
  let required := request.getRequiredAbis
  if required = [] then .ok []
  else match abiProvider with
    | none => err .invalid "Missing ABI provider"
    | some getAbi => required.foldlM (fun abis account => do
        let abi ← getAbi account
        return abis.emplace account.toString abi) []

/-! ## Actions -/

/-- One action of `resolveActions`. -/
def resolveAction (p : Platform) (version : ℕ) (abis : AbiMap) (signer : Option PermissionLevel)
    (action : Action) : Result ResolvedAction := do
  let abi ← actionAbi version abis action.account action.name
  match abi.getActionType action.name with
  | none => err .invalid (lit "Missing type for action " ++ action.account.toString ++ lit ":" ++
      action.name.toString ++ lit " in ABI")
  | some _ => do
    let data ← action.decodeData p abi
    match signer with
    | none =>
      return { account := action.account, name := action.name,
               authorization := action.authorization, data }
    | some signer =>
      return { account := action.account, name := action.name,
               authorization := action.authorization.map (resolveAuth signer),
               data := resolvePlaceholders signer data }

/-- `resolveActions`. -/
def resolveActions (p : Platform) (request : SigningRequest) (abis : AbiMap)
    (signer : Option PermissionLevel) : Result (List ResolvedAction) := do
  let rawActions ← request.getRawActions
  rawActions.mapM (resolveAction p request.version abis signer)

/-! ## TaPoS values -/

/-- The header of the transaction in a context: explicit values, a reference block, or
its own.  An identity request from version 3 on only expires. -/
def taposHeader (request : SigningRequest) (now : ℤ) (ctx : TransactionContext)
    (tx : TransactionHeader) : Result TransactionHeader :=
  if request.isIdentity = false ∧ tx.hasTapos = false then
    match ctx.expiration, ctx.ref_block_num, ctx.ref_block_prefix with
    | some expiration, some ref_block_num, some ref_block_prefix =>
      .ok { tx with expiration, ref_block_num, ref_block_prefix }
    | _, _, _ =>
      match ctx.block_num, ctx.ref_block_prefix, ctx.timestamp with
      | some block_num, some ref_block_prefix, some timestamp =>
        .ok { tx with
          expiration := expirationTime now (some timestamp) ctx.expire_seconds
          ref_block_num := (block_num &&& 0xffff).toUInt16
          ref_block_prefix := ref_block_prefix }
      | _, _, _ => err .invalid (lit "Invalid transaction context, need either a reference block " ++
          lit "or explicit TaPoS values")
  else if request.isIdentity = true ∧ 2 < request.version then
    .ok { tx with
      expiration := ctx.expiration.getD (expirationTime now ctx.timestamp ctx.expire_seconds) }
  else .ok tx

/-- A context free action as it is carried over: its data as hex text. -/
def carryContextFree (action : Action) : ResolvedAction where
  account := action.account
  name := action.name
  authorization := action.authorization
  data := .str (arrayToHex action.data)

/-- `resolveTransaction`. -/
def resolveTransaction (p : Platform) (request : SigningRequest) (now : ℤ) (abis : AbiMap)
    (signer : PermissionLevel) (ctx : TransactionContext) : Result ResolvedTransaction := do
  let tx ← request.getRawTransaction
  let header ← request.taposHeader now ctx tx.toTransactionHeader
  let actions ← request.resolveActions p abis (some signer)
  return { header with
    context_free_actions := tx.context_free_actions.map carryContextFree
    actions
    transaction_extensions := tx.transaction_extensions }

/-! ## Chains -/

/-- `getChainId`. -/
def getChainId (request : SigningRequest) : Result ChainId := variantChainId request.data.chain_id

/-- `getRawInfoKey`: the first pair of a key. -/
def getRawInfoKey (request : SigningRequest) (key : Str) : Option Bytes :=
  (request.data.info.find? (fun pair => pair.key = key)).map (·.value)

/-- `getChainIds`. -/
def getChainIds (request : SigningRequest) : Result (Option (List ChainId)) :=
  if request.isMultiChain = false then .ok none
  else match request.getRawInfoKey "chain_ids" with
    | none => .ok none
    | some raw => do
      let (variants, _) ← AbiTraits.chainIdVariant.vector.fromABI.run raw
      let rv ← variants.mapM variantChainId
      return some rv

/-- The chain a request is resolved for. -/
def resolveChain (request : SigningRequest) (ctx : TransactionContext) : Result ChainId :=
  if request.isMultiChain then
    match ctx.chainId with
    | none => err .invalid "Missing chosen chain ID for multi-chain request"
    | some chainId => do
      let ids ← request.getChainIds
      match ids with
      | some ids =>
        if chainId ∈ ids then return chainId
        else err .invalid "Trying to resolve for chain ID not defined in request"
      | none => return chainId
  else request.getChainId

/-! ## Resolution -/

/-- One action of `resolve`: its data is encoded again. -/
def encodeAction (p : Platform) (version : ℕ) (abis : AbiMap) (action : ResolvedAction) :
    Result Action := do
  let abi ← actionAbi version abis action.account action.name
  match abi.getActionType action.name with
  | none => err .invalid "Missing action type"
  | some type => do
    let data ← Serializer.encode p action.data type abi
    return { account := action.account, name := action.name,
             authorization := action.authorization, data }

/-- A context free action of `resolve`: its data comes from hex text. -/
def encodeContextFree (action : ResolvedAction) : Result Action :=
  match action.data with
  | .str text => do
    let data ← hexToArray text
    return { account := action.account, name := action.name,
             authorization := action.authorization, data }
  | _ => .ok { account := action.account, name := action.name,
               authorization := action.authorization }

/-- `resolve`. -/
def resolve (p : Platform) (request : SigningRequest) (now : ℤ) (abis : AbiMap)
    (signer : PermissionLevel) (ctx : TransactionContext) : Result ResolvedSigningRequest := do
  let tx ← request.resolveTransaction p now abis signer ctx
  let actions ← tx.actions.mapM (encodeAction p request.version abis)
  let context_free_actions ← tx.context_free_actions.mapM encodeContextFree
  let transaction : Transaction := { tx.toTransactionHeader with
    context_free_actions
    actions
    transaction_extensions := tx.transaction_extensions }
  let chainId ← request.resolveChain ctx
  return { request, signer, transaction, resolvedTransaction := tx, chainId }

/-! ## What a resolution is made of -/

/-- Context free actions are carried over as they are. -/
theorem encodeContextFree_carryContextFree (action : Action) :
    encodeContextFree (carryContextFree action) = .ok action := by
  unfold encodeContextFree carryContextFree
  simp only [hexToArray_arrayToHex, ok_bind]
  rfl

theorem mapM_encodeContextFree (actions : List Action) :
    (actions.map carryContextFree).mapM encodeContextFree = .ok actions := by
  induction actions with
  | nil => rfl
  | cons action actions ih =>
    rw [List.map_cons, List.mapM_cons, encodeContextFree_carryContextFree, ok_bind, ih]
    rfl

/-- A successful resolution: the raw transaction, its header in the context, its actions
decoded, resolved and encoded, and the chain. -/
structure Resolution (p : Platform) (request : SigningRequest) (now : ℤ) (abis : AbiMap)
    (signer : PermissionLevel) (ctx : TransactionContext) (resolved : ResolvedSigningRequest)
    (tx : Transaction) : Prop where
  raw : request.getRawTransaction = .ok tx
  tapos : request.taposHeader now ctx tx.toTransactionHeader =
    .ok resolved.transaction.toTransactionHeader
  decoded : request.resolveActions p abis (some signer) = .ok resolved.resolvedTransaction.actions
  encoded : resolved.resolvedTransaction.actions.mapM (encodeAction p request.version abis) =
    .ok resolved.transaction.actions
  contextFree : resolved.transaction.context_free_actions = tx.context_free_actions
  extensions : resolved.transaction.transaction_extensions = tx.transaction_extensions
  resolvedTransaction : resolved.resolvedTransaction = {
    resolved.transaction.toTransactionHeader with
    context_free_actions := tx.context_free_actions.map carryContextFree
    actions := resolved.resolvedTransaction.actions
    transaction_extensions := tx.transaction_extensions }
  chain : request.resolveChain ctx = .ok resolved.chainId
  request_eq : resolved.request = request
  signer_eq : resolved.signer = signer

/-- **What a resolution is made of.** -/
theorem resolve_eq_ok {p : Platform} {request : SigningRequest} {now : ℤ} {abis : AbiMap}
    {signer : PermissionLevel} {ctx : TransactionContext} {resolved : ResolvedSigningRequest} :
    request.resolve p now abis signer ctx = .ok resolved ↔
      ∃ tx, Resolution p request now abis signer ctx resolved tx := by
  constructor
  · intro h
    obtain ⟨resolvedTx, htx, h⟩ := bind_eq_ok.mp h
    obtain ⟨actions, hactions, h⟩ := bind_eq_ok.mp h
    obtain ⟨contextFree, hcontextFree, h⟩ := bind_eq_ok.mp h
    obtain ⟨chainId, hchain, h⟩ := bind_eq_ok.mp h
    cases h
    obtain ⟨tx, hraw, htx⟩ := bind_eq_ok.mp htx
    obtain ⟨header, htapos, htx⟩ := bind_eq_ok.mp htx
    obtain ⟨decoded, hdecoded, htx⟩ := bind_eq_ok.mp htx
    cases htx
    -- The data of a context free action is its bytes in hex, which are read back.
    rw [mapM_encodeContextFree] at hcontextFree
    cases hcontextFree
    exact ⟨tx, hraw, htapos, hdecoded, hactions, rfl, rfl, rfl, hchain, rfl, rfl⟩
  · rintro ⟨tx, h⟩
    obtain ⟨request', signer', transaction, resolvedTx, chainId⟩ := resolved
    obtain ⟨hraw, htapos, hdecoded, hencoded, hcontextFree, hextensions, hresolved, hchain,
      hrequest, hsigner⟩ := h
    simp only at hraw htapos hdecoded hencoded hcontextFree hextensions hresolved hchain hrequest hsigner
    have htx : request.resolveTransaction p now abis signer ctx = .ok resolvedTx := by
      unfold resolveTransaction
      rw [hraw, ok_bind, htapos, ok_bind, hdecoded, ok_bind, hresolved]
      rfl
    unfold resolve
    rw [htx, ok_bind, hencoded, ok_bind, hresolved]
    simp only [mapM_encodeContextFree, ok_bind, hchain]
    subst hrequest hsigner
    rw [← hcontextFree, ← hextensions]
    rfl

/-! ## The ABIs a resolution reads -/

/-- The accounts of a list of actions, without the identity action. -/
theorem mem_requiredAbis {actions : List Action} {rv : List Name} {account : Name} :
    account ∈ actions.foldl (fun rv action =>
      if isIdentityAction action.account action.name then rv
      else if action.account ∈ rv then rv else rv ++ [action.account]) rv ↔
    account ∈ rv ∨ ∃ action ∈ actions, isIdentityAction action.account action.name = false ∧
      action.account = account := by
  induction actions generalizing rv with
  | nil => simp
  | cons action actions ih =>
    rw [List.foldl_cons, ih]
    by_cases hidentity : isIdentityAction action.account action.name = true
    · rw [if_pos hidentity]
      simp [hidentity]
    · rw [if_neg hidentity]
      have hfalse : isIdentityAction action.account action.name = false := by simpa using hidentity
      -- An account that is listed already is not listed again.
      by_cases hmem : action.account ∈ rv
      · rw [if_pos hmem]
        constructor
        · rintro (hrv | ⟨other, hother, h⟩)
          · exact .inl hrv
          · exact .inr ⟨other, by simp [hother], h⟩
        · rintro (hrv | ⟨other, hother, hno, rfl⟩)
          · exact .inl hrv
          · rcases List.mem_cons.mp hother with rfl | hother
            · exact .inl hmem
            · exact .inr ⟨other, hother, hno, rfl⟩
      · rw [if_neg hmem, List.mem_append, List.mem_singleton]
        constructor
        · rintro ((hrv | rfl) | ⟨other, hother, h⟩)
          · exact .inl hrv
          · exact .inr ⟨action, by simp, hfalse, rfl⟩
          · exact .inr ⟨other, by simp [hother], h⟩
        · rintro (hrv | ⟨other, hother, hno, rfl⟩)
          · exact .inl (.inl hrv)
          · rcases List.mem_cons.mp hother with rfl | hother
            · exact .inl (.inr rfl)
            · exact .inr ⟨other, hother, hno, rfl⟩

/-- Maps with the same ABIs for the required accounts of a request. -/
def SameAbis (request : SigningRequest) (abis abis' : AbiMap) : Prop :=
  ∀ account ∈ request.getRequiredAbis, abis.find account.toString = abis'.find account.toString

theorem SameAbis.actionAbi {request : SigningRequest} {abis abis' : AbiMap}
    (h : request.SameAbis abis abis') {actions : List Action} (hraw : request.getRawActions = .ok actions)
    {action : Action} (hmem : action ∈ actions) (version : ℕ) :
    actionAbi version abis action.account action.name =
      actionAbi version abis' action.account action.name := by
  unfold Dwarfkit.actionAbi
  by_cases hidentity : isIdentityAction action.account action.name = true
  · rw [if_pos hidentity, if_pos hidentity]
  · rw [if_neg hidentity, if_neg hidentity, h action.account]
    unfold getRequiredAbis
    rw [hraw]
    exact mem_requiredAbis.mpr (.inr ⟨action, hmem, by simpa using hidentity, rfl⟩)

/-- Decoding keeps the account and the name of an action. -/
theorem resolveAction_eq_ok {p : Platform} {version : ℕ} {abis : AbiMap} {signer : PermissionLevel}
    {action : Action} {rv : ResolvedAction}
    (h : resolveAction p version abis (some signer) action = .ok rv) :
    rv.account = action.account ∧ rv.name = action.name ∧
      rv.authorization = action.authorization.map (resolveAuth signer) ∧
      ∃ abi type data, actionAbi version abis action.account action.name = .ok abi ∧
        abi.getActionType action.name = some type ∧
        Serializer.decode p action.data type abi = .ok data ∧
        rv.data = resolvePlaceholders signer data := by
  obtain ⟨abi, habi, h⟩ := bind_eq_ok.mp h
  cases htype : abi.getActionType action.name with
  | none =>
    rw [htype] at h
    cases h
  | some type =>
    rw [htype] at h
    obtain ⟨data, hdata, h⟩ := bind_eq_ok.mp h
    cases h
    unfold Action.decodeData at hdata
    rw [htype] at hdata
    exact ⟨rfl, rfl, rfl, abi, type, data, habi, htype, hdata, rfl⟩

/-- **A resolution depends on the ABIs of the required accounts only.** -/
theorem resolve_congr {p : Platform} {request : SigningRequest} {now : ℤ} {abis abis' : AbiMap}
    {signer : PermissionLevel} {ctx : TransactionContext} {resolved : ResolvedSigningRequest}
    (hsame : request.SameAbis abis abis')
    (h : request.resolve p now abis signer ctx = .ok resolved) :
    request.resolve p now abis' signer ctx = .ok resolved := by
  obtain ⟨tx, h⟩ := resolve_eq_ok.mp h
  refine resolve_eq_ok.mpr ⟨tx, { h with decoded := ?_, encoded := ?_ }⟩
  · obtain ⟨actions, hraw, hdecoded⟩ := bind_eq_ok.mp h.decoded
    unfold resolveActions
    rw [hraw, ok_bind, ← hdecoded]
    refine mapM_congr (fun action hmem => ?_)
    unfold resolveAction
    rw [hsame.actionAbi hraw hmem]
  · obtain ⟨actions, hraw, hdecoded⟩ := bind_eq_ok.mp h.decoded
    rw [← h.encoded]
    refine mapM_congr (fun rv hmem => ?_)
    obtain ⟨action, haction, hresolve⟩ := mem_of_mapM hdecoded hmem
    obtain ⟨haccount, hname, -⟩ := resolveAction_eq_ok hresolve
    unfold encodeAction
    rw [haccount, hname, hsame.actionAbi hraw haction]

end SigningRequest

/-! ## Identity requests -/

/-- The resolved types of a version 3 identity. -/
def identityArena : ABI.Arena := [
  { name := "identity", fields := some [("scope", 1), ("permission", 2)] },
  { name := "name" },
  { name := "permission_level", isOptional := true,
    fields := some [("actor", 1), ("permission", 1)] }]

theorem resolveType_identity : (identityAbi 3).resolveType "identity" = (identityArena, 0) := by
  decide +kernel

/-- The json of an identity with a permission. -/
def identityData (scope actor permission : Str) : Json :=
  .obj [("scope", .str scope),
    ("permission", .obj [("actor", .str actor), ("permission", .str permission)])]

/-- The bytes of an identity with a permission. -/
def identityBytes (scope actor permission : Name) : Bytes :=
  writeInt 8 scope.value.toNat ++
    1 :: (writeInt 8 actor.value.toNat ++ writeInt 8 permission.value.toNat)

theorem identityV3_toABI (scope : Name) (permission : PermissionLevel) :
    IdentityV3.toABI { scope, permission := some permission } =
      .ok (identityBytes scope permission.actor permission.permission) := rfl

/-- An identity is written from its names. -/
theorem encode_identityData (p : Platform) (scope actor permission : Str) :
    Serializer.encode p (identityData scope actor permission) "identity" (identityAbi 3) =
      .ok (identityBytes (.ofString scope) (.ofString actor) (.ofString permission)) := by
  unfold Serializer.encode
  rw [resolveType_identity]
  rfl

/-- Eight bytes are read as a name. -/
theorem name_of_writeInt (n : Name) : (⟨UInt64.ofNat (leValue (writeInt 8 n.value.toNat))⟩ : Name) = n := by
  have hlt := n.value.toNat_lt
  unfold writeInt
  rw [leValue_leBytes (by omega), UInt64.ofNat_toNat]

/-- An identity is read back as its names. -/
theorem decode_identityBytes (p : Platform) (scope actor permission : Name) :
    Serializer.decode p (identityBytes scope actor permission) "identity" (identityAbi 3) =
      .ok (identityData scope.toString actor.toString permission.toString) := by
  -- the walk over three blocks of eight bytes, whatever they hold
  have hwalk : ∀ a b c : Bytes, a.length = 8 → b.length = 8 → c.length = 8 →
      (decodeBinary p identityArena 33 (Serializer.rootPath (identityArena.node 0))
        (identityArena.node 0)).run (a ++ 1 :: (b ++ c)) =
      .ok (identityData (Name.toString ⟨UInt64.ofNat (leValue a)⟩)
        (Name.toString ⟨UInt64.ofNat (leValue b)⟩) (Name.toString ⟨UInt64.ofNat (leValue c)⟩), []) := by
    intro a b c ha hb hc
    match a, ha with
    | [_, _, _, _, _, _, _, _], _ =>
      match b, hb with
      | [_, _, _, _, _, _, _, _], _ =>
        match c, hc with
        | [_, _, _, _, _, _, _, _], _ => rfl
  have hread := hwalk _ _ _ (length_leBytes 8 scope.value.toNat) (length_leBytes 8 actor.value.toNat)
    (length_leBytes 8 permission.value.toNat)
  unfold Serializer.decode Serializer.decodeFront
  rw [resolveType_identity]
  show Prod.fst <$> Except.mapError _ ((decodeBinary p identityArena 33 _ _).run
    (writeInt 8 scope.value.toNat ++
      1 :: (writeInt 8 actor.value.toNat ++ writeInt 8 permission.value.toNat))) = _
  have hscope := name_of_writeInt scope
  have hactor := name_of_writeInt actor
  have hpermission := name_of_writeInt permission
  unfold writeInt at hscope hactor hpermission ⊢
  rw [hread, hscope, hactor, hpermission]
  rfl

/-- A name in resolved data: the placeholders stand for the signer's names. -/
def resolveName (signer : PermissionLevel) (n : Name) : Name :=
  if n = placeholderName then signer.actor
  else if n = placeholderPermission then signer.permission
  else n

/-- The text of a name is resolved as the name. -/
theorem resolvePlaceholders_name (signer : PermissionLevel) (n : Name) :
    resolvePlaceholders signer (.str n.toString) = .str (resolveName signer n).toString := by
  have htext : ∀ placeholder : Name, n.toString = placeholder.toString ↔ n = placeholder := by
    intro placeholder
    constructor
    · intro h
      rw [← Name.ofString_toString n, h, Name.ofString_toString]
    · rintro rfl
      rfl
  have hactor : lit "............1" = placeholderName.toString := by decide +kernel
  have hpermission : lit "............2" = placeholderPermission.toString := by decide +kernel
  unfold resolvePlaceholders resolveName
  rw [hactor, hpermission]
  simp only [htext]
  split
  · rfl
  · split
    · rfl
    · rfl

/-- The placeholders of an identity are those of its names. -/
theorem resolvePlaceholders_identityData (signer : PermissionLevel) (scope actor permission : Name) :
    resolvePlaceholders signer (identityData scope.toString actor.toString permission.toString) =
      identityData (resolveName signer scope).toString (resolveName signer actor).toString
        (resolveName signer permission).toString := by
  have hscope := resolvePlaceholders_name signer scope
  have hactor := resolvePlaceholders_name signer actor
  have hpermission := resolvePlaceholders_name signer permission
  unfold identityData
  rw [resolvePlaceholders, resolveMembers, resolveMembers, resolveMembers, hscope,
    resolvePlaceholders, resolveMembers, resolveMembers, resolveMembers, hactor, hpermission]

namespace SigningRequest

/-- The permission an identity request asks for. -/
def requestedPermission (identity : IdentityV3) : PermissionLevel :=
  identity.permission.getD placeholderAuth

/-- The action of an identity request of version 3. -/
def identityV3Action (identity : IdentityV3) : Action :=
  identityAction [requestedPermission identity] (identityBytes identity.scope
    (requestedPermission identity).actor (requestedPermission identity).permission)

/-- The action as it is resolved. -/
def resolvedIdentity (signer : PermissionLevel) (identity : IdentityV3) : ResolvedAction where
  account := .ofString ""
  name := .ofString "identity"
  authorization := [resolveAuth signer (requestedPermission identity)]
  data := identityData (resolveName signer identity.scope).toString
    (resolveName signer (requestedPermission identity).actor).toString
    (resolveName signer (requestedPermission identity).permission).toString

/-- The action as it is signed. -/
def signedIdentityAction (signer : PermissionLevel) (identity : IdentityV3) : Action :=
  identityAction [resolveAuth signer (requestedPermission identity)]
    (identityBytes (resolveName signer identity.scope)
      (resolveName signer (requestedPermission identity).actor)
      (resolveName signer (requestedPermission identity).permission))

theorem actionAbi_identity (abis : AbiMap) :
    actionAbi 3 abis (.ofString "") (.ofString "identity") = .ok (identityAbi 3) :=
  if_pos (by decide)

theorem getActionType_identity :
    (identityAbi 3).getActionType (.ofString "identity") = some (lit "identity") := by
  decide

/-- The action of an identity request is decoded and its placeholders are resolved. -/
theorem resolveAction_identity (p : Platform) (abis : AbiMap) (signer : PermissionLevel)
    (identity : IdentityV3) :
    resolveAction p 3 abis (some signer) (identityV3Action identity) =
      .ok (resolvedIdentity signer identity) := by
  have habi : actionAbi 3 abis (identityV3Action identity).account (identityV3Action identity).name =
      .ok (identityAbi 3) := actionAbi_identity abis
  have htype : (identityAbi 3).getActionType (identityV3Action identity).name =
      some (lit "identity") := getActionType_identity
  unfold resolveAction Action.decodeData
  rw [habi, ok_bind, htype]
  simp only
  have hdecode := decode_identityBytes p identity.scope (requestedPermission identity).actor
    (requestedPermission identity).permission
  show (Serializer.decode p (identityBytes _ _ _) _ _ >>= fun data => _) = _
  rw [hdecode, ok_bind]
  simp only [resolvePlaceholders_identityData]
  rfl

/-- The resolved action is encoded from its names. -/
theorem encodeAction_identity (p : Platform) (abis : AbiMap) (signer : PermissionLevel)
    (identity : IdentityV3) :
    encodeAction p 3 abis (resolvedIdentity signer identity) =
      .ok (signedIdentityAction signer identity) := by
  have habi : actionAbi 3 abis (resolvedIdentity signer identity).account
      (resolvedIdentity signer identity).name = .ok (identityAbi 3) := actionAbi_identity abis
  have htype : (identityAbi 3).getActionType (resolvedIdentity signer identity).name =
      some (lit "identity") := getActionType_identity
  unfold encodeAction
  rw [habi, ok_bind, htype]
  show (Serializer.encode p (identityData _ _ _) _ _ >>= fun data => _) = _
  rw [encode_identityData, ok_bind]
  simp only [Name.ofString_toString]
  rfl

/-- **A version 3 identity request resolves** in every context in which its chain does, to the
identity action of its names. -/
theorem resolve_identityV3 (p : Platform) {request : SigningRequest} {d : RequestData IdentityV3}
    {identity : IdentityV3} (hversion : request.version = 3) (hdata : request.data = .v3 d)
    (hreq : d.req = .identity identity) (now : ℤ) (abis : AbiMap) (signer : PermissionLevel)
    {ctx : TransactionContext} {chainId : ChainId} (hchain : request.resolveChain ctx = .ok chainId) :
    ∃ resolved, request.resolve p now abis signer ctx = .ok resolved ∧
      resolved.request = request ∧ resolved.signer = signer ∧ resolved.chainId = chainId ∧
      resolved.transaction = {
        expiration := resolved.transaction.expiration
        actions := [signedIdentityAction signer identity] } := by
  obtain ⟨version, data, signature⟩ := request
  obtain ⟨chain_id, req, flags, callback, info⟩ := d
  simp only at hversion hdata hreq
  subst hversion hdata hreq
  -- The identity action needs no ABI, so nothing here depends on the map.
  have hresolveActions : (SigningRequest.mk 3
      (.v3 ⟨chain_id, .identity identity, flags, callback, info⟩) signature).resolveActions p abis
      (some signer) = .ok [resolvedIdentity signer identity] := by
    show [identityV3Action identity].mapM (resolveAction p 3 abis (some signer)) = _
    rw [List.mapM_cons, resolveAction_identity]
    rfl
  let expiration := ctx.expiration.getD (expirationTime now ctx.timestamp ctx.expire_seconds)
  let resolved : ResolvedSigningRequest := {
    request := ⟨3, .v3 ⟨chain_id, .identity identity, flags, callback, info⟩, signature⟩
    signer
    transaction := { expiration, actions := [signedIdentityAction signer identity] }
    resolvedTransaction := {
      expiration
      context_free_actions := []
      actions := [resolvedIdentity signer identity]
      transaction_extensions := [] }
    chainId }
  refine ⟨resolved, resolve_eq_ok.mpr ⟨{ actions := [identityV3Action identity] }, {
    raw := rfl
    tapos := rfl
    decoded := hresolveActions
    encoded := ?_
    contextFree := rfl
    extensions := rfl
    resolvedTransaction := rfl
    chain := hchain
    request_eq := rfl
    signer_eq := rfl }⟩, rfl, rfl, rfl, rfl⟩
  show [resolvedIdentity signer identity].mapM (encodeAction p 3 abis) = _
  rw [List.mapM_cons, encodeAction_identity]
  rfl

/-- It resolves for that chain. -/
theorem resolve_identity (p : Platform) {request : SigningRequest} {d : RequestData IdentityV3}
    {identity : IdentityV3} (hversion : request.version = 3) (hdata : request.data = .v3 d)
    (hreq : d.req = .identity identity) (now : ℤ) (abis : AbiMap) (signer : PermissionLevel)
    {ctx : TransactionContext} {chainId : ChainId} (hchain : request.resolveChain ctx = .ok chainId) :
    ∃ resolved, request.resolve p now abis signer ctx = .ok resolved ∧ resolved.chainId = chainId := by
  obtain ⟨resolved, hresolved, -, -, hsame, -⟩ :=
    resolve_identityV3 p hversion hdata hreq now abis signer hchain
  exact ⟨resolved, hresolved, hsame⟩

end SigningRequest

end Dwarfkit
