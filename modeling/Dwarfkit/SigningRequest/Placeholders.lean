/-
# What a resolution changes

Resolving a request is to replace the placeholders in the `name` fields of its actions and
in their authorizations, and nothing else.  The code goes through json instead: the data is
decoded, every text that spells a placeholder is replaced, and what results is encoded.

`Related` is the relation a resolution should establish: two values of one ABI type that
differ at the leaves only, there as a relation of leaves says.  `Resolves` says it of the
data of an action.  It holds for data that the serializer gives back and whose decoded form
has no placeholder text but in its names.

* `related_resolvePlaceholders` : the walk over a normal form replaces names only;
* `resolve_changesOnlyPlaceholders` : neither does a resolution change anything else.
-/
import Dwarfkit.Antelope.Serializer.Lossless
import Dwarfkit.SigningRequest.Resolve

namespace Dwarfkit

open Wire

/-! ## Values that differ at their leaves -/

section Related

variable (p : Platform) (arena : ABI.Arena) (leaf : Str → Json → Json → Prop)

/-- Two values past the suffixes of their type. -/
def RelatedInner (next : Json → Json → ABI.ResolvedNode → Prop) (value value' : Json)
    (type : ABI.ResolvedNode) : Prop :=
  match followed p arena type with
  | some target => next value value' target
  | none =>
    match type.fields, type.variant with
    | some _, _ =>
      match arena.allFields type with
      | some fields => ∀ field ∈ fields,
          next (value.jsonAt field.1) (value'.jsonAt field.1) field.2
      | none => True
    | none, some variant =>
      (chosenAlternative value').1 = (chosenAlternative value).1 ∧
        match findAlternative arena variant (chosenAlternative value).1 with
        | some vIdx => next (chosenAlternative value).2 (chosenAlternative value').2
            (arena.node (variant.getD vIdx 0))
        | none => True
    | none, none =>
      match findBuiltin p type.name with
      | some _ => leaf type.name value value'
      | none => True

/-- Two values of a type that are null alike, have as many items, choose the same
alternatives, and are related at the builtins. -/
def Related : (fuel : ℕ) → Json → Json → ABI.ResolvedNode → Prop
  | 0, _, _, _ => True
  | fuel + 1, value, value', type =>
    value'.isNull = value.isNull ∧
      (value.isNull = false →
        if type.isArray then
          List.Forall₂ (fun item item' => RelatedInner p arena leaf (Related fuel) item item' type)
            value.elements value'.elements
        else RelatedInner p arena leaf (Related fuel) value value' type)

end Related

/-- A leaf of a resolution: a name is resolved, everything else stays. -/
def ResolvedLeaf (signer : PermissionLevel) (name : Str) (value value' : Json) : Prop :=
  if name = lit "name" then
    ∃ n, AbiTraits.name.fromJSON value = .ok n ∧
      AbiTraits.name.fromJSON value' = .ok (resolveName signer n)
  else value' = value

namespace Serializer

/-- The data is resolved as a value of the type: some value is written at its front, and in
its place one that differs in resolved names only. -/
def Resolves (p : Platform) (signer : PermissionLevel) (abi : ABI) (type : Str)
    (data data' : Bytes) : Prop :=
  let (arena, root) := abi.resolveType type
  ∃ value value' written written' rest,
    encode p value type abi = .ok written ∧ data = written ++ rest ∧
    encode p value' type abi = .ok written' ∧ data' = written' ++ rest ∧
    Related p arena (ResolvedLeaf signer) (maxCodingDepth + 1) value value' (arena.node root)

end Serializer

/-! ## Texts that are no placeholders -/

mutual

/-- No text of the json is a placeholder's. -/
def Unmarked : Json → Prop
  | .str s => s ≠ lit "............1" ∧ s ≠ lit "............2"
  | .arr items => UnmarkedItems items
  | .obj members => UnmarkedMembers members
  | _ => True

def UnmarkedItems : List Json → Prop
  | [] => True
  | item :: items => Unmarked item ∧ UnmarkedItems items

def UnmarkedMembers : List (Str × Json) → Prop
  | [] => True
  | (_, item) :: members => Unmarked item ∧ UnmarkedMembers members

end

/-! ## What holds along a type -/

section Everywhere

variable (p : Platform) (arena : ABI.Arena) (names : List Str → Prop) (alternative : Str → Prop)
  (leaf : Str → Json → Prop)

/-- What the walkers make of a value past the suffixes of its type. -/
def EverywhereInner (next : Json → ABI.ResolvedNode → Prop) (value : Json)
    (type : ABI.ResolvedNode) : Prop :=
  match followed p arena type with
  | some target => next value target
  | none =>
    match type.fields, type.variant with
    | some _, _ =>
      match arena.allFields type with
      | some fields => names (fields.map Prod.fst) ∧
          ∀ field ∈ fields, next (value.jsonAt field.1) field.2
      | none => True
    | none, some variant =>
      match findAlternative arena variant (chosenAlternative value).1 with
      | some vIdx => alternative (chosenAlternative value).1 ∧
          next (chosenAlternative value).2 (arena.node (variant.getD vIdx 0))
      | none => True
    | none, none => leaf type.name value

/-- `names` holds of the field names of every struct the walkers meet in a value, `alternative`
of the name of every alternative chosen, and `leaf` of every builtin's name and value. -/
def Everywhere : (fuel : ℕ) → Json → ABI.ResolvedNode → Prop
  | 0, _, _ => True
  | fuel + 1, value, type =>
    if value.isNull then True
    else if type.isArray then
      ∀ item ∈ value.elements, EverywhereInner p arena names alternative leaf (Everywhere fuel) item
        type
    else EverywhereInner p arena names alternative leaf (Everywhere fuel) value type

end Everywhere

/-- The json form of a builtin's value has no placeholder text, unless it is a name. -/
def UnmarkedLeaf (p : Platform) (name : Str) (value : Json) : Prop :=
  name ≠ lit "name" →
    ∀ b j, findBuiltin p name = some b → b.normalizeJSON value = .ok j → Unmarked j

/-- Only the names of the value, as `type`, are decoded to a placeholder's text. -/
def Unmistakable (p : Platform) (arena : ABI.Arena) :
    (fuel : ℕ) → Json → ABI.ResolvedNode → Prop :=
  Everywhere p arena (fun _ => True) (fun name => Unmarked (.str name)) (UnmarkedLeaf p)

namespace Serializer

/-- The data of a value that the serializer gives back and whose decoded form has placeholder
texts in its names only. -/
def Faithful (p : Platform) (abi : ABI) (type : Str) (data : Bytes) : Prop :=
  let (arena, root) := abi.resolveType type
  ∃ value, encode p value type abi = .ok data ∧ Reversible p abi type value ∧
    Lossless p abi type value ∧
    Unmistakable p arena (maxCodingDepth + 1) value (arena.node root)

end Serializer

/-! ## The walk over placeholders -/

theorem resolveItems_eq (signer : PermissionLevel) (items : List Json) :
    resolveItems signer items = items.map (resolvePlaceholders signer) := by
  induction items with
  | nil => rfl
  | cons item items ih => rw [resolveItems, ih, List.map_cons]

/-- The walk leaves the keys of an object. -/
theorem lookup_resolveMembers (signer : PermissionLevel) (members : List (Str × Json)) (key : Str) :
    Json.lookup (resolveMembers signer members) key =
      (Json.lookup members key).map (resolvePlaceholders signer) := by
  induction members with
  | nil => rfl
  | cons member members ih =>
    obtain ⟨k, item⟩ := member
    unfold Json.lookup at ih ⊢
    rw [resolveMembers, List.find?_cons, List.find?_cons]
    by_cases hk : k = key
    · simp only [hk, decide_true]
      rfl
    · simp only [hk, decide_false]
      exact ih

theorem jsonAt_resolveMembers (signer : PermissionLevel) (members : List (Str × Json)) (key : Str) :
    (Json.obj (resolveMembers signer members)).jsonAt key =
      resolvePlaceholders signer ((Json.obj members).jsonAt key) := by
  show (Json.lookup (resolveMembers signer members) key).getD .null =
    resolvePlaceholders signer ((Json.lookup members key).getD .null)
  rw [lookup_resolveMembers]
  cases Json.lookup members key with
  | none => rfl
  | some item => rfl

/-- The walk keeps null and nothing else null. -/
@[simp]
theorem isNull_resolvePlaceholders (signer : PermissionLevel) (j : Json) :
    (resolvePlaceholders signer j).isNull = j.isNull := by
  cases j with
  | str s =>
    rw [resolvePlaceholders]
    split
    · rfl
    · split
      · rfl
      · rfl
  | arr items => rw [resolvePlaceholders]; rfl
  | obj members => rw [resolvePlaceholders]; rfl
  | _ => rfl

mutual

/-- **The walk leaves what has no placeholder text.** -/
theorem resolvePlaceholders_unmarked (signer : PermissionLevel) :
    ∀ {j : Json}, Unmarked j → resolvePlaceholders signer j = j
  | .str s, h => by
    rw [Unmarked] at h
    rw [resolvePlaceholders, if_neg h.1, if_neg h.2]
  | .arr items, h => by
    rw [Unmarked] at h
    rw [resolvePlaceholders, resolveItems_unmarked signer h]
  | .obj members, h => by
    rw [Unmarked] at h
    rw [resolvePlaceholders, resolveMembers_unmarked signer h]
  | .null, _ => rfl
  | .bool _, _ => rfl
  | .uint _, _ => rfl
  | .int _, _ => rfl
  | .float _, _ => rfl

theorem resolveItems_unmarked (signer : PermissionLevel) :
    ∀ {items : List Json}, UnmarkedItems items → resolveItems signer items = items
  | [], _ => rfl
  | item :: items, h => by
    rw [UnmarkedItems] at h
    rw [resolveItems, resolvePlaceholders_unmarked signer h.1, resolveItems_unmarked signer h.2]

theorem resolveMembers_unmarked (signer : PermissionLevel) :
    ∀ {members : List (Str × Json)}, UnmarkedMembers members →
      resolveMembers signer members = members
  | [], _ => rfl
  | (key, item) :: members, h => by
    rw [UnmarkedMembers] at h
    rw [resolveMembers, resolvePlaceholders_unmarked signer h.1,
      resolveMembers_unmarked signer h.2]

end

/-! ## Normal forms -/

section Normal

variable {p : Platform} {arena : ABI.Arena} {signer : PermissionLevel}

/-- A name's json form is resolved as the name. -/
theorem resolvedLeaf_name {value j : Json} (h : (makeBuiltin AbiTraits.name).normalizeJSON value = .ok j) :
    ResolvedLeaf signer (lit "name") j (resolvePlaceholders signer j) := by
  obtain ⟨n, -, hj⟩ := bind_eq_ok.mp h
  obtain rfl : Json.str n.toString = j := Except.ok.inj hj
  unfold ResolvedLeaf
  rw [if_pos rfl, resolvePlaceholders_name]
  exact ⟨n, AbiTraits.name_readsJson.read n, AbiTraits.name_readsJson.read _⟩

variable (p arena signer)

/-- The walk over the normal form of a value resolves its names. -/
def RelatesAny (fuel : ℕ) : Prop :=
  ∀ (value : Json) (type : ABI.ResolvedNode) (j : Json) (path : CodingPath),
    Lossless p arena fuel value type → Unmistakable p arena fuel value type →
    decodeObject p arena fuel path value type = .ok j →
    Related p arena (ResolvedLeaf signer) fuel j (resolvePlaceholders signer j) type

variable {p arena signer}

/-- **One level past the suffixes**: alias, struct, variant or builtin. -/
theorem related_inner {fuel : ℕ} (hnext : RelatesAny p arena signer fuel) {value : Json}
    {type : ABI.ResolvedNode} {j : Json} {path : CodingPath}
    (hlossless : LosslessInner p arena (Lossless p arena fuel) value type)
    (hunmistakable : EverywhereInner p arena (fun _ => True) (fun name => Unmarked (.str name))
      (UnmarkedLeaf p) (Unmistakable p arena fuel) value type)
    (hnormalize : decodeObjectInner p arena (decodeObject p arena fuel) path value type = .ok j) :
    RelatedInner p arena (ResolvedLeaf signer) (Related p arena (ResolvedLeaf signer) fuel) j
      (resolvePlaceholders signer j) type := by
  unfold LosslessInner at hlossless
  unfold EverywhereInner at hunmistakable
  unfold RelatedInner
  cases hfollowed : followed p arena type with
  | some target =>
    rw [hfollowed] at hlossless hunmistakable
    rw [decodeObjectInner_of_followed hfollowed] at hnormalize
    exact hnext _ _ _ _ hlossless hunmistakable hnormalize
  | none =>
    rw [hfollowed] at hlossless hunmistakable
    obtain ⟨href, -, hlossless⟩ := hlossless
    cases hfields : type.fields with
    | some own =>
      simp only [hfields] at hlossless hunmistakable ⊢
      simp only [decodeObjectInner, href, hfields] at hnormalize
      split at hnormalize
      · cases hall : arena.allFields type with
        | none => trivial
        | some fields =>
          rw [hall] at hnormalize hlossless hunmistakable
          obtain ⟨hnodup, hlossless⟩ := hlossless
          obtain ⟨members, hmembers, hnormalize⟩ := bind_eq_ok.mp hnormalize
          cases hnormalize
          obtain ⟨-, hlookup⟩ := normalizeFields_lookup hnodup hmembers
          intro field hfield
          obtain ⟨j, hj, hfind⟩ := hlookup field hfield
          have hat : (Json.obj members).jsonAt field.1 = j := by
            show (Json.lookup members field.1).getD .null = j
            rw [hfind]
            rfl
          rw [resolvePlaceholders, jsonAt_resolveMembers, hat]
          exact hnext _ _ _ _ (hlossless field hfield) (hunmistakable.2 field hfield) hj
      · cases hnormalize
    | none =>
      cases hvariant : type.variant with
      | some variant =>
        simp only [hfields, hvariant] at hlossless hunmistakable ⊢
        simp only [decodeObjectInner, href, hfields, hvariant] at hnormalize
        cases hfound : findAlternative arena variant (chosenAlternative value).1 with
        | none =>
          rw [hfound] at hnormalize
          cases hnormalize
        | some vIdx =>
          rw [hfound] at hlossless hunmistakable
          simp only [hfound] at hnormalize
          obtain ⟨inner, hinner, hnormalize⟩ := bind_eq_ok.mp hnormalize
          cases hnormalize
          -- the alternative is named by its type, and the walk leaves that name
          have hname := typeName_of_findAlternative hfound
          obtain ⟨hunmarked, hunmistakable⟩ := hunmistakable
          rw [resolvePlaceholders, resolveItems, resolveItems, resolveItems, hname,
            resolvePlaceholders_unmarked signer hunmarked]
          refine ⟨rfl, ?_⟩
          show match findAlternative arena variant (chosenAlternative value).1 with
            | some vIdx => Related p arena (ResolvedLeaf signer) fuel inner
                (resolvePlaceholders signer inner) (arena.node (variant.getD vIdx 0))
            | none => True
          rw [hfound]
          exact hnext _ _ _ _ hlossless hunmistakable hinner
      | none =>
        simp only [hfields, hvariant] at hunmistakable ⊢
        simp only [decodeObjectInner, href, hfields, hvariant] at hnormalize
        cases hbuiltin : findBuiltin p type.name with
        | none => trivial
        | some builtin =>
          simp only [hbuiltin] at hnormalize
          have hj := atPath_eq_ok.mp hnormalize
          by_cases hname : type.name = lit "name"
          · rw [hname] at hbuiltin ⊢
            obtain rfl : makeBuiltin AbiTraits.name = builtin := Option.some.inj hbuiltin
            exact resolvedLeaf_name hj
          · unfold ResolvedLeaf
            rw [if_neg hname]
            exact resolvePlaceholders_unmarked signer (hunmistakable hname _ _ hbuiltin hj)

/-- The items of an array. -/
theorem related_items {fuel : ℕ} (hnext : RelatesAny p arena signer fuel)
    {type : ABI.ResolvedNode} {items items' : List Json} {path : CodingPath} {i : ℕ}
    (hlossless : ∀ item ∈ items, LosslessInner p arena (Lossless p arena fuel) item type)
    (hunmistakable : ∀ item ∈ items, EverywhereInner p arena (fun _ => True)
      (fun name => Unmarked (.str name)) (UnmarkedLeaf p) (Unmistakable p arena fuel) item type)
    (hnormalize : normalizeItems (decodeObjectInner p arena (decodeObject p arena fuel)) path type i
      items = .ok items') :
    List.Forall₂ (fun item item' => RelatedInner p arena (ResolvedLeaf signer)
        (Related p arena (ResolvedLeaf signer) fuel) item item' type)
      items' (items'.map (resolvePlaceholders signer)) := by
  induction items generalizing items' i with
  | nil =>
    cases hnormalize
    exact .nil
  | cons item items ih =>
    obtain ⟨hhead, htail⟩ := List.forall_mem_cons.mp hlossless
    obtain ⟨hhead', htail'⟩ := List.forall_mem_cons.mp hunmistakable
    obtain ⟨item', hitem, hnormalize⟩ := bind_eq_ok.mp hnormalize
    obtain ⟨rest, hrest, hnormalize⟩ := bind_eq_ok.mp hnormalize
    cases hnormalize
    exact .cons (related_inner hnext hhead hhead' hitem) (ih htail htail' hrest)

/-- **The walk over a normal form replaces names only.** -/
theorem related_resolvePlaceholders (p : Platform) (arena : ABI.Arena) (signer : PermissionLevel)
    (fuel : ℕ) : RelatesAny p arena signer fuel := by
  induction fuel with
  | zero => exact fun _ _ _ _ _ _ _ => trivial
  | succ fuel ih =>
    intro value type j path hlossless hunmistakable hnormalize
    refine ⟨isNull_resolvePlaceholders signer j, fun hnotNull => ?_⟩
    rw [decodeObject] at hnormalize
    cases hvalue : value.isNull with
    | true =>
      -- null is normalized to null
      rw [if_pos hvalue] at hnormalize
      split at hnormalize
      · cases hnormalize
        cases hnotNull
      · cases hnormalize
    | false =>
      rw [hvalue, if_neg Bool.false_ne_true] at hnormalize
      rw [Lossless, hvalue, if_neg Bool.false_ne_true] at hlossless
      unfold Unmistakable at hunmistakable
      rw [Everywhere, hvalue, if_neg Bool.false_ne_true] at hunmistakable
      unfold normalizeContents at hnormalize
      by_cases harray : type.isArray = true
      · rw [if_pos harray] at hlossless hunmistakable hnormalize ⊢
        split at hnormalize
        · obtain ⟨items', hitems, hnormalize⟩ := bind_eq_ok.mp hnormalize
          cases hnormalize
          rw [resolvePlaceholders, resolveItems_eq]
          exact related_items ih hlossless hunmistakable hitems
        · cases hnormalize
      · rw [if_neg harray] at hlossless hunmistakable hnormalize ⊢
        exact related_inner ih hlossless hunmistakable hnormalize

end Normal

namespace Serializer

/-- **Faithful data is resolved as a value of its type**: what is decoded of it, walked over and
encoded differs from it in resolved names only. -/
theorem Faithful.resolves {p : Platform} {abi : ABI} {type : Str} {data data' : Bytes} {j : Json}
    (h : Faithful p abi type data) (signer : PermissionLevel)
    (hdecode : decode p data type abi = .ok j)
    (hencode : encode p (resolvePlaceholders signer j) type abi = .ok data') :
    Resolves p signer abi type data data' := by
  unfold Faithful at h
  unfold Resolves
  unfold decode decodeFront at hdecode
  have hwrites : ∀ value bytes, encode p value type abi = .ok bytes ↔
      encodeAny p (abi.resolveType type).1 (maxCodingDepth + 1)
        (rootPath ((abi.resolveType type).1.node (abi.resolveType type).2)) value
        ((abi.resolveType type).1.node (abi.resolveType type).2) = .ok bytes := by
    intro value bytes
    unfold encode
    rcases abi.resolveType type with ⟨arena, root⟩
    exact mapError_eq_ok
  unfold Reversible Lossless at h
  rcases hresolve : abi.resolveType type with ⟨arena, root⟩
  rw [hresolve] at h hdecode hwrites
  obtain ⟨value, hvalue, hreversible, hlossless, hunmistakable⟩ := h
  obtain ⟨normal, hread, hnormalize⟩ := restored_root hreversible ((hwrites _ _).mp hvalue)
  obtain ⟨⟨read, rest⟩, hrun, rfl⟩ := map_eq_ok.mp hdecode
  have hrun := mapError_eq_ok.mp hrun
  rw [hread] at hrun
  cases hrun
  obtain ⟨-, hagain⟩ := rewritesAny p arena _ _ _ _ _ _ _ hlossless ((hwrites _ _).mp hvalue) hnormalize
  refine ⟨normal, resolvePlaceholders signer normal, data, data', [], (hwrites _ _).mpr (hagain _),
    (List.append_nil _).symm, hencode, (List.append_nil _).symm, ?_⟩
  exact related_resolvePlaceholders p arena signer _ _ _ _ _ hlossless hunmistakable hnormalize

end Serializer

/-! ## Resolved transactions -/

/-- A level of an authorization: placeholders become the signer's names. -/
structure LevelResolved (signer level level' : PermissionLevel) : Prop where
  actor : level'.actor ≠ level.actor →
    level.actor = placeholderName ∧ level'.actor = signer.actor
  permission : level'.permission ≠ level.permission →
    (level.permission = placeholderName ∨ level.permission = placeholderPermission) ∧
      level'.permission = signer.permission

/-- An action of a resolution and the request's. -/
structure ActionResolved (p : Platform) (version : ℕ) (abis : AbiMap) (signer : PermissionLevel)
    (action action' : Action) : Prop where
  account : action'.account = action.account
  name : action'.name = action.name
  authorization : List.Forall₂ (LevelResolved signer) action.authorization action'.authorization
  data : ∃ abi type, actionAbi version abis action.account action.name = .ok abi ∧
    abi.getActionType action.name = some type ∧
    Serializer.Resolves p signer abi type action.data action'.data

/-- A resolved transaction and the request's; with TaPoS values it keeps its header.  Context
free actions and extensions stay in either case. -/
structure TransactionResolved (p : Platform) (version : ℕ) (abis : AbiMap)
    (signer : PermissionLevel) (tx tx' : Transaction) : Prop where
  actions : List.Forall₂ (ActionResolved p version abis signer) tx.actions tx'.actions
  header : tx.hasTapos = true → tx'.toTransactionHeader = tx.toTransactionHeader
  contextFree : tx'.context_free_actions = tx.context_free_actions
  extensions : tx'.transaction_extensions = tx.transaction_extensions

namespace SigningRequest

/-- The request resolves in every context to its transaction with its placeholders replaced, if
it resolves. -/
def ChangesOnlyPlaceholders (p : Platform) (request : SigningRequest) (abis : AbiMap)
    (signer : PermissionLevel) : Prop :=
  ∀ now ctx resolved, request.resolve p now abis signer ctx = .ok resolved →
    ∃ tx, request.getRawTransaction = .ok tx ∧
      TransactionResolved p request.version abis signer tx resolved.transaction

/-- The data of every action of the request is faithful, for the ABI it is read with. -/
def FaithfulActions (p : Platform) (request : SigningRequest) (abis : AbiMap) : Prop :=
  ∀ tx, request.getRawTransaction = .ok tx → ∀ action ∈ tx.actions, ∀ abi type,
    actionAbi request.version abis action.account action.name = .ok abi →
    abi.getActionType action.name = some type → Serializer.Faithful p abi type action.data

theorem levelResolved_resolveAuth (signer level : PermissionLevel) :
    LevelResolved signer level (resolveAuth signer level) := by
  unfold resolveAuth
  constructor
  · intro h
    simp only at h ⊢
    split at h
    · rename_i hactor
      exact ⟨hactor, if_pos hactor⟩
    · exact absurd rfl h
  · intro h
    simp only at h ⊢
    by_cases hname : level.permission = placeholderName
    · refine ⟨.inl hname, ?_⟩
      have hother : placeholderName ≠ placeholderPermission := by decide
      rw [hname, if_neg hother, if_pos rfl]
    · by_cases hpermission : level.permission = placeholderPermission
      · refine ⟨.inr hpermission, ?_⟩
        rw [if_pos hpermission]
        split
        · rfl
        · rfl
      · rw [if_neg hpermission, if_neg hname] at h
        exact absurd rfl h

/-- The raw actions are those of the raw transaction. -/
theorem getRawActions_of_getRawTransaction {request : SigningRequest} {tx : Transaction}
    (h : request.getRawTransaction = .ok tx) : request.getRawActions = .ok tx.actions := by
  have hactions : (request.getRawActions >>= fun actions => .ok ({ actions } : Transaction)) =
      .ok tx → request.getRawActions = .ok tx.actions := by
    intro h
    obtain ⟨actions, hactions, htx⟩ := bind_eq_ok.mp h
    cases htx
    exact hactions
  obtain ⟨version, data, signature⟩ := request
  rcases data with ⟨chain_id, req, flags, callback, info⟩ | ⟨chain_id, req, flags, callback, info⟩
  · cases req with
    | transaction tx' =>
      cases h
      rfl
    | _ => exact hactions h
  · cases req with
    | transaction tx' =>
      cases h
      rfl
    | _ => exact hactions h

/-- An identity request has no TaPoS values. -/
theorem hasTapos_of_isIdentity {request : SigningRequest} {tx : Transaction}
    (h : request.getRawTransaction = .ok tx) (hidentity : request.isIdentity = true) :
    tx.hasTapos = false := by
  have hactions : (request.getRawActions >>= fun actions => .ok ({ actions } : Transaction)) =
      .ok tx → tx.hasTapos = false := by
    intro h
    obtain ⟨actions, -, htx⟩ := bind_eq_ok.mp h
    cases htx
    rfl
  obtain ⟨version, data, signature⟩ := request
  rcases data with ⟨chain_id, req, flags, callback, info⟩ | ⟨chain_id, req, flags, callback, info⟩
  · cases req with
    | identity _ => exact hactions h
    | _ => cases hidentity
  · cases req with
    | identity _ => exact hactions h
    | _ => cases hidentity

/-- A request that carries TaPoS values keeps its header. -/
theorem taposHeader_of_hasTapos {request : SigningRequest} {now : ℤ} {ctx : TransactionContext}
    {tx : Transaction} {header : TransactionHeader} (hraw : request.getRawTransaction = .ok tx)
    (h : request.taposHeader now ctx tx.toTransactionHeader = .ok header)
    (htapos : tx.hasTapos = true) : header = tx.toTransactionHeader := by
  unfold taposHeader at h
  rw [if_neg (by rw [htapos]; rintro ⟨-, h⟩; cases h), if_neg] at h
  · exact (Except.ok.inj h).symm
  · rintro ⟨hidentity, -⟩
    rw [hasTapos_of_isIdentity hraw hidentity] at htapos
    cases htapos

/-- **One action**: decoded, walked over and encoded. -/
theorem actionResolved_of_faithful {p : Platform} {version : ℕ} {abis : AbiMap}
    {signer : PermissionLevel} {raw action : Action} {decoded : ResolvedAction}
    (hfaithful : ∀ abi type, actionAbi version abis raw.account raw.name = .ok abi →
      abi.getActionType raw.name = some type → Serializer.Faithful p abi type raw.data)
    (hdecoded : resolveAction p version abis (some signer) raw = .ok decoded)
    (hencoded : encodeAction p version abis decoded = .ok action) :
    ActionResolved p version abis signer raw action := by
  obtain ⟨haccount, hname, hauthorization, abi, type, data, habi, htype, hdecode, hdata⟩ :=
    resolveAction_eq_ok hdecoded
  unfold encodeAction at hencoded
  rw [haccount, hname, habi, ok_bind, htype] at hencoded
  obtain ⟨data', hencode, hencoded⟩ := bind_eq_ok.mp hencoded
  cases hencoded
  rw [hdata] at hencode
  refine ⟨rfl, rfl, ?_, abi, type, habi, htype,
    (hfaithful abi type habi htype).resolves signer hdecode hencode⟩
  simp only [hauthorization]
  refine List.forall₂_map_right_iff.mpr (List.forall₂_same.mpr (fun level _ => ?_))
  exact levelResolved_resolveAuth signer level

/-- The actions, one after the other. -/
theorem actionsResolved_of_faithful {p : Platform} {version : ℕ} {abis : AbiMap}
    {signer : PermissionLevel} {raw actions : List Action} {decoded : List ResolvedAction}
    (hfaithful : ∀ action ∈ raw, ∀ abi type,
      actionAbi version abis action.account action.name = .ok abi →
      abi.getActionType action.name = some type → Serializer.Faithful p abi type action.data)
    (hdecoded : raw.mapM (resolveAction p version abis (some signer)) = .ok decoded)
    (hencoded : decoded.mapM (encodeAction p version abis) = .ok actions) :
    List.Forall₂ (ActionResolved p version abis signer) raw actions := by
  induction raw generalizing decoded actions with
  | nil =>
    cases hdecoded
    cases hencoded
    exact .nil
  | cons action raw ih =>
    obtain ⟨hhead, htail⟩ := List.forall_mem_cons.mp hfaithful
    rw [List.mapM_cons] at hdecoded
    obtain ⟨one, hone, hdecoded⟩ := bind_eq_ok.mp hdecoded
    obtain ⟨rest, hrest, hdecoded⟩ := bind_eq_ok.mp hdecoded
    cases hdecoded
    rw [List.mapM_cons] at hencoded
    obtain ⟨written, hwritten, hencoded⟩ := bind_eq_ok.mp hencoded
    obtain ⟨others, hothers, hencoded⟩ := bind_eq_ok.mp hencoded
    cases hencoded
    exact .cons (actionResolved_of_faithful hhead hone hwritten) (ih htail hrest hothers)

/-- A payment to a name with a memo, and a memo alone. -/
def payABI : ABI where
  structs := [⟨"pay", "", [⟨"to", "name"⟩, ⟨"memo", "string"⟩]⟩, ⟨"note", "", [⟨"memo", "string"⟩]⟩]
  actions := [{ name := .ofString "pay", type := "pay", ricardian_contract := [] },
    { name := .ofString "note", type := "note", ricardian_contract := [] }]

def payABIs : AbiMap := [(lit "token", payABI)]

/-- A request for one action of the contract, authorized by whoever signs. -/
def tokenRequest (name : Str) (data : Bytes) : SigningRequest where
  data := .v2 {
    chain_id := .alias 1
    req := .action {
      account := .ofString "token"
      name := .ofString name
      authorization := [placeholderAuth]
      data } }

def signerBob : PermissionLevel where
  actor := .ofString "bob"
  permission := .ofString "active"

/-- Explicit TaPoS values. -/
def explicitContext : TransactionContext where
  expiration := some ⟨1⟩
  ref_block_num := some 1
  ref_block_prefix := some 1

theorem resolveType_pay : payABI.resolveType "pay" = ([
    { name := "pay", fields := some [("to", 1), ("memo", 2)] },
    { name := "name" },
    { name := "string" }], 0) := by
  decide +kernel

/-- The resolved types of a note. -/
def noteArena : ABI.Arena := [{ name := "note", fields := some [("memo", 1)] }, { name := "string" }]

theorem resolveType_note : payABI.resolveType "note" = (noteArena, 0) := by
  decide +kernel

/-- A payment to the signer. -/
def payment : Json := .obj [("to", .str "............1"), ("memo", .str "hi")]

/-- Its data. -/
def paymentData : Bytes := [1, 0, 0, 0, 0, 0, 0, 0, 2, 104, 105]

theorem payment_faithful : Serializer.Faithful default payABI "pay" paymentData := by
  have hname : Framed default (lit "name") (.str "............1") := Framed.of_plain (by decide)
  have hstring : Framed default (lit "string") (.str "hi") :=
    { string := fun _ s hs => by cases hs; decide
      bytes := fun he => absurd he (by decide)
      publicKey := fun he => absurd he (by decide)
      signature := fun he => absurd he (by decide) }
  have hwritten : (Serializer.encode default payment "pay" payABI).toOption = some paymentData := by
    decide +kernel
  unfold Serializer.Faithful
  rw [resolveType_pay]
  -- The four parts of being faithful, each for this one value.
  refine ⟨payment, ?written, ?reversible, ?lossless, ?unmistakable⟩
  case written =>
    cases hencode : Serializer.encode default payment "pay" payABI with
    | error e =>
      rw [hencode] at hwritten
      cases hwritten
    | ok bytes =>
      rw [hencode] at hwritten
      rw [Option.some.inj hwritten]
  case reversible =>
    unfold Serializer.Reversible
    rw [resolveType_pay]
    refine And.intro (fun h => Bool.noConfusion h) (And.intro rfl (And.intro rfl ?_))
    refine And.intro (And.intro (fun h => Bool.noConfusion h) (And.intro rfl (And.intro rfl hname)))
      (And.intro (And.intro (fun h => Bool.noConfusion h) (And.intro rfl (And.intro rfl hstring)))
        trivial)
  case lossless =>
    unfold Serializer.Lossless
    rw [resolveType_pay]
    refine And.intro rfl (And.intro rfl (And.intro (by decide) ?_))
    refine List.forall_mem_cons.mpr ⟨?_, List.forall_mem_singleton.mpr ?_⟩
    · exact And.intro rfl (And.intro rfl ⟨hname, .of_plain (by decide)⟩)
    · exact And.intro rfl (And.intro rfl ⟨hstring, .of_plain (by decide)⟩)
  case unmistakable =>
    refine And.intro trivial ?_
    refine List.forall_mem_cons.mpr ⟨fun h => absurd rfl h, List.forall_mem_singleton.mpr ?_⟩
    intro _ b j hb hj
    cases hb
    cases hj
    exact ⟨by decide, by decide⟩

/-- A note is written as its memo. -/
theorem encode_note {p : Platform} {value : Json} {bytes : Bytes}
    (h : Serializer.encode p value "note" payABI = .ok bytes) :
    value.isNull = false ∧
      encodeAny p noteArena 32 ((Serializer.rootPath (noteArena.node 0)).push "memo" (noteArena.node 1))
        (value.jsonAt "memo") (noteArena.node 1) = .ok bytes := by
  unfold Serializer.encode at h
  rw [resolveType_note] at h
  have h := Serializer.mapError_eq_ok.mp h
  cases value with
  | obj members =>
    obtain ⟨contents, hcontents, h⟩ := bind_eq_ok.mp h
    obtain ⟨memo, hmemo, hcontents⟩ := bind_eq_ok.mp hcontents
    cases hcontents
    obtain rfl : [] ++ (memo ++ []) = bytes := Except.ok.inj h
    rw [List.nil_append, List.append_nil]
    exact ⟨rfl, hmemo⟩
  | _ => cases h

/-- A note has no names to resolve. -/
theorem eq_of_resolves_note {p : Platform} {signer : PermissionLevel} {data data' : Bytes}
    (h : Serializer.Resolves p signer payABI "note" data data') : data' = data := by
  unfold Serializer.Resolves at h
  rw [resolveType_note] at h
  obtain ⟨value, value', written, written', rest, hwritten, rfl, hwritten', rfl, -, hrelated⟩ := h
  obtain ⟨hnotNull, hwritten⟩ := encode_note hwritten
  obtain ⟨-, hwritten'⟩ := encode_note hwritten'
  have hfields : ∀ field ∈ [(lit "memo", noteArena.node 1)], Related p noteArena (ResolvedLeaf signer)
      32 (value.jsonAt field.1) (value'.jsonAt field.1) field.2 := hrelated hnotNull
  obtain ⟨hnull, hmemo⟩ := List.forall_mem_singleton.mp hfields
  have hsame : value'.jsonAt "memo" = value.jsonAt "memo" := by
    simp only at hnull hmemo
    cases hvalue : (value.jsonAt "memo").isNull with
    | true =>
      rw [hvalue] at hnull
      rw [Json.eq_null_of_isNull hvalue, Json.eq_null_of_isNull hnull]
    | false => exact hmemo hvalue
  rw [hsame, hwritten] at hwritten'
  rw [Except.ok.inj hwritten']

/-- The data of a resolved note differs. -/
theorem not_changesOnlyPlaceholders_note {data : Bytes}
    (h : (((tokenRequest "note" data).resolve default 0 payABIs signerBob explicitContext).toOption.map
      (fun resolved => resolved.transaction.actions.any (fun action => action.data ≠ data))) =
        some true) :
    ¬ (tokenRequest "note" data).ChangesOnlyPlaceholders default payABIs signerBob := by
  intro hchanges
  cases hresolve : (tokenRequest "note" data).resolve default 0 payABIs signerBob explicitContext with
  | error e =>
    rw [hresolve] at h
    cases h
  | ok resolved =>
    rw [hresolve] at h
    obtain ⟨action, haction, hdata⟩ := List.any_eq_true.mp (Option.some.inj h)
    obtain ⟨tx, htx, hactions, -⟩ := hchanges 0 explicitContext resolved hresolve
    cases htx
    generalize resolved.transaction.actions = actions at haction hactions
    rcases hactions with _ | ⟨hresolved, _ | _⟩
    obtain rfl := List.mem_singleton.mp haction
    obtain ⟨abi, type, habi, htype, hresolves⟩ := hresolved.data
    have hread : actionAbi 2 payABIs (.ofString "token") (.ofString "note") = .ok payABI := rfl
    obtain rfl : payABI = abi := Except.ok.inj (hread.symm.trans habi)
    obtain rfl : lit "note" = type := Option.some.inj htype
    exact absurd (eq_of_resolves_note hresolves) (of_decide_eq_true hdata)

end SigningRequest

end Dwarfkit
