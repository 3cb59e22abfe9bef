/-
# The json boundary of the chain types

`ABI::from`, `Action::from` and `Transaction::from` of a json value, as to whether a json
exception can leave them.

* `ABI.contained_ofJson_iff` : the entries of three lists have to be objects;
* `Action.contained_ofJsonWith_iff` : data that is not encoded yet needs a name that is a
  text and an action that is an object;
* `Transaction.contained_ofJsonWith_iff` : so does every action that is reached, in an object.
-/
import Dwarfkit.Antelope.Chain.AbiForms
import Dwarfkit.Antelope.Serializer.Contained
import Dwarfkit.SigningRequest.Create

namespace Dwarfkit

/-! ## ABI definitions -/

namespace ABI

/-- The object that `ABI::from` reads, which may lie inside texts. -/
def definition (parse : Str → Option Json) : (fuel : ℕ) → Json → Option Json
  | fuel, .str text =>
    match fuel, parse text with
    | fuel + 1, some parsed => definition parse fuel parsed
    | _, _ => none
  | _, .obj members => some (.obj members)
  | _, _ => none

/-- The same texts as `ofJson` parses. -/
def definitionOf (parse : Str → Option Json) (value : Json) : Option Json :=
  definition parse (match value with
    | .str text => text.length + 1
    | _ => 0) value

/-- The entries of a list member are objects. -/
def EntriesAreObjects (object : Json) (key : Str) : Prop :=
  ∀ item ∈ (object.jsonAt key).elements, item.isObject = true

instance (object : Json) (key : Str) : Decidable (EntriesAreObjects object key) := by
  unfold EntriesAreObjects
  infer_instance

theorem contained_stringsAt_iff (j : Json) (key : Str) :
    Contained (stringsAt j key) ↔ j.isObject = true := by
  cases j with
  | obj members => exact ⟨fun _ => rfl, fun _ => contained_ok _⟩
  | _ =>
    constructor
    · intro h
      exact absurd (contained_bind_iff.mp h).1 (not_contained_thrown _)
    · rintro ⟨⟩

/-- A list that is missing has no entries. -/
theorem elements_getD (members : List (Str × Json)) (key : Str) :
    ((Json.lookup members key).getD (.arr [])).elements =
      ((Json.obj members).jsonAt key).elements := by
  have hkey : (Json.obj members).jsonAt key = (Json.lookup members key).getD .null := rfl
  rw [hkey]
  cases Json.lookup members key with
  | none => rfl
  | some v => rfl

theorem contained_listAt_iff {α : Type} (j : Json) (key : Str) (entry : Json → Result α) :
    Contained (listAt j key entry) ↔
      j.isObject = true ∧ Contained ((j.jsonAt key).elements.mapM entry) := by
  cases j with
  | obj members =>
    have hlist : listAt (.obj members) key entry =
        ((Json.lookup members key).getD (.arr [])).elements.mapM entry := rfl
    rw [hlist, elements_getD]
    exact ⟨fun h => ⟨rfl, h⟩, And.right⟩
  | _ =>
    constructor
    · intro h
      exact absurd (contained_bind_iff.mp h).1 (not_contained_thrown _)
    · rintro ⟨⟨⟩, -⟩

/-- A reader that accepts every value but those it throws on. -/
theorem contained_entries_iff {α : Type} {entry : Json → Result α}
    (hentry : ∀ item, Contained (entry item) ↔ item.isObject = true)
    (htotal : ∀ item, item.isObject = true → ∃ a, entry item = .ok a) (items : List Json) :
    Contained (items.mapM entry) ↔ ∀ item ∈ items, item.isObject = true := by
  constructor
  · intro h
    induction items with
    | nil => simp
    | cons item items ih =>
      rw [List.mapM_cons, contained_bind_iff] at h
      have hitem := (hentry item).mp h.1
      obtain ⟨a, ha⟩ := htotal item hitem
      have hrest := (contained_bind_iff.mp (h.2 a ha)).1
      exact List.forall_mem_cons.mpr ⟨hitem, ih hrest⟩
  · intro h
    exact contained_mapM (fun item hmem => (hentry item).mpr (h item hmem))

/-- A walk of readers that accept everything gives a list. -/
theorem exists_mapM {α : Type} {entry : Json → Result α} {items : List Json}
    (h : ∀ item ∈ items, ∃ a, entry item = .ok a) : ∃ list, items.mapM entry = .ok list := by
  induction items with
  | nil => exact ⟨[], rfl⟩
  | cons item items ih =>
    obtain ⟨a, ha⟩ := h item List.mem_cons_self
    obtain ⟨list, hlist⟩ := ih (fun item hmem => h item (List.mem_cons_of_mem _ hmem))
    refine ⟨a :: list, ?_⟩
    rw [List.mapM_cons, ha, hlist]
    rfl

/-- A list of an object whose entries are all accepted. -/
theorem exists_listAt {α : Type} {j : Json} (hobject : j.isObject = true) {key : Str}
    {entry : Json → Result α}
    (h : ∀ item ∈ (j.jsonAt key).elements, ∃ a, entry item = .ok a) :
    ∃ list, listAt j key entry = .ok list := by
  cases j with
  | obj members =>
    rw [← elements_getD] at h
    exact exists_mapM h
  | _ => cases hobject

/-- Lists whose entries are read with checked accessors only. -/
theorem listAt_checked {α : Type} {object : Json} (hobject : object.isObject = true)
    {entry : Json → Result α} (hentry : ∀ item, ∃ a, entry item = .ok a) (key : Str) :
    ∃ list, listAt object key entry = .ok list :=
  exists_listAt hobject (fun item _ => hentry item)

theorem Struct.contained_ofJson_iff (s : Json) :
    Contained (Struct.ofJson s) ↔ s.isObject = true := by
  unfold Struct.ofJson
  rw [contained_bind_iff, contained_listAt_iff]
  constructor
  · rintro ⟨⟨h, -⟩, -⟩
    exact h
  · intro h
    exact ⟨⟨h, contained_mapM (fun _ _ => contained_ok _)⟩, fun _ _ => contained_ok _⟩

theorem Variant.contained_ofJson_iff (v : Json) :
    Contained (Variant.ofJson v) ↔ v.isObject = true := by
  unfold Variant.ofJson
  rw [contained_bind_iff, contained_stringsAt_iff]
  exact ⟨And.left, fun h => ⟨h, fun _ _ => contained_ok _⟩⟩

theorem Table.contained_ofJson_iff (t : Json) :
    Contained (Table.ofJson t) ↔ t.isObject = true := by
  unfold Table.ofJson
  rw [contained_bind_iff, contained_stringsAt_iff]
  constructor
  · exact And.left
  · intro h
    refine ⟨h, fun _ _ => ?_⟩
    exact Contained.bind ((contained_stringsAt_iff t _).mpr h) (fun _ _ => contained_ok _)

theorem Struct.exists_ofJson (s : Json) (h : s.isObject = true) : ∃ a, Struct.ofJson s = .ok a := by
  obtain ⟨fields, hfields⟩ := @listAt_checked _ _ h Field.ofJson (fun _ => ⟨_, rfl⟩) "fields"
  unfold Struct.ofJson
  rw [hfields]
  exact ⟨_, rfl⟩

theorem Variant.exists_ofJson (v : Json) (h : v.isObject = true) :
    ∃ a, Variant.ofJson v = .ok a := by
  cases v with
  | obj members => exact ⟨_, rfl⟩
  | _ => cases h

theorem Table.exists_ofJson (t : Json) (h : t.isObject = true) : ∃ a, Table.ofJson t = .ok a := by
  cases t with
  | obj members => exact ⟨_, rfl⟩
  | _ => cases h

/-- The three lists whose entries are asked for a member without a look at their kind. -/
structure NestedObjects (object : Json) : Prop where
  variants : EntriesAreObjects object "variants"
  structs : EntriesAreObjects object "structs"
  tables : EntriesAreObjects object "tables"

/-- `ABI::from` of an object throws at the first entry of such a list that is no object. -/
theorem contained_ofObject_iff {object : Json} (hobject : object.isObject = true) :
    Contained (ofObject object) ↔ NestedObjects object := by
  have hlist {α : Type} {entry : Json → Result α}
      (hentry : ∀ item, Contained (entry item) ↔ item.isObject = true)
      (htotal : ∀ item, item.isObject = true → ∃ a, entry item = .ok a) (key : Str) :
      Contained (listAt object key entry) ↔ EntriesAreObjects object key := by
    rw [contained_listAt_iff, contained_entries_iff hentry htotal]
    exact ⟨And.right, fun h => ⟨hobject, h⟩⟩
  -- Three readers of entries read a list of their own and throw; the other four take any entry.
  have hvariants := hlist Variant.contained_ofJson_iff Variant.exists_ofJson "variants"
  have hstructs := hlist Struct.contained_ofJson_iff Struct.exists_ofJson "structs"
  have htables := hlist Table.contained_ofJson_iff Table.exists_ofJson "tables"
  obtain ⟨types, htypes⟩ := @listAt_checked _ _ hobject TypeDef.ofJson
    (fun _ => ⟨_, rfl⟩) "types"
  obtain ⟨actions, hactions⟩ := @listAt_checked _ _ hobject Action.ofJson
    (fun _ => ⟨_, rfl⟩) "actions"
  obtain ⟨clauses, hclauses⟩ := @listAt_checked _ _ hobject Clause.ofJson
    (fun _ => ⟨_, rfl⟩) "ricardian_clauses"
  obtain ⟨results, hresults⟩ := @listAt_checked _ _ hobject ActionResult.ofJson
    (fun _ => ⟨_, rfl⟩) "action_results"
  unfold ofObject
  constructor
  · intro h
    have h := (contained_bind_iff.mp h).2 types htypes
    obtain ⟨hv, h⟩ := contained_bind_iff.mp h
    obtain ⟨variants, hread⟩ := @exists_listAt _ _ hobject _ Variant.ofJson
      (fun item hitem => Variant.exists_ofJson item (hvariants.mp hv item hitem))
    obtain ⟨hs, h⟩ := contained_bind_iff.mp (h variants hread)
    obtain ⟨structs, hread⟩ := @exists_listAt _ _ hobject _ Struct.ofJson
      (fun item hitem => Struct.exists_ofJson item (hstructs.mp hs item hitem))
    have h := (contained_bind_iff.mp (h structs hread)).2 actions hactions
    exact ⟨hvariants.mp hv, hstructs.mp hs, htables.mp (contained_bind_iff.mp h).1⟩
  · rintro ⟨hv, hs, ht⟩
    refine Contained.bind (by rw [htypes]; exact contained_ok _) (fun _ _ => ?_)
    refine Contained.bind (hvariants.mpr hv) (fun _ _ => ?_)
    refine Contained.bind (hstructs.mpr hs) (fun _ _ => ?_)
    refine Contained.bind (by rw [hactions]; exact contained_ok _) (fun _ _ => ?_)
    refine Contained.bind (htables.mpr ht) (fun _ _ => ?_)
    refine Contained.bind (by rw [hclauses]; exact contained_ok _) (fun _ _ => ?_)
    exact Contained.bind (by rw [hresults]; exact contained_ok _) (fun _ _ => contained_ok _)

/-- What `ABI::from` reads: the object inside the texts, or else nothing, which is an
error. -/
theorem ofJsonWith_eq (parse : Str → Option Json) (fuel : ℕ) (value : Json) :
    (∃ object, definition parse fuel value = some object ∧ object.isObject = true ∧
      ofJsonWith parse fuel value = ofObject object) ∨
    definition parse fuel value = none ∧
      ∃ message : Str, ofJsonWith parse fuel value = err .invalid message := by
  induction fuel generalizing value with
  | zero =>
    cases value with
    | obj members => exact Or.inl ⟨_, rfl, rfl, rfl⟩
    | _ => exact Or.inr ⟨rfl, _, rfl⟩
  | succ fuel ih =>
    cases value with
    | obj members => exact Or.inl ⟨_, rfl, rfl, rfl⟩
    | str text =>
      cases hparse : parse text with
      | none => exact Or.inr ⟨by simp [definition, hparse], _, by simp [ofJsonWith, hparse]; rfl⟩
      | some parsed =>
        have hdefinition : definition parse (fuel + 1) (.str text) = definition parse fuel parsed := by
          simp [definition, hparse]
        have hread : ofJsonWith parse (fuel + 1) (.str text) = ofJsonWith parse fuel parsed := by
          simp [ofJsonWith, hparse]
        rw [hdefinition, hread]
        exact ih parsed
    | _ => exact Or.inr ⟨rfl, _, rfl⟩

theorem contained_ofJsonWith_iff (parse : Str → Option Json) (fuel : ℕ) (value : Json) :
    Contained (ofJsonWith parse fuel value) ↔
      ∀ object, definition parse fuel value = some object → NestedObjects object := by
  rcases ofJsonWith_eq parse fuel value with ⟨object, hdefinition, hobject, heq⟩ | ⟨hnone, message, heq⟩
  · rw [heq, contained_ofObject_iff hobject, hdefinition]
    simp
  · rw [heq, hnone]
    simp

/-- **`ABI::from` is contained** exactly when the entries of those lists are objects. -/
theorem contained_ofJson_iff (parse : Str → Option Json) (value : Json) :
    Contained (ofJson parse value) ↔
      ∀ object, definitionOf parse value = some object → NestedObjects object :=
  contained_ofJsonWith_iff parse _ value

end ABI

/-! ## Actions -/

namespace Action

/-- `Action::from` without an ABI looks at the kind of everything it reads. -/
theorem contained_ofJson (j : Json) : Contained (ofJson j) := by
  unfold ofJson
  split
  · split
    · exact AbiTraits.action_contained.fromJSON _
    · simp
  · simp

theorem contained_jsonName_iff (j : Json) : Contained (jsonName j) ↔ j.TextAt "name" := by
  unfold jsonName Json.TextAt
  cases h : j.find "name" with
  | none => simp
  | some v => simp

/-- The data that an action without any would have is encoded for the action without a
name. -/
def EncodesNull (p : Platform) (withAbi : ABI) : Prop :=
  ∃ type encoded, withAbi.getActionType (.ofString []) = some type ∧
    Serializer.encode p .null type withAbi = .ok encoded

/-- What a json action has to be for `Action::from` with an ABI to return. -/
structure Readable (p : Platform) (j : Json) (withAbi : ABI) : Prop where
  name : j.TextAt "name"
  object : j.isObject = true ∨ j.isNull = true ∨ ¬ EncodesNull p withAbi

theorem contained_assign_iff (j : Json) (key : Str) (v : Json) :
    Contained (j.assign key v) ↔ j.isObject = true ∨ j.isNull = true := by
  cases j <;> simp [Json.assign, Json.isObject, Json.isNull]

theorem jsonName_of_not_object {j : Json} (h : ¬ j.isObject = true) : jsonName j = .ok [] := by
  cases j with
  | obj members => exact absurd rfl h
  | _ => rfl

theorem find_of_not_object {j : Json} (h : ¬ j.isObject = true) (key : Str) :
    j.find key = none := by
  cases j with
  | obj members => exact absurd rfl h
  | _ => rfl

/-- **`Action::from` with an ABI is contained** exactly when the data is encoded already, or
the name is a text and the action can take its data. -/
theorem contained_ofJsonWith_iff (p : Platform) (j : Json) (withAbi : ABI) :
    Contained (ofJsonWith p j withAbi) ↔
      isBytesValue ((j.find "data").getD .null) = true ∨ Readable p j withAbi := by
  unfold ofJsonWith
  simp only
  split
  · rename_i hbytes
    exact ⟨fun _ => Or.inl hbytes, fun _ => AbiTraits.action_contained.fromJSON _⟩
  · rename_i hbytes
    rw [contained_bind_iff, contained_jsonName_iff]
    constructor
    · rintro ⟨hname, hrest⟩
      refine Or.inr ⟨hname, ?_⟩
      by_cases hobject : j.isObject = true
      · exact Or.inl hobject
      · right
        by_contra hnot
        obtain ⟨hnull, hencodes⟩ := not_or.mp hnot
        obtain ⟨type, encoded, htype, hencode⟩ := not_not.mp hencodes
        have h := hrest [] (jsonName_of_not_object hobject)
        rw [htype] at h
        simp only [find_of_not_object hobject, Option.getD_none] at h
        have h := (contained_bind_iff.mp h).2 encoded hencode
        rcases (contained_assign_iff j _ _).mp (contained_bind_iff.mp h).1 with h | h
        · exact hobject h
        · exact hnull h
    · rintro (h | ⟨hname, hobject⟩)
      · exact absurd h hbytes
      · refine ⟨hname, fun actionName hread => ?_⟩
        split
        · simp
        · rename_i type htype
          refine Contained.bind (Serializer.contained_encode p _ _ _) (fun encoded hencode => ?_)
          refine Contained.bind ?_ (fun _ _ => AbiTraits.action_contained.fromJSON _)
          rw [contained_assign_iff]
          by_cases hobj : j.isObject = true
          · exact Or.inl hobj
          · rcases hobject with h | h | h
            · exact absurd h hobj
            · exact Or.inr h
            · rw [jsonName_of_not_object hobj] at hread
              cases hread
              rw [find_of_not_object hobj] at hencode
              exact absurd ⟨type, encoded, htype, hencode⟩ h

end Action

/-! ## Transactions -/

/-- `AbiProviderEntry`. -/
structure AbiProviderEntry where
  contract : Name
  abi : ABI

/-- Where the ABIs of untyped actions come from: the arguments `abis` and `singleAbi` of
`resolveActions`. -/
inductive AbiSource where
  | none
  | single (abi : ABI)
  | entries (abis : List AbiProviderEntry)

namespace Transaction

/-- The account of a json action, which may be left out. -/
def jsonAccount (entry : Json) : Result Str :=
  match entry.find "account" with
  | some account => account.getStr
  | none => .ok []

/-- The first candidate for an account. -/
def candidate (abis : List AbiProviderEntry) (account : Str) : Option AbiProviderEntry :=
  abis.find? (fun c => c.contract = Name.ofString account)

/-- One round of `resolveActions`. -/
def resolveAction (p : Platform) (source : AbiSource) (entry : Json) : Result Action :=
  match source with
  | .none => Action.ofJson entry
  | .single abi => Action.ofJsonWith p entry abi
  | .entries abis => do
    let account ← jsonAccount entry
    match candidate abis account with
    | some c => Action.ofJsonWith p entry c.abi
    | none => Action.ofJson entry

/-- `transactionFrom`. -/
def ofJsonWith (p : Platform) (source : AbiSource) (object : Json) : Result Transaction := do
  let merged ← withHeaderDefaults object
  let header ← AbiTraits.transactionHeader.fromJSON merged
  let actions ← (object.jsonAt "actions").elements.mapM (resolveAction p source)
  let context_free_actions ←
    (object.jsonAt "context_free_actions").elements.mapM (resolveAction p source)
  let extensions := object.jsonAt "transaction_extensions"
  let transaction_extensions ←
    if extensions.isNull then .ok [] else AbiTraits.transactionExtension.vector.fromJSON extensions
  return { header with context_free_actions, actions, transaction_extensions }

/-- Without an ABI this is `Transaction::from(json)`. -/
theorem ofJsonWith_none (p : Platform) (object : Json) :
    ofJsonWith p .none object = ofJson object := rfl

/-- What a json action has to be, for a source of ABIs. -/
def ActionReadable (p : Platform) (source : AbiSource) (entry : Json) : Prop :=
  match source with
  | .none => True
  | .single abi =>
    Action.isBytesValue ((entry.find "data").getD .null) = true ∨ Action.Readable p entry abi
  | .entries abis => entry.TextAt "account" ∧
    ∀ c, candidate abis (entry.jsonStr "account") = some c →
      Action.isBytesValue ((entry.find "data").getD .null) = true ∨ Action.Readable p entry c.abi

theorem contained_jsonAccount_iff (entry : Json) :
    Contained (jsonAccount entry) ↔ entry.TextAt "account" := by
  unfold jsonAccount Json.TextAt
  cases h : entry.find "account" with
  | none => simp
  | some v => simp

/-- An account that is a text or missing is read. -/
theorem jsonAccount_eq {entry : Json} (h : entry.TextAt "account") :
    jsonAccount entry = .ok (entry.jsonStr "account") := by
  unfold jsonAccount Json.jsonStr
  cases hfind : entry.find "account" with
  | none => rfl
  | some v =>
    have htext := h v hfind
    cases v with
    | str s => rfl
    | _ => cases htext

theorem contained_resolveAction_iff (p : Platform) (source : AbiSource) (entry : Json) :
    Contained (resolveAction p source entry) ↔ ActionReadable p source entry := by
  cases source with
  | none => exact ⟨fun _ => trivial, fun _ => Action.contained_ofJson entry⟩
  | single abi => exact Action.contained_ofJsonWith_iff p entry abi
  | entries abis =>
    unfold resolveAction ActionReadable
    simp only
    rw [contained_bind_iff, contained_jsonAccount_iff]
    refine and_congr_right (fun haccount => ?_)
    rw [jsonAccount_eq haccount]
    -- An account that has no ABI here is read as if no ABI had been given.
    cases hcandidate : candidate abis (entry.jsonStr "account") with
    | none =>
      constructor
      · rintro _ c ⟨⟩
      · rintro _ account ⟨⟩
        rw [hcandidate]
        exact Action.contained_ofJson entry
    | some c =>
      constructor
      · rintro h c' ⟨⟩
        have h := h _ rfl
        rw [hcandidate] at h
        exact (Action.contained_ofJsonWith_iff p entry c.abi).mp h
      · rintro h account ⟨⟩
        rw [hcandidate]
        exact (Action.contained_ofJsonWith_iff p entry c.abi).mpr (h c rfl)

/-- The first item of a list that is not accepted, if there is one, does not throw. -/
def ListReadable (p : Platform) (source : AbiSource) (items : List Json) : Prop :=
  ∀ front entry rest, items = front ++ entry :: rest →
    (∀ b ∈ front, ∃ action, resolveAction p source b = .ok action) → ActionReadable p source entry

theorem contained_resolveActions_iff (p : Platform) (source : AbiSource) (items : List Json) :
    Contained (items.mapM (resolveAction p source)) ↔ ListReadable p source items := by
  rw [contained_mapM_iff]
  simp only [contained_resolveAction_iff, ListReadable]

/-- What a json transaction has to be: an object whose actions are read as far as the
parser gets. -/
structure Readable (p : Platform) (source : AbiSource) (object : Json) : Prop where
  isObject : object.isObject = true
  actions : ∀ merged header, withHeaderDefaults object = .ok merged →
    AbiTraits.transactionHeader.fromJSON merged = .ok header →
    ListReadable p source (object.jsonAt "actions").elements ∧
    ((∃ actions, (object.jsonAt "actions").elements.mapM (resolveAction p source) = .ok actions) →
      ListReadable p source (object.jsonAt "context_free_actions").elements)

theorem contained_withHeaderDefaults_iff (object : Json) :
    Contained (withHeaderDefaults object) ↔ object.isObject = true := by
  cases object <;> simp [withHeaderDefaults, Json.isObject]

/-- **`Transaction::from` is contained** exactly for such objects. -/
theorem contained_ofJsonWith_iff (p : Platform) (source : AbiSource) (object : Json) :
    Contained (ofJsonWith p source object) ↔ Readable p source object := by
  have hextensions (header : TransactionHeader) (actions context_free_actions : List Action) :
      Contained (do
        let extensions := object.jsonAt "transaction_extensions"
        let transaction_extensions ←
          if extensions.isNull then .ok []
          else AbiTraits.transactionExtension.vector.fromJSON extensions
        return ({ header with context_free_actions, actions, transaction_extensions } :
          Transaction)) := by
    have hread := AbiTraits.vector_contained AbiTraits.transactionExtension_contained
    simp only
    split
    · exact contained_ok _
    · exact Contained.bind (hread.fromJSON _) (fun _ _ => contained_ok _)
  unfold ofJsonWith
  constructor
  · intro h
    obtain ⟨hobject, h⟩ := contained_bind_iff.mp h
    refine ⟨(contained_withHeaderDefaults_iff object).mp hobject, ?_⟩
    intro merged header hmerged hheader
    have h := (contained_bind_iff.mp (h merged hmerged)).2 header hheader
    obtain ⟨hactions, h⟩ := contained_bind_iff.mp h
    refine ⟨(contained_resolveActions_iff p source _).mp hactions, ?_⟩
    rintro ⟨actions, hread⟩
    exact (contained_resolveActions_iff p source _).mp (contained_bind_iff.mp (h actions hread)).1
  · rintro ⟨hobject, h⟩
    refine Contained.bind ((contained_withHeaderDefaults_iff object).mpr hobject)
      (fun merged hmerged => ?_)
    refine Contained.bind (AbiTraits.contained_transactionHeader merged) (fun header hheader => ?_)
    obtain ⟨hactions, hfree⟩ := h merged header hmerged hheader
    refine Contained.bind ((contained_resolveActions_iff p source _).mpr hactions)
      (fun actions hread => ?_)
    refine Contained.bind ((contained_resolveActions_iff p source _).mpr (hfree ⟨actions, hread⟩))
      (fun context_free_actions _ => ?_)
    exact hextensions header actions context_free_actions

end Transaction

/-- **The json boundary of the chain types**: exactly when `ABI::from`, `Action::from` and
`Transaction::from` return. -/
theorem jsonBoundary_contained_iff (p : Platform) (parse : Str → Option Json) (j : Json)
    (abi : ABI) (source : AbiSource) :
    (Contained (ABI.ofJson parse j) ↔
      ∀ object, ABI.definitionOf parse j = some object → ABI.NestedObjects object) ∧
    Contained (Action.ofJson j) ∧
    (Contained (Action.ofJsonWith p j abi) ↔
      Action.isBytesValue ((j.find "data").getD .null) = true ∨ Action.Readable p j abi) ∧
    (Contained (Transaction.ofJsonWith p source j) ↔ Transaction.Readable p source j) :=
  ⟨ABI.contained_ofJson_iff parse j, Action.contained_ofJson j,
    Action.contained_ofJsonWith_iff p j abi, Transaction.contained_ofJsonWith_iff p source j⟩

/-- A struct entry that is a number, an action whose name is a number, and a transaction
that is an array each let an exception out. -/
theorem json_exceptions_escape :
    ¬ Contained (ABI.ofJson (fun _ => none) (.obj [(lit "structs", .arr [.uint 5])])) ∧
    ¬ Contained (Action.ofJsonWith default
      (.obj [(lit "name", .uint 7), (lit "data", .obj [])]) {}) ∧
    ¬ Contained (Transaction.ofJsonWith default .none (.arr [])) := by
  refine ⟨?_, ?_, ?_⟩
  · exact not_contained_thrown _
  · exact not_contained_thrown _
  · exact not_contained_thrown _

end Dwarfkit
