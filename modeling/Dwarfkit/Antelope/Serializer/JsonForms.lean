/-
# Typed json forms

The json form of a typed value is read as that value again, as far as the types of a
transaction go.
-/
import Dwarfkit.Antelope.Chain.Calendar
import Dwarfkit.Antelope.Chain.Transaction
import Dwarfkit.Antelope.Serializer.Integers

namespace Dwarfkit

namespace AbiTraits

/-- The json form of a value is read back, and is never null. -/
structure ReadsJson {α : Type} (t : AbiTraits α) : Prop where
  read : ∀ x, t.fromJSON (t.toJSON x) = .ok x
  notNull : ∀ x, t.toJSON x ≠ .null

theorem textual_readsJson {α : Type} (abiName : Str) (toABI : α → Bytes) (fromABI : Decoder α)
    (toString : α → Str) (ofString : Str → Result α) (abiDefault : α)
    (h : ∀ x, ofString (toString x) = .ok x) :
    (textual abiName toABI fromABI toString ofString abiDefault).ReadsJson where
  read := h
  notNull := fun _ heq => by cases heq

theorem name_readsJson : name.ReadsJson :=
  textual_readsJson _ _ _ _ _ _ (fun x => congrArg Except.ok (Name.ofString_toString x))

theorem bytes_readsJson : bytes.ReadsJson := textual_readsJson _ _ _ _ _ _ hexToArray_arrayToHex

theorem time_readsJson {α : Type} (abiName : Str) (n : ℕ) (toNat : α → ℕ) (ofInt : ℤ → α)
    (toString : α → Str) (ofString : Str → Result α) (h : ∀ x, ofString (toString x) = .ok x) :
    (time abiName n toNat ofInt toString ofString).ReadsJson where
  read := h
  notNull := fun _ heq => by cases heq

theorem timePointSec_readsJson : timePointSec.ReadsJson :=
  time_readsJson _ _ _ _ _ _ TimePointSec.fromString_toString

theorem blockTimestamp_readsJson : blockTimestamp.ReadsJson :=
  time_readsJson _ _ _ _ _ _ BlockTimestamp.fromString_toString

/-- The native integers are written as numbers. -/
theorem native_readsJson (t : NativeType) : t.traits.ReadsJson where
  read := fun x => NativeType.fromJSON_of_denotes (t.denotes_toJSON x)
  notNull := by
    intro x heq
    have hdenotes := t.denotes_toJSON x
    rw [heq] at hdenotes
    cases hdenotes

theorem uint8_readsJson : uint8.ReadsJson := native_readsJson .uint8

theorem uint16_readsJson : uint16.ReadsJson := native_readsJson .uint16

theorem uint32_readsJson : uint32.ReadsJson := native_readsJson .uint32

theorem varuint32_readsJson : varuint32.ReadsJson where
  read := uint32_readsJson.read
  notNull := fun _ heq => by cases heq

theorem vector_readsJson {α : Type} {t : AbiTraits α} (h : t.ReadsJson) : t.vector.ReadsJson where
  read := by
    intro l
    show (l.map t.toJSON).mapM t.fromJSON = .ok l
    induction l with
    | nil => rfl
    | cons x l ih =>
      rw [List.map_cons, List.mapM_cons, h.read, ih]
      rfl
  notNull := fun _ heq => by cases heq

/-- A member that was written is read. -/
theorem field_toJSON {α : Type} {t : AbiTraits α} (h : t.ReadsJson) {j : Json} {key : Str} {x : α}
    (hfind : j.find key = some (t.toJSON x)) : field t j key = .ok x := by
  unfold field
  rw [hfind]
  split
  · rename_i heq
    cases heq
  · rename_i heq
    exact absurd (Option.some.inj heq) (h.notNull x)
  · rename_i v _ heq
    rw [← Option.some.inj heq]
    exact h.read x

theorem permissionLevel_readsJson : permissionLevel.ReadsJson where
  read := by
    intro x
    show (do
      let actor ← field name (permissionLevel.toJSON x) "actor"
      let permission ← field name (permissionLevel.toJSON x) "permission"
      return ({ actor, permission } : PermissionLevel)) = _
    rw [field_toJSON name_readsJson (show _ = some (name.toJSON x.actor) from rfl),
      field_toJSON name_readsJson (show _ = some (name.toJSON x.permission) from rfl)]
    rfl
  notNull := fun _ heq => by cases heq

theorem action_readsJson : action.ReadsJson where
  read := by
    intro x
    show (do
      let account ← field name (action.toJSON x) "account"
      let actionName ← field name (action.toJSON x) "name"
      let authorization ← field permissionLevel.vector (action.toJSON x) "authorization"
      let data ← field bytes (action.toJSON x) "data"
      return ({ account, name := actionName, authorization, data } : Action)) = _
    rw [field_toJSON name_readsJson (show _ = some (name.toJSON x.account) from rfl),
      field_toJSON name_readsJson (show _ = some (name.toJSON x.name) from rfl),
      field_toJSON (vector_readsJson permissionLevel_readsJson)
        (show _ = some (permissionLevel.vector.toJSON x.authorization) from rfl),
      field_toJSON bytes_readsJson (show _ = some (bytes.toJSON x.data) from rfl)]
    rfl
  notNull := fun _ heq => by cases heq

theorem transactionExtension_readsJson : transactionExtension.ReadsJson where
  read := by
    intro x
    show (do
      let type ← field uint16 (transactionExtension.toJSON x) "type"
      let data ← field bytes (transactionExtension.toJSON x) "data"
      return ({ type, data } : TransactionExtension)) = _
    rw [field_toJSON uint16_readsJson (show _ = some (uint16.toJSON x.type) from rfl),
      field_toJSON bytes_readsJson (show _ = some (bytes.toJSON x.data) from rfl)]
    rfl
  notNull := fun _ heq => by cases heq

/-- An object that has the members of a header, whatever else it has. -/
theorem transactionHeader_fromJSON {j : Json} {x : TransactionHeader}
    (hobject : j.isObject = true)
    (h : ∀ key v, Json.lookup (headerMembers x) key = some v → j.find key = some v) :
    transactionHeader.fromJSON j = .ok x := by
  unfold transactionHeader expectObject
  simp only [hobject, if_true, ok_bind]
  rw [field_toJSON timePointSec_readsJson (h "expiration" _ rfl),
    field_toJSON uint16_readsJson (h "ref_block_num" _ rfl),
    field_toJSON uint32_readsJson (h "ref_block_prefix" _ rfl),
    field_toJSON varuint32_readsJson (h "max_net_usage_words" _ rfl),
    field_toJSON uint8_readsJson (h "max_cpu_usage_ms" _ rfl),
    field_toJSON varuint32_readsJson (h "delay_sec" _ rfl)]
  rfl

/-- **A transaction is read from its json form.** -/
theorem transaction_readsJson : transaction.ReadsJson where
  read := by
    intro x
    have hheader : transactionHeader.fromJSON (transaction.toJSON x) = .ok x.toTransactionHeader := by
      refine transactionHeader_fromJSON rfl (fun key v hv => ?_)
      show Json.lookup (headerMembers _ ++ _) key = some v
      unfold Json.lookup at hv ⊢
      rw [List.find?_append]
      cases hfind : (headerMembers x.toTransactionHeader).find? (fun m => m.1 = key) with
      | none =>
        rw [hfind] at hv
        cases hv
      | some m =>
        rw [hfind] at hv
        exact hv
    unfold transaction at hheader ⊢
    simp only at hheader ⊢
    rw [hheader, ok_bind,
      field_toJSON (vector_readsJson action_readsJson)
        (show _ = some (action.vector.toJSON x.context_free_actions) from rfl),
      field_toJSON (vector_readsJson action_readsJson)
        (show _ = some (action.vector.toJSON x.actions) from rfl),
      field_toJSON (vector_readsJson transactionExtension_readsJson)
        (show _ = some (transactionExtension.vector.toJSON x.transaction_extensions) from rfl)]
    rfl
  notNull := fun _ heq => by cases heq

end AbiTraits

end Dwarfkit
