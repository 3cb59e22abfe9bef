/-
# Arrays, optionals and structs are read back

Round trips of the compound types: what `abi_traits` writes for a list, an optional
or one of the chain's structs, its reader takes back.

* `Writes` : a writer that cannot fail;
* `vector_roundTrips`, `optional_roundTrips` : lists of fewer than `2 ^ 32` items, and
  optionals;
* `action_roundTrips`, `transaction_roundTrips` : the structs of the chain.
-/
import Dwarfkit.Antelope.Chain.Transaction
import Dwarfkit.Antelope.Serializer.Builtins

namespace Dwarfkit

open Wire

namespace AbiTraits

/-! ## Writers that cannot fail -/

/-- Every value is written. -/
def Writes {α : Type} (t : AbiTraits α) : Prop := ∀ x, ∃ bytes, t.toABI x = .ok bytes

theorem textual_writes {α : Type} (abiName : Str) (toABI : α → Bytes) (fromABI : Decoder α)
    (toString : α → Str) (ofString : Str → Result α) (abiDefault : α) :
    (textual abiName toABI fromABI toString ofString abiDefault).Writes :=
  fun x => ⟨toABI x, rfl⟩

theorem mapM_writes {α : Type} {t : AbiTraits α} (ht : t.Writes) (l : List α) :
    ∃ items, l.mapM t.toABI = .ok items := by
  induction l with
  | nil => exact ⟨[], rfl⟩
  | cons x l ih =>
    obtain ⟨bytes, hbytes⟩ := ht x
    obtain ⟨items, hitems⟩ := ih
    exact ⟨bytes :: items, by rw [List.mapM_cons, hbytes, ok_bind, hitems, ok_bind]; rfl⟩

theorem vector_writes {α : Type} {t : AbiTraits α} (ht : t.Writes) : t.vector.Writes := by
  intro l
  obtain ⟨items, hitems⟩ := mapM_writes ht l
  refine ⟨writeVaruint32 l.length.toUInt32 ++ items.flatten, ?_⟩
  show (l.mapM t.toABI >>= fun items => _) = _
  rw [hitems]
  rfl

theorem optional_writes {α : Type} {t : AbiTraits α} (ht : t.Writes) : t.optional.Writes := by
  intro o
  cases o with
  | none => exact ⟨_, rfl⟩
  | some x =>
    obtain ⟨bytes, hbytes⟩ := ht x
    refine ⟨1 :: bytes, ?_⟩
    show (t.toABI x >>= fun value => _) = _
    rw [hbytes]
    rfl

/-! ## Arrays -/

/-- One round of the loop: an item that takes some bytes is appended. -/
theorem readItems_succ {α : Type} {item : Decoder α} {s rest : Bytes} {x : α}
    (hitem : item.run s = .ok (x, rest)) (hshorter : rest.length ≠ s.length) (n : ℕ) (rv : List α) :
    (readItems item (n + 1) rv).run s = (readItems item n (rv ++ [x])).run rest := by
  show (item.run s >>= fun p =>
    (if p.2.length = s.length ∧ p.2.length + 1 ≤ rv.length then
      decodeErr .invalid "Array length exceeds remaining data"
    else readItems item n (rv ++ [p.1]) : Decoder (List α)).run p.2) = _
  rw [hitem, ok_bind, if_neg (fun h => hshorter h.1)]

/-- Items that each take some bytes are read one after the other. -/
theorem reads_readItems {α : Type} {item : Decoder α} {l : List α} {chunks : List Bytes}
    (h : List.Forall₂ (fun x chunk => chunk ≠ [] ∧ Reads item chunk x) l chunks) (rv : List α) :
    Reads (readItems item l.length rv) chunks.flatten (rv ++ l) := by
  induction h generalizing rv with
  | nil =>
    rw [List.append_nil]
    exact Reads.pure rv
  | @cons x chunk l chunks hx _ ih =>
    obtain ⟨hne, hread⟩ := hx
    intro rest
    have hshorter : (chunks.flatten ++ rest).length ≠ (chunk ++ (chunks.flatten ++ rest)).length := by
      have hpos : 0 < chunk.length := List.length_pos_of_ne_nil hne
      have hsum : (chunk ++ (chunks.flatten ++ rest)).length =
          chunk.length + (chunks.flatten ++ rest).length := List.length_append
      omega
    have htail := ih (rv ++ [x]) rest
    rw [List.append_assoc, List.singleton_append] at htail
    rw [List.flatten_cons, List.append_assoc, List.length_cons,
      readItems_succ (hread _) hshorter]
    exact htail

/-- The chunks of a list that was written. -/
theorem forall₂_of_mapM {α : Type} {t : AbiTraits α} {valid : α → Prop} (ht : t.RoundTrips valid)
    {l : List α} {items : List Bytes} (hvalid : ∀ x ∈ l, valid x)
    (h : l.mapM t.toABI = .ok items) :
    List.Forall₂ (fun x chunk => chunk ≠ [] ∧ Reads t.fromABI chunk x) l items := by
  induction l generalizing items with
  | nil =>
    cases h
    exact .nil
  | cons x l ih =>
    rw [List.mapM_cons] at h
    obtain ⟨bytes, hbytes, h⟩ := bind_eq_ok.mp h
    obtain ⟨rest, hrest, h⟩ := bind_eq_ok.mp h
    cases h
    exact .cons (ht x bytes (hvalid x (by simp)) hbytes)
      (ih (fun y hy => hvalid y (by simp [hy])) hrest)

/-- **Lists are read back** if their length fits the length prefix. -/
theorem vector_roundTrips {α : Type} {t : AbiTraits α} {valid : α → Prop}
    (ht : t.RoundTrips valid) :
    t.vector.RoundTrips (fun l => l.length < 2 ^ 32 ∧ ∀ x ∈ l, valid x) := by
  rintro l bytes ⟨hlen, hvalid⟩ h
  obtain ⟨items, hitems, h⟩ := bind_eq_ok.mp h
  cases h
  refine ⟨?_, ?_⟩
  · intro hnil
    exact writeVaruint32_ne_nil _ (List.append_eq_nil_iff.mp hnil).1
  · have hn : (l.length.toUInt32).toNat = l.length := by
      simp only [Nat.toUInt32, UInt32.toNat_ofNat']
      omega
    refine (reads_readVaruint32 l.length.toUInt32).bind ?_
    rw [hn]
    exact reads_readItems (forall₂_of_mapM ht hvalid hitems) []

/-! ## Optionals -/

/-- **Optionals are read back.** -/
theorem optional_roundTrips {α : Type} {t : AbiTraits α} {valid : α → Prop}
    (ht : t.RoundTrips valid) : t.optional.RoundTrips (fun o => ∀ x ∈ o, valid x) := by
  intro o bytes hvalid h
  cases o with
  | none =>
    cases h
    exact ⟨by simp, fun _ => rfl⟩
  | some x =>
    obtain ⟨value, hvalue, h⟩ := bind_eq_ok.mp h
    cases h
    obtain ⟨-, hread⟩ := ht x value (hvalid x rfl) hvalue
    exact ⟨by simp, (reads_readByte 1).bind (hread.bind_pure some)⟩

/-! ## The structs of the chain -/

theorem permissionLevel_writes : permissionLevel.Writes := fun _ => ⟨_, rfl⟩

theorem permissionLevel_roundTrips : permissionLevel.RoundTrips (fun _ => True) := by
  intro x bytes _ h
  obtain ⟨actor, hactor, h⟩ := bind_eq_ok.mp h
  obtain ⟨permission, hpermission, h⟩ := bind_eq_ok.mp h
  cases h
  obtain ⟨hne, hactor⟩ := name_roundTrips x.actor actor trivial hactor
  obtain ⟨-, hpermission⟩ := name_roundTrips x.permission permission trivial hpermission
  exact ⟨by simp [hne], hactor.bind (hpermission.bind_pure _)⟩

end AbiTraits

/-- The length prefixes of an action can hold its lengths. -/
def Action.Sized (a : Action) : Prop :=
  a.authorization.length < 2 ^ 32 ∧ a.data.length < 2 ^ 32

/-- The length prefix of an extension can hold the length of its data. -/
def TransactionExtension.Sized (x : TransactionExtension) : Prop := x.data.length < 2 ^ 32

/-- The length prefixes of a list of actions can hold its lengths. -/
def ActionsSized (l : List Action) : Prop := l.length < 2 ^ 32 ∧ ∀ a ∈ l, a.Sized

/-- The length prefixes of a transaction can hold its lengths. -/
structure Transaction.Sized (tx : Transaction) : Prop where
  context_free_actions : ActionsSized tx.context_free_actions
  actions : ActionsSized tx.actions
  extensions : tx.transaction_extensions.length < 2 ^ 32 ∧
    ∀ x ∈ tx.transaction_extensions, x.Sized

namespace AbiTraits

theorem action_writes : action.Writes := by
  intro a
  obtain ⟨authorization, hauthorization⟩ := vector_writes permissionLevel_writes a.authorization
  refine ⟨writeInt 8 a.account.value.toNat ++ writeInt 8 a.name.value.toNat ++ authorization ++
    writeString a.data, ?_⟩
  show (permissionLevel.vector.toABI a.authorization >>= fun authorization => _) = _
  rw [hauthorization]
  rfl

theorem action_roundTrips : action.RoundTrips Action.Sized := by
  rintro a bytes ⟨hauthorizations, hdata⟩ h
  obtain ⟨account, haccount, h⟩ := bind_eq_ok.mp h
  obtain ⟨name, hname, h⟩ := bind_eq_ok.mp h
  obtain ⟨authorization, hauthorization, h⟩ := bind_eq_ok.mp h
  obtain ⟨data, hbytes, h⟩ := bind_eq_ok.mp h
  cases h
  obtain ⟨hne, haccount⟩ := name_roundTrips _ account trivial haccount
  obtain ⟨-, hname⟩ := name_roundTrips _ name trivial hname
  obtain ⟨-, hauthorization⟩ := vector_roundTrips permissionLevel_roundTrips _ authorization
    ⟨hauthorizations, fun _ _ => trivial⟩ hauthorization
  obtain ⟨-, hread⟩ := bytes_roundTrips _ data hdata hbytes
  refine ⟨by simp [hne], ?_⟩
  rw [List.append_assoc, List.append_assoc]
  exact haccount.bind (hname.bind (hauthorization.bind (hread.bind_pure _)))

theorem transactionExtension_writes : transactionExtension.Writes := fun _ => ⟨_, rfl⟩

theorem transactionExtension_roundTrips :
    transactionExtension.RoundTrips TransactionExtension.Sized := by
  intro x bytes hx h
  obtain ⟨type, htype, h⟩ := bind_eq_ok.mp h
  obtain ⟨data, hdata, h⟩ := bind_eq_ok.mp h
  cases h
  obtain ⟨hne, htype⟩ := uint16_roundTrips _ type trivial htype
  obtain ⟨-, hdata⟩ := bytes_roundTrips _ data hx hdata
  exact ⟨by simp [hne], htype.bind (hdata.bind_pure _)⟩

theorem transactionHeader_writes : transactionHeader.Writes := fun _ => ⟨_, rfl⟩

theorem transactionHeader_roundTrips : transactionHeader.RoundTrips (fun _ => True) := by
  intro x bytes _ h
  obtain ⟨expiration, hexpiration, h⟩ := bind_eq_ok.mp h
  obtain ⟨num, hnum, h⟩ := bind_eq_ok.mp h
  obtain ⟨pref, hpref, h⟩ := bind_eq_ok.mp h
  obtain ⟨net, hnet, h⟩ := bind_eq_ok.mp h
  obtain ⟨cpu, hcpu, h⟩ := bind_eq_ok.mp h
  obtain ⟨delay, hdelay, h⟩ := bind_eq_ok.mp h
  cases h
  obtain ⟨hne, hexpiration⟩ := timePointSec_roundTrips _ expiration trivial hexpiration
  obtain ⟨-, hnum⟩ := uint16_roundTrips _ num trivial hnum
  obtain ⟨-, hpref⟩ := uint32_roundTrips _ pref trivial hpref
  obtain ⟨-, hnet⟩ := varuint32_roundTrips _ net trivial hnet
  obtain ⟨-, hcpu⟩ := uint8_roundTrips _ cpu trivial hcpu
  obtain ⟨-, hdelay⟩ := varuint32_roundTrips _ delay trivial hdelay
  refine ⟨by simp [hne], ?_⟩
  simp only [List.append_assoc]
  exact hexpiration.bind (hnum.bind (hpref.bind (hnet.bind (hcpu.bind (hdelay.bind_pure _)))))

theorem transaction_writes : transaction.Writes := by
  intro tx
  obtain ⟨cfa, hcfa⟩ := vector_writes action_writes tx.context_free_actions
  obtain ⟨actions, hactions⟩ := vector_writes action_writes tx.actions
  obtain ⟨extensions, hextensions⟩ :=
    vector_writes transactionExtension_writes tx.transaction_extensions
  obtain ⟨header, hheader⟩ := transactionHeader_writes tx.toTransactionHeader
  refine ⟨header ++ cfa ++ actions ++ extensions, ?_⟩
  show (transactionHeader.toABI tx.toTransactionHeader >>= fun header =>
    action.vector.toABI tx.context_free_actions >>= fun cfa =>
    action.vector.toABI tx.actions >>= fun actions =>
    transactionExtension.vector.toABI tx.transaction_extensions >>= fun extensions =>
    pure (header ++ cfa ++ actions ++ extensions)) = _
  rw [hheader, ok_bind, hcfa, ok_bind, hactions, ok_bind, hextensions]
  rfl

/-- **Transactions are read back.** -/
theorem transaction_roundTrips : transaction.RoundTrips Transaction.Sized := by
  intro tx bytes hx h
  obtain ⟨header, hheader, h⟩ := bind_eq_ok.mp h
  obtain ⟨cfa, hcfa, h⟩ := bind_eq_ok.mp h
  obtain ⟨actions, hactions, h⟩ := bind_eq_ok.mp h
  obtain ⟨extensions, hextensions, h⟩ := bind_eq_ok.mp h
  cases h
  obtain ⟨hne, hheader⟩ := transactionHeader_roundTrips _ header trivial hheader
  obtain ⟨-, hcfa⟩ := vector_roundTrips action_roundTrips _ cfa hx.context_free_actions hcfa
  obtain ⟨-, hactions⟩ := vector_roundTrips action_roundTrips _ actions hx.actions hactions
  obtain ⟨-, hextensions⟩ := vector_roundTrips transactionExtension_roundTrips _ extensions
    hx.extensions hextensions
  refine ⟨by simp [hne], ?_⟩
  rw [List.append_assoc, List.append_assoc]
  exact hheader.bind (hcfa.bind (hactions.bind (hextensions.bind_pure _)))

end AbiTraits

end Dwarfkit
