/-
# Permissions and their mutators

`Permission` of `account/permission.hpp`.  nodeos wants the keys, accounts and waits of an
authority strictly increasing; every mutator that adds an entry sorts the authority.

* `publicKey_comparison`, `compare_eq_zero_iff` : the order on keys, and which keys it
  takes for the same;
* `canonical_apply_iff` : when a mutator keeps the authority canonical;
* `canonical_run_iff` : when all of a sequence of calls do.
-/
import Dwarfkit.Antelope.Chain.Authority
import Dwarfkit.Library.Comparison
import Dwarfkit.Library.Effects
import Dwarfkit.Library.Runs

namespace Dwarfkit

open Ordered Effects

/-! ## The order on keys -/

namespace PublicKey

/-- The order of single bytes. -/
def compareByte (x y : UInt8) : Int :=
  if x.toNat < y.toNat then -1 else if y.toNat < x.toNat then 1 else 0

theorem compareByte_comparison : Comparison compareByte :=
  Comparison.ofLinearOrder.comap UInt8.toNat

theorem eq_of_compareByte_eq_zero (x y : UInt8) (h : compareByte x y = 0) : x = y :=
  UInt8.toNat_inj.mp ((Comparison.order_eq_zero_iff x.toNat y.toNat).mp h)

/-- `compareBytes` compares byte by byte. -/
theorem compareBytes_eq_lexList : compareBytes = lexList compareByte := by
  funext a b
  induction a generalizing b with
  | nil =>
    cases b with
    | nil => rfl
    | cons y ys => rfl
  | cons x xs ih =>
    cases b with
    | nil => rfl
    | cons y ys =>
      rw [compareBytes, lexList, ih ys]
      unfold compareByte
      by_cases hxy : x = y
      · subst hxy
        simp
      · have hne : x.toNat ≠ y.toNat := fun h => hxy (UInt8.toNat_inj.mp h)
        rw [if_neg hxy]
        by_cases hlt : x < y
        · have := UInt8.lt_iff_toNat_lt.mp hlt
          simp [hlt, this]
        · have hgt : y.toNat < x.toNat := by
            have := mt UInt8.lt_iff_toNat_lt.mpr hlt
            omega
          simp [hlt, hgt, hgt.not_gt]

theorem compareBytes_comparison : Comparison compareBytes := by
  rw [compareBytes_eq_lexList]
  exact compareByte_comparison.lexList

/-- Bytes that compare equal are the same. -/
theorem compareBytes_eq_zero {a b : Bytes} : compareBytes a b = 0 ↔ a = b := by
  rw [compareBytes_eq_lexList]
  exact lexList_eq_zero compareByte_comparison eq_of_compareByte_eq_zero

/-- The part of a key's data that is compared first: all of it, or the point and the
presence byte of a WebAuthn key. -/
def head (k : PublicKey) : Bytes := if k.type = .WA then k.data.take 34 else k.data

/-- The part that is compared after it: the relying party of a WebAuthn key. -/
def tail (k : PublicKey) : Bytes := if k.type = .WA then readRpid k.data else []

theorem index_inj {s t : KeyType} : s.index = t.index ↔ s = t := by
  cases s <;> cases t <;> decide

/-- Keys are compared by type, head and tail. -/
theorem compare_eq (a b : PublicKey) :
    a.compare b =
      let byType : Int := if a.type.index < b.type.index then -1
        else if b.type.index < a.type.index then 1 else 0
      if byType ≠ 0 then byType
      else if compareBytes a.head b.head ≠ 0 then compareBytes a.head b.head
        else compareBytes a.tail b.tail := by
  unfold compare compareWebAuthn head tail
  rcases lt_trichotomy a.type.index b.type.index with hlt | heq | hgt
  · simp [hlt, hlt.ne]
  · have htype := index_inj.mp heq
    by_cases hwa : b.type = .WA
    · simp [htype, hwa]
    · have hnil : compareBytes [] [] = 0 := rfl
      simp only [htype, hwa]
      by_cases hz : compareBytes a.data b.data = 0
      · simp [hz, hnil]
      · simp [hz]
  · simp [hgt, hgt.ne', hgt.not_gt]

theorem publicKey_comparison : Comparison compare := by
  have hlex := (Comparison.ofLinearOrder.comap (fun k : PublicKey => k.type.index)).lex
    ((compareBytes_comparison.comap head).lex (compareBytes_comparison.comap tail))
  have hcompare : compare = fun a b : PublicKey =>
      let byType : Int := if a.type.index < b.type.index then -1
        else if b.type.index < a.type.index then 1 else 0
      if byType ≠ 0 then byType
      else if compareBytes a.head b.head ≠ 0 then compareBytes a.head b.head
        else compareBytes a.tail b.tail := by
    funext a b
    exact compare_eq a b
  rw [hcompare]
  exact hlex

/-- Keys that compare equal have the same type, head and tail; they may differ in the
length prefix in front of the relying party. -/
theorem compare_eq_zero_iff (a b : PublicKey) :
    a.compare b = 0 ↔ a.type = b.type ∧ a.head = b.head ∧ a.tail = b.tail := by
  rw [compare_eq, ← compareBytes_eq_zero, ← compareBytes_eq_zero, ← index_inj]
  simp only
  split_ifs <;> simp_all <;> omega

end PublicKey

/-! ## The other orders -/

namespace Name

theorem compare_comparison : Comparison compare :=
  Comparison.ofLinearOrder.comap (fun n : Name => n.value.toNat)

theorem compare_eq_zero {a b : Name} : a.compare b = 0 ↔ a = b := by
  constructor
  · intro h
    have hvalue : a.value = b.value :=
      UInt64.toNat_inj.mp ((Comparison.order_eq_zero_iff a.value.toNat b.value.toNat).mp h)
    cases a
    cases b
    simp_all
  · rintro rfl
    exact compare_comparison.self a

end Name

namespace PermissionLevel

theorem compare_comparison : Comparison compare :=
  (Name.compare_comparison.comap PermissionLevel.actor).lex
    (Name.compare_comparison.comap PermissionLevel.permission)

/-- Permission levels that compare equal are the same. -/
theorem compare_eq_zero {a b : PermissionLevel} : a.compare b = 0 ↔ a = b := by
  constructor
  · intro h
    unfold compare at h
    by_cases hactor : a.actor.compare b.actor = 0
    · rw [if_neg (not_not.mpr hactor)] at h
      cases a
      cases b
      simp_all [Name.compare_eq_zero]
    · rw [if_pos hactor] at h
      exact absurd h hactor
  · rintro rfl
    exact compare_comparison.self a

end PermissionLevel

namespace Authority

/-- The three orders of the lists of an authority. -/
def compareKeys (a b : KeyWeight) : Int := a.key.compare b.key

def compareAccounts (a b : PermissionLevelWeight) : Int := a.permission.compare b.permission

def compareWaits (a b : WaitWeight) : Int :=
  if a.wait_sec.toNat < b.wait_sec.toNat then -1
  else if b.wait_sec.toNat < a.wait_sec.toNat then 1 else 0

theorem compareKeys_comparison : Comparison compareKeys :=
  PublicKey.publicKey_comparison.comap KeyWeight.key

theorem compareAccounts_comparison : Comparison compareAccounts :=
  PermissionLevel.compare_comparison.comap PermissionLevelWeight.permission

theorem compareWaits_comparison : Comparison compareWaits :=
  Comparison.ofLinearOrder.comap (fun wait : WaitWeight => wait.wait_sec.toNat)

theorem compareWaits_lt {a b : WaitWeight} : compareWaits a b < 0 ↔ a.wait_sec < b.wait_sec := by
  rw [UInt32.lt_iff_toNat_lt]
  exact Comparison.order_lt_zero_iff a.wait_sec.toNat b.wait_sec.toNat

theorem compareWaits_eq_zero {a b : WaitWeight} :
    compareWaits a b = 0 ↔ a.wait_sec = b.wait_sec := by
  rw [← UInt32.toNat_inj]
  exact Comparison.order_eq_zero_iff a.wait_sec.toNat b.wait_sec.toNat

/-- `sort` sorts each list by its order. -/
theorem sort_eq (auth : Authority) :
    auth.sort = { auth with
      keys := Ordered.sort compareKeys auth.keys
      accounts := Ordered.sort compareAccounts auth.accounts
      waits := Ordered.sort compareWaits auth.waits } := by
  have hwaits : (fun a b : WaitWeight => decide (a.wait_sec ≤ b.wait_sec)) =
      fun a b => decide (compareWaits a b ≤ 0) := by
    funext a b
    rw [decide_eq_decide, UInt32.le_iff_toNat_le]
    exact (Comparison.order_le_zero_iff a.wait_sec.toNat b.wait_sec.toNat).symm
  unfold sort Ordered.sort
  rw [hwaits]
  rfl

/-- The form nodeos requires: keys, accounts and waits strictly increasing. -/
structure Canonical (auth : Authority) : Prop where
  keys : auth.keys.Pairwise (fun a b => a.key.compare b.key < 0)
  accounts : auth.accounts.Pairwise (fun a b => a.permission.compare b.permission < 0)
  waits : auth.waits.Pairwise (fun a b => a.wait_sec < b.wait_sec)

theorem canonical_iff (auth : Authority) :
    auth.Canonical ↔ Strict compareKeys auth.keys ∧ Strict compareAccounts auth.accounts ∧
      Strict compareWaits auth.waits := by
  have hwaits : Strict compareWaits auth.waits ↔
      auth.waits.Pairwise (fun a b => a.wait_sec < b.wait_sec) :=
    List.Pairwise.iff (fun a b => compareWaits_lt)
  rw [hwaits]
  constructor
  · intro h
    exact ⟨h.keys, h.accounts, h.waits⟩
  · rintro ⟨hkeys, haccounts, hwaits⟩
    exact ⟨hkeys, haccounts, hwaits⟩

/-- Fewer entries keep the form. -/
theorem Canonical.sublist {auth less : Authority} (h : auth.Canonical)
    (hkeys : less.keys.Sublist auth.keys) (haccounts : less.accounts.Sublist auth.accounts)
    (hwaits : less.waits.Sublist auth.waits) : less.Canonical where
  keys := h.keys.sublist hkeys
  accounts := h.accounts.sublist haccounts
  waits := h.waits.sublist hwaits

section Insert

variable {auth : Authority} (h : auth.Canonical)
include h

theorem canonical_sort_key_iff (x : KeyWeight) :
    (sort { auth with keys := auth.keys ++ [x] }).Canonical ↔
      ∀ k ∈ auth.keys, k.key.compare x.key ≠ 0 := by
  obtain ⟨hkeys, haccounts, hwaits⟩ := (canonical_iff auth).mp h
  rw [canonical_iff, sort_eq]
  simp only [haccounts.sort_eq, hwaits.sort_eq, haccounts, hwaits, and_true]
  exact strict_insert_iff compareKeys_comparison hkeys x

theorem canonical_sort_account_iff (x : PermissionLevelWeight) :
    (sort { auth with accounts := auth.accounts ++ [x] }).Canonical ↔
      ∀ a ∈ auth.accounts, a.permission.compare x.permission ≠ 0 := by
  obtain ⟨hkeys, haccounts, hwaits⟩ := (canonical_iff auth).mp h
  rw [canonical_iff, sort_eq]
  simp only [hkeys.sort_eq, hwaits.sort_eq, hkeys, hwaits, true_and, and_true]
  exact strict_insert_iff compareAccounts_comparison haccounts x

theorem canonical_sort_wait_iff (x : WaitWeight) :
    (sort { auth with waits := auth.waits ++ [x] }).Canonical ↔
      ∀ w ∈ auth.waits, w.wait_sec ≠ x.wait_sec := by
  obtain ⟨hkeys, haccounts, hwaits⟩ := (canonical_iff auth).mp h
  rw [canonical_iff, sort_eq]
  simp only [hkeys.sort_eq, haccounts.sort_eq, hkeys, haccounts, true_and]
  rw [strict_insert_iff compareWaits_comparison hwaits x]
  exact forall₂_congr (fun w _ => not_congr compareWaits_eq_zero)

end Insert

end Authority

/-! ## Permissions -/

/-- `api::v1::AccountLinkedAction`. -/
structure AccountLinkedAction where
  account : Name := {}
  action : Option Name := none
  deriving DecidableEq, Repr

/-- `Permission`, an `api::v1::AccountPermission`. -/
structure Permission where
  perm_name : Name := {}
  parent : Name := {}
  required_auth : Authority := {}
  linked_actions : Option (List AccountLinkedAction) := none
  deriving DecidableEq, Repr

namespace Permission

/-- A change of the authority. -/
def updateAuth (f : Authority → Authority) (p : Permission) : Permission :=
  { p with required_auth := f p.required_auth }

section Mutators

variable (crypto : Crypto)

/-- The errors of the mutators: what was provided, and what is wrong with it. -/
def provided (kind : String) (what : Str) (problem : String) (p : Permission) : Result Unit :=
  err .invalid (lit "The provided " ++ lit kind ++ lit " (" ++ what ++ lit ") " ++ lit problem ++
    lit " on the \"" ++ p.perm_name.toString ++ lit "\" permission.")

/-- `addKey`. -/
def addKey (key : PublicKey) (weight : UInt16 := 1) : Effect Permission Error Unit := do
  let p ← look id
  if p.required_auth.keys.any (fun k => key = k.key) then
    outcome (p.provided "key" (key.toString crypto) "already exists")
  else
    change (updateAuth fun auth => { auth with keys := auth.keys ++ [{ key, weight }] })
    -- Always sort authorities, required by antelopeio/leap
    change (updateAuth Authority.sort)

/-- `addKey` of a key in text form. -/
def addKeyText (key : Str) (weight : UInt16 := 1) : Effect Permission Error Unit := do
  let parsed ← outcome (PublicKey.ofString crypto key)
  addKey crypto parsed weight

/-- `removeKey`. -/
def removeKey (key : PublicKey) : Effect Permission Error Unit := do
  let p ← look id
  if p.required_auth.keys.any (fun k => key = k.key) then
    change (updateAuth fun auth => { auth with keys := auth.keys.eraseP (fun k => key = k.key) })
  else
    outcome (p.provided "key" (key.toString crypto) "does not exist")

/-- `removeKey` of a key in text form. -/
def removeKeyText (key : Str) : Effect Permission Error Unit := do
  let parsed ← outcome (PublicKey.ofString crypto key)
  removeKey crypto parsed

/-- `addAccount`. -/
def addAccount (permissionLevel : PermissionLevel) (weight : UInt16 := 1) :
    Effect Permission Error Unit := do
  let p ← look id
  if p.required_auth.accounts.any (fun a => permissionLevel = a.permission) then
    outcome (p.provided "account" permissionLevel.toString "already exists")
  else
    change (updateAuth fun auth =>
      { auth with accounts := auth.accounts ++ [{ permission := permissionLevel, weight }] })
    -- Always sort authorities, required by antelopeio/leap
    change (updateAuth Authority.sort)

/-- `addAccount` of a permission level in text form. -/
def addAccountText (permissionLevel : Str) (weight : UInt16 := 1) :
    Effect Permission Error Unit := do
  let parsed ← outcome (PermissionLevel.ofString permissionLevel)
  addAccount parsed weight

/-- `removeAccount`. -/
def removeAccount (permissionLevel : PermissionLevel) : Effect Permission Error Unit := do
  let p ← look id
  if p.required_auth.accounts.any (fun a => permissionLevel = a.permission) then
    change (updateAuth fun auth =>
      { auth with accounts := auth.accounts.eraseP (fun a => permissionLevel = a.permission) })
  else
    outcome (p.provided "permission" permissionLevel.toString "does not exist")

/-- `addWait`. -/
def addWait (wait : WaitWeight) : Effect Permission Error Unit := do
  change (updateAuth fun auth => { auth with waits := auth.waits ++ [wait] })
  -- Always sort authorities, required by antelopeio/leap
  change (updateAuth Authority.sort)

/-- `removeWait`. -/
def removeWait (wait : WaitWeight) : Effect Permission Error Unit :=
  change (updateAuth fun auth => { auth with waits := auth.waits.filter (fun w => wait ≠ w) })

end Mutators

/-! ## Calls -/

/-- A call of a mutator. -/
inductive Call where
  | addKey (key : PublicKey) (weight : UInt16)
  | addKeyText (key : Str) (weight : UInt16)
  | removeKey (key : PublicKey)
  | removeKeyText (key : Str)
  | addAccount (permissionLevel : PermissionLevel) (weight : UInt16)
  | addAccountText (permissionLevel : Str) (weight : UInt16)
  | removeAccount (permissionLevel : PermissionLevel)
  | addWait (wait : WaitWeight)
  | removeWait (wait : WaitWeight)
  deriving DecidableEq, Repr

/-- What a call does. -/
def Call.perform (crypto : Crypto) : Call → Effect Permission Error Unit
  | addKey key weight => Permission.addKey crypto key weight
  | addKeyText key weight => Permission.addKeyText crypto key weight
  | removeKey key => Permission.removeKey crypto key
  | removeKeyText key => Permission.removeKeyText crypto key
  | addAccount permissionLevel weight => Permission.addAccount permissionLevel weight
  | addAccountText permissionLevel weight => Permission.addAccountText permissionLevel weight
  | removeAccount permissionLevel => Permission.removeAccount permissionLevel
  | addWait wait => Permission.addWait wait
  | removeWait wait => Permission.removeWait wait

/-- The permission after a call, whether or not the call succeeds. -/
def step (crypto : Crypto) (p : Permission) (call : Call) : Option Permission :=
  some (exec (call.perform crypto) p).2

/-! ## What one call does -/

section Execution

variable (crypto : Crypto) (p : Permission)

theorem exec_addKey (key : PublicKey) (weight : UInt16) :
    exec (addKey crypto key weight) p =
      if p.required_auth.keys.any (fun k => key = k.key) then
        (p.provided "key" (key.toString crypto) "already exists", p)
      else (.ok (), p.updateAuth fun auth =>
        Authority.sort { auth with keys := auth.keys ++ [{ key, weight }] }) := by
  unfold addKey
  rw [exec_look_bind, id]
  split_ifs
  · rfl
  · rfl

theorem exec_removeKey (key : PublicKey) :
    exec (removeKey crypto key) p =
      if p.required_auth.keys.any (fun k => key = k.key) then
        (.ok (), p.updateAuth fun auth =>
          { auth with keys := auth.keys.eraseP (fun k => key = k.key) })
      else (p.provided "key" (key.toString crypto) "does not exist", p) := by
  unfold removeKey
  rw [exec_look_bind, id]
  split_ifs
  · rfl
  · rfl

theorem exec_addAccount (permissionLevel : PermissionLevel) (weight : UInt16) :
    exec (addAccount permissionLevel weight) p =
      if p.required_auth.accounts.any (fun a => permissionLevel = a.permission) then
        (p.provided "account" permissionLevel.toString "already exists", p)
      else (.ok (), p.updateAuth fun auth =>
        Authority.sort { auth with
          accounts := auth.accounts ++ [{ permission := permissionLevel, weight }] }) := by
  unfold addAccount
  rw [exec_look_bind, id]
  split_ifs
  · rfl
  · rfl

theorem exec_removeAccount (permissionLevel : PermissionLevel) :
    exec (removeAccount permissionLevel) p =
      if p.required_auth.accounts.any (fun a => permissionLevel = a.permission) then
        (.ok (), p.updateAuth fun auth =>
          { auth with
            accounts := auth.accounts.eraseP (fun a => permissionLevel = a.permission) })
      else (p.provided "permission" permissionLevel.toString "does not exist", p) := by
  unfold removeAccount
  rw [exec_look_bind, id]
  split_ifs
  · rfl
  · rfl

theorem exec_addWait (wait : WaitWeight) :
    exec (addWait wait) p =
      (.ok (), p.updateAuth fun auth =>
        Authority.sort { auth with waits := auth.waits ++ [wait] }) := rfl

theorem exec_removeWait (wait : WaitWeight) :
    exec (removeWait wait) p =
      (.ok (), p.updateAuth fun auth =>
        { auth with waits := auth.waits.filter (fun w => wait ≠ w) }) := rfl

/-- A call on a text form that does not parse leaves the permission alone; one that does
is the call on what was parsed. -/
theorem exec_outcome_bind {α : Type} (r : Result α) (f : α → Effect Permission Error Unit) :
    exec (outcome r >>= f) p =
      match r with
      | .ok a => exec (f a) p
      | .error e => (.error e, p) := by
  rw [exec_bind, exec_outcome]
  cases r with
  | error e => rfl
  | ok a => rfl

/-- **A call that fails** leaves the permission unchanged. -/
theorem perform_error (call : Call) {e : Error} {q : Permission}
    (h : exec (call.perform crypto) p = (.error e, q)) : q = p := by
  -- The text overloads end in the typed ones, so these three are stated first.
  have hkey : ∀ key weight, exec (addKey crypto key weight) p = (.error e, q) → q = p := by
    intro key weight h
    rw [exec_addKey] at h
    split_ifs at h
    · exact (congrArg Prod.snd h).symm
    · cases congrArg Prod.fst h
  have hremove : ∀ key, exec (removeKey crypto key) p = (.error e, q) → q = p := by
    intro key h
    rw [exec_removeKey] at h
    split_ifs at h
    · cases congrArg Prod.fst h
    · exact (congrArg Prod.snd h).symm
  have haccount : ∀ level weight, exec (addAccount level weight) p = (.error e, q) → q = p := by
    intro level weight h
    rw [exec_addAccount] at h
    split_ifs at h
    · exact (congrArg Prod.snd h).symm
    · cases congrArg Prod.fst h
  cases call with
  | addKey key weight => exact hkey key weight h
  | addKeyText key weight =>
    rw [Call.perform, addKeyText, exec_outcome_bind] at h
    cases hparse : PublicKey.ofString crypto key with
    | error e' =>
      rw [hparse] at h
      exact (congrArg Prod.snd h).symm
    | ok parsed =>
      rw [hparse] at h
      exact hkey parsed weight h
  | removeKey key => exact hremove key h
  | removeKeyText key =>
    rw [Call.perform, removeKeyText, exec_outcome_bind] at h
    cases hparse : PublicKey.ofString crypto key with
    | error e' =>
      rw [hparse] at h
      exact (congrArg Prod.snd h).symm
    | ok parsed =>
      rw [hparse] at h
      exact hremove parsed h
  | addAccount level weight => exact haccount level weight h
  | addAccountText level weight =>
    rw [Call.perform, addAccountText, exec_outcome_bind] at h
    cases hparse : PermissionLevel.ofString level with
    | error e' =>
      rw [hparse] at h
      exact (congrArg Prod.snd h).symm
    | ok parsed =>
      rw [hparse] at h
      exact haccount parsed weight h
  | removeAccount level =>
    rw [Call.perform, exec_removeAccount] at h
    split_ifs at h
    · cases congrArg Prod.fst h
    · exact (congrArg Prod.snd h).symm
  | addWait wait => cases congrArg Prod.fst h
  | removeWait wait => cases congrArg Prod.fst h

end Execution

/-! ## Canonical authorities -/

/-- The key is not one that the order takes for another listed key. -/
def KeyApart (p : Permission) (key : PublicKey) : Prop :=
  ∀ k ∈ p.required_auth.keys, k.key.compare key = 0 → k.key = key

/-- A key is added only where no other listed key compares equal to it, and a wait only
where its time is not listed. -/
def Admissible (crypto : Crypto) (p : Permission) : Call → Prop
  | .addKey key _ => p.KeyApart key
  | .addKeyText key _ => ∀ parsed, PublicKey.ofString crypto key = .ok parsed → p.KeyApart parsed
  | .addWait wait => ∀ w ∈ p.required_auth.waits, w.wait_sec ≠ wait.wait_sec
  | _ => True

section Canonical

variable (crypto : Crypto) {p : Permission} (h : p.required_auth.Canonical)
include h

theorem canonical_addKey_iff (key : PublicKey) (weight : UInt16) :
    (exec (addKey crypto key weight) p).2.required_auth.Canonical ↔ p.KeyApart key := by
  rw [exec_addKey]
  split_ifs with hexists
  · -- The listed key itself compares equal, so no other one does.
    refine iff_of_true h ?_
    obtain ⟨entry, hentry, hkey⟩ := List.any_eq_true.mp hexists
    have hkey : key = entry.key := of_decide_eq_true hkey
    intro k hk hcompare
    rw [hkey] at hcompare ⊢
    have hstrict := ((Authority.canonical_iff p.required_auth).mp h).1
    rw [hstrict.eq_of_mem Authority.compareKeys_comparison hk hentry hcompare]
  · rw [updateAuth, Authority.canonical_sort_key_iff h]
    refine forall₂_congr ?_
    intro k hk
    have hne : k.key ≠ key := by
      intro hkey
      exact hexists (List.any_eq_true.mpr ⟨k, hk, decide_eq_true hkey.symm⟩)
    constructor
    · intro hcompare hzero
      exact absurd hzero hcompare
    · intro hapart hzero
      exact hne (hapart hzero)

theorem canonical_removeKey (key : PublicKey) :
    (exec (removeKey crypto key) p).2.required_auth.Canonical := by
  rw [exec_removeKey]
  split_ifs
  · exact h.sublist List.eraseP_sublist (List.Sublist.refl _) (List.Sublist.refl _)
  · exact h

theorem canonical_addAccount (permissionLevel : PermissionLevel) (weight : UInt16) :
    (exec (addAccount permissionLevel weight) p).2.required_auth.Canonical := by
  rw [exec_addAccount]
  split_ifs with hexists
  · exact h
  · rw [updateAuth, Authority.canonical_sort_account_iff h]
    intro a ha hzero
    have hsame := PermissionLevel.compare_eq_zero.mp hzero
    exact hexists (List.any_eq_true.mpr ⟨a, ha, decide_eq_true hsame.symm⟩)

theorem canonical_removeAccount (permissionLevel : PermissionLevel) :
    (exec (removeAccount permissionLevel) p).2.required_auth.Canonical := by
  rw [exec_removeAccount]
  split_ifs
  · exact h.sublist (List.Sublist.refl _) List.eraseP_sublist (List.Sublist.refl _)
  · exact h

/-- **One call** keeps the authority canonical exactly when it is admissible. -/
theorem canonical_perform_iff (call : Call) :
    (exec (call.perform crypto) p).2.required_auth.Canonical ↔ Admissible crypto p call := by
  cases call with
  | addKey key weight => exact canonical_addKey_iff crypto h key weight
  | addKeyText key weight =>
    rw [Call.perform, addKeyText, exec_outcome_bind, Admissible]
    cases PublicKey.ofString crypto key with
    | error e => simp [h]
    | ok parsed =>
      rw [canonical_addKey_iff crypto h]
      simp
  | removeKey key => exact iff_of_true (canonical_removeKey crypto h key) trivial
  | removeKeyText key =>
    refine iff_of_true ?_ trivial
    rw [Call.perform, removeKeyText, exec_outcome_bind]
    cases PublicKey.ofString crypto key with
    | error e => exact h
    | ok parsed => exact canonical_removeKey crypto h parsed
  | addAccount level weight => exact iff_of_true (canonical_addAccount h level weight) trivial
  | addAccountText level weight =>
    refine iff_of_true ?_ trivial
    rw [Call.perform, addAccountText, exec_outcome_bind]
    cases PermissionLevel.ofString level with
    | error e => exact h
    | ok parsed => exact canonical_addAccount h parsed weight
  | removeAccount level => exact iff_of_true (canonical_removeAccount h level) trivial
  -- The one call that looks for no entry of the same time before it adds.
  | addWait wait =>
    rw [Call.perform, exec_addWait]
    exact Authority.canonical_sort_wait_iff h wait
  | removeWait wait =>
    refine iff_of_true ?_ trivial
    rw [Call.perform, exec_removeWait]
    exact h.sublist (List.Sublist.refl _) (List.Sublist.refl _) List.filter_sublist

/-- **Canonical along a run.**  From a canonical authority, every permission that a
sequence of calls goes through is canonical exactly when all of its calls are
admissible; and a call that fails leaves the permission unchanged. -/
theorem canonical_run_iff (calls : List Call) :
    (Runs.AllStates (step crypto) (fun q => q.required_auth.Canonical) p calls ↔
      Runs.AllSteps (step crypto) (Admissible crypto) p calls) ∧
    ∀ (q r : Permission) (call : Call) (e : Error),
      exec (call.perform crypto) q = (.error e, r) → r = q := by
  constructor
  · refine Runs.allStates_iff_allSteps (step crypto) (I := fun _ => True) (D := fun _ => True)
      ?_ ?_ ?_ trivial h (fun _ _ => trivial)
    · intro _ _ _ _ _ _
      trivial
    · intro s call t _ hs _ ht
      cases ht
      exact canonical_perform_iff crypto hs call
    · intro s call _ _ _ hnone
      cases hnone
  · intro q r call e hfail
    exact perform_error crypto q call hfail

end Canonical

/-- Digests are needed for the text of a key only. -/
def noDigest : Crypto where
  sha256 _ := .zero 32
  ripemd160 _ := .zero 20
  recover _ _ _ := err .unsupported "No recovery"

/-- Two waits, a key and the removal of a wait. -/
theorem canonical_run_waits :
    Authority.Canonical {} ∧
    (Runs.AllStates (step noDigest) (fun q => q.required_auth.Canonical) {}
        [.addWait ⟨120, 1⟩, .addWait ⟨60, 1⟩, .addKey ⟨.K1, [2]⟩ 1, .removeWait ⟨120, 1⟩] ↔
      Runs.AllSteps (step noDigest) (Admissible noDigest) {}
        [.addWait ⟨120, 1⟩, .addWait ⟨60, 1⟩, .addKey ⟨.K1, [2]⟩ 1, .removeWait ⟨120, 1⟩]) ∧
    ∀ (q r : Permission) (call : Call) (e : Error),
      exec (call.perform noDigest) q = (.error e, r) → r = q := by
  have hempty : Authority.Canonical {} :=
    ⟨List.Pairwise.nil, List.Pairwise.nil, List.Pairwise.nil⟩
  exact ⟨hempty, canonical_run_iff noDigest (p := {}) hempty _⟩

/-- A WebAuthn key whose relying party, the single byte `97`, has the given length prefix. -/
def webAuthn (lengthPrefix : Bytes) : PublicKey where
  type := .WA
  data := List.replicate 34 2 ++ lengthPrefix ++ [97]

/-- Two waits of the same time stay in the list, and so do two WebAuthn keys that compare
equal. -/
theorem repeated_entries_kept :
    ¬ (∀ (crypto : Crypto) (p : Permission) (calls : List Call), p.required_auth.Canonical →
      Runs.AllStates (step crypto) (fun q => q.required_auth.Canonical) p calls) ∧
    (Runs.run (step noDigest) {} [.addWait ⟨60, 1⟩, .addWait ⟨60, 2⟩]).map
      (fun p => p.required_auth.waits) = some [⟨60, 1⟩, ⟨60, 2⟩] ∧
    (webAuthn [1]).compare (webAuthn [129, 0]) = 0 ∧
    (Runs.run (step noDigest) {}
        [.addKey (webAuthn [1]) 1, .addKey (webAuthn [129, 0]) 1]).map
      (fun p => p.required_auth.keys) =
        some [⟨webAuthn [1], 1⟩, ⟨webAuthn [129, 0], 1⟩] := by
  have hwaits : Runs.run (step noDigest) {} [.addWait ⟨60, 1⟩, .addWait ⟨60, 2⟩] =
      some { required_auth := { waits := [⟨60, 1⟩, ⟨60, 2⟩] } } := by
    simp [Runs.run, step, Call.perform, exec_addWait, updateAuth, Authority.sort,
      List.mergeSort_of_pairwise]
  have hkeys : Runs.run (step noDigest) {}
      [.addKey (webAuthn [1]) 1, .addKey (webAuthn [129, 0]) 1] =
      some { required_auth := { keys := [⟨webAuthn [1], 1⟩, ⟨webAuthn [129, 0], 1⟩] } } := by
    have hne : webAuthn [129, 0] ≠ webAuthn [1] := by decide
    have hsame : (webAuthn [1]).compare (webAuthn [129, 0]) ≤ 0 := by decide +kernel
    simp [Runs.run, step, Call.perform, exec_addKey, updateAuth, Authority.sort, hne, hsame,
      List.mergeSort_of_pairwise]
  refine ⟨?_, by rw [hwaits]; rfl, by decide +kernel, by rw [hkeys]; rfl⟩
  intro hclaim
  have hempty : Authority.Canonical {} :=
    ⟨List.Pairwise.nil, List.Pairwise.nil, List.Pairwise.nil⟩
  have hall := hclaim noDigest {} [.addWait ⟨60, 1⟩, .addWait ⟨60, 2⟩] hempty
  have hfinal := hall.final (step noDigest) hwaits
  exact absurd hfinal.waits (by decide)

end Permission

end Dwarfkit
