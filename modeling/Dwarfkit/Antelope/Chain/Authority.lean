/-
# Authorities

`Authority` of `antelope/chain/authority.hpp`: a threshold, and weighted keys,
accounts and waits.  The source accumulates the wait weights and subtracts them
from the threshold in 32-bit unsigned arithmetic.

* `FullPermission` : what holding a full permission means, in unbounded integers;
* `hasPermission_eq_true_iff` : what the code's comparison comes to.
-/
import Dwarfkit.Antelope.Chain.Transaction

namespace Dwarfkit

/-! ## Data -/

structure KeyWeight where
  key : PublicKey := {}
  weight : UInt16 := 0
  deriving DecidableEq, Repr

structure PermissionLevelWeight where
  permission : PermissionLevel := {}
  weight : UInt16 := 0
  deriving DecidableEq, Repr

structure WaitWeight where
  wait_sec : UInt32 := 0
  weight : UInt16 := 0
  deriving DecidableEq, Repr

structure Authority where
  threshold : UInt32 := 0
  keys : List KeyWeight := []
  accounts : List PermissionLevelWeight := []
  waits : List WaitWeight := []
  deriving DecidableEq, Repr

namespace Authority

/-! ## The source's operations -/

/-- `waitThreshold`: total weight of all waits, accumulated in 32 bits. -/
def waitThreshold (auth : Authority) : UInt32 :=
  auth.waits.foldl (fun total wait => total + wait.weight.toUInt32) 0

/-- `keyThreshold`: weight a key needs to sign for this authority. -/
def keyThreshold (auth : Authority) : UInt32 := auth.threshold - auth.waitThreshold

/-- The entry of a key: the first one, should it be listed more than once. -/
def keyEntry (auth : Authority) (publicKey : PublicKey) : Option KeyWeight :=
  auth.keys.find? (fun kw => kw.key = publicKey)

/-- `keyWeight`: the weight for a key, or zero if it is not included. -/
def keyWeight (auth : Authority) (publicKey : PublicKey) : UInt16 :=
  match auth.keyEntry publicKey with
  | some kw => kw.weight
  | none => 0

/-- `hasPermission`. -/
def hasPermission (auth : Authority) (publicKey : PublicKey) (includePartial : Bool := false) :
    Bool :=
  let needed := if includePartial then 1 else auth.keyThreshold
  decide (needed ≤ (auth.keyWeight publicKey).toUInt32)

/-- `sort`: stable, by key, permission and wait. -/
def sort (auth : Authority) : Authority :=
  { auth with
    keys := auth.keys.mergeSort (fun a b => a.key.compare b.key ≤ 0)
    accounts := auth.accounts.mergeSort (fun a b => a.permission.compare b.permission ≤ 0)
    waits := auth.waits.mergeSort (fun a b => a.wait_sec ≤ b.wait_sec) }

/-! ## What a permission is -/

/-- Total weight of all waits, as an unbounded integer. -/
def waitTotal (auth : Authority) : ℕ := (auth.waits.map (fun wait => wait.weight.toNat)).sum

/-- A key holds the full permission: it is listed, and its weight and all the waits
together reach the threshold. -/
def FullPermission (auth : Authority) (publicKey : PublicKey) : Prop :=
  ∃ kw, auth.keyEntry publicKey = some kw ∧
    auth.threshold.toNat ≤ kw.weight.toNat + auth.waitTotal

/-- The accumulated waits are the total modulo `2 ^ 32`. -/
theorem toNat_waitThreshold (auth : Authority) :
    auth.waitThreshold.toNat = auth.waitTotal % 2 ^ 32 := by
  have hfold : ∀ (waits : List WaitWeight) (total : UInt32),
      (waits.foldl (fun total wait => total + wait.weight.toUInt32) total).toNat =
        (total.toNat + (waits.map (fun wait => wait.weight.toNat)).sum) % 2 ^ 32 := by
    intro waits
    induction waits with
    | nil =>
      intro total
      have := total.toNat_lt
      simp
    | cons wait waits ih =>
      intro total
      rw [List.foldl_cons, ih, UInt32.toNat_add, UInt16.toNat_toUInt32, List.map_cons,
        List.sum_cons, Nat.mod_add_mod, Nat.add_assoc]
  rw [waitThreshold, hfold, waitTotal]
  simp

/-- A permission is granted when the key's weight, zero for an unlisted key, reaches
the threshold less the waits, in 32-bit arithmetic. -/
theorem hasPermission_eq_true_iff (auth : Authority) (publicKey : PublicKey) :
    auth.hasPermission publicKey = true ↔
      (2 ^ 32 + auth.threshold.toNat - auth.waitTotal % 2 ^ 32) % 2 ^ 32 ≤
        (auth.keyWeight publicKey).toNat := by
  have hlt : auth.waitTotal % 2 ^ 32 < 2 ^ 32 := Nat.mod_lt _ (by norm_num)
  unfold hasPermission
  rw [decide_eq_true_iff, if_neg (by simp), UInt32.le_iff_toNat_le, keyThreshold,
    UInt32.toNat_sub, toNat_waitThreshold, UInt16.toNat_toUInt32]
  rw [show 2 ^ 32 - auth.waitTotal % 2 ^ 32 + auth.threshold.toNat =
    2 ^ 32 + auth.threshold.toNat - auth.waitTotal % 2 ^ 32 by omega]

/-- When the comparison agrees with the unbounded sum: for a listed key the waits
stay within the threshold, or the wrapped difference is within the key's weight;
for an unlisted key the waits do not come to the threshold modulo `2 ^ 32`. -/
def ThresholdFits (auth : Authority) (publicKey : PublicKey) : Prop :=
  match auth.keyEntry publicKey with
  | some kw => auth.waitTotal ≤ auth.threshold.toNat ∨
      (2 ^ 32 + auth.threshold.toNat - auth.waitTotal % 2 ^ 32) % 2 ^ 32 ≤ kw.weight.toNat
  | none => auth.waitTotal % 2 ^ 32 ≠ auth.threshold.toNat

/-- **The check decides the full permission exactly when the threshold fits.** -/
theorem hasPermission_correct_iff (auth : Authority) (publicKey : PublicKey) :
    (auth.hasPermission publicKey = true ↔ auth.FullPermission publicKey) ↔
      auth.ThresholdFits publicKey := by
  have hT := auth.threshold.toNat_lt
  have hlt : auth.waitTotal % 2 ^ 32 < 2 ^ 32 := Nat.mod_lt _ (by norm_num)
  rw [hasPermission_eq_true_iff]
  unfold FullPermission ThresholdFits keyWeight
  cases hentry : auth.keyEntry publicKey with
  | none =>
    -- an unlisted key has weight zero: it passes when the difference is zero
    simp only [reduceCtorEq, false_and, exists_false, iff_false, not_le]
    constructor
    · intro h heq
      rw [heq] at h
      simp at h
    · intro hne
      show 0 < _
      omega
  | some kw =>
    simp only [Option.some.injEq, exists_eq_left']
    by_cases hfit : auth.waitTotal ≤ auth.threshold.toNat
    · have hmod : auth.waitTotal % 2 ^ 32 = auth.waitTotal := Nat.mod_eq_of_lt (by omega)
      have hdiff : (2 ^ 32 + auth.threshold.toNat - auth.waitTotal) % 2 ^ 32 =
          auth.threshold.toNat - auth.waitTotal := by omega
      rw [hmod, hdiff]
      simp only [hfit, true_or, iff_true]
      omega
    · -- past the threshold the sum always suffices, but the difference has wrapped
      have hsum : auth.threshold.toNat ≤ kw.weight.toNat + auth.waitTotal := by omega
      simp only [hfit, false_or, hsum, iff_true]

end Authority

end Dwarfkit
