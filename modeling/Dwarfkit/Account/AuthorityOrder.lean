/-
# The order of an authority

`PublicKey::compare` and `Authority::sort`.  The comparison of WebAuthn keys skips the length
prefix of the relying party, and waits are sorted by their seconds alone: entries that differ in
what is not compared stay in the order they came in.

* `compare_eq_zero_iff_differInPrefix` : the keys that compare equal;
* `sort_sort`, `sort_eq_of_sameEntries` : a sorted authority stays as it is, and is sorted alike
  in every order of its entries;
* `authority_order` : both, for all keys and authorities.
-/
import Dwarfkit.Account.Permission

namespace Dwarfkit

open Ordered

/-! ## Keys that compare equal -/

namespace PublicKey

/-- The bytes that `readRpid` skips behind the point and the presence byte. -/
def lengthPrefix (data : Bytes) : Bytes :=
  (data.drop 34).takeWhile (fun b => b &&& 0x80 ≠ 0) ++
    ((data.drop 34).dropWhile (fun b => b &&& 0x80 ≠ 0)).take 1

/-- The data of a WebAuthn key in its three parts. -/
theorem data_eq (data : Bytes) : data = data.take 34 ++ (lengthPrefix data ++ readRpid data) := by
  unfold lengthPrefix readRpid
  rw [List.append_assoc, List.take_append_drop, List.takeWhile_append_dropWhile,
    List.take_append_drop]

/-- Two WebAuthn keys with one point, presence byte and relying party, behind another length
prefix. -/
structure DifferInPrefix (a b : PublicKey) : Prop where
  left : a.type = .WA
  right : b.type = .WA
  point : a.data.take 34 = b.data.take 34
  rpid : readRpid a.data = readRpid b.data
  lengthPrefix : lengthPrefix a.data ≠ lengthPrefix b.data

/-- **Keys compare equal** exactly if they are the same, or differ in the length prefix
alone. -/
theorem compare_eq_zero_iff_differInPrefix (a b : PublicKey) :
    a.compare b = 0 ↔ a = b ∨ DifferInPrefix a b := by
  rw [compare_eq_zero_iff]
  unfold head tail
  constructor
  · rintro ⟨htype, hhead, htail⟩
    -- Only the comparison of WebAuthn keys leaves bytes out: those of the length prefix.
    by_cases hWA : a.type = .WA
    · have hWA' : b.type = .WA := htype ▸ hWA
      rw [if_pos hWA, if_pos hWA'] at hhead htail
      by_cases hprefix : lengthPrefix a.data = lengthPrefix b.data
      · refine .inl ?_
        have hdata : a.data = b.data := by
          rw [data_eq a.data, data_eq b.data, hhead, hprefix, htail]
        cases a
        cases b
        simp only at htype hdata
        rw [htype, hdata]
      · exact .inr ⟨hWA, hWA', hhead, htail, hprefix⟩
    · rw [if_neg hWA, if_neg (htype ▸ hWA)] at hhead
      refine .inl ?_
      cases a
      cases b
      simp only at htype hhead
      rw [htype, hhead]
  · rintro (rfl | h)
    · exact ⟨rfl, rfl, rfl⟩
    · refine ⟨h.left.trans h.right.symm, ?_, ?_⟩
      · rw [if_pos h.left, if_pos h.right, h.point]
      · rw [if_pos h.left, if_pos h.right, h.rpid]

end PublicKey

/-! ## Sorted authorities -/

namespace Authority

/-- The same entries, in any order. -/
structure SameEntries (auth auth' : Authority) : Prop where
  threshold : auth.threshold = auth'.threshold
  keys : auth.keys.Perm auth'.keys
  accounts : auth.accounts.Perm auth'.accounts
  waits : auth.waits.Perm auth'.waits

/-- No entry twice: the keys differ, and not in the length prefix alone, the permission levels
differ, and so do the seconds of the waits. -/
structure DistinctEntries (auth : Authority) : Prop where
  keys : auth.keys.Pairwise (fun a b => a.key ≠ b.key ∧ ¬ PublicKey.DifferInPrefix a.key b.key)
  accounts : auth.accounts.Pairwise (fun a b => a.permission ≠ b.permission)
  waits : auth.waits.Pairwise (fun a b => a.wait_sec ≠ b.wait_sec)

/-- Sorting moves the entries only. -/
theorem sort_sameEntries (auth : Authority) : SameEntries auth.sort auth := by
  rw [sort_eq]
  exact ⟨rfl, sort_perm _ _, sort_perm _ _, sort_perm _ _⟩

/-- A sorted authority stays as it is. -/
theorem sort_sort (auth : Authority) : auth.sort.sort = auth.sort := by
  rw [sort_eq auth, sort_eq]
  simp only [Ordered.sort_sort compareKeys_comparison, Ordered.sort_sort compareAccounts_comparison,
    Ordered.sort_sort compareWaits_comparison]

/-- **An authority is sorted alike** in every order of its entries, if none is there twice. -/
theorem sort_eq_of_sameEntries {auth auth' : Authority} (h : DistinctEntries auth)
    (hsame : SameEntries auth auth') : auth.sort = auth'.sort := by
  have hkeys : Distinct compareKeys auth.keys := by
    refine List.Pairwise.imp ?_ h.keys
    rintro a b ⟨hne, hprefix⟩ hzero
    exact ((PublicKey.compare_eq_zero_iff_differInPrefix a.key b.key).mp hzero).elim hne hprefix
  have haccounts : Distinct compareAccounts auth.accounts :=
    List.Pairwise.imp (fun hne hzero => hne (PermissionLevel.compare_eq_zero.mp hzero)) h.accounts
  have hwaits : Distinct compareWaits auth.waits :=
    List.Pairwise.imp (fun hne hzero => hne (compareWaits_eq_zero.mp hzero)) h.waits
  rw [sort_eq auth, sort_eq auth',
    sort_eq_of_perm compareKeys_comparison hsame.keys
      (fun a ha b hb => hkeys.eq_of_mem compareKeys_comparison ha hb),
    sort_eq_of_perm compareAccounts_comparison hsame.accounts
      (fun a ha b hb => haccounts.eq_of_mem compareAccounts_comparison ha hb),
    sort_eq_of_perm compareWaits_comparison hsame.waits
      (fun a ha b hb => hwaits.eq_of_mem compareWaits_comparison ha hb),
    hsame.threshold]

/-- **Authority sorting.**  The comparison of keys is a strict weak order, in which two keys
compare equal exactly if they are the same or differ in the length prefix of the relying party
alone; sorting moves the entries of an authority only, sorts it for good, and sorts it alike in
every order of its entries, if none is there twice. -/
theorem authority_order :
    IsStrictWeakOrder PublicKey (fun a b => a.compare b < 0) ∧
    (∀ a b : PublicKey, a.compare b = 0 ↔ a = b ∨ PublicKey.DifferInPrefix a b) ∧
    (∀ auth : Authority, SameEntries auth.sort auth ∧ auth.sort.sort = auth.sort) ∧
    (∀ auth auth' : Authority, DistinctEntries auth → SameEntries auth auth' →
      auth.sort = auth'.sort) :=
  ⟨PublicKey.publicKey_comparison.isStrictWeakOrder,
    PublicKey.compare_eq_zero_iff_differInPrefix,
    fun auth => ⟨sort_sameEntries auth, sort_sort auth⟩,
    fun _ _ => sort_eq_of_sameEntries⟩

/-- Two waits come out alike in both orders. -/
theorem authority_order_waits :
    sort { waits := [{ wait_sec := 60, weight := 1 }, { wait_sec := 30, weight := 2 }] } =
      sort { waits := [{ wait_sec := 30, weight := 2 }, { wait_sec := 60, weight := 1 }] } := by
  refine authority_order.2.2.2 _ _ ⟨.nil, .nil, ?_⟩ ⟨rfl, .nil, .nil, .swap _ _ _⟩
  decide

/-- A WebAuthn key for the relying party `a`, behind some length prefix. -/
def prefixedKey (lengthPrefix : Bytes) : PublicKey where
  type := .WA
  data := List.replicate 34 2 ++ lengthPrefix ++ [97]

/-- Two keys that differ in the length prefix compare equal, and two waits of the same seconds
stay in the order they came in. -/
theorem not_authority_order :
    (prefixedKey [1] ≠ prefixedKey [0x81, 0] ∧
      (prefixedKey [1]).compare (prefixedKey [0x81, 0]) = 0) ∧
    sort { waits := [{ wait_sec := 60, weight := 1 }, { wait_sec := 60, weight := 2 }] } ≠
      sort { waits := [{ wait_sec := 60, weight := 2 }, { wait_sec := 60, weight := 1 }] } := by
  have hsorted : ∀ x y : UInt16,
      (sort { waits := [{ wait_sec := 60, weight := x }, { wait_sec := 60, weight := y }] }).waits =
        [{ wait_sec := 60, weight := x }, { wait_sec := 60, weight := y }] := by
    intro x y
    rw [sort_eq]
    refine sort_of_pairwise ?_
    simp [compareWaits]
  refine ⟨by decide, fun h => ?_⟩
  have hwaits := congrArg waits h
  rw [hsorted, hsorted] at hwaits
  exact absurd hwaits (by decide)

end Authority

end Dwarfkit
