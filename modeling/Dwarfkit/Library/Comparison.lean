/-
# Three-way comparisons

A comparison gives a negative number, zero or a positive number.  Values that compare
equal need not be equal, so a duplicate test by equality is not the same as one by the
comparison.

* `Comparison.comap`, `Comparison.lex`, `Comparison.lexList` : comparisons from comparisons;
* `sort_eq_of_perm` : when a list is sorted alike in every order;
* `strict_mergeSort_iff` : when a sorted list is strictly increasing;
* `strict_insert_iff` : when it still is after one more value.
-/
import Mathlib

namespace Ordered

variable {α β : Type}

/-- The values of the comparison are those of a total preorder. -/
structure Comparison (cmp : α → α → Int) : Prop where
  swap : ∀ a b, cmp b a = -cmp a b
  trans : ∀ a b c, cmp a b ≤ 0 → cmp b c ≤ 0 → cmp a c ≤ 0

namespace Comparison

variable {cmp cmp' : α → α → Int}

theorem self (h : Comparison cmp) (a : α) : cmp a a = 0 := by
  have := h.swap a a
  omega

theorem eq_zero_comm (h : Comparison cmp) {a b : α} : cmp a b = 0 ↔ cmp b a = 0 := by
  have := h.swap a b
  omega

/-- Values that compare equal compare alike. -/
theorem eq_zero_trans (h : Comparison cmp) {a b c : α} (hab : cmp a b = 0) (hbc : cmp b c = 0) :
    cmp a c = 0 := by
  have h₁ := h.trans a b c (by omega) (by omega)
  have h₂ := h.trans c b a (by rw [h.swap b c]; omega) (by rw [h.swap a b]; omega)
  rw [h.swap a c] at h₂
  omega

/-- Of three values in increasing order, one step strict. -/
theorem lt_of_lt_of_le (h : Comparison cmp) {a b c : α} (hab : cmp a b < 0) (hbc : cmp b c ≤ 0) :
    cmp a c < 0 := by
  have hac := h.trans a b c (by omega) hbc
  by_contra hnot
  have hzero : cmp a c = 0 := by omega
  have hca : cmp c a ≤ 0 := by
    rw [h.swap a c]
    omega
  have hba := h.trans b c a hbc hca
  rw [h.swap a b] at hba
  omega

/-- To be below by a comparison is a strict weak order. -/
theorem isStrictWeakOrder (h : Comparison cmp) : IsStrictWeakOrder α (fun a b => cmp a b < 0) where
  irrefl a := by
    have := h.self a
    omega
  trans a b c hab hbc := h.lt_of_lt_of_le hab hbc.le
  incomp_trans a b c := by
    rintro ⟨hab, hba⟩ ⟨hbc, hcb⟩
    have hswap := h.swap a b
    have hswap' := h.swap b c
    have hzero := h.eq_zero_trans (show cmp a b = 0 by omega) (show cmp b c = 0 by omega)
    have hzero' := h.eq_zero_comm.mp hzero
    omega

/-- Comparing by a key. -/
theorem comap (h : Comparison cmp) (f : β → α) : Comparison (fun a b => cmp (f a) (f b)) where
  swap a b := h.swap (f a) (f b)
  trans a b c := h.trans (f a) (f b) (f c)

/-- Comparing by one comparison, and by another where that gives zero. -/
theorem lex (h : Comparison cmp) (h' : Comparison cmp') :
    Comparison (fun a b => if cmp a b ≠ 0 then cmp a b else cmp' a b) where
  swap a b := by
    have hswap := h.swap a b
    by_cases hab : cmp a b = 0
    · rw [if_neg (by omega), if_neg (by omega), h'.swap a b]
    · rw [if_pos (by omega), if_pos hab, hswap]
  trans a b c := by
    intro hab hbc
    by_cases h₁ : cmp a b = 0
    · by_cases h₂ : cmp b c = 0
      · have h₃ : cmp a c = 0 := h.eq_zero_trans h₁ h₂
        rw [if_neg (not_not.mpr h₁)] at hab
        rw [if_neg (not_not.mpr h₂)] at hbc
        rw [if_neg (not_not.mpr h₃)]
        exact h'.trans a b c hab hbc
      · rw [if_pos h₂] at hbc
        have hac := h.trans a b c (by omega) hbc
        have hne : cmp a c ≠ 0 := by
          intro h₃
          exact h₂ (h.eq_zero_trans (h.eq_zero_comm.mp h₁) h₃)
        rw [if_pos hne]
        exact hac
    · rw [if_pos h₁] at hab
      have hbc' : cmp b c ≤ 0 := by
        split_ifs at hbc with h₂ <;> omega
      have hac := h.lt_of_lt_of_le (show cmp a b < 0 by omega) hbc'
      rw [if_pos (by omega)]
      omega

/-! ### Linear orders -/

section LinearOrder

variable [LinearOrder α] (a b : α)

theorem order_le_zero_iff : (if a < b then (-1 : Int) else if b < a then 1 else 0) ≤ 0 ↔ a ≤ b := by
  rcases lt_trichotomy a b with hlt | rfl | hgt
  · simp [hlt, hlt.le]
  · simp
  · simp [hgt, hgt.not_gt, hgt.not_ge]

theorem order_lt_zero_iff : (if a < b then (-1 : Int) else if b < a then 1 else 0) < 0 ↔ a < b := by
  rcases lt_trichotomy a b with hlt | rfl | hgt
  · simp [hlt]
  · simp
  · simp [hgt, hgt.not_gt]

theorem order_eq_zero_iff : (if a < b then (-1 : Int) else if b < a then 1 else 0) = 0 ↔ a = b := by
  rcases lt_trichotomy a b with hlt | rfl | hgt
  · simp [hlt, hlt.ne]
  · simp
  · simp [hgt, hgt.not_gt, hgt.ne']

end LinearOrder

/-- The comparison of a linear order. -/
theorem ofLinearOrder [LinearOrder α] :
    Comparison (fun a b : α => if a < b then (-1 : Int) else if b < a then 1 else 0) where
  swap a b := by
    rcases lt_trichotomy a b with hlt | rfl | hgt
    · simp [hlt, hlt.not_gt]
    · simp
    · simp [hgt, hgt.not_gt]
  trans a b c := by
    intro hab hbc
    rw [order_le_zero_iff] at hab hbc ⊢
    exact hab.trans hbc

end Comparison

/-- Lists are compared item by item, and a list comes after its beginnings. -/
def lexList (cmp : α → α → Int) : List α → List α → Int
  | [], [] => 0
  | [], _ :: _ => -1
  | _ :: _, [] => 1
  | a :: as, b :: bs => if cmp a b ≠ 0 then cmp a b else lexList cmp as bs

/-- Lists of items that are the same when they compare equal are the same when they
compare equal. -/
theorem lexList_eq_zero {cmp : α → α → Int} (hcmp : Comparison cmp)
    (heq : ∀ a b, cmp a b = 0 → a = b) {as bs : List α} : lexList cmp as bs = 0 ↔ as = bs := by
  induction as generalizing bs with
  | nil =>
    cases bs with
    | nil => simp [lexList]
    | cons b bs => simp [lexList]
  | cons a as ih =>
    cases bs with
    | nil => simp [lexList]
    | cons b bs =>
      rw [lexList]
      by_cases hab : cmp a b = 0
      · rw [if_neg (not_not.mpr hab), ih, heq a b hab]
        simp
      · rw [if_pos hab]
        refine iff_of_false hab ?_
        intro h
        cases h
        exact hab (hcmp.self a)

/-- Comparing lists item by item. -/
theorem Comparison.lexList {cmp : α → α → Int} (h : Comparison cmp) :
    Comparison (lexList cmp) where
  swap as bs := by
    induction as generalizing bs with
    | nil =>
      cases bs with
      | nil => rfl
      | cons b bs => rfl
    | cons a as ih =>
      cases bs with
      | nil => rfl
      | cons b bs =>
        have hswap := h.swap a b
        rw [Ordered.lexList, Ordered.lexList]
        by_cases hab : cmp a b = 0
        · rw [if_neg (by omega), if_neg (by omega), ih bs]
        · rw [if_pos (by omega), if_pos hab, hswap]
  trans as bs cs := by
    induction as generalizing bs cs with
    | nil =>
      intro _ _
      cases cs with
      | nil => exact le_rfl
      | cons c cs => exact Int.negSucc_le_zero 0
    | cons a as ih =>
      intro hab hbc
      cases bs with
      | nil => exact absurd hab (by simp [Ordered.lexList])
      | cons b bs =>
        cases cs with
        | nil => exact absurd hbc (by simp [Ordered.lexList])
        | cons c cs =>
          rw [Ordered.lexList] at hab hbc ⊢
          -- Where the outer two first differ, one of the inner two differs as well.
          by_cases h₁ : cmp a b = 0
          · rw [if_neg (not_not.mpr h₁)] at hab
            by_cases h₂ : cmp b c = 0
            · rw [if_neg (not_not.mpr h₂)] at hbc
              rw [if_neg (not_not.mpr (h.eq_zero_trans h₁ h₂))]
              exact ih bs cs hab hbc
            · rw [if_pos h₂] at hbc
              have hac := h.trans a b c (by omega) hbc
              have hne : cmp a c ≠ 0 := by
                intro h₃
                exact h₂ (h.eq_zero_trans (h.eq_zero_comm.mp h₁) h₃)
              rw [if_pos hne]
              exact hac
          · rw [if_pos h₁] at hab
            have hbc' : cmp b c ≤ 0 := by
              split_ifs at hbc with h₂ <;> omega
            have hac := h.lt_of_lt_of_le (show cmp a b < 0 by omega) hbc'
            rw [if_pos (by omega)]
            omega

/-! ## Sorted lists -/

/-- Each value is below all that follow it. -/
def Strict (cmp : α → α → Int) (l : List α) : Prop := l.Pairwise (fun a b => cmp a b < 0)

/-- No two values compare equal. -/
def Distinct (cmp : α → α → Int) (l : List α) : Prop := l.Pairwise (fun a b => cmp a b ≠ 0)

variable {cmp : α → α → Int}

theorem Strict.distinct {l : List α} (h : Strict cmp l) : Distinct cmp l :=
  List.Pairwise.imp (fun hlt => by omega) h

/-- A part of a strictly increasing list is one. -/
theorem Strict.sublist {l m : List α} (h : Strict cmp m) (hsub : l.Sublist m) : Strict cmp l :=
  List.Pairwise.sublist hsub h

/-- Sorting by the comparison. -/
def sort (cmp : α → α → Int) (l : List α) : List α := l.mergeSort (fun a b => cmp a b ≤ 0)

theorem sort_perm (cmp : α → α → Int) (l : List α) : (sort cmp l).Perm l := List.mergeSort_perm l _

/-- A sorted list is increasing. -/
theorem pairwise_sort (hcmp : Comparison cmp) (l : List α) :
    (sort cmp l).Pairwise (fun a b => cmp a b ≤ 0) := by
  have h := @List.pairwise_mergeSort _ (fun a b => decide (cmp a b ≤ 0)) ?_ ?_ l
  · exact h.imp (fun hab => of_decide_eq_true hab)
  · intro a b c hab hbc
    exact decide_eq_true
      (hcmp.trans a b c (of_decide_eq_true hab) (of_decide_eq_true hbc))
  · intro a b
    have hswap := hcmp.swap a b
    rw [Bool.or_eq_true, decide_eq_true_iff, decide_eq_true_iff]
    omega

/-- An increasing list is sorted already. -/
theorem sort_of_pairwise {l : List α} (h : l.Pairwise (fun a b => cmp a b ≤ 0)) : sort cmp l = l := by
  unfold sort
  apply List.mergeSort_of_pairwise
  exact List.Pairwise.imp (fun hab => decide_eq_true hab) h

/-- Sorting twice is sorting once. -/
theorem sort_sort (hcmp : Comparison cmp) (l : List α) : sort cmp (sort cmp l) = sort cmp l :=
  sort_of_pairwise (pairwise_sort hcmp l)

/-- **A list is sorted alike in every order**, if values of it that compare equal are the
same. -/
theorem sort_eq_of_perm (hcmp : Comparison cmp) {l m : List α} (hperm : l.Perm m)
    (hsame : ∀ a ∈ l, ∀ b ∈ l, cmp a b = 0 → a = b) : sort cmp l = sort cmp m := by
  have hsorted : (sort cmp l).Perm (sort cmp m) :=
    (sort_perm cmp l).trans (hperm.trans (sort_perm cmp m).symm)
  refine List.Perm.eq_of_pairwise ?_ (pairwise_sort hcmp l) (pairwise_sort hcmp m) hsorted
  intro a b ha hb hab hba
  have hswap := hcmp.swap a b
  have hmem : b ∈ l := hperm.mem_iff.mpr ((sort_perm cmp m).mem_iff.mp hb)
  exact hsame a ((sort_perm cmp l).mem_iff.mp ha) b hmem (by omega)

/-- A strictly increasing list is sorted already. -/
theorem Strict.sort_eq {l : List α} (h : Strict cmp l) : sort cmp l = l :=
  sort_of_pairwise (List.Pairwise.imp (fun hlt => hlt.le) h)

/-- **A sorted list is strictly increasing** exactly when no two values compare equal. -/
theorem strict_mergeSort_iff (hcmp : Comparison cmp) (l : List α) :
    Strict cmp (sort cmp l) ↔ Distinct cmp l := by
  have hdistinct : Distinct cmp (sort cmp l) ↔ Distinct cmp l :=
    (sort_perm cmp l).pairwise_iff (fun {a b} hab hba => hab (hcmp.eq_zero_comm.mp hba))
  rw [← hdistinct]
  constructor
  · exact Strict.distinct
  · intro h
    refine ((pairwise_sort hcmp l).and h).imp ?_
    rintro a b ⟨hle, hne⟩
    omega

/-- **One more value** leaves the list strictly increasing exactly when it compares equal
to none of it. -/
theorem strict_insert_iff (hcmp : Comparison cmp) {l : List α} (h : Strict cmp l) (x : α) :
    Strict cmp (sort cmp (l ++ [x])) ↔ ∀ a ∈ l, cmp a x ≠ 0 := by
  rw [strict_mergeSort_iff hcmp, Distinct, List.pairwise_append]
  constructor
  · rintro ⟨-, -, hall⟩ a ha
    exact hall a ha x (by simp)
  · intro hall
    refine ⟨h.distinct, List.pairwise_singleton _ x, ?_⟩
    intro a ha b hb
    rw [List.mem_singleton.mp hb]
    exact hall a ha

/-- Where no two values compare equal, those that do are one. -/
theorem Distinct.eq_of_mem (hcmp : Comparison cmp) {l : List α} (h : Distinct cmp l) {a b : α}
    (ha : a ∈ l) (hb : b ∈ l) (hab : cmp a b = 0) : a = b := by
  by_contra hne
  have hsymm : Std.Symm (fun x y => cmp x y ≠ 0) :=
    ⟨fun x y hxy hyx => hxy (hcmp.eq_zero_comm.mp hyx)⟩
  exact h.forall ha hb hne hab

/-- In a strictly increasing list only one value compares equal to a given one. -/
theorem Strict.eq_of_mem (hcmp : Comparison cmp) {l : List α} (h : Strict cmp l) {a b : α}
    (ha : a ∈ l) (hb : b ∈ l) (hab : cmp a b = 0) : a = b :=
  h.distinct.eq_of_mem hcmp ha hb hab

end Ordered
