/-
# Paging through sorted rows

A server holds rows in strictly ascending key order and answers a query with the
first rows of a key range, from its low end up or from its high end down, and with
the first key it left out.

* `matching_of_next` : an ascending scan goes on where it stopped when the lower
  bound becomes the next key;
* `matching_reverse_of_next` : a descending scan does not; the same bound gives the
  first page again, and one row more.
-/
import Mathlib

namespace Paging

variable {K V : Type} [LinearOrder K]

/-- Rows by key, in strictly ascending order. -/
structure Contents (K V : Type) [LinearOrder K] where
  rows : List (K × V)
  sorted : rows.Pairwise (fun a b => a.1 < b.1)

/-- Is the key within the bounds? -/
def InRange (lower upper : Option K) (k : K) : Prop := (∀ l ∈ lower, l ≤ k) ∧ ∀ u ∈ upper, k ≤ u

instance (lower upper : Option K) (k : K) : Decidable (InRange lower upper k) :=
  inferInstanceAs (Decidable ((∀ l ∈ lower, l ≤ k) ∧ ∀ u ∈ upper, k ≤ u))

namespace Contents

variable (c : Contents K V)

/-- The rows of a key range, in the order asked for. -/
def matching (lower upper : Option K) (descending : Bool) : List (K × V) :=
  let rows := c.rows.filter (fun r => InRange lower upper r.1)
  if descending then rows.reverse else rows

/-- A page: the first rows of the range. -/
def page (lower upper : Option K) (descending : Bool) (limit : ℕ) : List (K × V) :=
  (c.matching lower upper descending).take limit

/-- The first key a page leaves out. -/
def nextKey (lower upper : Option K) (descending : Bool) (limit : ℕ) : Option K :=
  ((c.matching lower upper descending).drop limit).head?.map Prod.fst

/-- The rows of a range are ascending. -/
theorem matching_sorted (lower upper : Option K) :
    (c.matching lower upper false).Pairwise (fun a b => a.1 < b.1) :=
  c.sorted.filter _

/-- Raising the lower bound to a key of the range cuts the range there. -/
theorem matching_raise {lower upper : Option K} {k : K} (hk : InRange lower upper k) :
    c.matching (some k) upper false =
      (c.matching lower upper false).filter (fun r => k ≤ r.1) := by
  unfold matching
  simp only [Bool.false_eq_true, if_false, List.filter_filter]
  apply List.filter_congr
  intro r _
  rw [← Bool.decide_and, decide_eq_decide]
  unfold InRange
  constructor
  · rintro ⟨hlow, hup⟩
    have hkr : k ≤ r.1 := hlow k rfl
    exact ⟨hkr, fun l hl => le_trans (hk.1 l hl) hkr, hup⟩
  · rintro ⟨hkr, -, hup⟩
    refine ⟨fun l hl => ?_, hup⟩
    obtain rfl : k = l := by simpa using hl
    exact hkr

/-- The rows of a range are the rows with their key within the bounds. -/
theorem mem_matching {lower upper : Option K} {descending : Bool} {r : K × V} :
    r ∈ c.matching lower upper descending ↔ r ∈ c.rows ∧ InRange lower upper r.1 := by
  unfold matching
  cases descending with
  | false => simp
  | true => simp

/-- **An ascending scan resumes** at the next key with the rows it has not returned. -/
theorem matching_of_next {lower upper : Option K} {xs ys : List (K × V)} {r : K × V}
    (h : c.matching lower upper false = xs ++ r :: ys) :
    c.matching (some r.1) upper false = r :: ys := by
  have hsorted := c.matching_sorted lower upper
  have hr : InRange lower upper r.1 := (c.mem_matching.mp (by rw [h]; simp)).2
  rw [h, List.pairwise_append] at hsorted
  obtain ⟨-, hrest, hbefore⟩ := hsorted
  rw [c.matching_raise hr, h, List.filter_append]
  have hxs : xs.filter (fun s => r.1 ≤ s.1) = [] := by
    rw [List.filter_eq_nil_iff]
    intro s hs hle
    exact absurd (hbefore s hs r (by simp)) (not_lt.mpr (by simpa using hle))
  have hys : (r :: ys).filter (fun s => r.1 ≤ s.1) = r :: ys := by
    rw [List.filter_eq_self]
    intro s hs
    rcases List.mem_cons.mp hs with rfl | hs
    · simp
    · simpa using le_of_lt ((List.pairwise_cons.mp hrest).1 s hs)
  rw [hxs, hys, List.nil_append]

/-- The rows of a range from its high end down. -/
theorem matching_descending (lower upper : Option K) :
    c.matching lower upper true = (c.matching lower upper false).reverse := rfl

/-- **A descending scan starts over** when the lower bound becomes the next key. -/
theorem matching_reverse_of_next {lower upper : Option K} {xs ys : List (K × V)} {r : K × V}
    (h : c.matching lower upper true = xs ++ r :: ys) :
    c.matching (some r.1) upper true = xs ++ [r] := by
  have hup : c.matching lower upper false = ys.reverse ++ r :: xs.reverse := by
    have hrev := congrArg List.reverse h
    rw [matching_descending, List.reverse_reverse] at hrev
    rw [hrev]
    simp
  rw [matching_descending, c.matching_of_next hup]
  simp

end Contents

end Paging
