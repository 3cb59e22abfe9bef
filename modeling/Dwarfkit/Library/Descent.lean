/-
# Descents with restarts

A relation steps from a state to those it depends on.  Some states are restarts; between
them a rank goes down, for states with an invariant.  If there are finitely many restarts, a
state from which no restart leads back to itself depends on finitely many states in a row.

* `acc_of_no_return` : such a state is accessible;
* `not_acc_of_return` : one from which a state leads back to itself is not.
-/
import Mathlib

namespace Descent

open Relation

variable {α : Type} {R : α → α → Prop} {restart good : α → Prop} {rank : α → ℕ}

/-- The states that are accessible once all they depend on are: by the number of restarts
still to come, and between two of them by the rank. -/
theorem acc_of_rest (hgood : ∀ a b, good a → R a b → good b)
    (hrank : ∀ a b, good a → R a b → ¬ restart b → rank b < rank a) (n : ℕ) (k : ℕ) (a : α)
    (rest : Finset α) (ha : good a) (hcard : rest.card = n) (hk : rank a = k)
    (hrest : ∀ s, restart s → TransGen R a s → s ∈ rest)
    (hreturn : ∀ s, restart s → TransGen R a s → ¬ TransGen R s s) :
    Acc (flip R) a := by
  classical
  induction n using Nat.strong_induction_on generalizing k a rest with
  | _ n ihn =>
    induction k using Nat.strong_induction_on generalizing a with
    | _ k ihk =>
      refine Acc.intro a (fun b hab => ?_)
      have hstep : R a b := hab
      have hbgood := hgood a b ha hstep
      by_cases hb : restart b
      · -- a restart does not come again
        have hmem := hrest b hb (.single hstep)
        refine ihn (rest.erase b).card ?_ (rank b) b (rest.erase b) hbgood rfl rfl ?_ ?_
        · rw [← hcard]
          exact Finset.card_erase_lt_of_mem hmem
        · intro s hs hbs
          refine Finset.mem_erase.mpr ⟨?_, hrest s hs (.head hstep hbs)⟩
          rintro rfl
          exact hreturn s hb (.single hstep) hbs
        · intro s hs hbs
          exact hreturn s hs (.head hstep hbs)
      · refine ihk (rank b) ?_ b hbgood rfl ?_ ?_
        · rw [← hk]
          exact hrank a b ha hstep hb
        · intro s hs hbs
          exact hrest s hs (.head hstep hbs)
        · intro s hs hbs
          exact hreturn s hs (.head hstep hbs)

/-- **Without a return the descent ends.** -/
theorem acc_of_no_return (hgood : ∀ a b, good a → R a b → good b)
    (hrank : ∀ a b, good a → R a b → ¬ restart b → rank b < rank a)
    (hfinite : Set.Finite {s | restart s}) {a : α} (ha : good a)
    (hreturn : ∀ s, restart s → TransGen R a s → ¬ TransGen R s s) : Acc (flip R) a := by
  refine acc_of_rest hgood hrank _ _ a hfinite.toFinset ha rfl rfl ?_ hreturn
  intro s hs _
  exact hfinite.mem_toFinset.mpr hs

/-- An accessible state does not lead back to itself. -/
theorem not_return_of_acc {a : α} (h : Acc (flip R) a) : ¬ TransGen R a a := by
  induction h with
  | intro a _ ih =>
    intro hcycle
    obtain ⟨b, hab, hback⟩ := TransGen.head'_iff.mp hcycle
    exact ih b hab (TransGen.tail' hback hab)

/-- What an accessible state leads to is accessible. -/
theorem acc_of_transGen {a b : α} (h : Acc (flip R) a) (hab : TransGen R a b) :
    Acc (flip R) b := by
  induction hab with
  | single hstep => exact h.inv hstep
  | tail _ hstep ih => exact ih.inv hstep

/-- **With a return it does not.** -/
theorem not_acc_of_return {a s : α} (has : TransGen R a s) (hreturn : TransGen R s s) :
    ¬ Acc (flip R) a :=
  fun h => not_return_of_acc (acc_of_transGen h has) hreturn

end Descent
