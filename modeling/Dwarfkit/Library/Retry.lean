/-
# Attempts one after the other

A loop over attempts: one that fails ends the loop with its error, one that is
accepted ends it with its value, and one that is passed over leads to the next.

* `Retry.loop_eq_ok_iff` : the value is that of the first attempt not passed over.
-/
import Mathlib

namespace Retry

variable {ε α β : Type}

/-- The attempts in turn; `exhausted` is for when all were passed over. -/
def loop (attempt : α → Except ε (Option β)) (exhausted : ε) : List α → Except ε β
  | [] => .error exhausted
  | a :: rest =>
    match attempt a with
    | .error e => .error e
    | .ok (some b) => .ok b
    | .ok none => loop attempt exhausted rest

/-- The attempt that is accepted, all before it being passed over. -/
structure First (attempt : α → Except ε (Option β)) (l : List α) (b : β) (i : ℕ) (a : α) : Prop where
  at_index : l[i]? = some a
  accepted : attempt a = .ok (some b)
  passed : ∀ j < i, ∃ earlier, l[j]? = some earlier ∧ attempt earlier = .ok none

theorem First.head {attempt : α → Except ε (Option β)} {a : α} {b : β}
    (h : attempt a = .ok (some b)) (l : List α) : First attempt (a :: l) b 0 a where
  at_index := rfl
  accepted := h
  passed := fun j hj => absurd hj (Nat.not_lt_zero j)

/-- One more attempt that is passed over. -/
theorem First.cons {attempt : α → Except ε (Option β)} {l : List α} {b : β} {i : ℕ} {a first : α}
    (hfirst : attempt first = .ok none) (h : First attempt l b i a) :
    First attempt (first :: l) b (i + 1) a where
  at_index := h.at_index
  accepted := h.accepted
  passed := by
    intro j hj
    cases j with
    | zero => exact ⟨first, rfl, hfirst⟩
    | succ j => exact h.passed j (by omega)

/-- The first attempt is the accepted one, or it is passed over. -/
theorem First.cases_cons {attempt : α → Except ε (Option β)} {l : List α} {b : β} {i : ℕ}
    {a first : α} (h : First attempt (first :: l) b i a) :
    attempt first = .ok (some b) ∨ attempt first = .ok none ∧ First attempt l b (i - 1) a := by
  cases i with
  | zero =>
    left
    rw [Option.some.inj h.at_index]
    exact h.accepted
  | succ i =>
    obtain ⟨earlier, hearlier, hpassed⟩ := h.passed 0 (by omega)
    cases hearlier
    exact .inr ⟨hpassed, h.at_index, h.accepted, fun j hj => h.passed (j + 1) (by omega)⟩

/-- **What the loop returns.** -/
theorem loop_eq_ok_iff {attempt : α → Except ε (Option β)} {exhausted : ε} {b : β} (l : List α) :
    loop attempt exhausted l = .ok b ↔ ∃ i a, First attempt l b i a := by
  induction l with
  | nil => exact ⟨fun h => (by cases h), fun ⟨i, a, h⟩ => (by cases h.at_index)⟩
  | cons first l ih =>
    rw [loop]
    cases hfirst : attempt first with
    | error e =>
      refine ⟨fun h => (by cases h), ?_⟩
      rintro ⟨i, a, h⟩
      rcases h.cases_cons with h | ⟨h, -⟩
      · rw [hfirst] at h
        cases h
      · rw [hfirst] at h
        cases h
    | ok answer =>
      cases answer with
      | some found =>
        constructor
        · intro h
          cases h
          exact ⟨0, first, .head hfirst l⟩
        · rintro ⟨i, a, h⟩
          rcases h.cases_cons with h | ⟨h, -⟩
          · rw [hfirst] at h
            cases h
            rfl
          · rw [hfirst] at h
            cases h
      | none =>
        refine Iff.trans ih ⟨?_, ?_⟩
        · rintro ⟨i, a, h⟩
          exact ⟨i + 1, a, h.cons hfirst⟩
        · rintro ⟨i, a, h⟩
          rcases h.cases_cons with h | ⟨-, h⟩
          · rw [hfirst] at h
            cases h
          · exact ⟨i - 1, a, h⟩

end Retry
