/-
# Runs of a partial step function

A system is a step function `S → L → Option S`: a label either takes a state to
the next one or cannot happen there.  The rules carry a property of states from
one step to whole runs:

* `AllStates.of_run` : a property kept by every permitted step holds along a run
  whose steps are all permitted;
* `allStates_iff_allSteps` : where a step keeps the property exactly when it is
  permitted, the two conditions on a run agree.
-/
import Mathlib

namespace Runs

variable {S L : Type} (step : S → L → Option S)

/-- Take the labels one after the other. -/
def run : S → List L → Option S
  | s, [] => some s
  | s, l :: ls => (step s l).bind (fun t => run t ls)

/-- `P` holds in every state the run goes through, the first one included. -/
def AllStates (P : S → Prop) : S → List L → Prop
  | s, [] => P s
  | s, l :: ls => P s ∧ ∀ t, step s l = some t → AllStates P t ls

/-- `C` holds of every step the run takes. -/
def AllSteps (C : S → L → Prop) : S → List L → Prop
  | _, [] => True
  | s, l :: ls => C s l ∧ ∀ t, step s l = some t → AllSteps C t ls

/-- The empty run stays where it is. -/
@[simp]
theorem run_nil (s : S) : run step s [] = some s := rfl

/-- A run starts with its first step. -/
theorem run_cons (s : S) (l : L) (ls : List L) :
    run step s (l :: ls) = (step s l).bind (fun t => run step t ls) := rfl

/-- A run of two parts. -/
theorem run_append (s : S) (ls ms : List L) :
    run step s (ls ++ ms) = (run step s ls).bind (fun t => run step t ms) := by
  induction ls generalizing s with
  | nil => rfl
  | cons l ls ih =>
    rw [List.cons_append, run_cons, run_cons]
    cases step s l with
    | none => rfl
    | some t => exact ih t

/-- What holds along a run holds where it starts. -/
theorem AllStates.start {P : S → Prop} {s : S} {ls : List L} (h : AllStates step P s ls) : P s := by
  cases ls with
  | nil => exact h
  | cons l ls => exact h.1

/-- What holds along a run holds where it ends. -/
theorem AllStates.final {P : S → Prop} {s t : S} {ls : List L} (h : AllStates step P s ls)
    (hrun : run step s ls = some t) : P t := by
  induction ls generalizing s with
  | nil =>
    cases hrun
    exact h
  | cons l ls ih =>
    rw [run_cons, Option.bind_eq_some_iff] at hrun
    obtain ⟨u, hu, hrest⟩ := hrun
    exact ih (h.2 u hu) hrest

/-- What holds along a run may be weakened. -/
theorem AllStates.imp {P Q : S → Prop} (hPQ : ∀ s, P s → Q s) {s : S} {ls : List L}
    (h : AllStates step P s ls) : AllStates step Q s ls := by
  induction ls generalizing s with
  | nil => exact hPQ s h
  | cons l ls ih => exact ⟨hPQ s h.1, fun t ht => ih (h.2 t ht)⟩

/-- No condition permits every run. -/
theorem allSteps_true (s : S) (ls : List L) : AllSteps step (fun _ _ => True) s ls := by
  induction ls generalizing s with
  | nil => trivial
  | cons l ls ih => exact ⟨trivial, fun t _ => ih t⟩

/-- A property that every permitted step keeps holds along a run of permitted
steps. -/
theorem AllStates.of_run {P : S → Prop} {C : S → L → Prop}
    (hstep : ∀ s l t, P s → C s l → step s l = some t → P t) {s : S} {ls : List L} (hs : P s)
    (hall : AllSteps step C s ls) : AllStates step P s ls := by
  induction ls generalizing s with
  | nil => exact hs
  | cons l ls ih =>
    exact ⟨hs, fun t ht => ih (hstep s l t hs hall.1 ht) (hall.2 t ht)⟩

/-- Let every step keep `I`.  Where a step out of a `P` state, under a label that `D`
admits, leads to a `P` state exactly when `C` permits it, `P` holds along a run exactly
when `C` permits all of its steps.  A step that cannot be taken has to be permitted. -/
theorem allStates_iff_allSteps {I P : S → Prop} {C : S → L → Prop} {D : L → Prop}
    (hinv : ∀ s l t, I s → D l → step s l = some t → I t)
    (hstep : ∀ s l t, I s → P s → D l → step s l = some t → (P t ↔ C s l))
    (hnone : ∀ s l, I s → P s → D l → step s l = none → C s l) {s : S} {ls : List L}
    (hI : I s) (hs : P s) (hls : ∀ l ∈ ls, D l) :
    AllStates step P s ls ↔ AllSteps step C s ls := by
  induction ls generalizing s with
  | nil => exact iff_of_true hs trivial
  | cons l ls ih =>
    have hl : D l := hls l (by simp)
    have hrest : ∀ m ∈ ls, D m := fun m hm => hls m (by simp [hm])
    cases ht : step s l with
    | none =>
      have hC : C s l := hnone s l hI hs hl ht
      simp [AllStates, AllSteps, ht, hs, hC]
    | some t =>
      have hiff := hstep s l t hI hs hl ht
      have hI' := hinv s l t hI hl ht
      simp only [AllStates, AllSteps, ht, Option.some.injEq, forall_eq', hs, true_and]
      constructor
      · intro h
        exact ⟨hiff.mp h.start, (ih hI' h.start hrest).mp h⟩
      · rintro ⟨hC, h⟩
        exact (ih hI' (hiff.mpr hC) hrest).mpr h

end Runs
