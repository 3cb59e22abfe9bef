/-
# Programs that follow a script

A program over a state with a log.  It follows a script when what it adds to the log is
the beginning of the script, and the whole of it when the program succeeds: nothing is
skipped, repeated or done out of turn, and a failure only ends the script early.

* `Follows.bind`, `Follows.foldlM` : the scripts of sequences and of loops.
-/
import Dwarfkit.Library.Effects

namespace Effects

variable {σ ε α β τ : Type} {log : σ → List τ}

/-- The program adds the beginning of the script to the log; all of it, if it succeeds. -/
def Follows (log : σ → List τ) (script : List τ) (x : Effect σ ε α) : Prop :=
  ∀ s, ∃ done, log (exec x s).2 = log s ++ done ∧ done <+: script ∧
    ∀ a, (exec x s).1 = .ok a → done = script

/-- A program that leaves the log alone follows the empty script. -/
theorem Follows.of_frames {x : Effect σ ε α} (h : Frames log x) : Follows log [] x :=
  fun s => ⟨[], by rw [h s, List.append_nil], List.nil_prefix, fun _ _ => rfl⟩

/-- One entry of the log. -/
theorem Follows.of_logged {x : Effect σ ε α} {entry : τ}
    (h : ∀ s, log (exec x s).2 = log s ++ [entry]) : Follows log [entry] x :=
  fun s => ⟨[entry], h s, List.prefix_refl _, fun _ _ => rfl⟩

/-- **A sequence** follows its scripts one after the other. -/
theorem Follows.bind {script rest : List τ} {x : Effect σ ε α} {f : α → Effect σ ε β}
    (hx : Follows log script x) (hf : ∀ a, Follows log rest (f a)) :
    Follows log (script ++ rest) (x >>= f) := by
  intro s
  obtain ⟨done, hdone, hbegin, hall⟩ := hx s
  rw [exec_bind]
  rcases hexec : exec x s with ⟨e | a, u⟩
  · rw [hexec] at hdone
    exact ⟨done, hdone, hbegin.trans (List.prefix_append _ _), fun b h => by cases h⟩
  · rw [hexec] at hdone hall
    obtain rfl := hall a rfl
    obtain ⟨more, hmore, hbegin', hall'⟩ := hf a u
    refine ⟨done ++ more, ?_, (List.prefix_append_right_inj done).mpr hbegin', ?_⟩
    · show log (exec (f a) u).2 = _
      rw [hmore, hdone, List.append_assoc]
    · intro b hb
      rw [hall' b hb]

/-- A part that leaves the log alone does not count. -/
theorem Follows.after {script : List τ} {x : Effect σ ε α} {f : α → Effect σ ε β}
    (hx : Frames log x) (hf : ∀ a, Follows log script (f a)) : Follows log script (x >>= f) :=
  (Follows.of_frames hx).bind hf

/-- **A loop** follows the scripts of its items one after the other. -/
theorem Follows.foldlM {script : α → List τ} {f : β → α → Effect σ ε β}
    (hf : ∀ b a, Follows log (script a) (f b a)) (l : List α) :
    ∀ b, Follows log (l.flatMap script) (l.foldlM f b) := by
  induction l with
  | nil => exact fun b => Follows.of_frames (Frames.pure log b)
  | cons a l ih =>
    intro b
    rw [List.foldlM_cons, List.flatMap_cons]
    exact (hf b a).bind ih

/-- What is in the log of a program with an empty one. -/
theorem Follows.log_begins {script : List τ} {x : Effect σ ε α} (h : Follows log script x) {s : σ}
    (hs : log s = []) :
    log (exec x s).2 <+: script ∧ ∀ a, (exec x s).1 = .ok a → log (exec x s).2 = script := by
  obtain ⟨done, hdone, hbegin, hall⟩ := h s
  rw [hs, List.nil_append] at hdone
  rw [hdone]
  exact ⟨hbegin, hall⟩

end Effects
