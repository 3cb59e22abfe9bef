/-
# Readers in lockstep

Two readers of one input, over any symbol, error and value types: on every input they
fail together, or they read the same symbols and their values are related.  Either one may
give up by itself, with an error out of a set of its own (a limit on depth or length that
the other does not have).

* `Lockstep.bind` : readers in lockstep compose;
* `SameOutcome.trans` : so do two comparisons with a reader in the middle that does not give up.
-/
import Dwarfkit.Library.Wire

namespace Wire

section Lockstep

variable {σ ε ε' α α' β β' : Type}

/-- What two runs on one input come to: `E` and `E'` are the errors with which the left or
the right one may give up by itself. -/
def SameOutcome (E : ε → Prop) (E' : ε' → Prop) (R : α → β → Prop) :
    Except ε (α × List σ) → Except ε' (β × List σ) → Prop
  | .ok (a, rest), .ok (b, rest') => R a b ∧ rest = rest'
  | .ok _, .error e' => E' e'
  | .error e, .ok _ => E e
  | .error _, .error _ => True

/-- The readers have the same outcome on every input. -/
def Lockstep (E : ε → Prop) (E' : ε' → Prop) (R : α → β → Prop) (r : Reader σ ε α)
    (r' : Reader σ ε' β) : Prop :=
  ∀ s, SameOutcome E E' R (r.run s) (r'.run s)

variable {E : ε → Prop} {E' : ε' → Prop} {R : α → β → Prop}

theorem Lockstep.pure {a : α} {b : β} (h : R a b) :
    Lockstep E E' R (Pure.pure a : Reader σ ε α) (Pure.pure b : Reader σ ε' β) :=
  fun _ => ⟨h, rfl⟩

/-- In sequence: the second parts run on the same input, on related values. -/
theorem Lockstep.bind {S : α' → β' → Prop} {r : Reader σ ε α} {r' : Reader σ ε' β}
    {f : α → Reader σ ε α'} {g : β → Reader σ ε' β'} (h : Lockstep E E' R r r')
    (hfg : ∀ a b, R a b → Lockstep E E' S (f a) (g b)) :
    Lockstep E E' S (r >>= f) (r' >>= g) := by
  intro s
  have hs := h s
  rw [StateT.run_bind, StateT.run_bind]
  cases hr : r.run s with
  | ok p =>
    cases hr' : r'.run s with
    | ok p' =>
      rw [hr, hr'] at hs
      obtain ⟨hab, hrest⟩ := hs
      show SameOutcome E E' S ((f p.1).run p.2) ((g p'.1).run p'.2)
      rw [← hrest]
      exact hfg _ _ hab p.2
    | error e' =>
      rw [hr, hr'] at hs
      -- the right reader gave up, and the sequence gives up with it
      show SameOutcome E E' S ((f p.1).run p.2) (.error e')
      cases (f p.1).run p.2 with
      | ok q => exact hs
      | error e => trivial
  | error e =>
    cases hr' : r'.run s with
    | ok p' =>
      rw [hr, hr'] at hs
      show SameOutcome E E' S (.error e) ((g p'.1).run p'.2)
      cases (g p'.1).run p'.2 with
      | ok q => exact hs
      | error e' => trivial
    | error e' => trivial

/-- Post-processed values. -/
theorem Lockstep.map {S : α' → β' → Prop} {r : Reader σ ε α} {r' : Reader σ ε' β} {f : α → α'}
    {g : β → β'} (h : Lockstep E E' R r r') (hfg : ∀ a b, R a b → S (f a) (g b)) :
    Lockstep E E' S (f <$> r) (g <$> r') := by
  rw [map_eq_pure_bind, map_eq_pure_bind]
  exact h.bind (fun a b hab => .pure (hfg a b hab))

/-- A reader is in lockstep with itself. -/
theorem Lockstep.refl {E E' : ε → Prop} (r : Reader σ ε α) : Lockstep E E' Eq r r := by
  intro s
  cases r.run s with
  | ok p => exact ⟨rfl, rfl⟩
  | error e => trivial

/-- Readers that fail on every input. -/
theorem Lockstep.fail {r : Reader σ ε α} {r' : Reader σ ε' β} (h : ∀ s, ∃ e, r.run s = .error e)
    (h' : ∀ s, ∃ e', r'.run s = .error e') : Lockstep E E' R r r' := by
  intro s
  obtain ⟨e, he⟩ := h s
  obtain ⟨e', he'⟩ := h' s
  rw [he, he']
  trivial

/-- A reader that gives up on every input. -/
theorem Lockstep.giveUp {r : Reader σ ε α} (h : ∀ s, ∃ e, r.run s = .error e ∧ E e)
    (r' : Reader σ ε' β) : Lockstep E E' R r r' := by
  intro s
  obtain ⟨e, he, hgive⟩ := h s
  rw [he]
  cases r'.run s with
  | ok p => exact hgive
  | error e' => trivial

/-- Two comparisons, where the reader in the middle does not give up on this input. -/
theorem SameOutcome.trans {γ : Type} {E₂ : ε' → Prop} {S : β → γ → Prop}
    {x : Except ε (α × List σ)} {y : Except ε' (β × List σ)} {z : Except ε' (γ × List σ)}
    (h : SameOutcome E E₂ R x y) (h' : SameOutcome E₂ E' S y z)
    (hy : ∀ e, y = .error e → ¬ E₂ e) :
    SameOutcome E E' (fun a c => ∃ b, R a b ∧ S b c) x z := by
  rcases y with e | ⟨b, rest⟩
  · have he := hy e rfl
    rcases x with _ | ⟨a, _⟩
    · rcases z with _ | ⟨c, _⟩
      · trivial
      · exact absurd h' he
    · exact absurd h he
  · rcases x with e | ⟨a, restA⟩
    · rcases z with _ | ⟨c, _⟩
      · trivial
      · exact h
    · rcases z with e' | ⟨c, restC⟩
      · exact h'
      · exact ⟨⟨b, h.1, h'.1⟩, h.2.trans h'.2⟩

end Lockstep

end Wire
