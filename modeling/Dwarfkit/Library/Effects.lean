/-
# Effects that may fail half way

Programs over a mutable state that end in a result or in an error, and leave a
state behind in either case.  Nothing is rolled back: what was written before the
error stays written.

* `exec_bind_ok`, `exec_bind_error` : the two ways a sequence can end;
* `Keeps` : a property of the state that a program keeps when it succeeds, and its
  rules for sequences and loops;
* `Maintains` : a property of the state that a program keeps whatever its outcome;
* `Frames` : a view of the state that a program never changes.
-/
import Mathlib

namespace Effects

variable {σ ε α β γ : Type}

/-- A program over the state `σ` that may fail with an `ε`. -/
abbrev Effect (σ ε α : Type) := ExceptT ε (StateM σ) α

/-- What a program does from a state: its outcome, and the state it leaves. -/
def exec (x : Effect σ ε α) (s : σ) : Except ε α × σ := Id.run ((x.run).run s)

/-- A result that does not touch the state. -/
def outcome (r : Except ε α) : Effect σ ε α := ExceptT.mk (fun s => (r, s))

/-- A computation on the state that may fail. -/
def ofFunction (f : σ → Except ε α × σ) : Effect σ ε α := ExceptT.mk f

/-- Reading the state. -/
def look (view : σ → α) : Effect σ ε α := ExceptT.mk (fun s => (.ok (view s), s))

/-- Changing the state. -/
def change (f : σ → σ) : Effect σ ε Unit := ExceptT.mk (fun s => (.ok (), f s))

/-- A program with a handler for its errors, which may act but not recover. -/
def onFailure (x : Effect σ ε α) (handler : ε → Effect σ ε Unit) : Effect σ ε α :=
  ofFunction (fun s =>
    match exec x s with
    | (.ok a, t) => (.ok a, t)
    | (.error e, t) => (.error e, (exec (handler e) t).2))

/-- A program whose failure is its result. -/
def attempt (x : Effect σ ε α) : Effect σ ε (Except ε α) :=
  ofFunction (fun s => (.ok (exec x s).1, (exec x s).2))

/-- A program over the first of two states. -/
def onFirst (x : Effect σ ε α) : Effect (σ × γ) ε α :=
  ofFunction (fun s => ((exec x s.1).1, ((exec x s.1).2, s.2)))

/-! ## Executions -/

@[simp]
theorem exec_pure (a : α) (s : σ) : exec (pure a : Effect σ ε α) s = (.ok a, s) := rfl

@[simp]
theorem exec_outcome (r : Except ε α) (s : σ) : exec (outcome r) s = (r, s) := rfl

@[simp]
theorem exec_ofFunction (f : σ → Except ε α × σ) (s : σ) : exec (ofFunction f) s = f s := rfl

@[simp]
theorem exec_look (view : σ → α) (s : σ) :
    exec (look view : Effect σ ε α) s = (.ok (view s), s) := rfl

@[simp]
theorem exec_change (f : σ → σ) (s : σ) :
    exec (change f : Effect σ ε Unit) s = (.ok (), f s) := rfl

/-- A sequence goes on from the state its first part leaves, unless that failed. -/
theorem exec_bind (x : Effect σ ε α) (f : α → Effect σ ε β) (s : σ) :
    exec (x >>= f) s =
      match exec x s with
      | (.ok a, t) => exec (f a) t
      | (.error e, t) => (.error e, t) := by
  show Id.run (((x >>= f).run).run s) = _
  rw [ExceptT.run_bind, StateT.run_bind]
  show Id.run ((match (Id.run ((x.run).run s)).1 with
    | .ok a => (f a).run
    | .error e => pure (.error e)).run (Id.run ((x.run).run s)).2) = _
  unfold exec
  rcases Id.run ((x.run).run s) with ⟨_ | _, t⟩
  · rfl
  · rfl

/-- A sequence succeeds exactly when both of its parts do. -/
theorem exec_bind_ok {x : Effect σ ε α} {f : α → Effect σ ε β} {s t : σ} {b : β} :
    exec (x >>= f) s = (.ok b, t) ↔
      ∃ a u, exec x s = (.ok a, u) ∧ exec (f a) u = (.ok b, t) := by
  rw [exec_bind]
  rcases exec x s with ⟨e | a, u⟩
  · simp
  · simp

/-- A sequence fails in its first part, or in its second once the first is done. -/
theorem exec_bind_error {x : Effect σ ε α} {f : α → Effect σ ε β} {s t : σ} {e : ε} :
    exec (x >>= f) s = (.error e, t) ↔
      exec x s = (.error e, t) ∨
        ∃ a u, exec x s = (.ok a, u) ∧ exec (f a) u = (.error e, t) := by
  rw [exec_bind]
  rcases exec x s with ⟨e' | a, u⟩
  · simp
  · simp

/-- After a first part that succeeds, the sequence is its second part. -/
theorem exec_bind_of_ok {x : Effect σ ε α} {f : α → Effect σ ε β} {s u : σ} {a : α}
    (h : exec x s = (.ok a, u)) : exec (x >>= f) s = exec (f a) u := by
  rw [exec_bind, h]

/-- A program that succeeds has a result. -/
theorem exec_of_isSome {x : Effect σ ε α} {s : σ} (h : (exec x s).1.toOption.isSome = true) :
    ∃ a, exec x s = (.ok a, (exec x s).2) := by
  rcases hexec : exec x s with ⟨e | a, t⟩
  · rw [hexec] at h
    cases h
  · exact ⟨a, rfl⟩

/-- A program without a result has failed. -/
theorem exec_of_isNone {x : Effect σ ε α} {s : σ} (h : (exec x s).1.toOption.isNone = true) :
    ∃ e, exec x s = (.error e, (exec x s).2) := by
  rcases hexec : exec x s with ⟨e | a, t⟩
  · exact ⟨e, rfl⟩
  · rw [hexec] at h
    cases h

/-- Reading goes on with what is there. -/
@[simp]
theorem exec_look_bind (view : σ → α) (f : α → Effect σ ε β) (s : σ) :
    exec (look view >>= f) s = exec (f (view s)) s :=
  exec_bind_of_ok rfl

/-- A change is there for what comes after it. -/
@[simp]
theorem exec_change_bind (g : σ → σ) (f : Unit → Effect σ ε β) (s : σ) :
    exec (change g >>= f) s = exec (f ()) (g s) :=
  exec_bind_of_ok rfl

/-- A sequence that starts with a result succeeds when that is one. -/
theorem exec_outcome_bind_ok {r : Except ε α} {f : α → Effect σ ε β} {s t : σ} {b : β} :
    exec (outcome r >>= f) s = (.ok b, t) ↔ ∃ a, r = .ok a ∧ exec (f a) s = (.ok b, t) := by
  rw [exec_bind, exec_outcome]
  cases r with
  | error e => simp
  | ok a => simp

/-- A result that is there is handed on. -/
theorem exec_outcome_ok_bind (a : α) (f : α → Effect σ ε β) (s : σ) :
    exec (outcome (.ok a) >>= f) s = exec (f a) s :=
  exec_bind_of_ok rfl

/-- A result at the end does not touch the state. -/
theorem exec_bind_outcome (x : Effect σ ε α) (f : α → Except ε β) (s : σ) :
    (exec (x >>= fun a => outcome (f a)) s).2 = (exec x s).2 := by
  rw [exec_bind]
  rcases exec x s with ⟨e | a, t⟩
  · rfl
  · rfl

/-- After an attempt, the sequence goes on with what it came to. -/
@[simp]
theorem exec_attempt_bind (x : Effect σ ε α) (f : Except ε α → Effect σ ε β) (s : σ) :
    exec (attempt x >>= f) s = exec (f (exec x s).1) (exec x s).2 :=
  exec_bind_of_ok rfl

/-- A program over the first state leaves the second one to what comes after it. -/
theorem exec_onFirst_bind_ok {x : Effect σ ε α} {f : α → Effect (σ × γ) ε β} {s t : σ × γ}
    {b : β} :
    exec (onFirst x >>= f) s = (.ok b, t) ↔
      ∃ a u, exec x s.1 = (.ok a, u) ∧ exec (f a) (u, s.2) = (.ok b, t) := by
  rw [exec_bind]
  unfold onFirst
  rw [exec_ofFunction]
  rcases exec x s.1 with ⟨e | a, u⟩
  · simp
  · simp

/-- What every round that succeeds keeps of what a loop carries, the loop keeps. -/
theorem exec_foldlM_ok {P : β → Prop} {f : β → α → Effect σ ε β} {l : List α}
    (hf : ∀ a ∈ l, ∀ b s b' s', P b → exec (f b a) s = (.ok b', s') → P b') {b b' : β} {s s' : σ}
    (hb : P b) (h : exec (l.foldlM f b) s = (.ok b', s')) : P b' := by
  induction l generalizing b s with
  | nil =>
    cases h
    exact hb
  | cons a l ih =>
    obtain ⟨hhead, htail⟩ := List.forall_mem_cons.mp hf
    rw [List.foldlM_cons] at h
    obtain ⟨c, u, hfirst, hrest⟩ := exec_bind_ok.mp h
    exact ih htail (hhead _ _ _ _ hb hfirst) hrest

/-- A handler for errors does not touch success. -/
theorem exec_onFailure_ok {x : Effect σ ε α} {handler : ε → Effect σ ε Unit} {s t : σ} {a : α} :
    exec (onFailure x handler) s = (.ok a, t) ↔ exec x s = (.ok a, t) := by
  unfold onFailure
  rw [exec_ofFunction]
  rcases exec x s with ⟨e | b, u⟩
  · simp
  · simp

/-! ## Properties kept by success -/

/-- Whenever the program succeeds from a state with `P`, it leaves a state with `P`. -/
def Keeps (P : σ → Prop) (x : Effect σ ε α) : Prop :=
  ∀ s a t, P s → exec x s = (.ok a, t) → P t

theorem Keeps.outcome (P : σ → Prop) (r : Except ε α) : Keeps P (outcome r) := by
  intro s a t hs h
  cases h
  exact hs

theorem Keeps.pure (P : σ → Prop) (a : α) : Keeps P (Pure.pure a : Effect σ ε α) := by
  intro s b t hs h
  cases h
  exact hs

theorem Keeps.look (P : σ → Prop) (view : σ → α) : Keeps P (look view : Effect σ ε α) := by
  intro s a t hs h
  cases h
  exact hs

/-- A sequence keeps what its parts keep. -/
theorem Keeps.bind {P : σ → Prop} {x : Effect σ ε α} {f : α → Effect σ ε β} (hx : Keeps P x)
    (hf : ∀ a, Keeps P (f a)) : Keeps P (x >>= f) := by
  intro s b t hs h
  obtain ⟨a, u, ha, hb⟩ := exec_bind_ok.mp h
  exact hf a u b t (hx s a u hs ha) hb

/-- A handler for errors keeps what the program keeps. -/
theorem Keeps.onFailure {P : σ → Prop} {x : Effect σ ε α} {handler : ε → Effect σ ε Unit}
    (hx : Keeps P x) : Keeps P (onFailure x handler) :=
  fun s a t hs h => hx s a t hs (exec_onFailure_ok.mp h)

/-- A loop that collects results keeps what its body keeps. -/
theorem Keeps.mapM {P : σ → Prop} {f : α → Effect σ ε β} (hf : ∀ a, Keeps P (f a))
    (l : List α) : Keeps P (l.mapM f) := by
  induction l with
  | nil =>
    rw [List.mapM_nil]
    exact Keeps.pure P []
  | cons a l ih =>
    rw [List.mapM_cons]
    exact (hf a).bind (fun b => ih.bind (fun bs => Keeps.pure P (b :: bs)))

/-- So does a loop for its effects. -/
theorem Keeps.forM {P : σ → Prop} {f : α → Effect σ ε PUnit} (hf : ∀ a, Keeps P (f a))
    (l : List α) : Keeps P (l.forM f) := by
  induction l with
  | nil => exact Keeps.pure P ()
  | cons a l ih => exact (hf a).bind (fun _ => ih)

/-! ## Properties kept by every outcome -/

/-- From a state with `P` the program leaves one with `P`, whether it succeeds or fails. -/
def Maintains (P : σ → Prop) (x : Effect σ ε α) : Prop := ∀ s, P s → P (exec x s).2

theorem Maintains.pure (P : σ → Prop) (a : α) : Maintains P (Pure.pure a : Effect σ ε α) :=
  fun _ hs => hs

theorem Maintains.outcome (P : σ → Prop) (r : Except ε α) : Maintains P (outcome r) :=
  fun _ hs => hs

theorem Maintains.change {P : σ → Prop} {f : σ → σ} (h : ∀ s, P s → P (f s)) :
    Maintains P (change f : Effect σ ε Unit) := h

theorem Maintains.ite {P : σ → Prop} {c : Prop} [Decidable c] {x y : Effect σ ε α}
    (hx : Maintains P x) (hy : Maintains P y) : Maintains P (if c then x else y) := by
  split
  · exact hx
  · exact hy

/-- A sequence maintains what its parts maintain. -/
theorem Maintains.bind {P : σ → Prop} {x : Effect σ ε α} {f : α → Effect σ ε β}
    (hx : Maintains P x) (hf : ∀ a, Maintains P (f a)) : Maintains P (x >>= f) := by
  intro s hs
  have hmiddle := hx s hs
  rw [exec_bind]
  rcases hexec : exec x s with ⟨e | a, u⟩
  · rw [hexec] at hmiddle
    exact hmiddle
  · rw [hexec] at hmiddle
    exact hf a u hmiddle

/-- What is read in a state with `P` may be relied on. -/
theorem Maintains.look_bind {P : σ → Prop} {view : σ → α} {f : α → Effect σ ε β}
    (h : ∀ s, P s → Maintains P (f (view s))) : Maintains P (Effects.look view >>= f) := by
  intro s hs
  rw [exec_look_bind]
  exact h s hs s hs

/-- What a result is may be relied on, too. -/
theorem Maintains.outcome_bind {P : σ → Prop} {r : Except ε α} {f : α → Effect σ ε β}
    (h : ∀ a, r = .ok a → Maintains P (f a)) : Maintains P (Effects.outcome r >>= f) := by
  intro s hs
  rw [exec_bind, exec_outcome]
  cases r with
  | error e => exact hs
  | ok a => exact h a rfl s hs

/-! ## Views no outcome changes -/

/-- The program leaves the view of the state as it was, whether it succeeds or fails. -/
def Frames (view : σ → γ) (x : Effect σ ε α) : Prop :=
  ∀ s, view (exec x s).2 = view s

theorem Frames.of_exec {view : σ → γ} {x : Effect σ ε α} (h : Frames view x) {s t : σ}
    {r : Except ε α} (hexec : exec x s = (r, t)) : view t = view s := by
  have hs := h s
  rw [hexec] at hs
  exact hs

theorem Frames.pure (view : σ → γ) (a : α) : Frames view (Pure.pure a : Effect σ ε α) :=
  fun _ => rfl

theorem Frames.outcome (view : σ → γ) (r : Except ε α) : Frames view (outcome r) :=
  fun _ => rfl

theorem Frames.look (view : σ → γ) (f : σ → α) : Frames view (look f : Effect σ ε α) :=
  fun _ => rfl

theorem Frames.attempt {view : σ → γ} {x : Effect σ ε α} (hx : Frames view x) :
    Frames view (attempt x) := hx

/-- A program over the first state changes no view of the second. -/
theorem Frames.onFirst {δ : Type} (view : γ → δ) (x : Effect σ ε α) :
    Frames (fun s : σ × γ => view s.2) (onFirst x) :=
  fun _ => rfl

theorem Frames.ite {view : σ → γ} {c : Prop} [Decidable c] {x y : Effect σ ε α}
    (hx : Frames view x) (hy : Frames view y) : Frames view (if c then x else y) := by
  split
  · exact hx
  · exact hy

theorem Frames.change {view : σ → γ} {f : σ → σ} (h : ∀ s, view (f s) = view s) :
    Frames view (change f : Effect σ ε Unit) := h

/-- A sequence leaves what its parts leave. -/
theorem Frames.bind {view : σ → γ} {x : Effect σ ε α} {f : α → Effect σ ε β}
    (hx : Frames view x) (hf : ∀ a, Frames view (f a)) : Frames view (x >>= f) := by
  intro s
  rw [exec_bind]
  rcases hexec : exec x s with ⟨e | a, u⟩
  · exact hx.of_exec hexec
  · exact (hf a u).trans (hx.of_exec hexec)

/-- A loop with an accumulator leaves what its body leaves. -/
theorem Frames.foldlM {view : σ → γ} {f : β → α → Effect σ ε β} (hf : ∀ b a, Frames view (f b a))
    (l : List α) : ∀ b, Frames view (l.foldlM f b) := by
  induction l with
  | nil => exact Frames.pure view
  | cons a l ih => exact fun b => (hf b a).bind ih

/-- A loop for its effects leaves what its body leaves. -/
theorem Frames.forM {view : σ → γ} {f : α → Effect σ ε PUnit} (hf : ∀ a, Frames view (f a))
    (l : List α) : Frames view (l.forM f) := by
  induction l with
  | nil => exact Frames.pure view ()
  | cons a l ih => exact (hf a).bind (fun _ => ih)

end Effects
