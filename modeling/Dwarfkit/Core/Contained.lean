/-
# Contained results

A result is contained unless a json exception left the function.  The throwing accessors
of the json library are contained exactly when the kind of their receiver is the one they
ask for, and a composed function when each part is that is reached.
-/
import Dwarfkit.Core.Result

namespace Dwarfkit

section Errors

variable {ε α β : Type} {P : ε → Prop}

/-- Every error of a computation has a property. -/
def ErrorsIn (P : ε → Prop) (r : Except ε α) : Prop := ∀ e, r = .error e → P e

@[simp]
theorem errorsIn_ok (a : α) : ErrorsIn P (.ok a : Except ε α) := by
  rintro e ⟨⟩

@[simp]
theorem errorsIn_error_iff (e : ε) : ErrorsIn P (.error e : Except ε α) ↔ P e :=
  ⟨fun h => h e rfl, fun h e' heq => by cases heq; exact h⟩

/-- The errors of a composed computation are those of its parts, as far as it gets. -/
theorem errorsIn_bind_iff {x : Except ε α} {f : α → Except ε β} :
    ErrorsIn P (x >>= f) ↔ ErrorsIn P x ∧ ∀ a, x = .ok a → ErrorsIn P (f a) := by
  cases x with
  | error e =>
    constructor
    · intro h
      exact ⟨(errorsIn_error_iff e).mpr (h e rfl), by rintro a ⟨⟩⟩
    · rintro ⟨h, -⟩ e' heq
      exact h e' (by cases heq; rfl)
  | ok a =>
    constructor
    · intro h
      exact ⟨errorsIn_ok a, by rintro b ⟨⟩; exact h⟩
    · rintro ⟨-, h⟩
      exact h a rfl

theorem ErrorsIn.bind {x : Except ε α} {f : α → Except ε β} (hx : ErrorsIn P x)
    (hf : ∀ a, x = .ok a → ErrorsIn P (f a)) : ErrorsIn P (x >>= f) :=
  errorsIn_bind_iff.mpr ⟨hx, hf⟩

/-- The errors of a walk are those of its step at the first item that it does not get
past. -/
theorem errorsIn_mapM_iff {f : α → Except ε β} {l : List α} :
    ErrorsIn P (l.mapM f) ↔ ∀ front a rest, l = front ++ a :: rest →
      (∀ b ∈ front, ∃ c, f b = .ok c) → ErrorsIn P (f a) := by
  induction l with
  | nil =>
    constructor
    · intro _ front a rest h
      exact absurd h (by simp)
    · intro _
      exact errorsIn_ok _
  | cons b l ih =>
    rw [List.mapM_cons, errorsIn_bind_iff]
    constructor
    · -- The item in question is the first one, or comes after it and the first one succeeds.
      rintro ⟨hb, hrest⟩ front a rest heq hfront
      cases front with
      | nil =>
        cases heq
        exact hb
      | cons b' front =>
        cases heq
        obtain ⟨c, hc⟩ := hfront b List.mem_cons_self
        have hl := (errorsIn_bind_iff.mp (hrest c hc)).1
        exact ih.mp hl front a rest rfl (fun b hb => hfront b (List.mem_cons_of_mem _ hb))
    · intro h
      refine ⟨h [] b l rfl (by simp), fun c hc => ?_⟩
      refine ErrorsIn.bind (ih.mpr ?_) (fun _ _ => errorsIn_ok _)
      intro front a rest heq hfront
      refine h (b :: front) a rest (by rw [heq]; rfl) ?_
      intro b' hb'
      rcases List.mem_cons.mp hb' with rfl | hb'
      · exact ⟨c, hc⟩
      · exact hfront b' hb'

/-- A fold whose every step has such errors has such errors. -/
theorem errorsIn_foldlM {f : β → α → Except ε β} {l : List α}
    (h : ∀ b, ∀ a ∈ l, ErrorsIn P (f b a)) (b : β) : ErrorsIn P (l.foldlM f b) := by
  induction l generalizing b with
  | nil => exact errorsIn_ok b
  | cons a l ih =>
    rw [List.foldlM_cons]
    exact ErrorsIn.bind (h b a List.mem_cons_self)
      (fun c _ => ih (fun b a ha => h b a (List.mem_cons_of_mem _ ha)) c)

/-- Errors that are rewritten. -/
theorem errorsIn_mapError_iff {ε' : Type} {Q : ε' → Prop} {g : ε → ε'} {r : Except ε α} :
    ErrorsIn Q (r.mapError g) ↔ ErrorsIn (fun e => Q (g e)) r := by
  cases r with
  | error e =>
    show ErrorsIn Q (.error (g e) : Except ε' α) ↔ _
    rw [errorsIn_error_iff, errorsIn_error_iff]
  | ok a =>
    exact ⟨fun _ => errorsIn_ok a, fun _ => errorsIn_ok a⟩

end Errors

/-- No json exception escapes. -/
def Contained {α : Type} (r : Result α) : Prop := ErrorsIn (fun e : Error => e.kind ≠ .exception) r

section Composed

variable {α β : Type}

instance (r : Result α) : Decidable (Contained r) :=
  match r with
  | .ok _ => isTrue (by rintro e ⟨⟩)
  | .error e => decidable_of_iff (e.kind ≠ .exception)
    ⟨fun h e' heq => by cases heq; exact h, fun h => h e rfl⟩

@[simp]
theorem contained_ok (a : α) : Contained (.ok a : Result α) := errorsIn_ok a

@[simp]
theorem contained_error_iff (e : Error) :
    Contained (.error e : Result α) ↔ e.kind ≠ .exception := errorsIn_error_iff e

@[simp]
theorem contained_err_iff (kind : ErrorKind) (message : Str) (code : Int) (details : Json) :
    Contained (err kind message code details : Result α) ↔ kind ≠ .exception :=
  contained_error_iff _

@[simp]
theorem not_contained_thrown (what : Str) : ¬ Contained (thrown what : Result α) := by
  intro h
  exact (contained_err_iff _ _ _ _).mp h rfl

/-- **A composed function is contained** exactly when its parts are, as far as it gets. -/
theorem contained_bind_iff {x : Result α} {f : α → Result β} :
    Contained (x >>= f) ↔ Contained x ∧ ∀ a, x = .ok a → Contained (f a) := errorsIn_bind_iff

@[simp]
theorem contained_map_iff {x : Result α} {f : α → β} : Contained (f <$> x) ↔ Contained x := by
  cases x with
  | error e => simp [Functor.map, Except.map]
  | ok a => simp [Functor.map, Except.map]

/-- Contained parts make a contained function. -/
theorem Contained.bind {x : Result α} {f : α → Result β} (hx : Contained x)
    (hf : ∀ a, x = .ok a → Contained (f a)) : Contained (x >>= f) :=
  contained_bind_iff.mpr ⟨hx, hf⟩

/-- **A walk is contained** exactly when its step is at the first item that it does not get
past. -/
theorem contained_mapM_iff {f : α → Result β} {l : List α} :
    Contained (l.mapM f) ↔ ∀ front a rest, l = front ++ a :: rest →
      (∀ b ∈ front, ∃ c, f b = .ok c) → Contained (f a) := errorsIn_mapM_iff

/-- A walk of contained steps is contained. -/
theorem contained_mapM {f : α → Result β} {l : List α} (h : ∀ a ∈ l, Contained (f a)) :
    Contained (l.mapM f) :=
  contained_mapM_iff.mpr (fun _ a _ heq _ => h a (by rw [heq]; simp))

end Composed

namespace Json

/-- A member that is there is a string. -/
def TextAt (j : Json) (key : Str) : Prop := ∀ v, j.find key = some v → v.isString = true

instance (j : Json) (key : Str) : Decidable (j.TextAt key) :=
  match h : j.find key with
  | none => isTrue (by rintro v hv; rw [h] at hv; cases hv)
  | some v => decidable_of_iff (v.isString = true)
    ⟨fun hs v' hv => by rw [h] at hv; cases hv; exact hs, fun hs => hs v h⟩

@[simp]
theorem contained_getStr_iff (j : Json) : Contained j.getStr ↔ j.isString = true := by
  cases j <;> simp [getStr, isString]

/-- `value(key, "text")` is contained on an object whose member is a string or missing. -/
theorem contained_valueStr_iff (j : Json) (key fallback : Str) :
    Contained (j.valueStr key fallback) ↔ j.isObject = true ∧ j.TextAt key := by
  cases j with
  | obj members =>
    have hvalue : (obj members).valueStr key fallback =
        ((lookup members key).getD (str fallback)).getStr := rfl
    rw [hvalue, contained_getStr_iff]
    have hobject : (obj members).isObject = true := rfl
    unfold TextAt find
    cases hfind : lookup members key with
    | none => simp [hfind, isString, hobject]
    | some v => simp [hfind, hobject]
  | null | bool _ | int _ | uint _ | float _ | str _ | arr _ =>
    simp [valueStr, valueOr, isObject, thrown, err]

/-- A string member, or none, is read. -/
theorem exists_valueStr {j : Json} (hobject : j.isObject = true) {key : Str} (h : j.TextAt key)
    (fallback : Str) : ∃ text, j.valueStr key fallback = .ok text := by
  have hcontained := (contained_valueStr_iff j key fallback).mpr ⟨hobject, h⟩
  cases hvalue : j.valueStr key fallback with
  | ok text => exact ⟨text, rfl⟩
  | error e =>
    rw [hvalue] at hcontained
    cases j with
    | obj members =>
      have hread : ((lookup members key).getD (str fallback)).getStr = .error e := hvalue
      cases hmember : (lookup members key).getD (str fallback) <;>
        simp [hmember, getStr, thrown, err] at hread <;>
      · subst hread
        exact absurd rfl ((contained_error_iff _).mp hcontained)
    | null | bool _ | int _ | uint _ | float _ | str _ | arr _ => cases hobject

/-- What `value(key, "text")` gives: the member, or the fallback. -/
theorem valueStr_eq_ok {members : List (Str × Json)} {key fallback text : Str} :
    (obj members).valueStr key fallback = .ok text ↔
      lookup members key = some (str text) ∨ lookup members key = none ∧ fallback = text := by
  have hvalue : (obj members).valueStr key fallback =
      ((lookup members key).getD (str fallback)).getStr := rfl
  rw [hvalue]
  cases lookup members key with
  | none => simp [getStr]
  | some v => cases v <;> simp [getStr, thrown, err]

end Json

end Dwarfkit
