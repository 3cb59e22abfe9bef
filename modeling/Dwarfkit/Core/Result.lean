/-
# Errors and results

`Error`, `ErrorKind` and `Result` of `include/dwarfkit/core/result.hpp`.  An
exception of the json library that leaves a function is one more kind of
failure, so that a caller's `DK_TRY` and an escaping exception both end the
computation.
-/
import Dwarfkit.Core.Json

namespace Dwarfkit

/-- The kinds of error.  `exception` is not an enumerator of the source: it marks
a json exception (`type_error`, `out_of_range`) escaping a function. -/
inductive ErrorKind where
  | invalid
  | api
  | transport
  | canceled
  | plugin
  | storage
  | unsupported
  | notFound
  | internal
  | exception
  deriving DecidableEq, Repr

/-- An error: its kind and text, and for `api` the HTTP status and the chain's
error object. -/
structure Error where
  kind : ErrorKind := .internal
  message : Str := []
  code : Int := 0
  details : Json := .null
  deriving DecidableEq

/-- `tl::expected<T, Error>`. -/
abbrev Result (α : Type) := Except Error α

/-- The one-liner error return. -/
def err {α : Type} (kind : ErrorKind) (message : Str) (code : Int := 0)
    (details : Json := .null) : Result α :=
  .error { kind, message, code, details }

/-- A json exception leaving the function. -/
def thrown {α : Type} (what : Str) : Result α := err .exception what

/-! ## Success of a composed result -/

section Except

variable {ε α β : Type}

/-- A bound computation succeeds exactly when both of its parts do. -/
theorem bind_eq_ok {x : Except ε α} {f : α → Except ε β} {b : β} :
    (x >>= f) = .ok b ↔ ∃ a, x = .ok a ∧ f a = .ok b := by
  cases x with
  | error e => simp [bind, Except.bind]
  | ok a => simp [bind, Except.bind]

/-- A successful first part drops out of a bind. -/
@[simp]
theorem ok_bind (a : α) (f : α → Except ε β) : (Except.ok a >>= f) = f a := rfl

/-- A failing first part is the whole computation. -/
@[simp]
theorem error_bind (e : ε) (f : α → Except ε β) :
    ((Except.error e : Except ε α) >>= f) = Except.error e := rfl

/-- Mapping over a result succeeds exactly when the result does. -/
theorem map_eq_ok {x : Except ε α} {f : α → β} {b : β} :
    (f <$> x) = .ok b ↔ ∃ a, x = .ok a ∧ f a = b := by
  cases x with
  | error e => simp [Functor.map, Except.map]
  | ok a => simp [Functor.map, Except.map]

/-- A walk whose every item succeeds succeeds. -/
theorem mapM_eq_ok {f : α → Except ε β} {g : α → β} {l : List α}
    (h : ∀ a ∈ l, f a = .ok (g a)) : l.mapM f = .ok (l.map g) := by
  induction l with
  | nil => rfl
  | cons a l ih =>
    rw [List.mapM_cons, h a (by simp), ok_bind, ih (fun b hb => h b (by simp [hb])), ok_bind]
    rfl

/-- Walks whose steps agree on the items agree. -/
theorem mapM_congr {f g : α → Except ε β} {l : List α} (h : ∀ a ∈ l, f a = g a) :
    l.mapM f = l.mapM g := by
  induction l with
  | nil => rfl
  | cons a l ih =>
    rw [List.mapM_cons, List.mapM_cons, h a (by simp), ih (fun b hb => h b (by simp [hb]))]

/-- A result of a walk comes from one of its items. -/
theorem mem_of_mapM {f : α → Except ε β} {l : List α} {m : List β} (h : l.mapM f = .ok m) {b : β}
    (hb : b ∈ m) : ∃ a ∈ l, f a = .ok b := by
  induction l generalizing m with
  | nil =>
    cases h
    cases hb
  | cons a l ih =>
    rw [List.mapM_cons] at h
    obtain ⟨first, hfirst, h⟩ := bind_eq_ok.mp h
    obtain ⟨rest, hrest, h⟩ := bind_eq_ok.mp h
    cases h
    rcases List.mem_cons.mp hb with rfl | hb
    · exact ⟨a, by simp, hfirst⟩
    · obtain ⟨c, hc, hstep⟩ := ih hrest hb
      exact ⟨c, by simp [hc], hstep⟩

/-- Each item of a walk has its result. -/
theorem exists_of_mapM {f : α → Except ε β} {l : List α} {m : List β} (h : l.mapM f = .ok m) {a : α}
    (ha : a ∈ l) : ∃ b ∈ m, f a = .ok b := by
  induction l generalizing m with
  | nil => cases ha
  | cons first l ih =>
    rw [List.mapM_cons] at h
    obtain ⟨b, hb, h⟩ := bind_eq_ok.mp h
    obtain ⟨rest, hrest, h⟩ := bind_eq_ok.mp h
    cases h
    rcases List.mem_cons.mp ha with rfl | ha
    · exact ⟨b, by simp, hb⟩
    · obtain ⟨c, hc, hstep⟩ := ih hrest ha
      exact ⟨c, by simp [hc], hstep⟩

end Except

namespace Json

/-! ## Typed access -/

/-- `at(key)`: throws on a missing key or anything but an object. -/
def atKey (j : Json) (key : Str) : Result Json :=
  match j with
  | obj members =>
    match lookup members key with
    | some v => .ok v
    | none => thrown "[json.exception.out_of_range.403] key not found"
  | _ => thrown "[json.exception.type_error.304] cannot use at()"

/-- `get<std::string>()`. -/
def getStr : Json → Result Str
  | str s => .ok s
  | _ => thrown "[json.exception.type_error.302] type must be string"

/-- `get<bool>()`. -/
def getBool : Json → Result Bool
  | bool b => .ok b
  | _ => thrown "[json.exception.type_error.302] type must be boolean"

/-- `value(key, fallback)`: throws unless the receiver is an object; the fallback
stands in for a missing key only. -/
def valueOr (j : Json) (key : Str) (fallback : Json) : Result Json :=
  match j with
  | obj members => .ok ((lookup members key).getD fallback)
  | _ => thrown "[json.exception.type_error.306] cannot use value()"

/-- `value(key, "text")`: as `valueOr`, and throws on a member that is no string. -/
def valueStr (j : Json) (key : Str) (fallback : Str) : Result Str := do
  let v ← valueOr j key (str fallback)
  v.getStr

/-- `value` reads its own member only. -/
theorem valueOr_congr {members members' : List (Str × Json)} {key : Str}
    (h : lookup members key = lookup members' key) (fallback : Json) :
    (obj members).valueOr key fallback = (obj members').valueOr key fallback := by
  simp only [valueOr, h]

/-- A text member is its own value. -/
theorem valueStr_of_find {j : Json} {key text : Str} (h : j.find key = some (str text))
    (fallback : Str) : j.valueStr key fallback = .ok text := by
  cases j with
  | obj members =>
    unfold valueStr valueOr
    have hlookup : lookup members key = some (str text) := h
    simp only [hlookup]
    rfl
  | null | bool _ | int _ | uint _ | float _ | str _ | arr _ => cases h

/-- So does its string form. -/
theorem valueStr_congr {members members' : List (Str × Json)} {key : Str}
    (h : lookup members key = lookup members' key) (fallback : Str) :
    (obj members).valueStr key fallback = (obj members').valueStr key fallback := by
  simp only [valueStr, valueOr, h]

/-- What a range-based `for` walks over: the items of an array, the values of an
object, nothing for null, and a primitive once. -/
def elements : Json → List Json
  | null => []
  | arr items => items
  | obj members => members.map Prod.snd
  | j => [j]

end Json

end Dwarfkit
