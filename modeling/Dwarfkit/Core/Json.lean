/-
# Bytes, strings and json values

The values every part of the toolkit exchanges: byte vectors and strings (a
`std::string` is its bytes), IEEE doubles kept as their bit patterns, and
`nlohmann::ordered_json`, whose objects keep their insertion order and hold each
key once.  The accessors follow `include/dwarfkit/core/json.hpp` and, for
`value`, `at` and `get`, the json library's documented behaviour.
-/
import Mathlib

namespace Dwarfkit

/-- A byte vector (`std::vector<uint8_t>`, `Bytes`, `Blob`). -/
abbrev Bytes := List UInt8

/-- A `std::string`, as its bytes. -/
abbrev Str := List UInt8

/-- The bytes of an ASCII literal. -/
def lit (s : String) : Str := s.toList.map (fun c => c.toNat.toUInt8)

instance : Coe String Str := ⟨lit⟩

instance : LawfulBEq Str := inferInstanceAs (LawfulBEq (List UInt8))

/-- `std::to_string` of a natural number. -/
def natToString (n : ℕ) : Str := (Nat.toDigits 10 n).map (fun c => c.toNat.toUInt8)

/-- The value of a text of digits. -/
def digitsValue (digits : Str) : ℕ := digits.foldl (fun acc c => acc * 10 + (c.toNat - 48)) 0

/-- A decimal text is made of digits. -/
theorem digit_of_mem_natToString {n : ℕ} {c : UInt8} (h : c ∈ natToString n) :
    48 ≤ c.toNat ∧ c.toNat ≤ 57 := by
  unfold natToString at h
  obtain ⟨d, hd, rfl⟩ := List.mem_map.mp h
  have hdigit := Nat.isDigit_of_mem_toDigits (by omega) (by omega) hd
  simp only [Char.isDigit, Bool.and_eq_true, decide_eq_true_eq] at hdigit
  obtain ⟨hlow, hhigh⟩ := hdigit
  have hlow' : 48 ≤ d.toNat := hlow
  have hhigh' : d.toNat ≤ 57 := hhigh
  rw [UInt8.toNat_ofNat_of_lt' (show d.toNat < 2 ^ 8 by omega)]
  exact ⟨hlow', hhigh'⟩

/-- A decimal text is not empty. -/
theorem natToString_ne_nil (n : ℕ) : natToString n ≠ [] := by
  unfold natToString
  rw [ne_eq, List.map_eq_nil_iff]
  exact Nat.toDigits_ne_nil

/-- A decimal text has the value it was written from. -/
theorem digitsValue_natToString (n : ℕ) : digitsValue (natToString n) = n := by
  have hfold : ∀ (l : List Char) (acc : ℕ), (∀ c ∈ l, c.toNat < 256) →
      (l.map (fun c => c.toNat.toUInt8)).foldl (fun acc c => acc * 10 + (c.toNat - 48)) acc =
        Nat.ofDigitChars 10 l acc := by
    intro l
    induction l with
    | nil => exact fun acc _ => rfl
    | cons c l ih =>
      intro acc hl
      have hc : c.toNat.toUInt8.toNat = c.toNat :=
        UInt8.toNat_ofNat_of_lt' (show c.toNat < 2 ^ 8 from hl c (by simp))
      rw [List.map_cons, List.foldl_cons, hc, ih _ (fun d hd => hl d (by simp [hd]))]
      rw [Nat.mul_comm acc 10]
      rfl
  unfold digitsValue natToString
  rw [hfold _ _ (fun c hc => ?_), Nat.ofDigitChars_ten_toDigits]
  have hdigit := Nat.isDigit_of_mem_toDigits (by omega) (by omega) hc
  simp only [Char.isDigit, Bool.and_eq_true, decide_eq_true_eq] at hdigit
  have hhigh : c.toNat ≤ 57 := hdigit.2
  omega

/-- `std::to_string` of an integer. -/
def intToString (n : ℤ) : Str := if n < 0 then 45 :: natToString n.natAbs else natToString n.natAbs

/-- A C++ `double`, kept as its bit pattern. -/
structure Double where
  bits : UInt64
  deriving DecidableEq, Repr

/-- `nlohmann::ordered_json`: integers remember whether they were written signed
or unsigned, and objects keep their members in insertion order. -/
inductive Json where
  | null
  | bool (b : Bool)
  | int (n : Int64)
  | uint (n : UInt64)
  | float (d : Double)
  | str (s : Str)
  | arr (items : List Json)
  | obj (members : List (Str × Json))
  deriving Inhabited

/-! ## Lists -/

/-- A map that takes the items of a list back takes the list back. -/
theorem map_map_cancel {α β : Type} {f : α → β} {g : β → α} {l : List α}
    (h : ∀ a ∈ l, g (f a) = a) : (l.map f).map g = l := by
  rw [List.map_map]
  conv_rhs => rw [← List.map_id l]
  exact List.map_congr_left h

/-- The only element of a key is found under it. -/
theorem find?_of_unique {α β : Type} [DecidableEq β] {l : List α} {key : α → β} {e : α} (h : e ∈ l)
    (hunique : ∀ e' ∈ l, key e' = key e → e' = e) :
    l.find? (fun x => key x = key e) = some e := by
  cases hfind : l.find? (fun x => key x = key e) with
  | none =>
    have := List.find?_eq_none.mp hfind e h
    simp at this
  | some e' =>
    have hkey : key e' = key e := by simpa using List.find?_some hfind
    rw [hunique e' (List.mem_of_find?_eq_some hfind) hkey]

namespace Json

/-! ## Equality -/

mutual

/-- Equality of json values is decided constructor by constructor. -/
def decEq : (a b : Json) → Decidable (a = b)
  | .null, b => match b with
    | .null => isTrue rfl
    | .bool _ | .int _ | .uint _ | .float _ | .str _ | .arr _ | .obj _ => isFalse (by simp)
  | .bool x, b => match b with
    | .bool y => decidable_of_iff (x = y) (by simp)
    | .null | .int _ | .uint _ | .float _ | .str _ | .arr _ | .obj _ => isFalse (by simp)
  | .int x, b => match b with
    | .int y => decidable_of_iff (x = y) (by simp)
    | .null | .bool _ | .uint _ | .float _ | .str _ | .arr _ | .obj _ => isFalse (by simp)
  | .uint x, b => match b with
    | .uint y => decidable_of_iff (x = y) (by simp)
    | .null | .bool _ | .int _ | .float _ | .str _ | .arr _ | .obj _ => isFalse (by simp)
  | .float x, b => match b with
    | .float y => decidable_of_iff (x = y) (by simp)
    | .null | .bool _ | .int _ | .uint _ | .str _ | .arr _ | .obj _ => isFalse (by simp)
  | .str x, b => match b with
    | .str y => decidable_of_iff (x = y) (by simp)
    | .null | .bool _ | .int _ | .uint _ | .float _ | .arr _ | .obj _ => isFalse (by simp)
  | .arr xs, b => match b with
    | .arr ys =>
      have := decEqItems xs ys
      decidable_of_iff (xs = ys) (by simp)
    | .null | .bool _ | .int _ | .uint _ | .float _ | .str _ | .obj _ => isFalse (by simp)
  | .obj xs, b => match b with
    | .obj ys =>
      have := decEqMembers xs ys
      decidable_of_iff (xs = ys) (by simp)
    | .null | .bool _ | .int _ | .uint _ | .float _ | .str _ | .arr _ => isFalse (by simp)

/-- Equality of array items. -/
def decEqItems : (xs ys : List Json) → Decidable (xs = ys)
  | [], ys => match ys with
    | [] => isTrue rfl
    | _ :: _ => isFalse (by simp)
  | x :: xs, ys => match ys with
    | [] => isFalse (by simp)
    | y :: ys =>
      have := decEq x y
      have := decEqItems xs ys
      decidable_of_iff (x = y ∧ xs = ys) (by simp)

/-- Equality of object members. -/
def decEqMembers : (xs ys : List (Str × Json)) → Decidable (xs = ys)
  | [], ys => match ys with
    | [] => isTrue rfl
    | _ :: _ => isFalse (by simp)
  | (k, x) :: xs, ys => match ys with
    | [] => isFalse (by simp)
    | (l, y) :: ys =>
      have := decEq x y
      have := decEqMembers xs ys
      decidable_of_iff (k = l ∧ x = y ∧ xs = ys) (by simp [and_assoc])

end

instance : DecidableEq Json := decEq

/-! ## Kinds -/

def isNull : Json → Bool
  | null => true
  | _ => false

def isString : Json → Bool
  | str _ => true
  | _ => false

def isBoolean : Json → Bool
  | bool _ => true
  | _ => false

def isArray : Json → Bool
  | arr _ => true
  | _ => false

def isObject : Json → Bool
  | obj _ => true
  | _ => false

/-- `is_number_unsigned`. -/
def isNumberUnsigned : Json → Bool
  | uint _ => true
  | _ => false

/-- `is_number_integer`: either integer kind. -/
def isNumberInteger : Json → Bool
  | int _ => true
  | uint _ => true
  | _ => false

/-- `is_number`. -/
def isNumber : Json → Bool
  | int _ => true
  | uint _ => true
  | float _ => true
  | _ => false

/-! ## Object members -/

/-- `find` on the member list of an object. -/
def lookup (members : List (Str × Json)) (key : Str) : Option Json :=
  (members.find? (fun m => m.1 = key)).map Prod.snd

/-- `find(key)`: no result on anything but an object. -/
def find (j : Json) (key : Str) : Option Json :=
  match j with
  | obj members => lookup members key
  | _ => none

/-- `contains(key)`: false on anything but an object. -/
def contains (j : Json) (key : Str) : Bool := (j.find key).isSome

/-- Assigning a member: in place if the key is there, at the end otherwise. -/
def insert (members : List (Str × Json)) (key : Str) (v : Json) : List (Str × Json) :=
  if members.any (fun m => m.1 = key) then
    members.map (fun m => if m.1 = key then (key, v) else m)
  else members ++ [(key, v)]

/-- `erase(key)` of an object member. -/
def erase (members : List (Str × Json)) (key : Str) : List (Str × Json) :=
  members.filter (fun m => m.1 ≠ key)

/-- Reading a member back after it was assigned. -/
@[simp]
theorem lookup_insert_self (members : List (Str × Json)) (key : Str) (v : Json) :
    lookup (insert members key v) key = some v := by
  unfold insert
  by_cases h : members.any (fun m => m.1 = key) = true
  · rw [if_pos h]
    unfold lookup
    induction members with
    | nil => cases h
    | cons m rest ih =>
      by_cases hm : m.1 = key
      · simp [hm]
      · have hrest : rest.any (fun m => m.1 = key) = true := by
          rw [List.any_cons, decide_eq_false hm, Bool.false_or] at h
          exact h
        rw [List.map_cons, if_neg hm, List.find?_cons_of_neg (by simpa using hm)]
        exact ih hrest
  · rw [if_neg h]
    have hnone : members.find? (fun m => m.1 = key) = none := by
      rw [List.find?_eq_none]
      intro m hm hkey
      exact h (List.any_eq_true.mpr ⟨m, hm, hkey⟩)
    simp [lookup, List.find?_append, hnone]

/-- Assigning a member leaves the others. -/
theorem lookup_insert_of_ne (members : List (Str × Json)) {key other : Str} (v : Json)
    (h : other ≠ key) : lookup (insert members key v) other = lookup members other := by
  unfold insert
  by_cases hany : members.any (fun m => m.1 = key) = true
  · rw [if_pos hany]
    clear hany
    unfold lookup
    induction members with
    | nil => rfl
    | cons m rest ih =>
      rw [List.map_cons]
      by_cases hm : m.1 = key
      · have hother : ¬ m.1 = other := fun heq => h (heq.symm.trans hm)
        rw [if_pos hm, List.find?_cons_of_neg (by simpa using h.symm),
          List.find?_cons_of_neg (by simpa using hother)]
        exact ih
      · rw [if_neg hm]
        by_cases hother : m.1 = other
        · rw [List.find?_cons_of_pos (by simpa using hother),
            List.find?_cons_of_pos (by simpa using hother)]
        · rw [List.find?_cons_of_neg (by simpa using hother),
            List.find?_cons_of_neg (by simpa using hother)]
          exact ih
  · rw [if_neg hany]
    have hlast : ¬ key = other := fun heq => h heq.symm
    simp [lookup, List.find?_append, hlast]

/-- An erased member is gone. -/
@[simp]
theorem lookup_erase_self (members : List (Str × Json)) (key : Str) :
    lookup (erase members key) key = none := by
  simp [lookup, erase, List.find?_eq_none]

/-- Erasing a member leaves the others. -/
theorem lookup_erase_of_ne (members : List (Str × Json)) {key other : Str} (h : other ≠ key) :
    lookup (erase members key) other = lookup members other := by
  unfold lookup erase
  induction members with
  | nil => rfl
  | cons m rest ih =>
    by_cases hm : m.1 = key
    · have hother : ¬ m.1 = other := fun heq => h (heq.symm.trans hm)
      rw [List.filter_cons_of_neg (by simpa using hm),
        List.find?_cons_of_neg (by simpa using hother)]
      exact ih
    · rw [List.filter_cons_of_pos (by simpa using hm)]
      by_cases hother : m.1 = other
      · rw [List.find?_cons_of_pos (by simpa using hother),
          List.find?_cons_of_pos (by simpa using hother)]
      · rw [List.find?_cons_of_neg (by simpa using hother),
          List.find?_cons_of_neg (by simpa using hother)]
        exact ih

/-- `jsonStr`: the string at `key`, or the fallback. -/
def jsonStr (j : Json) (key : Str) (fallback : Str := []) : Str :=
  match j.find key with
  | some (str s) => s
  | _ => fallback

/-- `jsonAt`: the value at `key`, or a null json. -/
def jsonAt (j : Json) (key : Str) : Json := (j.find key).getD null

/-- `std::from_chars` for a `uint64_t` that has to use up the whole text: digits
only, at least one, and no overflow. -/
def fromCharsUInt64 (text : Str) : Option UInt64 :=
  if text = [] ∨ text.any (fun c => c < 48 ∨ 57 < c) then none
  else
    let n := digitsValue text
    if n < 2 ^ 64 then some n.toUInt64 else none

/-- `jsonUInt64`: a number or a decimal string at `key`, or the fallback. -/
def jsonUInt64 (j : Json) (key : Str) (fallback : UInt64 := 0) : UInt64 :=
  match j.find key with
  | some (uint n) => n
  | some (int n) => if 0 ≤ n then n.toUInt64 else fallback
  | some (str text) => (fromCharsUInt64 text).getD fallback
  | _ => fallback

end Json

end Dwarfkit
