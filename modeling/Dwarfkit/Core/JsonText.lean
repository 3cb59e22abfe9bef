/-
# Json as text

What is left of a json value after `dump` wrote it and `parse` read it back.  The
text keeps the value but for three things: an integer that is not negative comes
back unsigned, a float that is not finite comes back as null, and of two members
with one name the first keeps its place and the second its value.  A `JsonText` is
a text, by what the parser reads from it.

* `reread_reread` : reading back changes nothing the second time.
-/
import Dwarfkit.Antelope.Serializer.Coder

namespace Dwarfkit

/-- `std::isfinite`. -/
def Double.isFinite (d : Double) : Bool := (d.bits >>> 52) &&& 0x7ff ≠ 0x7ff

namespace Json

mutual

/-- The value that is read back from the text of a value. -/
def reread : Json → Json
  | .int n => if 0 ≤ n then .uint n.toUInt64 else .int n
  | .float d => if d.isFinite then .float d else .null
  | .arr items => .arr (rereadItems items)
  | .obj members => .obj (rereadMembers [] members)
  | .null => .null
  | .bool b => .bool b
  | .uint n => .uint n
  | .str s => .str s

/-- The items of an array, read back. -/
def rereadItems : List Json → List Json
  | [] => []
  | v :: items => reread v :: rereadItems items

/-- The members of an object, read back one after the other behind `rv`. -/
def rereadMembers (rv : List (Str × Json)) : List (Str × Json) → List (Str × Json)
  | [] => rv
  | (key, v) :: members => rereadMembers (insert rv key (reread v)) members

end

/-! ## What was read back stays -/

/-- Assigning a member adds nothing but it. -/
theorem mem_insert {members : List (Str × Json)} {key : Str} {v : Json} {m : Str × Json}
    (h : m ∈ insert members key v) : m = (key, v) ∨ m ∈ members := by
  unfold insert at h
  by_cases hany : members.any (fun m => m.1 = key) = true
  · rw [if_pos hany] at h
    obtain ⟨m', hm', rfl⟩ := List.mem_map.mp h
    by_cases hkey : m'.1 = key
    · rw [if_pos hkey]
      exact .inl rfl
    · rw [if_neg hkey]
      exact .inr hm'
  · rw [if_neg hany] at h
    rcases List.mem_append.mp h with h | h
    · exact .inr h
    · exact .inl (List.mem_singleton.mp h)

/-- The names of the members stay apart. -/
theorem nodup_insert {members : List (Str × Json)} (h : (members.map Prod.fst).Nodup) (key : Str)
    (v : Json) : ((insert members key v).map Prod.fst).Nodup := by
  unfold insert
  by_cases hany : members.any (fun m => m.1 = key) = true
  · have hkeys : (members.map (fun m => if m.1 = key then (key, v) else m)).map Prod.fst =
        members.map Prod.fst := by
      rw [List.map_map]
      apply List.map_congr_left
      intro m _
      by_cases hm : m.1 = key
      · simp [hm]
      · simp [hm]
    rw [if_pos hany, hkeys]
    exact h
  · rw [if_neg hany, List.map_append, List.nodup_append']
    refine ⟨h, by simp, ?_⟩
    intro k hk hkey
    obtain ⟨m, hm, rfl⟩ := List.mem_map.mp hk
    rw [List.map_singleton, List.mem_singleton] at hkey
    exact hany (List.any_eq_true.mpr ⟨m, hm, by simpa using hkey⟩)

/-- The members read back have their names apart. -/
theorem nodup_rereadMembers {r : List (Str × Json)} (h : (r.map Prod.fst).Nodup)
    (members : List (Str × Json)) : ((rereadMembers r members).map Prod.fst).Nodup := by
  induction members generalizing r with
  | nil => exact h
  | cons m members ih => exact ih (nodup_insert h m.1 (reread m.2))

/-- A new member goes to the end. -/
theorem insert_of_not_mem {members : List (Str × Json)} {key : Str} (v : Json)
    (h : key ∉ members.map Prod.fst) : insert members key v = members ++ [(key, v)] := by
  unfold insert
  rw [if_neg]
  intro hany
  obtain ⟨m, hm, hkey⟩ := List.any_eq_true.mp hany
  exact h (List.mem_map.mpr ⟨m, hm, by simpa using hkey⟩)

/-- Members whose names are apart are read back each in its place. -/
theorem rereadMembers_of_nodup {rv members : List (Str × Json)}
    (h : ((rv ++ members).map Prod.fst).Nodup) :
    rereadMembers rv members = rv ++ members.map (fun m => (m.1, reread m.2)) := by
  induction members generalizing rv with
  | nil => rw [rereadMembers, List.map_nil, List.append_nil]
  | cons m members ih =>
    have hnew : m.1 ∉ rv.map Prod.fst := by
      intro hmem
      rw [List.map_append, List.nodup_append'] at h
      exact h.2.2 hmem (by simp)
    have hrest : ((rv ++ [(m.1, reread m.2)] ++ members).map Prod.fst).Nodup := by
      rw [List.append_assoc, List.singleton_append, List.map_append, List.map_cons]
      rw [List.map_append, List.map_cons] at h
      exact h
    show rereadMembers (insert rv m.1 (reread m.2)) members = _
    rw [insert_of_not_mem _ hnew, ih hrest, List.append_assoc, List.singleton_append, List.map_cons]

mutual

/-- **Reading back changes nothing the second time.** -/
theorem reread_reread : (j : Json) → reread (reread j) = reread j
  | .int n => by
    by_cases h : 0 ≤ n
    · rw [reread, if_pos h, reread]
    · rw [reread, if_neg h, reread, if_neg h]
  | .float d => by
    by_cases h : d.isFinite = true
    · rw [reread, if_pos h, reread, if_pos h]
    · rw [reread, if_neg h, reread]
  | .arr items => by
    rw [reread, reread, rereadItems_rereadItems items]
  | .obj members => by
    have hvalues := rereadMembers_values members (r := []) (by simp)
    have hnodup := nodup_rereadMembers (r := []) (by simp) members
    have hsettled : (rereadMembers [] members).map (fun m => (m.1, reread m.2)) =
        rereadMembers [] members := by
      conv_rhs => rw [← List.map_id (rereadMembers [] members)]
      apply List.map_congr_left
      intro m hm
      show (m.1, reread m.2) = m
      rw [hvalues m hm]
    rw [reread, reread, rereadMembers_of_nodup (by simpa using hnodup), List.nil_append, hsettled]
  | .null => rfl
  | .bool _ => rfl
  | .uint _ => rfl
  | .str _ => rfl

/-- Neither does it for the items of an array, -/
theorem rereadItems_rereadItems : (items : List Json) →
    rereadItems (rereadItems items) = rereadItems items
  | [] => rfl
  | v :: items => by
    rw [rereadItems, rereadItems, reread_reread v, rereadItems_rereadItems items]

/-- nor for the values of members. -/
theorem rereadMembers_values : (members : List (Str × Json)) → {r : List (Str × Json)} →
    (∀ m ∈ r, reread m.2 = m.2) → ∀ m ∈ rereadMembers r members, reread m.2 = m.2
  | [], _, hrv => hrv
  | (key, v) :: members, rv, hrv => by
    apply rereadMembers_values members
    intro m hm
    rcases mem_insert hm with rfl | hm
    · exact reread_reread v
    · exact hrv m hm

end

/-- The items of an array are read back one by one. -/
theorem rereadItems_eq_map (items : List Json) : rereadItems items = items.map reread := by
  induction items with
  | nil => rfl
  | cons v items ih => rw [rereadItems, ih, List.map_cons]

/-- The items of a value that was read back were read back. -/
theorem reread_of_mem_arr {items : List Json} (h : reread (.arr items) = .arr items) {j : Json}
    (hj : j ∈ items) : reread j = j := by
  have hitems : items.map reread = items := by
    rw [reread, rereadItems_eq_map] at h
    exact Json.arr.inj h
  obtain ⟨v, -, rfl⟩ := List.mem_map.mp (hitems.symm ▸ hj)
  exact reread_reread v

/-- So were the values of its members. -/
theorem reread_of_lookup {members : List (Str × Json)} (h : reread (.obj members) = .obj members)
    {key : Str} {j : Json} (hj : lookup members key = some j) : reread j = j := by
  have hmembers : rereadMembers [] members = members := by simpa [reread] using h
  unfold lookup at hj
  obtain ⟨m, hm, rfl⟩ := Option.map_eq_some_iff.mp hj
  have hmem : m ∈ rereadMembers [] members := by
    rw [hmembers]
    exact List.mem_of_find?_eq_some hm
  exact rereadMembers_values members (r := []) (by simp) m hmem

/-- So was whatever is found at a key. -/
theorem reread_jsonAt {j : Json} (h : reread j = j) (key : Str) :
    reread (j.jsonAt key) = j.jsonAt key := by
  cases j with
  | obj members =>
    unfold jsonAt find
    cases hfound : lookup members key with
    | none =>
      simp only [hfound]
      rfl
    | some v =>
      simp only [hfound]
      exact reread_of_lookup h hfound
  | _ => rfl

/-- Finding a member among members whose values were all changed in one way. -/
theorem lookup_map (members : List (Str × Json)) (f : Json → Json) (key : Str) :
    lookup (members.map (fun m => (m.1, f m.2))) key = (lookup members key).map f := by
  unfold lookup
  rw [List.find?_map, Option.map_map, Option.map_map]
  rfl

/-! ## Texts -/

mutual

/-- Only strings of valid UTF-8 can be written. -/
def writable : Json → Bool
  | .str s => isValidUTF8 s
  | .arr items => writableItems items
  | .obj members => writableMembers members
  | .null => true
  | .bool _ => true
  | .int _ => true
  | .uint _ => true
  | .float _ => true

def writableItems : List Json → Bool
  | [] => true
  | v :: items => writable v && writableItems items

def writableMembers : List (Str × Json) → Bool
  | [] => true
  | (key, v) :: members => isValidUTF8 key && writable v && writableMembers members

end

end Json

/-- A text, by what `json::parse` reads from it: nothing where it is no json.  A text
never gives a value that reads back as another. -/
structure JsonText where
  parsed : Option Json
  settled : ∀ j ∈ parsed, j.reread = j
  deriving DecidableEq

/-- A text that is no json. -/
def JsonText.garbage : JsonText := ⟨none, by simp⟩

/-- `dump()`: throws on a string that is not UTF-8. -/
def Json.dump (j : Json) : Result JsonText :=
  if j.writable then .ok ⟨some j.reread, by simp [Json.reread_reread]⟩
  else thrown "[json.exception.type_error.316] invalid UTF-8 byte"

/-- What `dump` wrote is read back. -/
theorem Json.parsed_of_dump {j : Json} {text : JsonText} (h : j.dump = .ok text) :
    text.parsed = some j.reread := by
  unfold Json.dump at h
  by_cases hj : j.writable = true
  · rw [if_pos hj] at h
    cases h
    rfl
  · rw [if_neg hj] at h
    cases h

end Dwarfkit
