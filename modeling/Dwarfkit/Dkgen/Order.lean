/-
# The order of the generated declarations

`collectStructs` and `appendWithDependencies` of `tools/dkgen/generator.cpp`: variants and
structs, each after the declarations it names.  Typedefs are not declared, so what a typedef
stands for has to be declared in its place.

* `orderStructs_eq` : the ordering is a depth-first listing of names;
* `exists_orderStructs` : it ends for every ABI.
-/
import Dwarfkit.Dkgen.Types
import Dwarfkit.Library.DepthFirst

namespace Dwarfkit

namespace Dkgen

open DepthFirst

/-- `StructData`: what is declared, a struct or a variant. -/
structure StructData where
  name : Str
  base : Str := []
  fields : List ABI.Field := []
  variant : Bool := false
  variantTypes : List Str := []
  deriving DecidableEq, Repr

def StructData.ofVariant (v : ABI.Variant) : StructData where
  name := v.name
  variant := true
  variantTypes := v.types

def StructData.ofStruct (s : ABI.Struct) : StructData where
  name := s.name
  base := s.base
  fields := s.fields

/-- `collectStructs`: the variants come first. -/
def collectStructs (abi : ABI) : List StructData :=
  abi.variants.map .ofVariant ++ abi.structs.map .ofStruct

/-- `findByName`: the first declaration of a name. -/
def findByName (all : List StructData) (name : Str) : Option StructData :=
  all.find? (fun candidate => candidate.name = name)

/-- The variables of the ordering: what is ordered, and the sets of names that are in it and
that are being worked on. -/
structure Progress where
  ordered : List StructData := []
  seen : List Str := []
  visiting : List Str := []
  deriving DecidableEq, Repr

section Ordering

variable (abi : ABI) (all : List StructData) (append : Progress → StructData → Option Progress)

/-- The call on a name, if it is declared. -/
def appendName (s : Progress) (name : Str) : Option Progress :=
  match findByName all name with
  | some found => append s found
  | none => some s

/-- The call on what a type string names, unless that is the declaration itself. -/
def appendType (item : StructData) (s : Progress) (type : Str) : Option Progress :=
  let dep := dependencyName abi type
  if dep ≠ [] ∧ dep ≠ item.name then appendName all append s dep else some s

/-- The call on the base of a struct. -/
def appendBase (item : StructData) (s : Progress) : Option Progress :=
  if item.base = [] then some s else appendName all append s item.base

/-- The calls on what a declaration names: its base, its variant types, its fields' types. -/
def appendDependencies (item : StructData) (s : Progress) : Option Progress := do
  let s ← appendBase all append item s
  let s ← item.variantTypes.foldlM (appendType abi all append item) s
  (item.fields.map (fun field => field.type)).foldlM (appendType abi all append item) s

/-- `appendWithDependencies`: dependencies first, first occurrence wins. -/
def appendWithDependencies : (fuel : ℕ) → Progress → StructData → Option Progress
  | 0, _, _ => none
  | fuel + 1, s, item =>
    if item.name ∈ s.seen ∨ item.name ∈ s.visiting then some s
    else do
      let s := { s with visiting := item.name :: s.visiting }
      let s ← appendDependencies abi all (appendWithDependencies fuel) item s
      return {
        visiting := s.visiting.erase item.name
        seen := s.seen ++ [item.name]
        ordered := s.ordered ++ (findByName all item.name).toList }

/-- The ordering of `run`, with a call for each declaration and one more. -/
def orderStructs : Option (List StructData) :=
  let structs := collectStructs abi
  (structs.foldlM (appendWithDependencies abi structs (structs.length + 1)) {}).map
    (fun s => s.ordered)

end Ordering

/-! ## A listing of names -/

section Listing

variable (abi : ABI) (all : List StructData)

/-- The type strings of a declaration. -/
def StructData.typeStrings (item : StructData) : List Str :=
  item.variantTypes ++ item.fields.map (fun field => field.type)

/-- The declared names that a declaration is ordered after. -/
def follows (item : StructData) : List Str :=
  ((if item.base = [] then [] else [item.base]) ++
    (item.typeStrings.map (dependencyName abi)).filter
      (fun dep => dep ≠ [] ∧ dep ≠ item.name)).filter (fun name => (findByName all name).isSome)

/-- The graph of the names. -/
def next (name : Str) : List Str :=
  match findByName all name with
  | some item => follows abi all item
  | none => []

theorem name_of_findByName {all : List StructData} {name : Str} {item : StructData}
    (h : findByName all name = some item) : item.name = name := by
  simpa using List.find?_some h

theorem mem_of_findByName {all : List StructData} {name : Str} {item : StructData}
    (h : findByName all name = some item) : item ∈ all :=
  List.mem_of_find?_eq_some h

theorem exists_findByName {all : List StructData} {item : StructData} (h : item ∈ all) :
    ∃ found, findByName all item.name = some found := by
  have hsome : (findByName all item.name).isSome = true := by
    unfold findByName
    rw [List.find?_isSome]
    exact ⟨item, h, by simp⟩
  exact Option.isSome_iff_exists.mp hsome

theorem mem_next {name dep : Str} (h : dep ∈ next abi all name) :
    ∃ item ∈ all, item.name = name ∧ dep ∈ follows abi all item := by
  unfold next at h
  cases hfind : findByName all name with
  | none =>
    rw [hfind] at h
    cases h
  | some item =>
    rw [hfind] at h
    exact ⟨item, mem_of_findByName hfind, name_of_findByName hfind, h⟩

/-- What is followed is declared. -/
theorem declared_of_mem_next {name dep : Str} (h : dep ∈ next abi all name) :
    dep ∈ all.map StructData.name := by
  obtain ⟨item, -, -, hdep⟩ := mem_next abi all h
  obtain ⟨-, hfound⟩ := List.mem_filter.mp hdep
  obtain ⟨found, hfound⟩ := Option.isSome_iff_exists.mp hfound
  exact List.mem_map.mpr ⟨found, mem_of_findByName hfound, name_of_findByName hfound⟩

/-- The progress that a listing of names stands for. -/
def progress (path done : List Str) : Progress where
  ordered := done.filterMap (findByName all)
  seen := done
  visiting := path

/-- A call on a name that is not declared does nothing. -/
theorem foldlM_appendName_filter (append : Progress → StructData → Option Progress)
    (names : List Str) (s : Progress) :
    (names.filter (fun name => (findByName all name).isSome)).foldlM (appendName all append) s =
      names.foldlM (appendName all append) s := by
  induction names generalizing s with
  | nil => rfl
  | cons name names ih =>
    by_cases hfound : (findByName all name).isSome = true
    · simp only [List.filter_cons, hfound, if_true, List.foldlM_cons, ih]
    · have hnone : findByName all name = none := by simpa using hfound
      have hskip : appendName all append s name = some s := by
        unfold appendName
        rw [hnone]
      simp only [List.filter_cons, hfound, List.foldlM_cons, hskip]
      exact ih s

theorem foldlM_appendType (append : Progress → StructData → Option Progress) (item : StructData)
    (types : List Str) (s : Progress) :
    types.foldlM (appendType abi all append item) s =
      ((types.map (dependencyName abi)).filter
        (fun dep => dep ≠ [] ∧ dep ≠ item.name)).foldlM (appendName all append) s := by
  induction types generalizing s with
  | nil => rfl
  | cons type types ih =>
    rw [List.foldlM_cons, List.map_cons]
    by_cases hdep : dependencyName abi type ≠ [] ∧ dependencyName abi type ≠ item.name
    · have hstep : appendType abi all append item s type =
          appendName all append s (dependencyName abi type) := if_pos hdep
      simp only [List.filter_cons, decide_eq_true hdep, if_true, List.foldlM_cons, hstep, ih]
    · have hstep : appendType abi all append item s type = some s := if_neg hdep
      simp only [List.filter_cons, decide_eq_false hdep, hstep]
      exact ih s

/-- The calls of a declaration are one fold over the names that it follows. -/
theorem foldlM_follows (append : Progress → StructData → Option Progress) (item : StructData)
    (s : Progress) :
    appendDependencies abi all append item s =
      (follows abi all item).foldlM (appendName all append) s := by
  have hbase : ∀ s, appendBase all append item s =
      (if item.base = [] then [] else [item.base]).foldlM (appendName all append) s := by
    intro s
    unfold appendBase
    split_ifs
    · rfl
    · simp
  unfold appendDependencies follows StructData.typeStrings
  rw [foldlM_appendName_filter, List.foldlM_append, hbase]
  simp only [← foldlM_appendType, List.foldlM_append]

/-- **A call on a declaration** is a visit of its name. -/
theorem appendWithDependencies_eq (fuel : ℕ) (path done : List Str) {name : Str} {item : StructData}
    (hitem : findByName all name = some item) :
    appendWithDependencies abi all fuel (progress all path done) item =
      (visit (next abi all) fuel path done name).map (progress all path) := by
  have hname := name_of_findByName hitem
  induction fuel generalizing path done name item with
  | zero => rfl
  | succ fuel ih =>
    -- The calls on what the item follows, each of them on a declaration of the same list.
    have hfold : ∀ (names : List Str) (done : List Str),
        (∀ n ∈ names, (findByName all n).isSome = true) →
        names.foldlM (appendName all (appendWithDependencies abi all fuel))
            (progress all (name :: path) done) =
          (names.foldlM (visit (next abi all) fuel (name :: path)) done).map
            (progress all (name :: path)) := by
      intro names
      induction names with
      | nil => exact fun done _ => rfl
      | cons n names ihn =>
        intro done hfound
        obtain ⟨found, hn⟩ := Option.isSome_iff_exists.mp (hfound n List.mem_cons_self)
        have hstep : appendName all (appendWithDependencies abi all fuel)
            (progress all (name :: path) done) n =
              (visit (next abi all) fuel (name :: path) done n).map
                (progress all (name :: path)) := by
          unfold appendName
          rw [hn]
          exact ih (name :: path) done hn (name_of_findByName hn)
        rw [List.foldlM_cons, List.foldlM_cons, hstep]
        cases visit (next abi all) fuel (name :: path) done n with
        | none => rfl
        | some mid => exact ihn mid (fun n hn => hfound n (List.mem_cons_of_mem _ hn))
    have hnext : next abi all name = follows abi all item := by
      unfold next
      rw [hitem]
    rw [appendWithDependencies, visit, hnext]
    simp only [hname]
    by_cases hskip : name ∈ done ∨ name ∈ path
    · have hskip' : name ∈ (progress all path done).seen ∨
          name ∈ (progress all path done).visiting := hskip
      rw [if_pos hskip, if_pos hskip']
      rfl
    · have hskip' : ¬ (name ∈ (progress all path done).seen ∨
          name ∈ (progress all path done).visiting) := hskip
      rw [if_neg hskip, if_neg hskip']
      have hcalls := foldlM_follows abi all (appendWithDependencies abi all fuel) item
        (progress all (name :: path) done)
      rw [hfold (follows abi all item) done (fun n hn => (List.mem_filter.mp hn).2)] at hcalls
      show (appendDependencies abi all (appendWithDependencies abi all fuel) item
        (progress all (name :: path) done) >>= _) = _
      rw [hcalls]
      cases (follows abi all item).foldlM (visit (next abi all) fuel (name :: path)) done with
      | none => rfl
      | some mid =>
        show some (Progress.mk _ _ _) = some (progress all path (mid ++ [name]))
        unfold progress
        rw [List.filterMap_append, List.erase_cons_head]
        simp [hitem]

/-- Every declaration of a list is listed under its name; a second one of a name is skipped. -/
theorem foldlM_append_eq (fuel : ℕ) (front back : List StructData) (done : List Str)
    (hfront : ∀ item ∈ front, item.name ∈ done) :
    back.foldlM (appendWithDependencies abi (front ++ back) (fuel + 1))
        (progress (front ++ back) [] done) =
      ((back.map StructData.name).foldlM (visit (next abi (front ++ back)) (fuel + 1) [])
        done).map (progress (front ++ back) []) := by
  induction back generalizing front done with
  | nil => rfl
  | cons item back ih =>
    have hstep : appendWithDependencies abi (front ++ item :: back) (fuel + 1)
        (progress (front ++ item :: back) [] done) item =
        (visit (next abi (front ++ item :: back)) (fuel + 1) [] done item.name).map
          (progress (front ++ item :: back) []) := by
      by_cases hdone : item.name ∈ done
      · have hseen : item.name ∈ (progress (front ++ item :: back) [] done).seen := hdone
        rw [appendWithDependencies, visit, if_pos (.inl hseen), if_pos (.inl hdone)]
        rfl
      · refine appendWithDependencies_eq abi (front ++ item :: back) (fuel + 1) [] done ?_
        unfold findByName
        rw [List.find?_append]
        -- An earlier one of the name would be listed already, so the name finds this one.
        have hnone : front.find? (fun candidate => candidate.name = item.name) = none := by
          rw [List.find?_eq_none]
          intro other hother hsame
          exact hdone (of_decide_eq_true hsame ▸ hfront other hother)
        rw [hnone]
        simp
    rw [List.foldlM_cons, List.map_cons, List.foldlM_cons, hstep]
    cases hvisit : visit (next abi (front ++ item :: back)) (fuel + 1) [] done item.name with
    | none => rfl
    | some mid =>
      have hmid : ∀ other ∈ front ++ [item], other.name ∈ mid := by
        intro other hother
        rcases List.mem_append.mp hother with hother | hother
        · exact ( visit_prefix hvisit).subset (hfront other hother)
        · rw [List.mem_singleton.mp hother]
          exact (mem_of_visit hvisit).resolve_right List.not_mem_nil
      have hrest := ih (front ++ [item]) mid hmid
      rw [List.append_assoc] at hrest
      exact hrest

/-- **The ordering** is the depth-first listing of the declared names. -/
theorem orderStructs_eq :
    orderStructs abi =
      (visitAll (next abi (collectStructs abi)) ((collectStructs abi).length + 1)
        ((collectStructs abi).map StructData.name)).map
        (fun done => done.filterMap (findByName (collectStructs abi))) := by
  have hfold := foldlM_append_eq abi (collectStructs abi).length [] (collectStructs abi) []
    (by simp)
  unfold orderStructs visitAll
  simp only [List.nil_append] at hfold
  have hstart : ({} : Progress) = progress (collectStructs abi) [] [] := rfl
  simp only [hstart, hfold, Option.map_map]
  rfl

/-- **The ordering ends** for every ABI, with or without cycles. -/
theorem exists_orderStructs : ∃ ordered, orderStructs abi = some ordered := by
  obtain ⟨done, hdone⟩ := exists_visitAll
    (fun a (_ : a ∈ (collectStructs abi).map StructData.name) b
      (hb : b ∈ next abi (collectStructs abi) a) => declared_of_mem_next abi _ hb)
    (show _ < (collectStructs abi).length + 1 by simp)
  rw [orderStructs_eq, hdone]
  exact ⟨_, rfl⟩

/-- What is ordered: the first declaration of each name. -/
theorem mem_orderStructs {ordered : List StructData} (h : orderStructs abi = some ordered)
    (item : StructData) :
    item ∈ ordered ↔ findByName (collectStructs abi) item.name = some item := by
  rw [orderStructs_eq] at h
  obtain ⟨done, hdone, rfl⟩ := Option.map_eq_some_iff.mp h
  rw [List.mem_filterMap]
  constructor
  · rintro ⟨name, -, hname⟩
    rw [name_of_findByName hname]
    exact hname
  · intro hitem
    refine ⟨item.name, ?_, hitem⟩
    rw [mem_of_visitAll (fun _ _ _ hb => declared_of_mem_next abi _ hb) hdone]
    exact List.mem_map.mpr ⟨item, mem_of_findByName hitem, rfl⟩

end Listing

end Dkgen

end Dwarfkit
