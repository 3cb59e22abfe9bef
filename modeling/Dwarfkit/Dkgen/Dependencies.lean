/-
# Dependencies of declarations

What a declaration depends on, apart from how the generator finds it: a type string leads
to the name it bears under its suffixes, and through any number of typedefs.  The generator
follows the types of fields and variants through one typedef, and a base through none.

* `declared_order_iff` : when the header declares everything after what it depends on.
-/
import Dwarfkit.Dkgen.Generator

namespace Dwarfkit

namespace Dkgen

open DepthFirst

/-! ## What type strings lead to -/

/-- The suffixes of type strings. -/
inductive Suffix : Str → Prop
  | array : Suffix (lit "[]")
  | sized (digits : Str) : (∀ c ∈ digits, 48 ≤ c ∧ c ≤ 57) → Suffix (91 :: digits ++ [93])
  | optional : Suffix (lit "?")
  | extension : Suffix (lit "$")

/-- A type string without its blanks is a name and some suffixes. -/
def Bears (type name : Str) : Prop :=
  ∃ layers : List Str, (∀ s ∈ layers, Suffix s) ∧
    type.filter (fun c => !isSpace c) = name ++ layers.flatten

/-- A type string leads to the name it bears, or to where the typedef of that name leads. -/
inductive Leads (abi : ABI) : Str → Str → Prop
  | name {type name : Str} : Bears type name → Leads abi type name
  | typedef {type name : Str} {t : ABI.TypeDef} : t ∈ abi.types → Bears type t.new_type_name →
    Leads abi t.type name → Leads abi type name

/-- The type strings of a declaration, its base included. -/
def StructData.texts (item : StructData) : List Str :=
  (if item.base = [] then [] else [item.base]) ++ item.typeStrings

/-- A declaration depends on the structs and variants that its type strings lead to. -/
def DependsOn (abi : ABI) (item : StructData) (name : Str) : Prop :=
  isAbiStructOrVariant abi name = true ∧ ∃ type ∈ item.texts, Leads abi type name

/-- No two structs, variants or typedefs have the same name. -/
def DistinctNames (abi : ABI) : Prop :=
  ((collectStructs abi).map StructData.name ++ abi.types.map (fun t => t.new_type_name)).Nodup

/-- No declaration depends on itself. -/
def AcyclicDependencies (abi : ABI) : Prop :=
  ∀ name, ¬ Relation.TransGen
    (fun a b => ∃ item ∈ collectStructs abi, item.name = a ∧ DependsOn abi item b) name name

/-- A type string with a typedef for another typedef, whose name is also that of a builtin
type. -/
def Shadowed (abi : ABI) (type : Str) : Prop :=
  ∃ target, aliasTarget abi (parseTypeString type).base = some target ∧
    (aliasTarget abi (parseTypeString target).base).isSome = true ∧
    (builtinType (parseTypeString target).base).isSome = true

/-- What the generator does not follow: a base that leads to a declaration without being its
name, and shadowed type strings. -/
def Unfollowed (abi : ABI) (item : StructData) (name : Str) : Prop :=
  isAbiStructOrVariant abi name = true ∧
    ((item.base ≠ [] ∧ item.base ≠ name ∧ Leads abi item.base name) ∨
      ∃ type ∈ item.typeStrings, Shadowed abi type ∧ Leads abi type name)

/-! ## Names under suffixes -/

theorem Suffix.head {s : Str} (h : Suffix s) : ∃ c rest, s = c :: rest ∧ isSafeChar c = false := by
  cases h with
  | array => exact ⟨91, _, rfl, by decide⟩
  | sized digits hdigits => exact ⟨91, _, rfl, by decide⟩
  | optional => exact ⟨63, _, rfl, by decide⟩
  | extension => exact ⟨36, _, rfl, by decide⟩

/-- A name of safe characters ends where the first suffix starts. -/
theorem Bears.takeWhile {type name : Str} (h : Bears type name)
    (hsafe : ∀ c ∈ name, isSafeChar c = true) :
    (type.filter (fun c => !isSpace c)).takeWhile isSafeChar = name := by
  obtain ⟨layers, hlayers, heq⟩ := h
  rw [heq, List.takeWhile_append_of_pos hsafe]
  cases layers with
  | nil => simp
  | cons s layers =>
    obtain ⟨c, rest, rfl, hc⟩ := (hlayers s List.mem_cons_self).head
    simp [hc]

/-- So a type string bears one safe name. -/
theorem Bears.unique {type name name' : Str} (h : Bears type name) (h' : Bears type name')
    (hsafe : ∀ c ∈ name, isSafeChar c = true) (hsafe' : ∀ c ∈ name', isSafeChar c = true) :
    name = name' := by
  rw [← h.takeWhile hsafe, h'.takeWhile hsafe']

/-- A safe name bears itself. -/
theorem bears_self {name : Str} (hsafe : ∀ c ∈ name, isSafeChar c = true) : Bears name name := by
  refine ⟨[], by simp, ?_⟩
  rw [List.flatten_nil, List.append_nil, List.filter_eq_self]
  intro c hc
  simp [(isSafeChar_plain (hsafe c hc)).1]

/-- What `chop` takes off. -/
def chopped (suffix : Str) (found : Bool) : List Str := if found then [suffix] else []

theorem chop_eq (name suffix : Str) :
    name = (ABI.ResolvedNode.chop name suffix).1 ++
      (chopped suffix (ABI.ResolvedNode.chop name suffix).2).flatten := by
  unfold ABI.ResolvedNode.chop
  by_cases h : suffix.isSuffixOf name = true
  · obtain ⟨front, rfl⟩ := List.isSuffixOf_iff_suffix.mp h
    rw [if_pos h]
    simp [chopped]
  · rw [if_neg h]
    simp [chopped]

theorem suffix_of_chopped {suffix s : Str} {found : Bool} (h : Suffix suffix)
    (hs : s ∈ chopped suffix found) : Suffix s := by
  unfold chopped at hs
  split_ifs at hs
  · rw [List.mem_singleton.mp hs]
    exact h
  · cases hs

/-- A type string bears the base that the generator finds. -/
theorem bears_parseTypeString (type : Str) : Bears type (parseTypeString type).base := by
  unfold parseTypeString Bears
  simp only
  generalize type.filter (fun c => !isSpace c) = text
  have hextension := chop_eq text "$"
  have hoptional := chop_eq (ABI.ResolvedNode.chop text "$").1 "?"
  have harray := chop_eq (ABI.ResolvedNode.chop (ABI.ResolvedNode.chop text "$").1 "?").1 "[]"
  generalize ABI.ResolvedNode.chop text "$" = e at *
  generalize ABI.ResolvedNode.chop e.1 "?" = o at *
  generalize ABI.ResolvedNode.chop o.1 "[]" = a at *
  refine ⟨chopped "[]" a.2 ++ chopped "?" o.2 ++ chopped "$" e.2, ?_, ?_⟩
  · intro s hs
    rcases List.mem_append.mp hs with hs | hs
    · rcases List.mem_append.mp hs with hs | hs
      · exact suffix_of_chopped .array hs
      · exact suffix_of_chopped .optional hs
    · exact suffix_of_chopped .extension hs
  · rw [hextension, hoptional, harray]
    simp

/-! ## Typedefs -/

theorem mem_of_aliasTarget {abi : ABI} {name target : Str} (h : aliasTarget abi name = some target) :
    ∃ t ∈ abi.types, t.new_type_name = name ∧ t.type = target := by
  obtain ⟨t, ht, rfl⟩ := Option.map_eq_some_iff.mp h
  exact ⟨t, List.mem_of_find?_eq_some ht, by simpa using List.find?_some ht, rfl⟩

section Distinct

variable {abi : ABI} (hdistinct : DistinctNames abi)
include hdistinct

/-- A typedef is found by its name. -/
theorem aliasTarget_of_mem {t : ABI.TypeDef} (h : t ∈ abi.types) :
    aliasTarget abi t.new_type_name = some t.type := by
  have hnodup := (List.nodup_append.mp hdistinct).2.1
  unfold aliasTarget
  have hfind : abi.types.find? (fun other => other.new_type_name = t.new_type_name) = some t := by
    cases hfound : abi.types.find? (fun other => other.new_type_name = t.new_type_name) with
    | none => exact absurd (by simp) (List.find?_eq_none.mp hfound t h)
    | some other =>
      have hname : other.new_type_name = t.new_type_name := by simpa using List.find?_some hfound
      rw [List.inj_on_of_nodup_map hnodup (List.mem_of_find?_eq_some hfound) h hname]
  rw [hfind]
  rfl

omit hdistinct in
theorem mem_of_declared {name : Str} (h : isAbiStructOrVariant abi name = true) :
    name ∈ (collectStructs abi).map StructData.name := by
  unfold isAbiStructOrVariant at h
  rw [Bool.or_eq_true, List.any_eq_true, List.any_eq_true] at h
  unfold collectStructs
  rw [List.map_append, List.map_map, List.map_map, List.mem_append, List.mem_map, List.mem_map]
  rcases h with ⟨s, hs, hname⟩ | ⟨v, hv, hname⟩
  · exact .inr ⟨s, hs, of_decide_eq_true hname⟩
  · exact .inl ⟨v, hv, of_decide_eq_true hname⟩

/-- What is declared is no typedef. -/
theorem aliasTarget_of_declared {name : Str} (h : isAbiStructOrVariant abi name = true) :
    aliasTarget abi name = none := by
  cases halias : aliasTarget abi name with
  | none => rfl
  | some target =>
    obtain ⟨t, ht, hname, -⟩ := mem_of_aliasTarget halias
    have hdisjoint := (List.nodup_append.mp hdistinct).2.2
    exact absurd rfl (hdisjoint name (mem_of_declared h) name (hname ▸ List.mem_map_of_mem ht))

end Distinct

/-! ## What the generator follows -/

section Follow

variable {abi : ABI}

/-- The dependency of a type string is one that it leads to. -/
theorem leads_dependencyName {type : Str} (h : dependencyName abi type ≠ []) :
    isAbiStructOrVariant abi (dependencyName abi type) = true ∧
      Leads abi type (dependencyName abi type) := by
  unfold dependencyName at h ⊢
  simp only at h ⊢
  split_ifs at h ⊢ with hdeclared
  · refine ⟨hdeclared, ?_⟩
    cases halias : aliasTarget abi (parseTypeString type).base with
    | none => exact .name (bears_parseTypeString type)
    | some target =>
      obtain ⟨t, ht, hname, rfl⟩ := mem_of_aliasTarget halias
      refine .typedef ht ?_ (.name (bears_parseTypeString t.type))
      rw [hname]
      exact bears_parseTypeString type
  · exact absurd rfl h

theorem declared_of_findByName {name : Str} {item : StructData}
    (h : findByName (collectStructs abi) name = some item) :
    isAbiStructOrVariant abi name = true := by
  have hname := name_of_findByName h
  unfold isAbiStructOrVariant
  rw [Bool.or_eq_true, List.any_eq_true, List.any_eq_true]
  rcases List.mem_append.mp (mem_of_findByName h) with hmem | hmem
  · obtain ⟨v, hv, rfl⟩ := List.mem_map.mp hmem
    exact .inr ⟨v, hv, decide_eq_true hname⟩
  · obtain ⟨s, hs, rfl⟩ := List.mem_map.mp hmem
    exact .inl ⟨s, hs, decide_eq_true hname⟩

theorem exists_findByName_of_declared {name : Str} (h : isAbiStructOrVariant abi name = true) :
    (findByName (collectStructs abi) name).isSome = true := by
  obtain ⟨item, hitem, rfl⟩ := List.mem_map.mp (mem_of_declared h)
  obtain ⟨found, hfound⟩ := exists_findByName hitem
  exact Option.isSome_iff_exists.mpr ⟨found, hfound⟩

variable (hvalid : Validated abi)
include hvalid

/-- **What is followed** is a dependency. -/
theorem dependsOn_of_follows {item : StructData} {dep : Str}
    (h : dep ∈ follows abi (collectStructs abi) item) : DependsOn abi item dep := by
  obtain ⟨hmem, hfound⟩ := List.mem_filter.mp h
  obtain ⟨found, hfound⟩ := Option.isSome_iff_exists.mp hfound
  refine ⟨declared_of_findByName hfound, ?_⟩
  rcases List.mem_append.mp hmem with hbase | htype
  · refine ⟨dep, List.mem_append_left _ hbase, .name (bears_self ?_)⟩
    exact (safe_of_isSafeAbiName (hvalid.declared (declared_of_findByName hfound))).2
  · obtain ⟨hdep, hne⟩ := List.mem_filter.mp htype
    obtain ⟨type, hstring, rfl⟩ := List.mem_map.mp hdep
    have hne := (of_decide_eq_true hne).1
    exact ⟨type, List.mem_append_right _ hstring, (leads_dependencyName hne).2⟩

theorem safe_typedef {t : ABI.TypeDef} (h : t ∈ abi.types) :
    ∀ c ∈ t.new_type_name, isSafeChar c = true :=
  (safe_of_isSafeAbiName (hvalid.types t h)).2

/-- The name that a type is found by is safe. -/
theorem safe_of_namedType {base : Str} {t : CppType} (h : namedType abi base = .ok t) :
    (isAbiStructOrVariant abi base = true ∨ (builtinType base).isSome = true) ∧
      ∀ c ∈ base, isSafeChar c = true := by
  unfold namedType at h
  split at h
  · rename_i hdeclared
    exact ⟨.inl hdeclared, (safe_of_isSafeAbiName (hvalid.declared hdeclared)).2⟩
  · split at h
    · rename_i hbuiltin
      exact ⟨.inr (by rw [hbuiltin]; rfl), safe_of_builtinType hbuiltin⟩
    · cases h

variable (hdistinct : DistinctNames abi)
include hdistinct

/-- **A type that is mapped** leads to the declaration that is followed, unless it is
shadowed. -/
theorem dependencyName_of_leads {type name : Str} {t : CppType} (htype : cppType abi type = .ok t)
    (hleads : Leads abi type name) (hname : isAbiStructOrVariant abi name = true) :
    dependencyName abi type = name ∨ Shadowed abi type := by
  obtain ⟨inner, hinner, -⟩ := bind_eq_ok.mp htype
  obtain ⟨hknown, hsafe⟩ := safe_of_namedType hvalid hinner
  have hsafeName := (safe_of_isSafeAbiName (hvalid.declared hname)).2
  have hbears := bears_parseTypeString type
  unfold replaceAlias at hknown hsafe
  unfold dependencyName
  cases halias : aliasTarget abi (parseTypeString type).base with
  | none =>
    -- The base is no typedef, so the type string leads to it alone.
    simp only [halias] at hknown hsafe ⊢
    cases hleads with
    | name hb =>
      rw [hbears.unique hb hsafe hsafeName, if_pos hname]
      exact .inl rfl
    | typedef ht hb _ =>
      rw [hbears.unique hb hsafe (safe_typedef hvalid ht), aliasTarget_of_mem hdistinct ht] at halias
      cases halias
  | some target =>
    obtain ⟨alias', halias', hnew, htarget⟩ := mem_of_aliasTarget halias
    have hsafeBase : ∀ c ∈ (parseTypeString type).base, isSafeChar c = true := by
      rw [← hnew]
      exact safe_typedef hvalid halias'
    simp only [halias] at hknown hsafe ⊢
    cases hleads with
    | name hb =>
      have hbase := hbears.unique hb hsafeBase hsafeName
      rw [hbase, aliasTarget_of_declared hdistinct hname] at halias
      cases halias
    | typedef ht hb hrest =>
      have hbase := hbears.unique hb hsafeBase (safe_typedef hvalid ht)
      rw [hbase, aliasTarget_of_mem hdistinct ht] at halias
      cases halias
      cases hrest with
      | name hb' =>
        rw [(bears_parseTypeString _).unique hb' hsafe hsafeName, if_pos hname]
        exact .inl rfl
      | typedef ht' hb' _ =>
        -- A second typedef: its name is mapped as that of a builtin type.
        have hbase' := (bears_parseTypeString _).unique hb' hsafe (safe_typedef hvalid ht')
        have halias'' := aliasTarget_of_mem hdistinct ht'
        rw [← hbase'] at halias''
        rcases hknown with hdeclared | hbuiltin
        · rw [aliasTarget_of_declared hdistinct hdeclared] at halias''
          cases halias''
        · refine .inr ⟨_, ?_, by rw [halias'']; rfl, hbuiltin⟩
          rw [hbase]
          exact aliasTarget_of_mem hdistinct ht

omit hvalid hdistinct in
/-- The types of a declaration that is emitted were mapped. -/
theorem cppType_of_declaration {item : StructData} (hitem : item ∈ collectStructs abi)
    {ps : List Piece} (h : declaration abi item = .ok ps) {type : Str}
    (htype : type ∈ item.typeStrings) : ∃ t, cppType abi type = .ok t := by
  rcases List.mem_append.mp hitem with hmem | hmem
  · obtain ⟨v, -, rfl⟩ := List.mem_map.mp hmem
    have htype : type ∈ v.types := by
      simpa [StructData.typeStrings, StructData.ofVariant] using htype
    obtain ⟨types, htypes, -⟩ := bind_eq_ok.mp h
    obtain ⟨t, -, ht⟩ := exists_of_mapM htypes htype
    exact ⟨t, ht⟩
  · obtain ⟨s, -, rfl⟩ := List.mem_map.mp hmem
    obtain ⟨field, hfield, rfl⟩ : ∃ field ∈ s.fields, field.type = type := by
      simpa [StructData.typeStrings, StructData.ofStruct] using htype
    obtain ⟨members, hmembers, -⟩ := bind_eq_ok.mp h
    obtain ⟨member, -, hmember⟩ := exists_of_mapM hmembers hfield
    unfold fieldDeclaration at hmember
    split at hmember
    · cases hmember
    · obtain ⟨t, ht, -⟩ := bind_eq_ok.mp hmember
      exact ⟨t, ht⟩

/-- **A dependency is followed**, or it is one of those that are not. -/
theorem follows_or_unfollowed {item : StructData} (hitem : item ∈ collectStructs abi)
    {ps : List Piece} (h : declaration abi item = .ok ps) {name : Str} (hne : name ≠ item.name)
    (hdep : DependsOn abi item name) :
    name ∈ follows abi (collectStructs abi) item ∨ Unfollowed abi item name := by
  obtain ⟨hname, type, htype, hleads⟩ := hdep
  have hfound := exists_findByName_of_declared hname
  have hnonempty := (safe_of_isSafeAbiName (hvalid.declared hname)).1
  unfold follows
  rw [List.mem_filter, List.mem_append]
  rcases List.mem_append.mp htype with hbase | hstring
  · by_cases hempty : item.base = []
    · rw [if_pos hempty] at hbase
      cases hbase
    · rw [if_neg hempty] at hbase ⊢
      have hbase : type = item.base := List.mem_singleton.mp hbase
      by_cases hsame : item.base = name
      · exact .inl ⟨.inl (by rw [hsame]; exact List.mem_singleton_self name), hfound⟩
      · exact .inr ⟨hname, .inl ⟨hempty, hsame, hbase ▸ hleads⟩⟩
  · obtain ⟨t, ht⟩ := cppType_of_declaration hitem h hstring
    rcases dependencyName_of_leads hvalid hdistinct ht hleads hname with hfollow | hshadow
    · refine .inl ⟨.inr ?_, hfound⟩
      rw [List.mem_filter, ← hfollow]
      refine ⟨List.mem_map_of_mem hstring, ?_⟩
      rw [hfollow]
      exact decide_eq_true ⟨hnonempty, hne⟩
    · exact .inr ⟨hname, .inr ⟨type, hstring, hshadow, hleads⟩⟩

end Follow

/-! ## The order -/

section Order

variable {abi : ABI}

/-- Under distinct names a declaration is found by its name. -/
theorem findByName_self (hdistinct : DistinctNames abi) {item : StructData}
    (h : item ∈ collectStructs abi) : findByName (collectStructs abi) item.name = some item := by
  have hnodup := (List.nodup_append.mp hdistinct).1
  obtain ⟨found, hfound⟩ := exists_findByName h
  rw [hfound, List.inj_on_of_nodup_map hnodup (mem_of_findByName hfound) h
    (name_of_findByName hfound)]

/-- The names of what is ordered. -/
theorem map_name_filterMap {all : List StructData} {done : List Str}
    (h : ∀ name ∈ done, (findByName all name).isSome = true) :
    (done.filterMap (findByName all)).map StructData.name = done := by
  induction done with
  | nil => rfl
  | cons name done ih =>
    obtain ⟨item, hitem⟩ := Option.isSome_iff_exists.mp (h name List.mem_cons_self)
    rw [List.filterMap_cons, hitem]
    simp only [List.map_cons]
    rw [name_of_findByName hitem, ih (fun n hn => h n (List.mem_cons_of_mem _ hn))]

/-- Under distinct names every struct and every variant is ordered, once each. -/
theorem perm_orderStructs (hdistinct : DistinctNames abi) {ordered : List StructData}
    (hordered : orderStructs abi = some ordered) (hnodup : (ordered.map StructData.name).Nodup) :
    ordered.Perm (collectStructs abi) := by
  have hall := (List.nodup_append.mp hdistinct).1
  rw [List.perm_ext_iff_of_nodup (List.Nodup.of_map _ hnodup) (List.Nodup.of_map _ hall)]
  intro item
  rw [mem_orderStructs abi hordered item]
  constructor
  · exact mem_of_findByName
  · exact findByName_self hdistinct

/-- The graph that is followed has no cycle that the dependencies do not have. -/
theorem acyclic_next (hvalid : Validated abi) (hacyclic : AcyclicDependencies abi) :
    Acyclic (next abi (collectStructs abi)) := by
  intro name hcycle
  have hedge : ∀ a b, b ∈ next abi (collectStructs abi) a →
      ∃ item ∈ collectStructs abi, item.name = a ∧ DependsOn abi item b := by
    intro a b hb
    obtain ⟨item, hitem, hname, hdep⟩ := mem_next abi _ hb
    exact ⟨item, hitem, hname, dependsOn_of_follows hvalid hdep⟩
  exact hacyclic name (Relation.TransGen.mono hedge _ _ hcycle)

/-- **The order of the header.**  The ordering ends for every ABI.  In a header of an ABI
with distinct names and without cycles every struct and every variant is declared once, and
each after all that it depends on exactly when the dependencies that are not followed are
all met before it by the walk that lists it. -/
theorem declared_order_iff (abi : ABI) :
    (∃ ordered, orderStructs abi = some ordered) ∧
    ∀ {contractName namespaceName : Str} {out : List Piece},
      run abi contractName namespaceName = .ok out → DistinctNames abi →
      AcyclicDependencies abi →
      ∃ ordered declarations, ordered.mapM (declaration abi) = .ok declarations ∧
        out = prologue abi contractName (namespaceOf contractName namespaceName) ++
          declarations.flatten ++
          epilogue abi contractName (namespaceOf contractName namespaceName) ∧
        ordered.Perm (collectStructs abi) ∧
        ((∀ front item back, ordered = front ++ item :: back → ∀ name, DependsOn abi item name →
            ∃ dep ∈ front, dep.name = name) ↔
          ∀ item ∈ collectStructs abi, ∀ name, Unfollowed abi item name →
            Before (next abi (collectStructs abi)) ((collectStructs abi).map StructData.name)
              name item.name) := by
  refine ⟨exists_orderStructs abi, ?_⟩
  intro contractName namespaceName out h hdistinct hacyclic
  obtain ⟨hvalid, ordered, declarations, hordered, hdeclarations, hout⟩ := run_eq_ok h
  obtain ⟨done, hdone, hlist⟩ := Option.map_eq_some_iff.mp ((orderStructs_eq abi).symm.trans hordered)
  have hmem := mem_of_visitAll (fun _ _ _ hb => declared_of_mem_next abi _ hb) hdone
  have hnames : ordered.map StructData.name = done := by
    rw [← hlist]
    refine map_name_filterMap ?_
    intro name hname
    obtain ⟨item, hitem, rfl⟩ := List.mem_map.mp ((hmem name).mp hname)
    obtain ⟨found, hfound⟩ := exists_findByName hitem
    exact Option.isSome_iff_exists.mpr ⟨found, hfound⟩
  have hnodup : (ordered.map StructData.name).Nodup := by
    rw [hnames]
    exact nodup_of_visitAll hdone
  have hperm := perm_orderStructs hdistinct hordered hnodup
  have hsorted := sorted_of_visitAll (acyclic_next hvalid hacyclic) hdone
  refine ⟨ordered, declarations, hdeclarations, hout, hperm, ?_⟩
  -- What stands before an item, by names.
  have hfront : ∀ front item back, ordered = front ++ item :: back → ∀ name,
      (∃ dep ∈ front, dep.name = name) ↔ Listed done name item.name := by
    intro front item back hsplit name
    have hdone' : done = front.map StructData.name ++ item.name :: back.map StructData.name := by
      rw [← hnames, hsplit, List.map_append, List.map_cons]
    rw [hsplit, List.map_append, List.map_cons] at hnodup
    obtain ⟨-, hback, hdisjoint⟩ := List.nodup_append.mp hnodup
    rw [hdone', listed_iff (fun hin => hdisjoint _ hin _ List.mem_cons_self rfl)
      (List.nodup_cons.mp hback).1, List.mem_map]
  have hbefore : ∀ item ∈ collectStructs abi, ∀ name, Listed done name item.name ↔
      Before (next abi (collectStructs abi)) ((collectStructs abi).map StructData.name)
        name item.name := by
    intro item hitem name
    refine listed_visitAll_iff (acyclic_next hvalid hacyclic) hdone ?_
    exact (hmem item.name).mpr (List.mem_map_of_mem hitem)
  constructor
  · intro horder item hitem name hunfollowed
    obtain ⟨hname, hway⟩ := hunfollowed
    have hdep : DependsOn abi item name := by
      refine ⟨hname, ?_⟩
      rcases hway with ⟨hbase, -, hleads⟩ | ⟨type, htype, -, hleads⟩
      · refine ⟨item.base, List.mem_append_left _ ?_, hleads⟩
        rw [if_neg hbase]
        exact List.mem_singleton_self _
      · exact ⟨type, List.mem_append_right _ htype, hleads⟩
    obtain ⟨front, back, hsplit⟩ := List.append_of_mem (hperm.mem_iff.mpr hitem)
    rw [← hbefore item hitem, ← hfront front item back hsplit]
    exact horder front item back hsplit name hdep
  · intro hunfollowed front item back hsplit name hdep
    have hitem : item ∈ ordered := by simp [hsplit]
    have hcollected := hperm.mem_iff.mp hitem
    obtain ⟨ps, -, hps⟩ := exists_of_mapM hdeclarations hitem
    have hne : name ≠ item.name := by
      rintro rfl
      exact hacyclic item.name (.single ⟨item, hcollected, rfl, hdep⟩)
    rw [hfront front item back hsplit]
    rcases follows_or_unfollowed hvalid hdistinct hcollected hps hne hdep with hfollow | hun
    · have hnext : name ∈ next abi (collectStructs abi) item.name := by
        unfold next
        rw [findByName_self hdistinct hcollected]
        exact hfollow
      refine ⟨front.map StructData.name, back.map StructData.name, ?_, ?_⟩
      · rw [← hnames, hsplit, List.map_append, List.map_cons]
      · refine hsorted _ item.name (back.map StructData.name) ?_ name hnext
        rw [← hnames, hsplit, List.map_append, List.map_cons]
    · exact (hbefore item hcollected name).mpr (hunfollowed item hcollected name hun)

/-- A safe type string leads to itself, or it is the name of a typedef. -/
theorem leads_cases (hvalid : Validated abi) {type name : Str}
    (hsafe : ∀ c ∈ type, isSafeChar c = true) (hname : isAbiStructOrVariant abi name = true)
    (h : Leads abi type name) :
    name = type ∨ ∃ t ∈ abi.types, t.new_type_name = type ∧ Leads abi t.type name := by
  have hsafeName := (safe_of_isSafeAbiName (hvalid.declared hname)).2
  cases h with
  | name hb => exact .inl (hb.unique (bears_self hsafe) hsafeName hsafe)
  | typedef ht hb hrest =>
    exact .inr ⟨_, ht, hb.unique (bears_self hsafe) (safe_typedef hvalid ht) hsafe, hrest⟩

/-- Where only one declaration depends on only one other there is no cycle. -/
theorem acyclic_of_edge {a b : Str} (hne : a ≠ b)
    (h : ∀ item ∈ collectStructs abi, ∀ name, DependsOn abi item name → item.name = a ∧ name = b) :
    AcyclicDependencies abi := by
  intro name hcycle
  obtain ⟨next, hfirst, -⟩ := Relation.TransGen.head'_iff.mp hcycle
  obtain ⟨last, -, hlast⟩ := Relation.TransGen.tail'_iff.mp hcycle
  obtain ⟨item, hitem, hname, hdep⟩ := hfirst
  obtain ⟨item', hitem', -, hdep'⟩ := hlast
  exact hne ((h item hitem next hdep).1.symm.trans (hname.trans (h item' hitem' name hdep').2))

/-- The base of a struct is declared first. -/
theorem declared_order_derivedAbi :
    ∃ out, run derivedAbi "eosio" [] = .ok out ∧ DistinctNames derivedAbi ∧
      AcyclicDependencies derivedAbi ∧ ∃ ordered declarations,
        ordered.mapM (declaration derivedAbi) = .ok declarations ∧
        out = prologue derivedAbi "eosio" (namespaceOf "eosio" []) ++ declarations.flatten ++
          epilogue derivedAbi "eosio" (namespaceOf "eosio" []) ∧
        ordered.Perm (collectStructs derivedAbi) ∧
        ((∀ front item back, ordered = front ++ item :: back → ∀ name,
            DependsOn derivedAbi item name → ∃ dep ∈ front, dep.name = name) ↔
          ∀ item ∈ collectStructs derivedAbi, ∀ name, Unfollowed derivedAbi item name →
            Before (next derivedAbi (collectStructs derivedAbi))
              ((collectStructs derivedAbi).map StructData.name) name item.name) := by
  have hsome : (run derivedAbi "eosio" []).toOption.isSome = true := by decide +kernel
  have hdistinct : DistinctNames derivedAbi := by
    unfold DistinctNames
    decide +kernel
  cases hout : run derivedAbi "eosio" [] with
  | error e =>
    rw [hout] at hsome
    cases hsome
  | ok out =>
    have hvalid := (run_eq_ok hout).1
    -- Only the base makes an edge: the types of the fields are builtins.
    have hacyclic : AcyclicDependencies derivedAbi := by
      refine acyclic_of_edge (a := lit "a") (b := lit "b") (by decide) ?_
      rintro item hitem name ⟨hname, type, htype, hleads⟩
      have hnone : derivedAbi.types = [] := rfl
      have hsafe : ∀ c ∈ type, isSafeChar c = true := by
        have hall : (collectStructs derivedAbi).all
            (fun item => item.texts.all (fun type => type.all isSafeChar)) = true := by
          decide +kernel
        exact List.all_eq_true.mp (List.all_eq_true.mp (List.all_eq_true.mp hall item hitem)
          type htype)
      rcases leads_cases hvalid hsafe hname hleads with rfl | ⟨t, ht, -⟩
      · have hall : (collectStructs derivedAbi).all (fun item => item.texts.all (fun type =>
            !isAbiStructOrVariant derivedAbi type || (item.name = "a" && type = "b"))) = true := by
          decide +kernel
        have hpair := List.all_eq_true.mp (List.all_eq_true.mp hall item hitem) name htype
        simpa [hname] using hpair
      · rw [hnone] at ht
        cases ht
    exact ⟨out, rfl, hdistinct, hacyclic, (declared_order_iff derivedAbi).2 hout hdistinct hacyclic⟩

/-- A struct whose base is named through a typedef. -/
def aliasedAbi : ABI where
  types := [{ new_type_name := "c", type := "b" }]
  structs := [{ name := "a", base := "c", fields := [] }, { name := "b", base := [], fields := [] }]

/-- The struct is declared before its base. -/
theorem base_declared_late :
    ∃ out, run aliasedAbi "eosio" [] = .ok out ∧ DistinctNames aliasedAbi ∧
      AcyclicDependencies aliasedAbi ∧
      orderStructs aliasedAbi =
        some [{ name := "a", base := "c" }, { name := "b" }] ∧
      ¬ ∀ front item back,
        [{ name := "a", base := "c" }, { name := "b" }] = front ++ item :: back → ∀ name,
          DependsOn aliasedAbi item name → ∃ dep ∈ front, dep.name = name := by
  have hsome : (run aliasedAbi "eosio" []).toOption.isSome = true := by decide +kernel
  have hdistinct : DistinctNames aliasedAbi := by
    unfold DistinctNames
    decide +kernel
  -- The base is an alias, which the order does not look through.
  have hdep : DependsOn aliasedAbi { name := "a", base := "c" } "b" := by
    refine ⟨by decide +kernel, lit "c", by decide +kernel, ?_⟩
    have hb : Leads aliasedAbi (lit "b") (lit "b") := .name (bears_self (by decide +kernel))
    exact .typedef (t := ⟨lit "c", lit "b"⟩) (by decide +kernel) (bears_self (by decide +kernel)) hb
  cases hout : run aliasedAbi "eosio" [] with
  | error e =>
    rw [hout] at hsome
    cases hsome
  | ok out =>
    have hvalid := (run_eq_ok hout).1
    have hacyclic : AcyclicDependencies aliasedAbi := by
      refine acyclic_of_edge (a := lit "a") (b := lit "b") (by decide) ?_
      rintro item hitem name ⟨hname, type, htype, hleads⟩
      have htexts : (collectStructs aliasedAbi).all (fun item => item.texts.all (fun type =>
          item.name = "a" && type = "c")) = true := by decide +kernel
      have hpair := List.all_eq_true.mp (List.all_eq_true.mp htexts item hitem) type htype
      rw [Bool.and_eq_true, decide_eq_true_eq, decide_eq_true_eq] at hpair
      obtain ⟨hitemName, rfl⟩ := hpair
      refine ⟨hitemName, ?_⟩
      have hdeclared : ∀ text : Str, text = "c" → isAbiStructOrVariant aliasedAbi text = false := by
        rintro text rfl
        decide +kernel
      have htypedef : ∀ t ∈ aliasedAbi.types, t.new_type_name = lit "c" ∧ t.type = lit "b" := by
        intro t ht
        rw [List.mem_singleton.mp ht]
        exact ⟨rfl, rfl⟩
      rcases leads_cases hvalid (by decide +kernel) hname hleads with heq | ⟨t, ht, -, hrest⟩
      · rw [hdeclared name heq] at hname
        cases hname
      · rw [(htypedef t ht).2] at hrest
        rcases leads_cases hvalid (by decide +kernel) hname hrest with heq | ⟨t', ht', hnew, -⟩
        · exact heq
        · rw [(htypedef t' ht').1] at hnew
          exact absurd hnew (by decide)
    refine ⟨out, rfl, hdistinct, hacyclic, by decide +kernel, ?_⟩
    intro horder
    obtain ⟨dep, hfront, -⟩ := horder [] _ _ rfl "b" hdep
    cases hfront

end Order

end Dkgen

end Dwarfkit
