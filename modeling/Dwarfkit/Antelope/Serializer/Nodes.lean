/-
# The nodes of a synthesized ABI

`ABI::resolve` over an ABI that `Serializer::synthesize` made: every node it makes stands
for a type of the program, and points to the nodes of the types that one is made of.

* `parse_typeName` : a type name is parsed back into its containers;
* `resolve_reflects` : one call of `resolve`;
* `resolveType_reflects` : the whole resolution, where no chain of types is longer than its
  depth limit.
-/
import Dwarfkit.Antelope.Serializer.Synthesize
import Dwarfkit.Antelope.Chain.TypeNames

namespace Dwarfkit

open Wire

namespace DkTypes

variable {types : DkTypes}

theorem plainName_refName (h : types.NamesFit) (r : DkRef types.count) :
    PlainName (types.refName r) := by
  cases r with
  | builtin abiName =>
    have hcheck : builtinNames.all (fun name => name ≠ [] &&
        name.all (fun c => c ≠ 36 && c ≠ 63 && c ≠ 93)) = true := by decide +kernel
    have hname := List.all_eq_true.mp hcheck _ abiName.property
    simp only [Bool.and_eq_true, decide_eq_true_eq, List.all_eq_true] at hname
    refine ⟨hname.1, fun c hc => ?_⟩
    obtain ⟨⟨h36, h63⟩, h93⟩ := hname.2 c (List.mem_of_getLast? hc)
    exact ⟨h36, h63, h93⟩
  | declared i => exact h.plain i

/-- The node a type's name is parsed into. -/
def parsed (types : DkTypes) (t : DkType types.count) : ABI.ResolvedNode where
  name := types.refName t.type
  isExtension := t.isExtension
  isOptional := t.isOptional
  isArray := t.isArray

/-- **A type name is parsed back into its containers.** -/
theorem parse_typeName (h : types.NamesFit) (t : DkType types.count) :
    ABI.ResolvedNode.parse (types.typeName t) = types.parsed t := by
  obtain ⟨-, hplain⟩ := plainName_refName h t.type
  obtain ⟨type, isArray, isOptional, isExtension⟩ := t
  simp only at hplain
  -- the name with its array suffix, and what it ends in
  obtain ⟨array, harrayName⟩ : ∃ array,
      array = types.refName type ++ (if isArray then lit "[]" else []) := ⟨_, rfl⟩
  have harray : ∀ c ∈ array.getLast?, c ≠ 36 ∧ c ≠ 63 := by
    intro c hc
    cases isArray with
    | true =>
      rw [harrayName, if_pos rfl, List.getLast?_append_of_ne_nil _ (by decide)] at hc
      cases hc
      decide
    | false =>
      rw [harrayName, if_neg Bool.false_ne_true, List.append_nil] at hc
      exact ⟨(hplain c hc).1, (hplain c hc).2.1⟩
  obtain ⟨hfirst, hsecond⟩ := ABI.ResolvedNode.chop_suffixes isOptional isExtension harray
  have hthird : ABI.ResolvedNode.chop array "[]" = (types.refName type, isArray) := by
    rw [harrayName]
    cases isArray with
    | true => exact ABI.ResolvedNode.chop_append _ _
    | false =>
      rw [if_neg Bool.false_ne_true, List.append_nil]
      exact ABI.ResolvedNode.chop_of_getLast (d := 93) (by decide) (fun c hc => (hplain c hc).2.2)
  have hsize := ABI.ResolvedNode.fixedSize_of_getLast (fun c hc => (hplain c hc).2.2)
  have hname : types.typeName ⟨type, isArray, isOptional, isExtension⟩ =
      array ++ ABI.ResolvedNode.suffixes isOptional isExtension := by
    rw [harrayName]
    unfold ABI.ResolvedNode.suffixes
    rw [← List.append_assoc]
    rfl
  rw [hname]
  unfold ABI.ResolvedNode.parse
  simp only [hfirst, hsecond, hthird, hsize]
  rfl

/-- The type name of that node. -/
theorem typeName_parsed (t : DkType types.count) : (types.parsed t).typeName = types.typeName t :=
  rfl

/-- Type names tell types apart. -/
theorem typeName_injective (h : types.NamesFit) : Function.Injective types.typeName := by
  intro t t' heq
  have hparsed : types.parsed t = types.parsed t' := by
    rw [← parse_typeName h, ← parse_typeName h, heq]
  have hname : types.refName t.type = types.refName t'.type :=
    congrArg ABI.ResolvedNode.name hparsed
  have htype : t.type = t'.type := by
    cases ht : t.type with
    | builtin b =>
      cases ht' : t'.type with
      | builtin b' =>
        rw [ht, ht'] at hname
        rw [Subtype.ext hname]
      | declared i =>
        rw [ht, ht'] at hname
        -- A declared type never has a builtin's name.
        have hmem : types.refName (.declared i) ∈ builtinNames := hname ▸ b.property
        exact absurd hmem (h.notBuiltin i)
    | declared i =>
      cases ht' : t'.type with
      | builtin b' =>
        rw [ht, ht'] at hname
        have hmem : types.refName (.declared i) ∈ builtinNames := hname ▸ b'.property
        exact absurd hmem (h.notBuiltin i)
      | declared j =>
        rw [ht, ht'] at hname
        rw [h.injective hname]
  have harray := congrArg ABI.ResolvedNode.isArray hparsed
  have hoptional := congrArg ABI.ResolvedNode.isOptional hparsed
  have hextension := congrArg ABI.ResolvedNode.isExtension hparsed
  obtain ⟨type, isArray, isOptional, isExtension⟩ := t
  obtain ⟨type', isArray', isOptional', isExtension'⟩ := t'
  simp only at htype
  subst htype
  cases harray
  cases hoptional
  cases hextension
  rfl

/-! ## Lookups -/

end DkTypes

/-- The name an entry gives a meaning to. -/
def AbiEntry.name : AbiEntry → Str
  | .struct entry => entry.name
  | .variant entry => entry.name
  | .type entry => entry.new_type_name

namespace DkTypes

variable {types : DkTypes}

@[simp]
theorem name_entry (i : Fin types.count) : (types.entry i).name = types.abiName i := by
  unfold entry
  cases types.decl i with
  | struct base fields => cases base <;> rfl
  | variant alternatives => rfl
  | typeAlias aliased => rfl

section Lookups

variable {abi : ABI} {known : Fin types.count → Prop}

/-- The entry under a declared name is that type's. -/
theorem Defines.eq_entry (h : types.Defines abi known) (hinj : Function.Injective types.abiName)
    {e : AbiEntry} (he : e ∈ abi.entries) {i : Fin types.count} (hname : e.name = types.abiName i) :
    e = types.entry i := by
  obtain ⟨j, rfl⟩ := h.sound e he
  rw [name_entry] at hname
  rw [hinj hname]

variable {α : Type} {l : List α} {make : α → AbiEntry} {key : α → Str}

/-- A list of entries of one kind has the entry of a known type of that kind. -/
theorem Defines.find_some (h : types.Defines abi known) (hinj : Function.Injective types.abiName)
    (hmem : ∀ x, make x ∈ abi.entries ↔ x ∈ l) (hkey : ∀ x, (make x).name = key x)
    (hmake : Function.Injective make) {i : Fin types.count} (hi : known i) {x : α}
    (hx : types.entry i = make x) : l.find? (fun e => key e = types.abiName i) = some x := by
  have hname : key x = types.abiName i := by rw [← hkey, ← hx, name_entry]
  rw [← hname]
  refine find?_of_unique ((hmem x).mp (hx ▸ h.entry i hi)) ?_
  intro e he hsame
  apply hmake
  rw [← hx]
  exact h.eq_entry hinj ((hmem e).mpr he) (by rw [hkey, hsame, hname])

/-- A list of entries of another kind has none. -/
theorem Defines.find_none (h : types.Defines abi known) (hinj : Function.Injective types.abiName)
    (hmem : ∀ x, make x ∈ abi.entries ↔ x ∈ l) (hkey : ∀ x, (make x).name = key x)
    {i : Fin types.count} (hne : ∀ x, types.entry i ≠ make x) :
    l.find? (fun e => key e = types.abiName i) = none := by
  rw [List.find?_eq_none]
  intro e he hname
  have hname : key e = types.abiName i := by simpa using hname
  exact hne e (h.eq_entry hinj ((hmem e).mpr he) (by rw [hkey, hname])).symm

theorem mem_structs (x : ABI.Struct) : AbiEntry.struct x ∈ abi.entries ↔ x ∈ abi.structs := by
  simp [ABI.entries]

theorem mem_variants (x : ABI.Variant) : AbiEntry.variant x ∈ abi.entries ↔ x ∈ abi.variants := by
  simp [ABI.entries]

theorem mem_types (x : ABI.TypeDef) : AbiEntry.type x ∈ abi.entries ↔ x ∈ abi.types := by
  simp [ABI.entries]

/-- What the ABI says about the name of a known type. -/
theorem Defines.lookup (h : types.Defines abi known) (hinj : Function.Injective types.abiName)
    {i : Fin types.count} (hi : known i) :
    match types.decl i with
    | .struct base fields =>
      abi.types.find? (fun e => e.new_type_name = types.abiName i) = none ∧
      abi.getStruct (types.abiName i) = some ⟨types.abiName i, base.elim [] types.abiName,
        fields.map (fun f => (⟨f.1, types.typeName f.2⟩ : ABI.Field))⟩
    | .variant alternatives =>
      abi.types.find? (fun e => e.new_type_name = types.abiName i) = none ∧
      abi.getStruct (types.abiName i) = none ∧
      abi.getVariant (types.abiName i) = some ⟨types.abiName i, alternatives.map types.typeName⟩
    | .typeAlias aliased =>
      abi.types.find? (fun e => e.new_type_name = types.abiName i) =
        some ⟨types.abiName i, types.typeName aliased⟩ := by
  -- The resolver looks for an alias first, then a struct: those of other kinds are not found.
  cases hdecl : types.decl i with
  | struct base fields =>
    have hentry := entry_struct hdecl
    refine ⟨h.find_none hinj mem_types (fun _ => rfl) ?_, ?_⟩
    · intro x hx
      rw [hentry] at hx
      cases hx
    · exact h.find_some hinj mem_structs (fun _ => rfl) (fun _ _ h => by cases h; rfl) hi hentry
  | variant alternatives =>
    have hentry : types.entry i = .variant ⟨types.abiName i, alternatives.map types.typeName⟩ := by
      unfold DkTypes.entry
      rw [hdecl]
    refine ⟨h.find_none hinj mem_types (fun _ => rfl) ?_,
      h.find_none hinj mem_structs (fun _ => rfl) ?_, ?_⟩
    · intro x hx
      rw [hentry] at hx
      cases hx
    · intro x hx
      rw [hentry] at hx
      cases hx
    · exact h.find_some hinj mem_variants (fun _ => rfl) (fun _ _ h => by cases h; rfl) hi hentry
  | typeAlias aliased =>
    have hentry : types.entry i = .type ⟨types.abiName i, types.typeName aliased⟩ := by
      unfold DkTypes.entry
      rw [hdecl]
    exact h.find_some hinj mem_types (fun _ => rfl) (fun _ _ h => by cases h; rfl) hi hentry

/-- It says nothing about a builtin's name. -/
theorem Defines.lookup_builtin (h : types.Defines abi known) (hnames : types.NamesFit) {name : Str}
    (hname : name ∈ builtinNames) :
    abi.types.find? (fun e => e.new_type_name = name) = none ∧ abi.getStruct name = none ∧
      abi.getVariant name = none := by
  have hnone : ∀ e ∈ abi.entries, e.name ≠ name := by
    rintro e he rfl
    obtain ⟨i, rfl⟩ := h.sound e he
    rw [name_entry] at hname
    exact hnames.notBuiltin i hname
  refine ⟨?_, ?_, ?_⟩
  · rw [List.find?_eq_none]
    intro e he heq
    have hsame : e.new_type_name = name := by simpa using heq
    exact hnone _ ((mem_types e).mpr he) hsame
  · unfold ABI.getStruct
    rw [List.find?_eq_none]
    intro e he heq
    have hsame : e.name = name := by simpa using heq
    exact hnone _ ((mem_structs e).mpr he) hsame
  · unfold ABI.getVariant
    rw [List.find?_eq_none]
    intro e he heq
    have hsame : e.name = name := by simpa using heq
    exact hnone _ ((mem_variants e).mpr he) hsame

end Lookups

/-! ## Nodes -/

/-- The types a type is made of, in the order `resolve` goes on to them. -/
def parts (types : DkTypes) (t : DkType types.count) : List (DkType types.count) :=
  match t.type with
  | .builtin _ => []
  | .declared i =>
    match types.decl i with
    | .struct base fields => base.toList.map types.plain ++ fields.map Prod.snd
    | .variant alternatives => alternatives
    | .typeAlias aliased => [aliased]

/-- A chain of different types, innermost first, each a part of the one behind it. -/
inductive Chain (types : DkTypes) (root : DkType types.count) : List (DkType types.count) → Prop
  | root : Chain types root [root]
  | part {t s : DkType types.count} {outer : List (DkType types.count)} :
    Chain types root (t :: outer) → s ∈ types.parts t → s ∉ t :: outer →
      Chain types root (s :: t :: outer)

/-- No chain is longer than the depth limit of `resolve`. -/
def Shallow (types : DkTypes) (root : DkType types.count) : Prop :=
  ∀ chain, types.Chain root chain → chain.length ≤ ABI.maxResolveDepth

section Nodes

variable (types)

/-- The node at `k` is that of the type at `k`. -/
def PointsTo (tys : List (DkType types.count)) (k : ℕ) (t : DkType types.count) : Prop :=
  tys[k]? = some t

/-- What a complete node of a type holds: the containers from its name, and pointers to the
nodes of its parts. -/
def Complete (tys : List (DkType types.count)) (t : DkType types.count)
    (node : ABI.ResolvedNode) : Prop :=
  match t.type with
  | .builtin _ => node = types.parsed t
  | .declared i =>
    match types.decl i with
    | .struct base fields =>
      ∃ base' fields', node = { types.parsed t with base := base', fields := some fields' } ∧
        Option.Rel (fun b k => PointsTo types tys k (types.plain b)) base base' ∧
        List.Forall₂ (fun f f' => f'.1 = f.1 ∧ PointsTo types tys f'.2 f.2) fields fields'
    | .variant alternatives =>
      ∃ variant, node = { types.parsed t with variant := some variant } ∧
        List.Forall₂ (fun t k => PointsTo types tys k t) alternatives variant
    | .typeAlias aliased =>
      ∃ ref, node = { types.parsed t with ref := some ref } ∧ PointsTo types tys ref aliased

/-- The context knows the nodes of `tys` by their names. -/
structure Knows (ctx : ABI.ResolveContext) (tys : List (DkType types.count)) : Prop where
  length : ctx.arena.length = tys.length
  find : ∀ t k, ctx.find (types.typeName t) = some k ↔ PointsTo types tys k t

/-- From `ctx` on to `ctx'`: what was there is untouched, and what is new is complete. -/
structure Reaches (ctx : ABI.ResolveContext) (tys : List (DkType types.count))
    (ctx' : ABI.ResolveContext) (tys' : List (DkType types.count)) : Prop where
  extends_ : ∃ new, tys' = tys ++ new
  knows : Knows types ctx' tys'
  kept : ∀ k < tys.length, ctx'.arena.node k = ctx.arena.node k
  complete : ∀ k t, tys.length ≤ k → PointsTo types tys' k t →
    Complete types tys' t (ctx'.arena.node k)

end Nodes

section Reaches

variable {tys tys' tys'' : List (DkType types.count)} {ctx ctx' ctx'' : ABI.ResolveContext}

theorem PointsTo.append {k : ℕ} {t : DkType types.count} (h : PointsTo types tys k t)
    (new : List (DkType types.count)) : PointsTo types (tys ++ new) k t := by
  have hlt : k < tys.length := (List.getElem?_eq_some_iff.mp h).1
  unfold PointsTo
  rw [List.getElem?_append_left hlt]
  exact h

theorem PointsTo.lt {k : ℕ} {t : DkType types.count} (h : PointsTo types tys k t) :
    k < tys.length := (List.getElem?_eq_some_iff.mp h).1

/-- Related options stay related when the relation grows. -/
theorem rel_imp {α β : Type} {R S : α → β → Prop} (h : ∀ a b, R a b → S a b) {a : Option α}
    {b : Option β} (hab : Option.Rel R a b) : Option.Rel S a b := by
  cases hab with
  | none => exact .none
  | some hR => exact .some (h _ _ hR)

/-- A complete node stays complete. -/
theorem Complete.append {t : DkType types.count} {node : ABI.ResolvedNode}
    (h : Complete types tys t node) (new : List (DkType types.count)) :
    Complete types (tys ++ new) t node := by
  unfold Complete at h ⊢
  split
  · rename_i hbuiltin
    rw [hbuiltin] at h
    exact h
  · rename_i i hdeclared
    rw [hdeclared] at h
    simp only at h
    split
    · rename_i base fields hdecl
      rw [hdecl] at h
      obtain ⟨base', fields', hnode, hbase, hfields⟩ := h
      exact ⟨base', fields', hnode, rel_imp (fun _ _ hb => hb.append new) hbase,
        hfields.imp (fun _ _ hf => ⟨hf.1, hf.2.append new⟩)⟩
    · rename_i alternatives hdecl
      rw [hdecl] at h
      obtain ⟨variant, hnode, hvariant⟩ := h
      exact ⟨variant, hnode, hvariant.imp (fun _ _ hf => hf.append new)⟩
    · rename_i aliased hdecl
      rw [hdecl] at h
      obtain ⟨ref, hnode, href⟩ := h
      exact ⟨ref, hnode, href.append new⟩

theorem Reaches.refl (h : Knows types ctx tys) : Reaches types ctx tys ctx tys where
  extends_ := ⟨[], (List.append_nil _).symm⟩
  knows := h
  kept _ _ := rfl
  complete _ _ hk ht := absurd ht.lt (not_lt.mpr hk)

theorem Reaches.trans (h : Reaches types ctx tys ctx' tys')
    (h' : Reaches types ctx' tys' ctx'' tys'') : Reaches types ctx tys ctx'' tys'' := by
  obtain ⟨new, hnew⟩ := h.extends_
  obtain ⟨new', hnew'⟩ := h'.extends_
  have hle : tys.length ≤ tys'.length := by
    rw [hnew, List.length_append]
    omega
  refine ⟨⟨new ++ new', by rw [hnew', hnew, List.append_assoc]⟩, h'.knows, ?_, ?_⟩
  · intro k hk
    rw [h'.kept k (by omega), h.kept k hk]
  · intro k t hk ht
    by_cases hmid : k < tys'.length
    · have ht' : PointsTo types tys' k t := by
        unfold PointsTo at ht
        rw [hnew', List.getElem?_append_left hmid] at ht
        exact ht
      rw [h'.kept k hmid, hnew']
      exact (h.complete k t hk ht').append new'
    · exact h'.complete k t (not_lt.mp hmid) ht

theorem Reaches.pointsTo (h : Reaches types ctx tys ctx' tys') {k : ℕ} {t : DkType types.count}
    (ht : PointsTo types tys k t) : PointsTo types tys' k t := by
  obtain ⟨new, rfl⟩ := h.extends_
  exact ht.append new

theorem Reaches.mem (h : Reaches types ctx tys ctx' tys') {t : DkType types.count} (ht : t ∈ tys) :
    t ∈ tys' := by
  obtain ⟨new, rfl⟩ := h.extends_
  exact List.mem_append_left new ht

/-- A type that the context does not know is not found. -/
theorem Knows.find_eq_none (h : Knows types ctx tys) {t : DkType types.count} (ht : t ∉ tys) :
    ctx.find (types.typeName t) = none := by
  rw [Option.eq_none_iff_forall_not_mem]
  intro k hk
  exact ht (List.mem_of_getElem? ((h.find t k).mp hk))

/-- A new node, known by its name. -/
theorem Knows.push (h : Knows types ctx tys) (hnames : types.NamesFit) {t : DkType types.count}
    (ht : t ∉ tys) : Knows types (ctx.push (types.parsed t)) (tys ++ [t]) := by
  refine ⟨?_, ?_⟩
  · show (ctx.arena ++ [types.parsed t]).length = _
    rw [List.length_append, List.length_append, h.length]
    rfl
  · intro s k
    have hname : types.typeName t = types.typeName s ↔ t = s :=
      (typeName_injective hnames).eq_iff
    unfold PointsTo
    rw [ABI.find_push, typeName_parsed, ABI.getElem?_concat_iff ht]
    by_cases hs : t = s
    · simp [hs, h.length]
    · simp only [hname, hs, if_false, false_and, false_or, not_false_eq_true, true_and, ne_eq]
      exact h.find s k

/-- **A node is completed** once its parts are resolved: from before its push to after its
update. -/
theorem Reaches.complete_new (h : Knows types ctx tys) {t : DkType types.count}
    (hparts : Reaches types (ctx.push (types.parsed t)) (tys ++ [t]) ctx' tys')
    {f : ABI.ResolvedNode → ABI.ResolvedNode}
    (hcomplete : Complete types tys' t (f (types.parsed t))) :
    Reaches types ctx tys (ctx'.update tys.length f) tys' := by
  obtain ⟨new, hnew⟩ := hparts.extends_
  have hlen : tys.length < ctx'.arena.length := by
    rw [hparts.knows.length, hnew]
    simp only [List.length_append, List.length_singleton]
    omega
  refine ⟨⟨[t] ++ new, by rw [hnew, List.append_assoc]⟩, ⟨?_, hparts.knows.find⟩, ?_, ?_⟩
  · show (ctx'.arena.modify tys.length f).length = _
    rw [List.length_modify, hparts.knows.length]
  · intro k hk
    rw [ABI.node_update_of_ne ctx' (by omega), hparts.kept k (by simp; omega), ABI.node_push_of_lt _ (by rw [h.length]; exact hk)]
  · intro k s hk hs
    by_cases hnode : k = tys.length
    · subst hnode
      have hst : s = t := by
        have ht : PointsTo types tys' tys.length t := by
          unfold PointsTo
          rw [hnew, List.getElem?_append_left (by simp), List.getElem?_append_right le_rfl,
            Nat.sub_self]
          rfl
        exact Option.some.inj (hs.symm.trans ht)
      rw [hst, ABI.node_update hlen, hparts.kept tys.length (by simp), ABI.node_push h.length _]
      exact hcomplete
    · rw [ABI.node_update_of_ne ctx' hnode]
      exact hparts.complete k s (by simp; omega) hs

end Reaches

/-! ## Resolution -/

section Resolve

variable {abi : ABI} {known : Fin types.count → Prop} {root : DkType types.count}
  {tys : List (DkType types.count)} {ctx : ABI.ResolveContext}

/-- A list is resolved one by one; `outer` are types the context knows. -/
theorem mapM_reaches {β γ : Type} {f : β → StateM ABI.ResolveContext γ}
    {R : List (DkType types.count) → β → γ → Prop} {outer : List (DkType types.count)}
    (happend : ∀ tys b c new, R tys b c → R (tys ++ new) b c) {l : List β}
    (hf : ∀ b ∈ l, ∀ ctx tys, Knows types ctx tys → (∀ s ∈ outer, s ∈ tys) →
      ∃ tys', Reaches types ctx tys ((f b).run ctx).2 tys' ∧ R tys' b ((f b).run ctx).1)
    (hknows : Knows types ctx tys) (houter : ∀ s ∈ outer, s ∈ tys) :
    ∃ tys', Reaches types ctx tys ((l.mapM f).run ctx).2 tys' ∧
      List.Forall₂ (R tys') l ((l.mapM f).run ctx).1 := by
  induction l generalizing ctx tys with
  | nil => exact ⟨tys, .refl hknows, .nil⟩
  | cons b l ih =>
    obtain ⟨tys', hb, hR⟩ := hf b (by simp) ctx tys hknows houter
    obtain ⟨tys'', hbs, hRs⟩ := ih (fun b' hb' => hf b' (by simp [hb'])) hb.knows
      (fun s hs => hb.mem (houter s hs))
    obtain ⟨new, hnew⟩ := hbs.extends_
    have hrun : ((b :: l).mapM f).run ctx =
        (((f b).run ctx).1 :: ((l.mapM f).run ((f b).run ctx).2).1,
          ((l.mapM f).run ((f b).run ctx).2).2) := by
      rw [List.mapM_cons]
      rfl
    rw [hrun]
    refine ⟨tys'', hb.trans hbs, .cons ?_ hRs⟩
    rw [hnew]
    exact happend tys' b _ new hR

/-- What a call of `resolve` comes to. -/
def Resolves (types : DkTypes) (abi : ABI) (fuel : ℕ) (outer : List (DkType types.count))
    (t : DkType types.count) : Prop :=
  ∀ ctx tys, Knows types ctx tys → (∀ s ∈ outer, s ∈ tys) →
    ∃ tys', Reaches types ctx tys ((abi.resolve fuel (types.typeName t)).run ctx).2 tys' ∧
      PointsTo types tys' ((abi.resolve fuel (types.typeName t)).run ctx).1 t

theorem typeName_plain (i : Fin types.count) : types.typeName (types.plain i) = types.abiName i := by
  simp [typeName, plain, refName]

/-- The base is resolved if there is one: its name is not empty. -/
theorem resolveBase_reaches (hnames : types.NamesFit) {fuel : ℕ}
    {outer : List (DkType types.count)} {base : Option (Fin types.count)}
    (hbase : ∀ b ∈ base, Resolves types abi fuel outer (types.plain b))
    (hknows : Knows types ctx tys) (houter : ∀ s ∈ outer, s ∈ tys) :
    ∃ tys', Reaches types ctx tys
        ((ABI.resolveBase abi fuel (base.elim [] types.abiName)).run ctx).2 tys' ∧
      Option.Rel (fun b k => PointsTo types tys' k (types.plain b)) base
        ((ABI.resolveBase abi fuel (base.elim [] types.abiName)).run ctx).1 := by
  cases base with
  | none => exact ⟨tys, .refl hknows, .none⟩
  | some b =>
    obtain ⟨tys', hreaches, hpoints⟩ := hbase b rfl ctx tys hknows houter
    have hne : types.abiName b ≠ [] := (hnames.plain b).1
    show ∃ tys', Reaches types ctx tys ((ABI.resolveBase abi fuel (types.abiName b)).run ctx).2 tys' ∧ _
    unfold ABI.resolveBase
    rw [Option.elim, if_neg hne, ← typeName_plain]
    exact ⟨tys', hreaches, .some hpoints⟩

/-- The parts of a known type are known. -/
theorem known_of_parts (hdefines : types.Defines abi known) {t s : DkType types.count}
    (hknown : ∀ i, t.type = .declared i → known i) (hs : s ∈ types.parts t) {j : Fin types.count}
    (hj : s.type = .declared j) : known j := by
  unfold parts at hs
  cases htype : t.type with
  | builtin abiName =>
    rw [htype] at hs
    cases hs
  | declared i =>
    rw [htype] at hs
    refine hdefines.closed i (hknown i htype) s ?_ j hj
    unfold collected
    cases hdecl : types.decl i with
    | variant alternatives =>
      simp only [hdecl] at hs
      exact hs
    | typeAlias aliased =>
      simp only [hdecl] at hs
      exact hs
    | struct base fields =>
      simp only [hdecl] at hs
      rcases List.mem_append.mp hs with hs | hs
      · exact List.mem_append_right _ hs
      · refine List.mem_append_left _ ?_
        rw [dkForEach_eq, hdecl, List.map_append]
        exact List.mem_append_right _ hs

/-- A type that is new: its node is pushed, its parts are resolved, and it is completed. -/
theorem resolves_new (hnames : types.NamesFit) (hdefines : types.Defines abi known) {fuel : ℕ}
    {outer : List (DkType types.count)} {t : DkType types.count}
    (hknown : ∀ i, t.type = .declared i → known i)
    (hparts : ∀ s ∈ types.parts t, Resolves types abi fuel (t :: outer) s)
    (hknows : Knows types ctx tys) (houter : ∀ s ∈ outer, s ∈ tys) (hnew : t ∉ tys) :
    ∃ tys', Reaches types ctx tys ((abi.resolve (fuel + 1) (types.typeName t)).run ctx).2 tys' ∧
      PointsTo types tys' ((abi.resolve (fuel + 1) (types.typeName t)).run ctx).1 t := by
  have hpushed := hknows.push hnames hnew
  have houter' : ∀ s ∈ t :: outer, s ∈ tys ++ [t] := by
    intro s hs
    rcases List.mem_cons.mp hs with rfl | hs
    · simp
    · exact List.mem_append_left _ (houter s hs)
  have hself : PointsTo types (tys ++ [t]) tys.length t := by
    unfold PointsTo
    rw [List.getElem?_append_right le_rfl, Nat.sub_self]
    rfl
  have hfind := hknows.find_eq_none hnew
  have hi : ctx.arena.length = tys.length := hknows.length
  cases htype : t.type with
  | builtin abiName =>
    obtain ⟨htypes, hstruct, hvariant⟩ := hdefines.lookup_builtin hnames abiName.property
    have hname : (ABI.ResolvedNode.parse (types.typeName t)).name = abiName.val := by
      rw [parse_typeName hnames, parsed, htype]
      rfl
    -- A builtin mentions nothing, so its node is complete as soon as it is pushed.
    rw [ABI.resolve_new hfind, hname, htypes, hstruct, hvariant, parse_typeName hnames, hi]
    have hreaches := Reaches.complete_new hknows (.refl hpushed) (f := id) (by
      unfold Complete
      rw [htype]
      rfl)
    rw [ABI.update_id] at hreaches
    exact ⟨tys ++ [t], hreaches, hself⟩
  | declared i =>
    have hi' := hknown i htype
    have hlookup := hdefines.lookup hnames.injective hi'
    have hname : (ABI.ResolvedNode.parse (types.typeName t)).name = types.abiName i := by
      rw [parse_typeName hnames, parsed, htype]
      rfl
    unfold parts at hparts
    rw [htype] at hparts
    simp only at hparts
    rw [ABI.resolve_new hfind, hname, parse_typeName hnames, hi]
    cases hdecl : types.decl i with
    | typeAlias aliased =>
      rw [hdecl] at hlookup hparts
      simp only at hlookup
      obtain ⟨tys', hreaches, hpoints⟩ := hparts aliased (by simp) _ _ hpushed houter'
      rw [hlookup]
      refine ⟨tys', Reaches.complete_new hknows hreaches ?_, hreaches.pointsTo hself⟩
      unfold Complete
      rw [htype]
      simp only [hdecl]
      exact ⟨_, rfl, hpoints⟩
    | variant alternatives =>
      rw [hdecl] at hlookup hparts
      obtain ⟨htypes, hstruct, hvariant⟩ := hlookup
      obtain ⟨tys', hreaches, hpoints⟩ := mapM_reaches
        (f := fun s => abi.resolve fuel (types.typeName s))
        (R := fun tys s k => PointsTo types tys k s) (fun _ _ _ new h => h.append new)
        (l := alternatives) (fun s hs ctx tys => hparts s hs ctx tys) hpushed houter'
      have hmap : (alternatives.map types.typeName).mapM (abi.resolve fuel) =
          alternatives.mapM (fun s => abi.resolve fuel (types.typeName s)) := List.mapM_map
      rw [htypes, hstruct, hvariant]
      simp only [hmap]
      refine ⟨tys', Reaches.complete_new hknows hreaches ?_, hreaches.pointsTo hself⟩
      unfold Complete
      rw [htype]
      simp only [hdecl]
      exact ⟨_, rfl, hpoints⟩
    | struct base fields =>
      rw [hdecl] at hlookup hparts
      obtain ⟨htypes, hstruct⟩ := hlookup
      have hbaseParts : ∀ b ∈ base, Resolves types abi fuel (t :: outer) (types.plain b) := by
        intro b hb
        exact hparts (types.plain b) (by simp; exact .inl ⟨b, hb, rfl⟩)
      -- The base is resolved first, then the fields in its context.
      obtain ⟨tys', hbase, hrel⟩ := resolveBase_reaches hnames
        hbaseParts hpushed houter'
      obtain ⟨tys'', hfields, hpoints⟩ := mapM_reaches
        (f := fun field => ABI.resolveField abi fuel ⟨field.1, types.typeName field.2⟩)
        (R := fun tys (f : Str × DkType types.count) (f' : Str × ℕ) =>
          f'.1 = f.1 ∧ PointsTo types tys f'.2 f.2)
        (fun _ _ _ new h => ⟨h.1, h.2.append new⟩) (l := fields)
        (fun field hfield ctx tys hknows houter => by
          obtain ⟨tys', hreaches, hpoints⟩ :=
            hparts field.2 (by simp; exact .inr ⟨field.1, hfield⟩) ctx tys hknows houter
          exact ⟨tys', hreaches, rfl, hpoints⟩)
        hbase.knows (fun s hs => hbase.mem (houter' s hs))
      have hmap : (fields.map (fun f => (⟨f.1, types.typeName f.2⟩ : ABI.Field))).mapM
            (ABI.resolveField abi fuel) =
          fields.mapM (fun f => ABI.resolveField abi fuel ⟨f.1, types.typeName f.2⟩) := List.mapM_map
      obtain ⟨new, hnew⟩ := hfields.extends_
      rw [htypes, hstruct]
      simp only [hmap]
      refine ⟨tys'', Reaches.complete_new hknows (hbase.trans hfields) ?_,
        (hbase.trans hfields).pointsTo hself⟩
      unfold Complete
      rw [htype]
      simp only [hdecl]
      exact ⟨_, _, rfl, rel_imp (fun _ _ hb => hfields.pointsTo hb) hrel, hpoints⟩

/-- **One call of `resolve`** reflects its type, where the fuel is enough for the longest
chain of types through it. -/
theorem resolve_reflects (hnames : types.NamesFit) (hdefines : types.Defines abi known)
    (hshallow : types.Shallow root) (fuel : ℕ) {outer : List (DkType types.count)}
    {t : DkType types.count} (hfuel : outer.length + fuel = ABI.maxResolveDepth)
    (hchain : t ∉ outer → types.Chain root (t :: outer))
    (hknown : ∀ i, t.type = .declared i → known i) : Resolves types abi fuel outer t := by
  induction fuel generalizing t outer with
  | zero =>
    intro ctx tys hknows houter
    by_cases hmem : t ∈ tys
    · obtain ⟨k, hk⟩ := List.mem_iff_getElem?.mp hmem
      rw [ABI.resolve_of_find ((hknows.find t k).mpr hk)]
      exact ⟨tys, .refl hknows, hk⟩
    · have hlen := hshallow _ (hchain (fun h => hmem (houter t h)))
      rw [List.length_cons] at hlen
      omega
  | succ fuel ih =>
    intro ctx tys hknows houter
    by_cases hmem : t ∈ tys
    · obtain ⟨k, hk⟩ := List.mem_iff_getElem?.mp hmem
      rw [ABI.resolve_of_find ((hknows.find t k).mpr hk)]
      exact ⟨tys, .refl hknows, hk⟩
    · have hthis := hchain (fun h => hmem (houter t h))
      refine resolves_new hnames hdefines hknown ?_ hknows houter hmem
      intro s hs
      refine ih (by rw [List.length_cons]; omega) (fun hout => hthis.part hs hout) ?_
      exact fun j hj => known_of_parts hdefines hknown hs hj

/-- An arena whose nodes are those of `tys`, all of them complete. -/
structure Reflects (types : DkTypes) (arena : ABI.Arena) (tys : List (DkType types.count)) :
    Prop where
  length : arena.length = tys.length
  complete : ∀ k t, PointsTo types tys k t → Complete types tys t (arena.node k)

/-- **The synthesized ABI is resolved into nodes of the types it was made from.** -/
theorem resolveType_reflects (hnames : types.NamesFit) (root : DkType types.count)
    (hshallow : types.Shallow root) :
    ∃ tys, Reflects types ((types.synthesize root).resolveType (types.typeName root)).1 tys ∧
      PointsTo types tys ((types.synthesize root).resolveType (types.typeName root)).2 root := by
  obtain ⟨known, hdefines, hknown⟩ := synthesize_defines hnames.injective root
  have hempty : Knows types {} [] := by
    refine ⟨rfl, fun t k => ?_⟩
    constructor
    · intro h
      cases h
    · intro h
      cases h
  obtain ⟨tys, hreaches, hpoints⟩ := resolve_reflects hnames hdefines hshallow ABI.maxResolveDepth
    (show ([] : List (DkType types.count)).length + _ = _ from Nat.zero_add _) (fun _ => .root)
    hknown {} [] hempty (fun s hs => by cases hs)
  refine ⟨tys, ⟨hreaches.knows.length, ?_⟩, hpoints⟩
  intro k t ht
  exact hreaches.complete k t (Nat.zero_le k) ht

end Resolve

end DkTypes

end Dwarfkit
