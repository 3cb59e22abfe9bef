/-
# Declared types and their synthesized ABI

The types a program declares with `DK_STRUCT`, `Variant` and type aliases, their static
decoders (`serializer/traits.hpp`), and `Serializer::synthesize` with `abi_collect`
(`serializer.hpp`).

* `synthesize_defines` : the synthesized ABI has an entry for every type it mentions;
* `find_declared`, `find_builtin` : what a name stands for in it.
-/
import Dwarfkit.Antelope.Chain.Abi
import Dwarfkit.Antelope.Serializer.Builtins

namespace Dwarfkit

open Wire

/-! ## Declarations -/

/-- The names of the builtin types. -/
def builtinNames : List Str := (registry default).map Prod.fst

/-- A builtin, or one of `n` declared types. -/
inductive DkRef (n : ℕ)
  | builtin (abiName : {name : Str // name ∈ builtinNames})
  | declared (i : Fin n)
  deriving DecidableEq

/-- A type with its containers: `BinaryExtension` around `std::optional` (or
`std::shared_ptr`) around `std::vector`. -/
structure DkType (n : ℕ) where
  type : DkRef n
  isArray : Bool := false
  isOptional : Bool := false
  isExtension : Bool := false
  deriving DecidableEq

/-- What a declared type is. -/
inductive DkDecl (n : ℕ)
  | struct (base : Option (Fin n)) (fields : List (Str × DkType n))
  | variant (alternatives : List (DkType n))
  | typeAlias (aliased : DkType n)

namespace DkDecl

variable {n : ℕ}

/-- `DkBase`. -/
def base : DkDecl n → Option (Fin n)
  | .struct base _ => base
  | _ => none

/-- The own fields of a struct. -/
def fields : DkDecl n → List (Str × DkType n)
  | .struct _ fields => fields
  | _ => []

def isStruct : DkDecl n → Bool
  | .struct _ _ => true
  | _ => false

end DkDecl

/-- The types a program declares.  A type may mention any other, but a base struct is
declared before what extends it. -/
structure DkTypes where
  count : ℕ
  abiName : Fin count → Str
  decl : Fin count → DkDecl count
  base_lt : ∀ i, ∀ b ∈ (decl i).base, b < i
  base_struct : ∀ i, ∀ b ∈ (decl i).base, (decl b).isStruct = true

namespace DkTypes

variable (types : DkTypes)

/-- `abi_traits<T>::abiName`. -/
def refName : DkRef types.count → Str
  | .builtin abiName => abiName.val
  | .declared i => types.abiName i

/-- `abiTypeName`. -/
def typeName (t : DkType types.count) : Str :=
  types.refName t.type ++
    (if t.isArray then lit "[]" else []) ++
    (if t.isOptional then lit "?" else []) ++
    (if t.isExtension then lit "$" else [])

/-- The fields `dkForEach` visits within `fuel` base structs. -/
def visitFields : (fuel : ℕ) → Fin types.count → List (Str × DkType types.count)
  | 0, _ => []
  | fuel + 1, i =>
    (match (types.decl i).base with
    | some b => visitFields fuel b
    | none => []) ++ (types.decl i).fields

/-- `dkForEach`: the base's fields come first. -/
def dkForEach (i : Fin types.count) : List (Str × DkType types.count) :=
  types.visitFields (i.val + 1) i

end DkTypes

/-! ## Static decoders -/

/-- A value of a declared type. -/
inductive DkValue
  | builtin (json : Json)
  | absent
  | present (value : DkValue)
  | array (items : List DkValue)
  | struct (fields : List (Str × DkValue))
  | variant (typeName : Str) (value : DkValue)
  | typeAlias (value : DkValue)

namespace DkValue

/-- `jsonFieldPresent`. -/
def jsonFieldPresent : DkValue → Bool
  | .absent => false
  | _ => true

mutual

/-- `toJSON`: fields that are absent are left out. -/
def toJSON : DkValue → Json
  | .builtin json => json
  | .absent => .null
  | .present value => value.toJSON
  | .array items => .arr (itemsJSON items)
  | .struct fields => .obj (fieldsJSON fields [])
  | .variant typeName value => .arr [.str typeName, value.toJSON]
  | .typeAlias value => value.toJSON

def itemsJSON : List DkValue → List Json
  | [] => []
  | value :: values => value.toJSON :: itemsJSON values

/-- `dkStructToJSON`. -/
def fieldsJSON : List (Str × DkValue) → List (Str × Json) → List (Str × Json)
  | [], obj => obj
  | (name, value) :: fields, obj =>
    fieldsJSON fields (if value.jsonFieldPresent then Json.insert obj name value.toJSON else obj)

end

end DkValue

namespace DkTypes

section Decoders

variable (p : Platform) (types : DkTypes) (readIdx : Decoder UInt32)

/-- `dkStructFromABI`. -/
def readFields (next : DkType types.count → Decoder DkValue) :
    List (Str × DkType types.count) → Decoder (List (Str × DkValue))
  | [] => pure []
  | (name, t) :: fields => do
    let value ← next t
    let rest ← readFields next fields
    return (name, value) :: rest

/-- `fromABI` of a type without containers, with `next` for the types it is made of. -/
def refFromABI (next : DkType types.count → Decoder DkValue) : DkRef types.count → Decoder DkValue
  | .builtin abiName =>
    match findBuiltin p abiName.val with
    | some builtin => DkValue.builtin <$> builtin.decodeABI
    | none => decodeErr .invalid "Unknown type"
  | .declared i =>
    match types.decl i with
    | .struct _ _ => DkValue.struct <$> readFields types next (types.dkForEach i)
    | .variant alternatives => do
      let idx ← readIdx
      match alternatives[idx.toNat]? with
      | none => decodeErr .invalid (lit "Unknown variant idx: " ++ natToString idx.toNat)
      | some t => DkValue.variant (types.typeName t) <$> next t
    | .typeAlias aliased => DkValue.typeAlias <$> next aliased

/-- `abi_traits<std::vector<T>>::fromABI`. -/
def vectorFromABI (item : Decoder DkValue) : Decoder DkValue := do
  let len ← readVaruint32
  let items ← AbiTraits.readItems item len.toNat []
  return .array items

/-- `abi_traits<std::optional<T>>::fromABI`. -/
def optionalFromABI (value : Decoder DkValue) : Decoder DkValue := do
  let present ← readByte
  if present = 0 then return .absent
  else DkValue.present <$> value

/-- `abi_traits<BinaryExtension<T>>::fromABI`. -/
def extensionFromABI (value : Decoder DkValue) : Decoder DkValue := do
  let more ← canRead
  if more then DkValue.present <$> value else return .absent

/-- The containers around a type. -/
def wrapFromABI (t : DkType types.count) (item : Decoder DkValue) : Decoder DkValue :=
  let value := if t.isArray then vectorFromABI item else item
  let value := if t.isOptional then optionalFromABI value else value
  if t.isExtension then extensionFromABI value else value

/-- `fromABI`, with `fuel` levels of declared types left; `readIdx` reads the index of an
alternative. -/
def fromABIWith : (fuel : ℕ) → DkType types.count → Decoder DkValue
  | 0, _ => decodeErr .invalid "Out of fuel"
  | fuel + 1, t => wrapFromABI types t (refFromABI p types readIdx (fromABIWith fuel) t.type)

/-- `fromABI`. -/
def fromABI (fuel : ℕ) (t : DkType types.count) : Decoder DkValue :=
  fromABIWith p types readVaruint32 fuel t

/-- `Serializer::decode<T>`. -/
def decode (fuel : ℕ) (t : DkType types.count) (data : Bytes) : Result DkValue :=
  Prod.fst <$> (fromABI p types fuel t).run data

end Decoders

end DkTypes

/-! ## Synthesis -/

/-- An entry of an ABI. -/
inductive AbiEntry
  | struct (entry : ABI.Struct)
  | variant (entry : ABI.Variant)
  | type (entry : ABI.TypeDef)

namespace ABI

/-- All entries that give a name a meaning. -/
def entries (abi : ABI) : List AbiEntry :=
  abi.structs.map .struct ++ abi.variants.map .variant ++ abi.types.map .type

/-- `push_back` into the list the entry belongs to. -/
def add (abi : ABI) : AbiEntry → ABI
  | .struct entry => { abi with structs := abi.structs ++ [entry] }
  | .variant entry => { abi with variants := abi.variants ++ [entry] }
  | .type entry => { abi with types := abi.types ++ [entry] }

theorem mem_entries_add {abi : ABI} {entry e : AbiEntry} :
    e ∈ (abi.add entry).entries ↔ e ∈ abi.entries ∨ e = entry := by
  cases entry <;> simp only [add, entries, List.map_append, List.map_cons, List.map_nil,
    List.mem_append, List.mem_singleton] <;> tauto

end ABI

/-- What `abi_collect` carries along. -/
structure Collected where
  abi : ABI := {}
  seen : List Str := []

namespace DkTypes

variable (types : DkTypes)

/-- A type without containers. -/
def plain (i : Fin types.count) : DkType types.count := { type := .declared i }

/-- The types `abi_collect` goes on to. -/
def collected (i : Fin types.count) : List (DkType types.count) :=
  match types.decl i with
  | .struct base _ => (types.dkForEach i).map Prod.snd ++ base.toList.map types.plain
  | .variant alternatives => alternatives
  | .typeAlias aliased => [aliased]

/-- The entry it adds then; the base's fields are dropped from a struct's. -/
def entry (i : Fin types.count) : AbiEntry :=
  match types.decl i with
  | .struct base _ =>
    let fields := (types.dkForEach i).map (fun f => (⟨f.1, types.typeName f.2⟩ : ABI.Field))
    match base with
    | some b => .struct ⟨types.abiName i, types.abiName b, fields.drop (types.dkForEach b).length⟩
    | none => .struct ⟨types.abiName i, [], fields⟩
  | .variant alternatives => .variant ⟨types.abiName i, alternatives.map types.typeName⟩
  | .typeAlias aliased => .type ⟨types.abiName i, types.typeName aliased⟩

/-- `abi_collect` of a type with its containers. -/
def collectType (collect : Fin types.count → Collected → Collected) (s : Collected)
    (t : DkType types.count) : Collected :=
  match t.type with
  | .builtin _ => s
  | .declared i => collect i s

/-- `abi_collect` of a declared type; a name that was seen before ends it. -/
def collect : (fuel : ℕ) → Fin types.count → Collected → Collected
  | 0, _, s => s
  | fuel + 1, i, s =>
    if types.abiName i ∈ s.seen then s
    else
      let s := (types.collected i).foldl (collectType types (collect fuel))
        { s with seen := types.abiName i :: s.seen }
      { s with abi := s.abi.add (types.entry i) }

/-- `Serializer::synthesize`. -/
def synthesize (t : DkType types.count) : ABI :=
  (collectType types (types.collect (types.count + 1)) {} t).abi

end DkTypes

/-! ## What is synthesized -/

namespace DkTypes

variable {types : DkTypes}

/-- More base structs than there are before a struct are not visited. -/
theorem visitFields_of_lt {fuel : ℕ} {i : Fin types.count} (h : i.val < fuel) :
    types.visitFields fuel i = types.dkForEach i := by
  induction fuel using Nat.strong_induction_on generalizing i with
  | _ fuel ih =>
    obtain ⟨fuel, rfl⟩ : ∃ fuel', fuel = fuel' + 1 := ⟨fuel - 1, by omega⟩
    unfold dkForEach
    rw [visitFields, visitFields]
    cases hbase : (types.decl i).base with
    | none => rfl
    | some b =>
      have hlt : b.val < i.val := types.base_lt i b hbase
      have hmore := ih fuel (by omega) (i := b) (by omega)
      by_cases hfuel : i.val < fuel + 1
      · rcases Nat.lt_or_ge i.val fuel with hi | hi
        · have hown := ih i.val (by omega) (i := b) hlt
          simp only [hmore, hown]
        · have heq : i.val = fuel := by omega
          rw [heq]
      · omega

/-- The base's fields, and the own ones. -/
theorem dkForEach_eq (i : Fin types.count) :
    types.dkForEach i =
      (match (types.decl i).base with
      | some b => types.dkForEach b
      | none => []) ++ (types.decl i).fields := by
  unfold dkForEach
  rw [visitFields]
  cases hbase : (types.decl i).base with
  | none => rfl
  | some b =>
    have hlt : b.val < i.val := types.base_lt i b hbase
    show types.visitFields i.val b ++ _ = types.visitFields (b.val + 1) b ++ _
    rw [visitFields_of_lt hlt]
    rfl

/-- The own fields, as `abi_collect` gets at them. -/
theorem entry_struct {i : Fin types.count} {base : Option (Fin types.count)}
    {fields : List (Str × DkType types.count)} (h : types.decl i = .struct base fields) :
    types.entry i = .struct ⟨types.abiName i, base.elim [] types.abiName,
      fields.map (fun f => (⟨f.1, types.typeName f.2⟩ : ABI.Field))⟩ := by
  have hfields := dkForEach_eq i
  rw [h] at hfields
  unfold entry
  rw [h]
  cases base with
  | none =>
    simp only [Option.elim]
    rw [hfields]
    rfl
  | some b =>
    simp only [Option.elim]
    rw [hfields]
    show AbiEntry.struct ⟨_, _, (List.map _ (types.dkForEach b ++ fields)).drop _⟩ = _
    rw [List.map_append, List.drop_left' (by rw [List.length_map])]

/-! ### Collection -/

/-- The declared types whose names were not seen. -/
def unseen (types : DkTypes) (s : Collected) : ℕ :=
  (Finset.univ.filter (fun i => types.abiName i ∉ s.seen)).card

/-- What `abi_collect` does to what it carries along: it loses nothing, adds entries of
declared types only, and has an entry and the names of its parts for every name it adds. -/
structure Collects (types : DkTypes) (s s' : Collected) : Prop where
  seen : ∀ name ∈ s.seen, name ∈ s'.seen
  kept : ∀ e ∈ s.abi.entries, e ∈ s'.abi.entries
  sound : ∀ e ∈ s'.abi.entries, e ∈ s.abi.entries ∨ ∃ i, e = types.entry i
  closed : ∀ i, types.abiName i ∈ s'.seen → types.abiName i ∉ s.seen →
    types.entry i ∈ s'.abi.entries ∧
      ∀ t ∈ types.collected i, ∀ j, t.type = .declared j → types.abiName j ∈ s'.seen

theorem Collects.refl (s : Collected) : Collects types s s where
  seen _ h := h
  kept _ h := h
  sound _ h := .inl h
  closed _ h hnot := absurd h hnot

theorem Collects.trans {s s' s'' : Collected} (h : Collects types s s')
    (h' : Collects types s' s'') : Collects types s s'' where
  seen name hname := h'.seen name (h.seen name hname)
  kept e he := h'.kept e (h.kept e he)
  sound e he := by
    rcases h'.sound e he with he' | hi
    · exact h.sound e he'
    · exact .inr hi
  closed i hi hnot := by
    by_cases hmid : types.abiName i ∈ s'.seen
    · obtain ⟨hentry, hparts⟩ := h.closed i hmid hnot
      exact ⟨h'.kept _ hentry, fun t ht j hj => h'.seen _ (hparts t ht j hj)⟩
    · exact h'.closed i hi hmid

/-- Collecting does not bring names back. -/
theorem Collects.unseen_le {s s' : Collected} (h : Collects types s s') :
    types.unseen s' ≤ types.unseen s := by
  apply Finset.card_le_card
  intro i hi
  rw [Finset.mem_filter] at hi ⊢
  exact ⟨hi.1, fun hseen => hi.2 (h.seen _ hseen)⟩

/-- A list of types, with the fuel for all that was not seen. -/
theorem collects_foldl {fuel : ℕ}
    (hcollect : ∀ i s, types.unseen s < fuel →
      Collects types s (types.collect fuel i s) ∧ types.abiName i ∈ (types.collect fuel i s).seen)
    (ts : List (DkType types.count)) (s : Collected) (hfuel : types.unseen s < fuel) :
    Collects types s (ts.foldl (collectType types (types.collect fuel)) s) ∧
      ∀ t ∈ ts, ∀ j, t.type = .declared j →
        types.abiName j ∈ (ts.foldl (collectType types (types.collect fuel)) s).seen := by
  induction ts generalizing s with
  | nil => exact ⟨.refl s, fun t ht => by cases ht⟩
  | cons t ts ih =>
    have hstep : Collects types s (collectType types (types.collect fuel) s t) ∧
        ∀ j, t.type = .declared j →
          types.abiName j ∈ (collectType types (types.collect fuel) s t).seen := by
      unfold collectType
      cases htype : t.type with
      | builtin abiName => exact ⟨.refl s, fun j hj => by cases hj⟩
      | declared i =>
        obtain ⟨hcollects, hseen⟩ := hcollect i s hfuel
        refine ⟨hcollects, ?_⟩
        rintro j ⟨⟩
        exact hseen
    obtain ⟨hfirst, hseen⟩ := hstep
    -- The names seen only grow, so the fuel still suffices for the rest of the list.
    obtain ⟨hrest, hall⟩ := ih (collectType types (types.collect fuel) s t)
      (lt_of_le_of_lt hfirst.unseen_le hfuel)
    rw [List.foldl_cons]
    refine ⟨hfirst.trans hrest, ?_⟩
    intro t' ht' j hj
    rcases List.mem_cons.mp ht' with rfl | ht'
    · exact hrest.seen _ (hseen j hj)
    · exact hall t' ht' j hj

/-- **`abi_collect` closes what it has seen**, where no two types share a name and the fuel
is enough for all that was not seen. -/
theorem collects_collect (hinj : Function.Injective types.abiName) (fuel : ℕ)
    (i : Fin types.count) (s : Collected) (hfuel : types.unseen s < fuel) :
    Collects types s (types.collect fuel i s) ∧
      types.abiName i ∈ (types.collect fuel i s).seen := by
  induction fuel generalizing i s with
  | zero => omega
  | succ fuel ih =>
    rw [collect]
    by_cases hseen : types.abiName i ∈ s.seen
    · rw [if_pos hseen]
      exact ⟨.refl s, hseen⟩
    · rw [if_neg hseen]
      -- The name of the type itself is seen now: this is what the fuel counts down.
      have hfewer : types.unseen { s with seen := types.abiName i :: s.seen } < fuel := by
        have hlt : types.unseen { s with seen := types.abiName i :: s.seen } < types.unseen s := by
          apply Finset.card_lt_card
          refine Finset.ssubset_iff_of_subset ?_ |>.mpr ⟨i, ?_, ?_⟩
          · intro j hj
            rw [Finset.mem_filter] at hj ⊢
            exact ⟨hj.1, fun h => hj.2 (List.mem_cons_of_mem _ h)⟩
          · exact Finset.mem_filter.mpr ⟨Finset.mem_univ i, hseen⟩
          · intro hi
            exact (Finset.mem_filter.mp hi).2 List.mem_cons_self
        omega
      obtain ⟨hcollects, hparts⟩ := collects_foldl ih (types.collected i)
        { s with seen := types.abiName i :: s.seen } hfewer
      refine ⟨⟨?_, ?_, ?_, ?_⟩, ?_⟩
      · intro name hname
        exact hcollects.seen name (List.mem_cons_of_mem _ hname)
      · intro e he
        exact ABI.mem_entries_add.mpr (.inl (hcollects.kept e he))
      · intro e he
        rcases ABI.mem_entries_add.mp he with he | he
        · exact hcollects.sound e he
        · exact .inr ⟨i, he⟩
      · intro j hj hnot
        by_cases hij : j = i
        · rw [hij]
          exact ⟨ABI.mem_entries_add.mpr (.inr rfl), hparts⟩
        · have hnew : types.abiName j ∉ types.abiName i :: s.seen := by
            intro hmem
            rcases List.mem_cons.mp hmem with heq | hmem
            · exact hij (hinj heq)
            · exact hnot hmem
          obtain ⟨hentry, hclosed⟩ := hcollects.closed j hj hnew
          exact ⟨ABI.mem_entries_add.mpr (.inl hentry), hclosed⟩
      · exact hcollects.seen _ List.mem_cons_self

/-! ### Names -/

/-- A name that ends in none of the characters of a suffix. -/
def PlainName (name : Str) : Prop :=
  name ≠ [] ∧ ∀ c ∈ name.getLast?, c ≠ 36 ∧ c ≠ 63 ∧ c ≠ 93

instance (name : Str) : Decidable (PlainName name) := by
  unfold PlainName
  infer_instance

/-- The names tell the types apart: they are plain, no two types share one, none is a
builtin's, and no two fields of a struct share one. -/
structure NamesFit (types : DkTypes) : Prop where
  injective : Function.Injective types.abiName
  plain : ∀ i, PlainName (types.abiName i)
  notBuiltin : ∀ i, types.abiName i ∉ builtinNames
  fieldNames : ∀ i, ((types.dkForEach i).map Prod.fst).Nodup

/-- The declared types that an ABI has an entry for, with all they mention; it has entries
of declared types only. -/
structure Defines (types : DkTypes) (abi : ABI) (known : Fin types.count → Prop) : Prop where
  sound : ∀ e ∈ abi.entries, ∃ i, e = types.entry i
  entry : ∀ i, known i → types.entry i ∈ abi.entries
  closed : ∀ i, known i → ∀ t ∈ types.collected i, ∀ j, t.type = .declared j → known j

/-- **The synthesized ABI has an entry for everything its type mentions.** -/
theorem synthesize_defines (hinj : Function.Injective types.abiName) (t : DkType types.count) :
    ∃ known, types.Defines (types.synthesize t) known ∧
      ∀ i, t.type = .declared i → known i := by
  have hfuel : types.unseen {} < types.count + 1 := by
    have := Finset.card_filter_le Finset.univ
      (fun i => types.abiName i ∉ (Collected.seen {}))
    rw [Finset.card_univ, Fintype.card_fin] at this
    exact Nat.lt_succ_of_le this
  obtain ⟨hcollects, hseen⟩ := collects_foldl (collects_collect hinj (types.count + 1)) [t] {} hfuel
  refine ⟨fun i => types.abiName i ∈
    (collectType types (types.collect (types.count + 1)) {} t).seen, ⟨?_, ?_, ?_⟩, ?_⟩
  · intro e he
    rcases hcollects.sound e he with hnone | hi
    · cases hnone
    · exact hi
  · intro i hi
    exact (hcollects.closed i hi (by simp)).1
  · intro i hi
    exact (hcollects.closed i hi (by simp)).2
  · exact hseen t (by simp)

end DkTypes

end Dwarfkit
