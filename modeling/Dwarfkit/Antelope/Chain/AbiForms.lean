/-
# The forms of an ABI definition

The writer `toABI` and the two directions of the json form, next to the reader `fromABI`
of the definition's module.  The error messages and the extensions of the wire format are
written as empty lists and skipped.

* `fromABI_toABI_iff` : the binary form is read back exactly when every length fits its
  32-bit prefix;
* `ofJson_toJSON` : so is the json form of an ABI with a version.
-/
import Dwarfkit.Antelope.Chain.Abi
import Dwarfkit.Antelope.Serializer.Builtins

namespace Dwarfkit

open Wire

namespace ABI

/-! ## The writer -/

/-- A counted list of entries, the count truncated to 32 bits. -/
def writeList {α : Type} (entry : α → Bytes) (l : List α) : Bytes :=
  writeVaruint32 l.length.toUInt32 ++ l.flatMap entry

/-- `writeInt<uint64_t>` of a name. -/
def writeName (name : Name) : Bytes := writeInt 8 name.value.toNat

def writeField (field : Field) : Bytes := writeString field.name ++ writeString field.type

def writeTypeDef (type : TypeDef) : Bytes :=
  writeString type.new_type_name ++ writeString type.type

def writeStruct (entry : Struct) : Bytes :=
  writeString entry.name ++ (writeString entry.base ++ writeList writeField entry.fields)

def writeAction (action : Action) : Bytes :=
  writeName action.name ++ (writeString action.type ++ writeString action.ricardian_contract)

def writeTable (table : Table) : Bytes :=
  writeName table.name ++ (writeString table.index_type ++
    (writeList writeString table.key_names ++ (writeList writeString table.key_types ++
      writeString table.type)))

def writeClause (clause : Clause) : Bytes := writeString clause.id ++ writeString clause.body

def writeVariant (variant : Variant) : Bytes :=
  writeString variant.name ++ writeList writeString variant.types

def writeActionResult (result : ActionResult) : Bytes :=
  writeName result.name ++ writeString result.result_type

/-- `toABI`. -/
def toABI (abi : ABI) : Bytes :=
  writeString abi.version ++ (writeList writeTypeDef abi.types ++
    (writeList writeStruct abi.structs ++ (writeList writeAction abi.actions ++
      (writeList writeTable abi.tables ++ (writeList writeClause abi.ricardian_clauses ++
        (writeVaruint32 0 ++  -- error_messages
          (writeVaruint32 0 ++  -- extensions
            (writeList writeVariant abi.variants ++
              writeList writeActionResult abi.action_results))))))))

/-! ## The json form -/

def stringsJson (l : List Str) : Json := .arr (l.map .str)

def Field.toJSON (f : Field) : Json := .obj [(lit "name", .str f.name), (lit "type", .str f.type)]

def TypeDef.toJSON (t : TypeDef) : Json :=
  .obj [(lit "new_type_name", .str t.new_type_name), (lit "type", .str t.type)]

def Struct.toJSON (s : Struct) : Json :=
  .obj [(lit "name", .str s.name), (lit "base", .str s.base),
    (lit "fields", .arr (s.fields.map Field.toJSON))]

def Action.toJSON (a : Action) : Json :=
  .obj [(lit "name", .str a.name.toString), (lit "type", .str a.type),
    (lit "ricardian_contract", .str a.ricardian_contract)]

def Table.toJSON (t : Table) : Json :=
  .obj [(lit "name", .str t.name.toString), (lit "index_type", .str t.index_type),
    (lit "key_names", stringsJson t.key_names), (lit "key_types", stringsJson t.key_types),
    (lit "type", .str t.type)]

def Clause.toJSON (c : Clause) : Json := .obj [(lit "id", .str c.id), (lit "body", .str c.body)]

def Variant.toJSON (v : Variant) : Json :=
  .obj [(lit "name", .str v.name), (lit "types", stringsJson v.types)]

def ActionResult.toJSON (r : ActionResult) : Json :=
  .obj [(lit "name", .str r.name.toString), (lit "result_type", .str r.result_type)]

/-- `toJSON`. -/
def toJSON (abi : ABI) : Json :=
  .obj [(lit "version", .str abi.version),
    (lit "types", .arr (abi.types.map TypeDef.toJSON)),
    (lit "structs", .arr (abi.structs.map Struct.toJSON)),
    (lit "actions", .arr (abi.actions.map Action.toJSON)),
    (lit "tables", .arr (abi.tables.map Table.toJSON)),
    (lit "ricardian_clauses", .arr (abi.ricardian_clauses.map Clause.toJSON)),
    (lit "error_messages", .arr []),
    (lit "abi_extensions", .arr []),
    (lit "variants", .arr (abi.variants.map Variant.toJSON)),
    (lit "action_results", .arr (abi.action_results.map ActionResult.toJSON))]

/-- `getString`: tolerant of missing members. -/
def getString (j : Json) (key : Str) (fallback : Str := []) : Str := j.jsonStr key fallback

/-- The entries of the list at `key`, which is empty when the member is missing. -/
def listAt {α : Type} (j : Json) (key : Str) (entry : Json → Result α) : Result (List α) := do
  let items ← j.valueOr key (.arr [])
  items.elements.mapM entry

/-- The strings of the list at `key`; other items are passed over. -/
def stringsAt (j : Json) (key : Str) : Result (List Str) := do
  let items ← j.valueOr key (.arr [])
  return items.elements.filterMap (fun
    | .str s => some s
    | _ => none)

def Field.ofJson (f : Json) : Result Field :=
  .ok { name := getString f "name", type := getString f "type" }

def TypeDef.ofJson (t : Json) : Result TypeDef :=
  .ok { new_type_name := getString t "new_type_name", type := getString t "type" }

def Struct.ofJson (s : Json) : Result Struct := do
  let fields ← listAt s "fields" Field.ofJson
  return { name := getString s "name", base := getString s "base", fields }

def Action.ofJson (a : Json) : Result Action :=
  .ok {
    name := Name.ofString (getString a "name")
    type := getString a "type"
    ricardian_contract := getString a "ricardian_contract" }

def Table.ofJson (t : Json) : Result Table := do
  let key_names ← stringsAt t "key_names"
  let key_types ← stringsAt t "key_types"
  return {
    name := Name.ofString (getString t "name")
    index_type := getString t "index_type"
    key_names
    key_types
    type := getString t "type" }

def Clause.ofJson (c : Json) : Result Clause :=
  .ok { id := getString c "id", body := getString c "body" }

def Variant.ofJson (v : Json) : Result Variant := do
  let types ← stringsAt v "types"
  return { name := getString v "name", types }

def ActionResult.ofJson (r : Json) : Result ActionResult :=
  .ok { name := Name.ofString (getString r "name"), result_type := getString r "result_type" }

/-- `ABI::from(json)` of an object. -/
def ofObject (value : Json) : Result ABI := do
  let version := getString value "version" defaultVersion
  let types ← listAt value "types" TypeDef.ofJson
  let variants ← listAt value "variants" Variant.ofJson
  let structs ← listAt value "structs" Struct.ofJson
  let actions ← listAt value "actions" Action.ofJson
  let tables ← listAt value "tables" Table.ofJson
  let ricardian_clauses ← listAt value "ricardian_clauses" Clause.ofJson
  let action_results ← listAt value "action_results" ActionResult.ofJson
  return {
    version := if version = [] then defaultVersion else version
    types, variants, structs, actions, tables, ricardian_clauses, action_results }

/-- `ABI::from(json)` and, on a text, `ABI::from(string_view)`, with `fuel` texts left to
parse. -/
def ofJsonWith (parse : Str → Option Json) : (fuel : ℕ) → Json → Result ABI
  | fuel, .str text =>
    match fuel, parse text with
    | fuel + 1, some parsed => ofJsonWith parse fuel parsed
    | _, _ => err .invalid "Invalid ABI JSON"
  | _, .obj members => ofObject (.obj members)
  | _, _ => err .invalid "Invalid ABI definition"

/-- `ABI::from(json)`.  A text that is parsed out of a text is shorter than it. -/
def ofJson (parse : Str → Option Json) (value : Json) : Result ABI :=
  ofJsonWith parse (match value with
    | .str text => text.length + 1
    | _ => 0) value

/-! ## Texts and lengths -/

def Field.strings (f : Field) : List Str := [f.name, f.type]

def TypeDef.strings (t : TypeDef) : List Str := [t.new_type_name, t.type]

def Struct.strings (s : Struct) : List Str := s.name :: s.base :: s.fields.flatMap Field.strings

def Action.strings (a : Action) : List Str := [a.type, a.ricardian_contract]

def Table.strings (t : Table) : List Str :=
  t.index_type :: t.type :: (t.key_names ++ t.key_types)

def Clause.strings (c : Clause) : List Str := [c.id, c.body]

def Variant.strings (v : Variant) : List Str := v.name :: v.types

def ActionResult.strings (r : ActionResult) : List Str := [r.result_type]

/-- The texts of an ABI. -/
def strings (abi : ABI) : List Str :=
  abi.version :: (abi.types.flatMap TypeDef.strings ++ abi.structs.flatMap Struct.strings ++
    abi.actions.flatMap Action.strings ++ abi.tables.flatMap Table.strings ++
    abi.ricardian_clauses.flatMap Clause.strings ++ abi.variants.flatMap Variant.strings ++
    abi.action_results.flatMap ActionResult.strings)

/-- The lengths of its lists. -/
def counts (abi : ABI) : List ℕ :=
  [abi.types.length, abi.structs.length, abi.actions.length, abi.tables.length,
    abi.ricardian_clauses.length, abi.variants.length, abi.action_results.length] ++
    abi.structs.map (fun s => s.fields.length) ++
    abi.tables.flatMap (fun t => [t.key_names.length, t.key_types.length]) ++
    abi.variants.map (fun v => v.types.length)

/-- The texts are UTF-8. -/
def Utf8 (abi : ABI) : Prop := ∀ s ∈ abi.strings, isValidUTF8 s = true

/-- The 32-bit prefixes can hold the lengths of the texts and of the lists. -/
def Sized (abi : ABI) : Prop :=
  (∀ s ∈ abi.strings, s.length < 2 ^ 32) ∧ ∀ n ∈ abi.counts, n < 2 ^ 32

/-- A list whose prefix can hold its length, of entries that fit. -/
def ListFits {α : Type} (fits : α → Prop) (l : List α) : Prop :=
  l.length < 2 ^ 32 ∧ ∀ x ∈ l, fits x

def Field.Fits (f : Field) : Prop := TextFits f.name ∧ TextFits f.type

def TypeDef.Fits (t : TypeDef) : Prop := TextFits t.new_type_name ∧ TextFits t.type

def Struct.Fits (s : Struct) : Prop :=
  TextFits s.name ∧ TextFits s.base ∧ ListFits Field.Fits s.fields

def Action.Fits (a : Action) : Prop := TextFits a.type ∧ TextFits a.ricardian_contract

def Table.Fits (t : Table) : Prop :=
  TextFits t.index_type ∧ ListFits TextFits t.key_names ∧ ListFits TextFits t.key_types ∧
    TextFits t.type

def Clause.Fits (c : Clause) : Prop := TextFits c.id ∧ TextFits c.body

def Variant.Fits (v : Variant) : Prop := TextFits v.name ∧ ListFits TextFits v.types

def ActionResult.Fits (r : ActionResult) : Prop := TextFits r.result_type

/-- The binary form can hold the ABI: texts and lengths, section by section. -/
structure Fits (abi : ABI) : Prop where
  version : TextFits abi.version
  types : ListFits TypeDef.Fits abi.types
  structs : ListFits Struct.Fits abi.structs
  actions : ListFits Action.Fits abi.actions
  tables : ListFits Table.Fits abi.tables
  ricardian_clauses : ListFits Clause.Fits abi.ricardian_clauses
  variants : ListFits Variant.Fits abi.variants
  action_results : ListFits ActionResult.Fits abi.action_results

theorem fits_iff (abi : ABI) : abi.Fits ↔ TextFits abi.version ∧ ListFits TypeDef.Fits abi.types ∧
    ListFits Struct.Fits abi.structs ∧ ListFits Action.Fits abi.actions ∧
    ListFits Table.Fits abi.tables ∧ ListFits Clause.Fits abi.ricardian_clauses ∧
    ListFits Variant.Fits abi.variants ∧ ListFits ActionResult.Fits abi.action_results :=
  ⟨fun h => ⟨h.1, h.2, h.3, h.4, h.5, h.6, h.7, h.8⟩,
    fun ⟨h₁, h₂, h₃, h₄, h₅, h₆, h₇, h₈⟩ => ⟨h₁, h₂, h₃, h₄, h₅, h₆, h₇, h₈⟩⟩

/-- An ABI of UTF-8 texts fits exactly when its lengths do. -/
theorem fits_iff_sized {abi : ABI} (hutf : abi.Utf8) : abi.Fits ↔ abi.Sized := by
  rw [fits_iff]
  unfold Utf8 at hutf
  unfold Sized
  simp only [strings, counts, List.forall_mem_cons, List.forall_mem_append, List.forall_mem_flatMap,
    List.forall_mem_map, TypeDef.strings, Struct.strings, Action.strings, Table.strings,
    Clause.strings, Variant.strings, ActionResult.strings, Field.strings] at hutf ⊢
  simp only [ListFits, TypeDef.Fits, Struct.Fits, Action.Fits, Table.Fits, Clause.Fits,
    Variant.Fits, ActionResult.Fits, Field.Fits, TextFits]
  grind

/-! ## What was written is read -/

section Reads

variable {α : Type} {entry : Decoder α} {write : α → Bytes} {fits : α → Prop}

theorem reads_readList (hentry : ∀ x, fits x → Reads entry (write x) x) {l : List α}
    (h : ListFits fits l) : Reads (readList entry) (writeList write l) l := by
  have hn : (l.length.toUInt32).toNat = l.length := by
    simp only [Nat.toUInt32, UInt32.toNat_ofNat']
    exact Nat.mod_eq_of_lt h.1
  have htimes := Reads.times (v := id) l (fun x hx => hentry x (h.2 x hx))
  rw [List.map_id] at htimes
  refine (reads_readVaruint32 _).bind ?_
  rw [hn]
  exact htimes

theorem writeList_ne_nil (l : List α) : writeList write l ≠ [] := by
  intro h
  exact AbiTraits.writeVaruint32_ne_nil _ (List.append_eq_nil_iff.mp h).1

/-- A list in the tail is written even when it is empty, so it is there to be read. -/
theorem reads_readTail (hentry : ∀ x, fits x → Reads entry (write x) x) {l : List α}
    (h : ListFits fits l) : Reads (readTail entry) (writeList write l) l := by
  intro rest
  have hne : ((writeList write l) ++ rest).isEmpty = false := by
    rw [List.isEmpty_eq_false_iff]
    exact List.append_ne_nil_of_left_ne_nil (writeList_ne_nil l) rest
  have hmore : canRead.run (writeList write l ++ rest) = .ok (true, writeList write l ++ rest) := by
    show Except.ok (!(writeList write l ++ rest).isEmpty, _) = _
    rw [hne]
    rfl
  unfold readTail
  rw [StateT.run_bind, hmore, ok_bind]
  exact reads_readList hentry h rest

/-- The lists that are skipped are written empty. -/
theorem reads_skipped (fixed : ℕ) : Reads (readList (skipEntry fixed)) (writeVaruint32 0) [] :=
  (reads_readVaruint32 0).bind_pure (fun _ => [])

theorem reads_readName (name : Name) : Reads readName (writeName name) name := by
  have hread := (reads_readInt 8 name.value.toNat name.value.toNat_lt).bind_pure
    (fun v => (⟨UInt64.ofNat v⟩ : Name))
  rwa [UInt64.ofNat_toNat] at hread

theorem reads_readField (f : Field) (h : f.Fits) : Reads readField (writeField f) f :=
  h.1.reads.bind (h.2.reads.bind_pure _)

theorem reads_readTypeDef (t : TypeDef) (h : t.Fits) : Reads readTypeDef (writeTypeDef t) t :=
  h.1.reads.bind (h.2.reads.bind_pure _)

theorem reads_readStruct (s : Struct) (h : s.Fits) : Reads readStruct (writeStruct s) s := by
  obtain ⟨hname, hbase, hfields⟩ := h
  exact hname.reads.bind (hbase.reads.bind ((reads_readList reads_readField hfields).bind_pure _))

theorem reads_readAction (a : Action) (h : a.Fits) : Reads readAction (writeAction a) a :=
  (reads_readName a.name).bind (h.1.reads.bind (h.2.reads.bind_pure _))

theorem reads_readTable (t : Table) (h : t.Fits) : Reads readTable (writeTable t) t := by
  obtain ⟨hindex, hnames, htypes, htype⟩ := h
  refine (reads_readName t.name).bind (hindex.reads.bind ?_)
  refine (reads_readList (fun _ hx => hx.reads) hnames).bind ?_
  exact (reads_readList (fun _ hx => hx.reads) htypes).bind (htype.reads.bind_pure _)

theorem reads_readClause (c : Clause) (h : c.Fits) : Reads readClause (writeClause c) c :=
  h.1.reads.bind (h.2.reads.bind_pure _)

theorem reads_readVariant (v : Variant) (h : v.Fits) : Reads readVariant (writeVariant v) v :=
  h.1.reads.bind ((reads_readList (fun _ hx => hx.reads) h.2).bind_pure _)

theorem reads_readActionResult (r : ActionResult) (h : r.Fits) :
    Reads readActionResult (writeActionResult r) r :=
  (reads_readName r.name).bind (h.reads.bind_pure _)

/-- **What was written is read**, section by section. -/
theorem reads_fromABI (abi : ABI) (h : abi.Fits) : Reads fromABI abi.toABI abi := by
  refine h.version.reads.bind ?_
  refine (reads_readList reads_readTypeDef h.types).bind ?_
  refine (reads_readList reads_readStruct h.structs).bind ?_
  refine (reads_readList reads_readAction h.actions).bind ?_
  refine (reads_readList reads_readTable h.tables).bind ?_
  refine (reads_readList reads_readClause h.ricardian_clauses).bind ?_
  refine (reads_skipped 8).bind ?_
  refine (reads_skipped 2).bind ?_
  refine (reads_readTail reads_readVariant h.variants).bind ?_
  exact (reads_readTail reads_readActionResult h.action_results).bind_pure _

end Reads

/-! ## What is read fits -/

section Yields

variable {α : Type} {entry : Decoder α} {fits : α → Prop}

theorem yields_readList (h : Yields entry fits) : Yields (readList entry) (ListFits fits) := by
  intro s l rest hrun
  unfold readList at hrun
  rw [StateT.run_bind] at hrun
  obtain ⟨⟨n, mid⟩, -, htimes⟩ := bind_eq_ok.mp hrun
  obtain ⟨hlength, hl⟩ := h.times n.toNat mid l rest htimes
  exact ⟨by rw [hlength]; exact n.toNat_lt, hl⟩

theorem yields_readTail (h : Yields entry fits) : Yields (readTail entry) (ListFits fits) := by
  refine Yields.bind (P := fun _ => True) (fun _ _ _ _ => trivial) ?_
  intro more _
  split_ifs
  · exact yields_readList h
  · exact Yields.pure ⟨by simp, by simp⟩

/-- Nothing is known of a name, or of what is skipped. -/
theorem yields_any (r : Decoder α) : Yields r (fun _ => True) := fun _ _ _ _ => trivial

theorem yields_readField : Yields readField Field.Fits :=
  yields_readString.bind fun _ hname => yields_readString.bind fun _ htype =>
    Yields.pure ⟨hname, htype⟩

theorem yields_readTypeDef : Yields readTypeDef TypeDef.Fits :=
  yields_readString.bind fun _ hname => yields_readString.bind fun _ htype =>
    Yields.pure ⟨hname, htype⟩

theorem yields_readStruct : Yields readStruct Struct.Fits :=
  yields_readString.bind fun _ hname => yields_readString.bind fun _ hbase =>
    (yields_readList yields_readField).bind fun _ hfields => Yields.pure ⟨hname, hbase, hfields⟩

theorem yields_readAction : Yields readAction Action.Fits :=
  (yields_any _).bind fun _ _ => yields_readString.bind fun _ htype =>
    yields_readString.bind fun _ hcontract => Yields.pure ⟨htype, hcontract⟩

theorem yields_readTable : Yields readTable Table.Fits :=
  (yields_any _).bind fun _ _ => yields_readString.bind fun _ hindex =>
    (yields_readList yields_readString).bind fun _ hnames =>
      (yields_readList yields_readString).bind fun _ htypes =>
        yields_readString.bind fun _ htype => Yields.pure ⟨hindex, hnames, htypes, htype⟩

theorem yields_readClause : Yields readClause Clause.Fits :=
  yields_readString.bind fun _ hid => yields_readString.bind fun _ hbody =>
    Yields.pure ⟨hid, hbody⟩

theorem yields_readVariant : Yields readVariant Variant.Fits :=
  yields_readString.bind fun _ hname => (yields_readList yields_readString).bind fun _ htypes =>
    Yields.pure ⟨hname, htypes⟩

theorem yields_readActionResult : Yields readActionResult ActionResult.Fits :=
  (yields_any _).bind fun _ _ => yields_readString.bind fun _ hresult => Yields.pure hresult

/-- **What is read fits**, whatever the bytes. -/
theorem yields_fromABI : Yields fromABI Fits := by
  refine yields_readString.bind fun version hversion => ?_
  refine (yields_readList yields_readTypeDef).bind fun types htypes => ?_
  refine (yields_readList yields_readStruct).bind fun structs hstructs => ?_
  refine (yields_readList yields_readAction).bind fun actions hactions => ?_
  refine (yields_readList yields_readTable).bind fun tables htables => ?_
  refine (yields_readList yields_readClause).bind fun clauses hclauses => ?_
  refine (yields_any _).bind fun _ _ => (yields_any _).bind fun _ _ => ?_
  refine (yields_readTail yields_readVariant).bind fun variants hvariants => ?_
  refine (yields_readTail yields_readActionResult).bind fun results hresults => ?_
  exact Yields.pure ⟨hversion, htypes, hstructs, hactions, htables, hclauses, hvariants, hresults⟩

end Yields

/-- **The binary form** of an ABI of UTF-8 texts is read back, to its last byte, exactly
when its lengths fit their prefixes. -/
theorem run_fromABI_toABI_iff {abi : ABI} (hutf : abi.Utf8) :
    fromABI.run abi.toABI = .ok (abi, []) ↔ abi.Sized := by
  rw [← fits_iff_sized hutf]
  constructor
  · intro hrun
    exact yields_fromABI _ _ _ hrun
  · intro hfits
    exact (reads_fromABI abi hfits).run_eq

/-! ## The json form is read back -/

theorem listAt_eq {α : Type} {j : Json} {key : Str} {entry : Json → Result α} {w : α → Json}
    {l : List α} (hkey : j.valueOr key (.arr []) = .ok (.arr (l.map w)))
    (hentry : ∀ x, entry (w x) = .ok x) : listAt j key entry = .ok l := by
  unfold listAt
  rw [hkey, ok_bind]
  show (l.map w).mapM entry = .ok l
  clear hkey
  induction l with
  | nil => rfl
  | cons x l ih =>
    rw [List.map_cons, List.mapM_cons, hentry x, ok_bind, ih, ok_bind]
    rfl

theorem stringsAt_eq {j : Json} {key : Str} {l : List Str}
    (hkey : j.valueOr key (.arr []) = .ok (stringsJson l)) : stringsAt j key = .ok l := by
  unfold stringsAt
  rw [hkey, ok_bind]
  show Except.ok ((l.map Json.str).filterMap _) = _
  rw [List.filterMap_map]
  exact congrArg Except.ok (List.filterMap_some (l := l))

theorem Field.ofJson_toJSON (f : Field) : Field.ofJson f.toJSON = .ok f := rfl

theorem TypeDef.ofJson_toJSON (t : TypeDef) : TypeDef.ofJson t.toJSON = .ok t := rfl

theorem Struct.ofJson_toJSON (s : Struct) : Struct.ofJson s.toJSON = .ok s := by
  unfold Struct.ofJson
  rw [listAt_eq (w := Field.toJSON) (l := s.fields) rfl Field.ofJson_toJSON]
  rfl

theorem Action.ofJson_toJSON (a : Action) : Action.ofJson a.toJSON = .ok a := by
  show Except.ok { a with name := Name.ofString a.name.toString } = _
  rw [Name.ofString_toString]

theorem Table.ofJson_toJSON (t : Table) : Table.ofJson t.toJSON = .ok t := by
  unfold Table.ofJson
  rw [stringsAt_eq (l := t.key_names) rfl, stringsAt_eq (l := t.key_types) rfl]
  show Except.ok { t with name := Name.ofString t.name.toString } = _
  rw [Name.ofString_toString]

theorem Clause.ofJson_toJSON (c : Clause) : Clause.ofJson c.toJSON = .ok c := rfl

theorem Variant.ofJson_toJSON (v : Variant) : Variant.ofJson v.toJSON = .ok v := by
  unfold Variant.ofJson
  rw [stringsAt_eq (l := v.types) rfl]
  rfl

theorem ActionResult.ofJson_toJSON (r : ActionResult) :
    ActionResult.ofJson r.toJSON = .ok r := by
  show Except.ok { r with name := Name.ofString r.name.toString } = _
  rw [Name.ofString_toString]

/-- **The json form** of an ABI with a version is read back; no text has to be parsed. -/
theorem ofJson_toJSON (parse : Str → Option Json) (abi : ABI) (hversion : abi.version ≠ []) :
    ofJson parse abi.toJSON = .ok abi := by
  show ofObject abi.toJSON = .ok abi
  unfold ofObject
  rw [listAt_eq (w := TypeDef.toJSON) (l := abi.types) rfl TypeDef.ofJson_toJSON,
    listAt_eq (w := Variant.toJSON) (l := abi.variants) rfl Variant.ofJson_toJSON,
    listAt_eq (w := Struct.toJSON) (l := abi.structs) rfl Struct.ofJson_toJSON,
    listAt_eq (w := Action.toJSON) (l := abi.actions) rfl Action.ofJson_toJSON,
    listAt_eq (w := Table.toJSON) (l := abi.tables) rfl Table.ofJson_toJSON,
    listAt_eq (w := Clause.toJSON) (l := abi.ricardian_clauses) rfl Clause.ofJson_toJSON,
    listAt_eq (w := ActionResult.toJSON) (l := abi.action_results) rfl
      ActionResult.ofJson_toJSON]
  show Except.ok { abi with version := if abi.version = [] then _ else abi.version } = _
  rw [if_neg hversion]

/-- **Both forms are read back**: the binary one of an ABI of UTF-8 texts exactly when its
lengths fit their prefixes, and the json one of an ABI with a version. -/
theorem forms_round_trip (parse : Str → Option Json) (abi : ABI) :
    (abi.Utf8 → (fromABI.run abi.toABI = .ok (abi, []) ↔ abi.Sized)) ∧
      (abi.version ≠ [] → ofJson parse abi.toJSON = .ok abi) :=
  ⟨run_fromABI_toABI_iff, ofJson_toJSON parse abi⟩

/-- An ABI with an action and its struct. -/
def transferAbi : ABI where
  structs := [{ name := "transfer", base := [], fields := [⟨"from", "name"⟩, ⟨"to", "name"⟩] }]
  actions := [{ name := .ofString "transfer", type := "transfer", ricardian_contract := [] }]

theorem forms_round_trip_transfer :
    fromABI.run transferAbi.toABI = .ok (transferAbi, []) ∧
      ofJson (fun _ => none) transferAbi.toJSON = .ok transferAbi := by
  have hutf : transferAbi.Utf8 := by
    unfold Utf8
    decide +kernel
  have hsized : transferAbi.Sized := by
    unfold Sized
    decide +kernel
  have hforms := forms_round_trip (fun _ => none) transferAbi
  exact ⟨(hforms.1 hutf).mpr hsized, hforms.2 (by decide +kernel)⟩

/-- An ABI whose version is a text of `2 ^ 32` bytes is not read back. -/
theorem long_version_lost :
    ({ version := List.replicate (2 ^ 32) 97 } : ABI).Utf8 ∧
      fromABI.run (toABI { version := List.replicate (2 ^ 32) 97 }) ≠
        .ok ({ version := List.replicate (2 ^ 32) 97 }, []) := by
  have hutf : ({ version := List.replicate (2 ^ 32) 97 } : ABI).Utf8 := by
    intro s hs
    have hs' : s = List.replicate (2 ^ 32) 97 := List.mem_singleton.mp hs
    rw [hs']
    exact isValidUTF8_replicate _
  refine ⟨hutf, ?_⟩
  intro hread
  have hlength := ((run_fromABI_toABI_iff hutf).mp hread).1 _ List.mem_cons_self
  simp only [List.length_replicate, lt_self_iff_false] at hlength

end ABI

end Dwarfkit
