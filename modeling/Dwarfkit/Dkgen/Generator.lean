/-
# The generated header

`Generator::run` of `tools/dkgen/generator.cpp`.  The output is kept as its pieces, each
marked with where it comes from: the generator's own text, the names given by the caller,
the base64 blob, or the ABI.

* `derived_safe_iff` : when everything that comes from the ABI is made of safe characters.
-/
import Dwarfkit.Antelope.Chain.AbiForms
import Dwarfkit.Core.Base64
import Dwarfkit.Dkgen.Order

namespace Dwarfkit

namespace Dkgen

/-! ## Pieces of output -/

/-- A piece of the output and where it comes from. -/
inductive Piece where
  | own (text : Str)
  | given (text : Str)
  | blob (text : Str)
  | derived (text : Str)
  deriving DecidableEq, Repr

def Piece.text : Piece → Str
  | own text => text
  | given text => text
  | blob text => text
  | derived text => text

/-- A piece of the generator's own text. -/
def code (s : String) : Piece := .own (lit s)

/-- The output itself. -/
def render (pieces : List Piece) : Str := pieces.flatMap Piece.text

/-- The lines of `blobLiteral`. -/
def blobLines : (fuel : ℕ) → Str → Str
  | 0, _ => []
  | fuel + 1, base64 =>
    if base64 = [] then []
    else lit "    \"" ++ base64.take 96 ++ lit "\"" ++
      (if 96 < base64.length then lit "\n" else []) ++ blobLines fuel (base64.drop 96)

/-- `blobLiteral`: string literals of 96 characters. -/
def blobLiteral (base64 : Str) : Str := blobLines base64.length base64

/-- `sanitizeIdentifier`. -/
def sanitizeIdentifier (name : Str) : Str :=
  let rv := name.map (fun c => if c = 46 then 95 else c)
  let rv := match rv with
    | c :: _ => if 48 ≤ c ∧ c ≤ 57 then 95 :: rv else rv
    | [] => rv
  if rv ∈ cppKeywords then rv ++ lit "_" else rv

/-! ## C++ types -/

/-- The text of a type. -/
def CppType.pieces : CppType → List Piece
  | types name => [code "Types::", .derived (className name)]
  | builtin cpp => [.own cpp]
  | vector t => [code "std::vector<"] ++ t.pieces ++ [code ">"]
  | optional t => [code "std::optional<"] ++ t.pieces ++ [code ">"]
  | binaryExtension t => [code "BinaryExtension<"] ++ t.pieces ++ [code ">"]

/-- `isArithmetic`. -/
def isArithmetic (cpp : Str) : Bool :=
  cpp ∈ ["bool", "uint8_t", "uint16_t", "uint32_t", "uint64_t", "int8_t",
    "int16_t", "int32_t", "int64_t", "float", "double"].map lit

section Emission

variable (abi : ABI)

/-! ## Declarations -/

/-- Texts with a comma between them. -/
def commaSeparated (texts : List (List Piece)) : List Piece := [code ", "].intercalate texts

/-- A `DK_VARIANT` line. -/
def variantDeclaration (item : StructData) : Result (List Piece) := do
  let types ← item.variantTypes.mapM (cppType abi)
  return [code "DK_VARIANT(", .derived (className item.name), code ", \"", .derived item.name,
      code "\", "] ++
    commaSeparated (types.map CppType.pieces) ++ [code ")\n\n"]

/-- A member of a struct. -/
def fieldDeclaration (item : StructData) (field : ABI.Field) : Result (List Piece) := do
  if field.name ∈ cppKeywords then
    err .unsupported (lit "ABI field name '" ++ field.name ++ lit "' in struct '" ++ item.name ++
      lit ("' is a C++ keyword; DK_FIELDS derives the wire name from the " ++
        "member name, so it cannot be renamed"))
  else do
    let cpp ← cppType abi field.type
    let cppText := render cpp.pieces
    return [code "    "] ++ cpp.pieces ++ [code " ", .derived field.name] ++
      (if isArithmetic cppText then
        if cppText = "bool" then [code " = false"] else [code " = 0"]
      else []) ++ [code ";\n"]

/-- A `struct` with its members. -/
def structDeclaration (item : StructData) : Result (List Piece) := do
  let members ← item.fields.mapM (fieldDeclaration abi item)
  return [code "struct ", .derived (className item.name), code " "] ++
    (if item.base ≠ [] then [code ": ", .derived (className item.base), code " "] else []) ++
    [code "\x7b\n"] ++
    (if item.base = [] then [code "    DK_STRUCT(\"", .derived item.name, code "\")\n"]
    else [code "    DK_STRUCT_BASE(\"", .derived item.name, code "\", ",
      .derived (className item.base), code ")\n"]) ++
    members.flatten ++
    (if item.fields ≠ [] then
      [code "    DK_FIELDS("] ++
        commaSeparated (item.fields.map (fun field => [.derived field.name])) ++ [code ")\n"]
    else [code "    DK_NO_FIELDS\n"]) ++
    [code "\x7d;\n\n"]

/-- A declaration of the `Types` namespace. -/
def declaration (item : StructData) : Result (List Piece) :=
  if item.variant then variantDeclaration abi item else structDeclaration abi item

/-! ## The contract class -/

/-- The helper of an action, when the type of its arguments is a struct or a variant. -/
def actionHelper (action : ABI.Action) : List Piece :=
  if isAbiStructOrVariant abi action.type then
    [code "\n", code "    Result<Action> ", .derived (sanitizeIdentifier action.name.toString),
      code "(const ", code "Types::", .derived (className action.type),
      code "& value, const ActionOptions& options = \x7b\x7d) const \x7b\n",
      code "        DK_TRY(data, Serializer::encode(value));\n",
      code "        return action(Name::from(\"", .derived action.name.toString,
      code "\"), json(data.hexString()), options);\n",
      code "    \x7d\n"]
  else []

/-- The accessor of a table. -/
def tableAccessor (table : ABI.Table) : List Piece :=
  [code "\n", code "    Result<dwarfkit::Table> ",
    .derived (sanitizeIdentifier table.name.toString), code "Table",
    code "(const json& scope = \x7b\x7d) const \x7b\n",
    code "        return table(Name::from(\"", .derived table.name.toString, code "\"), scope);\n",
    code "    \x7d\n"]

/-! ## The header -/

/-- One check of a name. -/
def checkName (message : String) (name : Str) : Result Unit :=
  if isSafeAbiName name then .ok () else err .invalid (lit message ++ name)

/-- What `run` checks before it emits anything. -/
def validate : Result Unit := do
  abi.structs.forM (fun entry => do
    checkName "Unsafe struct name in ABI: " entry.name
    entry.fields.forM (fun field => checkName "Unsafe field name in ABI: " field.name))
  abi.variants.forM (fun entry => checkName "Unsafe variant name in ABI: " entry.name)
  abi.types.forM (fun entry => checkName "Unsafe type name in ABI: " entry.new_type_name)

variable (contractName ns : Str)

/-- What comes before the declarations. -/
def prologue : List Piece :=
  [code "// Generated by dkgen from the ", .given contractName, code " ABI. Do not edit.\n",
    code "#pragma once\n\n",
    code "#include <dwarfkit/contract.hpp>\n\n",
    code "namespace dwarfkit::gen::", .given ns, code " \x7b\n\n",
    code "inline const char* const abiBlob =\n", .blob (blobLiteral (base64Encode abi.toABI)),
    code ";\n\n",
    code "inline const ABI& abi() \x7b\n",
    code "    static const ABI decoded = [] \x7b\n",
    code "        const auto parsed = Blob::from(abiBlob);\n",
    code "        if (parsed) \x7b\n",
    code "            const auto value = Serializer::decode<ABI>(parsed->array);\n",
    code "            if (value) \x7b\n",
    code "                return *value;\n",
    code "            \x7d\n",
    code "        \x7d\n",
    code "        return ABI();\n",
    code "    \x7d();\n",
    code "    return decoded;\n",
    code "\x7d\n\n",
    code "namespace Types \x7b\n\n"]

/-- What comes after them. -/
def epilogue : List Piece :=
  [code "\x7d  // namespace Types\n\n",
    code "class Contract : public dwarfkit::Contract \x7b\n",
    code "public:\n",
    code "    explicit Contract(const std::shared_ptr<APIClient>& client,\n",
    code "                      const Name& account = Name::from(\"", .given contractName,
    code "\"))\n",
    code "        : dwarfkit::Contract(\x7b.abi = ", .given ns,
    code "::abi(), .account = account, .client = client\x7d) \x7b\x7d\n"] ++
    abi.actions.flatMap (actionHelper abi) ++
    abi.tables.flatMap tableAccessor ++
    [code "\x7d;\n\n", code "\x7d  // namespace dwarfkit::gen::", .given ns, code "\n"]

/-- The name of the namespace. -/
def namespaceOf (contractName namespaceName : Str) : Str :=
  if namespaceName = [] then sanitizeIdentifier contractName else namespaceName

/-- `run`: the pieces of the header.  The ordering always ends. -/
def run (namespaceName : Str) : Result (List Piece) := do
  validate abi
  let ns := namespaceOf contractName namespaceName
  match orderStructs abi with
  | some ordered => do
    let declarations ← ordered.mapM (declaration abi)
    return prologue abi contractName ns ++ declarations.flatten ++ epilogue abi contractName ns
  | none => err .internal "Ordering did not end"

/-- `generateContractHeader`. -/
def generateContractHeader (namespaceName : Str) : Result Str :=
  render <$> run abi contractName namespaceName

end Emission

/-! ## Safe pieces -/

/-- What a piece takes from the ABI is made of safe characters. -/
def Piece.Clean : Piece → Prop
  | derived text => ∀ c ∈ text, isSafeChar c = true
  | _ => True

def Clean (pieces : List Piece) : Prop := ∀ p ∈ pieces, p.Clean

@[simp]
theorem clean_nil : Clean [] := by simp [Clean]

@[simp]
theorem clean_cons (p : Piece) (ps : List Piece) : Clean (p :: ps) ↔ p.Clean ∧ Clean ps := by
  simp [Clean]

@[simp]
theorem clean_append (ps qs : List Piece) : Clean (ps ++ qs) ↔ Clean ps ∧ Clean qs := by
  simp [Clean, or_imp, forall_and]

@[simp]
theorem clean_flatten (l : List (List Piece)) : Clean l.flatten ↔ ∀ ps ∈ l, Clean ps := by
  unfold Clean
  constructor
  · intro h ps hps p hp
    exact h p (List.mem_flatten_of_mem hps hp)
  · intro h p hp
    obtain ⟨ps, hps, hp⟩ := List.mem_flatten.mp hp
    exact h ps hps p hp

@[simp]
theorem clean_flatMap {α : Type} (l : List α) (f : α → List Piece) :
    Clean (l.flatMap f) ↔ ∀ a ∈ l, Clean (f a) := by
  rw [List.flatMap_def, clean_flatten]
  simp

@[simp]
theorem clean_code (s : String) : (code s).Clean := trivial

@[simp]
theorem clean_own (text : Str) : (Piece.own text).Clean := trivial

@[simp]
theorem clean_given (text : Str) : (Piece.given text).Clean := trivial

@[simp]
theorem clean_blob (text : Str) : (Piece.blob text).Clean := trivial

@[simp]
theorem clean_derived (text : Str) :
    (Piece.derived text).Clean ↔ ∀ c ∈ text, isSafeChar c = true := Iff.rfl

theorem clean_iff (pieces : List Piece) :
    Clean pieces ↔ ∀ text, Piece.derived text ∈ pieces → ∀ c ∈ text, isSafeChar c = true := by
  constructor
  · intro h text htext
    exact h _ htext
  · intro h p hp
    cases p with
    | derived text => exact h text hp
    | own text => trivial
    | given text => trivial
    | blob text => trivial

@[simp]
theorem clean_commaSeparated (texts : List (List Piece)) :
    Clean (commaSeparated texts) ↔ ∀ ps ∈ texts, Clean ps := by
  unfold commaSeparated
  induction texts with
  | nil => simp [List.intercalate]
  | cons ps texts ih =>
    cases texts with
    | nil => simp [List.intercalate]
    | cons qs texts =>
      rw [List.intercalate_cons_cons, clean_append, clean_append, ih]
      simp

/-- The dots that `className` removes are safe. -/
@[simp]
theorem safe_className (name : Str) :
    (∀ c ∈ className name, isSafeChar c = true) ↔ ∀ c ∈ name, isSafeChar c = true := by
  unfold className
  simp only [List.mem_filter, decide_eq_true_eq, and_imp]
  constructor
  · intro h c hc
    by_cases hdot : c = 46
    · rw [hdot]
      decide
    · exact h c hc hdot
  · intro h c hc _
    exact h c hc

theorem safe_sanitizeIdentifier {name : Str} (h : ∀ c ∈ name, isSafeChar c = true) :
    ∀ c ∈ sanitizeIdentifier name, isSafeChar c = true := by
  have hmap : ∀ c ∈ name.map (fun c => if c = 46 then 95 else c), isSafeChar c = true := by
    intro c hc
    obtain ⟨d, hd, rfl⟩ := List.mem_map.mp hc
    split_ifs
    · decide
    · exact h d hd
  have hunderscore : isSafeChar 95 = true := by decide
  unfold sanitizeIdentifier
  simp only
  generalize name.map (fun c => if c = 46 then 95 else c) = rv at hmap
  have hdigit : ∀ c ∈ (match rv with
      | c :: _ => if 48 ≤ c ∧ c ≤ 57 then 95 :: rv else rv
      | [] => rv), isSafeChar c = true := by
    cases rv with
    | nil => exact hmap
    | cons d rest =>
      simp only
      split_ifs
      · exact List.forall_mem_cons.mpr ⟨hunderscore, hmap⟩
      · exact hmap
  split_ifs
  · refine List.forall_mem_append.mpr ⟨hdigit, ?_⟩
    intro c hc
    have hc : c = 95 := List.mem_singleton.mp hc
    rw [hc]
    exact hunderscore
  · exact hdigit

/-- A name is safe text. -/
theorem safe_toString (name : Name) : ∀ c ∈ name.toString, isSafeChar c = true := by
  intro ch hch
  obtain ⟨c, hc, rfl⟩ := Name.mem_toString hch
  have hall : ∀ n : Fin 32, isSafeChar (symbolToChar (UInt64.ofNat n)) = true := by
    decide +kernel
  have hsymbol := hall ⟨c.toNat, hc⟩
  simpa using hsymbol

/-! ## What is checked -/

/-- What `validate` lets through. -/
structure Validated (abi : ABI) : Prop where
  structs : ∀ s ∈ abi.structs, isSafeAbiName s.name = true
  fields : ∀ s ∈ abi.structs, ∀ f ∈ s.fields, isSafeAbiName f.name = true
  variants : ∀ v ∈ abi.variants, isSafeAbiName v.name = true
  types : ∀ t ∈ abi.types, isSafeAbiName t.new_type_name = true

theorem forall_of_forM {α : Type} {f : α → Result Unit} {l : List α} (h : l.forM f = .ok ()) :
    ∀ a ∈ l, f a = .ok () := by
  induction l with
  | nil => simp
  | cons a l ih =>
    have hcons : (f a >>= fun _ => l.forM f) = .ok () := h
    obtain ⟨_, ha, hl⟩ := bind_eq_ok.mp hcons
    exact List.forall_mem_cons.mpr ⟨ha, ih hl⟩

/-- A check that passes. -/
theorem of_checkName {message : String} {name : Str} (h : checkName message name = .ok ()) :
    isSafeAbiName name = true := by
  unfold checkName at h
  split_ifs at h with hsafe
  · exact hsafe
  · cases h

theorem validated {abi : ABI} (h : validate abi = .ok ()) : Validated abi := by
  unfold validate at h
  obtain ⟨_, hstructs, h⟩ := bind_eq_ok.mp h
  obtain ⟨_, hvariants, htypes⟩ := bind_eq_ok.mp h
  refine ⟨?_, ?_, ?_, ?_⟩
  · intro s hs
    obtain ⟨_, hname, _⟩ := bind_eq_ok.mp (forall_of_forM hstructs s hs)
    exact of_checkName hname
  · intro s hs f hf
    obtain ⟨_, _, hfields⟩ := bind_eq_ok.mp (forall_of_forM hstructs s hs)
    exact of_checkName (forall_of_forM hfields f hf)
  · intro v hv
    exact of_checkName (forall_of_forM hvariants v hv)
  · intro t ht
    exact of_checkName (forall_of_forM htypes t ht)

section Validated

variable {abi : ABI} (hvalid : Validated abi)
include hvalid

/-- A declared name is safe. -/
theorem Validated.declared {name : Str} (h : isAbiStructOrVariant abi name = true) :
    isSafeAbiName name = true := by
  unfold isAbiStructOrVariant at h
  rw [Bool.or_eq_true, List.any_eq_true, List.any_eq_true] at h
  rcases h with ⟨s, hs, hname⟩ | ⟨v, hv, hname⟩
  · exact of_decide_eq_true hname ▸ hvalid.structs s hs
  · exact of_decide_eq_true hname ▸ hvalid.variants v hv

/-- So are the names of what is collected. -/
theorem Validated.collected {item : StructData} (h : item ∈ collectStructs abi) :
    isSafeAbiName item.name = true ∧ ∀ f ∈ item.fields, isSafeAbiName f.name = true := by
  rcases List.mem_append.mp h with h | h
  · obtain ⟨v, hv, rfl⟩ := List.mem_map.mp h
    exact ⟨hvalid.variants v hv, by simp [StructData.ofVariant]⟩
  · obtain ⟨s, hs, rfl⟩ := List.mem_map.mp h
    exact ⟨hvalid.structs s hs, hvalid.fields s hs⟩

/-- A type is emitted in safe text. -/
theorem clean_cppType {fieldType : Str} {t : CppType} (h : cppType abi fieldType = .ok t) :
    Clean t.pieces := by
  unfold cppType at h
  obtain ⟨type, htype, h⟩ := bind_eq_ok.mp h
  have hclean : Clean type.pieces := by
    unfold namedType at htype
    split at htype
    · rename_i hdeclared
      cases htype
      have hsafe := (safe_of_isSafeAbiName (hvalid.declared hdeclared)).2
      simpa [CppType.pieces] using hsafe
    · split at htype
      · cases htype
        simp [CppType.pieces]
      · cases htype
  cases h
  unfold ParsedType.wrap
  simp only
  split_ifs <;> simpa [CppType.pieces] using hclean

theorem clean_fieldDeclaration {item : StructData} {field : ABI.Field} {ps : List Piece}
    (hfield : isSafeAbiName field.name = true) (h : fieldDeclaration abi item field = .ok ps) :
    Clean ps := by
  unfold fieldDeclaration at h
  split at h
  · cases h
  · obtain ⟨cpp, hcpp, h⟩ := bind_eq_ok.mp h
    have hclean := clean_cppType hvalid hcpp
    have hname := (safe_of_isSafeAbiName hfield).2
    cases h
    split_ifs <;> simp [hclean] <;> exact hname

/-- **A declaration** is emitted in safe text exactly when its base is safe. -/
theorem clean_declaration_iff {item : StructData} (hitem : item ∈ collectStructs abi)
    {ps : List Piece} (h : declaration abi item = .ok ps) :
    Clean ps ↔ ∀ c ∈ item.base, isSafeChar c = true := by
  obtain ⟨hname, hfields⟩ := hvalid.collected hitem
  have hname := (safe_of_isSafeAbiName hname).2
  unfold declaration at h
  split at h
  · rename_i hvariant
    have hbase : item.base = [] := by
      rcases List.mem_append.mp hitem with hmem | hmem
      · obtain ⟨v, -, rfl⟩ := List.mem_map.mp hmem
        rfl
      · obtain ⟨s, -, rfl⟩ := List.mem_map.mp hmem
        cases hvariant
    unfold variantDeclaration at h
    obtain ⟨types, htypes, h⟩ := bind_eq_ok.mp h
    cases h
    have hclean : ∀ t ∈ types, Clean t.pieces := by
      intro t ht
      obtain ⟨type, -, htype⟩ := mem_of_mapM htypes ht
      exact clean_cppType hvalid htype
    simp [hbase]
    exact ⟨hname, hclean⟩
  · unfold structDeclaration at h
    obtain ⟨members, hmembers, h⟩ := bind_eq_ok.mp h
    cases h
    have hclean : ∀ m ∈ members, Clean m := by
      intro m hm
      obtain ⟨field, hfield, hdecl⟩ := mem_of_mapM hmembers hm
      exact clean_fieldDeclaration hvalid (hfields field hfield) hdecl
    have hfields' : ∀ f ∈ item.fields, ∀ c ∈ f.name, isSafeChar c = true :=
      fun f hf => (safe_of_isSafeAbiName (hfields f hf)).2
    -- The field names were validated, unlike the base: it is emitted as the ABI has it.
    have hlist : Clean (if item.fields ≠ [] then
        [code "    DK_FIELDS("] ++
          commaSeparated (item.fields.map (fun field => [.derived field.name])) ++ [code ")\n"]
        else [code "    DK_NO_FIELDS\n"]) := by
      split_ifs
      · simpa using hfields'
      · simp
    by_cases hbase : item.base = []
    · rw [if_neg (not_not.mpr hbase), if_pos hbase]
      simp only [clean_append, clean_cons, clean_nil, clean_code, clean_derived, safe_className,
        clean_flatten, and_true, true_and]
      refine iff_of_true ⟨⟨⟨hname, hname⟩, hclean⟩, hlist⟩ ?_
      simp [hbase]
    · rw [if_pos hbase, if_neg hbase]
      simp only [clean_append, clean_cons, clean_nil, clean_code, clean_derived, safe_className,
        clean_flatten, and_true, true_and]
      constructor
      · rintro ⟨⟨⟨⟨-, hsafe⟩, -⟩, -⟩, -⟩
        exact hsafe
      · intro hsafe
        exact ⟨⟨⟨⟨hname, hsafe⟩, hname, hsafe⟩, hclean⟩, hlist⟩

theorem clean_actionHelper (action : ABI.Action) : Clean (actionHelper abi action) := by
  unfold actionHelper
  split_ifs with hdeclared
  · have htype := (safe_of_isSafeAbiName (hvalid.declared hdeclared)).2
    have hname := safe_toString action.name
    have hmethod := safe_sanitizeIdentifier hname
    simp only [clean_cons, clean_nil, clean_code, clean_derived, safe_className, and_true, true_and]
    exact ⟨hmethod, htype, hname⟩
  · exact clean_nil

end Validated

theorem clean_tableAccessor (table : ABI.Table) : Clean (tableAccessor table) := by
  have hname := safe_toString table.name
  have hmethod := safe_sanitizeIdentifier hname
  unfold tableAccessor
  simp only [clean_cons, clean_nil, clean_code, clean_derived, and_true, true_and]
  exact ⟨hmethod, hname⟩

theorem clean_prologue (abi : ABI) (contractName ns : Str) :
    Clean (prologue abi contractName ns) := by
  simp [prologue]

theorem clean_epilogue {abi : ABI} (hvalid : Validated abi) (contractName ns : Str) :
    Clean (epilogue abi contractName ns) := by
  unfold epilogue
  simp only [clean_append, clean_cons, clean_nil, clean_code, clean_given, clean_flatMap, and_true,
    true_and]
  exact ⟨fun action _ => clean_actionHelper hvalid action,
    fun table _ => clean_tableAccessor table⟩

/-! ## The output -/

/-- **A run that succeeds** has checked the names, and emits the declarations in their
order. -/
theorem run_eq_ok {abi : ABI} {contractName namespaceName : Str} {out : List Piece}
    (h : run abi contractName namespaceName = .ok out) :
    Validated abi ∧ ∃ ordered declarations, orderStructs abi = some ordered ∧
      ordered.mapM (declaration abi) = .ok declarations ∧
      out = prologue abi contractName (namespaceOf contractName namespaceName) ++
        declarations.flatten ++
        epilogue abi contractName (namespaceOf contractName namespaceName) := by
  unfold run at h
  obtain ⟨_, hvalidate, h⟩ := bind_eq_ok.mp h
  refine ⟨validated hvalidate, ?_⟩
  obtain ⟨ordered, hordered⟩ := exists_orderStructs abi
  simp only [hordered] at h
  obtain ⟨declarations, hdeclarations, h⟩ := bind_eq_ok.mp h
  cases h
  exact ⟨ordered, declarations, hordered, hdeclarations, rfl⟩

/-- **What comes from the ABI** outside the blob is made of safe characters exactly when the
bases are: no check is made of the base of a struct. -/
theorem derived_safe_iff {abi : ABI} {contractName namespaceName : Str} {out : List Piece}
    (h : run abi contractName namespaceName = .ok out) :
    (∀ text, Piece.derived text ∈ out → ∀ c ∈ text, isSafeChar c = true) ↔
      ∀ s ∈ abi.structs, findByName (collectStructs abi) s.name = some (.ofStruct s) →
        ∀ c ∈ s.base, isSafeChar c = true := by
  obtain ⟨hvalid, ordered, declarations, hordered, hdeclarations, rfl⟩ := run_eq_ok h
  rw [← clean_iff, clean_append, clean_append, clean_flatten]
  simp only [clean_prologue, clean_epilogue hvalid, true_and, and_true]
  constructor
  · intro hclean s hs hfirst
    have hitem := (mem_orderStructs abi hordered (.ofStruct s)).mpr hfirst
    obtain ⟨ps, hps, hdeclaration⟩ := exists_of_mapM hdeclarations hitem
    exact (clean_declaration_iff hvalid (mem_of_findByName hfirst) hdeclaration).mp (hclean ps hps)
  · intro hsafe ps hps
    obtain ⟨item, hitem, hdeclaration⟩ := mem_of_mapM hdeclarations hps
    have hfirst := (mem_orderStructs abi hordered item).mp hitem
    have hcollected := mem_of_findByName hfirst
    rw [clean_declaration_iff hvalid hcollected hdeclaration]
    rcases List.mem_append.mp hcollected with hmem | hmem
    · obtain ⟨v, -, rfl⟩ := List.mem_map.mp hmem
      simp [StructData.ofVariant]
    · obtain ⟨s, hs, rfl⟩ := List.mem_map.mp hmem
      exact hsafe s hs hfirst

/-- A struct with a safe base. -/
def derivedAbi : ABI where
  structs := [{ name := "a", base := "b", fields := [⟨"x", "name"⟩] },
    { name := "b", base := [], fields := [] }]

theorem derived_safe_derivedAbi :
    ∃ out, run derivedAbi "eosio" [] = .ok out ∧
      ∀ text, Piece.derived text ∈ out → ∀ c ∈ text, isSafeChar c = true := by
  have hsome : (run derivedAbi "eosio" []).toOption.isSome = true := by decide +kernel
  cases hout : run derivedAbi "eosio" [] with
  | error e =>
    rw [hout] at hsome
    cases hsome
  | ok out =>
    refine ⟨out, rfl, (derived_safe_iff hout).mpr ?_⟩
    intro s hs _
    have hall : derivedAbi.structs.all (fun s => s.base.all isSafeChar) = true := by
      decide +kernel
    exact List.all_eq_true.mp (List.all_eq_true.mp hall s hs)

/-- A struct whose base ends the line and goes on with text of its own. -/
def injectedAbi : ABI where
  structs := [{ name := "a", base := "b\n#include \"c.hpp\"\n", fields := [] }]

/-- The base of the struct is emitted as it is. -/
theorem base_injected :
    ∃ out, run injectedAbi "eosio" [] = .ok out ∧
      Piece.derived (lit "b\n#include \"chpp\"\n") ∈ out ∧
      ¬ ∀ text, Piece.derived text ∈ out → ∀ c ∈ text, isSafeChar c = true := by
  have hmem : ((run injectedAbi "eosio" []).toOption.map
      (fun out => out.contains (.derived (lit "b\n#include \"chpp\"\n")))) = some true := by
    decide +kernel
  cases hout : run injectedAbi "eosio" [] with
  | error e =>
    rw [hout] at hmem
    cases hmem
  | ok out =>
    rw [hout] at hmem
    have hpiece : Piece.derived (lit "b\n#include \"chpp\"\n") ∈ out := by
      simpa [Except.toOption] using hmem
    refine ⟨out, rfl, hpiece, ?_⟩
    intro hsafe
    exact absurd (hsafe _ hpiece 10 (by decide)) (by decide)

end Dkgen

end Dwarfkit
