/-
# The C++ types of ABI types

The first half of `tools/dkgen/generator.cpp`: the type strings of an ABI, the names they
depend on, and the C++ types they are mapped to.  A type string has at most one layer of
each suffix, and a typedef is followed once.
-/
import Dwarfkit.Antelope.Chain.Abi

namespace Dwarfkit

namespace Dkgen

/-! ## Names -/

/-- `builtinTypes`: ABI builtin and dwarfkit type. -/
def builtinTypes : List (Str × Str) :=
  [(lit "bool", lit "bool"),
   (lit "string", lit "std::string"),
   (lit "uint8", lit "uint8_t"),
   (lit "uint16", lit "uint16_t"),
   (lit "uint32", lit "uint32_t"),
   (lit "uint64", lit "uint64_t"),
   (lit "int8", lit "int8_t"),
   (lit "int16", lit "int16_t"),
   (lit "int32", lit "int32_t"),
   (lit "int64", lit "int64_t"),
   (lit "uint128", lit "UInt128"),
   (lit "int128", lit "Int128"),
   (lit "varuint32", lit "VarUInt"),
   (lit "varint32", lit "VarInt"),
   (lit "float32", lit "float"),
   (lit "float64", lit "double"),
   (lit "float128", lit "Float128"),
   (lit "name", lit "Name"),
   (lit "asset", lit "Asset"),
   (lit "symbol", lit "Asset::Symbol"),
   (lit "symbol_code", lit "Asset::SymbolCode"),
   (lit "extended_asset", lit "ExtendedAsset"),
   (lit "extended_symbol", lit "ExtendedSymbol"),
   (lit "bytes", lit "Bytes"),
   (lit "blob", lit "Blob"),
   (lit "checksum160", lit "Checksum160"),
   (lit "checksum256", lit "Checksum256"),
   (lit "checksum512", lit "Checksum512"),
   (lit "block_id_type", lit "BlockId"),
   (lit "public_key", lit "PublicKey"),
   (lit "signature", lit "Signature"),
   (lit "time_point", lit "TimePoint"),
   (lit "time_point_sec", lit "TimePointSec"),
   (lit "block_timestamp_type", lit "BlockTimestamp"),
   (lit "key_weight", lit "KeyWeight"),
   (lit "permission_level_weight", lit "PermissionLevelWeight"),
   (lit "wait_weight", lit "WaitWeight"),
   (lit "weight_type", lit "Weight"),
   (lit "authority", lit "Authority"),
   (lit "permission_level", lit "PermissionLevel"),
   (lit "action", lit "Action"),
   (lit "transaction_extension", lit "TransactionExtension"),
   (lit "transaction_header", lit "TransactionHeader"),
   (lit "transaction", lit "Transaction"),
   (lit "abi", lit "ABI")]

/-- The dwarfkit type of an ABI builtin. -/
def builtinType (name : Str) : Option Str :=
  (builtinTypes.find? (fun e => e.1 = name)).map Prod.snd

def cppKeywords : List Str :=
  ["alignas", "alignof", "and", "asm", "auto", "bool", "break",
    "case", "catch", "char", "class", "concept", "const", "constexpr",
    "continue", "default", "delete", "do", "double", "else", "enum",
    "explicit", "export", "extern", "false", "float", "for", "friend",
    "goto", "if", "inline", "int", "long", "mutable", "namespace",
    "new", "noexcept", "not", "nullptr", "operator", "or", "private",
    "protected", "public", "register", "requires", "return", "short", "signed",
    "sizeof", "static", "struct", "switch", "template", "this", "throw",
    "true", "try", "typedef", "typeid", "typename", "union", "unsigned",
    "using", "virtual", "void", "volatile", "while", "xor"].map lit

/-- `className`: the dots of a name are removed. -/
def className (name : Str) : Str := name.filter (fun c => c ≠ 46)

/-- The characters of `isSafeAbiName`. -/
def isSafeChar (c : UInt8) : Bool :=
  (97 ≤ c && c ≤ 122) || (65 ≤ c && c ≤ 90) || (48 ≤ c && c ≤ 57) || c = 95 || c = 46

/-- `isSafeAbiName`. -/
def isSafeAbiName (name : Str) : Bool :=
  !(name.isEmpty || 1024 < name.length) && name.all isSafeChar

/-! ## Type strings -/

/-- `ParsedType`: a type string without its suffixes, and the suffixes. -/
structure ParsedType where
  base : Str
  array : Bool := false
  optional : Bool := false
  extension : Bool := false
  deriving DecidableEq, Repr

/-- `parseTypeString`: one layer of each suffix is stripped, from the outside in. -/
def parseTypeString (type : Str) : ParsedType :=
  let (type, extension) := ABI.ResolvedNode.chop (type.filter (fun c => !isSpace c)) "$"
  let (type, optional) := ABI.ResolvedNode.chop type "?"
  let (type, array) := ABI.ResolvedNode.chop type "[]"
  { base := type, array, optional, extension }

section Abi

variable (abi : ABI)

/-- `isAbiStructOrVariant`. -/
def isAbiStructOrVariant (name : Str) : Bool :=
  abi.structs.any (fun s => s.name = name) || abi.variants.any (fun v => v.name = name)

/-- `aliasTarget`: one level of typedef resolution. -/
def aliasTarget (name : Str) : Option Str :=
  (abi.types.find? (fun t => t.new_type_name = name)).map (fun t => t.type)

/-- `dependencyName`: the name a type resolves to through one typedef, or an empty one when
it is no struct and no variant. -/
def dependencyName (fieldType : Str) : Str :=
  let parsed := parseTypeString fieldType
  let base := match aliasTarget abi parsed.base with
    | some target => (parseTypeString target).base
    | none => parsed.base
  if isAbiStructOrVariant abi base then base else []

/-! ## C++ types -/

/-- The C++ types that `cppType` composes: a class of the `Types` namespace, a type of the
library, and the containers. -/
inductive CppType where
  | types (name : Str)
  | builtin (cpp : Str)
  | vector (t : CppType)
  | optional (t : CppType)
  | binaryExtension (t : CppType)
  deriving DecidableEq, Repr

/-- A type string with its typedef replaced: the suffixes of both are merged, but for the
extension mark of the typedef. -/
def replaceAlias (parsed : ParsedType) : ParsedType :=
  match aliasTarget abi parsed.base with
  | some target =>
    let aliasParsed := parseTypeString target
    { parsed with
      base := aliasParsed.base
      array := parsed.array || aliasParsed.array
      optional := parsed.optional || aliasParsed.optional }
  | none => parsed

/-- The type of a name without suffixes. -/
def namedType (base : Str) : Result CppType :=
  if isAbiStructOrVariant abi base then .ok (.types base)
  else match builtinType base with
    | some cpp => .ok (.builtin cpp)
    | none => err .invalid (lit "Unknown ABI type: " ++ base)

/-- The containers of a type, from the inside out. -/
def ParsedType.wrap (parsed : ParsedType) (type : CppType) : CppType :=
  let type := if parsed.array then type.vector else type
  let type := if parsed.optional && !parsed.extension then type.optional else type
  if parsed.extension then type.binaryExtension else type

/-- `cppType`. -/
def cppType (fieldType : Str) : Result CppType := do
  let parsed := replaceAlias abi (parseTypeString fieldType)
  let type ← namedType abi parsed.base
  return parsed.wrap type

end Abi

/-! ## Facts about names and type strings -/

theorem safe_of_isSafeAbiName {name : Str} (h : isSafeAbiName name = true) :
    name ≠ [] ∧ ∀ c ∈ name, isSafeChar c = true := by
  unfold isSafeAbiName at h
  rw [Bool.and_eq_true, Bool.not_eq_true', Bool.or_eq_false_iff, List.all_eq_true] at h
  exact ⟨List.isEmpty_eq_false_iff.mp h.1.1, h.2⟩

/-- A safe character is no blank and belongs to no suffix. -/
theorem isSafeChar_plain {c : UInt8} (h : isSafeChar c = true) :
    isSpace c = false ∧ c ≠ 36 ∧ c ≠ 63 ∧ c ≠ 93 := by
  revert h
  exact Wire.forall_byte (P := fun c => isSafeChar c = true →
    isSpace c = false ∧ c ≠ 36 ∧ c ≠ 63 ∧ c ≠ 93) (by decide +kernel) c

/-- The names of the builtin types are safe. -/
theorem safe_of_builtinType {name cpp : Str} (h : builtinType name = some cpp) :
    ∀ c ∈ name, isSafeChar c = true := by
  obtain ⟨e, he, -⟩ := Option.map_eq_some_iff.mp h
  have hall : builtinTypes.all (fun e => e.1.all isSafeChar) = true := by decide +kernel
  have hname : e.1 = name := by simpa using List.find?_some he
  rw [← hname]
  exact List.all_eq_true.mp (List.all_eq_true.mp hall e (List.mem_of_find?_eq_some he))

end Dkgen

end Dwarfkit
