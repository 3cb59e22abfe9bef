/-
# The static encoding of generated types

What a program that includes a generated header does with the types in it: the classes
`DK_STRUCT` and `DK_VARIANT` declare, and `abi_traits<T>::toABI` of the types that `cppType`
composes (`serializer/traits.hpp`).  A value of a library type is given by its json form, and
an alternative of a variant by its type string in the ABI.
-/
import Dwarfkit.Antelope.Serializer.Synthesize
import Dwarfkit.Dkgen.Generator

namespace Dwarfkit

namespace Dkgen

/-! ## Library types -/

/-- `abi_traits<T>::abiName` of the library types.  `ExtendedSymbol` has no traits. -/
def libraryNames : List (Str × Str) :=
  [(lit "bool", lit "bool"),
   (lit "std::string", lit "string"),
   (lit "uint8_t", lit "uint8"),
   (lit "uint16_t", lit "uint16"),
   (lit "uint32_t", lit "uint32"),
   (lit "uint64_t", lit "uint64"),
   (lit "int8_t", lit "int8"),
   (lit "int16_t", lit "int16"),
   (lit "int32_t", lit "int32"),
   (lit "int64_t", lit "int64"),
   (lit "UInt128", lit "uint128"),
   (lit "Int128", lit "int128"),
   (lit "VarUInt", lit "varuint32"),
   (lit "VarInt", lit "varint32"),
   (lit "float", lit "float32"),
   (lit "double", lit "float64"),
   (lit "Float128", lit "float128"),
   (lit "Name", lit "name"),
   (lit "Asset", lit "asset"),
   (lit "Asset::Symbol", lit "symbol"),
   (lit "Asset::SymbolCode", lit "symbol_code"),
   (lit "ExtendedAsset", lit "extended_asset"),
   (lit "Bytes", lit "bytes"),
   (lit "Checksum160", lit "checksum160"),
   (lit "Checksum256", lit "checksum256"),
   (lit "Checksum512", lit "checksum512"),
   (lit "PublicKey", lit "public_key"),
   (lit "Signature", lit "signature"),
   (lit "TimePoint", lit "time_point"),
   (lit "TimePointSec", lit "time_point_sec"),
   (lit "BlockTimestamp", lit "block_timestamp_type")]

/-- The codec of a library type.  The dynamic serializer's registry has it under the type's
own name; `unregistered` has those of the types that it lacks. -/
def libraryType (p : Platform) (unregistered : Str → Option BuiltinType) (cpp : Str) :
    Option BuiltinType :=
  match libraryNames.find? (fun e => e.1 = cpp) with
  | some e => findBuiltin p e.2
  | none => unregistered cpp

/-! ## Classes -/

section Classes

variable (abi : ABI)

/-- The declaration of a class. -/
def classNamed (name : Str) : Option StructData := findByName (collectStructs abi) name

/-- The fields `dkForEach` visits within `fuel` classes: those of the base come first. -/
def visitedFields : (fuel : ℕ) → Str → Option (List ABI.Field)
  | 0, _ => none
  | fuel + 1, name =>
    match classNamed abi name with
    | none => none
    | some item =>
      if item.variant then none
      else if item.base = [] then some item.fields
      else (visitedFields fuel item.base).map (fun inherited => inherited ++ item.fields)

/-- `dkForEach`.  A class that is no struct, or is among its own bases, does not compile. -/
def dkForEach (name : Str) : Option (List ABI.Field) :=
  visitedFields abi ((collectStructs abi).length + 1) name

end Classes

/-! ## The encoder -/

section Encoder

variable (p : Platform) (unregistered : Str → Option BuiltinType) (abi : ABI)

/-- A value that is none of its type. -/
def mistyped : Result Bytes := err .invalid "Not a value of the type"

mutual

/-- `abi_traits<T>::toABI`. -/
def toABI : CppType → DkValue → Result Bytes
  | .builtin cpp, .builtin json =>
    match libraryType p unregistered cpp with
    | some builtin => builtin.encodeJSON json
    | none => mistyped
  | .types name, .struct fields =>
    match dkForEach abi name with
    | some declared => fieldsToABI declared fields
    | none => mistyped
  | .types name, .variant typeName value =>
    match classNamed abi name with
    | some item =>
      match item.variant, item.variantTypes.findIdx? (fun type => type = typeName) with
      | true, some index => do
        let t ← cppType abi typeName
        let bytes ← toABI t value
        return writeVaruint32 index.toUInt32 ++ bytes
      | _, _ => mistyped
    | none => mistyped
  | .vector t, .array items => do
    let bytes ← itemsToABI t items
    return writeVaruint32 items.length.toUInt32 ++ bytes
  | .optional _, .absent => .ok [0]
  | .optional t, .present value => do
    let bytes ← toABI t value
    return [1] ++ bytes
  | .binaryExtension _, .absent => .ok []
  | .binaryExtension t, .present value => toABI t value
  | _, _ => mistyped

/-- The items of a vector. -/
def itemsToABI (t : CppType) : List DkValue → Result Bytes
  | [] => .ok []
  | value :: values => do
    let bytes ← toABI t value
    let rest ← itemsToABI t values
    return bytes ++ rest

/-- `dkStructToABI`, for the fields of a class. -/
def fieldsToABI : List ABI.Field → List (Str × DkValue) → Result Bytes
  | [], [] => .ok []
  | field :: declared, (name, value) :: fields => do
    if field.name = name then
      let t ← cppType abi field.type
      let bytes ← toABI t value
      let rest ← fieldsToABI declared fields
      return bytes ++ rest
    else mistyped
  | _, _ => mistyped

end

end Encoder

end Dkgen

end Dwarfkit
