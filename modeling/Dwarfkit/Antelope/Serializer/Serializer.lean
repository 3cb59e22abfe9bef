/-
# The dynamic serializer

`antelope/serializer/serializer.cpp`: the three walkers over a json value or a
buffer along a resolved ABI type.  `encodeAny` writes a value, `decodeBinary` reads
one back, and `decodeObject` brings a value into the form a decode would give.  A
failing walker reports the coding path it had reached.
-/
import Dwarfkit.Antelope.Chain.Abi
import Dwarfkit.Antelope.Serializer.Builtins

namespace Dwarfkit

open Wire

/-! ## Coding paths and failures -/

/-- `PathEntry`: a field or index and the name of its type. -/
structure PathEntry where
  field : Str
  isIndex : Bool := false
  type : Str
  deriving DecidableEq, Repr

/-- `Context::codingPath`. -/
abbrev CodingPath := List PathEntry

namespace CodingPath

/-- `Context::path`. -/
def text (path : CodingPath) : Str :=
  (lit ".").intercalate (path.map (fun e =>
    if e.isIndex then e.field else e.field ++ lit "<" ++ e.type ++ lit ">"))

/-- `Context::fieldPath`. -/
def fieldPath (path : CodingPath) : Str := (lit ".").intercalate (path.map (·.field))

/-- The path of a named member, an alias or an alternative. -/
def push (path : CodingPath) (field : Str) (type : ABI.ResolvedNode) : CodingPath :=
  path ++ [{ field, type := type.typeName }]

/-- The path of an array item. -/
def pushIndex (path : CodingPath) (i : ℕ) (type : ABI.ResolvedNode) : CodingPath :=
  path ++ [{ field := natToString i, isIndex := true, type := type.typeName }]

end CodingPath

/-- An error and the coding path it was met at. -/
structure Failure where
  path : CodingPath
  error : Error

/-- A walker's result. -/
abbrev Coding (α : Type) := Except Failure α

/-- A walker that fails. -/
def failAt {α : Type} (path : CodingPath) (message : Str) : Coding α :=
  .error { path, error := { kind := .invalid, message } }

/-- A result met at a path. -/
def atPath {α : Type} (path : CodingPath) (r : Result α) : Coding α :=
  r.mapError (fun error => { path, error })

/-- A decoding walker. -/
abbrev Decoding (α : Type) := Reader UInt8 Failure α

/-- A decoding walker that fails. -/
def failDecoding {α : Type} (path : CodingPath) (message : Str) : Decoding α :=
  fun _ => failAt path message

/-- A primitive reader used at a path. -/
def readAt {α : Type} (path : CodingPath) (d : Decoder α) : Decoding α :=
  fun rest => atPath path (d.run rest)

/-- The pop after an alias, which a failure inside does not skip. -/
def popping {α : Type} (d : Decoding α) : Decoding α :=
  fun rest => (d.run rest).mapError (fun f => { f with path := f.path.dropLast })

def maxCodingDepth : ℕ := 32

/-! ## The walkers -/

section Walkers

variable (p : Platform) (arena : ABI.Arena)

/-- The alternative a json value names, and its content. -/
def chosenAlternative (value : Json) : Str × Json :=
  match value with
  | .arr [.str name, inner] => (name, inner)
  | .str _ => ("string", value)
  | .bool _ => ("bool", value)
  | _ => ("undefined", value)

/-- The first alternative of a name. -/
def findAlternative (variant : List ℕ) (vName : Str) : Option ℕ :=
  variant.findIdx? (fun i => (arena.node i).typeName = vName)

/-- The names of the alternatives, quoted. -/
def alternativeNames (variant : List ℕ) : Str :=
  (lit ", ").intercalate (variant.map (fun i => lit "'" ++ (arena.node i).typeName ++ lit "'"))

/-- The field loop of the encoder. -/
def encodeFields (next : CodingPath → Json → ABI.ResolvedNode → Coding Bytes) (path : CodingPath)
    (value : Json) : List (Str × ABI.ResolvedNode) → Coding Bytes
  | [] => .ok []
  | (name, fieldType) :: fields => do
    let bytes ← next (path.push name fieldType) (value.jsonAt name) fieldType
    let rest ← encodeFields next path value fields
    return bytes ++ rest

/-- `encodeInner`, with `next` for the walker one level down. -/
def encodeInner (next : CodingPath → Json → ABI.ResolvedNode → Coding Bytes) (path : CodingPath)
    (value : Json) (type : ABI.ResolvedNode) : Coding Bytes :=
  let abiType := findBuiltin p type.name
  match type.ref, abiType with
  | some ref, none => next path value (arena.node ref)
  | _, _ =>
    if value.isNull then
      if type.isExtension then .ok []
      else failAt path (lit "Found null for non-optional type: " ++ type.typeName ++ lit " (" ++
        path.fieldPath ++ lit ")")
    else
      match type.fields, type.variant, abiType with
      | none, none, some builtin => atPath path (builtin.encodeJSON value)
      | some _, _, _ =>
        if value.isObject then
          match arena.allFields type with
          | some fields => encodeFields next path value fields
          | none => failAt path "Invalid struct fields"
        else failAt path (lit "Expected object for: " ++ type.name)
      | none, some variant, _ =>
        let (vName, inner) := chosenAlternative value
        match findAlternative arena variant vName with
        | none => failAt path (lit "Unknown variant type '" ++ vName ++ lit "', expected one of " ++
            alternativeNames arena variant)
        | some vIdx => do
          let vType := arena.node (variant.getD vIdx 0)
          let bytes ← next (path.push (lit "v" ++ natToString vIdx) vType) inner vType
          return writeVaruint32 vIdx.toUInt32 ++ bytes
      | none, none, none =>
        failAt path (if type.name = lit "any" then "Unable to encode any type to binary"
          else "Unknown type")

/-- The item loop of the encoder, from index `i`. -/
def encodeItems (inner : CodingPath → Json → ABI.ResolvedNode → Coding Bytes) (path : CodingPath)
    (type : ABI.ResolvedNode) : (i : ℕ) → List Json → Coding Bytes
  | _, [] => .ok []
  | i, value :: values => do
    let bytes ← inner (path.pushIndex i type) value type
    let rest ← encodeItems inner path type (i + 1) values
    return bytes ++ rest

/-- `encodeAny` past the optional byte.  The size of a fixed-size array is not compared
with the number of items. -/
def encodeContents (inner : CodingPath → Json → ABI.ResolvedNode → Coding Bytes)
    (path : CodingPath) (value : Json) (type : ABI.ResolvedNode) : Coding Bytes :=
  if type.isArray then
    match value with
    | .arr items => do
      let count := if type.size.isNone then writeVaruint32 items.length.toUInt32 else []
      let body ← encodeItems inner path type 0 items
      return count ++ body
    | _ => failAt path (lit "Expected array for: " ++ type.typeName)
  else inner path value type

/-- `encodeAny`, with `fuel` levels left. -/
def encodeAny : (fuel : ℕ) → CodingPath → Json → ABI.ResolvedNode → Coding Bytes
  | 0, path, _, _ => failAt path "Maximum encoding depth exceeded"
  | fuel + 1, path, value, type =>
    if type.isOptional && value.isNull then .ok [0]
    else do
      let bytes ← encodeContents (encodeInner p arena (encodeAny fuel)) path value type
      return (if type.isOptional then [1] else []) ++ bytes

/-- The field loop of the decoder. -/
def decodeFields (next : CodingPath → ABI.ResolvedNode → Decoding Json) (path : CodingPath) :
    List (Str × ABI.ResolvedNode) → List (Str × Json) → Decoding (List (Str × Json))
  | [], rv => pure rv
  | (name, fieldType) :: fields, rv => do
    let fieldValue ← next (path.push name fieldType) fieldType
    decodeFields next path fields (Json.insert rv name fieldValue)

/-- `decodeBinaryInner`.  An alias is followed whatever its name, and the index of an
alternative is a single byte. -/
def decodeBinaryInner (next : CodingPath → ABI.ResolvedNode → Decoding Json) (path : CodingPath)
    (type : ABI.ResolvedNode) : Decoding Json :=
  match type.ref, type.fields, type.variant, findBuiltin p type.name with
  | none, none, none, some builtin => readAt path builtin.decodeABI
  | some ref, _, _, _ => popping (next (path.push [] (arena.node ref)) (arena.node ref))
  | none, some _, _, _ =>
    match arena.allFields type with
    | some fields => do
      let members ← decodeFields next path fields []
      return .obj members
    | none => failDecoding path "Invalid struct fields"
  | none, none, some variant, _ => do
    let vIdx ← readAt path readByte
    match variant[vIdx.toNat]? with
    | none => failDecoding path (lit "Unknown variant idx: " ++ natToString vIdx.toNat)
    | some i =>
      let vType := arena.node i
      let inner ← next (path.push (lit "v" ++ natToString vIdx.toNat) vType) vType
      return .arr [.str vType.typeName, inner]
  | none, none, none, none =>
    failDecoding path (if type.name = lit "any" then "Unable to decode 'any' type from binary"
      else "Unknown type")

/-- The item loop of the decoder: items that take no bytes are bounded by what is left
of the input. -/
def decodeItems (inner : CodingPath → ABI.ResolvedNode → Decoding Json) (path : CodingPath)
    (type : ABI.ResolvedNode) : (n : ℕ) → List Json → Decoding (List Json)
  | 0, rv => pure rv
  | n + 1, rv => do
    let path' := path.pushIndex rv.length type
    let before ← readAt path' remaining
    let item ← inner path' type
    let after ← readAt path' remaining
    if after = before ∧ after + 1 ≤ rv.length then
      failDecoding path' "Array length exceeds remaining data"
    else decodeItems inner path type n (rv ++ [item])

/-- `decodeBinary` past the optional byte. -/
def decodeContents (inner : CodingPath → ABI.ResolvedNode → Decoding Json) (path : CodingPath)
    (type : ABI.ResolvedNode) : Decoding Json :=
  if type.isArray then do
    let len ← match type.size with
      | some n => pure n
      | none => readAt path readVaruint32
    let items ← decodeItems inner path type len.toNat []
    return .arr items
  else inner path type

/-- `decodeBinary`, with `fuel` levels left; the source bounds the coding path, which
grows with every level. -/
def decodeBinary : (fuel : ℕ) → CodingPath → ABI.ResolvedNode → Decoding Json
  | 0, path, _ => failDecoding path "Maximum decoding depth exceeded"
  | fuel + 1, path, type =>
    if maxCodingDepth < path.length then failDecoding path "Maximum decoding depth exceeded"
    else do
      let contents := decodeContents (decodeBinaryInner p arena (decodeBinary fuel)) path type
      let more ← readAt path canRead
      if type.isExtension && !more then return .null
      else if type.isOptional then do
        let present ← readAt path readByte
        if present = 0 then return .null else contents
      else contents

/-- The field loop of the normalizer. -/
def normalizeFields (next : CodingPath → Json → ABI.ResolvedNode → Coding Json)
    (path : CodingPath) (value : Json) :
    List (Str × ABI.ResolvedNode) → List (Str × Json) → Coding (List (Str × Json))
  | [], rv => .ok rv
  | (name, fieldType) :: fields, rv => do
    let decoded ← next (path.push name fieldType) (value.jsonAt name) fieldType
    normalizeFields next path value fields (Json.insert rv name decoded)

/-- `decodeObjectInner`. -/
def decodeObjectInner (next : CodingPath → Json → ABI.ResolvedNode → Coding Json)
    (path : CodingPath) (value : Json) (type : ABI.ResolvedNode) : Coding Json :=
  let abiType := findBuiltin p type.name
  match type.ref, abiType with
  | some ref, none => next path value (arena.node ref)
  | _, _ =>
    match type.fields, type.variant, abiType with
    | some _, _, _ =>
      if value.isObject then
        match arena.allFields type with
        | some fields => do
          let members ← normalizeFields next path value fields []
          return .obj members
        | none => failAt path "Invalid struct fields"
      else failAt path "Expected object"
    | none, some variant, _ =>
      let (vName, inner) := chosenAlternative value
      match findAlternative arena variant vName with
      | none => failAt path (lit "Unknown variant type: " ++ vName)
      | some vIdx => do
        let vType := arena.node (variant.getD vIdx 0)
        let decoded ← next (path.push (lit "v" ++ natToString vIdx) vType) inner vType
        return .arr [.str vType.typeName, decoded]
    | none, none, some builtin => atPath path (builtin.normalizeJSON value)
    | none, none, none =>
      if type.name = lit "any" then .ok value else failAt path "Unknown type"

/-- The item loop of the normalizer, from index `i`. -/
def normalizeItems (inner : CodingPath → Json → ABI.ResolvedNode → Coding Json)
    (path : CodingPath) (type : ABI.ResolvedNode) : (i : ℕ) → List Json → Coding (List Json)
  | _, [] => .ok []
  | i, value :: values => do
    let item ← inner (path.pushIndex i type) value type
    let rest ← normalizeItems inner path type (i + 1) values
    return item :: rest

/-- `decodeObject` past the check for null. -/
def normalizeContents (inner : CodingPath → Json → ABI.ResolvedNode → Coding Json)
    (path : CodingPath) (value : Json) (type : ABI.ResolvedNode) : Coding Json :=
  if type.isArray then
    match value with
    | .arr items => do
      let items ← normalizeItems inner path type 0 items
      return .arr items
    | _ => failAt path "Expected array"
  else inner path value type

/-- `decodeObject`, with `fuel` levels left. -/
def decodeObject : (fuel : ℕ) → CodingPath → Json → ABI.ResolvedNode → Coding Json
  | 0, path, _, _ => failAt path "Maximum decoding depth exceeded"
  | fuel + 1, path, value, type =>
    if value.isNull then
      if type.isOptional || type.isExtension then .ok .null
      else failAt path (lit "Unexpectedly encountered null for non-optional (" ++
        path.fieldPath ++ lit ")")
    else normalizeContents (decodeObjectInner p arena (decodeObject fuel)) path value type

end Walkers

/-! ## Entry points -/

namespace Serializer

/-- `wrap`. -/
def wrap (kind : Str) (f : Failure) : Error :=
  { f.error with
    message := kind ++ lit " error at " ++ f.path.text ++ lit ": " ++ f.error.message }

/-- The coding path at the root. -/
def rootPath (type : ABI.ResolvedNode) : CodingPath := CodingPath.push [] "root" type

/-- `Serializer::encode`. -/
def encode (p : Platform) (object : Json) (type : Str) (abi : ABI) : Result Bytes :=
  let (arena, root) := abi.resolveType type
  let rootType := arena.node root
  (encodeAny p arena (maxCodingDepth + 1) (rootPath rootType) object rootType).mapError
    (wrap "Encoding")

/-- The walk of `Serializer::decode`: the value, and the bytes it did not read. -/
def decodeFront (p : Platform) (data : Bytes) (type : Str) (abi : ABI) : Result (Json × Bytes) :=
  let (arena, root) := abi.resolveType type
  let rootType := arena.node root
  ((decodeBinary p arena (maxCodingDepth + 1) (rootPath rootType) rootType).run data).mapError
    (wrap "Decoding")

/-- `Serializer::decode`: bytes after the value are dropped. -/
def decode (p : Platform) (data : Bytes) (type : Str) (abi : ABI) : Result Json :=
  Prod.fst <$> decodeFront p data type abi

/-- `Serializer::decodeObject`. -/
def decodeObject (p : Platform) (object : Json) (type : Str) (abi : ABI) : Result Json :=
  let (arena, root) := abi.resolveType type
  let rootType := arena.node root
  (Dwarfkit.decodeObject p arena (maxCodingDepth + 1) (rootPath rootType) object rootType).mapError
    (wrap "Decoding")

end Serializer

end Dwarfkit
