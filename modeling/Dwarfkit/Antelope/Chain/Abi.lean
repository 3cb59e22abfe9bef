/-
# ABI definitions

The `ABI` record of `antelope/chain/abi.hpp`, its lookups, its binary form, and the
resolution of a type name into a graph of nodes.  The nodes of one resolution lie in
an arena; a pointer between them is an index into it.
-/
import Dwarfkit.Antelope.Serializer.Traits

namespace Dwarfkit

namespace ABI

structure TypeDef where
  new_type_name : Str
  type : Str
  deriving DecidableEq, Repr

structure Field where
  name : Str
  type : Str
  deriving DecidableEq, Repr

structure Struct where
  name : Str
  base : Str
  fields : List Field
  deriving DecidableEq, Repr

structure Action where
  name : Name
  type : Str
  ricardian_contract : Str
  deriving DecidableEq, Repr

structure Table where
  name : Name
  index_type : Str
  key_names : List Str
  key_types : List Str
  type : Str
  deriving DecidableEq, Repr

structure Clause where
  id : Str
  body : Str
  deriving DecidableEq, Repr

structure Variant where
  name : Str
  types : List Str
  deriving DecidableEq, Repr

structure ActionResult where
  name : Name
  result_type : Str
  deriving DecidableEq, Repr

def defaultVersion : Str := "eosio::abi/1.1"

end ABI

/-- An ABI definition. -/
structure ABI where
  version : Str := ABI.defaultVersion
  types : List ABI.TypeDef := []
  variants : List ABI.Variant := []
  structs : List ABI.Struct := []
  actions : List ABI.Action := []
  tables : List ABI.Table := []
  ricardian_clauses : List ABI.Clause := []
  action_results : List ABI.ActionResult := []
  deriving DecidableEq, Repr

namespace ABI

/-! ## Lookups -/

/-- `getStruct`. -/
def getStruct (abi : ABI) (name : Str) : Option Struct := abi.structs.find? (fun e => e.name = name)

/-- `getVariant`. -/
def getVariant (abi : ABI) (name : Str) : Option Variant :=
  abi.variants.find? (fun e => e.name = name)

/-- `getActionType`: the type of an action's arguments. -/
def getActionType (abi : ABI) (actionName : Name) : Option Str :=
  (abi.actions.find? (fun e => e.name = actionName)).map (·.type)

/-! ## Binary form -/

/-- A counted list of entries. -/
def readList {α : Type} (entry : Decoder α) : Decoder (List α) := do
  let n ← readVaruint32
  Wire.times entry n.toNat

/-- Skip `fixed` bytes and a length-prefixed tail, as `fromABI` does for the error
messages and the extensions it does not keep. -/
def skipEntry (fixed : ℕ) : Decoder Unit := do
  let _ ← readArray fixed
  let len ← readVaruint32
  let _ ← readArray len.toNat

/-- `readInt<uint64_t>` as a name. -/
def readName : Decoder Name := do
  let v ← readInt 8
  return ⟨UInt64.ofNat v⟩

def readField : Decoder Field := do
  let name ← readString
  let type ← readString
  return { name, type }

def readTypeDef : Decoder TypeDef := do
  let new_type_name ← readString
  let type ← readString
  return { new_type_name, type }

def readStruct : Decoder Struct := do
  let name ← readString
  let base ← readString
  let fields ← readList readField
  return { name, base, fields }

def readAction : Decoder Action := do
  let name ← readName
  let type ← readString
  let ricardian_contract ← readString
  return { name, type, ricardian_contract }

def readTable : Decoder Table := do
  let name ← readName
  let index_type ← readString
  let key_names ← readList readString
  let key_types ← readList readString
  let type ← readString
  return { name, index_type, key_names, key_types, type }

def readClause : Decoder Clause := do
  let id ← readString
  let body ← readString
  return { id, body }

def readVariant : Decoder Variant := do
  let name ← readString
  let types ← readList readString
  return { name, types }

def readActionResult : Decoder ActionResult := do
  let name ← readName
  let result_type ← readString
  return { name, result_type }

/-- A list that is a binary extension: absent once the input is used up. -/
def readTail {α : Type} (entry : Decoder α) : Decoder (List α) := do
  let more ← canRead
  if more then readList entry else return []

/-- `fromABI`. -/
def fromABI : Decoder ABI := do
  let version ← readString
  let types ← readList readTypeDef
  let structs ← readList readStruct
  let actions ← readList readAction
  let tables ← readList readTable
  let ricardian_clauses ← readList readClause
  let _ ← readList (skipEntry 8)
  let _ ← readList (skipEntry 2)
  let variants ← readTail readVariant
  let action_results ← readTail readActionResult
  return { version, types, structs, actions, tables, ricardian_clauses, variants, action_results }

/-- `ABI::from(Blob)`: bytes after the ABI are ignored. -/
def ofBlob (value : Bytes) : Result ABI := do
  let (abi, _) ← fromABI.run value
  return abi

/-! ## Resolved types -/

/-- `ResolvedNode`: a type name without its suffixes, the suffixes, and what the
name stands for. -/
structure ResolvedNode where
  name : Str := []
  isExtension : Bool := false
  isOptional : Bool := false
  isArray : Bool := false
  size : Option UInt32 := none
  base : Option ℕ := none
  fields : Option (List (Str × ℕ)) := none
  variant : Option (List ℕ) := none
  ref : Option ℕ := none
  deriving DecidableEq, Repr, Inhabited

namespace ResolvedNode

/-- Cut `suffix` off the end of a name, if it is there. -/
def chop (name suffix : Str) : Str × Bool :=
  if suffix.isSuffixOf name then (name.take (name.length - suffix.length), true)
  else (name, false)

/-- The element name and the size of `name[N]`.  A size of more than 32 bits leaves
the name unsplit. -/
def fixedSize (name : Str) : Option (Str × UInt32) :=
  if (lit "]").isSuffixOf name then
    let inner := name.dropLast.reverse
    let digits := (inner.takeWhile (· ≠ 91)).reverse
    match inner.dropWhile (· ≠ 91) with
    | [] => none
    | _ :: element =>
      if digits = [] ∨ digits.any (fun c => c < 48 ∨ 57 < c) then none
      else if digitsValue digits < 2 ^ 32 then
        some (element.reverse, (digitsValue digits).toUInt32)
      else none
  else none

/-- `ResolvedNode::parse`. -/
def parse (fullName : Str) : ResolvedNode :=
  let (name, isExtension) := chop fullName "$"
  let (name, isOptional) := chop name "?"
  let (name, isArray) := chop name "[]"
  match fixedSize name with
  | some (element, n) =>
    { name := element, isExtension, isOptional, isArray := true, size := some n }
  | none => { name, isExtension, isOptional, isArray }

/-- `typeName`: the name with its suffixes. -/
def typeName (type : ResolvedNode) : Str :=
  type.name ++
    (if type.isArray then
      match type.size with
      | some n => lit "[" ++ natToString n.toNat ++ lit "]"
      | none => lit "[]"
    else []) ++
    (if type.isOptional then lit "?" else []) ++
    (if type.isExtension then lit "$" else [])

end ResolvedNode

/-- The nodes of one resolution. -/
abbrev Arena := List ResolvedNode

/-- The node an index points to. -/
def Arena.node (arena : Arena) (i : ℕ) : ResolvedNode := arena.getD i default

/-- The loop of `allFields`: base structs come first, and a name seen before is a
cycle.  An arena has no chain of distinct names longer than itself. -/
def Arena.collectFields (arena : Arena) :
    (fuel : ℕ) → (seen : List Str) → ResolvedNode → List (Str × ℕ) → Option (List (Str × ℕ))
  | 0, _, _, _ => none
  | fuel + 1, seen, current, rv =>
    match current.fields with
    | none => none
    | some fields =>
      if current.name ∈ seen then none
      else
        match current.base with
        | none => some (fields ++ rv)
        | some base =>
          arena.collectFields fuel (current.name :: seen) (arena.node base) (fields ++ rv)

/-- `allFields`. -/
def Arena.allFields (arena : Arena) (type : ResolvedNode) : Option (List (Str × ResolvedNode)) :=
  (arena.collectFields (arena.length + 1) [] type []).map
    (fun fields => fields.map (fun f => (f.1, arena.node f.2)))

/-- `ResolveContext`: the nodes made so far and the names they are known by. -/
structure ResolveContext where
  arena : Arena := []
  types : List (Str × ℕ) := []

namespace ResolveContext

/-- The node a name is known by. -/
def find (ctx : ResolveContext) (name : Str) : Option ℕ :=
  (ctx.types.find? (fun e => e.1 = name)).map Prod.snd

/-- A new node, known by its type name. -/
def push (ctx : ResolveContext) (type : ResolvedNode) : ResolveContext :=
  { arena := ctx.arena ++ [type], types := (type.typeName, ctx.arena.length) :: ctx.types }

/-- Complete a node. -/
def update (ctx : ResolveContext) (i : ℕ) (f : ResolvedNode → ResolvedNode) : ResolveContext :=
  { ctx with arena := ctx.arena.modify i f }

end ResolveContext

def maxResolveDepth : ℕ := 256

/-- `ABI::resolve` with `fuel` frames left below the depth limit.  A name is known
before what it stands for is resolved, which is what ends cycles; at the limit a node
stays without a meaning. -/
def resolve (abi : ABI) : (fuel : ℕ) → Str → StateM ResolveContext ℕ
  | fuel, name => do
    let ctx ← get
    match ctx.find name with
    | some existing => return existing
    | none =>
      let type := ResolvedNode.parse name
      let i := ctx.arena.length
      set (ctx.push type)
      match fuel with
      | 0 => return i
      | fuel + 1 =>
        match abi.types.find? (fun e => e.new_type_name = type.name) with
        | some typeDef =>
          let ref ← resolve abi fuel typeDef.type
          modify (fun ctx => ctx.update i (fun node => { node with ref := some ref }))
          return i
        | none =>
          match abi.getStruct type.name with
          | some entry =>
            let base ← if entry.base = [] then pure none else some <$> resolve abi fuel entry.base
            let fields ← entry.fields.mapM (fun field => do
              let t ← resolve abi fuel field.type
              return (field.name, t))
            modify (fun ctx =>
              ctx.update i (fun node => { node with base, fields := some fields }))
            return i
          | none =>
            match abi.getVariant type.name with
            | some entry =>
              let variant ← entry.types.mapM (resolve abi fuel)
              modify (fun ctx =>
                ctx.update i (fun node => { node with variant := some variant }))
              return i
            | none => return i

/-- `ABI::resolveType`: the arena and the root's index. -/
def resolveType (abi : ABI) (name : Str) : Arena × ℕ :=
  let (root, ctx) := (abi.resolve maxResolveDepth name).run {}
  (ctx.arena, root)

end ABI

end Dwarfkit
