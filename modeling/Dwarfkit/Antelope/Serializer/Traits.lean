/-
# Typed serialization

`abi_traits` of `antelope/serializer/traits.hpp`: for every type its binary
writer and reader, its json form and its default.  What the standard library
does with floating-point text, and the hash functions behind key text, come in
as a `Platform`.
-/
import Dwarfkit.Antelope.Chain.Asset
import Dwarfkit.Antelope.Chain.Keys
import Dwarfkit.Antelope.Chain.Time

namespace Dwarfkit

open Wire

/-! ## The platform -/

/-- A C++ `float`, kept as its bit pattern. -/
structure Float32 where
  bits : UInt32
  deriving DecidableEq, Repr

/-- The floating-point and number-text functions of the C++ runtime, next to the
crypto libraries: `std::stod`, the casts between `float`, `double` and 64-bit
integers, `jsNumberToString` and `toFixed7`. -/
structure Platform extends Crypto where
  stod : Str → Option Double
  narrow : Double → Float32
  widen : Float32 → Double
  ofInt64 : Int64 → Double
  ofUInt64 : UInt64 → Double
  jsNumberToString : Double → Str
  toFixed7 : Double → Str

/-- A platform for runs that hash nothing and meet no floating-point number. -/
instance : Inhabited Platform := ⟨{
  sha256 := fun _ => .zero 32
  ripemd160 := fun _ => .zero 20
  recover := fun _ _ _ => .ok []
  stod := fun _ => none
  narrow := fun _ => ⟨0⟩
  widen := fun _ => ⟨0⟩
  ofInt64 := fun _ => ⟨0⟩
  ofUInt64 := fun _ => ⟨0⟩
  jsNumberToString := fun _ => []
  toFixed7 := fun _ => [] }⟩

namespace Double

/-- Is this double zero (of either sign)? -/
def isZero (d : Double) : Bool := d.bits <<< 1 = 0

/-- A double cut to an integer.  The cast is undefined out of the target's range,
where the low bits stand in for it. -/
def trunc (d : Double) : ℤ :=
  let e := ((d.bits >>> 52) &&& 0x7ff).toNat
  let m := (d.bits &&& 0xfffffffffffff).toNat + 2 ^ 52
  let magnitude : ℕ :=
    if e = 0 ∨ e = 0x7ff then 0
    else if 1075 ≤ e then m * 2 ^ (e - 1075) else m / 2 ^ (1075 - e)
  if d.bits >>> 63 = 0 then magnitude else -magnitude

end Double

/-! ## Numbers in json -/

/-- White space skipped by `strtoll`. -/
def isSpace (c : UInt8) : Bool := c = 32 ∨ (9 ≤ c ∧ c ≤ 13)

/-- Sign and digits at the front of a text, as `strtoll` reads them. -/
def leadingInteger (text : Str) : Option (Bool × ℕ) :=
  let text := text.dropWhile isSpace
  let (negative, text) := match text with
    | 45 :: rest => (true, rest)
    | 43 :: rest => (false, rest)
    | _ => (false, text)
  let digits := text.takeWhile (fun c => 48 ≤ c ∧ c ≤ 57)
  if digits = [] then none
  else some (negative, digitsValue digits)

/-- A decimal text is read as it was written. -/
theorem leadingInteger_natToString (n : ℕ) : leadingInteger (natToString n) = some (false, n) := by
  have hvalue := digitsValue_natToString n
  have hne := natToString_ne_nil n
  have hdigits : ∀ c ∈ natToString n, 48 ≤ c ∧ c ≤ 57 := by
    intro c hc
    obtain ⟨hlow, hhigh⟩ := digit_of_mem_natToString hc
    exact ⟨UInt8.le_iff_toNat_le.mpr hlow, UInt8.le_iff_toNat_le.mpr hhigh⟩
  have hall : (natToString n).takeWhile (fun c => 48 ≤ c ∧ c ≤ 57) = natToString n :=
    List.takeWhile_eq_self_iff.mpr (fun c hc => by simpa using hdigits c hc)
  obtain ⟨c, rest, hcons⟩ := List.exists_cons_of_ne_nil hne
  obtain ⟨hlow, hhigh⟩ := hdigits c (by rw [hcons]; simp)
  have hspace : (natToString n).dropWhile isSpace = natToString n := by
    rw [hcons]
    refine List.dropWhile_cons_of_neg ?_
    have hlow' := UInt8.le_iff_toNat_le.mp hlow
    simp only [isSpace, decide_eq_true_eq, not_or, not_and, UInt8.not_le]
    refine ⟨fun h => ?_, fun _ => ?_⟩
    · rw [h] at hlow'
      exact absurd hlow' (by decide)
    · refine UInt8.lt_iff_toNat_lt.mpr (lt_of_lt_of_le ?_ hlow')
      decide
  unfold leadingInteger
  rw [hspace, hcons]
  -- Neither a blank nor a sign is a digit, so the digits are reached at once.
  have hsign : c ≠ 45 ∧ c ≠ 43 := by
    constructor
    · rintro rfl
      exact absurd hlow (by decide)
    · rintro rfl
      exact absurd hlow (by decide)
  simp only
  split
  · rename_i heq
    cases heq
    exact absurd rfl hsign.1
  · rename_i heq
    cases heq
    exact absurd rfl hsign.2
  · rw [← hcons, hall, if_neg hne, hvalue]

/-- `std::stoll`: the exceptions are `none`. -/
def stoll (text : Str) : Option ℤ := do
  let (negative, magnitude) ← leadingInteger text
  let value : ℤ := if negative then -magnitude else magnitude
  if -2 ^ 63 ≤ value ∧ value < 2 ^ 63 then some value else none

/-- `std::stoull`: a minus sign negates modulo `2 ^ 64`. -/
def stoull (text : Str) : Option ℤ := do
  let (negative, magnitude) ← leadingInteger text
  if magnitude < 2 ^ 64 then
    some (if negative then (2 ^ 64 - magnitude : ℤ) % 2 ^ 64 else magnitude)
  else none

/-- A 64-bit number is read as it was written. -/
theorem stoull_natToString (n : UInt64) : stoull (natToString n.toNat) = some (n.toNat : ℤ) := by
  unfold stoull
  rw [leadingInteger_natToString]
  simp [n.toNat_lt]

namespace Json

/-- `j.type_name()`. -/
def typeName : Json → Str
  | null => "null"
  | bool _ => "boolean"
  | int _ => "number"
  | uint _ => "number"
  | float _ => "number"
  | str _ => "string"
  | arr _ => "array"
  | obj _ => "object"

/-- `get<T>()` of a number at an integer type, before the cast to its width. -/
def getInteger : Json → Option ℤ
  | int n => some n.toInt
  | uint n => some n.toNat
  | float d => some d.trunc
  | _ => none

/-- `get<int64_t>()`. -/
def getInt64 (j : Json) : Result ℤ :=
  match j.getInteger with
  | some n => .ok (Int64.ofInt n).toInt
  | none => thrown "[json.exception.type_error.302] type must be number"

/-- `detail::jsonString`. -/
def jsonString (j : Json) : Result Str :=
  match j with
  | str s => .ok s
  | _ => err .invalid (lit "Expected string, got " ++ j.typeName)

/-- `detail::jsonToInt`, before the cast to the target's width. -/
def jsonToInt (signed : Bool) (j : Json) : Result ℤ :=
  match j with
  | str s =>
    match (if signed then stoll s else stoull s) with
    | some n => .ok n
    | none => err .invalid "Invalid number"
  | _ =>
    match j.getInteger with
    | some n => .ok n
    | none => err .invalid "Expected number"

/-- `get<double>()` of a number. -/
def getDouble (p : Platform) : Json → Option Double
  | int n => some (p.ofInt64 n)
  | uint n => some (p.ofUInt64 n)
  | float d => some d
  | _ => none

/-- `detail::jsonToFloat<double>`. -/
def jsonToDouble (p : Platform) (j : Json) : Result Double :=
  match j with
  | str s =>
    match p.stod s with
    | some d => .ok d
    | none => err .invalid "Invalid number"
  | _ =>
    match j.getDouble p with
    | some d => .ok d
    | none => err .invalid (lit "Expected number, got " ++ j.typeName)

end Json

/-! ## The traits -/

/-- `abi_traits<T>`. -/
structure AbiTraits (α : Type) where
  abiName : Str
  toABI : α → Result Bytes
  fromABI : Decoder α
  toJSON : α → Json
  fromJSON : Json → Result α
  abiDefault : α

namespace AbiTraits

/-- `abi_traits<bool>`: only the byte 1 is true; json numbers are accepted. -/
def bool : AbiTraits Bool where
  abiName := "bool"
  toABI v := .ok [if v then 1 else 0]
  fromABI := do
    let b ← readByte
    return b = 1
  toJSON := .bool
  fromJSON
    | .bool b => .ok b
    | .int n => .ok (n ≠ 0)
    | .uint n => .ok (n ≠ 0)
    | .float d => .ok (!d.isZero)
    | _ => err .invalid "Expected bool"
  abiDefault := false

/-- `abi_traits<std::string>`. -/
def string : AbiTraits Str where
  abiName := "string"
  toABI v := .ok (writeString v)
  fromABI := readString
  toJSON := .str
  fromJSON
    | .str s => .ok s
    | _ => err .invalid "Expected string"
  abiDefault := []

/-- The native integer types: `n` bytes, an unsigned pattern `toNat`, the cast
`ofInt` from what json gave, and the json form. -/
def native {α : Type} (abiName : Str) (n : ℕ) (signed : Bool) (toNat : α → ℕ) (ofInt : ℤ → α)
    (toJSON : α → Json) : AbiTraits α where
  abiName := abiName
  toABI v := .ok (writeInt n (toNat v))
  fromABI := do
    let v ← readInt n
    return ofInt v
  toJSON := toJSON
  fromJSON j := do
    let v ← j.jsonToInt signed
    return ofInt v
  abiDefault := ofInt 0

def int8 : AbiTraits Int8 :=
  native "int8" 1 true (·.toUInt8.toNat) Int8.ofInt (fun v => .int (Int64.ofInt v.toInt))

def int16 : AbiTraits Int16 :=
  native "int16" 2 true (·.toUInt16.toNat) Int16.ofInt (fun v => .int (Int64.ofInt v.toInt))

def int32 : AbiTraits Int32 :=
  native "int32" 4 true (·.toUInt32.toNat) Int32.ofInt (fun v => .int (Int64.ofInt v.toInt))

def int64 : AbiTraits Int64 :=
  native "int64" 8 true (·.toUInt64.toNat) Int64.ofInt int64ToJSON

def uint8 : AbiTraits UInt8 :=
  native "uint8" 1 false UInt8.toNat UInt8.ofInt (fun v => .uint v.toUInt64)

def uint16 : AbiTraits UInt16 :=
  native "uint16" 2 false UInt16.toNat UInt16.ofInt (fun v => .uint v.toUInt64)

def uint32 : AbiTraits UInt32 :=
  native "uint32" 4 false UInt32.toNat UInt32.ofInt (fun v => .uint v.toUInt64)

def uint64 : AbiTraits UInt64 :=
  native "uint64" 8 false UInt64.toNat UInt64.ofInt uint64ToJSON

/-- `abi_traits<float>`. -/
def float32 (p : Platform) : AbiTraits Float32 where
  abiName := "float32"
  toABI v := .ok (writeInt 4 v.bits.toNat)
  fromABI := do
    let bits ← readInt 4
    return ⟨UInt32.ofNat bits⟩
  toJSON v := .str (p.toFixed7 (p.widen v))
  fromJSON j := do
    let d ← j.jsonToDouble p
    return p.narrow d
  abiDefault := ⟨0⟩

/-- `abi_traits<double>`. -/
def float64 (p : Platform) : AbiTraits Double where
  abiName := "float64"
  toABI v := .ok (writeInt 8 v.bits.toNat)
  fromABI := do
    let bits ← readInt 8
    return ⟨UInt64.ofNat bits⟩
  toJSON v := .str (p.jsNumberToString v)
  fromJSON j := j.jsonToDouble p
  abiDefault := ⟨0⟩

/-- `abi_traits<UInt128>`. -/
def uint128 : AbiTraits UInt128 where
  abiName := "uint128"
  toABI v := .ok (leBytes 8 v.lo.toNat ++ leBytes 8 v.hi.toNat)
  fromABI := do
    let bytes ← readArray 16
    return { lo := UInt64.ofNat (leValue (bytes.take 8)), hi := UInt64.ofNat (leValue (bytes.drop 8)) }
  toJSON := UInt128.toJSON
  fromJSON j :=
    match j.getInteger with
    | some n => .ok { lo := UInt64.ofInt n }
    | none => do
      let text ← j.jsonString
      UInt128.ofString text
  abiDefault := {}

/-- `abi_traits<Int128>`. -/
def int128 : AbiTraits Int128 where
  abiName := "int128"
  toABI v := .ok (leBytes 8 v.lo.toNat ++ leBytes 8 v.hi.toNat)
  fromABI := do
    let bytes ← readArray 16
    return { lo := UInt64.ofNat (leValue (bytes.take 8)), hi := UInt64.ofNat (leValue (bytes.drop 8)) }
  toJSON := Int128.toJSON
  fromJSON j :=
    match j.getInteger with
    | some n => .ok (.ofInt64 (Int64.ofInt n))
    | none => do
      let text ← j.jsonString
      Int128.ofString text
  abiDefault := {}

/-- `abi_traits<VarInt>`. -/
def varint32 : AbiTraits Int32 where
  abiName := "varint32"
  toABI v := .ok (writeVarint32 v)
  fromABI := readVarint32
  toJSON v := .int (Int64.ofInt v.toInt)
  fromJSON j := do
    let v ← j.jsonToInt true
    return Int32.ofInt v
  abiDefault := 0

/-- `abi_traits<VarUInt>`. -/
def varuint32 : AbiTraits UInt32 where
  abiName := "varuint32"
  toABI v := .ok (writeVaruint32 v)
  fromABI := readVaruint32
  toJSON v := .uint v.toUInt64
  fromJSON j := do
    let v ← j.jsonToInt false
    return UInt32.ofInt v
  abiDefault := 0

/-- A type with a checked text form and a 64-bit or otherwise fixed binary form. -/
def textual {α : Type} (abiName : Str) (toABI : α → Bytes) (fromABI : Decoder α)
    (toString : α → Str) (ofString : Str → Result α) (abiDefault : α) : AbiTraits α where
  abiName := abiName
  toABI v := .ok (toABI v)
  fromABI := fromABI
  toJSON v := .str (toString v)
  fromJSON j := do
    let text ← j.jsonString
    ofString text
  abiDefault := abiDefault

def name : AbiTraits Name :=
  textual "name" (fun v => writeInt 8 v.value.toNat)
    (do
      let v ← readInt 8
      return ⟨UInt64.ofNat v⟩)
    Name.toString (fun text => .ok (.ofString text)) {}

def symbol : AbiTraits AssetSymbol :=
  textual "symbol" (fun v => writeInt 8 v.value.toNat)
    (do
      let v ← readInt 8
      .ofResult (AssetSymbol.ofRaw (UInt64.ofNat v)))
    AssetSymbol.toString AssetSymbol.ofString .abiDefault

def symbolCode : AbiTraits SymbolCode :=
  textual "symbol_code" (fun v => writeInt 8 v.value.toNat)
    (do
      let v ← readInt 8
      .ofResult (SymbolCode.ofRaw (UInt64.ofNat v)))
    SymbolCode.toString SymbolCode.ofString ⟨toRawSymbolCode "SYS"⟩

def asset : AbiTraits Asset :=
  textual "asset"
    (fun v => writeInt 8 v.units.toUInt64.toNat ++ writeInt 8 v.symbol.value.toNat)
    (do
      let units ← readInt 8
      let rawSym ← readInt 8
      let symbol ← .ofResult (AssetSymbol.ofRaw (UInt64.ofNat rawSym))
      return { units := Int64.ofInt units, symbol })
    Asset.toString Asset.fromString .abiDefault

/-- `abi_traits<ExtendedAsset>`. -/
def extendedAsset : AbiTraits ExtendedAsset where
  abiName := "extended_asset"
  toABI v := do
    let quantity ← asset.toABI v.quantity
    let contract ← name.toABI v.contract
    return quantity ++ contract
  fromABI := do
    let quantity ← asset.fromABI
    let contract ← name.fromABI
    return { quantity, contract }
  toJSON v := .obj [(lit "quantity", asset.toJSON v.quantity), (lit "contract", name.toJSON v.contract)]
  fromJSON j :=
    match j.find "quantity", j.find "contract" with
    | some q, some c => do
      let quantity ← asset.fromJSON q
      let contract ← name.fromJSON c
      return { quantity, contract }
    | _, _ => err .invalid "Expected extended_asset object"
  abiDefault := {}

/-- `abi_traits<Bytes>`: hex text, length-prefixed on the wire. -/
def bytes : AbiTraits Bytes :=
  textual "bytes" writeString
    (do
      let len ← readVaruint32
      readArray len.toNat)
    arrayToHex hexToArray []

/-- `checksum_traits_impl`. -/
def checksum (abiName : Str) (n : ℕ) : AbiTraits (Checksum n) :=
  textual abiName (·.array)
    (do
      let data ← readArray n
      .ofResult (Checksum.ofBytes n data))
    Checksum.hexString (Checksum.ofHex n) (.zero n)

def checksum160 : AbiTraits Checksum160 := checksum "checksum160" 20
def checksum256 : AbiTraits Checksum256 := checksum "checksum256" 32
def checksum512 : AbiTraits Checksum512 := checksum "checksum512" 64

/-- `abi_traits<Float128>`: sixteen raw bytes, `0x` before the hex text. -/
def float128 : AbiTraits (Checksum 16) :=
  textual "float128" (·.array)
    (do
      let data ← readArray 16
      .ofResult (ofBytes data))
    (fun v => lit "0x" ++ arrayToHex v.array)
    (fun text => do
      let text := if (lit "0x").isPrefixOf text then text.drop 2 else text
      let bytes ← hexToArray text
      ofBytes bytes)
    (.zero 16)
where
  ofBytes (value : Bytes) : Result (Checksum 16) :=
    if h : value.length = 16 then .ok ⟨value, h⟩ else err .invalid "Invalid float128"

/-- The times accept their raw number in json as well. -/
def time {α : Type} (abiName : Str) (n : ℕ) (toNat : α → ℕ) (ofInt : ℤ → α)
    (toString : α → Str) (ofString : Str → Result α) : AbiTraits α where
  abiName := abiName
  toABI v := .ok (writeInt n (toNat v))
  fromABI := do
    let v ← readInt n
    return ofInt v
  toJSON v := .str (toString v)
  fromJSON j :=
    match j.getInteger with
    | some n => .ok (ofInt n)
    | none => do
      let text ← j.jsonString
      ofString text
  abiDefault := ofInt 0

def timePoint : AbiTraits TimePoint :=
  time "time_point" 8 (·.value.toUInt64.toNat) (fun n => ⟨Int64.ofInt n⟩) TimePoint.toString
    TimePoint.fromString

def timePointSec : AbiTraits TimePointSec :=
  time "time_point_sec" 4 (·.value.toNat) (fun n => ⟨UInt32.ofInt n⟩) TimePointSec.toString
    TimePointSec.fromString

def blockTimestamp : AbiTraits BlockTimestamp :=
  time "block_timestamp_type" 4 (·.value.toNat) (fun n => ⟨UInt32.ofInt n⟩) BlockTimestamp.toString
    BlockTimestamp.fromString

/-- Length-prefixed data inside a WebAuthn value, prefix included. -/
def readPrefixed : Decoder Bytes := fun rest => do
  let (len, tail) ← readVaruint32.run rest
  let (_, after) ← (readArray len.toNat).run tail
  return (rest.take (rest.length - after.length), after)

/-- `abi_traits<PublicKey>`: a WebAuthn key carries its presence byte and relying
party after the point. -/
def publicKey (p : Platform) : AbiTraits PublicKey :=
  textual "public_key" (fun v => v.type.index.toUInt8 :: v.data)
    (do
      let typeByte ← readByte
      let type ← .ofResult (KeyType.ofIndex typeByte.toNat)
      if type = .WA then
        let key ← readArray 33
        let presence ← readArray 1
        let rpid ← readPrefixed
        return { type, data := key ++ presence ++ rpid }
      else
        let data ← readArray 33
        return { type, data })
    (PublicKey.toString p.toCrypto) (PublicKey.ofString p.toCrypto)
    { type := .K1, data := List.replicate 33 0 }

/-- `abi_traits<Signature>`. -/
def signature (p : Platform) : AbiTraits Signature :=
  textual "signature" (fun v => v.type.index.toUInt8 :: v.data)
    (do
      let typeByte ← readByte
      let type ← .ofResult (KeyType.ofIndex typeByte.toNat)
      if type = .WA then
        let compact ← readArray 65
        let authData ← readPrefixed
        let clientJson ← readPrefixed
        return { type, data := compact ++ authData ++ clientJson }
      else
        let data ← readArray 65
        return { type, data })
    (Signature.toString p.toCrypto) (Signature.ofString p.toCrypto)
    { type := .K1, data := List.replicate 65 0 }

/-! ## Arrays and optionals -/

/-- The loop of `abi_traits<std::vector<T>>::fromABI`: elements that take no bytes
are bounded by what is left of the input. -/
def readItems {α : Type} (item : Decoder α) : (n : ℕ) → List α → Decoder (List α)
  | 0, rv => pure rv
  | n + 1, rv => do
    let before ← remaining
    let value ← item
    let after ← remaining
    if after = before ∧ after + 1 ≤ rv.length then
      decodeErr .invalid "Array length exceeds remaining data"
    else readItems item n (rv ++ [value])

/-- `abi_traits<std::vector<T>>`. -/
def vector {α : Type} (t : AbiTraits α) : AbiTraits (List α) where
  abiName := t.abiName ++ lit "[]"
  toABI v := do
    let items ← v.mapM t.toABI
    return writeVaruint32 v.length.toUInt32 ++ items.flatten
  fromABI := do
    let len ← readVaruint32
    readItems t.fromABI len.toNat []
  toJSON v := .arr (v.map t.toJSON)
  fromJSON
    | .arr items => items.mapM t.fromJSON
    | _ => err .invalid "Expected array"
  abiDefault := []

/-- `abi_traits<std::optional<T>>`. -/
def optional {α : Type} (t : AbiTraits α) : AbiTraits (Option α) where
  abiName := t.abiName ++ lit "?"
  toABI
    | some v => do
      let value ← t.toABI v
      return 1 :: value
    | none => .ok [0]
  fromABI := do
    let present ← readByte
    if present = 0 then return none
    else
      let value ← t.fromABI
      return some value
  toJSON
    | some v => t.toJSON v
    | none => .null
  fromJSON j := if j.isNull then .ok none else do
    let value ← t.fromJSON j
    return some value
  abiDefault := none

/-- A field of `dkStructFromJSON` that may not be absent. -/
def field {α : Type} (t : AbiTraits α) (j : Json) (key : Str) : Result α :=
  match j.find key with
  | none | some .null =>
    err .invalid (lit "Unexpectedly encountered undefined for non-optional (" ++ key ++ lit ")")
  | some v => t.fromJSON v

/-- A field of `dkStructFromJSON` that may be absent. -/
def optionalField {α : Type} (t : AbiTraits α) (j : Json) (key : Str) : Result (Option α) :=
  match j.find key with
  | none | some .null => .ok none
  | some v => do
    let value ← t.fromJSON v
    return some value

end AbiTraits

/-- The receiver check of `dkStructFromJSON`. -/
def expectObject (j : Json) : Result Unit :=
  if j.isObject then .ok () else err .invalid "Expected object"

end Dwarfkit
