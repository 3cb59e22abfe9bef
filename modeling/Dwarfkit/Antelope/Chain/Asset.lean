/-
# Assets and symbols

`Asset`, its symbol and symbol code, and `ExtendedAsset`: 64-bit units with a
packed symbol, and the checked text form of each.
-/
import Dwarfkit.Antelope.Chain.Integer
import Dwarfkit.Antelope.Chain.Name

namespace Dwarfkit

/-! ## Symbols -/

/-- `toRawSymbolCode`: seven characters at most, the first one lowest. -/
def toRawSymbolCode (name : Str) : UInt64 :=
  UInt64.ofNat (Wire.leValue (name.take 7))

/-- `toRawSymbol`. -/
def toRawSymbol (name : Str) (precision : UInt8) : UInt64 :=
  (toRawSymbolCode name <<< 8) ||| precision.toUInt64

/-- The bytes of a code from the lowest up to the last one set, as both loops over
a code (`isValidSymbolName`, `symbolNameFromCode`) walk them. -/
def codeBytes : (n : ℕ) → UInt64 → Bytes
  | 0, _ => []
  | n + 1, code => if code = 0 then [] else code.toUInt8 :: codeBytes n (code >>> 8)

/-- `isValidSymbolName`: upper-case letters only. -/
def isValidSymbolName (code : UInt64) : Bool :=
  (codeBytes 8 code).all (fun c => 65 ≤ c ∧ c ≤ 90)

/-- `Asset::SymbolCode`. -/
structure SymbolCode where
  value : UInt64 := 0
  deriving DecidableEq, Repr

namespace SymbolCode

/-- `SymbolCode::from(uint64_t)`. -/
def ofRaw (value : UInt64) : Result SymbolCode :=
  if value ≠ 0 ∧ ¬ isValidSymbolName value then
    err .invalid "Invalid asset symbol, name must be uppercase A-Z"
  else .ok ⟨value⟩

/-- `SymbolCode::from(string_view)`. -/
def ofString (name : Str) : Result SymbolCode := ofRaw (toRawSymbolCode name)

def toString (c : SymbolCode) : Str := codeBytes 8 c.value

end SymbolCode

/-- `Asset::Symbol`: the precision in the low byte, the code above it. -/
structure AssetSymbol where
  value : UInt64 := 0
  deriving DecidableEq, Repr

namespace AssetSymbol

def maxPrecision : ℕ := 18

/-- `Symbol::from(uint64_t)`. -/
def ofRaw (value : UInt64) : Result AssetSymbol :=
  if maxPrecision < (value &&& 0xff).toNat then
    err .invalid "Invalid asset symbol, precision too large"
  else if value ≠ 0 ∧ ¬ isValidSymbolName (value >>> 8) then
    err .invalid "Invalid asset symbol, name must be uppercase A-Z"
  else .ok ⟨value⟩

/-- `Symbol::fromParts`: the precision is truncated to a byte first. -/
def fromParts (name : Str) (precision : ℕ) : Result AssetSymbol :=
  ofRaw (toRawSymbol name precision.toUInt8)

/-- The precision digits of a symbol string, refused once they pass 255. -/
def precisionDigits (acc : ℕ) : Str → Result ℕ
  | [] => .ok acc
  | c :: rest =>
    if c < 48 ∨ 57 < c then .ok acc
    else if 255 < acc then err .invalid "Invalid symbol string"
    else precisionDigits (acc * 10 + (c.toNat - 48)) rest

/-- `Symbol::from(string_view)`: `precision,NAME`; `0,` is the one text that may
hold a second comma's place empty. -/
def ofString (value : Str) : Result AssetSymbol :=
  let head := value.takeWhile (· ≠ 44)
  let tail := value.dropWhile (· ≠ 44)
  match tail with
  | [] => err .invalid "Invalid symbol string"
  | _ :: name =>
    if 44 ∈ name ∧ value ≠ lit "0," then err .invalid "Invalid symbol string"
    else do
      let precision ← precisionDigits 0 head
      match head with
      | c :: _ =>
        if c < 48 ∨ 57 < c then err .invalid "Invalid symbol string"
        else fromParts name precision
      | [] => err .invalid "Invalid symbol string"

def name (s : AssetSymbol) : Str := codeBytes 8 (s.value >>> 8)

def precision (s : AssetSymbol) : ℕ := (s.value &&& 0xff).toNat

def toString (s : AssetSymbol) : Str := natToString s.precision ++ lit "," ++ s.name

/-- `abiDefault`: `4,SYS`. -/
def abiDefault : AssetSymbol := ⟨toRawSymbol "SYS" 4⟩

end AssetSymbol

/-! ## Assets -/

/-- `Asset`: units in the symbol's precision. -/
structure Asset where
  units : Int64 := 0
  symbol : AssetSymbol := {}
  deriving DecidableEq, Repr

/-- `ExtendedAsset`: an asset and the contract that issued it. -/
structure ExtendedAsset where
  quantity : Asset := {}
  contract : Name := {}
  deriving DecidableEq, Repr

namespace Asset

/-- The digits of `parseInt64`, with the limit checked before each. -/
def parseMagnitude (limit : ℕ) (overflow : Error) : (magnitude : ℕ) → Str → Result ℕ
  | magnitude, [] => .ok magnitude
  | magnitude, c :: rest =>
    if c < 48 ∨ 57 < c then err .invalid "Invalid number"
    else
      let digit := c.toNat - 48
      if (limit - digit) / 10 < magnitude then .error overflow
      else parseMagnitude limit overflow (magnitude * 10 + digit) rest

/-- `parseInt64`. -/
def parseInt64 (value : Str) : Result Int64 :=
  let (negative, digits) := match value with
    | 45 :: rest => (true, rest)
    | 43 :: rest => (false, rest)
    | _ => (false, value)
  if digits = [] then err .invalid "Invalid number"
  else do
    let limit := if negative then 2 ^ 63 else 2 ^ 63 - 1
    let overflow : Error := {
      kind := .invalid
      message := lit "Number " ++ value ++
        (if negative then lit " underflows int64" else lit " overflows int64") }
    let magnitude ← parseMagnitude limit overflow 0 digits
    return Int64.ofInt (if negative then -magnitude else magnitude)

/-- `fromString`: one space, and the digits after the point are the precision. -/
def fromString (value : Str) : Result Asset :=
  let amount := value.takeWhile (· ≠ 32)
  match value.dropWhile (· ≠ 32) with
  | [] => err .invalid "Invalid asset string"
  | _ :: symbolName =>
    if 32 ∈ symbolName then err .invalid "Invalid asset string"
    else do
      let whole := amount.takeWhile (· ≠ 46)
      let fraction := (amount.dropWhile (· ≠ 46)).drop 1
      let symbol ← AssetSymbol.fromParts symbolName fraction.length
      let units ← parseInt64 (whole ++ fraction)
      return { units, symbol }

/-- `formatUnits`: digits padded to more than the precision, then the point. -/
def formatUnits (units : Int64) (precision : ℕ) : Str :=
  let digits := natToString units.toInt.natAbs
  let digits := List.replicate (precision + 1 - digits.length) 48 ++ digits
  let digits :=
    if 0 < precision then
      digits.take (digits.length - precision) ++ lit "." ++ digits.drop (digits.length - precision)
    else digits
  if units < 0 then 45 :: digits else digits

def quantity (a : Asset) : Str := formatUnits a.units a.symbol.precision

def toString (a : Asset) : Str := a.quantity ++ lit " " ++ a.symbol.name

def abiDefault : Asset := { units := 0, symbol := .abiDefault }

end Asset

end Dwarfkit
