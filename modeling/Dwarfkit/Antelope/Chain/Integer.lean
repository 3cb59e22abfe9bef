/-
# 128-bit and variable-length integers

`UInt128`, `Int128`, `VarInt` and `VarUInt` of `antelope/chain/integer.hpp`, in
two 64-bit halves as the source holds them, with the decimal text rule of the
chain: what needs more than 32 bits is written as a string.
-/
import Dwarfkit.Antelope.Serializer.Coder

namespace Dwarfkit

/-! ## Decimal text -/

/-- `intToJSON(int64_t)`: the rule looks at the magnitude. -/
def int64ToJSON (value : Int64) : Json :=
  if 0xffffffff < value.toInt.natAbs then .str (intToString value.toInt) else .int value

/-- `intToJSON(uint64_t)`. -/
def uint64ToJSON (value : UInt64) : Json :=
  if 0xffffffff < value then .str (natToString value.toNat) else .uint value

/-- How a division rounds; `floor` truncates towards zero. -/
inductive DivisionBehavior where
  | floor
  | round
  | ceil
  deriving DecidableEq, Repr

/-! ## Unsigned -/

/-- An unsigned 128-bit integer, as two halves. -/
structure UInt128 where
  lo : UInt64 := 0
  hi : UInt64 := 0
  deriving DecidableEq, Repr

namespace UInt128

/-- The number the halves stand for. -/
def toNat (v : UInt128) : ℕ := v.hi.toNat * 2 ^ 64 + v.lo.toNat

/-- The halves of a number, modulo `2 ^ 128`. -/
def ofNat (n : ℕ) : UInt128 := { lo := UInt64.ofNat n, hi := UInt64.ofNat (n / 2 ^ 64) }

/-- `adding`: wrapping, with the carry between the halves. -/
def adding (a b : UInt128) : UInt128 :=
  let lo := a.lo + b.lo
  let hi := a.hi + b.hi
  { lo, hi := if lo < a.lo then hi + 1 else hi }

/-- `subtracting`: wrapping, with the borrow between the halves. -/
def subtracting (a b : UInt128) : UInt128 :=
  let hi := a.hi - b.hi
  { lo := a.lo - b.lo, hi := if a.lo < b.lo then hi - 1 else hi }

/-- `operator<=>`: by the high halves first. -/
def le (a b : UInt128) : Bool := decide (a.hi < b.hi ∨ (a.hi = b.hi ∧ a.lo ≤ b.lo))

/-- `mul64`: four 32-bit partial products. -/
def mul64 (a b : UInt64) : UInt128 :=
  let aLo := a &&& 0xffffffff
  let aHi := a >>> 32
  let bLo := b &&& 0xffffffff
  let bHi := b >>> 32
  let p0 := aLo * bLo
  let p1 := aLo * bHi
  let p2 := aHi * bLo
  let p3 := aHi * bHi
  let lo := p0 + (p1 <<< 32)
  let carry : UInt64 := if lo < p0 then 1 else 0
  let lo2 := lo + (p2 <<< 32)
  let carry := if lo2 < lo then carry + 1 else carry
  { lo := lo2, hi := p3 + (p1 >>> 32) + (p2 >>> 32) + carry }

/-- `multiplying`. -/
def multiplying (a b : UInt128) : UInt128 :=
  let rv := mul64 a.lo b.lo
  { rv with hi := rv.hi + (a.lo * b.hi + a.hi * b.lo) }

/-- Bit `i` of a 128-bit integer. -/
def bit (v : UInt128) (i : ℕ) : UInt64 :=
  if 64 ≤ i then (v.hi >>> (i - 64).toUInt64) &&& 1 else (v.lo >>> i.toUInt64) &&& 1

/-- Setting bit `i`. -/
def setBit (v : UInt128) (i : ℕ) : UInt128 :=
  if 64 ≤ i then { v with hi := v.hi ||| (1 <<< (i - 64).toUInt64) }
  else { v with lo := v.lo ||| (1 <<< i.toUInt64) }

/-- The loop of `divmod128` over the bits `i - 1, …, 0`. -/
def divmodLoop (num den : UInt128) : (i : ℕ) → (quotient rem : UInt128) → UInt128 × UInt128
  | 0, quotient, rem => (quotient, rem)
  | i + 1, quotient, rem =>
    let rem := { lo := (rem.lo <<< 1) ||| num.bit i, hi := (rem.hi <<< 1) ||| (rem.lo >>> 63) }
    if den.le rem then divmodLoop num den i (quotient.setBit i) (rem.subtracting den)
    else divmodLoop num den i quotient rem

/-- `divmod128`: quotient and remainder by shift and subtract. -/
def divmod128 (num den : UInt128) : UInt128 × UInt128 := divmodLoop num den 128 {} {}

/-- The rounding step shared by both divisions. -/
def roundQuotient (quotient rem den : UInt128) (behavior : DivisionBehavior) : UInt128 :=
  match behavior with
  | .floor => quotient
  | .round =>
    let doubled : UInt128 := { lo := rem.lo <<< 1, hi := (rem.hi <<< 1) ||| (rem.lo >>> 63) }
    if den.le doubled then quotient.adding { lo := 1 } else quotient
  | .ceil => if rem ≠ {} then quotient.adding { lo := 1 } else quotient

/-- `toString`. -/
def toString (v : UInt128) : Str := natToString v.toNat

/-- `toJSON`. -/
def toJSON (v : UInt128) : Json :=
  if v.hi ≠ 0 ∨ 0xffffffff < v.lo then .str v.toString else .uint v.lo

end UInt128

/-! ## Signed -/

/-- A two's complement 128-bit integer, as two halves. -/
structure Int128 where
  lo : UInt64 := 0
  hi : UInt64 := 0
  deriving DecidableEq, Repr

namespace Int128

/-- Sign extension of a 64-bit integer. -/
def ofInt64 (v : Int64) : Int128 :=
  { lo := v.toUInt64, hi := if v < 0 then 0xffffffffffffffff else 0 }

def isNegative (v : Int128) : Bool := v.hi >>> 63 ≠ 0

def toUnsigned (v : Int128) : UInt128 := { lo := v.lo, hi := v.hi }

def ofUnsigned (v : UInt128) : Int128 := { lo := v.lo, hi := v.hi }

/-- `negated`. -/
def negated (v : Int128) : Int128 :=
  ofUnsigned (UInt128.adding { lo := ~~~v.lo, hi := ~~~v.hi } { lo := 1 })

/-- The magnitude of a signed integer. -/
def magnitude (v : Int128) : UInt128 := if v.isNegative then v.negated.toUnsigned else v.toUnsigned

/-- `multiplying`: on the magnitudes. -/
def multiplying (a b : Int128) : Int128 :=
  let rv := ofUnsigned (a.magnitude.multiplying b.magnitude)
  if a.isNegative ≠ b.isNegative then rv.negated else rv

/-- `dividing`: on the magnitudes, so that `ceil` rounds away from zero. -/
def dividing (a b : Int128) (behavior : DivisionBehavior) : Result Int128 :=
  if b = {} then err .invalid "Division by zero"
  else
    let (quotient, rem) := UInt128.divmod128 a.magnitude b.magnitude
    let rv := ofUnsigned (UInt128.roundQuotient quotient rem b.magnitude behavior)
    .ok (if a.isNegative ≠ b.isNegative then rv.negated else rv)

/-- `toInt64`: the low half. -/
def toInt64 (v : Int128) : Int64 := v.lo.toInt64

/-- `toString`. -/
def toString (v : Int128) : Str :=
  if v.isNegative then 45 :: v.magnitude.toString else v.magnitude.toString

/-- `toJSON`. -/
def toJSON (v : Int128) : Json :=
  let m := v.magnitude
  if m.hi ≠ 0 ∨ 0xffffffff < m.lo then .str v.toString
  else if v.isNegative then .int (-m.lo.toInt64) else .uint m.lo

end Int128

/-! ## Parsing -/

/-- `parseDecimal`: the sign, the digits' magnitude and the text an overflow error
shows. -/
structure ParsedUnsigned where
  magnitude : ℕ
  negative : Bool
  normalized : Str

/-- `parseDecimal`. -/
def parseDecimal (value : Str) : Result ParsedUnsigned :=
  let (negative, digits) := match value with
    | 45 :: rest => (true, rest)
    | 43 :: rest => (false, rest)
    | _ => (false, value)
  if digits = [] ∨ digits.any (fun c => c < 48 ∨ 57 < c) then err .invalid "Invalid number"
  else
    let magnitude := digits.foldl (fun acc c => acc * 10 + (c.toNat - 48)) 0
    let shown := digits.dropWhile (· = 48)
    let shown := if shown = [] then lit "0" else shown
    let negative := negative && shown ≠ lit "0"
    .ok { magnitude, negative, normalized := if negative then 45 :: shown else shown }

/-- `UInt128::from(string_view)` with the throwing overflow behaviour. -/
def UInt128.ofString (value : Str) : Result UInt128 := do
  let parsed ← parseDecimal value
  if parsed.negative then
    err .invalid (lit "Number " ++ parsed.normalized ++ lit " underflows uint128")
  else if 2 ^ 128 ≤ parsed.magnitude then
    err .invalid (lit "Number " ++ parsed.normalized ++ lit " overflows uint128")
  else return .ofNat parsed.magnitude

/-- `Int128::from(string_view)` with the throwing overflow behaviour. -/
def Int128.ofString (value : Str) : Result Int128 := do
  let parsed ← parseDecimal value
  let limit := if parsed.negative then 2 ^ 127 else 2 ^ 127 - 1
  if limit < parsed.magnitude then
    err .invalid (lit "Number " ++ parsed.normalized ++
      (if parsed.negative then lit " underflows int128" else lit " overflows int128"))
  else
    let v := Int128.ofUnsigned (.ofNat parsed.magnitude)
    return if parsed.negative then v.negated else v

end Dwarfkit
