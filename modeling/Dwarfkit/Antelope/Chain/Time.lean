/-
# Time points

`TimePoint`, `TimePointSec` and `BlockTimestamp` of `antelope/chain/time.hpp`:
64-bit microseconds, 32-bit seconds and 32-bit half-second slots since 2000, with
the ISO text nodeos exchanges them in.  The source computes the conversions from
milliseconds in `double`; `roundDouble` is that rounding on integers.
-/
import Dwarfkit.Antelope.Serializer.Coder

namespace Dwarfkit

/-! ## Doubles at integer values -/

/-- The integer nearest to `n` that a `double` holds, ties to even. -/
def roundDouble (n : ℤ) : ℤ :=
  let m := n.natAbs
  let shift := Nat.log2 m - 52
  let q := m / 2 ^ shift
  let r := m % 2 ^ shift
  let half := 2 ^ shift / 2
  let q := if shift ≠ 0 ∧ (half < r ∨ (r = half ∧ q % 2 = 1)) then q + 1 else q
  n.sign * ((q * 2 ^ shift : ℕ) : ℤ)

/-- `jsRound` on a `double` holding an even integer: such a value plus a half
rounds back to it, and what is out of range is clamped. -/
def jsRoundEven (n : ℤ) : Int64 :=
  if 2 ^ 63 ≤ n then Int64.maxValue else if n < -2 ^ 63 then Int64.minValue else Int64.ofInt n

/-- `jsRound(ms / d)` for `d = 500` and `d = 1000`: at the magnitude of a date the
quotient is off by less than a thousandth, so that the floor is the exact one. -/
def jsRoundDiv (ms d : ℤ) : ℤ := (2 * ms + d) / (2 * d)

/-! ## Calendar -/

/-- `daysFromCivil`. -/
def daysFromCivil (y m d : ℤ) : ℤ :=
  let y := if m ≤ 2 then y - 1 else y
  let era := y / 400
  let yoe := y - era * 400
  let doy := (153 * (m + (if 2 < m then -3 else 9)) + 2) / 5 + d - 1
  let doe := yoe * 365 + yoe / 4 - yoe / 100 + doy
  era * 146097 + doe - 719468

/-- `civilFromDays`: year, month and day. -/
def civilFromDays (z : ℤ) : ℤ × ℤ × ℤ :=
  let z := z + 719468
  let era := z / 146097
  let doe := z - era * 146097
  let yoe := (doe - doe / 1460 + doe / 36524 - doe / 146096) / 365
  let doy := doe - (365 * yoe + yoe / 4 - yoe / 100)
  let mp := (5 * doy + 2) / 153
  let d := doy - (153 * mp + 2) / 5 + 1
  let m := mp + (if mp < 10 then 3 else -9)
  (yoe + era * 400 + (if m ≤ 2 then 1 else 0), m, d)

/-! ## ISO text -/

/-- The number written in `count` digits at `pos`. -/
def digitsAt (s : Str) (pos count : ℕ) : Option ℤ :=
  let text := (s.drop pos).take count
  if text.length = count ∧ text.all (fun c => 48 ≤ c ∧ c ≤ 57) then
    some (text.foldl (fun acc c => acc * 10 + ((c.toNat : ℤ) - 48)) 0)
  else none

/-- The digits after the decimal point: the first three count. -/
def fractionMillis : (scale : ℤ) → Str → ℤ
  | _, [] => 0
  | scale, c :: rest => ((c.toNat : ℤ) - 48) * scale + fractionMillis (scale / 10) rest

/-- The time of day part, from the separator on. -/
def parseTimeOfDay (s : Str) : Option (ℤ × ℤ × ℤ × ℤ) := do
  if s.head? ≠ some 84 ∧ s.head? ≠ some 32 then none
  let hour ← digitsAt s 1 2
  if s[3]? ≠ some 58 then none
  let minute ← digitsAt s 4 2
  if s[6]? ≠ some 58 then none
  let second ← digitsAt s 7 2
  let rest := s.drop 9
  match rest with
  | [] => some (hour, minute, second, 0)
  | c :: fraction =>
    if c = 46 ∧ fraction ≠ [] ∧ fraction.all (fun c => 48 ≤ c ∧ c ≤ 57) then
      some (hour, minute, second, fractionMillis 100 fraction)
    else none

/-- `parseIsoMilliseconds`. -/
def parseIsoMilliseconds (s : Str) : Result ℤ :=
  let parsed : Option ℤ := do
    let year ← digitsAt s 0 4
    if s.length < 10 ∨ s[4]? ≠ some 45 then none
    let month ← digitsAt s 5 2
    if s[7]? ≠ some 45 then none
    let day ← digitsAt s 8 2
    let (hour, minute, second, millis) ←
      if s.length = 10 then some (0, 0, 0, 0) else parseTimeOfDay (s.drop 10)
    if month < 1 ∨ 12 < month ∨ day < 1 ∨ 31 < day ∨ 23 < hour ∨ 59 < minute ∨ 59 < second then
      none
    some (((daysFromCivil year month day * 24 + hour) * 60 + minute) * 60000 + second * 1000 +
      millis)
  match parsed with
  | some ms => .ok ms
  | none => err .invalid "Invalid date string"

/-- `%0<width>lld`: the sign counts towards the width. -/
def padded (width : ℕ) (n : ℤ) : Str :=
  let digits := natToString n.natAbs
  let sign : Str := if n < 0 then [45] else []
  sign ++ List.replicate (width - sign.length - digits.length) 48 ++ digits

/-- `isoFromMilliseconds`. -/
def isoFromMilliseconds (ms : ℤ) : Str :=
  let (y, m, d) := civilFromDays (ms / 86400000)
  let msOfDay := ms % 86400000
  padded 4 y ++ "-" ++ padded 2 m ++ "-" ++ padded 2 d ++ "T" ++
    padded 2 (msOfDay / 3600000) ++ ":" ++ padded 2 (msOfDay / 60000 % 60) ++ ":" ++
    padded 2 (msOfDay / 1000 % 60) ++ "." ++ padded 3 (msOfDay % 1000)

/-! ## The three time types -/

/-- Microseconds since the epoch. -/
structure TimePoint where
  value : Int64 := 0
  deriving DecidableEq, Repr

/-- Seconds since the epoch. -/
structure TimePointSec where
  value : UInt32 := 0
  deriving DecidableEq, Repr

/-- Half-second slots since 2000-01-01. -/
structure BlockTimestamp where
  value : UInt32 := 0
  deriving DecidableEq, Repr

namespace TimePoint

/-- `fromMilliseconds`: the product with 1000 is rounded to a `double`. -/
def fromMilliseconds (ms : ℤ) : TimePoint := ⟨jsRoundEven (roundDouble (ms * 1000))⟩

def fromString (value : Str) : Result TimePoint := do
  let ms ← parseIsoMilliseconds value
  return fromMilliseconds ms

/-- `toMilliseconds`: rounds half away from zero, with the guard near the top. -/
def toMilliseconds (t : TimePoint) : ℤ :=
  let v := t.value.toInt
  if 0 ≤ v then
    if 2 ^ 63 - 1 - 500 < v then (2 ^ 63 - 1 - 500) / 1000 else (v + 500) / 1000
  else -((-v + 500) / 1000)

def toString (t : TimePoint) : Str := isoFromMilliseconds t.toMilliseconds

end TimePoint

namespace TimePointSec

def fromMilliseconds (ms : ℤ) : TimePointSec := ⟨UInt32.ofInt (jsRoundDiv ms 1000)⟩

def fromString (value : Str) : Result TimePointSec := do
  let ms ← parseIsoMilliseconds value
  return fromMilliseconds ms

def toMilliseconds (t : TimePointSec) : ℤ := t.value.toNat * 1000

/-- The ISO text without its milliseconds. -/
def toString (t : TimePointSec) : Str :=
  let iso := isoFromMilliseconds t.toMilliseconds
  iso.take (iso.length - 4)

end TimePointSec

namespace BlockTimestamp

def epochMilliseconds : ℤ := 946684800000

def fromMilliseconds (ms : ℤ) : BlockTimestamp :=
  ⟨UInt32.ofInt (jsRoundDiv (ms - epochMilliseconds) 500)⟩

def fromString (value : Str) : Result BlockTimestamp := do
  let ms ← parseIsoMilliseconds value
  return fromMilliseconds ms

def toMilliseconds (t : BlockTimestamp) : ℤ := t.value.toNat * 500 + epochMilliseconds

def toString (t : BlockTimestamp) : Str := isoFromMilliseconds t.toMilliseconds

end BlockTimestamp

end Dwarfkit
