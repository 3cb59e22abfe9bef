/-
# Native integers in json

What the eight native integer types accept from json: `detail::jsonToInt` of
`antelope/serializer/traits.hpp` against the integers that json values denote.
-/
import Dwarfkit.Antelope.Serializer.Traits

namespace Dwarfkit

/-! ## What a json value denotes -/

/-- The value of a text of digits alone. -/
def unsignedNumeral (digits : Str) : Option ℕ :=
  if digits = [] ∨ ¬ ∀ c ∈ digits, 48 ≤ c ∧ c ≤ 57 then none else some (digitsValue digits)

/-- The integer a text denotes in full: a sign or none, then digits to the end. -/
def numeral : Str → Option ℤ
  | 45 :: rest => (unsignedNumeral rest).map (fun n : ℕ => -(n : ℤ))
  | 43 :: rest => (unsignedNumeral rest).map (fun n : ℕ => (n : ℤ))
  | text => (unsignedNumeral text).map (fun n : ℕ => (n : ℤ))

/-- Is this double an integer? -/
def Double.isWhole (d : Double) : Bool :=
  let e := ((d.bits >>> 52) &&& 0x7ff).toNat
  let fraction := (d.bits &&& 0xfffffffffffff).toNat
  if e = 0 then decide (fraction = 0)
  else if e = 0x7ff then false
  else decide (1075 ≤ e ∨ (fraction + 2 ^ 52) % 2 ^ (1075 - e) = 0)

/-- The integer a double is, if it is one. -/
def Double.toInt? (d : Double) : Option ℤ := if d.isWhole then some d.trunc else none

/-- The integer a json number or string denotes. -/
def Json.denotes : Json → Option ℤ
  | .int n => some n.toInt
  | .uint n => some n.toNat
  | .float d => d.toInt?
  | .str s => numeral s
  | _ => none

/-! ## The native types -/

/-- The integer types `abi_traits` has one template for. -/
inductive NativeType where
  | int8
  | int16
  | int32
  | int64
  | uint8
  | uint16
  | uint32
  | uint64
  deriving DecidableEq, Repr

namespace NativeType

/-- The C++ type. -/
def Value : NativeType → Type
  | int8 => Int8
  | int16 => Int16
  | int32 => Int32
  | int64 => Int64
  | uint8 => UInt8
  | uint16 => UInt16
  | uint32 => UInt32
  | uint64 => UInt64

/-- Its traits. -/
def traits : (t : NativeType) → AbiTraits t.Value
  | int8 => AbiTraits.int8
  | int16 => AbiTraits.int16
  | int32 => AbiTraits.int32
  | int64 => AbiTraits.int64
  | uint8 => AbiTraits.uint8
  | uint16 => AbiTraits.uint16
  | uint32 => AbiTraits.uint32
  | uint64 => AbiTraits.uint64

/-- `std::is_signed_v`. -/
def signed : NativeType → Bool
  | int8 | int16 | int32 | int64 => true
  | uint8 | uint16 | uint32 | uint64 => false

/-- The number of bits. -/
def width : NativeType → ℕ
  | int8 | uint8 => 8
  | int16 | uint16 => 16
  | int32 | uint32 => 32
  | int64 | uint64 => 64

/-- The integer a value is. -/
def toInt : (t : NativeType) → t.Value → ℤ
  | int8 => Int8.toInt
  | int16 => Int16.toInt
  | int32 => Int32.toInt
  | int64 => Int64.toInt
  | uint8 => fun x => (UInt8.toNat x : ℤ)
  | uint16 => fun x => (UInt16.toNat x : ℤ)
  | uint32 => fun x => (UInt32.toNat x : ℤ)
  | uint64 => fun x => (UInt64.toNat x : ℤ)

/-- The cast from a wider integer. -/
def ofInt : (t : NativeType) → ℤ → t.Value
  | int8 => Int8.ofInt
  | int16 => Int16.ofInt
  | int32 => Int32.ofInt
  | int64 => Int64.ofInt
  | uint8 => UInt8.ofInt
  | uint16 => UInt16.ofInt
  | uint32 => UInt32.ofInt
  | uint64 => UInt64.ofInt

/-- Is an integer within the type's range? -/
def InRange (t : NativeType) (z : ℤ) : Prop :=
  if t.signed then -2 ^ (t.width - 1) ≤ z ∧ z < 2 ^ (t.width - 1) else 0 ≤ z ∧ z < 2 ^ t.width

instance (t : NativeType) (z : ℤ) : Decidable (t.InRange z) := by
  unfold InRange
  infer_instance

/-- The template's `fromJSON` is `jsonToInt` and a cast. -/
theorem fromJSON_eq (t : NativeType) (j : Json) :
    t.traits.fromJSON j = (do
      let z ← j.jsonToInt t.signed
      return t.ofInt z) := by
  cases t <;> rfl

/-- A value is within its type's range. -/
theorem inRange_toInt (t : NativeType) (x : t.Value) : t.InRange (t.toInt x) := by
  cases t with
  | int8 => exact ⟨Int8.le_toInt x, Int8.toInt_lt x⟩
  | int16 => exact ⟨Int16.le_toInt x, Int16.toInt_lt x⟩
  | int32 => exact ⟨Int32.le_toInt x, Int32.toInt_lt x⟩
  | int64 => exact ⟨Int64.le_toInt x, Int64.toInt_lt x⟩
  | uint8 => exact ⟨Int.natCast_nonneg _, Int.ofNat_lt.mpr (UInt8.toNat_lt x)⟩
  | uint16 => exact ⟨Int.natCast_nonneg _, Int.ofNat_lt.mpr (UInt16.toNat_lt x)⟩
  | uint32 => exact ⟨Int.natCast_nonneg _, Int.ofNat_lt.mpr (UInt32.toNat_lt x)⟩
  | uint64 => exact ⟨Int.natCast_nonneg _, Int.ofNat_lt.mpr (UInt64.toNat_lt x)⟩

/-- The cast of an integer within the range is that integer. -/
theorem toInt_ofInt (t : NativeType) {z : ℤ} (h : t.InRange z) : t.toInt (t.ofInt z) = z := by
  cases t with
  | int8 => exact Int8.toInt_ofInt_of_le h.1 h.2
  | int16 => exact Int16.toInt_ofInt_of_le h.1 h.2
  | int32 => exact Int32.toInt_ofInt_of_le h.1 h.2
  | int64 => exact Int64.toInt_ofInt_of_le h.1 h.2
  | uint8 =>
    obtain ⟨hlow, hhigh⟩ : 0 ≤ z ∧ z < 2 ^ 8 := h
    simp only [toInt, ofInt, UInt8.ofInt, UInt8.toNat_ofNat']
    omega
  | uint16 =>
    obtain ⟨hlow, hhigh⟩ : 0 ≤ z ∧ z < 2 ^ 16 := h
    simp only [toInt, ofInt, UInt16.ofInt, UInt16.toNat_ofNat']
    omega
  | uint32 =>
    obtain ⟨hlow, hhigh⟩ : 0 ≤ z ∧ z < 2 ^ 32 := h
    simp only [toInt, ofInt, UInt32.ofInt, UInt32.toNat_ofNat']
    omega
  | uint64 =>
    obtain ⟨hlow, hhigh⟩ : 0 ≤ z ∧ z < 2 ^ 64 := h
    simp only [toInt, ofInt, UInt64.ofInt, UInt64.toNat_ofNat']
    omega

/-- The cast of a value is the value. -/
theorem ofInt_toInt (t : NativeType) (x : t.Value) : t.ofInt (t.toInt x) = x := by
  have h := t.toInt_ofInt (t.inRange_toInt x)
  cases t with
  | int8 => exact Int8.toInt_inj.mp h
  | int16 => exact Int16.toInt_inj.mp h
  | int32 => exact Int32.toInt_inj.mp h
  | int64 => exact Int64.toInt_inj.mp h
  | uint8 => exact UInt8.toNat_inj.mp (Int.ofNat.inj h)
  | uint16 => exact UInt16.toNat_inj.mp (Int.ofNat.inj h)
  | uint32 => exact UInt32.toNat_inj.mp (Int.ofNat.inj h)
  | uint64 => exact UInt64.toNat_inj.mp (Int.ofNat.inj h)

end NativeType

/-! ## Texts -/

/-- A text of digits is not led by white space or a sign. -/
theorem digit_ne_sign {c : UInt8} (h : 48 ≤ c ∧ c ≤ 57) : c ≠ 45 ∧ c ≠ 43 ∧ isSpace c = false := by
  obtain ⟨hlow, hhigh⟩ := h
  have hlow' : 48 ≤ c.toNat := UInt8.le_iff_toNat_le.mp hlow
  refine ⟨?_, ?_, ?_⟩
  · rintro rfl
    exact absurd hlow' (by decide)
  · rintro rfl
    exact absurd hlow' (by decide)
  · simp only [isSpace, decide_eq_false_iff_not, not_or, not_and, UInt8.not_le]
    refine ⟨?_, fun _ => UInt8.lt_iff_toNat_lt.mpr (lt_of_lt_of_le (by decide) hlow')⟩
    rintro rfl
    exact absurd hlow' (by decide)

/-- A text of digits, and its value. -/
theorem unsignedNumeral_eq_some {digits : Str} {n : ℕ} :
    unsignedNumeral digits = some n ↔
      digits ≠ [] ∧ (∀ c ∈ digits, 48 ≤ c ∧ c ≤ 57) ∧ digitsValue digits = n := by
  unfold unsignedNumeral
  by_cases h : digits = [] ∨ ¬ ∀ c ∈ digits, 48 ≤ c ∧ c ≤ 57
  · rw [if_pos h]
    constructor
    · rintro ⟨⟩
    · rintro ⟨hne, hdigits, -⟩
      exact absurd h (not_or.mpr ⟨hne, not_not.mpr hdigits⟩)
  · rw [if_neg h]
    obtain ⟨hne, hdigits⟩ := not_or.mp h
    have hall := not_not.mp hdigits
    constructor
    · rintro ⟨⟩
      exact ⟨hne, hall, rfl⟩
    · rintro ⟨-, -, rfl⟩
      rfl

/-- Digits to the end of the text are all taken. -/
theorem takeWhile_digits {digits : Str} (h : ∀ c ∈ digits, 48 ≤ c ∧ c ≤ 57) :
    digits.takeWhile (fun c => decide (48 ≤ c ∧ c ≤ 57)) = digits :=
  List.takeWhile_eq_self_iff.mpr (fun c hc => by simpa using h c hc)

/-- The integer with a sign and a magnitude. -/
def signedValue (negative : Bool) (magnitude : ℕ) : ℤ :=
  if negative then -(magnitude : ℤ) else magnitude

/-- The numerals, sign by sign. -/
theorem numeral_eq_some {text : Str} {z : ℤ} (h : numeral text = some z) :
    ∃ sign digits n, text = sign ++ digits ∧ unsignedNumeral digits = some n ∧
      ((sign = [45] ∧ z = signedValue true n) ∨
        ((sign = [43] ∨ sign = []) ∧ z = signedValue false n)) := by
  unfold numeral at h
  split at h
  · obtain ⟨n, hn, rfl⟩ := Option.map_eq_some_iff.mp h
    exact ⟨[45], _, n, rfl, hn, .inl ⟨rfl, rfl⟩⟩
  · obtain ⟨n, hn, rfl⟩ := Option.map_eq_some_iff.mp h
    exact ⟨[43], _, n, rfl, hn, .inr ⟨.inl rfl, rfl⟩⟩
  · obtain ⟨n, hn, rfl⟩ := Option.map_eq_some_iff.mp h
    exact ⟨[], _, n, rfl, hn, .inr ⟨.inr rfl, rfl⟩⟩

/-- A numeral is read whole. -/
theorem leadingInteger_of_numeral {text : Str} {z : ℤ} (h : numeral text = some z) :
    ∃ negative magnitude, leadingInteger text = some (negative, magnitude) ∧
      z = signedValue negative magnitude := by
  obtain ⟨sign, digits, n, rfl, hdigits, hsign⟩ := numeral_eq_some h
  obtain ⟨hne, hall, rfl⟩ := unsignedNumeral_eq_some.mp hdigits
  obtain ⟨c, rest, hcons⟩ := List.exists_cons_of_ne_nil hne
  obtain ⟨hminus, hplus, hspace⟩ := digit_ne_sign (hall c (by rw [hcons]; simp))
  have htake := takeWhile_digits hall
  -- A minus, a plus or no sign: none of them is a digit or a blank.
  rcases hsign with ⟨rfl, rfl⟩ | ⟨rfl | rfl, rfl⟩
  · refine ⟨true, digitsValue digits, ?_, rfl⟩
    have hskip : ([45] ++ digits : Str).dropWhile isSpace = 45 :: digits := rfl
    unfold leadingInteger
    rw [hskip]
    simp only
    rw [htake, if_neg hne]
  · refine ⟨false, digitsValue digits, ?_, rfl⟩
    have hskip : ([43] ++ digits : Str).dropWhile isSpace = 43 :: digits := rfl
    unfold leadingInteger
    rw [hskip]
    simp only
    rw [htake, if_neg hne]
  · refine ⟨false, digitsValue digits, ?_, rfl⟩
    have hskip : ([] ++ digits : Str).dropWhile isSpace = digits := by
      rw [List.nil_append, hcons]
      exact List.dropWhile_cons_of_neg (by simp [hspace])
    unfold leadingInteger
    rw [hskip, hcons]
    simp only
    split
    · rename_i heq
      cases heq
      exact absurd rfl hminus
    · rename_i heq
      cases heq
      exact absurd rfl hplus
    · rw [← hcons, htake, if_neg hne]

namespace NativeType

/-- The sizes the conversion behind a type takes: `std::stoll` every 64-bit signed
integer, `std::stoull` every magnitude below `2 ^ 64`, whatever its sign. -/
def Converts (t : NativeType) (negative : Bool) (magnitude : ℕ) : Prop :=
  if t.signed then -2 ^ 63 ≤ signedValue negative magnitude ∧ signedValue negative magnitude < 2 ^ 63
  else magnitude < 2 ^ 64

/-- What a text converts to. -/
def converted (t : NativeType) (negative : Bool) (magnitude : ℕ) : ℤ :=
  if t.signed then signedValue negative magnitude
  else if negative then (2 ^ 64 - magnitude : ℤ) % 2 ^ 64 else magnitude

instance (t : NativeType) (negative : Bool) (magnitude : ℕ) :
    Decidable (t.Converts negative magnitude) := by
  unfold Converts
  infer_instance

/-- The conversion reads the digits at the front of a text, when their size fits. -/
theorem convert_eq (t : NativeType) (text : Str) :
    (if t.signed then stoll text else stoull text) =
      (leadingInteger text).bind (fun lead =>
        if t.Converts lead.1 lead.2 then some (t.converted lead.1 lead.2) else none) := by
  cases t <;> rfl

/-- A text is accepted when its conversion gives an integer. -/
theorem jsonToInt_str {t : NativeType} {text : Str} {z : ℤ} :
    (Json.str text).jsonToInt t.signed = .ok z ↔
      ∃ negative magnitude, leadingInteger text = some (negative, magnitude) ∧
        t.Converts negative magnitude ∧ z = t.converted negative magnitude := by
  unfold Json.jsonToInt
  simp only
  rw [convert_eq]
  constructor
  · intro h
    split at h
    · rename_i n hn
      cases h
      obtain ⟨⟨negative, magnitude⟩, hlead, hconv⟩ := Option.bind_eq_some_iff.mp hn
      split at hconv
      · cases hconv
        exact ⟨negative, magnitude, hlead, ‹_›, rfl⟩
      · cases hconv
    · cases h
  · rintro ⟨negative, magnitude, hlead, hfits, rfl⟩
    rw [hlead, Option.bind_some, if_pos hfits]

/-- Within the range, the conversion takes the integer as it is. -/
theorem converts_of_inRange {t : NativeType} {negative : Bool} {magnitude : ℕ}
    (h : t.InRange (signedValue negative magnitude)) :
    t.Converts negative magnitude ∧
      t.converted negative magnitude = signedValue negative magnitude := by
  unfold Converts converted
  cases negative <;> cases t <;>
    simp only [InRange, signed, width, signedValue, reduceIte, Bool.false_eq_true,
      and_true] at h ⊢ <;>
    omega

/-- A text that starts with digits is read as a numeral of the type's range, or its size
is past the conversion. -/
def Plain (t : NativeType) (text : Str) : Prop :=
  ∀ negative magnitude, leadingInteger text = some (negative, magnitude) →
    t.Converts negative magnitude →
    (numeral text).isSome ∧ t.InRange (signedValue negative magnitude)

/-- The json values whose reading is exact: plain texts, integers within the range,
whole doubles within the range, and whatever is no number. -/
def Safe (t : NativeType) : Json → Prop
  | .str text => t.Plain text
  | .int n => t.InRange n.toInt
  | .uint n => t.InRange n.toNat
  | .float d => ∃ z, d.toInt? = some z ∧ t.InRange z
  | _ => True

/-- What is read off a json value is the integer it denotes. -/
def Exact (t : NativeType) (j : Json) : Prop :=
  ∀ x, t.traits.fromJSON j = .ok x → j.denotes = some (t.toInt x)

/-- An accepted json value, before and after the cast. -/
theorem fromJSON_eq_ok {t : NativeType} {j : Json} {x : t.Value} :
    t.traits.fromJSON j = .ok x ↔ ∃ z, j.jsonToInt t.signed = .ok z ∧ t.ofInt z = x := by
  rw [fromJSON_eq, bind_eq_ok]
  constructor
  · rintro ⟨z, hz, hx⟩
    cases hx
    exact ⟨z, hz, rfl⟩
  · rintro ⟨z, hz, rfl⟩
    exact ⟨z, hz, rfl⟩

/-- A whole double is cut to itself. -/
theorem trunc_of_toInt? {d : Double} {z : ℤ} (h : d.toInt? = some z) : d.trunc = z := by
  unfold Double.toInt? at h
  split at h
  · exact Option.some.inj h
  · cases h

/-- A json value that denotes an integer of the range is read as that integer. -/
theorem jsonToInt_of_denotes {t : NativeType} {j : Json} {z : ℤ} (h : j.denotes = some z)
    (hrange : t.InRange z) : j.jsonToInt t.signed = .ok z := by
  cases j with
  | null => cases h
  | bool b => cases h
  | arr items => cases h
  | obj members => cases h
  | int n =>
    cases h
    rfl
  | uint n =>
    cases h
    rfl
  | float d =>
    have hd : d.trunc = z := trunc_of_toInt? h
    rw [← hd]
    rfl
  | str text =>
    obtain ⟨negative, magnitude, hlead, rfl⟩ := leadingInteger_of_numeral h
    obtain ⟨hfits, hconv⟩ := converts_of_inRange hrange
    exact jsonToInt_str.mpr ⟨negative, magnitude, hlead, hfits, hconv.symm⟩

/-- Every integer of the range is accepted, however the json value writes it. -/
theorem fromJSON_of_denotes {t : NativeType} {j : Json} {x : t.Value}
    (h : j.denotes = some (t.toInt x)) : t.traits.fromJSON j = .ok x :=
  fromJSON_eq_ok.mpr ⟨t.toInt x, jsonToInt_of_denotes h (t.inRange_toInt x), t.ofInt_toInt x⟩

/-- An exact reading stays within the range. -/
theorem inRange_of_exact {t : NativeType} {j : Json} {z : ℤ} (h : t.Exact j)
    (hz : j.jsonToInt t.signed = .ok z) : ∃ x, j.denotes = some (t.toInt x) :=
  ⟨t.ofInt z, h _ (fromJSON_eq_ok.mpr ⟨z, hz, rfl⟩)⟩

/-- Exact readings are the safe ones. -/
theorem exact_iff_safe (t : NativeType) (j : Json) : t.Exact j ↔ t.Safe j := by
  constructor
  · intro h
    cases j with
    | null => trivial
    | bool b => trivial
    | arr items => trivial
    | obj members => trivial
    | int n =>
      obtain ⟨x, hx⟩ := inRange_of_exact (z := n.toInt) h rfl
      have hn : n.toInt = t.toInt x := Option.some.inj hx
      show t.InRange n.toInt
      rw [hn]
      exact t.inRange_toInt x
    | uint n =>
      obtain ⟨x, hx⟩ := inRange_of_exact (z := n.toNat) h rfl
      have hn : (n.toNat : ℤ) = t.toInt x := Option.some.inj hx
      show t.InRange n.toNat
      rw [hn]
      exact t.inRange_toInt x
    | float d =>
      obtain ⟨x, hx⟩ := inRange_of_exact (z := d.trunc) h rfl
      exact ⟨t.toInt x, hx, t.inRange_toInt x⟩
    | str text =>
      intro negative magnitude hlead hfits
      obtain ⟨x, hx⟩ :=
        inRange_of_exact h (jsonToInt_str.mpr ⟨negative, magnitude, hlead, hfits, rfl⟩)
      have hnum : numeral text = some (t.toInt x) := hx
      obtain ⟨negative', magnitude', hlead', hvalue⟩ := leadingInteger_of_numeral hnum
      rw [hlead] at hlead'
      cases hlead'
      refine ⟨by rw [hnum]; rfl, ?_⟩
      rw [← hvalue]
      exact t.inRange_toInt x
  · intro h x hx
    obtain ⟨z, hz, rfl⟩ := fromJSON_eq_ok.mp hx
    cases j with
    | null => cases hz
    | bool b => cases hz
    | arr items => cases hz
    | obj members => cases hz
    | int n =>
      cases hz
      rw [t.toInt_ofInt h]
      rfl
    | uint n =>
      cases hz
      rw [t.toInt_ofInt h]
      rfl
    | float d =>
      cases hz
      obtain ⟨z, hd, hrange⟩ := h
      rw [trunc_of_toInt? hd, t.toInt_ofInt hrange]
      exact hd
    | str text =>
      obtain ⟨negative, magnitude, hlead, hfits, rfl⟩ := jsonToInt_str.mp hz
      obtain ⟨hsome, hrange⟩ := h negative magnitude hlead hfits
      obtain ⟨z, hnum⟩ := Option.isSome_iff_exists.mp hsome
      obtain ⟨negative', magnitude', hlead', rfl⟩ := leadingInteger_of_numeral hnum
      rw [hlead] at hlead'
      cases hlead'
      rw [(converts_of_inRange hrange).2, t.toInt_ofInt hrange]
      exact hnum

/-- A written natural number is a numeral. -/
theorem unsignedNumeral_natToString (n : ℕ) : unsignedNumeral (natToString n) = some n := by
  refine unsignedNumeral_eq_some.mpr ⟨natToString_ne_nil n, ?_, digitsValue_natToString n⟩
  intro c hc
  obtain ⟨hlow, hhigh⟩ := digit_of_mem_natToString hc
  exact ⟨UInt8.le_iff_toNat_le.mpr hlow, UInt8.le_iff_toNat_le.mpr hhigh⟩

/-- A text of digits denotes its value. -/
theorem numeral_of_digits {text : Str} {n : ℕ} (h : unsignedNumeral text = some n) :
    numeral text = some (n : ℤ) := by
  obtain ⟨hne, hall, -⟩ := unsignedNumeral_eq_some.mp h
  unfold numeral
  split
  · exact absurd (hall 45 (by simp)) (by decide)
  · exact absurd (hall 43 (by simp)) (by decide)
  · rw [h]
    rfl

/-- A written integer denotes itself. -/
theorem numeral_intToString (z : ℤ) : numeral (intToString z) = some z := by
  unfold intToString
  split
  · show (unsignedNumeral (natToString z.natAbs)).map (fun n : ℕ => -(n : ℤ)) = some z
    rw [unsignedNumeral_natToString, Option.map_some]
    congr 1
    omega
  · rw [numeral_of_digits (unsignedNumeral_natToString z.natAbs)]
    congr 1
    omega

/-- The json form of a value denotes the value. -/
theorem denotes_toJSON (t : NativeType) (x : t.Value) :
    (t.traits.toJSON x).denotes = some (t.toInt x) := by
  have hsmall {z : ℤ} (hlow : -2 ^ 63 ≤ z) (hhigh : z < 2 ^ 63) :
      (Json.int (Int64.ofInt z)).denotes = some z := by
    show some (Int64.ofInt z).toInt = some z
    rw [Int64.toInt_ofInt_of_le hlow hhigh]
  cases t with
  | int8 =>
    obtain ⟨hlow, hhigh⟩ := inRange_toInt int8 x
    exact hsmall (le_trans (by decide) hlow) (lt_trans hhigh (by decide))
  | int16 =>
    obtain ⟨hlow, hhigh⟩ := inRange_toInt int16 x
    exact hsmall (le_trans (by decide) hlow) (lt_trans hhigh (by decide))
  | int32 =>
    obtain ⟨hlow, hhigh⟩ := inRange_toInt int32 x
    exact hsmall (le_trans (by decide) hlow) (lt_trans hhigh (by decide))
  | int64 =>
    show (int64ToJSON x).denotes = some (Int64.toInt x)
    unfold int64ToJSON
    split
    · exact numeral_intToString _
    · rfl
  | uint8 => rfl
  | uint16 => rfl
  | uint32 => rfl
  | uint64 =>
    show (uint64ToJSON x).denotes = some ((UInt64.toNat x : ℕ) : ℤ)
    unfold uint64ToJSON
    split
    · exact numeral_of_digits (unsignedNumeral_natToString _)
    · rfl

/-- Reading a native integer from json is exact on the safe values and on no others; and
what a value writes is read back as the value. -/
theorem fromJSON_exact_iff (t : NativeType) (j : Json) :
    (t.Exact j ↔ t.Safe j) ∧ ∀ x : t.Value, t.traits.fromJSON (t.traits.toJSON x) = .ok x :=
  ⟨t.exact_iff_safe j, fun x => fromJSON_of_denotes (t.denotes_toJSON x)⟩

/-- Digits with a tail, a number past its type, a minus sign under an unsigned type and a
fraction are all read as integers. -/
theorem fromJSON_not_exact :
    ¬ int32.Exact (.str "12abc") ∧ ¬ uint8.Exact (.uint 300) ∧ ¬ uint64.Exact (.str "-1") ∧
      ¬ int8.Exact (.float ⟨0x4004000000000000⟩) := by
  refine ⟨fun h => ?_, fun h => ?_, fun h => ?_, fun h => ?_⟩
  · exact absurd (h (12 : Int32) rfl) (by decide)
  · exact absurd (h (44 : UInt8) rfl) (by decide)
  · have hz : (Json.str "-1").jsonToInt uint64.signed = .ok (2 ^ 64 - 1) :=
      jsonToInt_str.mpr ⟨true, 1, rfl, by decide, by decide +kernel⟩
    exact absurd (h _ (fromJSON_eq_ok.mpr ⟨_, hz, rfl⟩)) (by decide +kernel)
  · exact absurd (h (2 : Int8) rfl) (by decide)

end NativeType

end Dwarfkit
