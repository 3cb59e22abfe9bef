/-
# Asset and symbol texts

What `Symbol::from` and `Asset::fromString` accept, and what they make of it: the
letters packed into a code, the precision truncated to a byte, the units read
with the point left out.

* `parseInt64_eq_ok_iff` : the numerals `parseInt64` accepts;
* `symbol_ofString_iff`, `asset_fromString_iff` : the texts that are accepted;
* `assetTexts_faithful` : both together.
-/
import Dwarfkit.Antelope.Chain.Asset

namespace Dwarfkit

open Wire

/-! ## Codes -/

theorem shiftRight_eight (code : UInt64) : (code >>> 8).toNat = code.toNat / 256 := by
  rw [UInt64.toNat_shiftRight]
  show _ >>> 8 = _
  rw [Nat.shiftRight_eq_div_pow]

/-- The bytes of a code stand for it. -/
theorem leValue_codeBytes {n : ℕ} {code : UInt64} (h : code.toNat < 256 ^ n) :
    leValue (codeBytes n code) = code.toNat := by
  induction n generalizing code with
  | zero =>
    have hzero : code.toNat = 0 := by simpa using h
    rw [codeBytes, leValue, hzero]
  | succ n ih =>
    rw [codeBytes]
    by_cases hcode : code = 0
    · rw [if_pos hcode, hcode]
      rfl
    · have hlow : code.toUInt8.toNat = code.toNat % 256 := UInt64.toNat_toUInt8 code
      have hhigh : (code >>> 8).toNat < 256 ^ n := by
        rw [shiftRight_eight]
        exact Nat.div_lt_of_lt_mul (by rw [← pow_succ']; exact h)
      rw [if_neg hcode, leValue, ih hhigh, shiftRight_eight, hlow]
      omega

/-- Eight bytes are enough for every code. -/
theorem leValue_codeBytes_eight (code : UInt64) : leValue (codeBytes 8 code) = code.toNat :=
  leValue_codeBytes code.toNat_lt

/-- A code is known by its bytes. -/
theorem codeBytes_injective : Function.Injective (codeBytes 8) := by
  intro a b h
  rw [← UInt64.toNat_inj, ← leValue_codeBytes_eight a, h, leValue_codeBytes_eight]

theorem leValue_eq_zero {name : Str} (hname : 0 ∉ name) (h : leValue name = 0) : name = [] := by
  rcases name with - | ⟨c, name⟩
  · rfl
  · rw [leValue] at h
    have hc : c = 0 := by
      rw [← UInt8.toNat_inj]
      show c.toNat = 0
      omega
    exact absurd (hc ▸ List.mem_cons_self) hname

/-- Bytes without a zero are the bytes of the code they make up. -/
theorem codeBytes_leValue {n : ℕ} {name : Str} (hlen : name.length ≤ n) (hn : n ≤ 8)
    (hname : 0 ∉ name) : codeBytes n (UInt64.ofNat (leValue name)) = name := by
  induction n generalizing name with
  | zero =>
    rw [List.length_eq_zero_iff.mp (Nat.le_zero.mp hlen)]
    rfl
  | succ n ih =>
    have hlt : leValue name < 2 ^ 64 := by
      have hle : (256 : ℕ) ^ name.length ≤ 256 ^ 8 := Nat.pow_le_pow_right (by omega) (by omega)
      have := leValue_lt name
      omega
    have htoNat : (UInt64.ofNat (leValue name)).toNat = leValue name := UInt64.toNat_ofNat_of_lt' hlt
    rcases name with - | ⟨c, name⟩
    · rfl
    · -- The loop stops at the first zero code, so a name must not run out before its bytes do.
      have hne : UInt64.ofNat (leValue (c :: name)) ≠ 0 := by
        intro h
        have hzero : leValue (c :: name) = 0 := by
          rw [← htoNat, h]
          rfl
        exact absurd (leValue_eq_zero hname hzero) (List.cons_ne_nil _ _)
      have hc := c.toNat_lt
      have hbyte : (UInt64.ofNat (leValue (c :: name))).toUInt8 = c := by
        rw [← UInt8.toNat_inj, UInt64.toNat_toUInt8, htoNat, leValue]
        omega
      have hrest : UInt64.ofNat (leValue (c :: name)) >>> 8 = UInt64.ofNat (leValue name) := by
        have hlt' : leValue name < 2 ^ 64 := by
          rw [leValue] at hlt
          omega
        rw [← UInt64.toNat_inj, shiftRight_eight, htoNat, UInt64.toNat_ofNat_of_lt' hlt', leValue]
        omega
      rw [codeBytes, if_neg hne, hbyte, hrest, ih (by simpa using hlen) (by omega)
        (fun h => hname (List.mem_cons_of_mem _ h))]

/-- The raw code of a name, as a number. -/
theorem toNat_toRawSymbolCode (name : Str) :
    (toRawSymbolCode name).toNat = leValue (name.take 7) ∧
      leValue (name.take 7) < 256 ^ 7 := by
  have hlt : leValue (name.take 7) < 256 ^ 7 := by
    have hle : (256 : ℕ) ^ (name.take 7).length ≤ 256 ^ 7 :=
      Nat.pow_le_pow_right (by omega) (List.length_take_le 7 name)
    exact lt_of_lt_of_le (leValue_lt _) hle
  exact ⟨UInt64.toNat_ofNat_of_lt' (show leValue (name.take 7) < 2 ^ 64 by omega), hlt⟩

/-- A code and a precision packed together. -/
theorem toNat_pack {code : UInt64} (h : code.toNat < 256 ^ 7) (precision : UInt8) :
    ((code <<< 8) ||| precision.toUInt64).toNat = code.toNat * 256 + precision.toNat := by
  have hp : precision.toNat < 2 ^ 8 := precision.toNat_lt
  have hshift : (code <<< 8).toNat = code.toNat <<< 8 := by
    rw [UInt64.toNat_shiftLeft]
    show code.toNat <<< 8 % _ = _
    rw [Nat.shiftLeft_eq, Nat.mod_eq_of_lt (by omega)]
  rw [UInt64.toNat_or, hshift, UInt8.toNat_toUInt64, ← Nat.shiftLeft_add_eq_or_of_lt hp,
    Nat.shiftLeft_eq]

/-- What is packed is taken apart again. -/
theorem pack_parts {code : UInt64} (h : code.toNat < 256 ^ 7) (precision : UInt8) :
    ((code <<< 8) ||| precision.toUInt64) >>> 8 = code ∧
      (((code <<< 8) ||| precision.toUInt64) &&& 0xff).toNat = precision.toNat := by
  have hp := precision.toNat_lt
  constructor
  · rw [← UInt64.toNat_inj, shiftRight_eight, toNat_pack h]
    omega
  · rw [UInt64.toNat_and, toNat_pack h]
    show _ &&& 2 ^ 8 - 1 = _
    rw [Nat.and_two_pow_sub_one_eq_mod]
    omega

/-- Every raw symbol is a code and a precision packed together. -/
theorem unpack (value : UInt64) :
    value = ((value >>> 8) <<< 8) ||| (value.toUInt8).toUInt64 := by
  have hcode : (value >>> 8).toNat < 256 ^ 7 := by
    have := value.toNat_lt
    rw [shiftRight_eight]
    omega
  rw [← UInt64.toNat_inj, toNat_pack hcode, shiftRight_eight, UInt64.toNat_toUInt8]
  omega

/-! ## Raw symbols -/

namespace AssetSymbol

/-- The raw symbols that are accepted. -/
theorem ofRaw_eq_ok_iff (value : UInt64) (s : AssetSymbol) :
    ofRaw value = .ok s ↔
      (value &&& 0xff).toNat ≤ 18 ∧ isValidSymbolName (value >>> 8) = true ∧ s = ⟨value⟩ := by
  unfold ofRaw maxPrecision
  by_cases hp : 18 < (value &&& 0xff).toNat
  · rw [if_pos hp]
    constructor
    · rintro ⟨⟩
    · rintro ⟨hle, -⟩
      omega
  rw [if_neg hp]
  by_cases hv : value ≠ 0 ∧ ¬ isValidSymbolName (value >>> 8) = true
  · rw [if_pos hv]
    constructor
    · rintro ⟨⟩
    · rintro ⟨-, hvalid, -⟩
      exact absurd hvalid hv.2
  · rw [if_neg hv]
    -- The zero symbol skips the test of the name, and its empty name passes it anyway.
    have hvalid : isValidSymbolName (value >>> 8) = true := by
      by_contra hne
      by_cases hzero : value = 0
      · rw [hzero] at hne
        exact hne (by decide)
      · exact hv ⟨hzero, hne⟩
    constructor
    · rintro ⟨⟩
      exact ⟨by omega, hvalid, rfl⟩
    · rintro ⟨-, -, rfl⟩
      rfl

/-- A symbol is known by its precision and its name. -/
theorem ext_parts {s t : AssetSymbol} (hp : s.precision = t.precision) (hn : s.name = t.name) :
    s = t := by
  have hcode : s.value >>> 8 = t.value >>> 8 := codeBytes_injective hn
  have hlow (v : UInt64) : (v &&& 0xff).toNat = v.toUInt8.toNat := by
    rw [UInt64.toNat_and, UInt64.toNat_toUInt8]
    show _ &&& 2 ^ 8 - 1 = _
    rw [Nat.and_two_pow_sub_one_eq_mod]
  have hbyte : s.value.toUInt8 = t.value.toUInt8 := by
    rw [← UInt8.toNat_inj, ← hlow, ← hlow]
    exact hp
  have hvalue := unpack s.value
  rw [hcode, hbyte, ← unpack] at hvalue
  cases s
  cases t
  exact congrArg AssetSymbol.mk hvalue

end AssetSymbol

/-- Upper-case letters only. -/
def IsLetters (name : Str) : Prop := ∀ c ∈ name, 65 ≤ c ∧ c ≤ 90

theorem IsLetters.zero_notMem {name : Str} (h : IsLetters name) : 0 ∉ name := by
  intro hmem
  exact absurd (h 0 hmem).1 (by decide)

/-- The parts of a symbol that is accepted, when its name holds no zero byte. -/
theorem fromParts_eq_ok_iff {name : Str} (hname : 0 ∉ name) (precision : ℕ) (s : AssetSymbol) :
    AssetSymbol.fromParts name precision = .ok s ↔
      precision % 256 ≤ 18 ∧ IsLetters (name.take 7) ∧ s.precision = precision % 256 ∧
        s.name = name.take 7 := by
  obtain ⟨hcode, hlt⟩ := toNat_toRawSymbolCode name
  rw [← hcode] at hlt
  obtain ⟨hshift, hlow⟩ := pack_parts hlt precision.toUInt8
  have hp : precision.toUInt8.toNat = precision % 256 := UInt8.toNat_ofNat'
  -- Seven bytes of the name fit above the precision; the code keeps no more of them.
  have hbytes : codeBytes 8 (toRawSymbolCode name) = name.take 7 := by
    rw [toRawSymbolCode]
    apply codeBytes_leValue _ le_rfl (fun h => hname (List.mem_of_mem_take h))
    exact (List.length_take_le 7 name).trans (by omega)
  have hvalid : isValidSymbolName (toRawSymbolCode name) = true ↔ IsLetters (name.take 7) := by
    rw [isValidSymbolName, hbytes, List.all_eq_true]
    simp only [decide_eq_true_eq]
    rfl
  rw [AssetSymbol.fromParts, AssetSymbol.ofRaw_eq_ok_iff, toRawSymbol, hlow, hshift, hvalid, hp]
  constructor
  · rintro ⟨hprecision, hletters, rfl⟩
    refine ⟨hprecision, hletters, ?_, ?_⟩
    · rw [AssetSymbol.precision, hlow, hp]
    · rw [AssetSymbol.name, hshift, hbytes]
  · rintro ⟨hprecision, hletters, hsp, hsn⟩
    refine ⟨hprecision, hletters, ?_⟩
    apply AssetSymbol.ext_parts
    · rw [hsp, AssetSymbol.precision, hlow, hp]
    · rw [hsn, AssetSymbol.name, hshift, hbytes]

/-! ## Digits -/

/-- A text of digits. -/
def IsDigits (text : Str) : Prop := ∀ c ∈ text, 48 ≤ c ∧ c ≤ 57

theorem isDigits_natToString (n : ℕ) : IsDigits (natToString n) := by
  intro c hc
  obtain ⟨hlow, hhigh⟩ := digit_of_mem_natToString hc
  exact ⟨UInt8.le_iff_toNat_le.mpr hlow, UInt8.le_iff_toNat_le.mpr hhigh⟩

theorem digit_toNat {c : UInt8} (h : 48 ≤ c ∧ c ≤ 57) : 48 ≤ c.toNat ∧ c.toNat ≤ 57 :=
  ⟨UInt8.le_iff_toNat_le.mp h.1, UInt8.le_iff_toNat_le.mp h.2⟩

theorem not_digit_iff (c : UInt8) : (c < 48 ∨ 57 < c) ↔ ¬ (48 ≤ c ∧ c ≤ 57) := by
  rw [not_and_or, UInt8.not_le, UInt8.not_le]

/-- The value of digits read after `acc`. -/
def valueAfter (acc : ℕ) (text : Str) : ℕ :=
  text.foldl (fun acc c => acc * 10 + (c.toNat - 48)) acc

theorem digitsValue_eq (text : Str) : digitsValue text = valueAfter 0 text := rfl

theorem valueAfter_cons (acc : ℕ) (c : UInt8) (text : Str) :
    valueAfter acc (c :: text) = valueAfter (acc * 10 + (c.toNat - 48)) text := by
  rw [valueAfter, List.foldl_cons, valueAfter]

/-- Reading on does not make a number smaller. -/
theorem le_valueAfter (acc : ℕ) (text : Str) : acc ≤ valueAfter acc text := by
  induction text generalizing acc with
  | nil => exact le_rfl
  | cons c text ih =>
    have hstep : acc ≤ acc * 10 + (c.toNat - 48) := by omega
    rw [valueAfter_cons]
    exact hstep.trans (ih _)

/-- The precision digits, when nothing else stands before the comma. -/
theorem precisionDigits_eq_ok_iff {text : Str} (htext : IsDigits text) (acc v : ℕ)
    (hacc : acc < 2560) :
    AssetSymbol.precisionDigits acc text = .ok v ↔ v = valueAfter acc text ∧ v < 2560 := by
  induction text generalizing acc with
  | nil =>
    rw [AssetSymbol.precisionDigits]
    constructor
    · rintro ⟨⟩
      exact ⟨rfl, hacc⟩
    · rintro ⟨rfl, -⟩
      rfl
  | cons c text ih =>
    have hc := htext c List.mem_cons_self
    obtain ⟨hlow, hhigh⟩ := digit_toNat hc
    have hdigit : ¬ (c < 48 ∨ 57 < c) := fun h => (not_digit_iff c).mp h hc
    rw [AssetSymbol.precisionDigits, if_neg hdigit, valueAfter_cons]
    by_cases hlarge : 255 < acc
    · -- a further digit takes the number to 2560 and more
      rw [if_pos hlarge]
      constructor
      · rintro ⟨⟩
      · rintro ⟨rfl, hle⟩
        have := le_valueAfter (acc * 10 + (c.toNat - 48)) text
        omega
    · rw [if_neg hlarge]
      exact ih (fun d hd => htext d (List.mem_cons_of_mem _ hd)) _ (by omega)

/-! ## Numerals -/

/-- A sign, and whether it is a minus. -/
inductive SignText : Str → Bool → Prop
  | none : SignText [] false
  | plus : SignText [43] false
  | minus : SignText [45] true

/-- The integer of a sign and a magnitude. -/
def signedMagnitude (negative : Bool) (magnitude : ℕ) : ℤ :=
  if negative then -(magnitude : ℤ) else magnitude

namespace Asset

/-- The magnitude of digits, which has to stay within the limit. -/
theorem parseMagnitude_eq_ok_iff {limit : ℕ} (hlimit : 9 ≤ limit) (overflow : Error)
    {acc : ℕ} (hacc : acc ≤ limit) (text : Str) (v : ℕ) :
    parseMagnitude limit overflow acc text = .ok v ↔
      IsDigits text ∧ v = valueAfter acc text ∧ v ≤ limit := by
  induction text generalizing acc with
  | nil =>
    rw [parseMagnitude]
    constructor
    · rintro ⟨⟩
      exact ⟨by simp [IsDigits], rfl, hacc⟩
    · rintro ⟨-, rfl, -⟩
      rfl
  | cons c text ih =>
    rw [parseMagnitude, valueAfter_cons]
    by_cases hc : 48 ≤ c ∧ c ≤ 57
    · obtain ⟨hlow, hhigh⟩ := digit_toNat hc
      have hdigit : ¬ (c < 48 ∨ 57 < c) := fun h => (not_digit_iff c).mp h hc
      have hcons : IsDigits (c :: text) ↔ IsDigits text := by
        rw [IsDigits, List.forall_mem_cons]
        exact and_iff_right hc
      rw [if_neg hdigit, hcons]
      simp only
      -- The source divides instead of multiplying, so that the test itself cannot overflow.
      by_cases hover : (limit - (c.toNat - 48)) / 10 < acc
      · rw [if_pos hover]
        constructor
        · rintro ⟨⟩
        · rintro ⟨-, rfl, hle⟩
          have := le_valueAfter (acc * 10 + (c.toNat - 48)) text
          omega
      · rw [if_neg hover]
        exact ih (by omega)
    · rw [if_pos ((not_digit_iff c).mpr hc)]
      constructor
      · rintro ⟨⟩
      · rintro ⟨hdigits, -⟩
        exact absurd (hdigits c List.mem_cons_self) hc

/-- A sign is taken off, whatever follows it if it is one of the two characters. -/
def splitSign : Str → Bool × Str
  | 45 :: rest => (true, rest)
  | 43 :: rest => (false, rest)
  | text => (false, text)

theorem parseInt64_eq (text : Str) : parseInt64 text =
    if (splitSign text).2 = [] then err .invalid "Invalid number"
    else do
      let limit := if (splitSign text).1 then 2 ^ 63 else 2 ^ 63 - 1
      let overflow : Error := {
        kind := .invalid
        message := lit "Number " ++ text ++
          (if (splitSign text).1 then lit " underflows int64" else lit " overflows int64") }
      let magnitude ← parseMagnitude limit overflow 0 (splitSign text).2
      return Int64.ofInt (if (splitSign text).1 then -magnitude else magnitude) := by
  unfold parseInt64
  rcases text with - | ⟨c, rest⟩
  · rfl
  by_cases hminus : c = 45
  · subst hminus
    rfl
  by_cases hplus : c = 43
  · subst hplus
    rfl
  simp [splitSign, hminus, hplus]

theorem splitSign_spec (text : Str) :
    ∃ sign, SignText sign (splitSign text).1 ∧ text = sign ++ (splitSign text).2 := by
  unfold splitSign
  split
  · exact ⟨[45], .minus, rfl⟩
  · exact ⟨[43], .plus, rfl⟩
  · exact ⟨[], .none, rfl⟩

/-- In front of digits the sign is what it was. -/
theorem splitSign_append {sign digits : Str} {negative : Bool} (hsign : SignText sign negative)
    (hne : digits ≠ []) (hdigits : IsDigits digits) :
    splitSign (sign ++ digits) = (negative, digits) := by
  cases hsign with
  | plus => rfl
  | minus => rfl
  | none =>
    obtain ⟨c, rest, rfl⟩ := List.exists_cons_of_ne_nil hne
    have hc := hdigits c List.mem_cons_self
    rw [List.nil_append]
    unfold splitSign
    split
    · rename_i h
      rw [(List.cons.inj h).1] at hc
      exact absurd hc (by decide)
    · rename_i h
      rw [(List.cons.inj h).1] at hc
      exact absurd hc (by decide)
    · rfl

/-- An integer from a magnitude within its limit. -/
theorem toInt_ofInt_signed {negative : Bool} {magnitude : ℕ}
    (h : magnitude ≤ if negative then 2 ^ 63 else 2 ^ 63 - 1) :
    (Int64.ofInt (if negative then -(magnitude : ℤ) else magnitude)).toInt =
      signedMagnitude negative magnitude := by
  unfold signedMagnitude
  rcases negative with - | -
  · rw [if_neg (by simp)] at h ⊢
    exact Int64.toInt_ofInt_of_le (by omega) (by omega)
  · rw [if_pos rfl] at h ⊢
    exact Int64.toInt_ofInt_of_le (by omega) (by omega)

/-- **The numerals `parseInt64` accepts**, and the integers they stand for. -/
theorem parseInt64_eq_ok_iff (text : Str) (i : Int64) :
    parseInt64 text = .ok i ↔ ∃ sign negative digits, text = sign ++ digits ∧
      SignText sign negative ∧ digits ≠ [] ∧ IsDigits digits ∧
      i.toInt = signedMagnitude negative (digitsValue digits) := by
  rw [parseInt64_eq]
  have hlimit (negative : Bool) : 9 ≤ if negative then 2 ^ 63 else 2 ^ 63 - 1 := by
    split <;> omega
  constructor
  · intro h
    by_cases hempty : (splitSign text).2 = []
    · rw [if_pos hempty] at h
      cases h
    · rw [if_neg hempty] at h
      obtain ⟨magnitude, hmagnitude, hpure⟩ := bind_eq_ok.mp h
      obtain ⟨hdigits, rfl, hle⟩ :=
        (parseMagnitude_eq_ok_iff (hlimit _) _ (Nat.zero_le _) _ _).mp hmagnitude
      cases hpure
      obtain ⟨sign, hsign, htext⟩ := splitSign_spec text
      exact ⟨sign, _, _, htext, hsign, hempty, hdigits, toInt_ofInt_signed hle⟩
  · rintro ⟨sign, negative, digits, rfl, hsign, hne, hdigits, hi⟩
    have hle : digitsValue digits ≤ if negative then 2 ^ 63 else 2 ^ 63 - 1 := by
      have hlow := i.le_toInt
      have hhigh := i.toInt_le
      rw [hi] at hlow hhigh
      unfold signedMagnitude at hlow hhigh
      -- A negative numeral may go one further, to the least integer.
      rcases negative with - | -
      · rw [if_neg (by simp)] at hlow hhigh ⊢
        have hmax : Int64.maxValue.toInt = 2 ^ 63 - 1 := rfl
        omega
      · rw [if_pos rfl] at hlow hhigh ⊢
        have hmin : Int64.minValue.toInt = -2 ^ 63 := rfl
        omega
    have hmagnitude (overflow : Error) :=
      (parseMagnitude_eq_ok_iff (hlimit negative) overflow (Nat.zero_le _) digits
        (digitsValue digits)).mpr ⟨hdigits, rfl, hle⟩
    rw [splitSign_append hsign hne hdigits, if_neg hne]
    simp only [hmagnitude, ok_bind]
    show Except.ok _ = _
    rw [← toInt_ofInt_signed hle, Int64.toInt_inj] at hi
    rw [hi]

end Asset

/-! ## Taking a text apart -/

theorem takeWhile_first {sep : UInt8} {head : Str} (h : sep ∉ head) (rest : Str) :
    (head ++ sep :: rest).takeWhile (· ≠ sep) = head := by
  have hhead : ∀ c ∈ head, decide (c ≠ sep) = true := by
    intro c hc
    rw [decide_eq_true_eq]
    rintro rfl
    exact h hc
  rw [List.takeWhile_append_of_pos hhead, List.takeWhile_cons_of_neg (by simp), List.append_nil]

theorem dropWhile_first {sep : UInt8} {head : Str} (h : sep ∉ head) (rest : Str) :
    (head ++ sep :: rest).dropWhile (· ≠ sep) = sep :: rest := by
  have hhead : ∀ c ∈ head, decide (c ≠ sep) = true := by
    intro c hc
    rw [decide_eq_true_eq]
    rintro rfl
    exact h hc
  rw [List.dropWhile_append_of_pos hhead, List.dropWhile_cons_of_neg (by simp)]

theorem takeWhile_none {sep : UInt8} {text : Str} (h : sep ∉ text) :
    text.takeWhile (· ≠ sep) = text := by
  rw [List.takeWhile_eq_self_iff]
  intro c hc
  rw [decide_eq_true_eq]
  rintro rfl
  exact h hc

theorem dropWhile_none {sep : UInt8} {text : Str} (h : sep ∉ text) :
    text.dropWhile (· ≠ sep) = [] := by
  rw [List.dropWhile_eq_nil_iff]
  intro c hc
  rw [decide_eq_true_eq]
  rintro rfl
  exact h hc

theorem IsDigits.notMem {text : Str} (h : IsDigits text) {c : UInt8} (hc : c < 48) : c ∉ text := by
  intro hmem
  exact absurd (h c hmem).1 (UInt8.not_le.mpr hc)

/-! ## Symbol texts -/

/-- A symbol text and its symbol: digits of at most 18, a comma, and a name whose
first seven characters are letters. -/
def SymbolText (value : Str) (s : AssetSymbol) : Prop :=
  ∃ digits name, value = digits ++ 44 :: name ∧ digits ≠ [] ∧ IsDigits digits ∧
    digitsValue digits ≤ 18 ∧ 44 ∉ name ∧ IsLetters (name.take 7) ∧
    s.precision = digitsValue digits ∧ s.name = name.take 7

/-- The texts at which `Symbol::from` slips: digits with something else after them,
a precision that is truncated to a byte, or a zero byte in the name. -/
def SymbolSlip (value : Str) : Prop :=
  ∃ head name, value = head ++ 44 :: name ∧ 44 ∉ head ∧
    ((∃ c rest, head = c :: rest ∧ (48 ≤ c ∧ c ≤ 57) ∧ ¬ IsDigits head) ∨
      (IsDigits head ∧ 255 < digitsValue head ∧ digitsValue head < 2560) ∨ 0 ∈ name)

/-- `Symbol::from` on a text with a comma. -/
theorem symbol_ofString_comma {head name : Str} (hhead : 44 ∉ head) (hname : 44 ∉ name) :
    AssetSymbol.ofString (head ++ 44 :: name) = (do
      let precision ← AssetSymbol.precisionDigits 0 head
      match head with
      | c :: _ =>
        if c < 48 ∨ 57 < c then err .invalid "Invalid symbol string"
        else AssetSymbol.fromParts name precision
      | [] => err .invalid "Invalid symbol string") := by
  unfold AssetSymbol.ofString
  rw [takeWhile_first hhead, dropWhile_first hhead]
  simp only
  rw [if_neg (fun h => hname h.1)]
  rfl

/-- A text with a second comma is refused. -/
theorem symbol_ofString_commas {head name : Str} (hhead : 44 ∉ head) (hname : 44 ∈ name) :
    AssetSymbol.ofString (head ++ 44 :: name) = err .invalid "Invalid symbol string" := by
  have hne : head ++ 44 :: name ≠ lit "0," := by
    intro h
    rcases head with - | ⟨c, head⟩
    · exact absurd (List.cons.inj h).1 (by decide)
    · obtain ⟨-, htail⟩ := List.cons.inj h
      rcases head with - | ⟨d, head⟩
      · rw [(List.cons.inj htail).2] at hname
        cases hname
      · exact absurd (List.cons.inj htail).2 (by simp)
  unfold AssetSymbol.ofString
  rw [takeWhile_first hhead, dropWhile_first hhead]
  simp only
  rw [if_pos ⟨hname, hne⟩]

/-- **The symbol texts that are accepted**, where `Symbol::from` does not slip. -/
theorem symbol_ofString_iff {value : Str} (h : ¬ SymbolSlip value) (s : AssetSymbol) :
    AssetSymbol.ofString value = .ok s ↔ SymbolText value s := by
  constructor
  · intro hs
    by_cases hcomma : 44 ∉ value
    · unfold AssetSymbol.ofString at hs
      simp only [dropWhile_none hcomma] at hs
      cases hs
    obtain ⟨head, name, rfl, hhead⟩ := List.eq_append_cons_of_mem (not_not.mp hcomma)
    by_cases hname : 44 ∈ name
    · rw [symbol_ofString_commas hhead hname] at hs
      cases hs
    rw [symbol_ofString_comma hhead hname] at hs
    obtain ⟨precision, hprecision, hs⟩ := bind_eq_ok.mp hs
    rcases head with - | ⟨c, rest⟩
    · cases hs
    simp only at hs
    by_cases hc : c < 48 ∨ 57 < c
    · rw [if_pos hc] at hs
      cases hs
    rw [if_neg hc] at hs
    have hdigit : 48 ≤ c ∧ c ≤ 57 := by
      by_contra hne
      exact hc ((not_digit_iff c).mpr hne)
    -- the head is digits, its number below 256, and the name has no zero byte
    have hdigits : IsDigits (c :: rest) := by
      by_contra hne
      exact h ⟨c :: rest, name, rfl, hhead, .inl ⟨c, rest, rfl, hdigit, hne⟩⟩
    have hzero : 0 ∉ name := fun hmem => h ⟨c :: rest, name, rfl, hhead, .inr (.inr hmem)⟩
    obtain ⟨rfl, hlt⟩ := (precisionDigits_eq_ok_iff hdigits 0 _ (by omega)).mp hprecision
    rw [← digitsValue_eq] at hlt hs
    have hsmall : digitsValue (c :: rest) ≤ 255 := by
      by_contra hlarge
      exact h ⟨c :: rest, name, rfl, hhead, .inr (.inl ⟨hdigits, by omega, hlt⟩)⟩
    rw [fromParts_eq_ok_iff hzero, Nat.mod_eq_of_lt (by omega)] at hs
    obtain ⟨hle, hletters, hsp, hsn⟩ := hs
    exact ⟨c :: rest, name, rfl, by simp, hdigits, hle, hname, hletters, hsp, hsn⟩
  · rintro ⟨digits, name, rfl, hne, hdigits, hle, hname, hletters, hsp, hsn⟩
    have hhead : 44 ∉ digits := hdigits.notMem (by decide)
    have hzero : 0 ∉ name := fun hmem => h ⟨digits, name, rfl, hhead, .inr (.inr hmem)⟩
    rw [symbol_ofString_comma hhead hname,
      (precisionDigits_eq_ok_iff hdigits 0 (digitsValue digits) (by omega)).mpr
        ⟨rfl, by omega⟩, ok_bind]
    rcases digits with - | ⟨c, rest⟩
    · exact absurd rfl hne
    simp only
    have hc : ¬ (c < 48 ∨ 57 < c) := fun hc =>
      (not_digit_iff c).mp hc (hdigits c List.mem_cons_self)
    rw [if_neg hc, fromParts_eq_ok_iff hzero, Nat.mod_eq_of_lt (by omega)]
    exact ⟨hle, hletters, hsp, hsn⟩

/-! ## Asset texts -/

/-- A decimal with its sign, the integer it is with the point left out, and how
many digits stand after the point. -/
def AmountText (amount : Str) (units : ℤ) (precision : ℕ) : Prop :=
  ∃ sign negative whole fraction, SignText sign negative ∧
    (amount = sign ++ whole ++ 46 :: fraction ∨ amount = sign ++ whole ∧ fraction = []) ∧
    IsDigits whole ∧ IsDigits fraction ∧ whole ++ fraction ≠ [] ∧
    precision = fraction.length ∧ units = signedMagnitude negative (digitsValue (whole ++ fraction))

/-- An asset text and its asset: a decimal whose digits are a 64-bit integer, a
space, and a name whose first seven characters are letters. -/
def AssetText (value : Str) (a : Asset) : Prop :=
  ∃ amount name, value = amount ++ 32 :: name ∧
    AmountText amount a.units.toInt a.symbol.precision ∧ a.symbol.precision ≤ 18 ∧ 32 ∉ name ∧
    IsLetters (name.take 7) ∧ a.symbol.name = name.take 7

/-- What stands after the first point. -/
def afterPoint (amount : Str) : Str := (amount.dropWhile (· ≠ 46)).drop 1

/-- The texts at which `Asset::from` slips: decimals in such number that it is
truncated to a byte, a sign after the point, or a zero byte in the name. -/
def AssetSlip (value : Str) : Prop :=
  ∃ amount name, value = amount ++ 32 :: name ∧ 32 ∉ amount ∧
    ((255 < (afterPoint amount).length ∧ (afterPoint amount).length % 256 ≤ 18) ∨
      (∃ rest, amount = 46 :: 43 :: rest ∨ amount = 46 :: 45 :: rest) ∨ 0 ∈ name)

namespace Asset

/-- `fromString` on a text with one space. -/
theorem fromString_space {amount name : Str} (hamount : 32 ∉ amount) (hname : 32 ∉ name) :
    fromString (amount ++ 32 :: name) = (do
      let symbol ← AssetSymbol.fromParts name (afterPoint amount).length
      let units ← parseInt64 (amount.takeWhile (· ≠ 46) ++ afterPoint amount)
      return { units, symbol }) := by
  unfold fromString
  rw [takeWhile_first hamount, dropWhile_first hamount]
  simp only
  rw [if_neg hname]
  rfl

/-- A text without a space, or with a second one, is refused. -/
theorem fromString_spaces {amount name : Str} (hamount : 32 ∉ amount) (hname : 32 ∈ name) :
    fromString (amount ++ 32 :: name) = err .invalid "Invalid asset string" := by
  unfold fromString
  rw [takeWhile_first hamount, dropWhile_first hamount]
  simp only
  rw [if_pos hname]

end Asset

theorem SignText.notMem {sign : Str} {negative : Bool} (h : SignText sign negative) {c : UInt8}
    (hplus : c ≠ 43) (hminus : c ≠ 45) : c ∉ sign := by
  cases h <;> simp [hplus, hminus]

/-- The amounts by what stands before the point and after it. -/
theorem amountText_iff {amount : Str}
    (hsign : ¬ ∃ rest, amount = 46 :: 43 :: rest ∨ amount = 46 :: 45 :: rest) (i : Int64)
    (precision : ℕ) :
    AmountText amount i.toInt precision ↔
      Asset.parseInt64 (amount.takeWhile (· ≠ 46) ++ afterPoint amount) = .ok i ∧
        precision = (afterPoint amount).length := by
  rw [Asset.parseInt64_eq_ok_iff]
  constructor
  · rintro ⟨sign, negative, whole, fraction, hs, hamount, hwhole, hfraction, hne, hp, hi⟩
    have hpoint : 46 ∉ sign ++ whole := by
      rw [List.mem_append, not_or]
      exact ⟨hs.notMem (by decide) (by decide), hwhole.notMem (by decide)⟩
    have hparts : amount.takeWhile (· ≠ 46) = sign ++ whole ∧ afterPoint amount = fraction := by
      rcases hamount with rfl | ⟨rfl, rfl⟩
      · exact ⟨takeWhile_first hpoint _, by rw [afterPoint, dropWhile_first hpoint]; rfl⟩
      · exact ⟨takeWhile_none hpoint, by rw [afterPoint, dropWhile_none hpoint]; rfl⟩
    rw [hparts.1, hparts.2]
    refine ⟨⟨sign, negative, whole ++ fraction, List.append_assoc _ _ _, hs, hne, ?_, hi⟩, hp⟩
    intro c hc
    rcases List.mem_append.mp hc with hc | hc
    · exact hwhole c hc
    · exact hfraction c hc
  · rintro ⟨⟨sign, negative, digits, htext, hs, hne, hdigits, hi⟩, hp⟩
    -- the amount is what stands before the point, and the point with the rest, if there is one
    have hamount : amount = amount.takeWhile (· ≠ 46) ++ 46 :: afterPoint amount ∨
        amount = amount.takeWhile (· ≠ 46) ∧ afterPoint amount = [] := by
      by_cases hpoint : 46 ∈ amount
      · left
        obtain ⟨front, rest, rfl, hfront⟩ := List.eq_append_cons_of_mem hpoint
        rw [takeWhile_first hfront, afterPoint, dropWhile_first hfront]
        rfl
      · right
        rw [takeWhile_none hpoint, afterPoint, dropWhile_none hpoint]
        exact ⟨rfl, rfl⟩
    -- a sign stands before the point
    have hbefore (c : UInt8) (hc : amount ≠ 46 :: c :: digits)
        (htext : amount.takeWhile (· ≠ 46) ++ afterPoint amount = c :: digits) :
        ∃ whole, amount.takeWhile (· ≠ 46) = c :: whole ∧ digits = whole ++ afterPoint amount := by
      rcases hw : amount.takeWhile (· ≠ 46) with - | ⟨d, whole⟩
      · rw [hw, List.nil_append] at htext
        rw [hw, htext] at hamount
        rcases hamount with hamount | ⟨-, hempty⟩
        · exact absurd hamount hc
        · cases hempty
      · rw [hw] at htext
        obtain ⟨hd, hrest⟩ := List.cons.inj htext
        exact ⟨whole, by rw [hw, hd], hrest.symm⟩
    have hfront : ∃ whole, amount.takeWhile (· ≠ 46) = sign ++ whole ∧
        digits = whole ++ afterPoint amount := by
      rcases hs
      · exact ⟨_, rfl, htext.symm⟩
      · exact hbefore 43 (fun h => hsign ⟨digits, .inl h⟩) htext
      · exact hbefore 45 (fun h => hsign ⟨digits, .inr h⟩) htext
    obtain ⟨whole, hwhole, rfl⟩ := hfront
    rw [hwhole] at hamount
    refine ⟨sign, negative, whole, afterPoint amount, hs, hamount, ?_, ?_, hne, hp, hi⟩
    · exact fun c hc => hdigits c (List.mem_append_left _ hc)
    · exact fun c hc => hdigits c (List.mem_append_right _ hc)

/-- An amount holds no space. -/
theorem AmountText.space_notMem {amount : Str} {units : ℤ} {precision : ℕ}
    (h : AmountText amount units precision) : 32 ∉ amount := by
  obtain ⟨sign, negative, whole, fraction, hs, hamount, hwhole, hfraction, -⟩ := h
  have hsign : 32 ∉ sign := hs.notMem (by decide) (by decide)
  have hw : 32 ∉ whole := hwhole.notMem (by decide)
  have hf : 32 ∉ fraction := hfraction.notMem (by decide)
  rcases hamount with rfl | ⟨rfl, -⟩ <;> simp [hsign, hw, hf]

/-- **The asset texts that are accepted**, where `Asset::from` does not slip. -/
theorem asset_fromString_iff {value : Str} (h : ¬ AssetSlip value) (a : Asset) :
    Asset.fromString value = .ok a ↔ AssetText value a := by
  constructor
  · intro ha
    by_cases hspace : 32 ∉ value
    · unfold Asset.fromString at ha
      simp only [dropWhile_none hspace] at ha
      cases ha
    obtain ⟨amount, name, rfl, hamount⟩ := List.eq_append_cons_of_mem (not_not.mp hspace)
    by_cases hname : 32 ∈ name
    · rw [Asset.fromString_spaces hamount hname] at ha
      cases ha
    rw [Asset.fromString_space hamount hname] at ha
    obtain ⟨symbol, hsymbol, ha⟩ := bind_eq_ok.mp ha
    obtain ⟨units, hunits, ha⟩ := bind_eq_ok.mp ha
    cases ha
    have hzero : 0 ∉ name := fun hmem => h ⟨amount, name, rfl, hamount, .inr (.inr hmem)⟩
    obtain ⟨hle, hletters, hsp, hsn⟩ := (fromParts_eq_ok_iff hzero _ _).mp hsymbol
    -- The digits after the point are counted in a byte: more than 255 of them is a slip.
    have hsmall : (afterPoint amount).length ≤ 255 := by
      by_contra hlarge
      exact h ⟨amount, name, rfl, hamount, .inl ⟨by omega, hle⟩⟩
    rw [Nat.mod_eq_of_lt (by omega)] at hle hsp
    have hsign : ¬ ∃ rest, amount = 46 :: 43 :: rest ∨ amount = 46 :: 45 :: rest :=
      fun hsign => h ⟨amount, name, rfl, hamount, .inr (.inl hsign)⟩
    exact ⟨amount, name, rfl, (amountText_iff hsign units _).mpr ⟨hunits, hsp⟩, by
      rw [hsp]; exact hle, hname, hletters, hsn⟩
  · rintro ⟨amount, name, rfl, htext, hle, hname, hletters, hsn⟩
    have hamount := htext.space_notMem
    have hzero : 0 ∉ name := fun hmem => h ⟨amount, name, rfl, hamount, .inr (.inr hmem)⟩
    have hsign : ¬ ∃ rest, amount = 46 :: 43 :: rest ∨ amount = 46 :: 45 :: rest :=
      fun hsign => h ⟨amount, name, rfl, hamount, .inr (.inl hsign)⟩
    obtain ⟨hunits, hp⟩ := (amountText_iff hsign _ _).mp htext
    have hmod : (afterPoint amount).length % 256 = a.symbol.precision := by
      rw [← hp]
      exact Nat.mod_eq_of_lt (by omega)
    have hsymbol : AssetSymbol.fromParts name (afterPoint amount).length = .ok a.symbol := by
      rw [fromParts_eq_ok_iff hzero, hmod]
      exact ⟨hle, hletters, rfl, hsn⟩
    rw [Asset.fromString_space hamount hname, hsymbol, ok_bind, hunits, ok_bind]
    rfl

/-- **Symbol and asset texts mean what they say**, where the two readers do not
slip: the texts accepted are those of the grammar, and the parts read are the parts
written, the name by its first seven characters. -/
theorem assetTexts_faithful (value : Str) :
    (¬ SymbolSlip value → ∀ s, AssetSymbol.ofString value = .ok s ↔ SymbolText value s) ∧
      (¬ AssetSlip value → ∀ a, Asset.fromString value = .ok a ↔ AssetText value a) :=
  ⟨symbol_ofString_iff, asset_fromString_iff⟩

/-- Where a text is taken apart, it is taken apart once. -/
theorem parts_unique {sep : UInt8} {head rest head' rest' : Str} (hhead : sep ∉ head)
    (hhead' : sep ∉ head') (h : head ++ sep :: rest = head' ++ sep :: rest') :
    head = head' ∧ rest = rest' := by
  have htake := takeWhile_first hhead rest
  have hdrop := dropWhile_first hhead rest
  rw [h, takeWhile_first hhead'] at htake
  rw [h, dropWhile_first hhead'] at hdrop
  exact ⟨htake.symm, (List.cons.inj hdrop).2.symm⟩

/-- `4,SYS` is a symbol text, and `-1.0000 SYS` an asset text. -/
theorem assetTexts_faithful_sys :
    SymbolText "4,SYS" ⟨toRawSymbol "SYS" 4⟩ ∧
      AssetText "-1.0000 SYS" ⟨-10000, ⟨toRawSymbol "SYS" 4⟩⟩ := by
  have hsymbol : ¬ SymbolSlip "4,SYS" := by
    rintro ⟨head, name, hvalue, hhead, hslip⟩
    obtain ⟨rfl, rfl⟩ := @parts_unique 44 "4" "SYS" head name (by decide) hhead hvalue
    rcases hslip with ⟨c, rest, -, -, hdigits⟩ | ⟨-, hlarge, -⟩ | hzero
    · exact hdigits (by unfold IsDigits; decide +kernel)
    · exact absurd hlarge (by decide +kernel)
    · exact absurd hzero (by decide)
  have hasset : ¬ AssetSlip "-1.0000 SYS" := by
    rintro ⟨amount, name, hvalue, hamount, hslip⟩
    obtain ⟨rfl, rfl⟩ := @parts_unique 32 "-1.0000" "SYS" amount name (by decide) hamount hvalue
    rcases hslip with ⟨hlarge, -⟩ | ⟨rest, hsign | hsign⟩ | hzero
    · exact absurd hlarge (by decide +kernel)
    · exact absurd (List.cons.inj hsign).1 (by decide)
    · exact absurd (List.cons.inj hsign).1 (by decide)
    · exact absurd hzero (by decide)
  exact ⟨((assetTexts_faithful "4,SYS").1 hsymbol _).mp (by decide +kernel),
    ((assetTexts_faithful "-1.0000 SYS").2 hasset _).mp (by decide +kernel)⟩

/-- A longer name is cut, a precision of 256 is zero, letters after the precision
are passed over, and a sign may stand after the point. -/
theorem assetTexts_lenient :
    (∃ s, AssetSymbol.ofString "4,ABCDEFGH" = .ok s ∧ s.name = "ABCDEFG") ∧
      (∃ s, AssetSymbol.ofString "256,SYS" = .ok s ∧ s.precision = 0) ∧
      (∃ s, AssetSymbol.ofString "4abc,SYS" = .ok s ∧ s.precision = 4) ∧
      (∃ a, Asset.fromString ".-5 SYS" = .ok a ∧ a.units = -5 ∧ a.symbol.precision = 2) :=
  ⟨⟨⟨toRawSymbol "ABCDEFG" 4⟩, by decide +kernel, by decide +kernel⟩,
    ⟨⟨toRawSymbol "SYS" 0⟩, by decide +kernel, by decide +kernel⟩,
    ⟨⟨toRawSymbol "SYS" 4⟩, by decide +kernel, by decide +kernel⟩,
    ⟨⟨-5, ⟨toRawSymbol "SYS" 2⟩⟩, by decide +kernel, by decide +kernel, by decide +kernel⟩⟩

end Dwarfkit
