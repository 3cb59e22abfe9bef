/-
# Assets and symbols through their texts

`abi_traits<Asset>`, `abi_traits<Asset::Symbol>` and `abi_traits<Asset::SymbolCode>`
from bytes to json text and back.  The raw code of a `symbol_code` has eight bytes,
its text form seven characters.

* `amountText_formatUnits` : the digits and the point `formatUnits` writes;
* `symbolCode_text_iff` : the codes whose text stands for them;
* `assetForms_iff` : the bytes that survive their text form.
-/
import Dwarfkit.Antelope.Chain.AssetText
import Dwarfkit.Antelope.Serializer.Builtins

namespace Dwarfkit

open Wire

/-! ## Symbols -/

/-- A code has no more characters than bytes. -/
theorem length_codeBytes_le (n : ℕ) {k : ℕ} {code : UInt64} (h : code.toNat < 256 ^ k) :
    (codeBytes n code).length ≤ k := by
  induction n generalizing k code with
  | zero => exact Nat.zero_le _
  | succ n ih =>
    rw [codeBytes]
    by_cases hcode : code = 0
    · rw [if_pos hcode]
      exact Nat.zero_le _
    · rw [if_neg hcode, List.length_cons]
      rcases k with - | k
      · have hzero : code = 0 := by
          rw [← UInt64.toNat_inj]
          simpa using h
        exact absurd hzero hcode
      · apply Nat.add_le_add_right
        apply ih
        rw [shiftRight_eight]
        exact Nat.div_lt_of_lt_mul (by rw [← pow_succ']; exact h)

/-- The name of a symbol that is accepted. -/
theorem AssetSymbol.name_of_ofRaw {value : UInt64} {s : AssetSymbol}
    (h : AssetSymbol.ofRaw value = .ok s) :
    s.precision ≤ 18 ∧ IsLetters s.name ∧ s.name.take 7 = s.name := by
  obtain ⟨hp, hvalid, rfl⟩ := (AssetSymbol.ofRaw_eq_ok_iff value s).mp h
  have hletters : IsLetters (codeBytes 8 (value >>> 8)) := by
    rw [isValidSymbolName, List.all_eq_true] at hvalid
    intro c hc
    simpa using hvalid c hc
  have hcode : (value >>> 8).toNat < 256 ^ 7 := by
    have := value.toNat_lt
    rw [shiftRight_eight]
    omega
  exact ⟨hp, hletters, List.take_of_length_le (length_codeBytes_le 8 hcode)⟩

theorem IsLetters.notMem {name : Str} (h : IsLetters name) {c : UInt8} (hc : c < 65) :
    c ∉ name := by
  intro hmem
  exact absurd (h c hmem).1 (UInt8.not_le.mpr hc)

/-- **A symbol that is accepted is read back from its text.** -/
theorem symbol_ofString_toString {value : UInt64} {s : AssetSymbol}
    (h : AssetSymbol.ofRaw value = .ok s) : AssetSymbol.ofString s.toString = .ok s := by
  obtain ⟨hp, hletters, htake⟩ := AssetSymbol.name_of_ofRaw h
  have hdigits := isDigits_natToString s.precision
  have hvalue := digitsValue_natToString s.precision
  have htext : s.toString = natToString s.precision ++ 44 :: s.name := by
    rw [AssetSymbol.toString, List.append_assoc]
    rfl
  have hslip : ¬ SymbolSlip s.toString := by
    rintro ⟨head, name, heq, hhead, hslip⟩
    rw [htext] at heq
    obtain ⟨rfl, rfl⟩ := parts_unique (hdigits.notMem (by decide)) hhead heq
    rcases hslip with ⟨c, rest, -, -, hnot⟩ | ⟨-, hlarge, -⟩ | hzero
    · exact hnot hdigits
    · omega
    · exact hletters.zero_notMem hzero
  rw [symbol_ofString_iff hslip]
  exact ⟨_, _, htext, natToString_ne_nil _, hdigits, by rw [hvalue]; exact hp,
    hletters.notMem (by decide), by rw [htake]; exact hletters, hvalue.symm, htake.symm⟩

/-! ## Symbol codes -/

namespace SymbolCode

theorem ofRaw_eq_ok_iff (value : UInt64) (c : SymbolCode) :
    ofRaw value = .ok c ↔ isValidSymbolName value = true ∧ c = ⟨value⟩ := by
  unfold ofRaw
  by_cases hv : value ≠ 0 ∧ ¬ isValidSymbolName value = true
  · rw [if_pos hv]
    constructor
    · rintro ⟨⟩
    · rintro ⟨hvalid, -⟩
      exact absurd hvalid hv.2
  · rw [if_neg hv]
    have hvalid : isValidSymbolName value = true := by
      by_contra hne
      by_cases hzero : value = 0
      · rw [hzero] at hne
        exact hne (by decide)
      · exact hv ⟨hzero, hne⟩
    constructor
    · rintro ⟨⟩
      exact ⟨hvalid, rfl⟩
    · rintro ⟨-, rfl⟩
      rfl

/-- The text of a code packs its first seven characters. -/
theorem toNat_toRawSymbolCode_toString (c : SymbolCode) :
    (toRawSymbolCode c.toString).toNat = leValue ((codeBytes 8 c.value).take 7) :=
  (toNat_toRawSymbolCode _).1

/-- **The codes that are read back from their text**: those of seven bytes. -/
theorem text_iff {value : UInt64} {c : SymbolCode} (h : ofRaw value = .ok c) :
    ofString c.toString = .ok c ↔ value.toNat < 256 ^ 7 := by
  obtain ⟨hvalid, rfl⟩ := (ofRaw_eq_ok_iff value c).mp h
  have hraw := toNat_toRawSymbolCode_toString ⟨value⟩
  constructor
  · intro hread
    obtain ⟨-, heq⟩ := (ofRaw_eq_ok_iff _ _).mp hread
    have hvalue : value = toRawSymbolCode (SymbolCode.toString ⟨value⟩) :=
      congrArg SymbolCode.value heq
    rw [hvalue]
    exact lt_of_eq_of_lt hraw (toNat_toRawSymbolCode _).2
  · intro hlt
    have htake : (codeBytes 8 value).take 7 = codeBytes 8 value :=
      List.take_of_length_le (length_codeBytes_le 8 hlt)
    have hvalue : toRawSymbolCode (SymbolCode.toString ⟨value⟩) = value := by
      rw [← UInt64.toNat_inj, hraw, htake, leValue_codeBytes_eight]
    rw [ofString, hvalue, h]

end SymbolCode

/-! ## Assets -/

theorem valueAfter_append (acc : ℕ) (a b : Str) :
    valueAfter acc (a ++ b) = valueAfter (valueAfter acc a) b :=
  List.foldl_append

/-- Zeros in front of digits do not count. -/
theorem digitsValue_zeros (k : ℕ) (text : Str) :
    digitsValue (List.replicate k 48 ++ text) = digitsValue text := by
  have hzeros : valueAfter 0 (List.replicate k 48) = 0 := by
    induction k with
    | zero => rfl
    | succ k ih =>
      rw [List.replicate_succ, valueAfter_cons]
      exact ih
  rw [digitsValue_eq, valueAfter_append, hzeros, digitsValue_eq]

/-- The digits of an amount, padded past its precision. -/
def unitDigits (units : Int64) (precision : ℕ) : Str :=
  List.replicate (precision + 1 - (natToString units.toInt.natAbs).length) 48 ++
    natToString units.toInt.natAbs

theorem isDigits_unitDigits (units : Int64) (precision : ℕ) :
    IsDigits (unitDigits units precision) := by
  intro c hc
  rcases List.mem_append.mp hc with hc | hc
  · rw [List.eq_of_mem_replicate hc]
    decide
  · exact isDigits_natToString _ c hc

theorem length_unitDigits (units : Int64) (precision : ℕ) :
    precision < (unitDigits units precision).length := by
  rw [unitDigits, List.length_append, List.length_replicate]
  omega

theorem digitsValue_unitDigits (units : Int64) (precision : ℕ) :
    digitsValue (unitDigits units precision) = units.toInt.natAbs := by
  rw [unitDigits, digitsValue_zeros, digitsValue_natToString]

/-- What `formatUnits` puts together: a minus for negative units, and the digits
with a point in front of the last `precision` of them. -/
theorem formatUnits_parts (units : Int64) (precision : ℕ) :
    ∃ whole fraction, whole ≠ [] ∧ whole ++ fraction = unitDigits units precision ∧
      precision = fraction.length ∧
      (Asset.formatUnits units precision =
          (if units < 0 then [45] else []) ++ whole ++ 46 :: fraction ∨
        Asset.formatUnits units precision = (if units < 0 then [45] else []) ++ whole ∧
          fraction = []) := by
  have hlen := length_unitDigits units precision
  have hsign (body : Str) : (if units < 0 then 45 :: body else body) =
      (if units < 0 then [45] else []) ++ body := by
    split <;> rfl
  -- A precision of zero writes no point.
  by_cases hp : 0 < precision
  · refine ⟨(unitDigits units precision).take ((unitDigits units precision).length - precision),
      (unitDigits units precision).drop ((unitDigits units precision).length - precision),
      ?_, List.take_append_drop _ _, ?_, .inl ?_⟩
    · apply List.ne_nil_of_length_pos
      rw [List.length_take]
      omega
    · rw [List.length_drop]
      omega
    · unfold Asset.formatUnits
      simp only [if_pos hp]
      rw [hsign, List.append_assoc, List.append_assoc]
      rfl
  · refine ⟨unitDigits units precision, [], List.ne_nil_of_length_pos (by omega),
      List.append_nil _, by simp; omega, .inr ⟨?_, rfl⟩⟩
    unfold Asset.formatUnits
    simp only [if_neg hp]
    rw [hsign]
    rfl

/-- **The decimal `formatUnits` writes** stands for its units at its precision. -/
theorem amountText_formatUnits (units : Int64) (precision : ℕ) :
    AmountText (Asset.formatUnits units precision) units.toInt precision := by
  obtain ⟨whole, fraction, hwhole, happend, hp, hformat⟩ := formatUnits_parts units precision
  have hdigits := isDigits_unitDigits units precision
  rw [← happend] at hdigits
  have hvalue : digitsValue (whole ++ fraction) = units.toInt.natAbs := by
    rw [happend, digitsValue_unitDigits]
  have hne : whole ++ fraction ≠ [] := fun h => hwhole (List.append_eq_nil_iff.mp h).1
  have hwhole' : IsDigits whole := fun c hc => hdigits c (List.mem_append_left _ hc)
  have hfraction : IsDigits fraction := fun c hc => hdigits c (List.mem_append_right _ hc)
  by_cases hneg : units < 0
  · have hneg' : units.toInt < 0 := Int64.lt_iff_toInt_lt.mp hneg
    rw [if_pos hneg] at hformat
    refine ⟨[45], true, whole, fraction, .minus, hformat, hwhole', hfraction, hne, hp, ?_⟩
    rw [hvalue, signedMagnitude, if_pos rfl]
    omega
  · have hneg' : ¬ units.toInt < 0 := fun h => hneg (Int64.lt_iff_toInt_lt.mpr h)
    rw [if_neg hneg] at hformat
    refine ⟨[], false, whole, fraction, .none, hformat, hwhole', hfraction, hne, hp, ?_⟩
    rw [hvalue, signedMagnitude, if_neg (by simp)]
    omega

/-- It does not begin with the point. -/
theorem formatUnits_ne_point (units : Int64) (precision : ℕ) (rest : Str) :
    Asset.formatUnits units precision ≠ 46 :: rest := by
  obtain ⟨whole, fraction, hwhole, happend, -, hformat⟩ := formatUnits_parts units precision
  obtain ⟨c, whole, rfl⟩ := List.exists_cons_of_ne_nil hwhole
  have hc : 48 ≤ c ∧ c ≤ 57 := by
    apply isDigits_unitDigits units precision
    rw [← happend]
    exact List.mem_append_left _ List.mem_cons_self
  have hfirst : ∀ tail : Str, (if units < 0 then [45] else []) ++ c :: tail ≠ 46 :: rest := by
    intro tail heq
    split at heq
    · exact absurd (List.cons.inj heq).1 (by decide)
    · rw [(List.cons.inj heq).1] at hc
      exact absurd hc (by decide)
  rcases hformat with hformat | ⟨hformat, -⟩
  · rw [hformat, List.append_assoc]
    exact hfirst _
  · rw [hformat]
    exact hfirst _

/-- **An asset whose symbol is accepted is read back from its text.** -/
theorem asset_fromString_toString {value : UInt64} {a : Asset}
    (h : AssetSymbol.ofRaw value = .ok a.symbol) : Asset.fromString a.toString = .ok a := by
  obtain ⟨hp, hletters, htake⟩ := AssetSymbol.name_of_ofRaw h
  have hamount : AmountText a.quantity a.units.toInt a.symbol.precision :=
    amountText_formatUnits a.units a.symbol.precision
  have htext : a.toString = a.quantity ++ 32 :: a.symbol.name := by
    rw [Asset.toString, List.append_assoc]
    rfl
  have hslip : ¬ AssetSlip a.toString := by
    rintro ⟨amount, name, heq, hspace, hslip⟩
    rw [htext] at heq
    obtain ⟨rfl, rfl⟩ := parts_unique hamount.space_notMem hspace heq
    have hsign : ¬ ∃ rest, a.quantity = 46 :: 43 :: rest ∨ a.quantity = 46 :: 45 :: rest := by
      rintro ⟨rest, hsign | hsign⟩
      · exact formatUnits_ne_point _ _ _ hsign
      · exact formatUnits_ne_point _ _ _ hsign
    have hpoint := ((amountText_iff hsign a.units _).mp hamount).2
    rcases hslip with ⟨hlarge, -⟩ | hslip | hzero
    · omega
    · exact hsign hslip
    · exact hletters.zero_notMem hzero
  rw [asset_fromString_iff hslip]
  exact ⟨_, _, htext, hamount, hp, hletters.notMem (by decide),
    by rw [htake]; exact hletters, htake.symm⟩

/-! ## Bytes to text and back -/

/-- A byte string survives the text form of a type: what it is decoded to is the
same again from its text, and is written as the bytes it was read from. -/
def TextSurvives {α : Type} (t : AbiTraits α) (bytes : Bytes) : Prop :=
  ∀ v rest, t.fromABI.run bytes = .ok (v, rest) →
    t.fromJSON (t.toJSON v) = .ok v ∧ ∃ chunk, t.toABI v = .ok chunk ∧ bytes = chunk ++ rest

/-- What `readInt` reads is the number its bytes stand for. -/
theorem readInt_eq_ok {n v : ℕ} {bytes rest : Bytes}
    (h : (readInt n).run bytes = .ok (v, rest)) :
    bytes = writeInt n v ++ rest ∧ v < 256 ^ n := by
  obtain ⟨data, mid, hdata, hpure⟩ := run_bind_eq_ok h
  cases hpure
  obtain ⟨hlen, rfl⟩ := readArray_eq_ok hdata
  have hlt := leValue_lt data
  rw [hlen] at hlt
  refine ⟨?_, hlt⟩
  rw [writeInt, ← hlen, leBytes_leValue]

/-- A result that is checked once it is read. -/
theorem ofResult_eq_ok {α : Type} {r : Result α} {v : α} {bytes rest : Bytes}
    (h : (Decoder.ofResult r).run bytes = .ok (v, rest)) : r = .ok v ∧ rest = bytes := by
  obtain ⟨a, ha, hpure⟩ := bind_eq_ok.mp h
  cases hpure
  exact ⟨ha, rfl⟩

theorem toNat_ofNat_readInt {v : ℕ} (h : v < 256 ^ 8) : (UInt64.ofNat v).toNat = v :=
  UInt64.toNat_ofNat_of_lt' (show v < 2 ^ 64 by omega)

/-- Symbols survive their text form. -/
theorem symbol_textSurvives (bytes : Bytes) : TextSurvives AbiTraits.symbol bytes := by
  intro s rest h
  obtain ⟨raw, mid, hraw, hcheck⟩ := run_bind_eq_ok h
  obtain ⟨rfl, hlt⟩ := readInt_eq_ok hraw
  obtain ⟨hs, rfl⟩ := ofResult_eq_ok hcheck
  obtain ⟨-, -, hvalue⟩ := (AssetSymbol.ofRaw_eq_ok_iff _ s).mp hs
  refine ⟨symbol_ofString_toString hs, writeInt 8 s.value.toNat, rfl, ?_⟩
  rw [hvalue]
  simp only
  rw [toNat_ofNat_readInt hlt]

/-- So do assets. -/
theorem asset_textSurvives (bytes : Bytes) : TextSurvives AbiTraits.asset bytes := by
  intro a rest h
  obtain ⟨units, mid₁, hunits, h₁⟩ := run_bind_eq_ok h
  obtain ⟨raw, mid₂, hraw, h₂⟩ := run_bind_eq_ok h₁
  obtain ⟨s, mid₃, hcheck, h₃⟩ := run_bind_eq_ok h₂
  cases h₃
  obtain ⟨rfl, hlt₁⟩ := readInt_eq_ok hunits
  obtain ⟨rfl, hlt₂⟩ := readInt_eq_ok hraw
  obtain ⟨hs, rfl⟩ := ofResult_eq_ok hcheck
  obtain ⟨-, -, hvalue⟩ := (AssetSymbol.ofRaw_eq_ok_iff _ s).mp hs
  have hu : (Int64.ofInt units).toUInt64.toNat = units := by
    have hcast : Int64.ofInt units = (UInt64.ofNat units).toInt64 := by
      apply Int64.toBitVec_inj.mp
      exact BitVec.ofInt_natCast 64 units
    rw [hcast]
    exact toNat_ofNat_readInt hlt₁
  refine ⟨asset_fromString_toString hs, _, rfl, ?_⟩
  simp only
  rw [hu, hvalue, toNat_ofNat_readInt hlt₂, List.append_assoc]

/-- Eight letters at the front, which make a code of eight bytes. -/
def EightLetters (bytes : Bytes) : Prop := 8 ≤ bytes.length ∧ IsLetters (bytes.take 8)

/-- The codes of seven bytes, by their characters. -/
theorem lt_iff_length_codeBytes (code : UInt64) :
    code.toNat < 256 ^ 7 ↔ (codeBytes 8 code).length ≤ 7 := by
  constructor
  · exact length_codeBytes_le 8
  · intro hlen
    have hlt := leValue_lt (codeBytes 8 code)
    have hle : (256 : ℕ) ^ (codeBytes 8 code).length ≤ 256 ^ 7 :=
      Nat.pow_le_pow_right (by omega) hlen
    rw [leValue_codeBytes_eight] at hlt
    omega

/-- The code in eight bytes is of seven or accepted with all eight. -/
theorem codeBytes_of_eight {data : Bytes} (hlen : data.length = 8) :
    IsLetters data ↔ isValidSymbolName (UInt64.ofNat (leValue data)) = true ∧
      ¬ (UInt64.ofNat (leValue data)).toNat < 256 ^ 7 := by
  have hvalid (code : UInt64) : isValidSymbolName code = true ↔ IsLetters (codeBytes 8 code) := by
    rw [isValidSymbolName, List.all_eq_true]
    simp only [decide_eq_true_eq]
    rfl
  have hlt := leValue_lt data
  rw [hlen] at hlt
  rw [hvalid, lt_iff_length_codeBytes]
  constructor
  · intro hletters
    rw [codeBytes_leValue hlen.le le_rfl hletters.zero_notMem]
    exact ⟨hletters, by omega⟩
  · rintro ⟨hletters, hlong⟩
    have hcode : (codeBytes 8 (UInt64.ofNat (leValue data))).length = 8 := by
      have := length_codeBytes_le 8 (k := 8) (UInt64.ofNat (leValue data)).toNat_lt
      omega
    have heq := leBytes_leValue (codeBytes 8 (UInt64.ofNat (leValue data)))
    have hdata := leBytes_leValue data
    rw [hlen] at hdata
    rw [hcode, leValue_codeBytes_eight, toNat_ofNat_readInt hlt, hdata] at heq
    rwa [heq]

/-- **The bytes of a symbol code survive its text form** unless they are eight
letters. -/
theorem symbolCode_textSurvives_iff (bytes : Bytes) :
    TextSurvives AbiTraits.symbolCode bytes ↔ ¬ EightLetters bytes := by
  constructor
  · rintro h ⟨hlen, hletters⟩
    have hdata : (bytes.take 8).length = 8 := List.length_take_of_le hlen
    obtain ⟨hvalid, hlarge⟩ := (codeBytes_of_eight hdata).mp hletters
    have hread : AbiTraits.symbolCode.fromABI.run bytes =
        .ok (⟨UInt64.ofNat (leValue (bytes.take 8))⟩, bytes.drop 8) := by
      have hraw : (readInt 8).run bytes = .ok (leValue (bytes.take 8), bytes.drop 8) := by
        show (readArray 8 bytes >>= fun q => pure (leValue q.1, q.2)) = _
        rw [readArray, if_pos hlen]
        rfl
      show ((readInt 8).run bytes >>= fun q =>
        (Decoder.ofResult (SymbolCode.ofRaw (UInt64.ofNat q.1))).run q.2) = _
      rw [hraw, ok_bind, (SymbolCode.ofRaw_eq_ok_iff _ _).mpr ⟨hvalid, rfl⟩]
      rfl
    have hcode := (SymbolCode.ofRaw_eq_ok_iff (UInt64.ofNat (leValue (bytes.take 8))) _).mpr
      ⟨hvalid, rfl⟩
    exact hlarge ((SymbolCode.text_iff hcode).mp (h _ _ hread).1)
  · intro hnot c rest h
    obtain ⟨raw, mid, hraw, hcheck⟩ := run_bind_eq_ok h
    obtain ⟨hbytes, hlt⟩ := readInt_eq_ok hraw
    obtain ⟨hc, rfl⟩ := ofResult_eq_ok hcheck
    obtain ⟨hvalid, hvalue⟩ := (SymbolCode.ofRaw_eq_ok_iff _ c).mp hc
    -- Eight bytes that are valid but too large for seven letters are the excluded ones.
    have hsmall : (UInt64.ofNat raw).toNat < 256 ^ 7 := by
      by_contra hlarge
      have hdata : (writeInt 8 raw).length = 8 := length_leBytes 8 raw
      have htake : bytes.take 8 = writeInt 8 raw := by
        rw [hbytes, List.take_left' hdata]
      have hle : 8 ≤ bytes.length := by
        rw [hbytes, List.length_append, hdata]
        omega
      refine hnot ⟨hle, ?_⟩
      rw [htake, codeBytes_of_eight hdata, writeInt, leValue_leBytes hlt]
      exact ⟨hvalid, hlarge⟩
    refine ⟨(SymbolCode.text_iff hc).mpr hsmall, writeInt 8 c.value.toNat, rfl, ?_⟩
    rw [hvalue]
    simp only
    rw [toNat_ofNat_readInt hlt]
    exact hbytes

/-- **Symbols, symbol codes and assets survive their text forms**, but for the
symbol codes of eight letters. -/
theorem assetForms_iff (bytes : Bytes) :
    (TextSurvives AbiTraits.symbol bytes ∧ TextSurvives AbiTraits.symbolCode bytes ∧
      TextSurvives AbiTraits.asset bytes) ↔ ¬ EightLetters bytes := by
  constructor
  · rintro ⟨-, h, -⟩
    exact (symbolCode_textSurvives_iff bytes).mp h
  · intro h
    exact ⟨symbol_textSurvives bytes, (symbolCode_textSurvives_iff bytes).mpr h,
      asset_textSurvives bytes⟩

/-- A symbol code of eight letters is accepted, and its text loses the last. -/
theorem not_assetForms_eight :
    AbiTraits.symbolCode.fromABI.run (lit "ABCDEFGH") = .ok (⟨0x4847464544434241⟩, []) ∧
      AbiTraits.symbolCode.fromJSON (AbiTraits.symbolCode.toJSON ⟨0x4847464544434241⟩) =
        .ok ⟨0x47464544434241⟩ ∧
      ¬ TextSurvives AbiTraits.symbolCode (lit "ABCDEFGH") := by
  have hread : AbiTraits.symbolCode.fromABI.run (lit "ABCDEFGH") =
      .ok (⟨0x4847464544434241⟩, []) := by
    rfl
  have htext : AbiTraits.symbolCode.fromJSON (AbiTraits.symbolCode.toJSON ⟨0x4847464544434241⟩) =
      .ok ⟨0x47464544434241⟩ := by
    show SymbolCode.ofString (SymbolCode.toString ⟨0x4847464544434241⟩) = _
    decide +kernel
  refine ⟨hread, htext, fun h => ?_⟩
  have hback := (h _ _ hread).1
  rw [htext] at hback
  cases hback

end Dwarfkit
