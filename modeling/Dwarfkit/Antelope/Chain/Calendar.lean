/-
# Dates in ISO text

The calendar and the ISO text of `antelope/chain/time.cpp` are lossless for the 32 bits of
`TimePointSec` and `BlockTimestamp`, and for a `TimePoint` in a year of four digits that its
milliseconds determine.

* `daysFromCivil_civilFromDays` : a day is found again from its year, month and day;
* `parseIsoMilliseconds_isoSeconds` : a text is read as its time;
* `TimePointSec.fromString_toString`, `BlockTimestamp.fromString_toString`,
  `TimePoint.fromString_toString` : a time is read back from its text.
-/
import Dwarfkit.Antelope.Serializer.Builtins

namespace Dwarfkit

/-! ## The calendar -/

/-- The year of a day in its era of 400 years, and the day's place in that year, which
starts in March.  The estimate by 1460, 36524 and 146096 days is the exact year. -/
theorem yearOfEra {doe yoe : ℤ} (hlow : 0 ≤ doe) (hhigh : doe ≤ 146096)
    (hyoe : yoe = (doe - doe / 1460 + doe / 36524 - doe / 146096) / 365) :
    0 ≤ yoe ∧ yoe ≤ 399 ∧ 0 ≤ doe - (365 * yoe + yoe / 4 - yoe / 100) ∧
      doe - (365 * yoe + yoe / 4 - yoe / 100) ≤ 365 := by
  have hleap : yoe / 4 = (doe - doe / 1460 + doe / 36524 - doe / 146096) / 1460 := by omega
  have hcentury : yoe / 100 = doe / 36524 - doe / 146096 := by
    have hcases : doe / 36524 = 0 ∨ doe / 36524 = 1 ∨ doe / 36524 = 2 ∨ doe / 36524 = 3 ∨
        doe / 36524 = 4 := by omega
    rcases hcases with h | h | h | h | h
    · omega
    · omega
    · omega
    · omega
    · omega
  have hbounds : 0 ≤ yoe / 100 ∧ yoe / 100 ≤ 3 ∧ 20 * (yoe / 100) ≤ doe / 1460 ∧
      doe / 1460 ≤ 100 := by
    rw [hcentury]
    omega
  have hsame : doe - doe / 1460 + doe / 36524 - doe / 146096 = doe - doe / 1460 + yoe / 100 := by
    omega
  rw [hsame] at hleap hyoe
  clear hcentury hsame
  -- the leap days before the year are those of the estimate, or one less
  have hleapDays : yoe / 4 = doe / 1460 ∨ yoe / 4 = doe / 1460 - 1 := by omega
  omega

/-- The month of a day, and the day in the month. -/
theorem monthOfYear {doy mp : ℤ} (hlow : 0 ≤ doy) (hhigh : doy ≤ 365)
    (hmp : mp = (5 * doy + 2) / 153) :
    0 ≤ mp ∧ mp ≤ 11 ∧ 1 ≤ doy - (153 * mp + 2) / 5 + 1 ∧ doy - (153 * mp + 2) / 5 + 1 ≤ 31 := by
  omega

/-- **A day is found again** from its year, month and day, which are in range. -/
theorem daysFromCivil_civilFromDays (z : ℤ) :
    let (y, m, d) := civilFromDays z
    daysFromCivil y m d = z ∧ 1 ≤ m ∧ m ≤ 12 ∧ 1 ≤ d ∧ d ≤ 31 ∧
      400 * ((z + 719468) / 146097) ≤ y ∧ y ≤ 400 * ((z + 719468) / 146097) + 400 := by
  unfold civilFromDays
  simp only
  generalize hera : (z + 719468) / 146097 = era
  generalize hdoe : z + 719468 - era * 146097 = doe
  generalize hyoe : (doe - doe / 1460 + doe / 36524 - doe / 146096) / 365 = yoe
  generalize hdoy : doe - (365 * yoe + yoe / 4 - yoe / 100) = doy
  generalize hmp : (5 * doy + 2) / 153 = mp
  obtain ⟨hyoe0, hyoe1, hdoy0, hdoy1⟩ := yearOfEra (by omega) (by omega) hyoe.symm
  rw [hdoy] at hdoy0 hdoy1
  obtain ⟨hmp0, hmp1, hd0, hd1⟩ := monthOfYear hdoy0 hdoy1 hmp.symm
  clear hyoe hmp
  unfold daysFromCivil
  simp only
  -- Months count from March, so January and February belong to the next year.
  by_cases hearly : mp < 10
  · rw [if_pos hearly, if_neg (by omega), if_neg (by omega), if_pos (by omega)]
    have hdiv : (yoe + era * 400 + 0) / 400 = era := by omega
    rw [hdiv]
    refine ⟨?_, by omega, by omega, hd0, hd1, by omega, by omega⟩
    have hyear : yoe + era * 400 + 0 - era * 400 = yoe := by omega
    have hmonth : mp + 3 + -3 = mp := by omega
    rw [hyear, hmonth]
    omega
  · rw [if_neg hearly, if_pos (by omega), if_pos (by omega), if_neg (by omega)]
    have hprev : yoe + era * 400 + 1 - 1 = yoe + era * 400 := by omega
    have hdiv : (yoe + era * 400) / 400 = era := by omega
    rw [hprev, hdiv]
    refine ⟨?_, by omega, by omega, hd0, hd1, by omega, by omega⟩
    have hyear : yoe + era * 400 - era * 400 = yoe := by omega
    have hmonth : mp + -9 + 9 = mp := by omega
    rw [hyear, hmonth]
    omega

/-! ## Fixed-width numbers -/

/-- A text of `width` digits that stands for `n`. -/
structure Decimal (width : ℕ) (n : ℤ) (text : Str) : Prop where
  length : text.length = width
  digits : text.all (fun c => 48 ≤ c ∧ c ≤ 57) = true
  value : text.foldl (fun acc c => acc * 10 + ((c.toNat : ℤ) - 48)) 0 = n

/-- The value of a text of digits, over the integers. -/
theorem foldl_digits (text : Str) (h : ∀ c ∈ text, 48 ≤ c.toNat) (acc : ℕ) :
    text.foldl (fun acc c => acc * 10 + ((c.toNat : ℤ) - 48)) (acc : ℤ) =
      (text.foldl (fun acc c => acc * 10 + (c.toNat - 48)) acc : ℕ) := by
  induction text generalizing acc with
  | nil => rfl
  | cons c text ih =>
    have hc := h c (by simp)
    have hstep : (acc : ℤ) * 10 + ((c.toNat : ℤ) - 48) = ((acc * 10 + (c.toNat - 48) : ℕ) : ℤ) := by
      omega
    rw [List.foldl_cons, List.foldl_cons, hstep]
    exact ih (fun c hc => h c (by simp [hc])) _

/-- Leading zeros add nothing. -/
theorem foldl_zeros (k : ℕ) :
    (List.replicate k (48 : UInt8)).foldl (fun acc c => acc * 10 + ((c.toNat : ℤ) - 48)) (0 : ℤ) = 0 := by
  induction k with
  | zero => rfl
  | succ k ih =>
    rw [List.replicate_succ, List.foldl_cons]
    exact ih

/-- A number that fits is padded to its width. -/
theorem decimal_padded {width : ℕ} {n : ℤ} (hwidth : 0 < width) (hlow : 0 ≤ n)
    (hhigh : n < 10 ^ width) : Decimal width n (padded width n) := by
  have hsign : padded width n =
      List.replicate (width - (natToString n.natAbs).length) 48 ++ natToString n.natAbs := by
    unfold padded
    rw [if_neg (by omega)]
    rfl
  have hfits : (natToString n.natAbs).length ≤ width := by
    unfold natToString
    rw [List.length_map, Nat.length_toDigits_le_iff (by omega) hwidth]
    have : (n.natAbs : ℤ) < 10 ^ width := by omega
    exact_mod_cast this
  rw [hsign]
  refine ⟨?_, ?_, ?_⟩
  · rw [List.length_append, List.length_replicate]
    omega
  · rw [List.all_eq_true]
    intro c hc
    rcases List.mem_append.mp hc with hc | hc
    · rw [List.eq_of_mem_replicate hc]
      rfl
    · obtain ⟨hc0, hc1⟩ := digit_of_mem_natToString hc
      exact decide_eq_true ⟨UInt8.le_iff_toNat_le.mpr hc0, UInt8.le_iff_toNat_le.mpr hc1⟩
  · have hvalue := digitsValue_natToString n.natAbs
    unfold digitsValue at hvalue
    -- The zeros in front leave the fold at zero, where that of the number starts.
    have hfold := foldl_digits (natToString n.natAbs) (fun c hc => (digit_of_mem_natToString hc).1) 0
    rw [List.foldl_append, foldl_zeros]
    rw [hvalue] at hfold
    rw [show (0 : ℤ) = ((0 : ℕ) : ℤ) from rfl, hfold]
    omega

/-- The digits at a place are read as their number. -/
theorem digitsAt_of_decimal {width : ℕ} {n : ℤ} {text : Str} (h : Decimal width n text)
    {b a : Str} {k : ℕ} (hpos : b.length = k) :
    digitsAt (b ++ (text ++ a)) k width = some n := by
  obtain ⟨hlength, hdigits, hvalue⟩ := h
  have htext : ((b ++ (text ++ a)).drop k).take width = text := by
    rw [← hpos, List.drop_left, ← hlength, List.take_left]
  unfold digitsAt
  simp only [htext]
  rw [if_pos ⟨hlength, hdigits⟩, hvalue]

/-! ## The text of a time -/

/-- What may follow the seconds: nothing, or a point and digits, of which three count. -/
inductive Fraction : Str → ℤ → Prop
  | none : Fraction [] 0
  | digits {text : Str} (hne : text ≠ []) (h : text.all (fun c => 48 ≤ c ∧ c ≤ 57) = true) :
    Fraction (46 :: text) (fractionMillis 100 text)

/-- The three digits after the point. -/
theorem fraction_of_decimal {n : ℤ} {text : Str} (h : Decimal 3 n text) :
    Fraction (46 :: text) n := by
  have hdigits := h.digits
  have hvalue := h.value
  obtain ⟨a, b, c, rfl⟩ := List.length_eq_three.mp h.length
  have hn : n = fractionMillis 100 [a, b, c] := by
    rw [← hvalue]
    simp only [fractionMillis, List.foldl_cons, List.foldl_nil]
    omega
  rw [hn]
  exact .digits (by simp) hdigits

/-- The time of day, with or without a fraction. -/
theorem parseTimeOfDay_parts {hour minute second millis : ℤ} {sep : UInt8}
    {hh mi ss fraction : Str} (hsep : sep = 84 ∨ sep = 32) (hhour : Decimal 2 hour hh)
    (hminute : Decimal 2 minute mi) (hsecond : Decimal 2 second ss)
    (hfraction : Fraction fraction millis) :
    parseTimeOfDay ([sep] ++ hh ++ [58] ++ mi ++ [58] ++ ss ++ fraction) =
      some (hour, minute, second, millis) := by
  obtain ⟨h0, h1, rfl⟩ := List.length_eq_two.mp hhour.length
  obtain ⟨i0, i1, rfl⟩ := List.length_eq_two.mp hminute.length
  obtain ⟨s0, s1, rfl⟩ := List.length_eq_two.mp hsecond.length
  have hh := digitsAt_of_decimal hhour (b := [sep]) (k := 1)
    (a := [58, i0, i1, 58, s0, s1] ++ fraction) rfl
  have hi := digitsAt_of_decimal hminute (b := [sep, h0, h1, 58]) (k := 4)
    (a := [58, s0, s1] ++ fraction) rfl
  have hs := digitsAt_of_decimal hsecond (b := [sep, h0, h1, 58, i0, i1, 58]) (k := 7)
    (a := fraction) rfl
  have hhead : ¬ (some sep ≠ some 84 ∧ some sep ≠ some 32) := by
    rcases hsep with rfl | rfl
    · decide
    · decide
  simp only [List.cons_append, List.nil_append] at hh hi hs ⊢
  unfold parseTimeOfDay
  cases hfraction with
  | none => simp only [hh, hi, hs, List.head?_cons, hhead]; simp
  | @digits text hne hall =>
    simp only [List.all_eq_true, decide_eq_true_eq] at hall
    simp only [hh, hi, hs, List.head?_cons, hhead]
    simp [hne]
    exact fun c hc => hall c hc

/-- The parts of a text of the form `yyyy-mm-dd`, with or without a time of day. -/
theorem parseIsoMilliseconds_date {y m d hour minute second millis : ℤ} {yy mm dd tail : Str}
    (hy : Decimal 4 y yy) (hm : Decimal 2 m mm) (hd : Decimal 2 d dd)
    (htail : (if tail = [] then some (0, 0, 0, 0) else parseTimeOfDay tail) =
      some (hour, minute, second, millis)) :
    parseIsoMilliseconds (yy ++ [45] ++ mm ++ [45] ++ dd ++ tail) =
      if m < 1 ∨ 12 < m ∨ d < 1 ∨ 31 < d ∨ 23 < hour ∨ 59 < minute ∨ 59 < second then
        err .invalid "Invalid date string"
      else .ok (((daysFromCivil y m d * 24 + hour) * 60 + minute) * 60000 + second * 1000 +
        millis) := by
  obtain ⟨y0, y1, y2, y3, rfl⟩ := List.length_eq_four.mp hy.length
  obtain ⟨m0, m1, rfl⟩ := List.length_eq_two.mp hm.length
  obtain ⟨d0, d1, rfl⟩ := List.length_eq_two.mp hd.length
  -- The parser reads at fixed positions: each field is found behind the characters before it.
  have hyear := digitsAt_of_decimal hy (b := []) (k := 0)
    (a := [45, m0, m1, 45, d0, d1] ++ tail) rfl
  have hmon := digitsAt_of_decimal hm (b := [y0, y1, y2, y3, 45]) (k := 5)
    (a := [45, d0, d1] ++ tail) rfl
  have hdd := digitsAt_of_decimal hd (b := [y0, y1, y2, y3, 45, m0, m1, 45]) (k := 8)
    (a := tail) rfl
  unfold parseIsoMilliseconds
  simp only [List.cons_append, List.nil_append] at hyear hmon hdd ⊢
  simp only [hyear, hmon, hdd]
  have hlong : ¬ tail.length + 1 + 1 + 1 + 1 + 1 + 1 + 1 + 1 + 1 + 1 < 10 := by omega
  have hempty : (tail.length + 1 + 1 + 1 + 1 + 1 + 1 + 1 + 1 + 1 + 1 = 10) = (tail = []) := by
    rw [← List.length_eq_zero_iff]
    exact propext ⟨fun h => by omega, fun h => by omega⟩
  simp only [List.length_cons, hlong, hempty, List.drop_succ_cons, List.drop_zero]
  by_cases hnone : tail = []
  · rw [if_pos hnone] at htail
    simp only [Option.some.injEq, Prod.mk.injEq] at htail
    obtain ⟨rfl, rfl, rfl, rfl⟩ := htail
    by_cases hrange : m < 1 ∨ 12 < m ∨ d < 1 ∨ 31 < d
    · simp [hnone, hrange]
    · simp [hnone, hrange]
  · rw [if_neg hnone] at htail
    by_cases hrange : m < 1 ∨ 12 < m ∨ d < 1 ∨ 31 < d ∨ 23 < hour ∨ 59 < minute ∨ 59 < second
    · simp [hnone, htail, hrange]
    · simp [hnone, htail, hrange]

/-- The parts of a text of the form `yyyy-mm-ddThh:mm:ss`, with or without milliseconds. -/
theorem parseIsoMilliseconds_parts {y m d hour minute second millis : ℤ}
    {yy mm dd hh mi ss fraction : Str} (hy : Decimal 4 y yy) (hm : Decimal 2 m mm)
    (hd : Decimal 2 d dd) (hhour : Decimal 2 hour hh) (hminute : Decimal 2 minute mi)
    (hsecond : Decimal 2 second ss) (hfraction : Fraction fraction millis)
    (hmonth : 1 ≤ m ∧ m ≤ 12) (hday : 1 ≤ d ∧ d ≤ 31)
    (htime : hour ≤ 23 ∧ minute ≤ 59 ∧ second ≤ 59) :
    parseIsoMilliseconds (yy ++ [45] ++ mm ++ [45] ++ dd ++
        ([84] ++ hh ++ [58] ++ mi ++ [58] ++ ss ++ fraction)) =
      .ok (((daysFromCivil y m d * 24 + hour) * 60 + minute) * 60000 + second * 1000 + millis) := by
  have hparse := parseTimeOfDay_parts (.inl rfl) hhour hminute hsecond hfraction
  rw [parseIsoMilliseconds_date hy hm hd (by rw [if_neg (by simp), hparse]), if_neg (by omega)]

/-- The ISO text of a time up to its seconds. -/
def isoSeconds (ms : ℤ) : Str :=
  let (y, m, d) := civilFromDays (ms / 86400000)
  let msOfDay := ms % 86400000
  padded 4 y ++ [45] ++ padded 2 m ++ [45] ++ padded 2 d ++
    ([84] ++ padded 2 (msOfDay / 3600000) ++ [58] ++ padded 2 (msOfDay / 60000 % 60) ++ [58] ++
      padded 2 (msOfDay / 1000 % 60))

theorem isoFromMilliseconds_eq (ms : ℤ) :
    isoFromMilliseconds ms = isoSeconds ms ++ 46 :: padded 3 (ms % 86400000 % 1000) := by
  have hdash : lit "-" = [45] := rfl
  have hseparator : lit "T" = [84] := rfl
  have hcolon : lit ":" = [58] := rfl
  have hpoint : lit "." = [46] := rfl
  unfold isoFromMilliseconds isoSeconds
  simp only [hdash, hseparator, hcolon, hpoint, List.append_assoc, List.cons_append,
    List.nil_append]

/-- The year of a time has four digits. -/
def FourDigitYear (ms : ℤ) : Prop :=
  0 ≤ (civilFromDays (ms / 86400000)).1 ∧ (civilFromDays (ms / 86400000)).1 ≤ 9999

instance (ms : ℤ) : Decidable (FourDigitYear ms) :=
  inferInstanceAs (Decidable (_ ∧ _))

/-- **A text is read as its time**, with or without its milliseconds. -/
theorem parseIsoMilliseconds_isoSeconds {ms millis : ℤ} (hyear : FourDigitYear ms)
    {fraction : Str} (hfraction : Fraction fraction millis) :
    parseIsoMilliseconds (isoSeconds ms ++ fraction) = .ok (ms / 1000 * 1000 + millis) := by
  have hcalendar := daysFromCivil_civilFromDays (ms / 86400000)
  unfold FourDigitYear at hyear
  unfold isoSeconds
  rcases hcivil : civilFromDays (ms / 86400000) with ⟨y, m, d⟩
  rw [hcivil] at hcalendar hyear
  obtain ⟨hdays, hm0, hm1, hd0, hd1, -⟩ := hcalendar
  obtain ⟨hy0, hy1⟩ := hyear
  have htime : ms / 1000 * 1000 + millis =
      ((ms / 86400000 * 24 + ms % 86400000 / 3600000) * 60 + ms % 86400000 / 60000 % 60) * 60000 +
        ms % 86400000 / 1000 % 60 * 1000 + millis := by omega
  rw [htime, ← hdays]
  simp only [List.append_assoc]
  have hparts := @parseIsoMilliseconds_parts y m d (ms % 86400000 / 3600000)
    (ms % 86400000 / 60000 % 60) (ms % 86400000 / 1000 % 60) _ _ _ _ _ _ _ _
    (decimal_padded (by omega) (by omega) (by omega))
    (decimal_padded (by omega) (by omega) (by omega))
    (decimal_padded (by omega) (by omega) (by omega))
    (decimal_padded (by omega) (by omega) (by omega))
    (decimal_padded (by omega) (by omega) (by omega))
    (decimal_padded (by omega) (by omega) (by omega)) hfraction ⟨hm0, hm1⟩ ⟨hd0, hd1⟩ (by omega)
  simpa only [List.append_assoc] using hparts

/-- The milliseconds are read back. -/
theorem parseIsoMilliseconds_iso {ms : ℤ} (hyear : FourDigitYear ms) :
    parseIsoMilliseconds (isoFromMilliseconds ms) = .ok ms := by
  have hmillis : ms / 1000 * 1000 + ms % 86400000 % 1000 = ms := by omega
  rw [isoFromMilliseconds_eq, parseIsoMilliseconds_isoSeconds hyear
    (fraction_of_decimal (decimal_padded (by omega) (by omega) (by omega))), hmillis]

/-- From 1970 on to the end of the 24th century. -/
theorem fourDigitYear_of_le {ms : ℤ} (hlow : 0 ≤ ms) (hhigh : ms ≤ 10000000000000) :
    FourDigitYear ms := by
  have hcalendar := daysFromCivil_civilFromDays (ms / 86400000)
  unfold FourDigitYear
  rcases hcivil : civilFromDays (ms / 86400000) with ⟨y, m, d⟩
  rw [hcivil] at hcalendar
  obtain ⟨-, -, -, -, -, hy0, hy1⟩ := hcalendar
  simp only
  omega

/-- **A time is read back from its text.** -/
theorem TimePointSec.fromString_toString (t : TimePointSec) : fromString t.toString = .ok t := by
  have hvalue := t.value.toNat_lt
  have htext : t.toString = isoSeconds t.toMilliseconds := by
    have hend : t.toMilliseconds % 86400000 % 1000 = 0 := by
      unfold toMilliseconds
      omega
    have hzeros : (46 :: padded 3 0 : Str) = [46, 48, 48, 48] := by decide
    unfold TimePointSec.toString
    simp only [isoFromMilliseconds_eq, hend, hzeros]
    rw [List.length_append, show ([46, 48, 48, 48] : Str).length = 4 from rfl, Nat.add_sub_cancel,
      List.take_left]
  have hyear : FourDigitYear t.toMilliseconds :=
    fourDigitYear_of_le (by unfold toMilliseconds; omega) (by unfold toMilliseconds; omega)
  have hparse := parseIsoMilliseconds_isoSeconds hyear .none
  have hround : jsRoundDiv (t.toMilliseconds / 1000 * 1000 + 0) 1000 = t.value.toNat := by
    unfold jsRoundDiv toMilliseconds
    omega
  rw [List.append_nil] at hparse
  unfold fromString fromMilliseconds
  rw [htext, hparse, ok_bind, hround, AbiTraits.ofInt_toNat_uint32]
  rfl

/-- **A block's time is read back from its text.** -/
theorem BlockTimestamp.fromString_toString (t : BlockTimestamp) :
    fromString t.toString = .ok t := by
  have hvalue := t.value.toNat_lt
  have hyear : FourDigitYear t.toMilliseconds :=
    fourDigitYear_of_le (by unfold toMilliseconds epochMilliseconds; omega)
      (by unfold toMilliseconds epochMilliseconds; omega)
  have hparse := parseIsoMilliseconds_iso hyear
  have hround : jsRoundDiv (t.toMilliseconds - epochMilliseconds) 500 = t.value.toNat := by
    unfold jsRoundDiv toMilliseconds
    omega
  unfold fromString BlockTimestamp.toString fromMilliseconds
  rw [hparse, ok_bind, hround, AbiTraits.ofInt_toNat_uint32]
  rfl

/-- A time whose text says all of it: a year of four digits, and the microseconds are those
that `fromMilliseconds` makes of its milliseconds. -/
structure TimePoint.Shown (t : TimePoint) : Prop where
  year : FourDigitYear t.toMilliseconds
  rounds : fromMilliseconds t.toMilliseconds = t

/-- A time is read back from its text if that says all of it. -/
theorem TimePoint.fromString_toString {t : TimePoint} (h : t.Shown) :
    fromString t.toString = .ok t := by
  unfold fromString TimePoint.toString
  rw [parseIsoMilliseconds_iso h.year, ok_bind, h.rounds]
  rfl

end Dwarfkit
