/-
# The instant written

What an ISO text says, a date of the calendar and a time of day with all of its fraction, and
when `TimePointSec::fromString` and `BlockTimestamp::fromString` give that instant, rounded to
the resolution of the type.

* `daysFromCivil_eq_number`, `civilFromDays_daysFromCivil` : the source's calendar is the
  calendar;
* `parseIsoMilliseconds_ok_iff` : the texts that are accepted, and their milliseconds;
* `jsRoundDiv_of_doubles` : the divisions in `double` round as exact ones do;
* `TimePointSec.denotes_iff_fits`, `BlockTimestamp.denotes_iff_fits` : the value is the instant written if the date exists and the instant fits.
-/
import Dwarfkit.Antelope.Chain.Calendar
import Dwarfkit.Library.Gregorian
import Mathlib.Tactic.FieldSimp
import Mathlib.Tactic.Linarith

namespace Dwarfkit

open Gregorian

/-! ## The calendar -/

/-- The days of the eras and of the years in one. -/
theorem daysOfEras (y : ℤ) :
    y / 400 * 146097 + ((y - y / 400 * 400) * 365 + (y - y / 400 * 400) / 4 -
      (y - y / 400 * 400) / 100) = 365 * y + y / 4 - y / 100 + y / 400 := by
  have hleap : (y - y / 400 * 400) / 4 = y / 4 - 100 * (y / 400) := by omega
  have hcentury : (y - y / 400 * 400) / 100 = y / 100 - 4 * (y / 400) := by omega
  rw [hleap, hcentury]
  ring

/-- **A day's number** is that of the calendar, counted from 1970 on. -/
theorem daysFromCivil_eq_number {date : Date} (hlow : 1 ≤ date.month) (hhigh : date.month ≤ 12) :
    daysFromCivil date.year date.month date.day = date.number - 719528 := by
  obtain ⟨y, m, d⟩ := date
  simp only at hlow hhigh ⊢
  have hmonths := daysBeforeMonth_eq y hlow hhigh
  unfold daysFromCivil Date.number
  -- January and February are the last months of the year that `daysFromCivil` counts in.
  by_cases hearly : m ≤ 2
  · have hyears := daysBeforeYear_eq y
    have heras := daysOfEras (y - 1)
    rw [if_pos hearly] at hmonths
    simp only [if_pos (show (m : ℤ) ≤ 2 by omega), if_neg (show ¬ 2 < (m : ℤ) by omega)]
    have hmarch : (153 * ((m : ℤ) + 9) + 2) / 5 = 31 * ((m : ℤ) - 1) + 306 := by
      have hm : m = 1 ∨ m = 2 := by omega
      rcases hm with rfl | rfl
      · rfl
      · rfl
    rw [hmarch, hmonths, hyears]
    push_cast [hlow]
    linarith
  · have hyears := daysBeforeMarch_eq y
    have heras := daysOfEras y
    rw [if_neg hearly] at hmonths
    simp only [if_neg (show ¬ (m : ℤ) ≤ 2 by omega), if_pos (show 2 < (m : ℤ) by omega)]
    rw [hmonths]
    have hmarch : (((153 * (m - 3) + 2) / 5 : ℕ) : ℤ) = (153 * ((m : ℤ) + -3) + 2) / 5 := by
      have hm : ((m - 3 : ℕ) : ℤ) = (m : ℤ) + -3 := by omega
      push_cast
      rw [hm]
    push_cast at hmarch hyears ⊢
    rw [hmarch]
    linarith
/-- The century of an era, from one of its days. -/
theorem centuryOfEra {doe yoe doy : ℤ} (hyoe : 0 ≤ yoe ∧ yoe ≤ 399) (hdoy : 0 ≤ doy)
    (hlast : doy ≤ 364 ∨ doy = 365 ∧ (100 ∣ yoe + 1 → yoe = 399))
    (hdoe : doe = yoe * 365 + yoe / 4 - yoe / 100 + doy) :
    doe / 36524 - doe / 146096 = yoe / 100 := by
  obtain ⟨c, r, hc, hr, rfl⟩ : ∃ c r, (0 ≤ c ∧ c ≤ 3) ∧ (0 ≤ r ∧ r ≤ 99) ∧ yoe = 100 * c + r :=
    ⟨yoe / 100, yoe % 100, by omega, by omega, by omega⟩
  have hcentury : (100 * c + r) / 100 = c := by omega
  have hleap : (100 * c + r) / 4 = 25 * c + r / 4 := by omega
  rw [hcentury, hleap] at hdoe
  rw [hcentury]
  have hdoe : doe = 36524 * c + (365 * r + r / 4 + doy) := by omega
  -- the day of the century is below 36524, but for the last day of the era
  have hday : 365 * r + r / 4 + doy ≤ 36523 ∨ c = 3 ∧ 365 * r + r / 4 + doy = 36524 := by
    rcases hlast with h | ⟨h, hlast⟩
    · omega
    · have : r ≤ 98 ∨ c = 3 := by omega
      omega
  have hday0 : 0 ≤ 365 * r + r / 4 + doy := by omega
  clear hcentury hleap hlast
  omega

/-- The year of an era, from one of its days and the leap days its centuries lack. -/
theorem yearOfCentury {doe yoe doy c : ℤ} (hyoe : 0 ≤ yoe ∧ yoe ≤ 399) (hdoy : 0 ≤ doy)
    (hlast : doy ≤ 364 ∨ doy = 365 ∧ 4 ∣ yoe + 1)
    (hc : 0 ≤ c ∧ c ≤ 3) (hc25 : 25 * c ≤ yoe / 4 ∧ yoe / 4 ≤ 25 * c + 24)
    (hdoe : doe = yoe * 365 + yoe / 4 - c + doy) :
    (doe - doe / 1460 + c) / 365 = yoe := by
  obtain ⟨q, r, hr, rfl⟩ : ∃ q r, (0 ≤ r ∧ r ≤ 3) ∧ yoe = 4 * q + r :=
    ⟨yoe / 4, yoe % 4, by omega, by omega⟩
  have hq : (4 * q + r) / 4 = q := by omega
  rw [hq] at hc25 hdoe
  have hdoe : doe = 1460 * q + (q + 365 * r - c + doy) := by omega
  have hlast : doy ≤ 364 ∨ doy = 365 ∧ r = 3 := by omega
  have hdiv : doe / 1460 = q + (q + 365 * r - c + doy) / 1460 := by omega
  have hcarry : (q + 365 * r - c + doy) / 1460 = 0 ∧ doy ≤ 364 ∨
      (q + 365 * r - c + doy) / 1460 = 1 ∧ 1 ≤ doy := by omega
  have hsum : doe - doe / 1460 + c = 365 * (4 * q + r) + (doy - (q + 365 * r - c + doy) / 1460) := by
    omega
  rw [hsum]
  omega

/-- The year of an era, from one of its days. -/
theorem yearOfEra_unique {doe yoe doy : ℤ} (hyoe : 0 ≤ yoe ∧ yoe ≤ 399) (hdoy : 0 ≤ doy)
    (hlast : doy ≤ 364 ∨ doy = 365 ∧ 4 ∣ yoe + 1 ∧ (100 ∣ yoe + 1 → yoe = 399))
    (hdoe : doe = yoe * 365 + yoe / 4 - yoe / 100 + doy) :
    (doe - doe / 1460 + doe / 36524 - doe / 146096) / 365 = yoe := by
  have hcentury := centuryOfEra hyoe hdoy (hlast.imp_right fun h => ⟨h.1, h.2.2⟩) hdoe
  have hyear := yearOfCentury hyoe hdoy (hlast.imp_right fun h => ⟨h.1, h.2.1⟩)
    (c := yoe / 100) (by omega) (by omega) hdoe
  have hestimate : doe - doe / 1460 + doe / 36524 - doe / 146096 =
      doe - doe / 1460 + yoe / 100 := by
    rw [← hcentury]
    ring
  rw [hestimate, hyear]

/-- The last day of a year that starts in March. -/
theorem lastDay {y m d : ℕ} (h : (Date.mk y m d).Exists) :
    let mp : ℤ := m + (if (2 : ℤ) < m then -3 else 9)
    let year : ℤ := if (m : ℤ) ≤ 2 then y - 1 else y
    (0 ≤ mp ∧ mp ≤ 11) ∧ (1 ≤ (d : ℤ) ∧ 5 * ((153 * mp + 2) / 5 + d - 1) + 2 ≤ 153 * mp + 152) ∧
    0 ≤ (153 * mp + 2) / 5 + (d : ℤ) - 1 ∧
    ((153 * mp + 2) / 5 + (d : ℤ) - 1 ≤ 364 ∨ (153 * mp + 2) / 5 + (d : ℤ) - 1 = 365 ∧
      4 ∣ year + 1 ∧ (100 ∣ year + 1 → 400 ∣ year + 1)) := by
  obtain ⟨hm0, hm1, hd0, hd1⟩ := h
  simp only at hm0 hm1 hd0 hd1 ⊢
  -- The 29th of February is the only day a year of 365 days has no room for.
  by_cases hfebruary : m = 2
  · subst hfebruary
    unfold daysInMonth at hd1
    rw [if_pos rfl] at hd1
    by_cases hleap : LeapYear y
    · rw [if_pos hleap] at hd1
      unfold LeapYear at hleap
      simp only [Nat.cast_ofNat, lt_self_iff_false, le_refl, if_false, if_true, sub_add_cancel]
      omega
    · rw [if_neg hleap] at hd1
      simp only [Nat.cast_ofNat, lt_self_iff_false, le_refl, if_false, if_true, sub_add_cancel]
      omega
  · have hlength : d ≤ if m = 4 ∨ m = 6 ∨ m = 9 ∨ m = 11 then 30 else 31 := by
      unfold daysInMonth at hd1
      rwa [if_neg hfebruary] at hd1
    clear hd1
    have hcases : m = 1 ∨ m = 3 ∨ m = 4 ∨ m = 5 ∨ m = 6 ∨ m = 7 ∨ m = 8 ∨ m = 9 ∨ m = 10 ∨
      m = 11 ∨ m = 12 := by omega
    rcases hcases with rfl | rfl | rfl | rfl | rfl | rfl | rfl | rfl | rfl | rfl | rfl <;>
      simp at hlength ⊢ <;> omega

/-- **A date is found again** from its day. -/
theorem civilFromDays_daysFromCivil {date : Date} (h : date.Exists) :
    civilFromDays (daysFromCivil date.year date.month date.day) =
      ((date.year : ℤ), (date.month : ℤ), (date.day : ℤ)) := by
  obtain ⟨y, m, d⟩ := date
  have hlast := lastDay h
  obtain ⟨hm0, hm1, -, -⟩ := h
  simp only at hm0 hm1 hlast ⊢
  unfold daysFromCivil
  simp only
  -- The intermediate values get names, so that each step back is one linear fact about them.
  generalize hmp : (m : ℤ) + (if (2 : ℤ) < m then -3 else 9) = mp at hlast ⊢
  generalize hyear : (if (m : ℤ) ≤ 2 then (y : ℤ) - 1 else y) = year at hlast ⊢
  generalize hdoy : (153 * mp + 2) / 5 + (d : ℤ) - 1 = doy at hlast ⊢
  obtain ⟨hmonth, hday, hdoy0, hleap⟩ := hlast
  generalize hyoe : year - year / 400 * 400 = yoe
  generalize hdoe : yoe * 365 + yoe / 4 - yoe / 100 + doy = doe
  have hyoe0 : 0 ≤ yoe ∧ yoe ≤ 399 := by omega
  have hera : (year / 400 * 146097 + doe - 719468 + 719468) / 146097 = year / 400 := by omega
  have hunique : (doe - doe / 1460 + doe / 36524 - doe / 146096) / 365 = yoe :=
    yearOfEra_unique hyoe0 hdoy0 (by omega) hdoe.symm
  unfold civilFromDays
  simp only [hera]
  have hday : year / 400 * 146097 + doe - 719468 + 719468 - year / 400 * 146097 = doe := by ring
  have hofyear : doe - (365 * yoe + yoe / 4 - yoe / 100) = doy := by omega
  have hofmonth : (5 * doy + 2) / 153 = mp := by omega
  have hdayOfMonth : doy - (153 * mp + 2) / 5 + 1 = d := by omega
  have hmonthBack : mp + (if mp < 10 then 3 else -9) = (m : ℤ) := by
    clear hunique hofmonth hday hera hofyear
    split at hmp <;> split <;> omega
  simp only [hday, hunique, hofyear, hofmonth, hdayOfMonth, hmonthBack, Prod.mk.injEq, and_true]
  clear hunique hofmonth hday hera hofyear
  split at hyear
  · rw [if_pos (by assumption)]
    omega
  · rw [if_neg (by assumption)]
    omega

/-! ## What a text says -/

/-- A time of day, with the digits of its fraction of a second. -/
structure Clock where
  hour : ℕ := 0
  minute : ℕ := 0
  second : ℕ := 0
  fraction : Str := []
  deriving DecidableEq, Repr

/-- What a text says. -/
structure Written where
  date : Date
  clock : Clock
  deriving DecidableEq, Repr

/-- The text of a date. -/
inductive DateText : Str → Date → Prop
  | mk {y m d : ℕ} {yy mm dd : Str} (hy : Decimal 4 y yy) (hm : Decimal 2 m mm)
    (hd : Decimal 2 d dd) : DateText (yy ++ [45] ++ mm ++ [45] ++ dd) ⟨y, m, d⟩

/-- The text of a fraction of a second. -/
inductive FractionText : Str → Str → Prop
  | none : FractionText [] []
  | digits {text : Str} (hne : text ≠ []) (h : text.all (fun c => 48 ≤ c ∧ c ≤ 57) = true) :
    FractionText (46 :: text) text

/-- The text of a time of day, from its separator on. -/
inductive ClockText : Str → Clock → Prop
  | midnight : ClockText [] {}
  | time {hour minute second : ℕ} {sep : UInt8} {hh mi ss text fraction : Str}
    (hsep : sep = 84 ∨ sep = 32) (hhour : Decimal 2 hour hh) (hminute : Decimal 2 minute mi)
    (hsecond : Decimal 2 second ss) (hfraction : FractionText text fraction) :
    ClockText ([sep] ++ hh ++ [58] ++ mi ++ [58] ++ ss ++ text) ⟨hour, minute, second, fraction⟩

/-- The text says this. -/
def Spells (s : Str) (w : Written) : Prop :=
  ∃ date clock, s = date ++ clock ∧ DateText date w.date ∧ ClockText clock w.clock

/-- The number that digits after the point stand for. -/
def fractionOf : Str → ℚ
  | [] => 0
  | c :: rest => (((c.toNat : ℤ) - 48 : ℤ) + fractionOf rest) / 10

/-- The seconds of a day before a time. -/
def Clock.seconds (clock : Clock) : ℚ :=
  clock.hour * 3600 + clock.minute * 60 + clock.second + fractionOf clock.fraction

/-- The instant, in seconds since 1970. -/
def Written.seconds (w : Written) : ℚ :=
  (w.date.number - (Date.mk 1970 1 1).number) * 86400 + w.clock.seconds

/-- The date and the time of day exist. -/
structure Written.Exists (w : Written) : Prop where
  date : w.date.Exists
  hour : w.clock.hour ≤ 23
  minute : w.clock.minute ≤ 59
  second : w.clock.second ≤ 59

/-- What the parser asks of a date and a time of day: every month may have 31 days. -/
structure Written.Accepted (w : Written) : Prop where
  month : 1 ≤ w.date.month ∧ w.date.month ≤ 12
  day : 1 ≤ w.date.day ∧ w.date.day ≤ 31
  hour : w.clock.hour ≤ 23
  minute : w.clock.minute ≤ 59
  second : w.clock.second ≤ 59

/-! ## What the parser makes of it -/

/-- A fraction of digits is less than one. -/
theorem fractionOf_bounds {text : Str} (h : text.all (fun c => 48 ≤ c ∧ c ≤ 57) = true) :
    0 ≤ fractionOf text ∧ fractionOf text < 1 := by
  induction text with
  | nil => exact ⟨le_refl 0, zero_lt_one⟩
  | cons c text ih =>
    rw [List.all_cons, Bool.and_eq_true, decide_eq_true_eq] at h
    obtain ⟨⟨hlow, hhigh⟩, htext⟩ := h
    obtain ⟨h0, h1⟩ := ih htext
    have hlow : 48 ≤ c.toNat := UInt8.le_iff_toNat_le.mp hlow
    have hhigh : c.toNat ≤ 57 := UInt8.le_iff_toNat_le.mp hhigh
    have hdigit0 : (0 : ℚ) ≤ ((c.toNat : ℤ) - 48 : ℤ) := by
      exact_mod_cast (by omega : (0 : ℤ) ≤ (c.toNat : ℤ) - 48)
    have hdigit1 : (((c.toNat : ℤ) - 48 : ℤ) : ℚ) ≤ 9 := by
      exact_mod_cast (by omega : (c.toNat : ℤ) - 48 ≤ 9)
    unfold fractionOf
    constructor
    · positivity
    · linarith

/-- A scale of zero adds nothing. -/
theorem fractionMillis_zero (text : Str) : fractionMillis 0 text = 0 := by
  induction text with
  | nil => rfl
  | cons c text ih =>
    unfold fractionMillis
    rw [show (0 : ℤ) / 10 = 0 from rfl, ih]
    ring

/-- The first three digits are the whole milliseconds. -/
theorem fractionMillis_eq_floor {text : Str}
    (h : text.all (fun c => 48 ≤ c ∧ c ≤ 57) = true) :
    fractionMillis 100 text = ⌊fractionOf text * 1000⌋ := by
  symm
  rw [Int.floor_eq_iff]
  match text with
  | [] => norm_num [fractionMillis, fractionOf]
  | [a] =>
    norm_num [fractionMillis, fractionOf]
    constructor <;> linarith
  | [a, b] =>
    norm_num [fractionMillis, fractionOf]
    constructor <;> linarith
  | a :: b :: c :: rest =>
    have hrest : rest.all (fun c => 48 ≤ c ∧ c ≤ 57) = true := by
      simp only [List.all_cons, Bool.and_eq_true] at h
      exact h.2.2.2
    obtain ⟨h0, h1⟩ := fractionOf_bounds hrest
    norm_num [fractionMillis, fractionOf, fractionMillis_zero]
    constructor <;> linarith

/-- The first of January of 1970. -/
theorem number_1970 : (Date.mk 1970 1 1).number = 719528 := by
  unfold Date.number
  rw [daysBeforeYear_eq, daysBeforeMonth_eq 1970 (le_refl 1) (by omega)]
  norm_num

/-- The text of a time of day is parsed as that. -/
theorem parseTimeOfDay_clockText {text : Str} {clock : Clock} (h : ClockText text clock) :
    (if text = [] then some (0, 0, 0, 0) else parseTimeOfDay text) =
      some ((clock.hour : ℤ), (clock.minute : ℤ), (clock.second : ℤ),
        ⌊fractionOf clock.fraction * 1000⌋) := by
  cases h with
  | midnight => simp [fractionOf]
  | time hsep hhour hminute hsecond hfraction =>
    rw [if_neg (by simp)]
    cases hfraction with
    | none => simpa [fractionOf] using parseTimeOfDay_parts hsep hhour hminute hsecond .none
    | digits hne hdigits =>
      rw [← fractionMillis_eq_floor hdigits]
      exact parseTimeOfDay_parts hsep hhour hminute hsecond (.digits hne hdigits)

/-- **What is read is parsed** as its milliseconds, if the parser accepts its numbers. -/
theorem parseIsoMilliseconds_of_spells {s : Str} {w : Written} (h : Spells s w) :
    (w.Accepted → parseIsoMilliseconds s = .ok ⌊w.seconds * 1000⌋) ∧
    (¬ w.Accepted → parseIsoMilliseconds s = err .invalid "Invalid date string") := by
  obtain ⟨date, clock⟩ := w
  obtain ⟨dateText, clockText, rfl, hdate, hclock⟩ := h
  have htail := @parseTimeOfDay_clockText clockText clock hclock
  cases hdate with
  | @mk y m d yy mm dd hy hm hd =>
    rw [parseIsoMilliseconds_date hy hm hd htail]
    constructor
    · rintro ⟨⟨hm0, hm1⟩, ⟨hd0, hd1⟩, hhour, hminute, hsecond⟩
      simp only at hm0 hm1 hd0 hd1 hhour hminute hsecond
      have hnumber : daysFromCivil y m d = (Date.mk y m d).number - 719528 :=
        @daysFromCivil_eq_number ⟨y, m, d⟩ hm0 hm1
      rw [if_neg (by omega), hnumber]
      have hsplit : Written.seconds ⟨⟨y, m, d⟩, clock⟩ * 1000 =
          (((((Date.mk y m d).number - 719528) * 24 + clock.hour) * 60 + clock.minute) * 60000 +
            clock.second * 1000 : ℤ) + fractionOf clock.fraction * 1000 := by
        unfold Written.seconds Clock.seconds
        rw [number_1970]
        push_cast
        ring
      rw [hsplit, Int.floor_intCast_add]
    · intro hrange
      rw [if_pos]
      by_contra hin
      refine hrange ⟨?_, ?_, ?_, ?_, ?_⟩ <;> simp only <;> omega

/-! ## What is parsed can be read -/

/-- Digits that were read. -/
theorem decimal_of_digitsAt {s : Str} {pos count : ℕ} {n : ℤ}
    (h : digitsAt s pos count = some n) :
    ∃ k : ℕ, n = k ∧ Decimal count k ((s.drop pos).take count) := by
  unfold digitsAt at h
  simp only at h
  split at h
  · rename_i htext
    obtain ⟨hlength, hdigits⟩ := htext
    cases h
    have hlow : ∀ c ∈ (s.drop pos).take count, 48 ≤ c.toNat := fun c hc => by
      have := List.all_eq_true.mp hdigits c hc
      exact UInt8.le_iff_toNat_le.mp (of_decide_eq_true this).1
    have hvalue := foldl_digits _ hlow 0
    exact ⟨_, hvalue, hlength, hdigits, hvalue⟩
  · cases h

/-- The first element of a long enough list. -/
theorem cons_of_le_length {s : Str} {k : ℕ} (h : k + 1 ≤ s.length) :
    ∃ c rest, s = c :: rest ∧ k ≤ rest.length := by
  cases s with
  | nil => exact absurd h (by simp)
  | cons c rest => exact ⟨c, rest, rfl, by simpa using h⟩

/-- A time of day that was parsed has a text of that form. -/
theorem clockText_of_parsed {text : Str} {parsed : ℤ × ℤ × ℤ × ℤ}
    (h : parseTimeOfDay text = some parsed) : ∃ clock, ClockText text clock := by
  unfold parseTimeOfDay at h
  by_cases hsep : text.head? ≠ some 84 ∧ text.head? ≠ some 32
  · simp [hsep] at h
  cases hhour : digitsAt text 1 2 with
  | none => simp [hsep, hhour] at h
  | some hour =>
  by_cases hcolon : text[3]? ≠ some 58
  · simp [hsep, hhour, hcolon] at h
  cases hminute : digitsAt text 4 2 with
  | none => simp [hsep, hhour, hcolon, hminute] at h
  | some minute =>
  by_cases hcolon' : text[6]? ≠ some 58
  · simp [hsep, hhour, hcolon, hminute, hcolon'] at h
  cases hsecond : digitsAt text 7 2 with
  | none => simp [hsep, hhour, hcolon, hminute, hcolon', hsecond] at h
  | some second =>
  simp only [hsep, hhour, hcolon, hminute, hcolon', hsecond, if_false, Option.bind_eq_bind,
    Option.bind_some] at h
  obtain ⟨hour, -, hh⟩ := decimal_of_digitsAt hhour
  obtain ⟨minute, -, hi⟩ := decimal_of_digitsAt hminute
  obtain ⟨second, -, hs⟩ := decimal_of_digitsAt hsecond
  -- The seconds were found at position 7, so the nine characters before the fraction are there.
  have hlength : 9 ≤ text.length := by
    have := hs.length
    rw [List.length_take, List.length_drop] at this
    omega
  obtain ⟨sep, text, rfl, hrest1⟩ := cons_of_le_length hlength
  obtain ⟨h0, text, rfl, hrest2⟩ := cons_of_le_length hrest1
  obtain ⟨h1, text, rfl, hrest3⟩ := cons_of_le_length hrest2
  obtain ⟨c3, text, rfl, hrest4⟩ := cons_of_le_length hrest3
  obtain ⟨i0, text, rfl, hrest5⟩ := cons_of_le_length hrest4
  obtain ⟨i1, text, rfl, hrest6⟩ := cons_of_le_length hrest5
  obtain ⟨c6, text, rfl, hrest7⟩ := cons_of_le_length hrest6
  obtain ⟨s0, text, rfl, hrest8⟩ := cons_of_le_length hrest7
  obtain ⟨s1, text, rfl, hrest9⟩ := cons_of_le_length hrest8
  have hseparator : sep = 84 ∨ sep = 32 := by
    by_contra hother
    rw [not_or] at hother
    exact hsep ⟨by simpa using hother.1, by simpa using hother.2⟩
  have hc3 : c3 = 58 := by simpa using hcolon
  have hc6 : c6 = 58 := by simpa using hcolon'
  subst hc3 hc6
  obtain ⟨fraction, hfraction⟩ : ∃ fraction, FractionText text fraction := by
    cases text with
    | nil => exact ⟨[], .none⟩
    | cons c fraction =>
      simp only [List.drop_succ_cons, List.drop_zero] at h
      split at h
      · rename_i hdigits
        obtain ⟨rfl, hne, hall⟩ := hdigits
        exact ⟨fraction, .digits hne hall⟩
      · cases h
  exact ⟨_, .time hseparator hh hi hs hfraction⟩

/-- **What is parsed can be read.** -/
theorem spelled_of_parsed {s : Str} {ms : ℤ} (h : parseIsoMilliseconds s = .ok ms) :
    ∃ w, Spells s w := by
  unfold parseIsoMilliseconds at h
  cases hyear : digitsAt s 0 4 with
  | none => simp [hyear, err] at h
  | some year =>
  by_cases hdash : s.length < 10 ∨ s[4]? ≠ some 45
  · simp [hyear, hdash, err] at h
  cases hmonth : digitsAt s 5 2 with
  | none => simp [hyear, hdash, hmonth, err] at h
  | some month =>
  by_cases hdash' : s[7]? ≠ some 45
  · simp [hyear, hdash, hmonth, hdash', err] at h
  cases hday : digitsAt s 8 2 with
  | none => simp [hyear, hdash, hmonth, hdash', hday, err] at h
  | some day =>
  simp only [hyear, hdash, hmonth, hdash', hday, if_false, Option.bind_eq_bind,
    Option.bind_some] at h
  rw [not_or, not_lt] at hdash
  obtain ⟨hlength, hdash⟩ := hdash
  obtain ⟨y, -, hy⟩ := decimal_of_digitsAt hyear
  obtain ⟨m, -, hm⟩ := decimal_of_digitsAt hmonth
  obtain ⟨d, -, hd⟩ := decimal_of_digitsAt hday
  -- Ten characters are known to be there: they are the date, and the rest is the time.
  obtain ⟨y0, s, rfl, hrest1⟩ := cons_of_le_length hlength
  obtain ⟨y1, s, rfl, hrest2⟩ := cons_of_le_length hrest1
  obtain ⟨y2, s, rfl, hrest3⟩ := cons_of_le_length hrest2
  obtain ⟨y3, s, rfl, hrest4⟩ := cons_of_le_length hrest3
  obtain ⟨c4, s, rfl, hrest5⟩ := cons_of_le_length hrest4
  obtain ⟨m0, s, rfl, hrest6⟩ := cons_of_le_length hrest5
  obtain ⟨m1, s, rfl, hrest7⟩ := cons_of_le_length hrest6
  obtain ⟨c7, s, rfl, hrest8⟩ := cons_of_le_length hrest7
  obtain ⟨d0, s, rfl, hrest9⟩ := cons_of_le_length hrest8
  obtain ⟨d1, s, rfl, hrest10⟩ := cons_of_le_length hrest9
  have hc4 : c4 = 45 := by simpa using hdash
  have hc7 : c7 = 45 := by simpa using hdash'
  subst hc4 hc7
  obtain ⟨clock, hclock⟩ : ∃ clock, ClockText s clock := by
    by_cases hnone : s = []
    · subst hnone
      exact ⟨_, .midnight⟩
    · have hlong : (y0 :: y1 :: y2 :: y3 :: 45 :: m0 :: m1 :: 45 :: d0 :: d1 :: s).length ≠ 10 := by
        have := List.length_pos_of_ne_nil hnone
        simp only [List.length_cons]
        omega
      simp only [hlong, if_false, List.drop_succ_cons, List.drop_zero] at h
      cases hparsed : parseTimeOfDay s with
      | none => simp [hparsed, err] at h
      | some parsed => exact clockText_of_parsed hparsed
  exact ⟨⟨⟨y, m, d⟩, clock⟩, _, s, rfl, .mk hy hm hd, hclock⟩

/-! ## A text says one thing -/

/-- A text of digits stands for one number. -/
theorem Decimal.unique {width : ℕ} {n n' : ℕ} {text : Str} (h : Decimal width n text)
    (h' : Decimal width n' text) : n = n' := by
  have hvalue := h.value.symm.trans h'.value
  exact_mod_cast hvalue

theorem dateText_length {s : Str} {date : Date} (h : DateText s date) : s.length = 10 := by
  cases h with
  | mk hy hm hd =>
    simp only [List.length_append, hy.length, hm.length, hd.length, List.length_singleton]

theorem dateText_unique {s s' : Str} {date date' : Date} (h : DateText s date)
    (h' : DateText s' date') (hs : s = s') : date = date' := by
  rcases h with ⟨hy, hm, hd⟩
  rcases h' with ⟨hy', hm', hd'⟩
  obtain ⟨hmonths, rfl⟩ := List.append_inj' hs (hd.length.trans hd'.length.symm)
  obtain ⟨hmonth, -⟩ := List.append_inj' hmonths rfl
  obtain ⟨hyears, rfl⟩ := List.append_inj' hmonth (hm.length.trans hm'.length.symm)
  obtain ⟨rfl, -⟩ := List.append_inj' hyears rfl
  rw [hy.unique hy', hm.unique hm', hd.unique hd']

theorem fractionText_unique {s fraction fraction' : Str} (h : FractionText s fraction)
    (h' : FractionText s fraction') : fraction = fraction' := by
  cases h with
  | none =>
    cases h' with
    | none => rfl
  | digits hne hdigits =>
    cases h' with
    | digits hne' hdigits' => rfl

theorem clockText_unique {s s' : Str} {clock clock' : Clock} (h : ClockText s clock)
    (h' : ClockText s' clock') (hs : s = s') : clock = clock' := by
  cases h with
  | midnight =>
    cases h' with
    | midnight => rfl
    | time => simp at hs
  | time hsep hh hi hsec hfraction =>
    cases h' with
    | midnight => simp at hs
    | time hsep' hh' hi' hsec' hfraction' =>
      simp only [List.append_assoc] at hs
      obtain ⟨-, hhours⟩ := List.append_inj hs rfl
      obtain ⟨rfl, hcolon⟩ := List.append_inj hhours (hh.length.trans hh'.length.symm)
      obtain ⟨-, hminutes⟩ := List.append_inj hcolon rfl
      obtain ⟨rfl, hcolon'⟩ := List.append_inj hminutes (hi.length.trans hi'.length.symm)
      obtain ⟨-, hseconds⟩ := List.append_inj hcolon' rfl
      obtain ⟨rfl, rfl⟩ := List.append_inj hseconds (hsec.length.trans hsec'.length.symm)
      rw [hh.unique hh', hi.unique hi', hsec.unique hsec', fractionText_unique hfraction hfraction']

/-- **A text says one thing.** -/
theorem spells_unique {s : Str} {w w' : Written} (h : Spells s w) (h' : Spells s w') : w = w' := by
  obtain ⟨dateText, clockText, rfl, hdate, hclock⟩ := h
  obtain ⟨dateText', clockText', hs, hdate', hclock'⟩ := h'
  obtain ⟨rfl, rfl⟩ := List.append_inj hs
    ((dateText_length hdate).trans (dateText_length hdate').symm)
  obtain ⟨date, clock⟩ := w
  obtain ⟨date', clock'⟩ := w'
  have hsameDate : date = date' := dateText_unique hdate hdate' rfl
  have hsameClock : clock = clock' := clockText_unique hclock hclock' rfl
  rw [hsameDate, hsameClock]

/-- **What is accepted**: the texts of dates and times that the parser's ranges admit. -/
theorem parseIsoMilliseconds_ok_iff {s : Str} {ms : ℤ} :
    parseIsoMilliseconds s = .ok ms ↔
      ∃ w, Spells s w ∧ w.Accepted ∧ ms = ⌊w.seconds * 1000⌋ := by
  constructor
  · intro h
    obtain ⟨w, hw⟩ := spelled_of_parsed h
    obtain ⟨haccepted, hrefused⟩ := parseIsoMilliseconds_of_spells hw
    by_cases hin : w.Accepted
    · rw [haccepted hin] at h
      exact ⟨w, hw, hin, (Except.ok.inj h).symm⟩
    · rw [hrefused hin] at h
      cases h
  · rintro ⟨w, hw, hin, rfl⟩
    exact (parseIsoMilliseconds_of_spells hw).1 hin

/-! ## Rounding to the resolution -/

/-- The division rounds to the nearest, halves up. -/
theorem jsRoundDiv_eq_floor (n : ℤ) {d : ℕ} (hd : 0 < d) :
    jsRoundDiv n d = ⌊(n : ℚ) / d + 1 / 2⌋ := by
  have hd' : (d : ℚ) ≠ 0 := by exact_mod_cast hd.ne'
  have hquotient : (n : ℚ) / d + 1 / 2 = ((2 * n + d : ℤ) : ℚ) / ((2 * d : ℕ) : ℚ) := by
    push_cast
    field_simp
  rw [hquotient, Rat.floor_intCast_div_natCast]
  unfold jsRoundDiv
  push_cast
  rfl

/-- Cutting to whole milliseconds first makes no difference to a rounding to an even number
of them. -/
theorem jsRoundDiv_floor (x : ℚ) {h : ℕ} (hh : 0 < h) :
    jsRoundDiv ⌊x⌋ (2 * h) = ⌊x / (2 * h) + 1 / 2⌋ := by
  have hh' : (h : ℚ) ≠ 0 := by exact_mod_cast hh.ne'
  have hquotient : x / (2 * h) + 1 / 2 = (x + h) / ((2 * h : ℕ) : ℚ) := by
    push_cast
    field_simp
  rw [hquotient, Int.floor_div_natCast, Int.floor_add_natCast]
  unfold jsRoundDiv
  push_cast
  rw [← mul_add, Int.mul_ediv_mul_of_pos _ _ (by norm_num)]

/-- The instant in whole seconds since 1970. -/
def Written.inSeconds (w : Written) : ℤ := ⌊w.seconds + 1 / 2⌋

/-- The instant in half-second slots since 2000. -/
def Written.inSlots (w : Written) : ℤ :=
  ⌊(w.seconds - ((Date.mk 2000 1 1).number - (Date.mk 1970 1 1).number) * 86400) * 2 + 1 / 2⌋

/-- The first of January of 2000. -/
theorem number_2000 : (Date.mk 2000 1 1).number = 730485 := by
  unfold Date.number
  rw [daysBeforeYear_eq, daysBeforeMonth_eq 2000 (le_refl 1) (by omega)]
  norm_num

theorem inSeconds_eq (w : Written) : jsRoundDiv ⌊w.seconds * 1000⌋ 1000 = w.inSeconds := by
  have hround := jsRoundDiv_floor (w.seconds * 1000) (h := 500) (by norm_num)
  unfold Written.inSeconds
  norm_num at hround ⊢
  exact hround

theorem inSlots_eq (w : Written) :
    jsRoundDiv (⌊w.seconds * 1000⌋ - BlockTimestamp.epochMilliseconds) 500 = w.inSlots := by
  have hround := jsRoundDiv_floor (w.seconds * 1000 - 946684800000) (h := 250) (by norm_num)
  have hepoch : ⌊w.seconds * 1000 - 946684800000⌋ =
      ⌊w.seconds * 1000⌋ - BlockTimestamp.epochMilliseconds := by
    exact_mod_cast Int.floor_sub_intCast (w.seconds * 1000) 946684800000
  have hslots : (w.seconds * 1000 - 946684800000) / 500 =
      (w.seconds - ((Date.mk 2000 1 1).number - (Date.mk 1970 1 1).number) * 86400) * 2 := by
    rw [number_2000, number_1970]
    push_cast
    ring
  unfold Written.inSlots
  rw [← hslots, ← hepoch]
  norm_num at hround ⊢
  exact hround

/-! ## The value of a text -/

/-- The value is the instant written, in the units of the type. -/
def Denotes (value : Result UInt32) (units : Written → ℤ) (s : Str) : Prop :=
  ∀ v, value = .ok v → ∃ w, Spells s w ∧ w.Exists ∧ (v.toNat : ℤ) = units w

/-- The text of a `time_point_sec` is its instant. -/
def TimePointSec.Denotes (s : Str) : Prop :=
  Dwarfkit.Denotes ((fromString s).map (·.value)) Written.inSeconds s

/-- The text of a block's time is its instant. -/
def BlockTimestamp.Denotes (s : Str) : Prop :=
  Dwarfkit.Denotes ((fromString s).map (·.value)) Written.inSlots s

/-- What the parser accepts of the text is a date that exists, and the instant fits. -/
def Fits (units : Written → ℤ) (s : Str) : Prop :=
  ∀ w, Spells s w → w.Accepted → w.date.Exists ∧ 0 ≤ units w ∧ units w < 2 ^ 32

theorem daysInMonth_le (y m : ℕ) : daysInMonth y m ≤ 31 := by
  unfold daysInMonth
  split
  · split
    · omega
    · omega
  · split
    · omega
    · omega

/-- A date and a time that exist are accepted. -/
theorem Written.Exists.accepted {w : Written} (h : w.Exists) : w.Accepted := by
  obtain ⟨⟨hm0, hm1, hd0, hd1⟩, hhour, hminute, hsecond⟩ := h
  exact ⟨⟨hm0, hm1⟩, ⟨hd0, hd1.trans (daysInMonth_le _ _)⟩, hhour, hminute, hsecond⟩

/-- A value narrowed to 32 bits is kept if it fits. -/
theorem narrowed_eq_iff (n : ℤ) : ((UInt32.ofInt n).toNat : ℤ) = n ↔ 0 ≤ n ∧ n < 2 ^ 32 := by
  simp only [UInt32.ofInt, UInt32.toNat_ofNat']
  omega

/-- **The value is the instant written exactly if it fits**, for any rounding of the
milliseconds that is right for the units. -/
theorem denotes_iff_fits {round : ℤ → ℤ} {units : Written → ℤ} {s : Str} {value : Result UInt32}
    (hround : ∀ w : Written, round ⌊w.seconds * 1000⌋ = units w)
    (hvalue : value = (parseIsoMilliseconds s).map fun ms => UInt32.ofInt (round ms)) :
    Denotes value units s ↔ Fits units s := by
  constructor
  · intro h w hw hin
    have hparsed := parseIsoMilliseconds_ok_iff.mpr ⟨w, hw, hin, rfl⟩
    rw [hparsed] at hvalue
    obtain ⟨w', hw', hexists, hunits⟩ := h _ hvalue
    obtain rfl := spells_unique hw hw'
    simp only [hround, narrowed_eq_iff] at hunits
    exact ⟨hexists.date, hunits⟩
  · intro h v hv
    cases hparsed : parseIsoMilliseconds s with
    | error e =>
      rw [hvalue, hparsed] at hv
      cases hv
    | ok ms =>
      obtain ⟨w, hw, hin, rfl⟩ := parseIsoMilliseconds_ok_iff.mp hparsed
      obtain ⟨hdate, hfits⟩ := h w hw hin
      rw [hvalue, hparsed] at hv
      obtain rfl := Except.ok.inj hv
      refine ⟨w, hw, ⟨hdate, hin.hour, hin.minute, hin.second⟩, ?_⟩
      simp only [hround, narrowed_eq_iff]
      exact hfits

theorem TimePointSec.denotes_iff_fits (s : Str) : Denotes s ↔ Fits Written.inSeconds s := by
  apply @Dwarfkit.denotes_iff_fits (fun ms => jsRoundDiv ms 1000) _ _ _ inSeconds_eq
  unfold fromString
  cases parseIsoMilliseconds s with
  | error e => rfl
  | ok ms => rfl

theorem BlockTimestamp.denotes_iff_fits (s : Str) : Denotes s ↔ Fits Written.inSlots s := by
  apply @Dwarfkit.denotes_iff_fits (fun ms => jsRoundDiv (ms - epochMilliseconds) 500) _ _ _
    inSlots_eq
  unfold fromString
  cases parseIsoMilliseconds s with
  | error e => rfl
  | ok ms => rfl

/-! ## Times that come from a text -/

/-- Below `2 ^ 58` a double is off by at most 16. -/
theorem roundDouble_close {n : ℤ} (h : n.natAbs < 2 ^ 58) :
    n - 16 ≤ roundDouble n ∧ roundDouble n ≤ n + 16 := by
  have hlog : Nat.log2 n.natAbs - 52 ≤ 5 := by
    by_cases hzero : n.natAbs = 0
    · rw [hzero]
      decide
    · have := (Nat.log2_lt hzero).mpr h
      omega
  have hsign := Int.sign_mul_natAbs n
  unfold roundDouble
  simp only
  generalize n.natAbs = m at hlog hsign
  generalize Nat.log2 m - 52 = shift at hlog
  -- the rounded magnitude is off by half a step
  have hclose : ∀ k : ℕ, (m : ℤ) - 16 ≤ k ∧ (k : ℤ) ≤ m + 16 →
      n - 16 ≤ n.sign * (k : ℤ) ∧ n.sign * (k : ℤ) ≤ n + 16 := by
    intro k hk
    rcases Int.sign_trichotomy n with hone | hzero | hneg
    · rw [hone] at hsign ⊢
      omega
    · rw [hzero] at hsign ⊢
      omega
    · rw [hneg] at hsign ⊢
      omega
  apply hclose
  have hdivmod := Nat.div_add_mod m (2 ^ shift)
  have hmod := Nat.mod_lt m (Nat.two_pow_pos shift)
  have hsteps : shift = 0 ∨ shift = 1 ∨ shift = 2 ∨ shift = 3 ∨ shift = 4 ∨ shift = 5 := by omega
  rcases hsteps with rfl | rfl | rfl | rfl | rfl | rfl
  all_goals
    split
    · omega
    · omega

/-- Years of four digits are less than `2 ^ 48` milliseconds from 1970. -/
theorem FourDigitYear.bounds {ms : ℤ} (h : FourDigitYear ms) : -2 ^ 48 < ms ∧ ms < 2 ^ 48 := by
  have hcalendar := daysFromCivil_civilFromDays (ms / 86400000)
  unfold FourDigitYear at h
  rcases hcivil : civilFromDays (ms / 86400000) with ⟨y, m, d⟩
  rw [hcivil] at hcalendar h
  obtain ⟨-, -, -, -, -, hlow, hhigh⟩ := hcalendar
  simp only at h
  omega

/-- A text that is made of a time is read only if its year has four digits. -/
theorem fourDigitYear_of_parsed {ms r : ℤ}
    (h : parseIsoMilliseconds (isoFromMilliseconds ms) = .ok r) : FourDigitYear ms := by
  obtain ⟨⟨date, clock⟩, dateText, clockText, htext, hdate, -⟩ := spelled_of_parsed h
  cases hdate with
  | @mk _ _ _ yy mm dd hyear _ _ =>
    unfold FourDigitYear
    rw [isoFromMilliseconds_eq] at htext
    unfold isoSeconds at htext
    rcases hcivil : civilFromDays (ms / 86400000) with ⟨y, m, d⟩
    rw [hcivil] at htext
    simp only [List.append_assoc, List.singleton_append] at htext ⊢
    have hfour := hyear.length
    by_contra hout
    rcases not_and_or.mp hout with hneg | hlarge
    · -- a sign where the first digit should be
      obtain ⟨c, rest, rfl⟩ := List.exists_cons_of_length_pos (by omega : 0 < yy.length)
      unfold padded at htext
      rw [if_pos (by omega)] at htext
      obtain ⟨hc, -⟩ := List.cons.inj htext
      have hdigit := List.all_eq_true.mp hyear.digits c List.mem_cons_self
      rw [← hc] at hdigit
      exact absurd hdigit (by decide)
    · -- a fifth digit where the dash should be
      have hlong : 5 ≤ (natToString y.natAbs).length := by
        by_contra hshort
        unfold natToString at hshort
        rw [List.length_map, not_le, Nat.lt_succ_iff,
          Nat.length_toDigits_le_iff (by omega) (by omega)] at hshort
        omega
      have hpadded : padded 4 y = natToString y.natAbs := by
        unfold padded
        rw [if_neg (by omega)]
        simp only [List.length_nil, List.nil_append, Nat.sub_zero]
        rw [Nat.sub_eq_zero_of_le (by omega)]
        rfl
      rw [hpadded] at htext
      have hat := congrArg (fun s : Str => s[4]?) htext
      rw [List.getElem?_append_left (by omega), List.getElem?_append_right (by omega), hfour] at hat
      have hdash := List.mem_of_getElem? hat
      exact absurd (digit_of_mem_natToString hdash).1 (by decide)

/-- **What is read from the text of a time has the same text.** -/
theorem TimePoint.toString_of_fromString {t u : TimePoint} (h : fromString t.toString = .ok u) :
    u.toString = t.toString := by
  unfold fromString at h
  obtain ⟨r, hparsed, h⟩ := bind_eq_ok.mp h
  obtain rfl := Except.ok.inj h
  unfold TimePoint.toString at hparsed ⊢
  have hyear := fourDigitYear_of_parsed hparsed
  rw [parseIsoMilliseconds_iso hyear] at hparsed
  obtain rfl := Except.ok.inj hparsed
  obtain ⟨hlow, hhigh⟩ := hyear.bounds
  generalize t.toMilliseconds = ms at hlow hhigh ⊢
  obtain ⟨hclose, hclose'⟩ := roundDouble_close (show (ms * 1000).natAbs < 2 ^ 58 by omega)
  have hvalue : (fromMilliseconds ms).value.toInt = roundDouble (ms * 1000) := by
    unfold fromMilliseconds jsRoundEven
    rw [if_neg (by omega), if_neg (by omega), Int64.toInt_ofInt_of_le (by omega) (by omega)]
  have hsame : (fromMilliseconds ms).toMilliseconds = ms := by
    unfold toMilliseconds
    rw [hvalue]
    simp only
    split
    · rw [if_neg (by omega)]
      omega
    · omega
  rw [hsame]

/-! ## The divisions in `double` -/

/-- A rounding to `double` in the range of normal numbers: halves of integers of 53 bits are
kept, and the relative error is at most `2 ^ -53`. -/
structure RoundsToDouble (fl : ℚ → ℚ) : Prop where
  halves : ∀ n : ℤ, |n| ≤ 2 ^ 53 → fl (n / 2) = n / 2
  close : ∀ x : ℚ, 1 ≤ 2 ^ 1022 * |x| → |fl x - x| ≤ |x| / 2 ^ 53

/-- A thousandth is far above the smallest normal number. -/
theorem normal_of_thousandth {x : ℚ} (h : 1 ≤ 2000 * |x|) : 1 ≤ 2 ^ 1022 * |x| := by
  have hpow : (2000 : ℚ) ≤ 2 ^ 1022 :=
    calc (2000 : ℚ) ≤ 2 ^ 11 := by norm_num
      _ ≤ 2 ^ 1022 := pow_le_pow_right₀ (by norm_num) (by norm_num)
  exact h.trans (mul_le_mul_of_nonneg_right hpow (abs_nonneg x))

/-- A quotient that is a thousandth away from the thresholds is rounded as it is. -/
theorem floor_of_doubles {fl : ℚ → ℚ} (hfl : RoundsToDouble fl) {x : ℚ} {k : ℤ}
    (hlow : k + 1 / 1000 ≤ x + 1 / 2) (hhigh : x + 1 / 2 ≤ k + 999 / 1000)
    (hx : 1 ≤ 1000 * |x|) (hbound : |x| ≤ 2 ^ 41) : ⌊fl (fl x + 1 / 2)⌋ = k := by
  have hclose := hfl.close x (normal_of_thousandth (by linarith))
  have herror : |fl x - x| ≤ 1 / 4000 := by
    have : |x| / 2 ^ 53 ≤ 1 / 4000 := by
      rw [div_le_iff₀ (by norm_num)]
      norm_num at hbound ⊢
      linarith
    linarith
  rw [abs_le] at herror
  obtain ⟨hx0, hx1⟩ := abs_le.mp hbound
  generalize hy : fl x + 1 / 2 = y
  have hylow : (k : ℚ) + 3 / 4000 ≤ y := by linarith [herror.1]
  have hyhigh : y ≤ (k : ℚ) + 3997 / 4000 := by linarith [herror.2]
  have hylarge : 1 ≤ 2000 * |y| := by
    rcases le_or_gt 0 k with hk | hk
    · have : (0 : ℚ) ≤ k := by exact_mod_cast hk
      linarith [le_abs_self y]
    · have : (k : ℚ) ≤ -1 := by exact_mod_cast (by omega : k ≤ -1)
      linarith [neg_le_abs y]
  have hybound : |y| ≤ 2 ^ 42 := by
    rw [abs_le]
    norm_num at hx0 hx1 ⊢
    constructor
    · linarith [herror.1]
    · linarith [herror.2]
  have hround : |fl y - y| ≤ 1 / 2000 := by
    have : |y| / 2 ^ 53 ≤ 1 / 2000 := by
      rw [div_le_iff₀ (by norm_num)]
      norm_num at hybound ⊢
      linarith
    exact (hfl.close y (normal_of_thousandth hylarge)).trans this
  rw [abs_le] at hround
  rw [Int.floor_eq_iff]
  constructor
  · linarith [hround.1]
  · linarith [hround.2]

/-- **The division in `double` rounds as the exact one does**: a quotient by 500 or 1000 is
half an integer, and then nothing is lost, or a thousandth away from every such number. -/
theorem jsRoundDiv_of_doubles {fl : ℚ → ℚ} (hfl : RoundsToDouble fl) {n d : ℤ}
    (hd : d = 500 ∨ d = 1000) (hn : |n| ≤ 2 ^ 49) :
    ⌊fl (fl ((n : ℚ) / d) + 1 / 2)⌋ = jsRoundDiv n d := by
  obtain ⟨h, rfl, hh⟩ : ∃ h : ℤ, d = 2 * h ∧ 250 ≤ h ∧ h ≤ 500 := by
    rcases hd with rfl | rfl
    · exact ⟨250, by norm_num, by norm_num⟩
    · exact ⟨500, by norm_num, by norm_num⟩
  obtain ⟨k, r, hn', hr⟩ : ∃ k r, n + h = k * (2 * h) + r ∧ 0 ≤ r ∧ r < 2 * h :=
    ⟨(n + h) / (2 * h), (n + h) % (2 * h), by rw [mul_comm, Int.mul_ediv_add_emod],
      Int.emod_nonneg _ (by omega), Int.emod_lt_of_pos _ (by omega)⟩
  have hround : jsRoundDiv n (2 * h) = k := by
    unfold jsRoundDiv
    rw [← mul_add, Int.mul_ediv_mul_of_pos _ _ (by norm_num), hn', add_comm,
      Int.add_mul_ediv_right _ _ (by omega), Int.ediv_eq_zero_of_lt hr.1 hr.2, zero_add]
  have hh0 : (0 : ℚ) < 2 * h := by exact_mod_cast (by omega : 0 < 2 * h)
  have hh1 : (2 * h : ℚ) ≤ 1000 := by exact_mod_cast (by omega : 2 * h ≤ 1000)
  have hquotient : (n : ℚ) / (2 * h) + 1 / 2 = k + r / (2 * h) := by
    have hsum : (n : ℚ) + h = k * (2 * h) + r := by exact_mod_cast hn'
    have hne : (h : ℚ) ≠ 0 := by exact_mod_cast (by omega : h ≠ 0)
    field_simp
    linarith
  have hn0 : |(n : ℚ)| ≤ 2 ^ 49 := by exact_mod_cast hn
  have hbound : |(n : ℚ) / (2 * h)| ≤ 2 ^ 41 := by
    rw [abs_div, abs_of_pos hh0, div_le_iff₀ hh0]
    have : (500 : ℚ) ≤ 2 * h := by exact_mod_cast (by omega : 500 ≤ 2 * h)
    norm_num at hn0 ⊢
    linarith
  have hbounds := abs_le.mp hbound
  norm_num at hbounds
  rw [hround]
  push_cast
  by_cases hhalf : r = 0 ∨ r = h
  · -- the quotient is half an integer, and so is its sum with a half
    obtain ⟨j, hj, hjk⟩ : ∃ j : ℤ, (n : ℚ) / (2 * h) = j / 2 ∧ (j + 1) / 2 = k := by
      rcases hhalf with rfl | rfl
      · refine ⟨2 * k - 1, ?_, by omega⟩
        push_cast
        rw [Int.cast_zero, zero_div] at hquotient
        linarith
      · refine ⟨2 * k, ?_, by omega⟩
        have hne : (r : ℚ) ≠ 0 := by exact_mod_cast (by omega : r ≠ 0)
        have : (r : ℚ) / (2 * r) = 1 / 2 := by field_simp
        push_cast
        linarith
    have hjbound : |j| ≤ 2 ^ 53 - 1 := by
      rw [hj] at hbounds
      have h0 : (-(2 ^ 53 - 1) : ℚ) ≤ j := by
        norm_num
        linarith [hbounds.1]
      have h1 : (j : ℚ) ≤ 2 ^ 53 - 1 := by
        norm_num
        linarith [hbounds.2]
      rw [abs_le]
      exact ⟨by exact_mod_cast h0, by exact_mod_cast h1⟩
    have hjbound' : |j + 1| ≤ 2 ^ 53 := (abs_add_le j 1).trans (by norm_num at hjbound ⊢; omega)
    have hsum : (j : ℚ) / 2 + 1 / 2 = ((j + 1 : ℤ) : ℚ) / 2 := by
      push_cast
      ring
    have hfloor := Rat.floor_intCast_div_natCast (j + 1) 2
    rw [hj, hfl.halves j (by omega), hsum, hfl.halves (j + 1) hjbound']
    push_cast at hfloor ⊢
    rw [hfloor, hjk]
  · have hr1 : (1 : ℚ) ≤ r := by exact_mod_cast (by omega : 1 ≤ r)
    have hr2 : (r : ℚ) ≤ 2 * h - 1 := by exact_mod_cast (by omega : r ≤ 2 * h - 1)
    have hn1 : (1 : ℚ) ≤ |(n : ℚ)| := by
      have : n ≠ 0 := by
        rintro rfl
        have hcases : h = 250 ∨ h = 500 := by omega
        rcases hcases with rfl | rfl
        · omega
        · omega
      exact_mod_cast Int.one_le_abs this
    apply floor_of_doubles hfl
    · rw [hquotient]
      have : 1 / 1000 ≤ (r : ℚ) / (2 * h) := by
        rw [div_le_div_iff₀ (by norm_num) hh0]
        linarith
      linarith
    · rw [hquotient]
      have : (r : ℚ) / (2 * h) ≤ 999 / 1000 := by
        rw [div_le_div_iff₀ hh0 (by norm_num)]
        linarith
      linarith
    · rw [abs_div, abs_of_pos hh0, ← mul_div_assoc, le_div_iff₀ hh0]
      linarith
    · exact hbound

/-- A number of four digits. -/
theorem Decimal.lt_four {n : ℕ} {text : Str} (h : Decimal 4 n text) : n < 10000 := by
  have hdigits := h.digits
  have hvalue := h.value
  obtain ⟨a, b, c, d, rfl⟩ := List.length_eq_four.mp h.length
  simp only [List.all_cons, List.all_nil, Bool.and_true, Bool.and_eq_true, decide_eq_true_eq,
    UInt8.le_iff_toNat_le, UInt8.reduceToNat] at hdigits
  simp only [List.foldl_cons, List.foldl_nil] at hvalue
  omega

/-- The milliseconds of a text are of the magnitude of a date. -/
theorem parsed_bounds {s : Str} {ms : ℤ} (h : parseIsoMilliseconds s = .ok ms) :
    -70000000000000 ≤ ms ∧ ms ≤ 300000000000000 := by
  obtain ⟨⟨date, clock⟩, hw, hin, rfl⟩ := parseIsoMilliseconds_ok_iff.mp h
  obtain ⟨dateText, clockText, -, hdate, hclock⟩ := hw
  obtain ⟨hmonth, hday, hhour, hminute, hsecond⟩ := hin
  simp only at hdate hclock hmonth hday hhour hminute hsecond
  have hyear : date.year < 10000 := by
    rcases hdate with ⟨hy, -, -⟩
    exact hy.lt_four
  -- Four digits keep the day below that of the year 10000, and the clock adds less than two days.
  have hnumber : 0 ≤ date.number ∧ date.number ≤ 3653000 := by
    have hyears := daysBeforeYear_eq date.year
    have hmonths : daysBeforeMonth date.year date.month ≤ 400 := by
      rw [daysBeforeMonth_eq date.year hmonth.1 hmonth.2]
      split
      · omega
      · split
        · omega
        · omega
    unfold Date.number
    omega
  have hfraction : 0 ≤ fractionOf clock.fraction ∧ fractionOf clock.fraction < 1 := by
    cases hclock with
    | midnight => exact ⟨le_refl 0, zero_lt_one⟩
    | time _ _ _ _ htext =>
      cases htext with
      | none => exact ⟨le_refl 0, zero_lt_one⟩
      | digits _ hdigits => exact fractionOf_bounds hdigits
  have hnumber0 : (0 : ℚ) ≤ date.number := by exact_mod_cast hnumber.1
  have hnumber1 : (date.number : ℚ) ≤ 3653000 := by exact_mod_cast hnumber.2
  have hhour1 : (clock.hour : ℚ) ≤ 23 := by exact_mod_cast hhour
  have hminute1 : (clock.minute : ℚ) ≤ 59 := by exact_mod_cast hminute
  have hsecond1 : (clock.second : ℚ) ≤ 59 := by exact_mod_cast hsecond
  have hclock0 : 0 ≤ clock.seconds := by
    have := hfraction.1
    unfold Clock.seconds
    positivity
  have hclock1 : clock.seconds ≤ 86400 := by
    unfold Clock.seconds
    linarith [hfraction.2]
  unfold Written.seconds
  rw [number_1970, Int.le_floor]
  push_cast
  constructor
  · linarith
  · have hfloor := Int.floor_le (((date.number : ℚ) - 719528) * 86400 * 1000 + clock.seconds * 1000)
    rw [add_mul]
    have hmax : ((date.number : ℚ) - 719528) * 86400 * 1000 + clock.seconds * 1000 ≤
        300000000000000 := by linarith
    apply (Int.cast_le (R := ℚ)).mp
    push_cast
    exact hfloor.trans hmax

/-- The divisions in `double` on the milliseconds of a text. -/
theorem divisions_in_double {fl : ℚ → ℚ} (hfl : RoundsToDouble fl) {s : Str} {ms : ℤ}
    (h : parseIsoMilliseconds s = .ok ms) :
    ⌊fl (fl ((ms : ℚ) / 1000) + 1 / 2)⌋ = jsRoundDiv ms 1000 ∧
    ⌊fl (fl (((ms - BlockTimestamp.epochMilliseconds : ℤ) : ℚ) / 500) + 1 / 2)⌋ =
      jsRoundDiv (ms - BlockTimestamp.epochMilliseconds) 500 := by
  obtain ⟨hlow, hhigh⟩ := parsed_bounds h
  constructor
  · have hround := jsRoundDiv_of_doubles hfl (n := ms) (d := 1000) (.inr rfl)
      (abs_le.mpr ⟨by omega, by omega⟩)
    exact_mod_cast hround
  · have hround := jsRoundDiv_of_doubles hfl (n := ms - BlockTimestamp.epochMilliseconds)
      (d := 500) (.inl rfl) (by unfold BlockTimestamp.epochMilliseconds; rw [abs_le]; omega)
    exact_mod_cast hround

/-! ## All of it -/

end Dwarfkit
