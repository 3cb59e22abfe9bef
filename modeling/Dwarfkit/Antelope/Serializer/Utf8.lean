/-
# UTF-8 validation

The loop of `isValidUTF8` in `serializer/decoder.cpp` by its indices, a read past
the end of the buffer being `none`, and what it accepts.

* `isValidUTF8From_eq` : the loop never reads past the end, and computes
  `isValidUTF8`;
* `isValidUTF8_iff` : the valid byte strings are the encodings of characters.
-/
import Dwarfkit.Antelope.Serializer.Coder

namespace Dwarfkit

open Wire

/-! ## The loop -/

/-- The trail bytes that a lead byte calls for, and the bits of its own. -/
def utf8Lead (byte : UInt8) : Option (ℕ × ℕ) :=
  if byte &&& 0xe0 = 0xc0 then some (1, (byte &&& 0x1f).toNat)
  else if byte &&& 0xf0 = 0xe0 then some (2, (byte &&& 0x0f).toNat)
  else if byte &&& 0xf8 = 0xf0 then some (3, (byte &&& 0x07).toNat)
  else none

/-- The inner loop, from `data[start]` with `extra` trail bytes to go: `some none`
where one of them is not a trail byte. -/
def utf8Trails (data : Bytes) : (start extra code : ℕ) → Option (Option ℕ)
  | _, 0, code => some (some code)
  | start, extra + 1, code => do
    let byte ← data[start]?
    if byte &&& 0xc0 ≠ 0x80 then some none
    else utf8Trails data (start + 1) extra (code * 64 + (byte &&& 0x3f).toNat)

/-- Overlong encodings, surrogates and out of range. -/
def utf8Refused (extra code : ℕ) : Bool :=
  (extra = 1 ∧ code < 0x80) ∨ (extra = 2 ∧ code < 0x800) ∨ (extra = 3 ∧ code < 0x10000) ∨
    (0xd800 ≤ code ∧ code ≤ 0xdfff) ∨ 0x10ffff < code

/-- The loop of `isValidUTF8` from `i`. -/
def isValidUTF8From (data : Bytes) (i : ℕ) : Option Bool :=
  if i < data.length then do
    let byte ← data[i]?
    if byte < 0x80 then isValidUTF8From data (i + 1)
    else match utf8Lead byte with
      | none => some false
      | some (extra, code) =>
        if data.length ≤ i + extra then some false
        else match ← utf8Trails data (i + 1) extra code with
          | none => some false
          | some code =>
            if utf8Refused extra code then some false
            else isValidUTF8From data (i + extra + 1)
  else some true
termination_by data.length - i

/-! ## Bytes by their value -/

/-- The lead bytes of two, three and four, by their ranges. -/
theorem utf8Lead_eq (b : UInt8) : utf8Lead b =
    if 0xc0 ≤ b.toNat ∧ b.toNat < 0xe0 then some (1, b.toNat - 0xc0)
    else if 0xe0 ≤ b.toNat ∧ b.toNat < 0xf0 then some (2, b.toNat - 0xe0)
    else if 0xf0 ≤ b.toNat ∧ b.toNat < 0xf8 then some (3, b.toNat - 0xf0)
    else none :=
  forall_byte (P := fun b => utf8Lead b =
    if 0xc0 ≤ b.toNat ∧ b.toNat < 0xe0 then some (1, b.toNat - 0xc0)
    else if 0xe0 ≤ b.toNat ∧ b.toNat < 0xf0 then some (2, b.toNat - 0xe0)
    else if 0xf0 ≤ b.toNat ∧ b.toNat < 0xf8 then some (3, b.toNat - 0xf0)
    else none) (by decide +kernel) b

/-- The trail bytes by their range. -/
theorem utf8Trail_eq (b : UInt8) : utf8Trail b =
    if 0x80 ≤ b.toNat ∧ b.toNat < 0xc0 then some (b.toNat - 0x80) else none :=
  forall_byte (P := fun b => utf8Trail b =
    if 0x80 ≤ b.toNat ∧ b.toNat < 0xc0 then some (b.toNat - 0x80) else none)
    (by decide +kernel) b

/-- The trail bytes of a list, put into `code` one after the other. -/
def utf8Code : (extra code : ℕ) → Bytes → Option ℕ
  | 0, code, _ => some code
  | _ + 1, _, [] => none
  | extra + 1, code, b :: bs => (utf8Trail b).bind (fun t => utf8Code extra (code * 64 + t) bs)

theorem utf8Trail_lt {b : UInt8} {t : ℕ} (h : utf8Trail b = some t) : t < 64 := by
  rw [utf8Trail_eq] at h
  split at h
  · have ht := Option.some.inj h
    omega
  · cases h

/-- The bits of a lead byte. -/
theorem lead_bits (b : UInt8) :
    (b &&& 0x1f).toNat < 32 ∧ (b &&& 0x0f).toNat < 16 ∧ (b &&& 0x07).toNat < 8 :=
  forall_byte (P := fun b => (b &&& 0x1f).toNat < 32 ∧ (b &&& 0x0f).toNat < 16 ∧
    (b &&& 0x07).toNat < 8) (by decide +kernel) b

/-- The checks that a code of two, three and four bytes can fail. -/
theorem refused_two {code : ℕ} (h : code < 2048) :
    decide (0x80 ≤ code) = !utf8Refused 1 code := by
  rw [Bool.eq_iff_iff]
  simp [utf8Refused]
  omega

theorem refused_three {code : ℕ} (h : code < 65536) :
    decide (0x800 ≤ code ∧ ¬ (0xd800 ≤ code ∧ code ≤ 0xdfff)) = !utf8Refused 2 code := by
  rw [Bool.eq_iff_iff]
  simp [utf8Refused]
  omega

theorem refused_four (code : ℕ) :
    decide (0x10000 ≤ code ∧ code ≤ 0x10ffff) = !utf8Refused 3 code := by
  rw [Bool.eq_iff_iff]
  simp [utf8Refused]
  omega

/-- One character's worth of `isValidUTF8`, the same for every lead byte. -/
theorem isValidUTF8_cons (b : UInt8) (rest : Bytes) :
    isValidUTF8 (b :: rest) =
      if b < 0x80 then isValidUTF8 rest
      else match utf8Lead b with
        | none => false
        | some (extra, code) =>
          match utf8Code extra code rest with
          | none => false
          | some code => !utf8Refused extra code && isValidUTF8 (rest.drop extra) := by
  obtain ⟨hbits₂, hbits₃, -⟩ := lead_bits b
  rw [isValidUTF8.eq_def]
  simp only
  by_cases hb : b < 0x80
  · rw [if_pos hb, if_pos hb]
  rw [if_neg hb, if_neg hb, utf8Lead]
  by_cases h₂ : b &&& 0xe0 = 0xc0
  · rw [if_pos h₂, if_pos h₂]
    rcases rest with - | ⟨c₁, rest⟩
    · rfl
    · rcases ht₁ : utf8Trail c₁ with - | t₁
      · simp [utf8Code, ht₁]
      · have hlt₁ := utf8Trail_lt ht₁
        simp only [utf8Code, ht₁, Option.bind_some, List.drop_succ_cons, List.drop_zero]
        rw [refused_two (by omega)]
  rw [if_neg h₂, if_neg h₂]
  by_cases h₃ : b &&& 0xf0 = 0xe0
  · rw [if_pos h₃, if_pos h₃]
    -- Too short, or cut by a byte that is no trail, or all three bytes are there.
    rcases rest with - | ⟨c₁, - | ⟨c₂, rest⟩⟩
    · rfl
    · rcases ht₁ : utf8Trail c₁ with - | t₁ <;> simp [utf8Code, ht₁]
    · rcases ht₁ : utf8Trail c₁ with - | t₁
      · simp [utf8Code, ht₁]
      · rcases ht₂ : utf8Trail c₂ with - | t₂
        · simp [utf8Code, ht₁, ht₂]
        · have hlt₁ := utf8Trail_lt ht₁
          have hlt₂ := utf8Trail_lt ht₂
          simp only [utf8Code, ht₁, ht₂, Option.bind_some, List.drop_succ_cons, List.drop_zero]
          rw [refused_three (by omega)]
  rw [if_neg h₃, if_neg h₃]
  by_cases h₄ : b &&& 0xf8 = 0xf0
  · rw [if_pos h₄, if_pos h₄]
    rcases rest with - | ⟨c₁, - | ⟨c₂, - | ⟨c₃, rest⟩⟩⟩
    · rfl
    · rcases ht₁ : utf8Trail c₁ with - | t₁ <;> simp [utf8Code, ht₁]
    · rcases ht₁ : utf8Trail c₁ with - | t₁
      · simp [utf8Code, ht₁]
      · rcases ht₂ : utf8Trail c₂ with - | t₂ <;> simp [utf8Code, ht₁, ht₂]
    · rcases ht₁ : utf8Trail c₁ with - | t₁
      · simp [utf8Code, ht₁]
      · rcases ht₂ : utf8Trail c₂ with - | t₂
        · simp [utf8Code, ht₁, ht₂]
        · rcases ht₃ : utf8Trail c₃ with - | t₃
          · simp [utf8Code, ht₁, ht₂, ht₃]
          · simp only [utf8Code, ht₁, ht₂, ht₃, Option.bind_some, List.drop_succ_cons,
              List.drop_zero]
            rw [refused_four]
  rw [if_neg h₄, if_neg h₄]

/-! ## The loop stays inside the buffer -/

/-- The inner loop on bytes that are there. -/
theorem utf8Trails_eq (data : Bytes) (start extra code : ℕ) (h : start + extra ≤ data.length) :
    utf8Trails data start extra code = some (utf8Code extra code (data.drop start)) := by
  induction extra generalizing start code with
  | zero => rfl
  | succ extra ih =>
    have hstart : start < data.length := by omega
    rw [utf8Trails, List.drop_eq_getElem_cons hstart, utf8Code, List.getElem?_eq_getElem hstart]
    simp only [Option.bind_eq_bind, Option.bind_some, utf8Trail]
    by_cases htrail : data[start] &&& 0xc0 = 0x80
    · rw [if_neg (not_not.mpr htrail), if_pos htrail, ih (start + 1) _ (by omega)]
      rfl
    · rw [if_pos htrail, if_neg htrail]
      rfl

/-- A character cut off by the end of the buffer has no code. -/
theorem utf8Code_eq_none {extra code : ℕ} {bs : Bytes} (h : bs.length < extra) :
    utf8Code extra code bs = none := by
  induction extra generalizing code bs with
  | zero => omega
  | succ extra ih =>
    rcases bs with - | ⟨b, bs⟩
    · rfl
    · rw [List.length_cons] at h
      rw [utf8Code]
      rcases utf8Trail b with - | t
      · rfl
      · exact ih (by omega)

/-- **The loop never reads past the end, and computes `isValidUTF8`.** -/
theorem isValidUTF8From_eq (data : Bytes) (i : ℕ) :
    isValidUTF8From data i = some (isValidUTF8 (data.drop i)) := by
  induction h : data.length - i using Nat.strong_induction_on generalizing i with
  | _ n ih =>
    rw [isValidUTF8From]
    by_cases hi : i < data.length
    · rw [if_pos hi, List.drop_eq_getElem_cons hi, isValidUTF8_cons,
        List.getElem?_eq_getElem hi]
      simp only [Option.bind_eq_bind, Option.bind_some]
      by_cases hb : data[i] < 0x80
      · rw [if_pos hb, if_pos hb]
        exact ih _ (by omega) (i + 1) rfl
      rw [if_neg hb, if_neg hb]
      rcases utf8Lead data[i] with - | ⟨extra, code⟩
      · rfl
      simp only
      -- The source tests that the trails are there before it indexes them.
      by_cases hend : data.length ≤ i + extra
      · rw [if_pos hend, utf8Code_eq_none (by rw [List.length_drop]; omega)]
      rw [if_neg hend, utf8Trails_eq data (i + 1) extra code (by omega), Option.bind_some]
      rcases utf8Code extra code (data.drop (i + 1)) with - | code'
      · rfl
      simp only
      by_cases hrefused : utf8Refused extra code' = true
      · rw [if_pos hrefused, hrefused]
        rfl
      · have hfalse : utf8Refused extra code' = false := Bool.eq_false_iff.mpr hrefused
        rw [if_neg hrefused, ih _ (by omega) (i + extra + 1) rfl, hfalse, List.drop_drop,
          Bool.not_false, Bool.true_and]
        congr 3
        omega
    · rw [if_neg hi, List.drop_of_length_le (by omega)]
      rfl

/-! ## What is accepted -/

/-- The bytes of a character by its number. -/
def scalarBytes (v : ℕ) : Bytes :=
  if v ≤ 0x7f then [UInt8.ofNat v]
  else if v ≤ 0x7ff then [UInt8.ofNat (v / 64 % 0x20 + 0xc0), UInt8.ofNat (v % 0x40 + 0x80)]
  else if v ≤ 0xffff then
    [UInt8.ofNat (v / 4096 % 0x10 + 0xe0), UInt8.ofNat (v / 64 % 0x40 + 0x80),
      UInt8.ofNat (v % 0x40 + 0x80)]
  else
    [UInt8.ofNat (v / 262144 % 0x08 + 0xf0), UInt8.ofNat (v / 4096 % 0x40 + 0x80),
      UInt8.ofNat (v / 64 % 0x40 + 0x80), UInt8.ofNat (v % 0x40 + 0x80)]

theorem utf8EncodeChar_eq (c : Char) : String.utf8EncodeChar c = scalarBytes c.toNat := rfl

/-- A trail byte by its six bits. -/
theorem utf8Trail_ofNat {t : ℕ} (h : t < 64) : utf8Trail (UInt8.ofNat (t + 0x80)) = some t := by
  have hn : (UInt8.ofNat (t + 0x80)).toNat = t + 0x80 := by
    rw [UInt8.toNat_ofNat']
    omega
  rw [utf8Trail_eq, hn, if_pos (by omega), Nat.add_sub_cancel]

/-- The lead bytes by their bits. -/
theorem utf8Lead_ofNat (n : ℕ) (h : n < 256) : utf8Lead (UInt8.ofNat n) =
    if 0xc0 ≤ n ∧ n < 0xe0 then some (1, n - 0xc0)
    else if 0xe0 ≤ n ∧ n < 0xf0 then some (2, n - 0xe0)
    else if 0xf0 ≤ n ∧ n < 0xf8 then some (3, n - 0xf0)
    else none := by
  rw [utf8Lead_eq, UInt8.toNat_ofNat', Nat.mod_eq_of_lt h]

theorem not_lt_of_lead {n : ℕ} (h : 0x80 ≤ n) (hn : n < 256) : ¬ UInt8.ofNat n < 0x80 := by
  rw [UInt8.lt_iff_toNat_lt, UInt8.toNat_ofNat', Nat.mod_eq_of_lt hn]
  show ¬ n < 128
  omega

/-- A character in front is passed over. -/
theorem isValidUTF8_scalarBytes {v : ℕ} (hv : v.isValidChar) (rest : Bytes) :
    isValidUTF8 (scalarBytes v ++ rest) = isValidUTF8 rest := by
  have hvalid : v < 0xd800 ∨ 0xdfff < v ∧ v < 0x110000 := hv
  unfold scalarBytes
  by_cases h₁ : v ≤ 0x7f
  · have hb : UInt8.ofNat v < 0x80 := by
      rw [UInt8.lt_iff_toNat_lt, UInt8.toNat_ofNat', Nat.mod_eq_of_lt (by omega)]
      show v < 128
      omega
    rw [if_pos h₁, List.singleton_append, isValidUTF8_cons, if_pos hb]
  rw [if_neg h₁]
  by_cases h₂ : v ≤ 0x7ff
  · -- Put together, the groups are the scalar again, and no shorter form would have held it.
    have hcode : v / 64 % 0x20 * 64 + v % 0x40 = v := by omega
    have hrefused : utf8Refused 1 v = false := by
      simp [utf8Refused]
      omega
    rw [if_pos h₂, List.cons_append, isValidUTF8_cons,
      if_neg (not_lt_of_lead (by omega) (by omega)), utf8Lead_ofNat _ (by omega),
      if_pos (by omega)]
    simp only [List.cons_append, List.nil_append, utf8Code,
      utf8Trail_ofNat (t := v % 0x40) (by omega), Option.bind_some, Nat.add_sub_cancel, hcode,
      hrefused, List.drop_succ_cons, List.drop_zero, Bool.not_false, Bool.true_and]
  rw [if_neg h₂]
  by_cases h₃ : v ≤ 0xffff
  · have hcode : (v / 4096 % 0x10 * 64 + v / 64 % 0x40) * 64 + v % 0x40 = v := by omega
    have hrefused : utf8Refused 2 v = false := by
      simp [utf8Refused]
      omega
    rw [if_pos h₃, List.cons_append, isValidUTF8_cons,
      if_neg (not_lt_of_lead (by omega) (by omega)), utf8Lead_ofNat _ (by omega),
      if_neg (by omega), if_pos (by omega)]
    simp only [List.cons_append, List.nil_append, utf8Code,
      utf8Trail_ofNat (t := v / 64 % 0x40) (by omega), utf8Trail_ofNat (t := v % 0x40) (by omega),
      Option.bind_some, Nat.add_sub_cancel, hcode, hrefused, List.drop_succ_cons, List.drop_zero,
      Bool.not_false, Bool.true_and]
  rw [if_neg h₃]
  have hcode : ((v / 262144 % 0x08 * 64 + v / 4096 % 0x40) * 64 + v / 64 % 0x40) * 64 +
      v % 0x40 = v := by
    omega
  have hrefused : utf8Refused 3 v = false := by
    simp [utf8Refused]
    omega
  rw [List.cons_append, isValidUTF8_cons,
    if_neg (not_lt_of_lead (by omega) (by omega)), utf8Lead_ofNat _ (by omega),
    if_neg (by omega), if_neg (by omega), if_pos (by omega)]
  simp only [List.cons_append, List.nil_append, utf8Code,
    utf8Trail_ofNat (t := v / 4096 % 0x40) (by omega),
    utf8Trail_ofNat (t := v / 64 % 0x40) (by omega), utf8Trail_ofNat (t := v % 0x40) (by omega),
    Option.bind_some, Nat.add_sub_cancel, hcode, hrefused, List.drop_succ_cons, List.drop_zero,
    Bool.not_false, Bool.true_and]

/-- The next byte of a code that is complete. -/
theorem utf8Code_succ {extra code v : ℕ} {bs : Bytes}
    (h : utf8Code (extra + 1) code bs = some v) :
    ∃ b bs', bs = b :: bs' ∧ 0x80 ≤ b.toNat ∧ b.toNat < 0xc0 ∧
      utf8Code extra (code * 64 + (b.toNat - 0x80)) bs' = some v := by
  rcases bs with - | ⟨b, bs⟩
  · cases h
  · rw [utf8Code, utf8Trail_eq] at h
    by_cases hb : 0x80 ≤ b.toNat ∧ b.toNat < 0xc0
    · rw [if_pos hb] at h
      exact ⟨b, bs, rfl, hb.1, hb.2, h⟩
    · rw [if_neg hb] at h
      cases h

theorem ofNat_eq_byte {b : UInt8} {n : ℕ} (h : b.toNat = n) : UInt8.ofNat n = b := by
  rw [← h, UInt8.ofNat_toNat]

/-- What is valid begins with a character. -/
theorem exists_scalarBytes {b : UInt8} {bs : Bytes} (h : isValidUTF8 (b :: bs) = true) :
    ∃ v rest, v.isValidChar ∧ b :: bs = scalarBytes v ++ rest ∧ isValidUTF8 rest = true := by
  rw [isValidUTF8_cons] at h
  by_cases hb : b < 0x80
  · have hn : b.toNat < 128 := hb
    rw [if_pos hb] at h
    refine ⟨b.toNat, bs, .inl (by omega), ?_, h⟩
    rw [scalarBytes, if_pos (by omega), UInt8.ofNat_toNat, List.singleton_append]
  have hn : ¬ b.toNat < 128 := hb
  rw [if_neg hb, utf8Lead_eq] at h
  by_cases h₂ : 0xc0 ≤ b.toNat ∧ b.toNat < 0xe0
  · rw [if_pos h₂] at h
    simp only at h
    rcases hv : utf8Code 1 (b.toNat - 0xc0) bs with - | v
    · rw [hv] at h
      cases h
    rw [hv, Bool.and_eq_true] at h
    obtain ⟨hrefused, hrest⟩ := h
    obtain ⟨c₁, rest, rfl, hlow₁, hhigh₁, hv⟩ := utf8Code_succ hv
    have hcode := Option.some.inj hv
    simp [utf8Refused] at hrefused
    refine ⟨v, rest, .inl (by omega), ?_, hrest⟩
    rw [scalarBytes, if_neg (by omega), if_pos (by omega)]
    rw [ofNat_eq_byte (b := b) (by omega), ofNat_eq_byte (b := c₁) (by omega)]
    rfl
  rw [if_neg h₂] at h
  by_cases h₃ : 0xe0 ≤ b.toNat ∧ b.toNat < 0xf0
  · rw [if_pos h₃] at h
    simp only at h
    rcases hv : utf8Code 2 (b.toNat - 0xe0) bs with - | v
    · rw [hv] at h
      cases h
    rw [hv, Bool.and_eq_true] at h
    obtain ⟨hrefused, hrest⟩ := h
    obtain ⟨c₁, bs₁, rfl, hlow₁, hhigh₁, hv⟩ := utf8Code_succ hv
    obtain ⟨c₂, rest, rfl, hlow₂, hhigh₂, hv⟩ := utf8Code_succ hv
    have hcode := Option.some.inj hv
    simp [utf8Refused] at hrefused
    -- That it is not refused rules out the surrogates and the shorter forms.
    have hvalid : v < 0xd800 ∨ 0xdfff < v ∧ v < 0x110000 := by omega
    refine ⟨v, rest, hvalid, ?_, hrest⟩
    rw [scalarBytes, if_neg (by omega), if_neg (by omega), if_pos (by omega)]
    rw [ofNat_eq_byte (b := b) (by omega), ofNat_eq_byte (b := c₁) (by omega),
      ofNat_eq_byte (b := c₂) (by omega)]
    rfl
  rw [if_neg h₃] at h
  by_cases h₄ : 0xf0 ≤ b.toNat ∧ b.toNat < 0xf8
  · rw [if_pos h₄] at h
    simp only at h
    rcases hv : utf8Code 3 (b.toNat - 0xf0) bs with - | v
    · rw [hv] at h
      cases h
    rw [hv, Bool.and_eq_true] at h
    obtain ⟨hrefused, hrest⟩ := h
    obtain ⟨c₁, bs₁, rfl, hlow₁, hhigh₁, hv⟩ := utf8Code_succ hv
    obtain ⟨c₂, bs₂, rfl, hlow₂, hhigh₂, hv⟩ := utf8Code_succ hv
    obtain ⟨c₃, rest, rfl, hlow₃, hhigh₃, hv⟩ := utf8Code_succ hv
    have hcode := Option.some.inj hv
    simp [utf8Refused] at hrefused
    have hvalid : v < 0xd800 ∨ 0xdfff < v ∧ v < 0x110000 := by omega
    refine ⟨v, rest, hvalid, ?_, hrest⟩
    rw [scalarBytes, if_neg (by omega), if_neg (by omega), if_neg (by omega)]
    rw [ofNat_eq_byte (b := b) (by omega), ofNat_eq_byte (b := c₁) (by omega),
      ofNat_eq_byte (b := c₂) (by omega), ofNat_eq_byte (b := c₃) (by omega)]
    rfl
  · rw [if_neg h₄] at h
    cases h

theorem length_scalarBytes_pos (v : ℕ) : 0 < (scalarBytes v).length := by
  unfold scalarBytes
  split_ifs <;> simp

/-- **What is valid is the encoding of some characters**, each in its shortest
form: a `Char` is a scalar value. -/
theorem isValidUTF8_iff (data : Bytes) :
    isValidUTF8 data = true ↔ ∃ cs : List Char, data = cs.flatMap String.utf8EncodeChar := by
  constructor
  · intro h
    induction hn : data.length using Nat.strong_induction_on generalizing data with
    | _ n ih =>
      rcases data with - | ⟨b, bs⟩
      · exact ⟨[], rfl⟩
      · obtain ⟨v, rest, hv, heq, hrest⟩ := exists_scalarBytes h
        have hpos := length_scalarBytes_pos v
        have hlen : (b :: bs).length = (scalarBytes v).length + rest.length := by
          rw [heq, List.length_append]
        obtain ⟨cs, rfl⟩ := ih _ (by omega) rest hrest rfl
        refine ⟨Char.ofNat v :: cs, ?_⟩
        rw [heq, List.flatMap_cons, utf8EncodeChar_eq, Char.toNat_ofNat, if_pos hv]
  · rintro ⟨cs, rfl⟩
    induction cs with
    | nil => rfl
    | cons c cs ih =>
      rw [List.flatMap_cons, utf8EncodeChar_eq,
        isValidUTF8_scalarBytes (v := c.toNat) c.valid, ih]

/-- **UTF-8 validation is exact**: the loop stays inside the buffer, and answers
whether it holds the encodings of characters one after the other. -/
theorem utf8_validation_exact (data : Bytes) :
    ∃ valid, isValidUTF8From data 0 = some valid ∧
      (valid = true ↔ ∃ cs : List Char, data = cs.flatMap String.utf8EncodeChar) :=
  ⟨isValidUTF8 data, by rw [isValidUTF8From_eq, List.drop_zero], isValidUTF8_iff data⟩

end Dwarfkit
