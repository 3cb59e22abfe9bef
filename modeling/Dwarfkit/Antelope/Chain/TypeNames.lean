/-
# Type names

`ResolvedNode::parse` and `typeName` of `antelope/chain/abi.hpp`, one against the other: the
suffixes of a type name, the sizes of fixed arrays, and the type names that are read as
another type.
-/
import Dwarfkit.Antelope.Chain.Resolution

namespace Dwarfkit

/-! ## Decimal texts -/

/-- The byte of a decimal digit. -/
def digitByte (d : ℕ) : UInt8 := d.digitChar.toNat.toUInt8

theorem digitByte_eq {c : UInt8} (h : 48 ≤ c ∧ c ≤ 57) : digitByte (c.toNat - 48) = c := by
  obtain ⟨hlow, hhigh⟩ := h
  have hlow' : 48 ≤ c.toNat := UInt8.le_iff_toNat_le.mp hlow
  have hhigh' : c.toNat ≤ 57 := UInt8.le_iff_toNat_le.mp hhigh
  have hdigits : ∀ d < 10, digitByte d = UInt8.ofNat (d + 48) := by decide
  rw [hdigits _ (by omega), show c.toNat - 48 + 48 = c.toNat by omega, UInt8.ofNat_toNat]

theorem natToString_of_lt {n : ℕ} (h : n < 10) : natToString n = [digitByte n] := by
  unfold natToString
  rw [Nat.toDigits_of_lt_base h]
  rfl

theorem natToString_of_le {n : ℕ} (h : 10 ≤ n) :
    natToString n = natToString (n / 10) ++ [digitByte (n % 10)] := by
  unfold natToString
  rw [Nat.toDigits_of_base_le (by omega) h, List.map_append]
  rfl

/-- Digits that start with a zero they do not need. -/
def LeadingZero (digits : Str) : Prop := 1 < digits.length ∧ digits.head? = some 48

/-- A positive number is not written with a zero in front. -/
theorem head?_natToString {n : ℕ} (h : 0 < n) : (natToString n).head? ≠ some 48 := by
  induction n using Nat.strong_induction_on with
  | _ n ih =>
    by_cases hsmall : n < 10
    · rw [natToString_of_lt hsmall]
      have hdigits : ∀ d < 10, 0 < d → [digitByte d].head? ≠ some 48 := by decide
      exact hdigits n hsmall h
    · rw [natToString_of_le (by omega), List.head?_append_of_ne_nil _ (natToString_ne_nil _)]
      exact ih (n / 10) (by omega) (by omega)

/-- No number is written with a leading zero. -/
theorem not_leadingZero_natToString (n : ℕ) : ¬ LeadingZero (natToString n) := by
  rintro ⟨hlength, hhead⟩
  by_cases hsmall : n < 10
  · rw [natToString_of_lt hsmall] at hlength
    exact absurd hlength (by simp)
  · exact head?_natToString (by omega) hhead

theorem digitsValue_append (digits : Str) (c : UInt8) :
    digitsValue (digits ++ [c]) = digitsValue digits * 10 + (c.toNat - 48) := by
  unfold digitsValue
  rw [List.foldl_append]
  rfl

/-- **Digits without a leading zero are how their value is written.** -/
theorem natToString_digitsValue {digits : Str} (hne : digits ≠ [])
    (hdigits : ∀ c ∈ digits, 48 ≤ c ∧ c ≤ 57) (hlead : ¬ LeadingZero digits) :
    natToString (digitsValue digits) = digits := by
  -- From the last digit on, the way a number is written.
  induction digits using List.reverseRecOn with
  | nil => exact absurd rfl hne
  | append_singleton front c ih =>
    have hc : 48 ≤ c ∧ c ≤ 57 := hdigits c (by simp)
    have hhigh : c.toNat ≤ 57 := UInt8.le_iff_toNat_le.mp hc.2
    rw [digitsValue_append]
    by_cases hfront : front = []
    · subst hfront
      show natToString (0 * 10 + (c.toNat - 48)) = [c]
      rw [Nat.zero_mul, Nat.zero_add, natToString_of_lt (by omega), digitByte_eq hc]
    · have hlength : 0 < front.length := List.length_pos_of_ne_nil hfront
      have hhead : front.head? ≠ some 48 := by
        intro h
        refine hlead ⟨?_, ?_⟩
        · rw [List.length_append, List.length_singleton]
          omega
        · rw [List.head?_append_of_ne_nil _ hfront, h]
      have hwritten := ih hfront (fun d hd => hdigits d (by simp [hd])) (fun h => hhead h.2)
      have hpos : 0 < digitsValue front := by
        by_contra hzero
        rw [show digitsValue front = 0 by omega] at hwritten
        exact hhead (by rw [← hwritten]; rfl)
      rw [natToString_of_le (by omega), show (digitsValue front * 10 + (c.toNat - 48)) / 10 =
        digitsValue front by omega, hwritten, show (digitsValue front * 10 + (c.toNat - 48)) % 10 =
        c.toNat - 48 by omega, digitByte_eq hc]

namespace ABI.ResolvedNode

/-! ## Suffixes -/

/-- A suffix that is there is cut off. -/
theorem chop_append (name suffix : Str) : chop (name ++ suffix) suffix = (name, true) := by
  unfold chop
  have hsuffix : suffix.isSuffixOf (name ++ suffix) = true :=
    List.isSuffixOf_iff_suffix.mpr (List.suffix_append name suffix)
  rw [if_pos hsuffix, List.length_append, Nat.add_sub_cancel, List.take_left]

/-- A name that ends otherwise is left alone. -/
theorem chop_of_not_suffix {name suffix : Str} (h : ¬ suffix <:+ name) :
    chop name suffix = (name, false) := by
  unfold chop
  rw [if_neg (fun hsuffix => h (List.isSuffixOf_iff_suffix.mp hsuffix))]

/-- So is one with another last character. -/
theorem chop_of_getLast {name suffix : Str} {d : UInt8} (hsuffix : suffix.getLast? = some d)
    (hname : ∀ c ∈ name.getLast?, c ≠ d) : chop name suffix = (name, false) := by
  apply chop_of_not_suffix
  rintro ⟨front, rfl⟩
  have hne : suffix ≠ [] := by
    rintro rfl
    cases hsuffix
  have hlast : (front ++ suffix).getLast? = some d := by
    rw [List.getLast?_append_of_ne_nil _ hne, hsuffix]
  exact hname d hlast rfl

/-- What is cut off comes back when it is put on again. -/
theorem chop_join (name suffix : Str) :
    (chop name suffix).1 ++ (if (chop name suffix).2 then suffix else []) = name := by
  by_cases h : suffix <:+ name
  · obtain ⟨front, rfl⟩ := h
    rw [chop_append]
    rfl
  · rw [chop_of_not_suffix h]
    exact List.append_nil name

/-! ## Sizes -/

/-- A name that does not end in a bracket has no size. -/
theorem fixedSize_of_getLast {name : Str} (hname : ∀ c ∈ name.getLast?, c ≠ 93) :
    fixedSize name = none := by
  unfold fixedSize
  rw [if_neg]
  intro h
  obtain ⟨front, rfl⟩ := List.isSuffixOf_iff_suffix.mp h
  refine hname 93 ?_ rfl
  rw [List.getLast?_append_of_ne_nil _ (by decide)]
  rfl

/-- Digits that a size can be written with. -/
structure SizeDigits (digits : Str) : Prop where
  nonempty : digits ≠ []
  decimal : ∀ c ∈ digits, 48 ≤ c ∧ c ≤ 57
  fits : digitsValue digits < 2 ^ 32

/-- Digits are no brackets. -/
theorem SizeDigits.ne_bracket {digits : Str} (h : SizeDigits digits) {c : UInt8} (hc : c ∈ digits) :
    c ≠ 91 ∧ c ≠ 93 := by
  obtain ⟨-, hhigh⟩ := h.decimal c hc
  have hhigh' : c.toNat ≤ 57 := UInt8.le_iff_toNat_le.mp hhigh
  constructor
  · rintro rfl
    exact absurd hhigh' (by decide)
  · rintro rfl
    exact absurd hhigh' (by decide)

/-- The digits in front of the last bracket. -/
theorem fixedSize_append {element digits : Str} (h : SizeDigits digits) :
    fixedSize (element ++ (lit "[" ++ digits ++ lit "]")) =
      some (element, (digitsValue digits).toUInt32) := by
  have hname : element ++ (lit "[" ++ digits ++ lit "]") = (element ++ 91 :: digits) ++ lit "]" := by
    simp [lit]
  -- No digit is a bracket, so the search from the right stops at the one in front of them.
  have hdigits : ∀ c ∈ digits.reverse, decide (c ≠ 91) = true := fun c hc =>
    decide_eq_true (h.ne_bracket (List.mem_reverse.mp hc)).1
  have hreverse : (element ++ 91 :: digits).reverse = digits.reverse ++ 91 :: element.reverse := by
    simp
  have htake : ((element ++ 91 :: digits).reverse.takeWhile (· ≠ 91)).reverse = digits := by
    rw [hreverse, List.takeWhile_append_of_pos hdigits, List.takeWhile_cons_of_neg (by simp),
      List.append_nil, List.reverse_reverse]
  have hdrop : (element ++ 91 :: digits).reverse.dropWhile (· ≠ 91) = 91 :: element.reverse := by
    rw [hreverse, List.dropWhile_append_of_pos hdigits, List.dropWhile_cons_of_neg (by simp)]
  have hlast : ((element ++ 91 :: digits) ++ lit "]").dropLast = element ++ 91 :: digits :=
    List.dropLast_concat
  have hbad : ¬ (digits = [] ∨ digits.any (fun c => c < 48 ∨ 57 < c) = true) := by
    rintro (hempty | hany)
    · exact h.nonempty hempty
    · obtain ⟨c, hc, hout⟩ := List.any_eq_true.mp hany
      obtain ⟨hlow, hhigh⟩ := h.decimal c hc
      rcases of_decide_eq_true hout with hout | hout
      · exact absurd hlow (UInt8.not_le.mpr hout)
      · exact absurd hhigh (UInt8.not_le.mpr hout)
  rw [hname]
  unfold fixedSize
  rw [if_pos (List.isSuffixOf_iff_suffix.mpr (List.suffix_append _ _)), hlast]
  simp only [htake, hdrop]
  rw [if_neg hbad, if_pos h.fits, List.reverse_reverse]

/-- A name with a size is made of its element, a bracket and the size's digits. -/
theorem eq_of_fixedSize {name element : Str} {n : UInt32}
    (h : fixedSize name = some (element, n)) :
    ∃ digits, SizeDigits digits ∧ name = element ++ (lit "[" ++ digits ++ lit "]") ∧
      n = (digitsValue digits).toUInt32 := by
  unfold fixedSize at h
  split at h
  · rename_i hsuffix
    obtain ⟨front, rfl⟩ := List.isSuffixOf_iff_suffix.mp hsuffix
    have hlast : (front ++ lit "]").dropLast = front := List.dropLast_concat
    rw [hlast] at h
    simp only at h
    split at h
    · cases h
    · rename_i bracket rest hdrop
      split_ifs at h with hbad hfits
      cases h
      obtain ⟨digits, hdigits⟩ : ∃ digits, digits = (front.reverse.takeWhile (· ≠ 91)).reverse :=
        ⟨_, rfl⟩
      rw [← hdigits] at hbad hfits ⊢
      -- What `dropWhile` stops at is the bracket that was looked for.
      have hbracket : bracket = 91 := by
        have hhead := List.head?_dropWhile_not (p := (· ≠ 91)) (l := front.reverse)
        rw [hdrop] at hhead
        simpa using hhead
      have hfront : front = rest.reverse ++ 91 :: digits := by
        have hsplit := List.takeWhile_append_dropWhile (p := (· ≠ (91 : UInt8))) (l := front.reverse)
        rw [hdrop, hbracket] at hsplit
        calc front
          _ = front.reverse.reverse := (List.reverse_reverse front).symm
          _ = (front.reverse.takeWhile (· ≠ 91) ++ 91 :: rest).reverse := by rw [hsplit]
          _ = rest.reverse ++ 91 :: digits := by rw [hdigits]; simp
      refine ⟨digits, ⟨fun hempty => hbad (.inl hempty), ?_, hfits⟩, ?_, rfl⟩
      · intro c hc
        by_contra hout
        refine hbad (.inr (List.any_eq_true.mpr ⟨c, hc, decide_eq_true ?_⟩))
        rcases not_and_or.mp hout with hout | hout
        · exact .inl (UInt8.not_le.mp hout)
        · exact .inr (UInt8.not_le.mp hout)
      · rw [hfront]
        simp [lit]
  · cases h

/-! ## Parsing a type name -/

/-- The suffixes behind a type name and its array part. -/
def suffixes (isOptional isExtension : Bool) : Str :=
  (if isOptional then lit "?" else []) ++ (if isExtension then lit "$" else [])

/-- The suffixes are cut off, last one first. -/
theorem chop_suffixes {core : Str} (isOptional isExtension : Bool)
    (hcore : ∀ c ∈ core.getLast?, c ≠ 36 ∧ c ≠ 63) :
    chop (core ++ suffixes isOptional isExtension) "$" =
        (core ++ (if isOptional then lit "?" else []), isExtension) ∧
      chop (core ++ (if isOptional then lit "?" else [])) "?" = (core, isOptional) := by
  constructor
  · unfold suffixes
    rw [← List.append_assoc]
    cases isExtension with
    | true => exact chop_append _ _
    | false =>
      rw [if_neg Bool.false_ne_true, List.append_nil]
      -- Nothing to cut: what is left ends in `?` or in the core.
      refine chop_of_getLast (d := 36) (by decide) ?_
      intro c hc
      cases isOptional with
      | true =>
        rw [if_pos rfl, List.getLast?_append_of_ne_nil _ (by decide)] at hc
        cases hc
        decide
      | false =>
        rw [if_neg Bool.false_ne_true, List.append_nil] at hc
        exact (hcore c hc).1
  · cases isOptional with
    | true => exact chop_append _ _
    | false =>
      rw [if_neg Bool.false_ne_true, List.append_nil]
      exact chop_of_getLast (d := 63) (by decide) (fun c hc => (hcore c hc).2)

/-- Every type name is what `parse` looks for a size in, and the suffixes it cut off. -/
theorem parse_cases (name : Str) : ∃ core isArray isOptional isExtension,
    name = core ++ (if isArray then lit "[]" else []) ++ suffixes isOptional isExtension ∧
      parse name = match fixedSize core with
        | some (element, n) =>
          { name := element, isExtension, isOptional, isArray := true, size := some n }
        | none => { name := core, isExtension, isOptional, isArray } := by
  obtain ⟨outer, houter⟩ : ∃ outer, outer = (chop name "$").1 := ⟨_, rfl⟩
  obtain ⟨inner, hinner⟩ : ∃ inner, inner = (chop outer "?").1 := ⟨_, rfl⟩
  refine ⟨(chop inner "[]").1, (chop inner "[]").2, (chop outer "?").2, (chop name "$").2, ?_, ?_⟩
  · unfold suffixes
    rw [chop_join, ← List.append_assoc, hinner, chop_join, houter, chop_join]
  · rw [hinner, houter]
    rfl

/-- **A type name with a size** is parsed into its element and the size, whatever array
suffix follows them. -/
theorem parse_sized {element digits : Str} (h : SizeDigits digits)
    (isArray isOptional isExtension : Bool) :
    parse (element ++ (lit "[" ++ digits ++ lit "]") ++ (if isArray then lit "[]" else []) ++
        suffixes isOptional isExtension) =
      { name := element, isExtension, isOptional, isArray := true,
        size := some (digitsValue digits).toUInt32 } := by
  obtain ⟨sized, hsized⟩ : ∃ sized, sized = element ++ (lit "[" ++ digits ++ lit "]") := ⟨_, rfl⟩
  have hlast : sized.getLast? = some 93 := by
    rw [hsized, ← List.append_assoc, List.getLast?_append_of_ne_nil _ (by decide)]
    rfl
  have hcore : ∀ c ∈ (sized ++ (if isArray then lit "[]" else [])).getLast?, c ≠ 36 ∧ c ≠ 63 := by
    intro c hc
    cases isArray with
    | true =>
      rw [if_pos rfl, List.getLast?_append_of_ne_nil _ (by decide)] at hc
      cases hc
      decide
    | false =>
      rw [if_neg Bool.false_ne_true, List.append_nil, hlast] at hc
      cases hc
      decide
  obtain ⟨hfirst, hsecond⟩ := chop_suffixes isOptional isExtension hcore
  have hthird : chop (sized ++ (if isArray then lit "[]" else [])) "[]" = (sized, isArray) := by
    cases isArray with
    | true => exact chop_append _ _
    | false =>
      rw [if_neg Bool.false_ne_true, List.append_nil]
      apply chop_of_not_suffix
      rintro ⟨front, hfront⟩
      -- a bracket pair at the end would put a bracket where the last digit is
      obtain ⟨digits', d, hdigits⟩ := (List.eq_nil_or_concat' digits).resolve_left h.nonempty
      have hleft : (front ++ lit "[]").dropLast.getLast? = some 91 := by
        rw [show front ++ lit "[]" = (front ++ [91]) ++ [93] by simp [lit], List.dropLast_concat]
        simp
      have hright : sized.dropLast.getLast? = some d := by
        rw [hsized, hdigits, show element ++ (lit "[" ++ (digits' ++ [d]) ++ lit "]") =
          ((element ++ 91 :: digits') ++ [d]) ++ [93] by simp [lit], List.dropLast_concat,
          List.getLast?_concat]
      rw [hfront, hright] at hleft
      exact (h.ne_bracket (show d ∈ digits by rw [hdigits]; simp)).1 (Option.some.inj hleft)
  rw [← hsized]
  unfold parse
  simp only [hfirst, hsecond, hthird]
  rw [hsized, fixedSize_append h]

end ABI.ResolvedNode

namespace ABI

open ResolvedNode DepthLimited

/-! ## Names read as another type -/

/-- A type name whose array part ends in two suffixes, or has a size with a leading zero. -/
def Misread (name : Str) : Prop :=
  ∃ element digits isArray isOptional isExtension, SizeDigits digits ∧
    name = element ++ (lit "[" ++ digits ++ lit "]") ++ (if isArray then lit "[]" else []) ++
      suffixes isOptional isExtension ∧ (isArray = true ∨ LeadingZero digits)

/-- The type name of a node with a size. -/
theorem typeName_sized (element : Str) {digits : Str} (h : SizeDigits digits)
    (isOptional isExtension : Bool) :
    ResolvedNode.typeName
        { name := element, isExtension, isOptional, isArray := true,
          size := some (digitsValue digits).toUInt32 } =
      element ++ (lit "[" ++ natToString (digitsValue digits) ++ lit "]") ++
        suffixes isOptional isExtension := by
  have hvalue : (digitsValue digits).toUInt32.toNat = digitsValue digits :=
    UInt32.toNat_ofNat_of_lt' h.fits
  unfold ResolvedNode.typeName suffixes
  rw [← hvalue]
  simp

/-- The digits of a size are found again in the name. -/
theorem digits_of_typeName {element digits digits' : Str} (h : ∀ c ∈ digits, c ≠ 93)
    (h' : ∀ c ∈ digits', c ≠ 93) {rest rest' : Str}
    (heq : element ++ (lit "[" ++ digits ++ lit "]") ++ rest =
      element ++ (lit "[" ++ digits' ++ lit "]") ++ rest') : digits = digits' ∧ rest = rest' := by
  have htake {digits : Str} (rest : Str) (h : ∀ c ∈ digits, c ≠ 93) :
      (digits ++ 93 :: rest).takeWhile (· ≠ 93) = digits ∧
        (digits ++ 93 :: rest).dropWhile (· ≠ 93) = 93 :: rest := by
    have hdigits : ∀ c ∈ digits, decide (c ≠ 93) = true := fun c hc => decide_eq_true (h c hc)
    rw [List.takeWhile_append_of_pos hdigits, List.dropWhile_append_of_pos hdigits,
      List.takeWhile_cons_of_neg (by simp), List.dropWhile_cons_of_neg (by simp), List.append_nil]
    exact ⟨rfl, rfl⟩
  have htail : digits ++ 93 :: rest = digits' ++ 93 :: rest' := by
    simpa [lit] using heq
  refine ⟨?_, ?_⟩
  · rw [← (htake rest h).1, htail, (htake rest' h').1]
  · have hdrop := (htake rest h).2
    rw [htail, (htake rest' h').2] at hdrop
    exact (List.cons.inj hdrop).2.symm

/-- A name with a size is canonical when nothing follows the size and its digits are how
it is written. -/
theorem canonical_sized_iff (element : Str) {digits : Str} (h : SizeDigits digits)
    (isArray isOptional isExtension : Bool) :
    Canonical (element ++ (lit "[" ++ digits ++ lit "]") ++ (if isArray then lit "[]" else []) ++
        suffixes isOptional isExtension) ↔ ¬ (isArray = true ∨ LeadingZero digits) := by
  unfold Canonical
  rw [parse_sized h, typeName_sized element h]
  have hwritten : ∀ c ∈ natToString (digitsValue digits), c ≠ 93 := by
    rintro c hc rfl
    exact absurd (digit_of_mem_natToString hc).2 (by decide)
  constructor
  · intro heq
    rw [List.append_assoc _ (if isArray then lit "[]" else [])] at heq
    obtain ⟨hdigits, hrest⟩ :=
      digits_of_typeName hwritten (fun c hc => (h.ne_bracket hc).2) heq
    rintro (rfl | hlead)
    · exact absurd (congrArg List.length hrest) (by simp [lit]; omega)
    · rw [← hdigits] at hlead
      exact not_leadingZero_natToString _ hlead
  · intro hplain
    obtain ⟨harray, hlead⟩ := not_or.mp hplain
    rw [if_neg harray, List.append_nil, natToString_digitsValue h.nonempty h.decimal hlead]

/-- **The type names that `parse` and `typeName` keep** are those that are not misread. -/
theorem canonical_iff (name : Str) : Canonical name ↔ ¬ Misread name := by
  obtain ⟨core, isArray, isOptional, isExtension, hname, hparse⟩ := parse_cases name
  constructor
  · rintro hcanonical ⟨element, digits, isArray, isOptional, isExtension, hsize, rfl, hbad⟩
    exact (canonical_sized_iff element hsize isArray isOptional isExtension).mp hcanonical hbad
  · intro hread
    cases hfixed : fixedSize core with
    | none =>
      rw [hfixed] at hparse
      unfold Canonical
      rw [hparse, hname]
      unfold ResolvedNode.typeName suffixes
      simp
    | some sized =>
      obtain ⟨element, n⟩ := sized
      obtain ⟨digits, hsize, rfl, -⟩ := eq_of_fixedSize hfixed
      rw [hname]
      refine (canonical_sized_iff element hsize isArray isOptional isExtension).mpr ?_
      exact fun hbad => hread ⟨element, digits, isArray, isOptional, isExtension, hsize, hname, hbad⟩

/-- The type name of a parsed name is read as the same type, and it is canonical. -/
theorem parse_typeName (name : Str) :
    ResolvedNode.parse (ResolvedNode.parse name).typeName = ResolvedNode.parse name := by
  by_cases hread : Misread name
  · obtain ⟨element, digits, isArray, isOptional, isExtension, hsize, rfl, -⟩ := hread
    rw [parse_sized hsize, typeName_sized element hsize]
    have hvalue := digitsValue_natToString (digitsValue digits)
    have hwritten : SizeDigits (natToString (digitsValue digits)) := by
      refine ⟨natToString_ne_nil _, fun c hc => ?_, by rw [hvalue]; exact hsize.fits⟩
      obtain ⟨hlow, hhigh⟩ := digit_of_mem_natToString hc
      exact ⟨UInt8.le_iff_toNat_le.mpr hlow, UInt8.le_iff_toNat_le.mpr hhigh⟩
    have hparse := @parse_sized element _ hwritten false isOptional isExtension
    rw [hvalue, if_neg Bool.false_ne_true, List.append_nil] at hparse
    exact hparse
  · rw [show (ResolvedNode.parse name).typeName = name from (canonical_iff name).mpr hread]

theorem canonical_typeName (name : Str) : Canonical (ResolvedNode.parse name).typeName :=
  congrArg ResolvedNode.typeName (parse_typeName name)

/-- **A name is told apart** from the other canonical names exactly if it is not misread. -/
theorem distinct_iff (name : Str) :
    (∀ other, Canonical other → ResolvedNode.parse other = ResolvedNode.parse name → other = name) ↔
      ¬ Misread name := by
  rw [← canonical_iff]
  constructor
  · intro hdistinct
    exact hdistinct _ (canonical_typeName name) (parse_typeName name)
  · intro hcanonical other hother hparse
    rw [← hother, ← hcanonical, hparse]

/-! ## How many nodes a resolution makes -/

/-- The type strings of an ABI, behind the one to resolve. -/
def typeStrings (abi : ABI) (root : Str) : List Str :=
  root :: (abi.types.map (fun e => e.type) ++
    (abi.structs.flatMap (fun e =>
      (if e.base = [] then [] else [e.base]) ++ e.fields.map (fun f => f.type)) ++
    abi.variants.flatMap (fun e => e.types)))

/-- What a type string mentions is a type string of the ABI. -/
theorem mem_typeStrings_of_mem_parts {abi : ABI} {s t : Str} (h : t ∈ abi.parts s) (root : Str) :
    t ∈ abi.typeStrings root := by
  unfold parts partsOf at h
  unfold typeStrings
  refine List.mem_cons_of_mem _ ?_
  split at h
  · rename_i typeDef htypes
    rw [List.mem_singleton.mp h]
    exact List.mem_append_left _ (List.mem_map_of_mem (List.mem_of_find?_eq_some htypes))
  · refine List.mem_append_right _ ?_
    split at h
    · rename_i entry hentry
      exact List.mem_append_left _
        (List.mem_flatMap.mpr ⟨entry, List.mem_of_find?_eq_some hentry, h⟩)
    · split at h
      · rename_i entry hentry
        exact List.mem_append_right _
          (List.mem_flatMap.mpr ⟨entry, List.mem_of_find?_eq_some hentry, h⟩)
      · cases h

/-- So is everything linked to the root. -/
theorem mem_typeStrings_of_links {abi : ABI} {root s : Str} {n : ℕ}
    (h : Links abi.Mentions root n s) : s ∈ abi.typeStrings root :=
  h.keeps (P := fun s => s ∈ abi.typeStrings root)
    (fun _ _ _ hmentions => mem_typeStrings_of_mem_parts hmentions root) List.mem_cons_self

/-- A name without suffixes is parsed into itself. -/
theorem parse_plain {name : Str} (h : ∀ c ∈ name.getLast?, c ≠ 36 ∧ c ≠ 63 ∧ c ≠ 93) :
    ResolvedNode.parse name = { name } := by
  obtain ⟨hfirst, hsecond⟩ := chop_suffixes false false (fun c hc => ⟨(h c hc).1, (h c hc).2.1⟩)
  have hthird : chop name "[]" = (name, false) :=
    chop_of_getLast (d := 93) (by decide) (fun c hc => (h c hc).2.2)
  have hsize := fixedSize_of_getLast (fun c hc => (h c hc).2.2)
  rw [show name ++ suffixes false false = name by simp [suffixes]] at hfirst
  rw [if_neg Bool.false_ne_true, List.append_nil] at hfirst hsecond
  unfold ResolvedNode.parse
  simp only [hfirst, hsecond, hthird, hsize]

/-- A struct with two fields of one type. -/
def twice (struct type : Str) : ABI where
  structs := [{ name := struct, base := [], fields := [⟨lit "a", type⟩, ⟨lit "b", type⟩] }]

/-- A misread type is made a node of for each of the fields. -/
theorem length_resolveType_twice {struct type : Str}
    (hstruct : ResolvedNode.parse struct = { name := struct })
    (htype : (ResolvedNode.parse type).name ≠ struct) (hcanonical : ¬ Canonical type) :
    ((twice struct type).resolveType struct).1.length = 3 := by
  have hne : struct ≠ type := by
    rintro rfl
    exact hcanonical (by unfold Canonical; rw [hstruct]; simp [ResolvedNode.typeName])
  have hkey : (ResolvedNode.parse struct).typeName = struct := by
    rw [hstruct]
    simp [ResolvedNode.typeName]
  have hbare {fuel : ℕ} {ctx : ResolveContext} (h : ctx.find type = none) :
      ((twice struct type).resolve (fuel + 1) type).run ctx =
        (ctx.arena.length, ctx.push (ResolvedNode.parse type)) := by
    rw [resolve_new h]
    simp [twice, getStruct, getVariant, htype.symm]
  have hfield {ctx : ResolveContext} (h : ctx.find type = none) (name : Str) :
      (resolveField (twice struct type) 255 ⟨name, type⟩).run ctx =
        ((name, ctx.arena.length), ctx.push (ResolvedNode.parse type)) := by
    show ((name, (((twice struct type).resolve (254 + 1) type).run ctx).1),
      (((twice struct type).resolve (254 + 1) type).run ctx).2) = _
    rw [hbare h]
  obtain ⟨first, hfirst⟩ : ∃ first, first = ({} : ResolveContext).push (ResolvedNode.parse struct) :=
    ⟨_, rfl⟩
  obtain ⟨second, hsecond⟩ : ∃ second, second = first.push (ResolvedNode.parse type) := ⟨_, rfl⟩
  have hfindFirst : first.find type = none := by
    rw [hfirst]
    simp [ResolveContext.push, ResolveContext.find, hkey, hne]
  -- The node pushed for the first field is stored under another name, so the memo misses.
  have hfindSecond : second.find type = none := by
    have hother : (ResolvedNode.parse type).typeName ≠ type := hcanonical
    rw [hsecond, hfirst]
    simp [ResolveContext.push, ResolveContext.find, hkey, hne, hother]
  have hfields : ([⟨lit "a", type⟩, ⟨lit "b", type⟩].mapM
      (resolveField (twice struct type) 255)).run first =
        ([(lit "a", first.arena.length), (lit "b", second.arena.length)],
          second.push (ResolvedNode.parse type)) := by
    show (let a := (resolveField (twice struct type) 255 ⟨lit "a", type⟩).run first
      let b := (resolveField (twice struct type) 255 ⟨lit "b", type⟩).run a.2
      ([a.1, b.1], b.2)) = _
    simp only
    rw [hfield hfindFirst, ← hsecond, hfield hfindSecond]
  have hentry : (twice struct type).getStruct (ResolvedNode.parse struct).name =
      some { name := struct, base := [], fields := [⟨lit "a", type⟩, ⟨lit "b", type⟩] } := by
    simp [twice, getStruct, hstruct]
  have hrun : (((twice struct type).resolve (255 + 1) struct).run {}).2.arena.length = 3 := by
    rw [resolve_new rfl]
    simp only [show (twice struct type).types = [] from rfl, List.find?_nil, hentry]
    rw [← hfirst]
    show ((([⟨lit "a", type⟩, ⟨lit "b", type⟩].mapM
      (resolveField (twice struct type) 255)).run first).2.arena.modify _ _).length = 3
    rw [hfields, List.length_modify, hsecond, hfirst]
    rfl
  exact hrun

/-- A struct whose name is read as it is written, and is not the name of a type. -/
theorem exists_plain_struct (type : Str) : ∃ struct, ResolvedNode.parse struct = { name := struct } ∧
    (ResolvedNode.parse type).name ≠ struct := by
  refine ⟨(ResolvedNode.parse type).name ++ lit "r", parse_plain ?_, ?_⟩
  · intro c hc
    rw [List.getLast?_append_of_ne_nil _ (by decide)] at hc
    cases hc
    decide
  · intro heq
    exact absurd (congrArg List.length heq) (by simp [lit])

/-- **Without misread type strings** a resolution makes at most one node for each type string
of the ABI and the root. -/
theorem resolveType_arena_le {abi : ABI} {root : Str}
    (h : ∀ t ∈ abi.typeStrings root, ¬ Misread t) :
    (abi.resolveType root).1.length ≤ (abi.typeStrings root).dedup.length := by
  have hcanonical : abi.CanonicalWithin maxResolveDepth root := fun n _ s hs =>
    (canonical_iff s).mpr (h s (mem_typeStrings_of_links hs))
  obtain ⟨hreaches, -⟩ := resolve_meets maxResolveDepth hcanonical {} [] knows_empty
  have hlength : (abi.resolveType root).1.length = (meet abi.parts maxResolveDepth [] root).length :=
    hreaches.knows.length
  rw [hlength]
  exact length_meet_le (fun n s hs => mem_typeStrings_of_links hs)

/-- **`parse` and `typeName` are faithful, and the memo is effective, for the type names that
are not misread and for no others**: a name comes back as it was written; it is not read as
another type; and where it is the only name that may be misread, a resolution makes at most
one node for each type string. -/
theorem typeName_parse_iff (name : Str) :
    ((ResolvedNode.parse name).typeName = name ↔ ¬ Misread name) ∧
      ((∀ other, (ResolvedNode.parse other).typeName = other →
        ResolvedNode.parse other = ResolvedNode.parse name → other = name) ↔ ¬ Misread name) ∧
      ((∀ (abi : ABI) (root : Str), (∀ t ∈ abi.typeStrings root, t ≠ name → ¬ Misread t) →
        (abi.resolveType root).1.length ≤ (abi.typeStrings root).dedup.length) ↔
          ¬ Misread name) := by
  refine ⟨canonical_iff name, distinct_iff name, ?_, ?_⟩
  · intro hbound hread
    -- A struct with two fields of the misread type makes three nodes for two strings.
    obtain ⟨struct, hstruct, htype⟩ := exists_plain_struct name
    have hcanonical : ¬ Canonical name := fun h => (canonical_iff name).mp h hread
    have hplain : Canonical struct := by
      unfold Canonical
      rw [hstruct]
      simp [ResolvedNode.typeName]
    have hstrings : (twice struct name).typeStrings struct = [struct, name, name] := rfl
    have hle := hbound (twice struct name) struct (fun t ht hne => by
      rw [hstrings] at ht
      rcases List.mem_cons.mp ht with rfl | ht
      · exact (canonical_iff t).mp hplain
      · exact absurd (by simpa using ht) hne)
    rw [length_resolveType_twice hstruct htype hcanonical, hstrings] at hle
    have hdedup : [struct, name, name].dedup.length ≤ 2 := by
      have hsubset : [struct, name, name].dedup ⊆ [struct, name] := by
        intro t ht
        simpa using List.mem_dedup.mp ht
      exact ((List.nodup_dedup _).subperm hsubset).length_le
    omega
  · intro hread abi root hothers
    refine resolveType_arena_le (fun t ht => ?_)
    by_cases heq : t = name
    · rwa [heq]
    · exact hothers t ht heq

/-- A type with two array suffixes and one whose size starts with a zero are read as another
type, and a struct with two fields of it takes three nodes for two type strings. -/
theorem misread_names :
    (ResolvedNode.parse (lit "T[2][]")).typeName = lit "T[2]" ∧
      (ResolvedNode.parse (lit "T[02]")).typeName = lit "T[2]" ∧
      ((twice (lit "S") (lit "T[2][]")).typeStrings (lit "S")).dedup.length = 2 ∧
      ((twice (lit "S") (lit "T[2][]")).resolveType (lit "S")).1.length = 3 := by
  have hread : ¬ Canonical (lit "T[2][]") :=
    show (ResolvedNode.parse (lit "T[2][]")).typeName ≠ lit "T[2][]" by decide
  refine ⟨by decide, by decide, by decide, ?_⟩
  exact length_resolveType_twice (by decide) (by decide) hread

end ABI

end Dwarfkit
