/-
# The text of a name

A name's text drops the dots at its end, and its thirteenth character has four
bits only.  So a text over the alphabet is kept by `Name::from` and `toString`
exactly when it ends in no dot and its thirteenth character, if it has one, is one
of the first sixteen symbols.

* `nameChars_stringToName` : thirteen characters are unpacked as they were packed;
* `toString_ofString_iff` : which texts are kept.
-/
import Dwarfkit.Antelope.Chain.Name

namespace Dwarfkit

/-! ## The alphabet -/

/-- `Name::pattern`, character by character. -/
def IsNameChar (ch : UInt8) : Prop := (97 ≤ ch ∧ ch ≤ 122) ∨ (49 ≤ ch ∧ ch ≤ 53) ∨ ch = 46

instance : DecidablePred IsNameChar := fun _ => inferInstanceAs (Decidable (_ ∨ _ ∨ _))

theorem charToSymbol_lt (ch : UInt8) : (charToSymbol ch).toNat < 32 :=
  Wire.forall_byte (P := fun ch => (charToSymbol ch).toNat < 32) (by decide +kernel) ch

/-- The character of a character's symbol is the character. -/
theorem symbolToChar_charToSymbol {ch : UInt8} (hch : IsNameChar ch) :
    symbolToChar (charToSymbol ch) = ch :=
  Wire.forall_byte (P := fun ch => IsNameChar ch → symbolToChar (charToSymbol ch) = ch)
    (by decide +kernel) ch hch

/-! ## One character -/

/-- A character above the thirteenth is packed as a group of five bits. -/
theorem putSymbol_group (ch : UInt8) (st : UInt64) {low : ℕ} (hlow : low + 5 ≤ 64) (h1 : 1 ≤ low)
    (hst : st.toNat % 2 ^ (low + 5) = 0) :
    (putSymbol (st, low + 5) ch).2 = low ∧
    (putSymbol (st, low + 5) ch).1.toNat = st.toNat + (charToSymbol ch).toNat * 2 ^ low := by
  obtain ⟨h2, hvalue⟩ := putBits_spec (charToSymbol ch) 5 (low + 5) st (by omega) hlow hst
  have hsub : low + 5 - 5 = low := by omega
  rw [putSymbol, if_neg (by show ¬ low + 5 < 6; omega)]
  refine ⟨by rw [h2, hsub], ?_⟩
  rw [hvalue, hsub, Nat.mod_eq_of_lt (show (charToSymbol ch).toNat < 2 ^ 5 from charToSymbol_lt ch)]

/-- The thirteenth character keeps four bits of its symbol. -/
theorem putSymbol_last (ch : UInt8) (st : UInt64) (hst : st.toNat % 2 ^ 4 = 0) :
    (putSymbol (st, 4) ch).1.toNat = st.toNat + (charToSymbol ch).toNat % 16 := by
  have hlt := charToSymbol_lt ch
  obtain ⟨-, hvalue⟩ := putBits_spec (charToSymbol ch) 4 4 st le_rfl (by norm_num) hst
  rw [putSymbol, if_pos (by norm_num), putBits_double _ (by omega) 4 st (by norm_num), hvalue]
  norm_num

/-- A group of five bits is unpacked as one character. -/
theorem nameChars_group (value : UInt64) (n : ℕ) {low : ℕ} (hlow : low + 5 ≤ 64) {c : UInt64}
    (hc : c.toNat = value.toNat / 2 ^ low % 32) :
    nameChars value (n + 1) (low + 5) = symbolToChar c :: nameChars value n low := by
  obtain ⟨h2, h1⟩ := takeBits_spec value 5 (low + 5) 0 (by omega) hlow (by norm_num)
  have hsub : low + 5 - 5 = low := by omega
  have hbits : (takeBits value 5 (0, low + 5)).1 = c := by
    rw [← UInt64.toNat_inj, h1, hc, hsub]
    norm_num
  rw [hsub] at h2
  rw [nameChars]
  simp only [hbits, h2]

/-- The last four bits are unpacked as the thirteenth character. -/
theorem nameChars_last (value : UInt64) {c : UInt64} (hc : c.toNat = value.toNat % 16) :
    nameChars value 1 4 = [symbolToChar c] := by
  obtain ⟨-, h1⟩ := takeBits_spec value 4 4 0 le_rfl (by norm_num) (by norm_num)
  have hbits : (takeBits value 4 (0, 4)).1 = c := by
    rw [← UInt64.toNat_inj, h1, hc]
    norm_num
  rw [nameChars, takeBits_short]
  simp only [hbits]
  rfl

/-! ## Thirteen characters -/

/-- What is packed below `left` does not touch the bits above, and the characters
of these bits are the ones packed.  By induction on the characters that follow the
first. -/
theorem nameChars_foldl (n : ℕ) (hn : n ≤ 12) (st : UInt64) (text : Str)
    (hlen : text.length = n + 1) (halpha : ∀ ch ∈ text, IsNameChar ch)
    (hlast : ∀ ch, text[n]? = some ch → charToSymbol ch < 16)
    (hst : st.toNat % 2 ^ (5 * n + 4) = 0) :
    (text.foldl putSymbol (st, 5 * n + 4)).1.toNat / 2 ^ (5 * n + 4) =
        st.toNat / 2 ^ (5 * n + 4) ∧
      nameChars (text.foldl putSymbol (st, 5 * n + 4)).1 (n + 1) (5 * n + 4) = text := by
  induction n generalizing st text with
  | zero =>
    obtain ⟨ch, rfl⟩ := List.length_eq_one_iff.mp hlen
    have hsmall : (charToSymbol ch).toNat < 16 := by
      have := hlast ch rfl
      rwa [UInt64.lt_iff_toNat_lt] at this
    have hput := putSymbol_last ch st hst
    rw [Nat.mod_eq_of_lt hsmall] at hput
    rw [List.foldl_cons, List.foldl_nil]
    norm_num at hst ⊢
    constructor
    · rw [hput]
      omega
    · rw [nameChars_last _ (show (charToSymbol ch).toNat = _ by rw [hput]; omega),
        symbolToChar_charToSymbol (halpha ch (List.mem_singleton_self ch))]
  | succ n ih =>
    obtain ⟨ch, text, rfl⟩ := List.exists_cons_of_length_eq_add_one hlen
    have hsym := charToSymbol_lt ch
    have hleft : 5 * (n + 1) + 4 = 5 * n + 4 + 5 := by ring
    rw [hleft] at hst ⊢
    obtain ⟨h2, h1⟩ := putSymbol_group ch st (by omega) (by omega) hst
    set next := putSymbol (st, 5 * n + 4 + 5) ch with hnext
    -- the group goes in above the bits that are still free
    obtain ⟨q, hq⟩ : ∃ q, st.toNat = 2 ^ (5 * n + 4) * (32 * q) := by
      obtain ⟨q, hq⟩ := Nat.dvd_of_mod_eq_zero hst
      exact ⟨q, by rw [hq, pow_add]; ring⟩
    have hpos : 0 < 2 ^ (5 * n + 4) := Nat.two_pow_pos _
    have hnextNat : next.1.toNat = 2 ^ (5 * n + 4) * (32 * q + (charToSymbol ch).toNat) := by
      rw [h1, hq]
      ring
    have hst' : next.1.toNat % 2 ^ (5 * n + 4) = 0 := by
      rw [hnextNat, Nat.mul_mod_right]
    obtain ⟨habove, hchars⟩ := ih (by omega) next.1 text (by simpa using hlen)
      (fun c hc => halpha c (List.mem_cons_of_mem _ hc)) (fun c hc => hlast c (by simpa using hc)) hst'
    have hpair : next = (next.1, 5 * n + 4) := by
      rw [← h2]
    rw [List.foldl_cons, ← hnext, hpair]
    set value := (text.foldl putSymbol (next.1, 5 * n + 4)).1
    have hgroup : value.toNat / 2 ^ (5 * n + 4) = 32 * q + (charToSymbol ch).toNat := by
      rw [habove, hnextNat, Nat.mul_div_cancel_left _ hpos]
    constructor
    · rw [pow_add, ← Nat.div_div_eq_div_mul, ← Nat.div_div_eq_div_mul, hgroup, hq,
        Nat.mul_div_cancel_left _ hpos]
      omega
    · have hread : nameChars value (n + 1 + 1) (5 * n + 4 + 5) =
          symbolToChar (charToSymbol ch) :: nameChars value (n + 1) (5 * n + 4) :=
        nameChars_group value (n + 1) (by omega) (by rw [hgroup]; omega)
      rw [hread, hchars, symbolToChar_charToSymbol (halpha ch List.mem_cons_self)]

/-- **Thirteen characters are unpacked as they were packed.** -/
theorem nameChars_stringToName {text : Str} (hlen : text.length = 13)
    (halpha : ∀ ch ∈ text, IsNameChar ch)
    (hlast : ∀ ch, text[12]? = some ch → charToSymbol ch < 16) :
    nameChars (stringToName text) 13 64 = text :=
  (nameChars_foldl 12 le_rfl 0 text hlen halpha hlast rfl).2

/-- Every value has thirteen characters, and the last one is of four bits. -/
theorem nameChars_thirteenth (value : UInt64) (n : ℕ) (hn : n ≤ 12) {ch : UInt8}
    (h : (nameChars value (n + 1) (5 * n + 4))[n]? = some ch) : charToSymbol ch < 16 := by
  induction n with
  | zero =>
    set c : UInt64 := UInt64.ofNat (value.toNat % 16) with hc
    have hcNat : c.toNat = value.toNat % 16 := by
      rw [hc, UInt64.toNat_ofNat', Nat.mod_eq_of_lt (by omega)]
    have hchars := nameChars_last value hcNat
    norm_num at h
    rw [hchars] at h
    obtain rfl : symbolToChar c = ch := by simpa using h
    rw [charToSymbol_symbolToChar c (by omega), UInt64.lt_iff_toNat_lt, hcNat]
    exact Nat.mod_lt _ (by norm_num)
  | succ n ih =>
    set c : UInt64 := UInt64.ofNat (value.toNat / 2 ^ (5 * n + 4) % 32) with hc
    have hcNat : c.toNat = value.toNat / 2 ^ (5 * n + 4) % 32 := by
      rw [hc, UInt64.toNat_ofNat', Nat.mod_eq_of_lt (by omega)]
    have hleft : 5 * (n + 1) + 4 = 5 * n + 4 + 5 := by ring
    rw [hleft, nameChars_group value (n + 1) (by omega) hcNat, List.getElem?_cons_succ] at h
    exact ih (by omega) h

namespace Name

/-! ## Which texts are kept -/

/-- No dot at the end, and a thirteenth character of the first sixteen symbols. -/
def Canonical (s : Str) : Prop :=
  s.getLast? ≠ some 46 ∧ ∀ ch ∈ s[12]?, charToSymbol ch < 16

instance (s : Str) : Decidable (Canonical s) :=
  inferInstanceAs (Decidable (_ ∧ _))

/-- A text filled up with dots to thirteen characters. -/
def padded (s : Str) : Str := s ++ List.replicate (13 - s.length) 46

/-- The dots do not count for the value. -/
theorem stringToName_padded (s : Str) : stringToName (padded s) = stringToName s := by
  rw [stringToName, padded, List.foldl_append,
    foldl_putSymbol_dots _ (fun ch hch => List.eq_of_mem_replicate hch), stringToName]

theorem rdropWhile_padded (s : Str) :
    (padded s).rdropWhile (· = 46) = s.rdropWhile (· = 46) := by
  rw [padded, List.rdropWhile, List.reverse_append, List.reverse_replicate,
    List.dropWhile_append_of_pos, List.rdropWhile]
  intro ch hch
  simpa using List.eq_of_mem_replicate hch

/-- The text of a name ends in no dot. -/
theorem getLast?_toString (name : Name) : name.toString.getLast? ≠ some 46 := by
  intro h
  have hne : name.toString ≠ [] := by
    rintro hnil
    rw [hnil] at h
    cases h
  have hlast : name.toString.getLast hne = 46 := by
    rw [List.getLast?_eq_some_getLast hne] at h
    exact Option.some.inj h
  have hkeep := List.rdropWhile_last_not (fun ch : UInt8 => decide (ch = 46))
    (nameChars name.value 13 64) hne
  exact hkeep (decide_eq_true hlast)

/-- The thirteenth character of a name's text is one of four bits. -/
theorem toString_thirteenth (name : Name) {ch : UInt8} (h : name.toString[12]? = some ch) :
    charToSymbol ch < 16 := by
  have hprefix : name.toString <+: nameChars name.value 13 64 := List.rdropWhile_prefix _ _
  have hchars : (nameChars name.value 13 64)[12]? = some ch := by
    obtain ⟨dots, hdots⟩ := hprefix
    rw [← hdots]
    exact List.getElem?_append_left (List.getElem?_eq_some_iff.mp h).1 ▸ h
  exact nameChars_thirteenth name.value 12 le_rfl hchars

/-- **A text over the alphabet is kept exactly when it is canonical.** -/
theorem toString_ofString_iff {s : Str} (hlen : s.length ≤ 13) (halpha : ∀ ch ∈ s, IsNameChar ch) :
    (ofString s).toString = s ↔ Canonical s := by
  constructor
  · intro h
    constructor
    · rw [← h]
      exact getLast?_toString _
    · intro ch hch
      rw [← h] at hch
      exact toString_thirteenth _ hch
  · rintro ⟨hdot, hlast⟩
    have hpad : ∀ ch ∈ padded s, IsNameChar ch := by
      intro ch hch
      rcases List.mem_append.mp hch with hch | hch
      · exact halpha ch hch
      · rw [List.eq_of_mem_replicate hch]
        decide
    have hlast' : ∀ ch, (padded s)[12]? = some ch → charToSymbol ch < 16 := by
      intro ch hch
      rcases Nat.lt_or_ge 12 s.length with hlt | hge
      · apply hlast
        rwa [padded, List.getElem?_append_left hlt] at hch
      · -- the thirteenth character is one of the dots
        rw [padded, List.getElem?_append_right hge] at hch
        rw [List.eq_of_mem_replicate (List.mem_of_getElem? hch)]
        decide
    have hfull : (padded s).length = 13 := by
      rw [padded, List.length_append, List.length_replicate]
      omega
    show (nameChars (stringToName s) 13 64).rdropWhile (· = 46) = s
    rw [← stringToName_padded, nameChars_stringToName hfull hpad hlast', rdropWhile_padded,
      List.rdropWhile_eq_self_iff]
    intro hne hdot'
    apply hdot
    rw [List.getLast?_eq_some_getLast hne]
    simpa using hdot'

/-! ## The codec -/

/-- **Names and their texts.**  Every value is read back from its text, so no two
values have one text; and a text of at most thirteen characters over the alphabet is
the text of the name it is read as exactly when it is canonical. -/
theorem name_codec :
    (∀ value : UInt64, ofString (Name.mk value).toString = ⟨value⟩) ∧
    Function.Injective (fun value : UInt64 => (Name.mk value).toString) ∧
    ∀ s : Str, s.length ≤ 13 → (∀ ch ∈ s, IsNameChar ch) →
      ((ofString s).toString = s ↔ Canonical s) := by
  refine ⟨fun value => ofString_toString ⟨value⟩, ?_, fun s hlen halpha => ?_⟩
  · intro v w h
    have := toString_injective h
    exact congrArg Name.value this
  · exact toString_ofString_iff hlen halpha

theorem name_codec_account :
    (lit "eosio.token").length ≤ 13 ∧ (∀ ch ∈ lit "eosio.token", IsNameChar ch) ∧
      ((ofString (lit "eosio.token")).toString = lit "eosio.token" ↔
        Canonical (lit "eosio.token")) :=
  have hlen : (lit "eosio.token").length ≤ 13 := by decide +kernel
  have halpha : ∀ ch ∈ lit "eosio.token", IsNameChar ch := by decide +kernel
  ⟨hlen, halpha, name_codec.2.2 _ hlen halpha⟩

end Name

end Dwarfkit
