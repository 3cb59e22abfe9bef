/-
# URL-safe base64

`base64u::encode` and `base64u::decode` of `signing_request/base64u.cpp`: no padding,
and a decoder that takes both alphabets and fails on nothing.

* `decode_encode` : what was encoded is decoded;
* `decode_stripPadding` : a text that `base64Decode` takes is decoded as the same bytes;
* `base64_roundTrips` : the round trips of both codecs.
-/
import Dwarfkit.Core.Base64

namespace Dwarfkit

namespace Base64u

open Repacking

/-! ## Encoding -/

def baseCharset : Str := "ABCDEFGHIJKLMNOPQRSTUVWXYZabcdefghijklmnopqrstuvwxyz0123456789"

/-- The 64 characters of an alphabet. -/
def charset (urlSafe : Bool) : Str := baseCharset ++ if urlSafe then lit "-_" else lit "+/"

/-- The character of a six-bit number. -/
def charOf (urlSafe : Bool) (i : ℕ) : UInt8 := (charset urlSafe).getD i 0

/-- Three bytes are four characters; what is left over is two or three. -/
def encode (data : Bytes) (urlSafe : Bool := true) : Str :=
  match data with
  | a :: b :: c :: rest =>
    let chunk := (a.toNat <<< 16) ||| (b.toNat <<< 8) ||| c.toNat
    charOf urlSafe ((chunk &&& 16515072) >>> 18) :: charOf urlSafe ((chunk &&& 258048) >>> 12) ::
      charOf urlSafe ((chunk &&& 4032) >>> 6) :: charOf urlSafe (chunk &&& 63) ::
      encode rest urlSafe
  | [a, b] =>
    let chunk := (a.toNat <<< 8) ||| b.toNat
    [charOf urlSafe ((chunk &&& 64512) >>> 10), charOf urlSafe ((chunk &&& 1008) >>> 4),
      charOf urlSafe ((chunk &&& 15) <<< 2)]
  | [a] => [charOf urlSafe ((a.toNat &&& 252) >>> 2), charOf urlSafe ((a.toNat &&& 3) <<< 4)]
  | [] => []

/-! ## Decoding -/

/-- The number of a character, in either alphabet; zero for any other. -/
def lookup (c : UInt8) : ℕ :=
  if c = 43 ∨ c = 45 then 62
  else if c = 47 ∨ c = 95 then 63
  else (baseCharset.findIdx? (fun b => b = c)).getD 0

/-- The three bytes of four numbers. -/
def group (a b c d : ℕ) : Bytes :=
  [((a <<< 2) ||| (b >>> 4)).toUInt8, (((b &&& 15) <<< 4) ||| (c >>> 2)).toUInt8,
    (((c &&& 3) <<< 6) ||| (d &&& 63)).toUInt8]

/-- The bytes of an input, four characters at a time; missing ones count as zero. -/
def groups : Str → Bytes
  | a :: b :: c :: d :: rest => group (lookup a) (lookup b) (lookup c) (lookup d) ++ groups rest
  | [a, b, c] => group (lookup a) (lookup b) (lookup c) 0
  | [a, b] => group (lookup a) (lookup b) 0 0
  | [a] => group (lookup a) 0 0 0
  | [] => []

/-- `decode`: as many bytes as the input has room for. -/
def decode (input : Str) : Bytes := (groups input).take (input.length * 3 / 4)

/-! ## The alphabets -/

theorem baseCharset_eq : baseCharset = lettersDigits.map Nat.toUInt8 := by rfl

theorem length_baseCharset : baseCharset.length = 62 := by
  rw [baseCharset_eq, List.length_map]
  rfl

/-- The standard alphabet is that of `base64Encode`. -/
theorem charset_false : charset false = base64Alphabet := by
  rw [charset, baseCharset_eq, base64Alphabet_eq, List.map_append]
  rfl

theorem length_charset (urlSafe : Bool) : (charset urlSafe).length = 64 := by
  rw [charset, List.length_append, length_baseCharset]
  cases urlSafe
  · rfl
  · rfl

/-- The last two characters of either alphabet are no letters or digits. -/
theorem notMem_baseCharset : ∀ c ∈ ([43, 45, 47, 95] : Str), c ∉ baseCharset := by
  rw [baseCharset_eq]
  simp only [List.forall_mem_cons, List.not_mem_nil, IsEmpty.forall_iff, implies_true, and_true]
  refine ⟨?_, ?_, ?_, ?_⟩
  · decide
  · decide
  · decide
  · decide

theorem charOf_of_lt (urlSafe : Bool) {i : ℕ} (h : i < baseCharset.length) :
    charOf urlSafe i = baseCharset[i] := by
  rw [charOf, charset, List.getD_append _ _ _ _ h, List.getD_eq_getElem _ _ h]

theorem charOf_62 (urlSafe : Bool) : charOf urlSafe 62 = if urlSafe then 45 else 43 := by
  rw [charOf, charset, List.getD_append_right _ _ _ _ length_baseCharset.le, length_baseCharset]
  cases urlSafe
  · rfl
  · rfl

theorem charOf_63 (urlSafe : Bool) : charOf urlSafe 63 = if urlSafe then 95 else 47 := by
  rw [charOf, charset, List.getD_append_right _ _ _ _ (by rw [length_baseCharset]; decide),
    length_baseCharset]
  cases urlSafe
  · rfl
  · rfl

/-- A letter or digit has its place as its number. -/
theorem lookup_of_mem {c : UInt8} (h : c ∈ baseCharset) : lookup c = baseCharset.idxOf c := by
  have hne : ∀ d ∈ ([43, 45, 47, 95] : Str), c ≠ d := by
    rintro d hd rfl
    exact notMem_baseCharset c hd h
  have hfind : baseCharset.findIdx? (fun b => b = c) = some (baseCharset.idxOf c) := by
    rw [List.findIdx?_eq_some_of_exists ⟨c, h, by simp⟩, List.idxOf]
    congr 2
  rw [lookup, if_neg (by simp [hne]), if_neg (by simp [hne]), hfind, Option.getD_some]

theorem lookup_charOf (urlSafe : Bool) (i : ℕ) (h : i < 64) : lookup (charOf urlSafe i) = i := by
  have hlen := length_baseCharset
  rcases Nat.lt_or_ge i 62 with hi | hi
  · have hnodup : baseCharset.Nodup := by
      have hall := nodup_base64Alphabet
      rw [← charset_false] at hall
      exact hall.of_append_left
    have hbase : i < baseCharset.length := hlen.symm ▸ hi
    rw [charOf_of_lt urlSafe hbase, lookup_of_mem (List.getElem_mem hbase), hnodup.idxOf_getElem]
  · obtain rfl | rfl : i = 62 ∨ i = 63 := by omega
    · rw [charOf_62]
      cases urlSafe
      · rfl
      · rfl
    · rw [charOf_63]
      cases urlSafe
      · rfl
      · rfl

theorem lookup_lt (c : UInt8) : lookup c < 64 := by
  unfold lookup
  split
  · decide
  · split
    · decide
    · cases hfind : baseCharset.findIdx? (fun b => b = c) with
      | none => decide
      | some i =>
        have hlt : i < baseCharset.length := (List.findIdx?_eq_some_iff_getElem.mp hfind).1
        rw [length_baseCharset] at hlt
        exact Nat.lt_of_lt_of_le hlt (by decide)

/-- A character of the standard alphabet has the number `base64Decode` gives it. -/
theorem lookup_eq_sixBits {c : UInt8} (h : c ∈ base64Alphabet) : lookup c = sixBits c := by
  have hchar : charOf false (sixBits c) = c := by
    rw [charOf, charset_false]
    have hback := base64Char_sixBits h
    rwa [base64Char_eq, Nat.mod_eq_of_lt (sixBits_lt c)] at hback
  have hlookup := lookup_charOf false (sixBits c) (sixBits_lt c)
  rwa [hchar] at hlookup

/-- The character of the other alphabet. -/
def translateChar (urlSafe : Bool) (c : UInt8) : UInt8 :=
  if urlSafe then
    if c = 43 then 45 else if c = 47 then 95 else c
  else
    if c = 45 then 43 else if c = 95 then 47 else c

/-- A text in the alphabet that is named. -/
def translate (urlSafe : Bool) (text : Str) : Str := text.map (translateChar urlSafe)

theorem lookup_translateChar (urlSafe : Bool) (c : UInt8) :
    lookup (translateChar urlSafe c) = lookup c := by
  have h62 : ∀ d, d = 43 ∨ d = 45 → lookup d = 62 := fun d hd => if_pos hd
  have h63 : ∀ d, d = 47 ∨ d = 95 → lookup d = 63 := by
    rintro d (rfl | rfl)
    · rfl
    · rfl
  unfold translateChar
  split_ifs with _ h43 h47 h45 h95
  · rw [h62 c (.inl h43), h62 45 (.inr rfl)]
  · rw [h63 c (.inl h47), h63 95 (.inr rfl)]
  · rfl
  · rw [h62 c (.inr h45), h62 43 (.inl rfl)]
  · rw [h63 c (.inr h95), h63 47 (.inl rfl)]
  · rfl

theorem translateChar_charOf (urlSafe : Bool) {i : ℕ} (h : i < 64) :
    translateChar urlSafe (charOf (!urlSafe) i) = charOf urlSafe i := by
  rcases Nat.lt_or_ge i 62 with hi | hi
  · have hbase : i < baseCharset.length := length_baseCharset.symm ▸ hi
    have hne : ∀ d ∈ ([43, 45, 47, 95] : Str), baseCharset[i] ≠ d := by
      rintro d hd heq
      exact notMem_baseCharset d hd (heq ▸ List.getElem_mem hbase)
    rw [charOf_of_lt _ hbase, charOf_of_lt _ hbase]
    simp [translateChar, hne]
  · obtain rfl | rfl : i = 62 ∨ i = 63 := by omega
    · rw [charOf_62, charOf_62]
      cases urlSafe
      · rfl
      · rfl
    · rw [charOf_63, charOf_63]
      cases urlSafe
      · rfl
      · rfl

/-! ## Encoded texts -/

/-- A six-bit part of a number. -/
theorem part (x k m : ℕ) (hm : m >>> k = 2 ^ 6 - 1) : (x &&& m) >>> k = x / 2 ^ k % 64 := by
  rw [Nat.shiftRight_and_distrib, hm, Nat.and_two_pow_sub_one_eq_mod, Nat.shiftRight_eq_div_pow]

/-- **An encoded text is the characters of the six-bit numbers.** -/
theorem encode_eq (data : Bytes) (urlSafe : Bool) :
    encode data urlSafe = (sextets data).map (charOf urlSafe) := by
  induction data using encode.induct with
  | case1 a b c rest ih =>
    obtain ⟨h0, h1, h2, h3⟩ := chunk_three a b c
    have hlast : ∀ x, x &&& 63 = x % 64 := fun x => Nat.and_two_pow_sub_one_eq_mod x 6
    rw [encode]
    simp only [part _ 18 16515072 rfl, part _ 12 258048 rfl, part _ 6 4032 rfl, hlast, h0, h1, h2,
      h3, ih]
    rfl
  | case2 a b =>
    have ha := a.toNat_lt
    have hb := b.toNat_lt
    have hlow : ∀ x, x &&& 15 = x % 16 := fun x => Nat.and_two_pow_sub_one_eq_mod x 4
    have h0 : (a.toNat * 2 ^ 8 + b.toNat) / 2 ^ 10 % 64 = a.toNat / 4 := by omega
    have h1 : (a.toNat * 2 ^ 8 + b.toNat) / 2 ^ 4 % 64 = a.toNat % 4 * 16 + b.toNat / 16 := by
      omega
    have h2 : ((a.toNat * 2 ^ 8 + b.toNat) % 16) <<< 2 = b.toNat % 16 * 4 := by
      rw [Nat.shiftLeft_eq]
      omega
    rw [encode, or_low _ _ 8 (by omega), part _ 10 64512 rfl, part _ 4 1008 rfl, hlow, h0, h1, h2]
    rfl
  | case3 a =>
    have ha := a.toNat_lt
    have hlow : ∀ x, x &&& 3 = x % 4 := fun x => Nat.and_two_pow_sub_one_eq_mod x 2
    have h0 : a.toNat / 2 ^ 2 % 64 = a.toNat / 4 := by omega
    rw [encode, part _ 2 252 rfl, hlow, h0, Nat.shiftLeft_eq]
    rfl
  | case4 => rfl

/-- Every character of an encoded text is one of the alphabet. -/
theorem mem_charset_of_mem_encode {data : Bytes} {urlSafe : Bool} {c : UInt8}
    (h : c ∈ encode data urlSafe) : c ∈ charset urlSafe := by
  rw [encode_eq] at h
  obtain ⟨n, hn, rfl⟩ := List.mem_map.mp h
  have hlt : n < (charset urlSafe).length := by
    rw [length_charset]
    exact sextets_lt data n hn
  rw [charOf, List.getD_eq_getElem _ _ hlt]
  exact List.getElem_mem hlt

/-- The two encodings are translations of each other. -/
theorem translate_encode (data : Bytes) (urlSafe : Bool) :
    translate urlSafe (encode data (!urlSafe)) = encode data urlSafe := by
  rw [translate, encode_eq, encode_eq, List.map_map]
  exact List.map_congr_left (fun n hn => translateChar_charOf urlSafe (sextets_lt data n hn))

/-! ## Decoded texts -/

/-- The bytes of four six-bit numbers, by arithmetic. -/
theorem map_toNat_group (p q r s : ℕ) (hp : p < 64) (hq : q < 64) (hr : r < 64) (hs : s < 64) :
    (group p q r s).map UInt8.toNat = [p * 4 + q / 16, q % 16 * 16 + r / 4, r % 4 * 64 + s] := by
  have hlow : ∀ x k, x &&& 2 ^ k - 1 = x % 2 ^ k := Nat.and_two_pow_sub_one_eq_mod
  have h15 := hlow q 4
  have h3 := hlow r 2
  have h63 := hlow s 6
  norm_num at h15 h3 h63
  have hbyte : ∀ n, n < 256 → n.toUInt8.toNat = n := fun n hn => UInt8.toNat_ofNat_of_lt' hn
  unfold group
  rw [h15, h3, h63, Nat.shiftRight_eq_div_pow, Nat.shiftRight_eq_div_pow,
    or_low _ _ 2 (by omega), or_low _ _ 4 (by omega), or_low _ _ 6 (by omega), List.map_cons,
    List.map_cons, List.map_cons, List.map_nil, hbyte _ (by omega), hbyte _ (by omega),
    hbyte _ (by omega), Nat.mod_eq_of_lt hs]
  norm_num

/-- A group of four characters comes in front of the rest. -/
theorem decode_cons (a b c d : UInt8) (rest : Str) :
    decode (a :: b :: c :: d :: rest) =
      group (lookup a) (lookup b) (lookup c) (lookup d) ++ decode rest := by
  have hroom : (a :: b :: c :: d :: rest).length * 3 / 4 = rest.length * 3 / 4 + 3 := by
    simp only [List.length_cons]
    omega
  rw [decode, hroom, groups]
  rfl

/-- **Every text is decoded as the bytes that carry the bits of its characters.** -/
theorem carries_decode (input : Str) :
    ∃ left, Carries 6 8 (input.map lookup) ((decode input).map UInt8.toNat)
      (unusedBits input.length) left := by
  induction input using groups.induct with
  | case1 a b c d rest ih =>
    obtain ⟨left, ih⟩ := ih
    have ha := lookup_lt a
    have hb := lookup_lt b
    have hc := lookup_lt c
    have hd := lookup_lt d
    -- Four characters are three bytes exactly; a shorter group at the end leaves bits over.
    have hblock : Carries 6 8 [lookup a, lookup b, lookup c, lookup d]
        ((group (lookup a) (lookup b) (lookup c) (lookup d)).map UInt8.toNat) 0 0 := by
      rw [map_toNat_group _ _ _ _ ha hb hc hd]
      refine ⟨?_, ?_, rfl, ?_, Nat.one_pos⟩
      · simp
        omega
      · simp
        omega
      · simp [Numeral.value, Nat.ofDigits_cons]
        omega
    have hunused : unusedBits (a :: b :: c :: d :: rest).length = unusedBits rest.length := by
      simp only [List.length_cons, unusedBits]
      omega
    refine ⟨left, ?_⟩
    rw [hunused, decode_cons, List.map_append]
    exact hblock.append ih
  | case2 a b c =>
    have ha := lookup_lt a
    have hb := lookup_lt b
    have hc := lookup_lt c
    refine ⟨lookup c % 4, ?_⟩
    have hdecode : decode [a, b, c] = (group (lookup a) (lookup b) (lookup c) 0).take 2 := by
      simp [decode, groups]
    have hunused : unusedBits [a, b, c].length = 2 := by simp [unusedBits]
    rw [hdecode, hunused, List.map_take, map_toNat_group _ _ _ _ ha hb hc (by decide)]
    refine ⟨?_, ?_, rfl, ?_, by omega⟩
    · simp
      omega
    · simp
      omega
    · simp [Numeral.value, Nat.ofDigits_cons]
      omega
  | case3 a b =>
    have ha := lookup_lt a
    have hb := lookup_lt b
    refine ⟨lookup b % 16, ?_⟩
    have hdecode : decode [a, b] = (group (lookup a) (lookup b) 0 0).take 1 := by
      simp [decode, groups]
    have hunused : unusedBits [a, b].length = 4 := by simp [unusedBits]
    rw [hdecode, hunused, List.map_take,
      map_toNat_group _ _ _ _ ha hb (by decide) (by decide)]
    refine ⟨?_, ?_, rfl, ?_, by omega⟩
    · simp
      omega
    · simp
      omega
    · simp [Numeral.value, Nat.ofDigits_cons]
      omega
  | case4 a =>
    have ha := lookup_lt a
    refine ⟨lookup a, ?_⟩
    have hdecode : decode [a] = [] := by simp [decode]
    have hunused : unusedBits [a].length = 6 := by simp [unusedBits]
    rw [hdecode, hunused]
    simpa using (Carries.nil 6 8).concat ha
  | case5 => exact ⟨0, Carries.nil 6 8⟩

/-- Texts with the same numbers are decoded alike. -/
theorem decode_congr {s t : Str} (h : s.map lookup = t.map lookup) : decode s = decode t := by
  have hlen : s.length = t.length := by simpa using congrArg List.length h
  obtain ⟨left, hs⟩ := carries_decode s
  obtain ⟨left', ht⟩ := carries_decode t
  rw [← h, ← hlen] at ht
  exact bytes_eq (hs.target_unique ht (unusedBits_lt _) (unusedBits_lt _))

/-- **What was encoded is decoded.** -/
theorem decode_encode (data : Bytes) (urlSafe : Bool) : decode (encode data urlSafe) = data := by
  obtain ⟨left, hdecode⟩ := carries_decode (encode data urlSafe)
  have hnumbers : (encode data urlSafe).map lookup = sextets data := by
    rw [encode_eq]
    exact map_map_cancel (fun n hn => lookup_charOf urlSafe n (sextets_lt data n hn))
  rw [hnumbers] at hdecode
  exact bytes_eq (hdecode.target_unique (carries_sextets data) (unusedBits_lt _)
    (unusedBits_lt _))

/-- A text and its translations are decoded alike. -/
theorem decode_translate (urlSafe : Bool) (text : Str) :
    decode (translate urlSafe text) = decode text := by
  apply decode_congr
  rw [translate, List.map_map]
  exact List.map_congr_left (fun c _ => lookup_translateChar urlSafe c)

/-- A text that `base64Decode` takes is decoded as the same bytes, without its padding. -/
theorem decode_stripPadding {text : Str} {data : Bytes} (h : base64Decode text = .ok data) :
    decode (stripPadding text) = data := by
  obtain ⟨hbase64, left, hcarries⟩ := base64Decode_eq_ok.mp h
  obtain ⟨left', hdecode⟩ := carries_decode (stripPadding text)
  have hnumbers : (stripPadding text).map lookup = (stripPadding text).map sixBits :=
    List.map_congr_left (fun c hc => lookup_eq_sixBits (hbase64.alphabet c hc))
  rw [hnumbers] at hdecode
  exact bytes_eq (hdecode.target_unique hcarries (unusedBits_lt _)
    (unusedBits_lt _))

/-! ## Both codecs -/

/-- **The round trips of both codecs.**  Encoded bytes are decoded, a text and its translation
between the alphabets are decoded alike, and a text that `base64Decode` takes holds all the
bits of its bytes, in the characters they are encoded as but for the unused bits of the last. -/
theorem base64_roundTrips :
    (∀ data : Bytes, base64Decode (base64Encode data) = .ok data) ∧
    (∀ (data : Bytes) (urlSafe : Bool), decode (encode data urlSafe) = data) ∧
    (∀ (data : Bytes) (urlSafe : Bool),
      translate urlSafe (encode data (!urlSafe)) = encode data urlSafe) ∧
    (∀ (text : Str) (urlSafe : Bool), decode (translate urlSafe text) = decode text) ∧
    (∀ (text : Str) (data : Bytes), base64Decode text = .ok data →
      6 * (stripPadding text).length = 8 * data.length + unusedBits (stripPadding text).length ∧
        unusedBits (stripPadding text).length < 6 ∧
        AgreeAbove (unusedBits (stripPadding text).length) (stripPadding text)
          (stripPadding (base64Encode data))) := by
  refine ⟨base64Decode_base64Encode, decode_encode, translate_encode, ?_, ?_⟩
  · intro text urlSafe
    exact decode_translate urlSafe text
  · intro text data h
    exact agreeAbove_of_base64Decode h

/-- A text with bits that are not used and a padding that is missing. -/
theorem base64_roundTrips_loose :
    base64Decode "QR=" = .ok [65] ∧ AgreeAbove 4 "QR" "QQ" := by
  have hdecode : base64Decode "QR=" = .ok [65] := by rfl
  have hkept : stripPadding "QR=" = "QR" := by decide
  have hencoded : stripPadding (base64Encode [65]) = "QQ" := by decide
  obtain ⟨-, -, hagree⟩ := base64_roundTrips.2.2.2.2 "QR=" [65] hdecode
  rw [hkept, hencoded] at hagree
  exact ⟨hdecode, hagree⟩

end Base64u

end Dwarfkit
