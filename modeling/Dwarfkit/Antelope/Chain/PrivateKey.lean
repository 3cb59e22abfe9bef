/-
# Private keys from text

`PrivateKey` of `src/antelope/chain/private_key.cpp`, with its three spellings: the
tagged one, whose data has a fixed size save for WebAuthn, the WIF of a K1 key, and,
when a wrong checksum is to be ignored, what a damaged spelling of either still says.

* `PrivateKey.fromString_eq_ok_iff` : the texts that are taken for a key;
* `PrivateKey.fromString_ignoring` : a key in spite of its checksum.
-/
import Dwarfkit.Antelope.Serializer.KeyText

namespace Dwarfkit

/-- `PrivateKey`. -/
structure PrivateKey where
  type : KeyType := .K1
  data : Bytes := []
  deriving DecidableEq

/-- `Bytes::zeropad`. -/
def zeropad (array : Bytes) (n : ℕ) (truncate : Bool) : Bytes :=
  let newSize := if truncate then n else max n array.length
  if truncate ∧ newSize < array.length then array.take newSize
  else List.replicate (newSize - array.length) 0 ++ array

namespace PrivateKey

/-- `isAllZero`. -/
def isAllZero (data : Bytes) : Bool := data.all (· = 0)

/-- `PrivateKey::make`. -/
def make (type : KeyType) (data : Bytes) : Result PrivateKey :=
  if (type = .K1 ∨ type = .R1) ∧ data.length ≠ 32 then
    err .invalid "Invalid private key (Invalid private key length)"
  else .ok { type, data }

/-- `decodeKey`. -/
def decodeKey (crypto : Crypto) (value : Str) : Result (KeyType × Bytes) :=
  if (lit "PVT_").isPrefixOf value then parseTagged crypto value 32 "Invalid PVT format"
  else do
    let data ← Base58.decodeCheck crypto value none
    match data with
    | [] => err .invalid "Invalid WIF"
    | first :: rest => if first ≠ 0x80 then err .invalid "Invalid WIF" else return (.K1, rest)

/-- A key of decoded data, which is not all zeros. -/
def ofData (type : KeyType) (data : Bytes) : Result PrivateKey :=
  if isAllZero data then
    err .invalid "Invalid private key (All-zero private key is not allowed)"
  else make type data

/-- The data of a text whose checksum is wrong, where the caller ignores that. -/
def unchecked (ignoreChecksumError : Bool) (error : Error) : Option Json :=
  if ignoreChecksumError ∧ error.details.find "code" = some (.str "E_CHECKSUM") then
    error.details.find "data"
  else none

/-- `PrivateKey::fromString`. -/
def fromString (crypto : Crypto) (value : Str) (ignoreChecksumError : Bool) : Result PrivateKey :=
  match decodeKey crypto value with
  | .ok decoded => ofData decoded.1 decoded.2
  | .error error =>
    match unchecked ignoreChecksumError error with
    | some said => do
      let hex ← said.getStr
      let type := if (lit "PVT_R1").isPrefixOf value then KeyType.R1 else .K1
      let data ← hexToArray hex
      ofData type (zeropad (if data.length = 33 then data.drop 1 else data) 32 true)
    | none => .error { error with message := "Invalid private key (" ++ error.message ++ lit ")" }

/-- `PrivateKey::toWif`. -/
def toWif (crypto : Crypto) (k : PrivateKey) : Result Str :=
  if k.type ≠ .K1 then err .invalid "Unable to generate WIF for non-k1 key"
  else .ok (Base58.encodeCheck crypto (0x80 :: k.data))

/-- `PrivateKey::toString`. -/
def toString (crypto : Crypto) (k : PrivateKey) : Str :=
  lit "PVT_" ++ k.type.toString ++ lit "_" ++
    Base58.encodeRipemd160Check crypto k.data (some k.type.toString)

/-- A key that `fromString` may give: it has the size of its type and is not all zeros. -/
structure Valid (k : PrivateKey) : Prop where
  size : k.type ≠ .WA → k.data.length = 32
  nonzero : isAllZero k.data = false

/-- The texts of a key: its WIF, or the tagged text, whose Base58 part may have other leading
`1`s where the size is fixed. -/
def Spelled (crypto : Crypto) (k : PrivateKey) (value : Str) : Prop :=
  k.toWif crypto = .ok value ∨
    if k.type = .WA then value = k.toString crypto
    else ∃ text, value = lit "PVT_" ++ k.type.toString ++ lit "_" ++ text ∧
      Base58.InAlphabet text ∧
      Base58.valueOf text = Base58.bytesValue
        (k.data ++ Base58.ripemd160Checksum crypto k.data (some k.type.toString))

end PrivateKey

/-! ## Checked texts -/

namespace Base58

open Numeral

/-- The bytes that a text is read as, where their number is fixed. -/
theorem decode_fixed_eq_ok_iff (n : ℕ) (s : Str) (d : Bytes) :
    decode s (some n) = .ok d ↔ InAlphabet s ∧ d.length = n ∧ valueOf s = bytesValue d := by
  constructor
  · intro h
    obtain ⟨hs, hlen, hvalue⟩ := decode_fixed_eq_ok h
    exact ⟨hs, hlen, hvalue.symm⟩
  · rintro ⟨hs, rfl, hvalue⟩
    have hlen : (bytesOf d).length = d.length := List.length_map _
    have hfit : valueOf s < 256 ^ d.length := by
      rw [hvalue, ← hlen]
      exact value_lt (by omega) (bytesOf_lt d)
    obtain ⟨e, he⟩ := (decode_fixed_iff d.length s).mpr ⟨hs, hfit⟩
    obtain ⟨-, hlen', hvalue'⟩ := decode_fixed_eq_ok he
    have heq : bytesOf e = bytesOf d := by
      apply eq_of_value (b := 256) (by omega) _ (bytesOf_lt e) (bytesOf_lt d)
      · exact hvalue'.trans hvalue
      · rw [bytesOf, List.length_map, hlen', hlen]
    rw [he, bytesOf_injective heq]

/-- **The texts that carry data of a fixed size with its checksum.** -/
theorem decodeRipemd160Check_some_iff (crypto : Crypto) (s : Str) (n : ℕ) (suffix : Option Str)
    (data : Bytes) :
    decodeRipemd160Check crypto s (some n) suffix = .ok data ↔ InAlphabet s ∧ data.length = n ∧
      valueOf s = bytesValue (data ++ ripemd160Checksum crypto data suffix) := by
  have hsum := length_ripemd160Checksum crypto data suffix
  constructor
  · intro h
    have hdecode := decodeRipemd160Check_eq_ok h
    obtain ⟨hs, -, hvalue⟩ := (decode_fixed_eq_ok_iff _ s _).mp hdecode
    exact ⟨hs, length_of_decodeRipemd160Check h, hvalue⟩
  · rintro ⟨hs, hlen, hvalue⟩
    obtain ⟨hshort, htake, hdrop⟩ := @take_drop_checksum data _ hsum
    have hdecode : decode s (some (n + 4)) =
        .ok (data ++ ripemd160Checksum crypto data suffix) := by
      rw [decode_fixed_eq_ok_iff, List.length_append, hsum, hlen]
      exact ⟨hs, rfl, hvalue⟩
    rw [decodeRipemd160Check, Option.map_some, hdecode, ok_bind, if_neg hshort]
    simp only [htake, hdrop, ne_eq, not_true_eq_false, if_false]
    rfl

/-- **The texts that carry data with a SHA-256 checksum**, no size being asked for. -/
theorem decodeCheck_none_iff (crypto : Crypto) (s : Str) (data : Bytes) :
    decodeCheck crypto s none = .ok data ↔ s = encodeCheck crypto data := by
  constructor
  · intro h
    unfold decodeCheck at h
    obtain ⟨decoded, hdecoded, h⟩ := bind_eq_ok.mp h
    split at h
    · cases h
    · simp only at h
      split at h
      · cases h
      · rename_i hsum
        cases h
        obtain ⟨e, he, hs, -⟩ := encode_decode (inAlphabet_of_decode hdecoded)
        rw [Option.map_none, he] at hdecoded
        cases hdecoded
        rw [encodeCheck, ← not_not.mp hsum, List.take_append_drop, hs]
  · rintro rfl
    exact decodeCheck_encodeCheck crypto data (.inl rfl)

/-- A tagged text is not one of the alphabet. -/
theorem not_isPrefixOf_of_inAlphabet {s : Str} (h : InAlphabet s) (head : Str) :
    ¬ (head ++ [95]).isPrefixOf s := by
  intro hprefix
  obtain ⟨rest, rfl⟩ := eq_of_isPrefixOf head hprefix
  exact absurd (h 95 (by simp)) (by decide)

end Base58

namespace PrivateKey

/-! ## The texts of a key -/

theorem toString_eq_taggedText (crypto : Crypto) (k : PrivateKey) :
    k.toString crypto = taggedText crypto (lit "PVT") k.type k.data := by
  rw [PrivateKey.toString, List.append_assoc, List.append_assoc]
  rfl

/-- A key of data is the data, of the right size and not all zeros. -/
theorem ofData_eq_ok_iff {type : KeyType} {data : Bytes} {k : PrivateKey} :
    ofData type data = .ok k ↔ k = { type, data } ∧ k.Valid := by
  have hfixed : (type = .K1 ∨ type = .R1) ↔ type ≠ .WA := by
    cases type <;> simp
  unfold ofData make
  constructor
  · intro h
    split at h
    · cases h
    · rename_i hzero
      split at h
      · cases h
      · rename_i hlen
        cases h
        refine ⟨rfl, fun hWA => ?_, Bool.eq_false_of_not_eq_true hzero⟩
        by_contra hsize
        exact hlen ⟨hfixed.mpr hWA, hsize⟩
  · rintro ⟨rfl, hsize, hnonzero⟩
    rw [if_neg (by rw [hnonzero]; decide), if_neg]
    rintro ⟨hWA, hlen⟩
    exact hlen (hsize (hfixed.mp hWA))

/-- The tagged texts. -/
theorem parseTagged_pvt_iff (crypto : Crypto) (value : Str) (k : PrivateKey) (message : Str)
    (hvalue : (lit "PVT_").isPrefixOf value) :
    parseTagged crypto value 32 message = .ok (k.type, k.data) ↔
      if k.type = .WA then value = k.toString crypto
      else ∃ text, value = lit "PVT_" ++ k.type.toString ++ lit "_" ++ text ∧
        Base58.InAlphabet text ∧ k.data.length = 32 ∧ Base58.valueOf text = Base58.bytesValue
          (k.data ++ Base58.ripemd160Checksum crypto k.data (some k.type.toString)) := by
  have hhead : (95 : UInt8) ∉ lit "PVT" := by decide
  obtain ⟨rest, rfl⟩ := eq_of_isPrefixOf (lit "PVT") hvalue
  constructor
  · intro h
    obtain ⟨-, hWAtext⟩ := parseTagged_eq_ok hhead h
    split
    · rename_i hWA
      rw [toString_eq_taggedText]
      exact hWAtext hWA
    · rename_i hWA
      unfold parseTagged at h
      split at h
      · rename_i first tag text hsplit
        obtain ⟨type, htype, h⟩ := bind_eq_ok.mp h
        obtain ⟨data, hdata, h⟩ := bind_eq_ok.mp h
        cases h
        rw [if_neg hWA, Base58.decodeRipemd160Check_some_iff] at hdata
        have htag := keyType_ofString_eq_ok htype
        rw [split_cons hhead] at hsplit
        have hrest : rest.splitOn 95 = [tag, text] := (List.cons.inj hsplit).2
        have hjoin : [95].intercalate (rest.splitOn 95) = rest := List.intercalate_splitOn 95
        rw [hrest, htag] at hjoin
        refine ⟨text, ?_, hdata⟩
        rw [← hjoin]
        simp [List.intercalate, lit]
      · cases h
  · intro h
    split at h
    · rename_i hWA
      rw [h, toString_eq_taggedText]
      exact parseTagged_taggedText crypto hhead message (fun hne => absurd hWA hne)
    · rename_i hWA
      obtain ⟨text, htext, hdata⟩ := h
      have hnosep : (95 : UInt8) ∉ text := by
        intro hmem
        exact absurd (hdata.1 95 hmem) (by decide)
      have hsplit : split (lit "PVT" ++ 95 :: rest) 95 = [lit "PVT", k.type.toString, text] := by
        rw [htext, show lit "PVT_" ++ k.type.toString ++ lit "_" ++ text =
          lit "PVT" ++ 95 :: (k.type.toString ++ 95 :: text) by simp [lit], split_cons hhead,
          split_cons (separator_notMem_type _), split, List.splitOn_eq_singleton hnosep]
      unfold parseTagged
      rw [hsplit]
      simp only
      rw [keyType_ofString, ok_bind, if_neg hWA,
        (Base58.decodeRipemd160Check_some_iff crypto text 32 _ k.data).mpr hdata]
      rfl

theorem toWif_eq_ok_iff {crypto : Crypto} {k : PrivateKey} {value : Str} :
    k.toWif crypto = .ok value ↔ k.type = .K1 ∧ value = Base58.encodeCheck crypto (0x80 :: k.data) := by
  unfold toWif
  split
  · rename_i htype
    exact ⟨fun h => (by cases h), fun h => absurd h.1 htype⟩
  · rename_i htype
    rw [Except.ok.injEq, eq_comm]
    exact ⟨fun h => ⟨not_not.mp htype, h⟩, fun h => h.2⟩

/-- A WIF is no tagged text. -/
theorem not_isPrefixOf_toWif {crypto : Crypto} {k : PrivateKey} {value : Str}
    (h : k.toWif crypto = .ok value) : ¬ (lit "PVT_").isPrefixOf value := by
  obtain ⟨-, rfl⟩ := toWif_eq_ok_iff.mp h
  exact Base58.not_isPrefixOf_of_inAlphabet (Base58.inAlphabet_encode _) (lit "PVT")

/-- A text that is not a WIF of a key is a tagged one. -/
theorem Spelled.cases {crypto : Crypto} {k : PrivateKey} {value : Str} (h : k.Spelled crypto value) :
    k.toWif crypto = .ok value ∨ (lit "PVT_").isPrefixOf value := by
  refine h.imp_right fun htagged => ?_
  split at htagged
  · rw [htagged, toString_eq_taggedText]
    exact isPrefixOf_taggedText crypto (lit "PVT") _ _
  · obtain ⟨text, rfl, -⟩ := htagged
    rw [List.isPrefixOf_iff_prefix, List.append_assoc, List.append_assoc]
    exact List.prefix_append _ _

/-- What is decoded: the WIF's data behind its first byte, or a tagged text's. -/
theorem decodeKey_eq_ok_iff (crypto : Crypto) (value : Str) (k : PrivateKey) :
    decodeKey crypto value = .ok (k.type, k.data) ∧ k.Valid ↔ k.Valid ∧ k.Spelled crypto value := by
  rw [and_comm]
  refine and_congr_right fun hvalid => ?_
  unfold decodeKey
  split
  · rename_i hprefix
    rw [parseTagged_pvt_iff crypto value k _ hprefix, Spelled,
      or_iff_right (fun h => not_isPrefixOf_toWif h hprefix)]
    split
    · exact Iff.rfl
    · rename_i hWA
      simp only [hvalid.size hWA, true_and]
  · rename_i hprefix
    have hspelled : k.Spelled crypto value ↔ k.toWif crypto = .ok value :=
      ⟨fun h => h.cases.resolve_right hprefix, .inl⟩
    rw [hspelled, toWif_eq_ok_iff]
    constructor
    · intro h
      obtain ⟨data, hdata, h⟩ := bind_eq_ok.mp h
      rw [Base58.decodeCheck_none_iff] at hdata
      split at h
      · cases h
      · split at h
        · cases h
        · rename_i first rest hfirst
          obtain ⟨htype, hrest⟩ := Prod.mk.inj (Except.ok.inj h)
          rw [hdata, not_not.mp hfirst, hrest]
          exact ⟨htype.symm, rfl⟩
    · rintro ⟨htype, hvalue⟩
      rw [(Base58.decodeCheck_none_iff crypto value _).mpr hvalue, ok_bind, htype]
      rfl

/-- A key is read from what is decoded. -/
theorem fromString_false_iff {crypto : Crypto} {value : Str} {k : PrivateKey} :
    fromString crypto value false = .ok k ↔
      decodeKey crypto value = .ok (k.type, k.data) ∧ k.Valid := by
  unfold fromString
  cases decodeKey crypto value with
  | ok decoded =>
    simp only [ofData_eq_ok_iff, Except.ok.injEq]
    refine and_congr_left fun _ => ⟨?_, ?_⟩
    · rintro rfl
      rfl
    · rintro rfl
      rfl
  | error error => simp [unchecked]

/-- **The texts that are taken for a key** are those of keys of the right size that are not all
zeros: the WIF of a K1 key, and its tagged text. -/
theorem fromString_eq_ok_iff (crypto : Crypto) (value : Str) (k : PrivateKey) :
    fromString crypto value false = .ok k ↔ k.Valid ∧ k.Spelled crypto value := by
  rw [fromString_false_iff, decodeKey_eq_ok_iff]

/-- A key is read back from its own text. -/
theorem fromString_toString (crypto : Crypto) {k : PrivateKey} (hk : k.Valid) :
    fromString crypto (k.toString crypto) false = .ok k := by
  rw [fromString_false_iff, decodeKey_eq_ok_iff]
  refine ⟨hk, .inr ?_⟩
  split
  · rfl
  · refine ⟨_, rfl, Base58.inAlphabet_encode _, ?_⟩
    show Numeral.value 58 (Base58.digitsOf (Base58.encode _)) = _
    rw [Base58.digitsOf_encode, Numeral.value_convert, Base58.bytesValue]

/-! ## Wrong checksums -/

/-- The WIF, or the tagged text, that has `sum` for its checksum. -/
def Damaged (k : PrivateKey) (sum : Bytes) (value : Str) : Prop :=
  (k.type = .K1 ∧ value = Base58.encode (0x80 :: k.data ++ sum)) ∨
    (k.type ≠ .WA ∧
      value = lit "PVT_" ++ k.type.toString ++ lit "_" ++ Base58.encode (k.data ++ sum))

/-- The error of a wrong checksum says what the data was. -/
theorem unchecked_of_mismatch (actual expected data : Bytes) (hash : Str) {error : Error}
    (h : (Base58.checksumMismatch actual expected data hash : Result Bytes) = .error error) :
    unchecked true error = some (.str (arrayToHex data)) := by
  cases h
  rfl

/-- What is decoded of data under any checksum: the data, or an error that says what it was. -/
def Says (result : Result Bytes) (data : Bytes) : Prop :=
  result = .ok data ∨ ∃ error, result = .error error ∧
    unchecked true error = some (.str (arrayToHex data))

theorem says_decodeCheck (crypto : Crypto) (data : Bytes) {sum : Bytes} (hsum : sum.length = 4) :
    Says (Base58.decodeCheck crypto (Base58.encode (data ++ sum)) none) data := by
  obtain ⟨hshort, htake, hdrop⟩ := @Base58.take_drop_checksum data _ hsum
  rw [Base58.decodeCheck, Option.map_none, Base58.decode_var_encode, ok_bind, if_neg hshort]
  simp only [htake, hdrop]
  split
  · exact .inr ⟨_, rfl, unchecked_of_mismatch _ _ _ _ rfl⟩
  · exact .inl rfl

theorem says_decodeRipemd160Check (crypto : Crypto) (data : Bytes) (suffix : Option Str)
    {sum : Bytes} (hsum : sum.length = 4) :
    Says (Base58.decodeRipemd160Check crypto (Base58.encode (data ++ sum)) (some data.length)
      suffix) data := by
  obtain ⟨hshort, htake, hdrop⟩ := @Base58.take_drop_checksum data _ hsum
  have hsize : (some data.length).map (· + 4) = some (data ++ sum).length := by
    rw [List.length_append, hsum]
    rfl
  rw [Base58.decodeRipemd160Check, hsize, Base58.decode_own_size_encode, ok_bind, if_neg hshort]
  simp only [htake, hdrop]
  split
  · exact .inr ⟨_, rfl, unchecked_of_mismatch _ _ _ _ rfl⟩
  · exact .inl rfl

/-- Padding to the length that is there already does nothing. -/
theorem zeropad_length (data : Bytes) : zeropad data data.length true = data := by
  unfold zeropad
  simp

/-- The data of a WIF without its first byte is a key's. -/
theorem fromString_wif (crypto : Crypto) {k : PrivateKey} (hk : k.Valid) (htype : k.type = .K1)
    {sum : Bytes} (hsum : sum.length = 4) :
    fromString crypto (Base58.encode (0x80 :: k.data ++ sum)) true = .ok k := by
  have hWA : k.type ≠ .WA := by
    rw [htype]
    decide
  have hprefix : ¬ (lit "PVT_").isPrefixOf (Base58.encode (0x80 :: k.data ++ sum)) :=
    Base58.not_isPrefixOf_of_inAlphabet (Base58.inAlphabet_encode _) (lit "PVT")
  have hR1 : ¬ (lit "PVT_R1").isPrefixOf (Base58.encode (0x80 :: k.data ++ sum)) := by
    intro h
    apply hprefix
    rw [List.isPrefixOf_iff_prefix] at h ⊢
    exact List.IsPrefix.trans (by decide : lit "PVT_" <+: lit "PVT_R1") h
  unfold fromString decodeKey
  rw [if_neg hprefix]
  rcases says_decodeCheck crypto (0x80 :: k.data) hsum with hdata | ⟨error, herror, hdetail⟩
  · rw [hdata, ok_bind]
    exact ofData_eq_ok_iff.mpr ⟨by rw [← htype], hk⟩
  · rw [herror, error_bind]
    simp only [hdetail, Json.getStr]
    rw [ok_bind, hexToArray_arrayToHex, ok_bind, if_neg hR1, List.length_cons, hk.size hWA, if_pos rfl,
      List.drop_one, List.tail_cons, ← hk.size hWA, zeropad_length]
    exact ofData_eq_ok_iff.mpr ⟨by rw [← htype], hk⟩

/-- The data of a tagged text is a key's. -/
theorem fromString_tagged (crypto : Crypto) {k : PrivateKey} (hk : k.Valid) (hWA : k.type ≠ .WA)
    {sum : Bytes} (hsum : sum.length = 4) :
    fromString crypto (lit "PVT_" ++ k.type.toString ++ lit "_" ++
      Base58.encode (k.data ++ sum)) true = .ok k := by
  have htext : lit "PVT_" ++ k.type.toString ++ lit "_" ++ Base58.encode (k.data ++ sum) =
      lit "PVT" ++ 95 :: (k.type.toString ++ 95 :: Base58.encode (k.data ++ sum)) := by
    simp [lit]
  have hprefix : (lit "PVT_").isPrefixOf (lit "PVT_" ++ k.type.toString ++ lit "_" ++
      Base58.encode (k.data ++ sum)) := by
    rw [List.isPrefixOf_iff_prefix, List.append_assoc, List.append_assoc]
    exact List.prefix_append _ _
  have hsplit : split (lit "PVT_" ++ k.type.toString ++ lit "_" ++
      Base58.encode (k.data ++ sum)) 95 =
        [lit "PVT", k.type.toString, Base58.encode (k.data ++ sum)] := by
    rw [htext, split_cons (by decide), split_cons (separator_notMem_type _), split,
      List.splitOn_eq_singleton (separator_notMem_encode _)]
  -- The type of the rescued key is read off the head of the text.
  have htype : (if (lit "PVT_R1").isPrefixOf (lit "PVT_" ++ k.type.toString ++ lit "_" ++
      Base58.encode (k.data ++ sum)) then KeyType.R1 else .K1) = k.type := by
    cases htype : k.type with
    | K1 => rfl
    | R1 => rfl
    | WA => exact absurd htype hWA
  unfold fromString decodeKey parseTagged
  rw [if_pos hprefix, hsplit]
  simp only
  rw [keyType_ofString, ok_bind, if_neg hWA, htype]
  have hsaid := says_decodeRipemd160Check crypto k.data (some k.type.toString) hsum
  rw [hk.size hWA] at hsaid
  rcases hsaid with hdata | ⟨error, herror, hdetail⟩
  · rw [hdata, ok_bind]
    exact ofData_eq_ok_iff.mpr ⟨rfl, hk⟩
  · rw [herror, error_bind]
    simp only [hdetail, Json.getStr]
    rw [ok_bind, hexToArray_arrayToHex, ok_bind, hk.size hWA, if_neg (by decide), ← hk.size hWA,
      zeropad_length]
    exact ofData_eq_ok_iff.mpr ⟨rfl, hk⟩

/-- **A checksum that is ignored** costs nothing: a key is read from its texts whatever the four
bytes have become, and what is read is still a key of the right size that is not all zeros. -/
theorem fromString_ignoring (crypto : Crypto) (value : Str) (k : PrivateKey) :
    (fromString crypto value true = .ok k → k.Valid) ∧
      (k.Valid → ∀ sum : Bytes, sum.length = 4 → k.Damaged sum value →
        fromString crypto value true = .ok k) := by
  constructor
  · intro h
    unfold fromString at h
    split at h
    · exact (ofData_eq_ok_iff.mp h).2
    · split at h
      · obtain ⟨hex, -, h⟩ := bind_eq_ok.mp h
        obtain ⟨data, -, h⟩ := bind_eq_ok.mp h
        obtain ⟨rfl, hvalid⟩ := ofData_eq_ok_iff.mp h
        exact hvalid
      · cases h
  · rintro hk sum hsum (⟨htype, rfl⟩ | ⟨hWA, rfl⟩)
    · exact fromString_wif crypto hk htype hsum
    · exact fromString_tagged crypto hk hWA hsum

end PrivateKey

end Dwarfkit
