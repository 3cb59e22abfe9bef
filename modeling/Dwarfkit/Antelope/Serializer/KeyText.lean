/-
# Keys and signatures from text

What the text forms of `PublicKey` and `Signature` accept against what their ABI
readers take back.  The modern forms ask for a size, save for the WebAuthn one;
the legacy form asks for none.

* `publicKey_reads_iff`, `signature_reads_iff` : the data that is read back;
* `keyTexts_safe_iff` : a text is safe when what it carries has that shape.
-/
import Dwarfkit.Antelope.Chain.Base58
import Dwarfkit.Antelope.Serializer.Builtins
import Dwarfkit.Antelope.Serializer.Varint

namespace Dwarfkit

open Wire AbiTraits

/-! ## Shapes -/

/-- Data behind its own length, in at most five groups. -/
def Prefixed (chunk : Bytes) : Prop :=
  ∃ groups data, chunk = groups ++ data ∧ IsLeb groups ∧ groups.length ≤ 5 ∧
    data.length = lebNumber groups % 2 ^ 32

/-- The data of a public key: a point, and for WebAuthn a presence byte and a
relying party behind its length. -/
def PublicKey.Shaped (type : KeyType) (data : Bytes) : Prop :=
  if type = .WA then
    ∃ key presence rpid, data = key ++ presence ++ rpid ∧ key.length = 33 ∧
      presence.length = 1 ∧ Prefixed rpid
  else data.length = 33

/-- The data of a signature: the compact signature, and for WebAuthn two texts
behind their lengths. -/
def Signature.Shaped (type : KeyType) (data : Bytes) : Prop :=
  if type = .WA then
    ∃ compact authData clientJson, data = compact ++ authData ++ clientJson ∧
      compact.length = 65 ∧ Prefixed authData ∧ Prefixed clientJson
  else data.length = 65

/-- Data behind its length is read whole. -/
theorem reads_readPrefixed {chunk : Bytes} (h : Prefixed chunk) :
    Reads readPrefixed chunk chunk := by
  obtain ⟨groups, data, rfl, hgroups, hlen, hdata⟩ := h
  obtain ⟨n, hn, hreads⟩ := reads_readVaruint32_groups hgroups hlen
  intro rest
  have hread : (readArray n.toNat).run (data ++ rest) = .ok (data, rest) := by
    rw [hn, ← hdata]
    exact reads_readArray data rest
  have htake : (groups ++ data ++ rest).take ((groups ++ data ++ rest).length - rest.length) =
      groups ++ data := by
    rw [List.length_append, Nat.add_sub_cancel, List.take_left]
  show (readVaruint32.run (groups ++ data ++ rest) >>= fun q => (readArray q.1.toNat).run q.2 >>=
    fun r => pure ((groups ++ data ++ rest).take ((groups ++ data ++ rest).length - r.2.length),
      r.2)) = _
  rw [List.append_assoc, hreads, ok_bind, hread, ok_bind, ← List.append_assoc, htake]
  rfl

/-- What is read as data behind its length. -/
theorem readPrefixed_eq_ok {s chunk rest : Bytes} (h : readPrefixed.run s = .ok (chunk, rest)) :
    s = chunk ++ rest ∧ Prefixed chunk := by
  change (readVaruint32.run s >>= fun q => (readArray q.1.toNat).run q.2 >>=
    fun r => pure (s.take (s.length - r.2.length), r.2)) = .ok (chunk, rest) at h
  obtain ⟨⟨n, tail⟩, hn, h⟩ := bind_eq_ok.mp h
  obtain ⟨⟨data, after⟩, hdata, h⟩ := bind_eq_ok.mp h
  obtain ⟨groups, rfl, hgroups, hlen, hvalue⟩ := readVaruint32_eq_ok hn
  obtain ⟨hdlen, rfl⟩ := readArray_eq_ok hdata
  have htake : (groups ++ (data ++ after)).take
      ((groups ++ (data ++ after)).length - after.length) = groups ++ data := by
    rw [← List.append_assoc, List.length_append, Nat.add_sub_cancel, List.take_left]
  simp only [htake] at h
  cases h
  exact ⟨(List.append_assoc _ _ _).symm, groups, data, rfl, hgroups, hlen, by rw [hdlen, hvalue]⟩

theorem PublicKey.Shaped.wireShaped {k : PublicKey} (h : PublicKey.Shaped k.type k.data) :
    k.WireShaped := by
  unfold PublicKey.WireShaped
  unfold PublicKey.Shaped at h
  split
  · rename_i hWA
    rw [if_pos hWA] at h
    obtain ⟨key, presence, rpid, hdata, hkey, hpresence, hrpid⟩ := h
    exact ⟨key, presence, rpid, hdata, hkey, hpresence, reads_readPrefixed hrpid⟩
  · rename_i hWA
    rwa [if_neg hWA] at h

theorem Signature.Shaped.wireShaped {s : Signature} (h : Signature.Shaped s.type s.data) :
    s.WireShaped := by
  unfold Signature.WireShaped
  unfold Signature.Shaped at h
  split
  · rename_i hWA
    rw [if_pos hWA] at h
    obtain ⟨compact, authData, clientJson, hdata, hcompact, hauth, hclient⟩ := h
    exact ⟨compact, authData, clientJson, hdata, hcompact, reads_readPrefixed hauth,
      reads_readPrefixed hclient⟩
  · rename_i hWA
    rwa [if_neg hWA] at h

/-! ## What is read back -/

/-- The data of a public key that is read has its shape. -/
theorem publicKey_yields_shaped (p : Platform) :
    Yields (publicKey p).fromABI (fun k => PublicKey.Shaped k.type k.data) := by
  intro s k rest h
  obtain ⟨typeByte, s₁, -, h⟩ := run_bind_eq_ok h
  obtain ⟨type, s₂, -, h⟩ := run_bind_eq_ok h
  unfold PublicKey.Shaped
  by_cases hWA : type = .WA
  · rw [if_pos hWA] at h
    obtain ⟨key, s₃, hkey, h⟩ := run_bind_eq_ok h
    obtain ⟨presence, s₄, hpresence, h⟩ := run_bind_eq_ok h
    obtain ⟨rpid, s₅, hrpid, h⟩ := run_bind_eq_ok h
    cases h
    rw [if_pos hWA]
    exact ⟨key, presence, rpid, rfl, (readArray_eq_ok hkey).1, (readArray_eq_ok hpresence).1,
      (readPrefixed_eq_ok hrpid).2⟩
  · rw [if_neg hWA] at h
    obtain ⟨data, s₃, hdata, h⟩ := run_bind_eq_ok h
    cases h
    rw [if_neg hWA]
    exact (readArray_eq_ok hdata).1

/-- The same for a signature. -/
theorem signature_yields_shaped (p : Platform) :
    Yields (signature p).fromABI (fun s => Signature.Shaped s.type s.data) := by
  intro bytes s rest h
  obtain ⟨typeByte, s₁, -, h⟩ := run_bind_eq_ok h
  obtain ⟨type, s₂, -, h⟩ := run_bind_eq_ok h
  unfold Signature.Shaped
  by_cases hWA : type = .WA
  · rw [if_pos hWA] at h
    obtain ⟨compact, s₃, hcompact, h⟩ := run_bind_eq_ok h
    obtain ⟨authData, s₄, hauth, h⟩ := run_bind_eq_ok h
    obtain ⟨clientJson, s₅, hclient, h⟩ := run_bind_eq_ok h
    cases h
    rw [if_pos hWA]
    exact ⟨compact, authData, clientJson, rfl, (readArray_eq_ok hcompact).1,
      (readPrefixed_eq_ok hauth).2, (readPrefixed_eq_ok hclient).2⟩
  · rw [if_neg hWA] at h
    obtain ⟨data, s₃, hdata, h⟩ := run_bind_eq_ok h
    cases h
    rw [if_neg hWA]
    exact (readArray_eq_ok hdata).1

/-- A value survives its ABI form: what is written is read back, whatever follows. -/
def SurvivesABI {α : Type} (t : AbiTraits α) (x : α) : Prop :=
  ∃ bytes, t.toABI x = .ok bytes ∧ Reads t.fromABI bytes x

/-- **The public keys that survive their ABI form.** -/
theorem publicKey_survives_iff (p : Platform) (k : PublicKey) :
    SurvivesABI (publicKey p) k ↔ PublicKey.Shaped k.type k.data := by
  constructor
  · rintro ⟨bytes, hbytes, hreads⟩
    cases hbytes
    exact publicKey_yields_shaped p _ _ _ hreads.run_eq
  · intro h
    exact ⟨_, rfl, (publicKey_roundTrips p k _ h.wireShaped rfl).2⟩

/-- **The signatures that survive their ABI form.** -/
theorem signature_survives_iff (p : Platform) (s : Signature) :
    SurvivesABI (signature p) s ↔ Signature.Shaped s.type s.data := by
  constructor
  · rintro ⟨bytes, hbytes, hreads⟩
    cases hbytes
    exact signature_yields_shaped p _ _ _ hreads.run_eq
  · intro h
    exact ⟨_, rfl, (signature_roundTrips p s _ h.wireShaped rfl).2⟩

/-! ## Tagged texts -/

/-- The modern text form, `<head>_<type>_<data>`. -/
def taggedText (crypto : Crypto) (head : Str) (type : KeyType) (data : Bytes) : Str :=
  head ++ 95 :: (type.toString ++
    95 :: Base58.encodeRipemd160Check crypto data (some type.toString))

theorem publicKey_toString (crypto : Crypto) (k : PublicKey) :
    k.toString crypto = taggedText crypto (lit "PUB") k.type k.data := by
  rw [PublicKey.toString, List.append_assoc, List.append_assoc]
  rfl

theorem signature_toString (crypto : Crypto) (s : Signature) :
    s.toString crypto = taggedText crypto (lit "SIG") s.type s.data := by
  rw [Signature.toString, List.append_assoc, List.append_assoc]
  rfl

theorem keyType_ofString (type : KeyType) : KeyType.ofString type.toString = .ok type := by
  cases type <;> rfl

theorem keyType_ofString_eq_ok {tag : Str} {type : KeyType} (h : KeyType.ofString tag = .ok type) :
    tag = type.toString := by
  unfold KeyType.ofString at h
  split_ifs at h with hK1 hR1 hWA
  · cases h
    exact hK1
  · cases h
    exact hR1
  · cases h
    exact hWA
  · cases h

/-- The separator is in no type and in no data. -/
theorem separator_notMem_type (type : KeyType) : (95 : UInt8) ∉ type.toString := by
  cases type <;> decide

theorem separator_notMem_encode (data : Bytes) : (95 : UInt8) ∉ Base58.encode data := by
  intro h
  have hmem := Base58.inAlphabet_encode data 95 h
  exact absurd hmem (by decide)

theorem split_cons {head : Str} (hhead : (95 : UInt8) ∉ head) (rest : Str) :
    split (head ++ 95 :: rest) 95 = head :: split rest 95 :=
  List.splitOn_append_cons_self_of_not_mem hhead rest

theorem split_taggedText (crypto : Crypto) {head : Str} (hhead : (95 : UInt8) ∉ head)
    (type : KeyType) (data : Bytes) :
    split (taggedText crypto head type data) 95 =
      [head, type.toString, Base58.encodeRipemd160Check crypto data (some type.toString)] := by
  rw [taggedText, split_cons hhead, split_cons (separator_notMem_type type), split,
    Base58.encodeRipemd160Check, List.splitOn_eq_singleton (separator_notMem_encode _)]

/-- A tagged text is read back, if its data has the size asked for. -/
theorem parseTagged_taggedText (crypto : Crypto) {head : Str} (hhead : (95 : UInt8) ∉ head)
    {type : KeyType} {data : Bytes} {size : ℕ} (message : Str)
    (h : type ≠ .WA → data.length = size) :
    parseTagged crypto (taggedText crypto head type data) size message = .ok (type, data) := by
  unfold parseTagged
  rw [split_taggedText crypto hhead type data]
  simp only
  rw [keyType_ofString, ok_bind, Base58.decodeRipemd160Check_encode]
  · rfl
  · by_cases hWA : type = .WA
    · exact .inl (if_pos hWA)
    · right
      rw [if_neg hWA, h hWA]

/-- What a tagged text is read as: data of the size asked for, or a WebAuthn text. -/
theorem parseTagged_eq_ok {crypto : Crypto} {head rest : Str} (hhead : (95 : UInt8) ∉ head)
    {type : KeyType} {data : Bytes} {size : ℕ} {message : Str}
    (h : parseTagged crypto (head ++ 95 :: rest) size message = .ok (type, data)) :
    (type ≠ .WA → data.length = size) ∧
      (type = .WA → head ++ 95 :: rest = taggedText crypto head type data) := by
  unfold parseTagged at h
  split at h
  · rename_i first tag text hsplit
    obtain ⟨type', htype, h⟩ := bind_eq_ok.mp h
    obtain ⟨data', hdata, h⟩ := bind_eq_ok.mp h
    cases h
    have htag := keyType_ofString_eq_ok htype
    constructor
    · intro hWA
      rw [if_neg hWA] at hdata
      exact Base58.length_of_decodeRipemd160Check hdata
    · intro hWA
      rw [if_pos hWA, Base58.decodeRipemd160Check_none_iff] at hdata
      rw [split_cons hhead] at hsplit
      have hrest : split rest 95 = [tag, text] := (List.cons.inj hsplit).2
      have hjoin : [95].intercalate (rest.splitOn 95) = rest := List.intercalate_splitOn 95
      rw [show rest.splitOn 95 = [tag, text] from hrest, hdata, htag] at hjoin
      rw [← hjoin]
      simp [taggedText, List.intercalate]
  · cases h

/-! ## The text forms -/

/-- A text that begins with a tag has it before the first separator. -/
theorem eq_of_isPrefixOf (head : Str) {value : Str} (h : (head ++ [95]).isPrefixOf value) :
    ∃ rest, value = head ++ 95 :: rest := by
  obtain ⟨rest, hrest⟩ := List.isPrefixOf_iff_prefix.mp h
  exact ⟨rest, by rw [← hrest, List.append_assoc, List.singleton_append]⟩

theorem isPrefixOf_taggedText (crypto : Crypto) (head : Str) (type : KeyType) (data : Bytes) :
    (head ++ [95]).isPrefixOf (taggedText crypto head type data) := by
  rw [List.isPrefixOf_iff_prefix]
  exact ⟨type.toString ++ 95 :: Base58.encodeRipemd160Check crypto data (some type.toString),
    by rw [List.append_assoc, List.singleton_append, taggedText]⟩

/-- The text of a key is read back, if the key has its size. -/
theorem publicKey_ofString_toString (crypto : Crypto) {k : PublicKey}
    (h : k.type ≠ .WA → k.data.length = 33) :
    PublicKey.ofString crypto (k.toString crypto) = .ok k := by
  have hhead : (lit "PUB_").isPrefixOf (taggedText crypto (lit "PUB") k.type k.data) :=
    isPrefixOf_taggedText crypto (lit "PUB") k.type k.data
  rw [publicKey_toString, PublicKey.ofString, if_pos hhead,
    parseTagged_taggedText crypto (by decide) _ h]
  rfl

/-- The text of a signature is read back, if the signature has its size. -/
theorem signature_ofString_toString (crypto : Crypto) {s : Signature}
    (h : s.type ≠ .WA → s.data.length = 65) :
    Signature.ofString crypto (s.toString crypto) = .ok s := by
  have hhead : (lit "SIG_").isPrefixOf (taggedText crypto (lit "SIG") s.type s.data) :=
    isPrefixOf_taggedText crypto (lit "SIG") s.type s.data
  rw [signature_toString, Signature.ofString, if_pos hhead,
    parseTagged_taggedText crypto (by decide) _ h]
  rfl

theorem PublicKey.Shaped.size {k : PublicKey} (h : PublicKey.Shaped k.type k.data)
    (hWA : k.type ≠ .WA) : k.data.length = 33 := by
  unfold PublicKey.Shaped at h
  rwa [if_neg hWA] at h

theorem Signature.Shaped.size {s : Signature} (h : Signature.Shaped s.type s.data)
    (hWA : s.type ≠ .WA) : s.data.length = 65 := by
  unfold Signature.Shaped at h
  rwa [if_neg hWA] at h

/-- What a text carries has its shape: it is not the text of WebAuthn data of
another shape, and, where it is a legacy one, its last fifty characters are not
Base58 for anything but a point. -/
structure PayloadShaped (crypto : Crypto) (value : Str) : Prop where
  key : ∀ data, value = lit "PUB_WA_" ++ Base58.encodeRipemd160Check crypto data (some (lit "WA")) →
    PublicKey.Shaped .WA data
  legacy : ∀ data, ¬ (lit "PUB_").isPrefixOf value → 50 ≤ value.length →
    value.drop (value.length - 50) = Base58.encodeRipemd160Check crypto data none →
    data.length = 33
  signature : ∀ data,
    value = lit "SIG_WA_" ++ Base58.encodeRipemd160Check crypto data (some (lit "WA")) →
    Signature.Shaped .WA data

/-- What the text forms owe a string: a key or signature that it is taken for
survives its ABI form, and its own text is taken for the same. -/
def TextSafe (p : Platform) (value : Str) : Prop :=
  (∀ k, PublicKey.ofString p.toCrypto value = .ok k →
    SurvivesABI (publicKey p) k ∧ PublicKey.ofString p.toCrypto (k.toString p.toCrypto) = .ok k) ∧
  (∀ s, Signature.ofString p.toCrypto value = .ok s →
    SurvivesABI (signature p) s ∧ Signature.ofString p.toCrypto (s.toString p.toCrypto) = .ok s)

/-- What a text is taken for as a key has its shape, if what the text carries has. -/
theorem PayloadShaped.publicKey {crypto : Crypto} {value : Str} (h : PayloadShaped crypto value)
    {k : PublicKey} (hk : PublicKey.ofString crypto value = .ok k) :
    PublicKey.Shaped k.type k.data := by
  unfold PublicKey.ofString at hk
  by_cases hhead : (lit "PUB_").isPrefixOf value
  · rw [if_pos hhead] at hk
    obtain ⟨⟨type, data⟩, hparse, hpure⟩ := bind_eq_ok.mp hk
    cases hpure
    obtain ⟨rest, rfl⟩ := eq_of_isPrefixOf (lit "PUB") hhead
    obtain ⟨hsize, htext⟩ := parseTagged_eq_ok (by decide) hparse
    by_cases hWA : type = .WA
    · subst hWA
      exact h.key data (htext rfl)
    · unfold PublicKey.Shaped
      rw [if_neg hWA]
      exact hsize hWA
  · rw [if_neg hhead] at hk
    by_cases hlen : 50 ≤ value.length
    · rw [if_pos hlen] at hk
      obtain ⟨data, hdata, hpure⟩ := bind_eq_ok.mp hk
      cases hpure
      exact h.legacy data hhead hlen
        ((Base58.decodeRipemd160Check_none_iff crypto _ none data).mp hdata)
    · rw [if_neg hlen] at hk
      cases hk

/-- What a text is taken for as a signature has its shape, if what it carries has. -/
theorem PayloadShaped.ofString_signature {crypto : Crypto} {value : Str}
    (h : PayloadShaped crypto value) {s : Signature}
    (hs : Signature.ofString crypto value = .ok s) : Signature.Shaped s.type s.data := by
  unfold Signature.ofString at hs
  by_cases hhead : (lit "SIG_").isPrefixOf value
  · rw [if_pos hhead] at hs
    obtain ⟨⟨type, data⟩, hparse, hpure⟩ := bind_eq_ok.mp hs
    cases hpure
    obtain ⟨rest, rfl⟩ := eq_of_isPrefixOf (lit "SIG") hhead
    obtain ⟨hsize, htext⟩ := parseTagged_eq_ok (by decide) hparse
    by_cases hWA : type = .WA
    · subst hWA
      exact h.signature data (htext rfl)
    · unfold Signature.Shaped
      rw [if_neg hWA]
      exact hsize hWA
  · rw [if_neg hhead] at hs
    cases hs

/-- **The text forms are safe exactly for texts whose payload has its shape.** -/
theorem keyTexts_safe_iff (p : Platform) (value : Str) :
    TextSafe p value ↔ PayloadShaped p.toCrypto value := by
  constructor
  · rintro ⟨hkey, hsignature⟩
    refine ⟨?_, ?_, ?_⟩
    · -- A WebAuthn text is read whatever its payload is, and is the text of what was read.
      rintro data rfl
      have hread := publicKey_ofString_toString p.toCrypto (k := ⟨.WA, data⟩)
        (fun h => absurd rfl h)
      have hsurvives := (hkey _ hread).1
      exact (publicKey_survives_iff p _).mp hsurvives
    · intro data hhead hlen htext
      have hread : PublicKey.ofString p.toCrypto value = .ok ⟨.K1, data⟩ := by
        rw [PublicKey.ofString, if_neg hhead, if_pos hlen,
          (Base58.decodeRipemd160Check_none_iff p.toCrypto _ none data).mpr htext]
        rfl
      have hsurvives := (hkey _ hread).1
      exact (publicKey_survives_iff p _).mp hsurvives
    · rintro data rfl
      have hread := signature_ofString_toString p.toCrypto (s := ⟨.WA, data⟩)
        (fun h => absurd rfl h)
      have hsurvives := (hsignature _ hread).1
      exact (signature_survives_iff p _).mp hsurvives
  · intro h
    constructor
    · intro k hk
      have hshaped := h.publicKey hk
      exact ⟨(publicKey_survives_iff p k).mpr hshaped,
        publicKey_ofString_toString p.toCrypto hshaped.size⟩
    · intro s hs
      have hshaped := h.ofString_signature hs
      exact ⟨(signature_survives_iff p s).mpr hshaped,
        signature_ofString_toString p.toCrypto hshaped.size⟩

/-- A platform whose RIPEMD-160 is right for 44 zero bytes. -/
def zerosPlatform : Platform :=
  { (default : Platform) with
    ripemd160 := fun _ => ⟨[0x54, 0x81, 0xc9, 0x76, 0x25, 0x61, 0x8d, 0x3f, 0x74, 0xc2, 0x69,
      0x67, 0xb8, 0xab, 0x20, 0x9c, 0xa7, 0xfe, 0xdf, 0x9d], rfl⟩ }

/-- A legacy text whose checksum is right and whose payload is 44 bytes long. -/
def longLegacyText : Str := "EOS111111111111111111111111111111111111111111113AHZ8H"

/-- The legacy text of 44 bytes is taken for a key, which is not read back. -/
theorem not_textSafe_longLegacy :
    PublicKey.ofString zerosPlatform.toCrypto longLegacyText =
        .ok { type := .K1, data := List.replicate 44 0 } ∧
      ¬ TextSafe zerosPlatform longLegacyText := by
  have htext : longLegacyText.drop (longLegacyText.length - 50) =
      Base58.encodeRipemd160Check zerosPlatform.toCrypto (List.replicate 44 0) none := by
    decide +kernel
  have hhead : ¬ (lit "PUB_").isPrefixOf longLegacyText := by decide
  have hlen : 50 ≤ longLegacyText.length := by decide
  have hread : PublicKey.ofString zerosPlatform.toCrypto longLegacyText =
      .ok { type := .K1, data := List.replicate 44 0 } := by
    rw [PublicKey.ofString, if_neg hhead, if_pos hlen,
      (Base58.decodeRipemd160Check_none_iff _ _ none _).mpr htext]
    rfl
  refine ⟨hread, fun h => ?_⟩
  have hshaped := (publicKey_survives_iff zerosPlatform _).mp (h.1 _ hread).1
  exact absurd (hshaped.size (by decide)) (by decide)

end Dwarfkit
