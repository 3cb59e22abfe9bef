/-
# The builtin types

`antelope/serializer/builtins.cpp`: what the dynamic serializer knows about each
builtin type, by name.  Every builtin reads back what it wrote, and then agrees
with its own json normalization:

* `AbiTraits.RoundTrips` : the reader of a type undoes its writer;
* `registry_roundTrips` : so does every builtin, for the json values in `Framed`.
-/
import Dwarfkit.Antelope.Serializer.Traits

namespace Dwarfkit

open Wire

/-! ## The registry -/

/-- `BuiltinType`. -/
structure BuiltinType where
  encodeJSON : Json → Result Bytes
  decodeABI : Decoder Json
  normalizeJSON : Json → Result Json
  defaultJSON : Json

instance : Inhabited BuiltinType :=
  ⟨⟨fun _ => .ok [], fun rest => .ok (.null, rest), fun _ => .ok .null, .null⟩⟩

/-- `makeBuiltin<T>`. -/
def makeBuiltin {α : Type} (t : AbiTraits α) : BuiltinType where
  encodeJSON value := do
    let typed ← t.fromJSON value
    t.toABI typed
  decodeABI := do
    let typed ← t.fromABI
    return t.toJSON typed
  normalizeJSON value := do
    let typed ← t.fromJSON value
    return t.toJSON typed
  defaultJSON := t.toJSON t.abiDefault

/-- An entry of the registry, under the type's own name. -/
def builtinEntry {α : Type} (t : AbiTraits α) : Str × BuiltinType := (t.abiName, makeBuiltin t)

/-- `buildRegistry`. -/
def registry (p : Platform) : List (Str × BuiltinType) := [
  builtinEntry AbiTraits.bool,
  builtinEntry AbiTraits.string,
  builtinEntry AbiTraits.int8,
  builtinEntry AbiTraits.int16,
  builtinEntry AbiTraits.int32,
  builtinEntry AbiTraits.int64,
  builtinEntry AbiTraits.int128,
  builtinEntry AbiTraits.uint8,
  builtinEntry AbiTraits.uint16,
  builtinEntry AbiTraits.uint32,
  builtinEntry AbiTraits.uint64,
  builtinEntry AbiTraits.uint128,
  builtinEntry AbiTraits.varint32,
  builtinEntry AbiTraits.varuint32,
  builtinEntry (AbiTraits.float32 p),
  builtinEntry (AbiTraits.float64 p),
  builtinEntry AbiTraits.float128,
  builtinEntry AbiTraits.name,
  builtinEntry AbiTraits.bytes,
  builtinEntry AbiTraits.checksum160,
  builtinEntry AbiTraits.checksum256,
  builtinEntry AbiTraits.checksum512,
  builtinEntry (AbiTraits.publicKey p),
  builtinEntry (AbiTraits.signature p),
  builtinEntry AbiTraits.asset,
  builtinEntry AbiTraits.symbol,
  builtinEntry AbiTraits.symbolCode,
  builtinEntry AbiTraits.extendedAsset,
  builtinEntry AbiTraits.timePoint,
  builtinEntry AbiTraits.timePointSec,
  builtinEntry AbiTraits.blockTimestamp]

/-- `builtinTypes().find(name)`. -/
def findBuiltin (p : Platform) (name : Str) : Option BuiltinType :=
  ((registry p).find? (fun e => e.1 = name)).map Prod.snd

/-! ## Round trips of the typed forms -/

/-- The shape of a public key on the wire: a point, and for WebAuthn a presence
byte and one length-prefixed relying party after it. -/
def PublicKey.WireShaped (k : PublicKey) : Prop :=
  if k.type = .WA then
    ∃ key presence rpid, k.data = key ++ presence ++ rpid ∧ key.length = 33 ∧
      presence.length = 1 ∧ Reads AbiTraits.readPrefixed rpid rpid
  else k.data.length = 33

/-- The shape of a signature on the wire: the compact signature, and for WebAuthn
two length-prefixed texts after it. -/
def Signature.WireShaped (s : Signature) : Prop :=
  if s.type = .WA then
    ∃ compact authData clientJson, s.data = compact ++ authData ++ clientJson ∧
      compact.length = 65 ∧ Reads AbiTraits.readPrefixed authData authData ∧
      Reads AbiTraits.readPrefixed clientJson clientJson
  else s.data.length = 65

namespace AbiTraits

/-- The reader of a type takes back what its writer wrote for a valid value, and
the writer writes something. -/
def RoundTrips {α : Type} (t : AbiTraits α) (valid : α → Prop) : Prop :=
  ∀ x bytes, valid x → t.toABI x = .ok bytes → bytes ≠ [] ∧ Reads t.fromABI bytes x

/-- A written integer of at least one byte is not empty. -/
theorem writeInt_ne_nil {n : ℕ} (hn : 0 < n) (v : ℕ) : writeInt n v ≠ [] := by
  intro h
  have hlen := length_leBytes n v
  rw [show leBytes n v = [] from h, List.length_nil] at hlen
  omega

/-- Nor is a base-128 integer. -/
theorem writeVaruint32_ne_nil (v : UInt32) : writeVaruint32 v ≠ [] := by
  unfold writeVaruint32 lebBytes
  split <;> simp

/-- A fixed-width integer that is cast back from its pattern. -/
theorem reads_writeInt {α : Type} {n v : ℕ} {x : α} (cast : ℕ → α) (hfit : v < 256 ^ n)
    (hcast : cast v = x) :
    Reads (do
      let v ← readInt n
      return cast v : Decoder α) (writeInt n v) x := by
  have h := (reads_readInt n v hfit).bind (f := fun v => pure (cast v)) (Reads.pure _)
  rwa [List.append_nil, hcast] at h

theorem bool_roundTrips : bool.RoundTrips (fun _ => True) := by
  intro x bytes _ h
  cases h
  refine ⟨by simp, ?_⟩
  intro rest
  cases x <;> rfl

theorem string_roundTrips :
    string.RoundTrips (fun s => isValidUTF8 s = true ∧ s.length < 2 ^ 32) := by
  rintro s bytes ⟨hutf, hlen⟩ h
  cases h
  refine ⟨?_, reads_readString s hlen hutf⟩
  intro hnil
  exact writeVaruint32_ne_nil _ (List.append_eq_nil_iff.mp hnil).1

/-- The native integers. -/
theorem native_roundTrips {α : Type} (abiName : Str) (n : ℕ) (signed : Bool) (toNat : α → ℕ)
    (ofInt : ℤ → α) (toJSON : α → Json) (hn : 0 < n) (hfit : ∀ x, toNat x < 256 ^ n)
    (hcast : ∀ x, ofInt (toNat x : ℤ) = x) :
    (native abiName n signed toNat ofInt toJSON).RoundTrips (fun _ => True) := by
  intro x bytes _ h
  cases h
  exact ⟨writeInt_ne_nil hn _, reads_writeInt (fun v : ℕ => ofInt v) (hfit x) (hcast x)⟩

theorem int8_roundTrips : int8.RoundTrips (fun _ => True) :=
  native_roundTrips _ _ _ _ _ _ (by norm_num) (fun x => x.toUInt8.toNat_lt) (fun x => by
    rw [← Int8.toInt_inj, Int8.toInt_ofInt]
    exact (BitVec.toInt_eq_toNat_bmod _).symm)

theorem int16_roundTrips : int16.RoundTrips (fun _ => True) :=
  native_roundTrips _ _ _ _ _ _ (by norm_num) (fun x => x.toUInt16.toNat_lt) (fun x => by
    rw [← Int16.toInt_inj, Int16.toInt_ofInt]
    exact (BitVec.toInt_eq_toNat_bmod _).symm)

theorem int32_roundTrips : int32.RoundTrips (fun _ => True) :=
  native_roundTrips _ _ _ _ _ _ (by norm_num) (fun x => x.toUInt32.toNat_lt) (fun x => by
    rw [← Int32.toInt_inj, Int32.toInt_ofInt]
    exact (BitVec.toInt_eq_toNat_bmod _).symm)

/-- A signed 64-bit integer is cast back from its pattern. -/
theorem ofInt_toUInt64 (x : Int64) : Int64.ofInt (x.toUInt64.toNat : ℤ) = x := by
  rw [← Int64.toInt_inj, Int64.toInt_ofInt]
  exact (BitVec.toInt_eq_toNat_bmod _).symm

theorem int64_roundTrips : int64.RoundTrips (fun _ => True) :=
  native_roundTrips _ _ _ _ _ _ (by norm_num) (fun x => x.toUInt64.toNat_lt) ofInt_toUInt64

theorem uint8_roundTrips : uint8.RoundTrips (fun _ => True) :=
  native_roundTrips _ _ _ _ _ _ (by norm_num) UInt8.toNat_lt (fun x => by
    have := x.toNat_lt
    rw [← UInt8.toNat_inj, UInt8.ofInt]
    simp
    omega)

theorem uint16_roundTrips : uint16.RoundTrips (fun _ => True) :=
  native_roundTrips _ _ _ _ _ _ (by norm_num) UInt16.toNat_lt (fun x => by
    have := x.toNat_lt
    rw [← UInt16.toNat_inj, UInt16.ofInt]
    simp
    omega)

/-- A 32-bit pattern is cast back. -/
theorem ofInt_toNat_uint32 (x : UInt32) : UInt32.ofInt (x.toNat : ℤ) = x := by
  have := x.toNat_lt
  rw [← UInt32.toNat_inj, UInt32.ofInt]
  simp
  omega

theorem uint32_roundTrips : uint32.RoundTrips (fun _ => True) :=
  native_roundTrips _ _ _ _ _ _ (by norm_num) UInt32.toNat_lt ofInt_toNat_uint32

theorem ofInt_toNat_uint64 (x : UInt64) : UInt64.ofInt (x.toNat : ℤ) = x := by
  have := x.toNat_lt
  rw [← UInt64.toNat_inj, UInt64.ofInt]
  simp
  omega

theorem uint64_roundTrips : uint64.RoundTrips (fun _ => True) :=
  native_roundTrips _ _ _ _ _ _ (by norm_num) UInt64.toNat_lt ofInt_toNat_uint64

theorem float32_roundTrips (p : Platform) : (float32 p).RoundTrips (fun _ => True) := by
  intro x bytes _ h
  cases h
  exact ⟨writeInt_ne_nil (by norm_num) _,
    reads_writeInt (fun v => (⟨UInt32.ofNat v⟩ : Float32)) x.bits.toNat_lt (by simp)⟩

theorem float64_roundTrips (p : Platform) : (float64 p).RoundTrips (fun _ => True) := by
  intro x bytes _ h
  cases h
  exact ⟨writeInt_ne_nil (by norm_num) _,
    reads_writeInt (fun v => (⟨UInt64.ofNat v⟩ : Double)) x.bits.toNat_lt (by simp)⟩

/-- The two words of a 128-bit integer, lower one first. -/
theorem reads_words {α : Type} (lo hi : UInt64) (make : UInt64 → UInt64 → α) :
    Reads (do
      let bytes ← readArray 16
      return make (UInt64.ofNat (leValue (bytes.take 8))) (UInt64.ofNat (leValue (bytes.drop 8)))
        : Decoder α) (leBytes 8 lo.toNat ++ leBytes 8 hi.toNat) (make lo hi) := by
  have hread := reads_readArray (leBytes 8 lo.toNat ++ leBytes 8 hi.toNat)
  rw [List.length_append, length_leBytes, length_leBytes] at hread
  have htake : (leBytes 8 lo.toNat ++ leBytes 8 hi.toNat).take 8 = leBytes 8 lo.toNat :=
    List.take_left' (length_leBytes 8 _)
  have hdrop : (leBytes 8 lo.toNat ++ leBytes 8 hi.toNat).drop 8 = leBytes 8 hi.toNat :=
    List.drop_left' (length_leBytes 8 _)
  have h := hread.bind (f := fun bytes : Bytes =>
    (pure (make (UInt64.ofNat (leValue (bytes.take 8))) (UInt64.ofNat (leValue (bytes.drop 8))))
      : Decoder α)) (Reads.pure _)
  rw [List.append_nil, htake, hdrop, leValue_leBytes lo.toNat_lt, leValue_leBytes hi.toNat_lt,
    UInt64.ofNat_toNat, UInt64.ofNat_toNat] at h
  exact h

theorem uint128_roundTrips : uint128.RoundTrips (fun _ => True) := by
  intro x bytes _ h
  cases h
  exact ⟨by simp [leBytes], reads_words x.lo x.hi (fun lo hi => ({ lo, hi } : UInt128))⟩

theorem int128_roundTrips : int128.RoundTrips (fun _ => True) := by
  intro x bytes _ h
  cases h
  exact ⟨by simp [leBytes], reads_words x.lo x.hi (fun lo hi => ({ lo, hi } : Int128))⟩

theorem varuint32_roundTrips : varuint32.RoundTrips (fun _ => True) := by
  intro x bytes _ h
  cases h
  exact ⟨writeVaruint32_ne_nil x, reads_readVaruint32 x⟩

theorem varint32_roundTrips : varint32.RoundTrips (fun _ => True) := by
  intro x bytes _ h
  cases h
  exact ⟨writeVaruint32_ne_nil _, reads_readVarint32 x⟩

theorem name_roundTrips : name.RoundTrips (fun _ => True) := by
  intro x bytes _ h
  cases h
  exact ⟨writeInt_ne_nil (by norm_num) _,
    reads_writeInt (fun v => (⟨UInt64.ofNat v⟩ : Name)) x.value.toNat_lt (by simp)⟩

/-- A result that succeeds reads nothing. -/
theorem reads_ofResult {α : Type} {r : Result α} {x : α} (h : r = .ok x) :
    Reads (Decoder.ofResult r) [] x := by
  subst h
  exact fun rest => rfl

/-- A raw 64-bit word that is checked once it is read. -/
theorem reads_checked {α : Type} (v : UInt64) {ofRaw : UInt64 → Result α} {x : α}
    (h : ofRaw v = .ok x) :
    Reads (do
      let v ← readInt 8
      Decoder.ofResult (ofRaw (UInt64.ofNat v)) : Decoder α) (writeInt 8 v.toNat) x := by
  have hcheck : ofRaw (UInt64.ofNat v.toNat) = .ok x := by rw [UInt64.ofNat_toNat, h]
  have hbind := (reads_readInt 8 v.toNat v.toNat_lt).bind
    (f := fun v => Decoder.ofResult (ofRaw (UInt64.ofNat v))) (reads_ofResult hcheck)
  rwa [List.append_nil] at hbind

theorem symbol_roundTrips : symbol.RoundTrips (fun s => AssetSymbol.ofRaw s.value = .ok s) := by
  intro x bytes hx h
  cases h
  exact ⟨writeInt_ne_nil (by norm_num) _, reads_checked x.value hx⟩

theorem symbolCode_roundTrips :
    symbolCode.RoundTrips (fun c => SymbolCode.ofRaw c.value = .ok c) := by
  intro x bytes hx h
  cases h
  exact ⟨writeInt_ne_nil (by norm_num) _, reads_checked x.value hx⟩

theorem asset_roundTrips :
    asset.RoundTrips (fun a => AssetSymbol.ofRaw a.symbol.value = .ok a.symbol) := by
  intro x bytes hx h
  cases h
  refine ⟨by simp [writeInt, leBytes], ?_⟩
  have hsymbol : AssetSymbol.ofRaw (UInt64.ofNat x.symbol.value.toNat) = .ok x.symbol := by
    rw [UInt64.ofNat_toNat, hx]
  have hunits : Int64.ofInt (x.units.toUInt64.toNat : ℤ) = x.units := ofInt_toUInt64 x.units
  have htail := (reads_ofResult hsymbol).bind
    (f := fun symbol => (pure { units := Int64.ofInt (x.units.toUInt64.toNat : ℤ), symbol }
      : Decoder Asset)) (Reads.pure _)
  have hword := (reads_readInt 8 x.symbol.value.toNat x.symbol.value.toNat_lt).bind
    (f := fun rawSym => (do
      let symbol ← Decoder.ofResult (AssetSymbol.ofRaw (UInt64.ofNat rawSym))
      pure { units := Int64.ofInt (x.units.toUInt64.toNat : ℤ), symbol } : Decoder Asset)) htail
  have hall := (reads_readInt 8 x.units.toUInt64.toNat x.units.toUInt64.toNat_lt).bind
    (f := fun units : ℕ => (do
      let rawSym ← readInt 8
      let symbol ← Decoder.ofResult (AssetSymbol.ofRaw (UInt64.ofNat rawSym))
      pure { units := Int64.ofInt units, symbol } : Decoder Asset)) hword
  simp only [List.append_nil] at hall
  rw [hunits] at hall
  exact hall

theorem extendedAsset_roundTrips :
    extendedAsset.RoundTrips
      (fun a => AssetSymbol.ofRaw a.quantity.symbol.value = .ok a.quantity.symbol) := by
  intro x bytes hx h
  obtain ⟨quantity, hq, h⟩ := bind_eq_ok.mp h
  obtain ⟨contract, hc, h⟩ := bind_eq_ok.mp h
  cases h
  obtain ⟨hne, hquantity⟩ := asset_roundTrips x.quantity quantity hx hq
  obtain ⟨-, hcontract⟩ := name_roundTrips x.contract contract trivial hc
  refine ⟨by simp [hne], ?_⟩
  have htail := hcontract.bind
    (f := fun contract => (pure { quantity := x.quantity, contract } : Decoder ExtendedAsset))
    (Reads.pure _)
  rw [List.append_nil] at htail
  exact hquantity.bind htail

/-- Raw bytes of a fixed length that are checked once they are read. -/
theorem reads_array_checked {α : Type} (bytes : Bytes) {check : Bytes → Result α} {x : α}
    (h : check bytes = .ok x) :
    Reads (do
      let data ← readArray bytes.length
      Decoder.ofResult (check data) : Decoder α) bytes x := by
  have hbind := (reads_readArray bytes).bind (f := fun data => Decoder.ofResult (check data))
    (reads_ofResult h)
  rwa [List.append_nil] at hbind

theorem checksum_roundTrips (abiName : Str) (n : ℕ) (hn : 0 < n) :
    (checksum abiName n).RoundTrips (fun _ => True) := by
  intro x bytes _ h
  cases h
  have hlen := x.size_eq
  refine ⟨?_, ?_⟩
  · intro hnil
    have : x.array = [] := hnil
    rw [this, List.length_nil] at hlen
    omega
  · have hcheck : Checksum.ofBytes n x.array = .ok x := by
      simp [Checksum.ofBytes, hlen]
    have h := reads_array_checked x.array hcheck
    rw [hlen] at h
    exact h

theorem float128_roundTrips : float128.RoundTrips (fun _ => True) := by
  intro x bytes _ h
  cases h
  have hlen := x.size_eq
  refine ⟨?_, ?_⟩
  · intro hnil
    have : x.array = [] := hnil
    rw [this, List.length_nil] at hlen
    omega
  · have hcheck : float128.ofBytes x.array = .ok x := by
      simp [float128.ofBytes, hlen]
    have h := reads_array_checked x.array hcheck
    rw [hlen] at h
    exact h

/-- Length-prefixed bytes. -/
theorem bytes_roundTrips : bytes.RoundTrips (fun b => b.length < 2 ^ 32) := by
  intro x bytes hx h
  cases h
  refine ⟨?_, ?_⟩
  · intro hnil
    exact writeVaruint32_ne_nil _ (List.append_eq_nil_iff.mp hnil).1
  · have hn : (x.length.toUInt32).toNat = x.length := by
      simp only [Nat.toUInt32, UInt32.toNat_ofNat']
      omega
    refine (reads_readVaruint32 x.length.toUInt32).bind ?_
    rw [hn]
    exact reads_readArray x

/-- The times. -/
theorem time_roundTrips {α : Type} (abiName : Str) (n : ℕ) (toNat : α → ℕ) (ofInt : ℤ → α)
    (toString : α → Str) (ofString : Str → Result α) (hn : 0 < n) (hfit : ∀ x, toNat x < 256 ^ n)
    (hcast : ∀ x, ofInt (toNat x : ℤ) = x) :
    (time abiName n toNat ofInt toString ofString).RoundTrips (fun _ => True) := by
  intro x bytes _ h
  cases h
  exact ⟨writeInt_ne_nil hn _, reads_writeInt (fun v : ℕ => ofInt v) (hfit x) (hcast x)⟩

theorem timePoint_roundTrips : timePoint.RoundTrips (fun _ => True) :=
  time_roundTrips _ _ _ _ _ _ (by norm_num) (fun x => x.value.toUInt64.toNat_lt)
    (fun x => by rw [ofInt_toUInt64])

theorem timePointSec_roundTrips : timePointSec.RoundTrips (fun _ => True) :=
  time_roundTrips _ _ _ _ _ _ (by norm_num) (fun x => x.value.toNat_lt)
    (fun x => by rw [ofInt_toNat_uint32])

theorem blockTimestamp_roundTrips : blockTimestamp.RoundTrips (fun _ => True) :=
  time_roundTrips _ _ _ _ _ _ (by norm_num) (fun x => x.value.toNat_lt)
    (fun x => by rw [ofInt_toNat_uint32])

/-- The type byte in front of a key or a signature. -/
theorem reads_keyType {α : Type} (type : KeyType) {f : KeyType → Decoder α} {data : Bytes} {x : α}
    (h : Reads (f type) data x) :
    Reads (do
      let typeByte ← readByte
      let type ← Decoder.ofResult (KeyType.ofIndex typeByte.toNat)
      f type : Decoder α) (type.index.toUInt8 :: data) x := by
  have hindex : KeyType.ofIndex (type.index.toUInt8).toNat = .ok type := by
    cases type <;> rfl
  have htail := (reads_ofResult hindex).bind (f := f) h
  exact (reads_readByte type.index.toUInt8).bind htail

/-- Raw bytes of a known length. -/
theorem reads_readArray_of_length {bytes : Bytes} {n : ℕ} (h : bytes.length = n) :
    Reads (readArray n) bytes bytes := by
  subst h
  exact reads_readArray bytes

theorem publicKey_roundTrips (p : Platform) : (publicKey p).RoundTrips PublicKey.WireShaped := by
  rintro ⟨type, data⟩ bytes hx h
  cases h
  refine ⟨by simp, reads_keyType type ?_⟩
  by_cases hWA : type = .WA
  · subst hWA
    obtain ⟨key, presence, rpid, hdata, hkey, hpresence, hrpid⟩ := hx
    have hdata : data = key ++ presence ++ rpid := hdata
    subst hdata
    rw [if_pos rfl, List.append_assoc]
    refine (reads_readArray_of_length hkey).bind ?_
    refine (reads_readArray_of_length hpresence).bind ?_
    have htail := hrpid.bind (f := fun rpid =>
      (pure ⟨KeyType.WA, key ++ presence ++ rpid⟩ : Decoder PublicKey)) (Reads.pure _)
    rw [List.append_nil] at htail
    rw [← List.append_assoc]
    exact htail
  · have hlen : data.length = 33 := by
      have := hx
      unfold PublicKey.WireShaped at this
      rwa [if_neg hWA] at this
    rw [if_neg hWA]
    have htail := (reads_readArray_of_length hlen).bind
      (f := fun data => (pure ⟨type, data⟩ : Decoder PublicKey)) (Reads.pure _)
    rwa [List.append_nil] at htail

theorem signature_roundTrips (p : Platform) : (signature p).RoundTrips Signature.WireShaped := by
  rintro ⟨type, data⟩ bytes hx h
  cases h
  refine ⟨by simp, reads_keyType type ?_⟩
  by_cases hWA : type = .WA
  · subst hWA
    obtain ⟨compact, authData, clientJson, hdata, hcompact, hauth, hclient⟩ := hx
    have hdata : data = compact ++ authData ++ clientJson := hdata
    subst hdata
    rw [if_pos rfl, List.append_assoc]
    refine (reads_readArray_of_length hcompact).bind ?_
    refine hauth.bind ?_
    have htail := hclient.bind (f := fun clientJson =>
      (pure ⟨KeyType.WA, compact ++ authData ++ clientJson⟩ : Decoder Signature)) (Reads.pure _)
    rw [List.append_nil] at htail
    rw [← List.append_assoc]
    exact htail
  · have hlen : data.length = 65 := by
      have := hx
      unfold Signature.WireShaped at this
      rwa [if_neg hWA] at this
    rw [if_neg hWA]
    have htail := (reads_readArray_of_length hlen).bind
      (f := fun data => (pure ⟨type, data⟩ : Decoder Signature)) (Reads.pure _)
    rwa [List.append_nil] at htail

end AbiTraits

/-! ## Round trips of the builtins -/

/-- A builtin reads what it wrote for `v` as its own normal form of `v`. -/
def BuiltinType.RoundTrips (b : BuiltinType) (v : Json) : Prop :=
  ∀ bytes, b.encodeJSON v = .ok bytes →
    bytes ≠ [] ∧ ∃ j, Reads b.decodeABI bytes j ∧ b.normalizeJSON v = .ok j

/-- The builtin of a type inherits the round trip of its typed form. -/
theorem makeBuiltin_roundTrips {α : Type} {t : AbiTraits α} {valid : α → Prop}
    (ht : t.RoundTrips valid) {v : Json} (hv : ∀ x, t.fromJSON v = .ok x → valid x) :
    (makeBuiltin t).RoundTrips v := by
  intro bytes h
  obtain ⟨x, hx, hbytes⟩ := bind_eq_ok.mp h
  obtain ⟨hne, hreads⟩ := ht x bytes (hv x hx) hbytes
  refine ⟨hne, t.toJSON x, ?_, ?_⟩
  · have hread := hreads.bind (f := fun typed => pure (t.toJSON typed)) (Reads.pure _)
    rwa [List.append_nil] at hread
  · show (t.fromJSON v >>= fun typed => pure (t.toJSON typed)) = _
    rw [hx]
    rfl

/-- A symbol that was checked once passes its check again. -/
theorem AssetSymbol.ofRaw_of_ok {value : UInt64} {s : AssetSymbol}
    (h : AssetSymbol.ofRaw value = .ok s) : AssetSymbol.ofRaw s.value = .ok s := by
  have hs : s = ⟨value⟩ := by
    unfold AssetSymbol.ofRaw at h
    split at h
    · cases h
    · split at h
      · cases h
      · exact (Except.ok.inj h).symm
  subst hs
  exact h

/-- So does a symbol code. -/
theorem SymbolCode.ofRaw_of_ok {value : UInt64} {c : SymbolCode}
    (h : SymbolCode.ofRaw value = .ok c) : SymbolCode.ofRaw c.value = .ok c := by
  have hc : c = ⟨value⟩ := by
    unfold SymbolCode.ofRaw at h
    split at h
    · cases h
    · exact (Except.ok.inj h).symm
  subst hc
  exact h

/-- A symbol from text passed the check of raw symbols. -/
theorem AssetSymbol.ofRaw_of_ofString {text : Str} {s : AssetSymbol}
    (h : AssetSymbol.ofString text = .ok s) : AssetSymbol.ofRaw s.value = .ok s := by
  unfold AssetSymbol.ofString at h
  simp only at h
  split at h
  · cases h
  · split at h
    · cases h
    · obtain ⟨precision, -, h⟩ := bind_eq_ok.mp h
      split at h
      · split at h
        · cases h
        · exact AssetSymbol.ofRaw_of_ok h
      · cases h

/-- An asset from text has a symbol that passed it. -/
theorem Asset.ofRaw_of_fromString {text : Str} {a : Asset} (h : Asset.fromString text = .ok a) :
    AssetSymbol.ofRaw a.symbol.value = .ok a.symbol := by
  unfold Asset.fromString at h
  simp only at h
  split at h
  · cases h
  · split at h
    · cases h
    · obtain ⟨symbol, hsymbol, h⟩ := bind_eq_ok.mp h
      obtain ⟨units, -, h⟩ := bind_eq_ok.mp h
      cases h
      exact AssetSymbol.ofRaw_of_ok hsymbol

/-- The values a builtin's wire form has room for: a string is UTF-8, and lengths
fit 32 bits; key and signature data have the shape their reader expects. -/
structure Framed (p : Platform) (name : Str) (v : Json) : Prop where
  string : name = "string" → ∀ s, AbiTraits.string.fromJSON v = .ok s →
    isValidUTF8 s = true ∧ s.length < 2 ^ 32
  bytes : name = "bytes" → ∀ b, AbiTraits.bytes.fromJSON v = .ok b → b.length < 2 ^ 32
  publicKey : name = "public_key" → ∀ k, (AbiTraits.publicKey p).fromJSON v = .ok k →
    k.WireShaped
  signature : name = "signature" → ∀ s, (AbiTraits.signature p).fromJSON v = .ok s →
    s.WireShaped

/-- Only strings, byte strings, keys and signatures have to be framed. -/
theorem Framed.of_plain {p : Platform} {name : Str} {v : Json}
    (h : name ∉ [lit "string", lit "bytes", lit "public_key", lit "signature"]) :
    Framed p name v where
  string he := by simp [he] at h
  bytes he := by simp [he] at h
  publicKey he := by simp [he] at h
  signature he := by simp [he] at h

open AbiTraits in
/-- **Every builtin undoes itself**: what it encodes of a framed value, it decodes
to the value it normalizes to. -/
theorem registry_roundTrips (p : Platform) (v : Json) :
    ∀ e ∈ registry p, Framed p e.1 v → e.2.RoundTrips v := by
  have hsymbol : ∀ {text : Json} {s : AssetSymbol}, symbol.fromJSON text = .ok s →
      AssetSymbol.ofRaw s.value = .ok s := by
    intro text s h
    obtain ⟨_, _, h⟩ := bind_eq_ok.mp h
    exact AssetSymbol.ofRaw_of_ofString h
  have hasset : ∀ {text : Json} {a : Asset}, asset.fromJSON text = .ok a →
      AssetSymbol.ofRaw a.symbol.value = .ok a.symbol := by
    intro text a h
    obtain ⟨_, _, h⟩ := bind_eq_ok.mp h
    exact Asset.ofRaw_of_fromString h
  simp only [registry, List.forall_mem_cons, List.not_mem_nil, false_implies, implies_true,
    and_true]
  have always : ∀ {α : Type} {t : AbiTraits α}, t.RoundTrips (fun _ => True) →
      Framed p (builtinEntry t).1 v → (builtinEntry t).2.RoundTrips v :=
    fun ht _ => makeBuiltin_roundTrips ht (fun _ _ => trivial)
  -- In the registry's order; the named goals are the types with a condition of their own.
  refine ⟨always bool_roundTrips, ?string, always int8_roundTrips, always int16_roundTrips,
    always int32_roundTrips, always int64_roundTrips, always int128_roundTrips,
    always uint8_roundTrips, always uint16_roundTrips, always uint32_roundTrips,
    always uint64_roundTrips, always uint128_roundTrips, always varint32_roundTrips,
    always varuint32_roundTrips, always (float32_roundTrips p), always (float64_roundTrips p),
    always float128_roundTrips, always name_roundTrips, ?bytes,
    always (checksum_roundTrips _ 20 (by norm_num)),
    always (checksum_roundTrips _ 32 (by norm_num)),
    always (checksum_roundTrips _ 64 (by norm_num)), ?publicKey, ?signature, ?asset, ?symbol,
    ?symbolCode, ?extendedAsset, always timePoint_roundTrips, always timePointSec_roundTrips,
    always blockTimestamp_roundTrips⟩
  case string => exact fun hv => makeBuiltin_roundTrips string_roundTrips (hv.string rfl)
  case bytes => exact fun hv => makeBuiltin_roundTrips bytes_roundTrips (hv.bytes rfl)
  case publicKey =>
    exact fun hv => makeBuiltin_roundTrips (publicKey_roundTrips p) (hv.publicKey rfl)
  case signature =>
    exact fun hv => makeBuiltin_roundTrips (signature_roundTrips p) (hv.signature rfl)
  case asset => exact fun _ => makeBuiltin_roundTrips asset_roundTrips (fun _ h => hasset h)
  case symbol => exact fun _ => makeBuiltin_roundTrips symbol_roundTrips (fun _ h => hsymbol h)
  case symbolCode =>
    refine fun _ => makeBuiltin_roundTrips symbolCode_roundTrips (fun c h => ?_)
    obtain ⟨_, _, h⟩ := bind_eq_ok.mp h
    exact SymbolCode.ofRaw_of_ok h
  case extendedAsset =>
    refine fun _ => makeBuiltin_roundTrips extendedAsset_roundTrips (fun a h => ?_)
    simp only [extendedAsset] at h
    split at h
    · obtain ⟨quantity, hquantity, h⟩ := bind_eq_ok.mp h
      obtain ⟨contract, -, h⟩ := bind_eq_ok.mp h
      cases h
      exact hasset hquantity
    · cases h

/-- A builtin that is found undoes itself on framed values. -/
theorem findBuiltin_roundTrips {p : Platform} {name : Str} {b : BuiltinType} {v : Json}
    (h : findBuiltin p name = some b) (hv : Framed p name v) : b.RoundTrips v := by
  obtain ⟨e, he, rfl⟩ := Option.map_eq_some_iff.mp h
  have hname : e.1 = name := by simpa using List.find?_some he
  subst hname
  exact registry_roundTrips p v e (List.mem_of_find?_eq_some he) hv

end Dwarfkit
