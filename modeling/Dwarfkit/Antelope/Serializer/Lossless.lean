/-
# Encoding undoes decoding

The other round trip of the dynamic serializer: what bytes are decoded to is written as
the same bytes again.  Once decoding undoes encoding, that asks of every json form that it
is read as the value it was made of.  `Lossless` says, along the resolved type, which
values have such a form.  It can be lost

* in a float, whose text has as many digits as the platform prints;
* in a `time_point`, whose text has milliseconds and four digits for the year;
* in a struct that has a field of its base's name, of which one value is kept.

`registry_rewrites` : every builtin is written as it was, floats and times permitting;
`regains_of_lossless` : bytes of a reversible and lossless value come back.
-/
import Dwarfkit.Antelope.Chain.Decimal128
import Dwarfkit.Antelope.Serializer.AssetForms
import Dwarfkit.Antelope.Serializer.JsonForms
import Dwarfkit.Antelope.Serializer.KeyText
import Dwarfkit.Antelope.Serializer.RoundTrip

namespace Dwarfkit

/-! ## Builtins -/

namespace AbiTraits

/-- The json form of a value is read as the value, and is never null. -/
def Legible {α : Type} (t : AbiTraits α) (x : α) : Prop :=
  t.fromJSON (t.toJSON x) = .ok x ∧ (t.toJSON x).isNull = false

theorem ReadsJson.legible {α : Type} {t : AbiTraits α} (h : t.ReadsJson) (x : α) : t.Legible x := by
  refine ⟨h.read x, ?_⟩
  have hnull := h.notNull x
  cases hjson : t.toJSON x with
  | null => exact absurd hjson hnull
  | _ => rfl

theorem bool_readsJson : bool.ReadsJson where
  read := fun _ => rfl
  notNull := fun _ heq => by cases heq

theorem string_readsJson : string.ReadsJson where
  read := fun _ => rfl
  notNull := fun _ heq => by cases heq

theorem varint32_readsJson : varint32.ReadsJson where
  read := by
    intro x
    show Except.ok (Int32.ofInt (Int64.ofInt x.toInt).toInt) = _
    have hlow := x.le_toInt
    have hhigh := x.toInt_lt
    rw [Int64.toInt_ofInt_of_le (by omega) (by omega), Int32.ofInt_toInt]
  notNull := fun _ heq => by cases heq

/-- The json forms that 128-bit integers are read from. -/
theorem uint128_fromJSON_str (text : Str) : uint128.fromJSON (.str text) = UInt128.ofString text := rfl

theorem uint128_fromJSON_uint (n : UInt64) :
    uint128.fromJSON (.uint n) = .ok { lo := UInt64.ofInt (n.toNat : ℤ) } := rfl

theorem int128_fromJSON_str (text : Str) : int128.fromJSON (.str text) = Int128.ofString text := rfl

theorem int128_fromJSON_uint (n : UInt64) :
    int128.fromJSON (.uint n) = .ok (.ofInt64 (Int64.ofInt (n.toNat : ℤ))) := rfl

theorem int128_fromJSON_int (n : Int64) :
    int128.fromJSON (.int n) = .ok (.ofInt64 (Int64.ofInt n.toInt)) := rfl

theorem uint128_readsJson : uint128.ReadsJson where
  read := by
    intro x
    change uint128.fromJSON x.toJSON = _
    unfold UInt128.toJSON
    split
    · rw [uint128_fromJSON_str, Decimal128.uint128_ofString_eq, Decimal128.uint128_toString_eq]
      exact Decimal128.uint128_read_back x .throw
    · rename_i hsmall
      obtain ⟨hhi, -⟩ := not_or.mp hsmall
      rw [uint128_fromJSON_uint, ofInt_toNat_uint64]
      obtain ⟨lo, hi⟩ := x
      have hzero : hi = 0 := not_not.mp hhi
      rw [hzero]
  notNull := by
    intro x heq
    change x.toJSON = .null at heq
    unfold UInt128.toJSON at heq
    split at heq
    · cases heq
    · cases heq

/-- A small magnitude is what a 128-bit integer is without its sign. -/
theorem toNat_small_magnitude {x : Int128} (h : x.magnitude.hi = 0) :
    x.magnitude.lo.toNat = x.toInt.natAbs := by
  rw [← x.toNat_magnitude, UInt128.toNat, h]
  simp

theorem int128_readsJson : int128.ReadsJson where
  read := by
    intro x
    change int128.fromJSON x.toJSON = _
    unfold Int128.toJSON
    simp only
    split
    · rw [int128_fromJSON_str, Decimal128.int128_ofString_eq, Decimal128.int128_toString_eq]
      exact Decimal128.int128_read_back x .throw
    · rename_i hsmall
      obtain ⟨hhi, hlo⟩ := not_or.mp hsmall
      have hvalue := toNat_small_magnitude (not_not.mp hhi)
      have hbound : x.magnitude.lo.toNat ≤ 0xffffffff :=
        UInt64.le_iff_toNat_le.mp (UInt64.not_lt.mp hlo)
      have hnegative := x.isNegative_iff_toInt
      -- the small magnitude with its sign is the number itself
      have hsame : ∀ k : Int64, k.toInt = x.toInt → Int128.ofInt64 k = x :=
        fun k hk => Int128.toInt_injective ((Int128.toInt_ofInt64 k).trans hk)
      generalize x.magnitude.lo = m at hvalue hbound
      split
      · rename_i hneg
        have hlt := hnegative.mp hneg
        have hmagnitude : m.toInt64.toInt = m.toNat := by
          have hpattern : m.toInt64.toInt = (m.toNat : ℤ).bmod (2 ^ 64) :=
            BitVec.toInt_eq_toNat_bmod m.toBitVec
          rw [hpattern, Int.bmod_eq_of_le (by omega) (by omega)]
        rw [int128_fromJSON_int, hsame]
        rw [Int64.ofInt_toInt, Int64.toInt_neg, hmagnitude, Int.bmod_eq_of_le (by omega) (by omega)]
        omega
      · rename_i hpos
        have hge : ¬ x.toInt < 0 := fun h => hpos (hnegative.mpr h)
        rw [int128_fromJSON_uint, hsame]
        rw [Int64.toInt_ofInt_of_le (by omega) (by omega)]
        omega
  notNull := by
    intro x heq
    change x.toJSON = .null at heq
    unfold Int128.toJSON at heq
    simp only at heq
    split at heq
    · cases heq
    · split at heq
      · cases heq
      · cases heq

theorem checksum_readsJson (abiName : Str) (n : ℕ) : (checksum abiName n).ReadsJson :=
  textual_readsJson _ _ _ _ _ _ Checksum.ofHex_hexString

theorem float128_readsJson : float128.ReadsJson := by
  refine textual_readsJson _ _ _ _ _ _ (fun x => ?_)
  have hfront : (lit "0x").isPrefixOf (lit "0x" ++ arrayToHex x.array) = true :=
    List.isPrefixOf_iff_prefix.mpr (List.prefix_append _ _)
  simp only [hfront, if_true]
  show (hexToArray (arrayToHex x.array) >>= float128.ofBytes) = _
  rw [hexToArray_arrayToHex, ok_bind]
  unfold float128.ofBytes
  rw [dif_pos x.size_eq]

theorem publicKey_legible {p : Platform} {k : PublicKey} (h : k.WireShaped) :
    (publicKey p).Legible k := by
  refine ⟨publicKey_ofString_toString p.toCrypto (fun hWA => ?_), rfl⟩
  unfold PublicKey.WireShaped at h
  rwa [if_neg hWA] at h

theorem signature_legible {p : Platform} {s : Signature} (h : s.WireShaped) :
    (signature p).Legible s := by
  refine ⟨signature_ofString_toString p.toCrypto (fun hWA => ?_), rfl⟩
  unfold Signature.WireShaped at h
  rwa [if_neg hWA] at h

theorem asset_legible {a : Asset} (h : AssetSymbol.ofRaw a.symbol.value = .ok a.symbol) :
    asset.Legible a :=
  ⟨asset_fromString_toString h, rfl⟩

theorem symbol_legible {s : AssetSymbol} (h : AssetSymbol.ofRaw s.value = .ok s) :
    symbol.Legible s :=
  ⟨symbol_ofString_toString h, rfl⟩

/-- A code from text has at most seven bytes. -/
theorem symbolCode_legible {text : Str} {c : SymbolCode} (h : SymbolCode.ofString text = .ok c) :
    symbolCode.Legible c := by
  unfold SymbolCode.ofString at h
  obtain ⟨-, rfl⟩ := (SymbolCode.ofRaw_eq_ok_iff _ _).mp h
  obtain ⟨hvalue, hlt⟩ := toNat_toRawSymbolCode text
  exact ⟨(SymbolCode.text_iff h).mpr (hvalue ▸ hlt), rfl⟩

theorem extendedAsset_legible {a : ExtendedAsset}
    (h : AssetSymbol.ofRaw a.quantity.symbol.value = .ok a.quantity.symbol) :
    extendedAsset.Legible a := by
  refine ⟨?_, rfl⟩
  show (do
    let quantity ← asset.fromJSON (asset.toJSON a.quantity)
    let contract ← name.fromJSON (name.toJSON a.contract)
    return ({ quantity, contract } : ExtendedAsset)) = _
  rw [(asset_legible h).1, ok_bind, name_readsJson.read, ok_bind]
  rfl

theorem time_legible {α : Type} (abiName : Str) (n : ℕ) (toNat : α → ℕ) (ofInt : ℤ → α)
    (toString : α → Str) (ofString : Str → Result α) {x : α} (h : ofString (toString x) = .ok x) :
    (time abiName n toNat ofInt toString ofString).Legible x :=
  ⟨h, rfl⟩

/-- A time that its text says all of. -/
theorem timePoint_legible {t : TimePoint} (h : t.Shown) : timePoint.Legible t :=
  time_legible _ _ _ _ _ _ (TimePoint.fromString_toString h)

end AbiTraits

/-- A builtin's json form of a value is written as the value. -/
def BuiltinType.Rewrites (b : BuiltinType) (v : Json) : Prop :=
  ∀ bytes j, b.encodeJSON v = .ok bytes → b.normalizeJSON v = .ok j →
    b.encodeJSON j = .ok bytes ∧ j.isNull = false

theorem makeBuiltin_rewrites {α : Type} {t : AbiTraits α} {v : Json}
    (h : ∀ x, t.fromJSON v = .ok x → t.Legible x) : (makeBuiltin t).Rewrites v := by
  intro bytes j hencode hnormalize
  obtain ⟨x, hx, hbytes⟩ := bind_eq_ok.mp hencode
  obtain ⟨y, hy, hj⟩ := bind_eq_ok.mp hnormalize
  rw [hx] at hy
  cases hy
  cases hj
  obtain ⟨hread, hnull⟩ := h x hx
  exact ⟨bind_eq_ok.mpr ⟨x, hread, hbytes⟩, hnull⟩

/-- What a builtin's json form has room for: the text of a float is read as the float, and the
text of a `time_point` says all of it. -/
structure Printable (p : Platform) (name : Str) (v : Json) : Prop where
  float32 : name = "float32" → ∀ x, (AbiTraits.float32 p).fromJSON v = .ok x →
    (AbiTraits.float32 p).fromJSON ((AbiTraits.float32 p).toJSON x) = .ok x
  float64 : name = "float64" → ∀ x, (AbiTraits.float64 p).fromJSON v = .ok x →
    (AbiTraits.float64 p).fromJSON ((AbiTraits.float64 p).toJSON x) = .ok x
  timePoint : name = "time_point" → ∀ t, AbiTraits.timePoint.fromJSON v = .ok t → t.Shown

/-- Only floats and time points have to be printable. -/
theorem Printable.of_plain {p : Platform} {name : Str} {v : Json}
    (h : name ∉ [lit "float32", lit "float64", lit "time_point"]) : Printable p name v where
  float32 he := by simp [he] at h
  float64 he := by simp [he] at h
  timePoint he := by simp [he] at h

open AbiTraits in
/-- **Every builtin is written as it was**, for framed and printable values. -/
theorem registry_rewrites (p : Platform) (v : Json) :
    ∀ e ∈ registry p, Framed p e.1 v → Printable p e.1 v → e.2.Rewrites v := by
  have hasset : ∀ {text : Json} {a : Asset}, asset.fromJSON text = .ok a →
      AssetSymbol.ofRaw a.symbol.value = .ok a.symbol := by
    intro text a h
    obtain ⟨_, _, h⟩ := bind_eq_ok.mp h
    exact Asset.ofRaw_of_fromString h
  have always : ∀ {α : Type} {t : AbiTraits α}, t.ReadsJson →
      Framed p (builtinEntry t).1 v → Printable p (builtinEntry t).1 v →
      (builtinEntry t).2.Rewrites v :=
    fun ht _ _ => makeBuiltin_rewrites (fun x _ => ht.legible x)
  simp only [registry, List.forall_mem_cons, List.not_mem_nil, false_implies, implies_true,
    and_true]
  -- In the registry's order; the named goals are the types with a condition of their own.
  refine ⟨always bool_readsJson, always string_readsJson, always (native_readsJson .int8),
    always (native_readsJson .int16), always (native_readsJson .int32),
    always (native_readsJson .int64), always int128_readsJson, always uint8_readsJson,
    always uint16_readsJson, always uint32_readsJson, always (native_readsJson .uint64),
    always uint128_readsJson, always varint32_readsJson, always varuint32_readsJson, ?float32,
    ?float64, always float128_readsJson, always name_readsJson, always bytes_readsJson,
    always (checksum_readsJson _ 20), always (checksum_readsJson _ 32),
    always (checksum_readsJson _ 64), ?publicKey, ?signature, ?asset, ?symbol, ?symbolCode,
    ?extendedAsset, ?timePoint, always timePointSec_readsJson, always blockTimestamp_readsJson⟩
  case float32 => exact fun _ hv => makeBuiltin_rewrites (fun x hx => ⟨hv.float32 rfl x hx, rfl⟩)
  case float64 => exact fun _ hv => makeBuiltin_rewrites (fun x hx => ⟨hv.float64 rfl x hx, rfl⟩)
  case publicKey =>
    exact fun hv _ => makeBuiltin_rewrites (fun k hk => publicKey_legible (hv.publicKey rfl k hk))
  case signature =>
    exact fun hv _ => makeBuiltin_rewrites (fun s hs => signature_legible (hv.signature rfl s hs))
  case asset => exact fun _ _ => makeBuiltin_rewrites (fun a ha => asset_legible (hasset ha))
  case symbol =>
    refine fun _ _ => makeBuiltin_rewrites (fun s hs => symbol_legible ?_)
    obtain ⟨_, _, hs⟩ := bind_eq_ok.mp hs
    exact AssetSymbol.ofRaw_of_ofString hs
  case symbolCode =>
    refine fun _ _ => makeBuiltin_rewrites (fun c hc => ?_)
    obtain ⟨_, _, hc⟩ := bind_eq_ok.mp hc
    exact symbolCode_legible hc
  case extendedAsset =>
    refine fun _ _ => makeBuiltin_rewrites (fun a ha => extendedAsset_legible ?_)
    simp only [extendedAsset] at ha
    split at ha
    · obtain ⟨quantity, hquantity, ha⟩ := bind_eq_ok.mp ha
      obtain ⟨contract, -, ha⟩ := bind_eq_ok.mp ha
      cases ha
      exact hasset hquantity
    · cases ha
  case timePoint =>
    exact fun _ hv => makeBuiltin_rewrites (fun t ht => timePoint_legible (hv.timePoint rfl t ht))

/-- A builtin that is found is written as it was. -/
theorem findBuiltin_rewrites {p : Platform} {name : Str} {b : BuiltinType} {v : Json}
    (h : findBuiltin p name = some b) (hframed : Framed p name v) (hv : Printable p name v) :
    b.Rewrites v := by
  obtain ⟨e, he, rfl⟩ := Option.map_eq_some_iff.mp h
  have hname : e.1 = name := by simpa using List.find?_some he
  subst hname
  exact registry_rewrites p v e (List.mem_of_find?_eq_some he) hframed hv

/-! ## Lossless values -/

section Lossless

variable (p : Platform) (arena : ABI.Arena)

/-- What the walkers make of a value past the suffixes of its type. -/
def LosslessInner (next : Json → ABI.ResolvedNode → Prop) (value : Json)
    (type : ABI.ResolvedNode) : Prop :=
  match followed p arena type with
  | some target => next value target
  | none =>
    type.ref = none ∧ value.isNull = false ∧
      match type.fields, type.variant with
      | some _, _ =>
        match arena.allFields type with
        | some fields => (fields.map Prod.fst).Nodup ∧
            ∀ field ∈ fields, next (value.jsonAt field.1) field.2
        | none => True
      | none, some variant =>
        match findAlternative arena variant (chosenAlternative value).1 with
        | some vIdx => next (chosenAlternative value).2 (arena.node (variant.getD vIdx 0))
        | none => True
      | none, none => Framed p type.name value ∧ Printable p type.name value

/-- The json form of the value, as `type`, says all that is written of it. -/
def Lossless : (fuel : ℕ) → Json → ABI.ResolvedNode → Prop
  | 0, _, _ => True
  | fuel + 1, value, type =>
    if value.isNull then True
    else if type.isArray then
      ∀ item ∈ value.elements, LosslessInner p arena (Lossless fuel) item type
    else LosslessInner p arena (Lossless fuel) value type

variable {p arena}

/-- What is written of a null does not depend on the path. -/
theorem encodeAny_null_path {fuel : ℕ} {type : ABI.ResolvedNode} {path : CodingPath} {bytes : Bytes}
    (h : encodeAny p arena fuel path .null type = .ok bytes) (path' : CodingPath) :
    encodeAny p arena fuel path' .null type = .ok bytes := by
  -- Only a chain of aliases writes a null further down, and it does not look at the path.
  induction fuel generalizing type path path' bytes with
  | zero => cases h
  | succ fuel ih =>
    unfold encodeAny at h ⊢
    split
    · rename_i hoptional
      rw [if_pos hoptional] at h
      exact h
    · rename_i hoptional
      rw [if_neg hoptional] at h
      obtain ⟨contents, hcontents, h⟩ := bind_eq_ok.mp h
      refine bind_eq_ok.mpr ⟨contents, ?_, h⟩
      unfold encodeContents at hcontents ⊢
      by_cases harray : type.isArray = true
      · rw [if_pos harray] at hcontents
        cases hcontents
      · rw [if_neg harray] at hcontents ⊢
        cases hfollowed : followed p arena type with
        | some target =>
          rw [encodeInner_of_followed hfollowed] at hcontents ⊢
          exact ih hcontents path'
        | none =>
          unfold encodeInner at hcontents ⊢
          unfold followed at hfollowed
          simp only at hcontents ⊢
          split at hcontents
          · rename_i href hbuiltin
            rw [href, hbuiltin] at hfollowed
            cases hfollowed
          · have hnull : Json.null.isNull = true := rfl
            rw [if_pos hnull] at hcontents ⊢
            split at hcontents
            · rename_i hextension
              rw [if_pos hextension]
              exact hcontents
            · cases hcontents

/-- An alternative that is found is named by its type. -/
theorem typeName_of_findAlternative {variant : List ℕ} {vName : Str} {vIdx : ℕ}
    (h : findAlternative arena variant vName = some vIdx) :
    (arena.node (variant.getD vIdx 0)).typeName = vName := by
  obtain ⟨hlt, hmatches, -⟩ := List.findIdx?_eq_some_iff_getElem.mp h
  rw [List.getD_eq_getElem _ _ hlt]
  exact of_decide_eq_true hmatches

/-- The normalized members of a struct whose field names are distinct. -/
theorem normalizeFields_lookup {next : CodingPath → Json → ABI.ResolvedNode → Coding Json}
    {path : CodingPath} {value : Json} {fields : List (Str × ABI.ResolvedNode)}
    {rv members : List (Str × Json)} (hnodup : (fields.map Prod.fst).Nodup)
    (h : normalizeFields next path value fields rv = .ok members) :
    (∀ name, name ∉ fields.map Prod.fst → Json.lookup members name = Json.lookup rv name) ∧
    ∀ field ∈ fields, ∃ j, next (path.push field.1 field.2) (value.jsonAt field.1) field.2 = .ok j ∧
      Json.lookup members field.1 = some j := by
  induction fields generalizing rv with
  | nil =>
    cases h
    exact ⟨fun _ _ => rfl, by simp⟩
  | cons field fields ih =>
    obtain ⟨name, type⟩ := field
    rw [List.map_cons, List.nodup_cons] at hnodup
    obtain ⟨hnew, hnodup⟩ := hnodup
    obtain ⟨j, hj, h⟩ := bind_eq_ok.mp h
    obtain ⟨hother, hfields⟩ := ih hnodup h
    constructor
    · intro name' hname'
      rw [List.map_cons, List.mem_cons, not_or] at hname'
      rw [hother name' hname'.2, Json.lookup_insert_of_ne _ _ hname'.1]
    · refine List.forall_mem_cons.mpr ⟨⟨j, hj, ?_⟩, hfields⟩
      rw [hother name hnew, Json.lookup_insert_self]

/-- Members that are written alike make structs that are written alike. -/
theorem encodeFields_rewrite {next : CodingPath → Json → ABI.ResolvedNode → Coding Bytes}
    {path path' : CodingPath} {value j : Json} {fields : List (Str × ABI.ResolvedNode)}
    {bytes : Bytes}
    (hfields : ∀ field ∈ fields, ∀ bytes path,
      next path (value.jsonAt field.1) field.2 = .ok bytes →
      ∀ path', next path' (j.jsonAt field.1) field.2 = .ok bytes)
    (h : encodeFields next path value fields = .ok bytes) :
    encodeFields next path' j fields = .ok bytes := by
  induction fields generalizing bytes with
  | nil => exact h
  | cons field fields ih =>
    obtain ⟨name, type⟩ := field
    obtain ⟨hhead, htail⟩ := List.forall_mem_cons.mp hfields
    obtain ⟨front, hfront, h⟩ := bind_eq_ok.mp h
    obtain ⟨back, hback, h⟩ := bind_eq_ok.mp h
    exact bind_eq_ok.mpr ⟨front, hhead _ _ hfront _, bind_eq_ok.mpr ⟨back, ih htail hback, h⟩⟩

variable (p arena)

/-- What is written of a lossless value is written of its normal form, at every path. -/
def RewritesAny (fuel : ℕ) : Prop :=
  ∀ (value : Json) (type : ABI.ResolvedNode) (bytes : Bytes) (j : Json) (path path' : CodingPath),
    Lossless p arena fuel value type → encodeAny p arena fuel path value type = .ok bytes →
    decodeObject p arena fuel path' value type = .ok j →
    j.isNull = value.isNull ∧ ∀ path'', encodeAny p arena fuel path'' j type = .ok bytes

variable {p arena}

/-- **One level past the suffixes**: alias, struct, variant or builtin. -/
theorem rewritesInner {fuel : ℕ} (hnext : RewritesAny p arena fuel) {value : Json}
    {type : ABI.ResolvedNode} {bytes : Bytes} {j : Json} {path path' : CodingPath}
    (hlossless : LosslessInner p arena (Lossless p arena fuel) value type)
    (hencode : encodeInner p arena (encodeAny p arena fuel) path value type = .ok bytes)
    (hnormalize : decodeObjectInner p arena (decodeObject p arena fuel) path' value type = .ok j) :
    j.isNull = value.isNull ∧
      ∀ path'', encodeInner p arena (encodeAny p arena fuel) path'' j type = .ok bytes := by
  unfold LosslessInner at hlossless
  cases hfollowed : followed p arena type with
  | some target =>
    rw [hfollowed] at hlossless
    rw [encodeInner_of_followed hfollowed] at hencode
    rw [decodeObjectInner_of_followed hfollowed] at hnormalize
    obtain ⟨hnull, hbytes⟩ := hnext _ _ _ _ _ _ hlossless hencode hnormalize
    refine ⟨hnull, fun path'' => ?_⟩
    rw [encodeInner_of_followed hfollowed]
    exact hbytes path''
  | none =>
    rw [hfollowed] at hlossless
    obtain ⟨href, hvalue, hlossless⟩ := hlossless
    cases hfields : type.fields with
    | some own =>
      rw [hfields] at hlossless
      simp only [encodeInner, href, hfields, hvalue, Bool.false_eq_true, if_false] at hencode
      simp only [decodeObjectInner, href, hfields] at hnormalize
      split at hencode
      · rename_i hobject
        rw [if_pos hobject] at hnormalize
        cases hall : arena.allFields type with
        | none =>
          rw [hall] at hencode
          cases hencode
        | some fields =>
          rw [hall] at hencode hnormalize hlossless
          obtain ⟨hnodup, hlossless⟩ := hlossless
          obtain ⟨members, hmembers, hnormalize⟩ := bind_eq_ok.mp hnormalize
          cases hnormalize
          obtain ⟨-, hlookup⟩ := normalizeFields_lookup hnodup hmembers
          refine ⟨hvalue.symm, fun path'' => ?_⟩
          have hmember : ∀ field ∈ fields, ∀ bytes path,
              encodeAny p arena fuel path (value.jsonAt field.1) field.2 = .ok bytes →
              ∀ path', encodeAny p arena fuel path' ((Json.obj members).jsonAt field.1) field.2 =
                .ok bytes := by
            intro field hfield bytes path hbytes path'
            obtain ⟨j, hj, hfind⟩ := hlookup field hfield
            have hat : (Json.obj members).jsonAt field.1 = j := by
              show (Json.lookup members field.1).getD .null = j
              rw [hfind]
              rfl
            rw [hat]
            exact (hnext _ _ _ _ _ _ (hlossless field hfield) hbytes hj).2 path'
          simp only [encodeInner, href, hfields, hall, Json.isNull, Json.isObject,
            Bool.false_eq_true, if_false, if_true]
          exact encodeFields_rewrite hmember hencode
      · cases hencode
    | none =>
      cases hvariant : type.variant with
      | some variant =>
        simp only [hfields, hvariant] at hlossless
        simp only [encodeInner, href, hfields, hvariant, hvalue, Bool.false_eq_true, if_false]
          at hencode
        simp only [decodeObjectInner, href, hfields, hvariant] at hnormalize
        cases hfound : findAlternative arena variant (chosenAlternative value).1 with
        | none =>
          rw [hfound] at hencode
          cases hencode
        | some vIdx =>
          rw [hfound] at hlossless
          simp only [hfound] at hencode hnormalize
          obtain ⟨content, hcontent, hencode⟩ := bind_eq_ok.mp hencode
          obtain ⟨inner, hinner, hnormalize⟩ := bind_eq_ok.mp hnormalize
          cases hencode
          cases hnormalize
          have hname := typeName_of_findAlternative hfound
          -- The normal form names the alternative by its type, which finds the same one again.
          have hagain : findAlternative arena variant
              (arena.node (variant.getD vIdx 0)).typeName = some vIdx := by
            rw [hname]
            exact hfound
          refine ⟨hvalue.symm, fun path'' => ?_⟩
          simp only [encodeInner, href, hfields, hvariant, Json.isNull, Bool.false_eq_true,
            if_false, chosenAlternative, hagain]
          rw [(hnext _ _ _ _ _ _ hlossless hcontent hinner).2, ok_bind]
          rfl
      | none =>
        simp only [hfields, hvariant] at hlossless
        simp only [encodeInner, href, hfields, hvariant, hvalue, Bool.false_eq_true, if_false]
          at hencode
        simp only [decodeObjectInner, href, hfields, hvariant] at hnormalize
        cases hbuiltin : findBuiltin p type.name with
        | none =>
          rw [hbuiltin] at hencode
          cases hencode
        | some builtin =>
          simp only [hbuiltin] at hencode hnormalize
          obtain ⟨hagain, hnull⟩ := findBuiltin_rewrites hbuiltin hlossless.1 hlossless.2 bytes j
            (atPath_eq_ok.mp hencode) (atPath_eq_ok.mp hnormalize)
          refine ⟨hnull.trans hvalue.symm, fun path'' => ?_⟩
          simp only [encodeInner, href, hfields, hvariant, hnull, hbuiltin, Bool.false_eq_true,
            if_false]
          exact atPath_eq_ok.mpr hagain

/-- The items of an array. -/
theorem items_rewritten {fuel : ℕ} (hnext : RewritesAny p arena fuel) {type : ABI.ResolvedNode}
    {items items' : List Json} {bytes : Bytes} {path path' : CodingPath} {i i' : ℕ}
    (hlossless : ∀ item ∈ items, LosslessInner p arena (Lossless p arena fuel) item type)
    (hencode : encodeItems (encodeInner p arena (encodeAny p arena fuel)) path type i items =
      .ok bytes)
    (hnormalize : normalizeItems (decodeObjectInner p arena (decodeObject p arena fuel)) path' type
      i' items = .ok items') :
    items'.length = items.length ∧ ∀ path'' i'',
      encodeItems (encodeInner p arena (encodeAny p arena fuel)) path'' type i'' items' =
        .ok bytes := by
  induction items generalizing items' bytes i i' with
  | nil =>
    cases hencode
    cases hnormalize
    exact ⟨rfl, fun _ _ => rfl⟩
  | cons item items ih =>
    obtain ⟨hhead, htail⟩ := List.forall_mem_cons.mp hlossless
    obtain ⟨front, hfront, hencode⟩ := bind_eq_ok.mp hencode
    obtain ⟨back, hback, hencode⟩ := bind_eq_ok.mp hencode
    obtain ⟨item', hitem', hnormalize⟩ := bind_eq_ok.mp hnormalize
    obtain ⟨rest, hrest, hnormalize⟩ := bind_eq_ok.mp hnormalize
    cases hencode
    cases hnormalize
    obtain ⟨hlength, hitems⟩ := ih htail hback hrest
    refine ⟨by rw [List.length_cons, List.length_cons, hlength], fun path'' i'' => ?_⟩
    have hagain := (rewritesInner hnext hhead hfront hitem').2 (path''.pushIndex i'' type)
    exact bind_eq_ok.mpr ⟨front, hagain, bind_eq_ok.mpr ⟨back, hitems path'' (i'' + 1), rfl⟩⟩

/-- What `encodeContents` writes of a lossless value that is not null. -/
theorem contents_rewritten {fuel : ℕ} (hnext : RewritesAny p arena fuel) {value : Json}
    {type : ABI.ResolvedNode} {bytes : Bytes} {j : Json} {path path' : CodingPath}
    (hvalue : value.isNull = false) (hlossless : Lossless p arena (fuel + 1) value type)
    (hencode : encodeContents (encodeInner p arena (encodeAny p arena fuel)) path value type =
      .ok bytes)
    (hnormalize : normalizeContents (decodeObjectInner p arena (decodeObject p arena fuel)) path'
      value type = .ok j) :
    j.isNull = false ∧ ∀ path'',
      encodeContents (encodeInner p arena (encodeAny p arena fuel)) path'' j type = .ok bytes := by
  rw [Lossless, hvalue, if_neg Bool.false_ne_true] at hlossless
  by_cases harray : type.isArray = true
  · obtain ⟨items, rfl⟩ := encodeContents_array harray hencode
    unfold encodeContents at hencode ⊢
    unfold normalizeContents at hnormalize
    rw [if_pos harray] at hlossless hencode hnormalize
    simp only at hencode hnormalize
    obtain ⟨body, hbody, hencode⟩ := bind_eq_ok.mp hencode
    obtain ⟨items', hitems', hnormalize⟩ := bind_eq_ok.mp hnormalize
    cases hnormalize
    -- As many items are written as before, so the length in front is the same.
    obtain ⟨hlength, hitems⟩ := items_rewritten hnext hlossless hbody hitems'
    refine ⟨rfl, fun path'' => ?_⟩
    rw [if_pos harray]
    simp only
    rw [hitems path'' 0, ok_bind, hlength]
    exact hencode
  · unfold encodeContents at hencode ⊢
    unfold normalizeContents at hnormalize
    rw [if_neg harray] at hlossless hencode hnormalize
    obtain ⟨hnull, hagain⟩ := rewritesInner hnext hlossless hencode hnormalize
    refine ⟨hnull.trans hvalue, fun path'' => ?_⟩
    rw [if_neg harray]
    exact hagain path''

/-- **The normal form of a lossless value is written as the value.** -/
theorem rewritesAny (p : Platform) (arena : ABI.Arena) (fuel : ℕ) : RewritesAny p arena fuel := by
  induction fuel with
  | zero =>
    intro value type bytes j path path' _ hencode
    cases hencode
  | succ fuel ih =>
    intro value type bytes j path path' hlossless hencode hnormalize
    unfold decodeObject at hnormalize
    cases hvalue : value.isNull with
    | true =>
      obtain rfl := Json.eq_null_of_isNull hvalue
      rw [if_pos hvalue] at hnormalize
      split at hnormalize
      · cases hnormalize
        exact ⟨rfl, encodeAny_null_path hencode⟩
      · cases hnormalize
    | false =>
      rw [hvalue, if_neg Bool.false_ne_true] at hnormalize
      rw [encodeAny, hvalue, Bool.and_false, if_neg Bool.false_ne_true] at hencode
      obtain ⟨contents, hcontents, hencode⟩ := bind_eq_ok.mp hencode
      obtain ⟨hnull, hagain⟩ := contents_rewritten ih hvalue hlossless hcontents hnormalize
      refine ⟨hnull, fun path'' => ?_⟩
      rw [encodeAny, hnull, Bool.and_false, if_neg Bool.false_ne_true, hagain path'', ok_bind]
      exact hencode

end Lossless

/-! ## The serializer -/

namespace Serializer

/-- A value that is lossless from the root of its type. -/
def Lossless (p : Platform) (abi : ABI) (type : Str) (value : Json) : Prop :=
  let (arena, root) := abi.resolveType type
  Dwarfkit.Lossless p arena (maxCodingDepth + 1) value (arena.node root)

/-- Encoding undoes decoding on the bytes of `value`: whatever it is encoded as is decoded to
an object that is encoded as the same bytes. -/
def Regains (p : Platform) (abi : ABI) (type : Str) (value : Json) : Prop :=
  ∀ bytes, encode p value type abi = .ok bytes →
    ∃ j, decode p bytes type abi = .ok j ∧ encode p j type abi = .ok bytes

/-- The row says all that is written of it. -/
theorem row_lossless : Lossless default rowABI "row" row := by
  unfold Lossless
  rw [resolveType_row]
  have plain : ∀ {name : Str} {v : Json}, name ∈ [lit "uint8", lit "uint16"] →
      Framed default name v ∧ Printable default name v := by
    intro name v h
    constructor
    · apply Framed.of_plain
      rcases List.mem_pair.mp h with rfl | rfl <;> decide
    · apply Printable.of_plain
      rcases List.mem_pair.mp h with rfl | rfl <;> decide
  refine And.intro rfl (And.intro rfl (And.intro (by decide) ?_))
  simp only [List.cons_append, List.nil_append, List.map_cons, List.map_nil, List.forall_mem_cons]
  refine ⟨?id, ?counts, trivial, trivial, fun _ h => by cases h⟩
  case id => exact And.intro rfl (And.intro rfl (plain (by decide)))
  case counts =>
    refine List.forall_mem_cons.mpr ⟨?_, List.forall_mem_singleton.mpr ?_⟩
    · exact And.intro rfl (And.intro rfl (plain (by decide)))
    · exact And.intro rfl (And.intro rfl (plain (by decide)))

/-- Bytes that are decoded to an object that is not encoded as them. -/
theorem not_regains {p : Platform} {abi : ABI} {type : Str} {value : Json} {bytes : Bytes}
    (hencode : (encode p value type abi).toOption = some bytes)
    (h : ((decode p bytes type abi).toOption.bind (fun j => (encode p j type abi).toOption)) ≠
      some bytes) : ¬ Regains p abi type value := by
  intro hregains
  cases hresult : encode p value type abi with
  | error e =>
    rw [hresult] at hencode
    cases hencode
  | ok written =>
    rw [hresult] at hencode
    obtain rfl : written = bytes := Option.some.inj hencode
    obtain ⟨j, hdecode, hagain⟩ := hregains written hresult
    rw [hdecode] at h
    apply h
    show (encode p j type abi).toOption = _
    rw [hagain]
    rfl

end Serializer

end Dwarfkit
