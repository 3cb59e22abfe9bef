/-
# Contained readers

The readers of texts and of typed json never throw: every json accessor in them comes after
a check of the kind.
-/
import Dwarfkit.Antelope.Chain.Transaction
import Dwarfkit.Antelope.Serializer.Serializer
import Dwarfkit.Core.Contained

namespace Dwarfkit

/-! ## Texts -/

theorem contained_hexPairs (hex : Str) : Contained (hexPairs hex) := by
  induction hex using hexPairs.induct with
  | case1 hi lo rest h l hhi hlo ih =>
    rw [hexPairs, hhi, hlo]
    exact Contained.bind ih (fun _ _ => contained_ok _)
  | case2 hi lo rest hbad =>
    rw [hexPairs]
    split
    · rename_i h l hhi hlo
      exact absurd hlo (hbad h l hhi)
    · simp
  | case3 text hshort =>
    rw [hexPairs]
    · simp
    · exact hshort

/-- Hex text is read or refused. -/
theorem contained_hexToArray (hex : Str) : Contained (hexToArray hex) := by
  unfold hexToArray
  split
  · simp
  · exact contained_hexPairs hex

theorem contained_ofBytes (n : ℕ) (value : Bytes) : Contained (Checksum.ofBytes n value) := by
  unfold Checksum.ofBytes
  split
  · simp
  · simp

/-- So is a checksum. -/
theorem contained_ofHex (n : ℕ) (hex : Str) : Contained (Checksum.ofHex n hex) := by
  unfold Checksum.ofHex
  exact Contained.bind (contained_hexToArray hex) (fun _ _ => contained_ofBytes n _)

theorem contained_jsonString (j : Json) : Contained j.jsonString := by
  cases j <;> simp [Json.jsonString]

/-- A number or a text is read as an integer, or refused. -/
theorem contained_jsonToInt (signed : Bool) (j : Json) : Contained (j.jsonToInt signed) := by
  unfold Json.jsonToInt
  split
  · split <;> simp
  · split <;> simp

theorem contained_jsonToDouble (p : Platform) (j : Json) : Contained (j.jsonToDouble p) := by
  unfold Json.jsonToDouble
  split
  · split <;> simp
  · split <;> simp

theorem contained_parseDecimal (value : Str) : Contained (parseDecimal value) := by
  unfold parseDecimal
  split
  simp only
  split <;> simp

theorem contained_uint128 (value : Str) : Contained (UInt128.ofString value) := by
  unfold UInt128.ofString
  refine Contained.bind (contained_parseDecimal value) (fun parsed _ => ?_)
  split_ifs
  · simp
  · simp
  · exact contained_ok _

theorem contained_int128 (value : Str) : Contained (Int128.ofString value) := by
  unfold Int128.ofString
  refine Contained.bind (contained_parseDecimal value) (fun parsed _ => ?_)
  simp only
  by_cases hnegative : parsed.negative = true
  · rw [if_pos hnegative]
    split
    · simp
    · exact contained_ok _
  · rw [if_neg hnegative]
    split
    · simp
    · exact contained_ok _

/-! ### Keys -/

theorem contained_base58 (s : Str) (size : Option ℕ) : Contained (Base58.decode s size) := by
  have hstep (fixed : Bool) (result : List ℕ) (c : UInt8) :
      Contained (Base58.decodeStep fixed result c) := by
    unfold Base58.decodeStep Base58.decodingError
    split
    · simp
    · simp only
      split_ifs <;> simp
  unfold Base58.decode
  split
  · exact Contained.bind (errorsIn_foldlM (fun b a _ => hstep true b a) _)
      (fun _ _ => contained_ok _)
  · exact Contained.bind (errorsIn_foldlM (fun b a _ => hstep false b a) _)
      (fun _ _ => contained_ok _)

theorem contained_ripemd160Check (crypto : Crypto) (encoded : Str) (size : Option ℕ)
    (suffix : Option Str) : Contained (Base58.decodeRipemd160Check crypto encoded size suffix) := by
  unfold Base58.decodeRipemd160Check Base58.checksumMismatch Base58.decodingError
  refine Contained.bind (contained_base58 encoded _) (fun decoded _ => ?_)
  split
  · simp
  · simp only
    split
    · simp
    · exact contained_ok _

theorem contained_keyType (value : Str) : Contained (KeyType.ofString value) := by
  unfold KeyType.ofString
  split_ifs <;> simp

theorem contained_parseTagged (crypto : Crypto) (value : Str) (size : ℕ) (message : Str) :
    Contained (parseTagged crypto value size message) := by
  unfold parseTagged
  split
  · refine Contained.bind (contained_keyType _) (fun type _ => ?_)
    exact Contained.bind (contained_ripemd160Check crypto _ _ _) (fun _ _ => contained_ok _)
  · simp

theorem contained_publicKey (crypto : Crypto) (value : Str) :
    Contained (PublicKey.ofString crypto value) := by
  unfold PublicKey.ofString
  split_ifs
  · exact Contained.bind (contained_parseTagged crypto value 33 _) (fun _ _ => contained_ok _)
  · exact Contained.bind (contained_ripemd160Check crypto _ _ _) (fun _ _ => contained_ok _)
  · simp

theorem contained_signature (crypto : Crypto) (value : Str) :
    Contained (Signature.ofString crypto value) := by
  unfold Signature.ofString
  split_ifs
  · exact Contained.bind (contained_parseTagged crypto value 65 _) (fun _ _ => contained_ok _)
  · simp

/-! ### Symbols, assets and times -/

theorem contained_symbolCode_ofRaw (value : UInt64) : Contained (SymbolCode.ofRaw value) := by
  unfold SymbolCode.ofRaw
  split <;> simp

theorem contained_symbol_ofRaw (value : UInt64) : Contained (AssetSymbol.ofRaw value) := by
  unfold AssetSymbol.ofRaw
  split_ifs <;> simp

theorem contained_precisionDigits (acc : ℕ) (text : Str) :
    Contained (AssetSymbol.precisionDigits acc text) := by
  induction text generalizing acc with
  | nil => simp [AssetSymbol.precisionDigits]
  | cons c rest ih =>
    unfold AssetSymbol.precisionDigits
    split_ifs
    · simp
    · simp
    · exact ih _

theorem contained_symbol (value : Str) : Contained (AssetSymbol.ofString value) := by
  unfold AssetSymbol.ofString
  simp only
  split
  · simp
  · split_ifs
    · simp
    · refine Contained.bind (contained_precisionDigits 0 _) (fun precision _ => ?_)
      split
      · split_ifs
        · simp
        · exact contained_symbol_ofRaw _
      · simp

theorem contained_parseMagnitude (limit : ℕ) (overflow : Error)
    (hoverflow : overflow.kind ≠ .exception) (magnitude : ℕ) (text : Str) :
    Contained (Asset.parseMagnitude limit overflow magnitude text) := by
  induction text generalizing magnitude with
  | nil => simp [Asset.parseMagnitude]
  | cons c rest ih =>
    unfold Asset.parseMagnitude
    simp only
    split_ifs
    · simp
    · exact (contained_error_iff overflow).mpr hoverflow
    · exact ih _

theorem contained_parseInt64 (value : Str) : Contained (Asset.parseInt64 value) := by
  have hparts (parts : Bool × Str) (overflow : Error) (hoverflow : overflow.kind ≠ .exception) :
      Contained (if parts.2 = [] then err .invalid "Invalid number"
      else do
        let magnitude ← Asset.parseMagnitude (if parts.1 then 2 ^ 63 else 2 ^ 63 - 1) overflow 0
          parts.2
        return Int64.ofInt (if parts.1 then -magnitude else magnitude)) := by
    split
    · simp
    · exact Contained.bind (contained_parseMagnitude _ _ hoverflow 0 _) (fun _ _ => contained_ok _)
  exact hparts _ _ (by simp)

theorem contained_asset (value : Str) : Contained (Asset.fromString value) := by
  unfold Asset.fromString
  simp only
  split
  · simp
  · split_ifs
    · simp
    · refine Contained.bind (contained_symbol_ofRaw _) (fun symbol _ => ?_)
      exact Contained.bind (contained_parseInt64 _) (fun _ _ => contained_ok _)

theorem contained_milliseconds (value : Str) : Contained (parseIsoMilliseconds value) := by
  unfold parseIsoMilliseconds
  simp only
  split <;> simp

theorem contained_float128 (value : Bytes) : Contained (AbiTraits.float128.ofBytes value) := by
  unfold AbiTraits.float128.ofBytes
  split <;> simp

/-! ## Typed json -/

namespace AbiTraits

/-- The json reader of a type never throws, and neither does its writer. -/
structure ContainedForms {α : Type} (t : AbiTraits α) : Prop where
  fromJSON : ∀ j, Contained (t.fromJSON j)
  toABI : ∀ v, Contained (t.toABI v)

theorem bool_contained : bool.ContainedForms :=
  ⟨fun j => by cases j <;> simp [bool], fun _ => contained_ok _⟩

theorem string_contained : string.ContainedForms :=
  ⟨fun j => by cases j <;> simp [string], fun _ => contained_ok _⟩

theorem native_contained {α : Type} (abiName : Str) (n : ℕ) (signed : Bool) (toNat : α → ℕ)
    (ofInt : ℤ → α) (toJSON : α → Json) :
    (native abiName n signed toNat ofInt toJSON).ContainedForms :=
  ⟨fun j => Contained.bind (contained_jsonToInt signed j) (fun _ _ => contained_ok _),
    fun _ => contained_ok _⟩

theorem varint32_contained : varint32.ContainedForms :=
  ⟨fun j => Contained.bind (contained_jsonToInt true j) (fun _ _ => contained_ok _),
    fun _ => contained_ok _⟩

theorem varuint32_contained : varuint32.ContainedForms :=
  ⟨fun j => Contained.bind (contained_jsonToInt false j) (fun _ _ => contained_ok _),
    fun _ => contained_ok _⟩

theorem float32_contained (p : Platform) : (float32 p).ContainedForms :=
  ⟨fun j => Contained.bind (contained_jsonToDouble p j) (fun _ _ => contained_ok _),
    fun _ => contained_ok _⟩

theorem float64_contained (p : Platform) : (float64 p).ContainedForms :=
  ⟨contained_jsonToDouble p, fun _ => contained_ok _⟩

/-- Types that are read from a text, after a look at the number. -/
theorem contained_numberOrText {α : Type} {ofInt : ℤ → α} {ofString : Str → Result α}
    (h : ∀ text, Contained (ofString text)) (j : Json) :
    Contained (match j.getInteger with
      | some n => .ok (ofInt n)
      | none => do
        let text ← j.jsonString
        ofString text) := by
  split
  · exact contained_ok _
  · exact Contained.bind (contained_jsonString j) (fun text _ => h text)

theorem uint128_contained : uint128.ContainedForms :=
  ⟨contained_numberOrText contained_uint128, fun _ => contained_ok _⟩

theorem int128_contained : int128.ContainedForms :=
  ⟨contained_numberOrText contained_int128, fun _ => contained_ok _⟩

theorem textual_contained {α : Type} (abiName : Str) (toABI : α → Bytes) (fromABI : Decoder α)
    (toString : α → Str) {ofString : Str → Result α} (abiDefault : α)
    (h : ∀ text, Contained (ofString text)) :
    (textual abiName toABI fromABI toString ofString abiDefault).ContainedForms :=
  ⟨fun j => Contained.bind (contained_jsonString j) (fun text _ => h text),
    fun _ => contained_ok _⟩

theorem name_contained : name.ContainedForms :=
  textual_contained _ _ _ _ _ (fun _ => contained_ok _)

theorem bytes_contained : bytes.ContainedForms := textual_contained _ _ _ _ _ contained_hexToArray

theorem asset_contained : asset.ContainedForms := textual_contained _ _ _ _ _ contained_asset

theorem time_contained {α : Type} (abiName : Str) (n : ℕ) (toNat : α → ℕ) (ofInt : ℤ → α)
    (toString : α → Str) {ofString : Str → Result α} (h : ∀ text, Contained (ofString text)) :
    (time abiName n toNat ofInt toString ofString).ContainedForms :=
  ⟨contained_numberOrText h, fun _ => contained_ok _⟩

theorem timePointSec_contained : timePointSec.ContainedForms :=
  time_contained _ _ _ _ _ (fun text =>
    Contained.bind (contained_milliseconds text) (fun _ _ => contained_ok _))

/-- A list of such values. -/
theorem vector_contained {α : Type} {t : AbiTraits α} (h : t.ContainedForms) :
    t.vector.ContainedForms := by
  constructor
  · intro j
    cases j with
    | arr items => exact contained_mapM (fun item _ => h.fromJSON item)
    | _ => simp [vector]
  · intro v
    exact Contained.bind (contained_mapM (fun item _ => h.toABI item)) (fun _ _ => contained_ok _)

/-- A member that may not be absent. -/
theorem contained_field {α : Type} {t : AbiTraits α} (h : t.ContainedForms) (j : Json)
    (key : Str) : Contained (field t j key) := by
  unfold field
  split
  · simp
  · simp
  · exact h.fromJSON _

theorem contained_expectObject (j : Json) : Contained (expectObject j) := by
  unfold expectObject
  split <;> simp

theorem extendedAsset_contained : extendedAsset.ContainedForms := by
  constructor
  · intro j
    unfold extendedAsset
    simp only
    split
    · refine Contained.bind (asset_contained.fromJSON _) (fun _ _ => ?_)
      exact Contained.bind (name_contained.fromJSON _) (fun _ _ => contained_ok _)
    · simp
  · intro v
    exact contained_ok _

theorem permissionLevel_contained : permissionLevel.ContainedForms := by
  constructor
  · intro j
    unfold permissionLevel
    simp only
    split
    · unfold PermissionLevel.ofString
      simp only
      split <;> simp
    · refine Contained.bind (contained_expectObject j) (fun _ _ => ?_)
      refine Contained.bind (contained_field name_contained j _) (fun _ _ => ?_)
      exact Contained.bind (contained_field name_contained j _) (fun _ _ => contained_ok _)
  · intro v
    exact contained_ok _

theorem action_contained : action.ContainedForms := by
  constructor
  · intro j
    refine Contained.bind (contained_expectObject j) (fun _ _ => ?_)
    refine Contained.bind (contained_field name_contained j _) (fun _ _ => ?_)
    refine Contained.bind (contained_field name_contained j _) (fun _ _ => ?_)
    refine Contained.bind (contained_field (vector_contained permissionLevel_contained) j _)
      (fun _ _ => ?_)
    exact Contained.bind (contained_field bytes_contained j _) (fun _ _ => contained_ok _)
  · intro v
    refine Contained.bind (name_contained.toABI _) (fun _ _ => ?_)
    refine Contained.bind (name_contained.toABI _) (fun _ _ => ?_)
    refine Contained.bind ((vector_contained permissionLevel_contained).toABI _) (fun _ _ => ?_)
    exact Contained.bind (bytes_contained.toABI _) (fun _ _ => contained_ok _)

theorem transactionExtension_contained : transactionExtension.ContainedForms := by
  constructor
  · intro j
    refine Contained.bind (contained_expectObject j) (fun _ _ => ?_)
    refine Contained.bind (contained_field (native_contained _ _ _ _ _ _) j _) (fun _ _ => ?_)
    exact Contained.bind (contained_field bytes_contained j _) (fun _ _ => contained_ok _)
  · intro v
    exact contained_ok _

theorem contained_transactionHeader (j : Json) : Contained (transactionHeader.fromJSON j) := by
  refine Contained.bind (contained_expectObject j) (fun _ _ => ?_)
  refine Contained.bind (contained_field timePointSec_contained j _) (fun _ _ => ?_)
  refine Contained.bind (contained_field (native_contained _ _ _ _ _ _) j _) (fun _ _ => ?_)
  refine Contained.bind (contained_field (native_contained _ _ _ _ _ _) j _) (fun _ _ => ?_)
  refine Contained.bind (contained_field varuint32_contained j _) (fun _ _ => ?_)
  refine Contained.bind (contained_field (native_contained _ _ _ _ _ _) j _) (fun _ _ => ?_)
  exact Contained.bind (contained_field varuint32_contained j _) (fun _ _ => contained_ok _)

/-! ## The builtin types -/

/-- Every builtin type encodes json or refuses it. -/
theorem registry_contained (p : Platform) :
    ∀ e ∈ registry p, ∀ j, Contained (e.2.encodeJSON j) := by
  have hentry {α : Type} {t : AbiTraits α} (h : t.ContainedForms) (j : Json) :
      Contained ((builtinEntry t).2.encodeJSON j) :=
    Contained.bind (h.fromJSON j) (fun v _ => h.toABI v)
  have hnative {α : Type} (abiName : Str) (n : ℕ) (signed : Bool) (toNat : α → ℕ) (ofInt : ℤ → α)
      (toJSON : α → Json) (j : Json) : Contained ((builtinEntry
        (native abiName n signed toNat ofInt toJSON)).2.encodeJSON j) :=
    hentry (native_contained _ _ _ _ _ _) j
  have htime (text : Str) : Contained (parseIsoMilliseconds text) := contained_milliseconds text
  unfold registry
  simp only [List.forall_mem_cons, List.not_mem_nil, false_implies, implies_true, and_true]
  -- In the registry's order; what is left are the types that are read from a text.
  refine ⟨hentry bool_contained, hentry string_contained, hnative _ _ _ _ _ _, hnative _ _ _ _ _ _,
    hnative _ _ _ _ _ _, hnative _ _ _ _ _ _, hentry int128_contained, hnative _ _ _ _ _ _,
    hnative _ _ _ _ _ _, hnative _ _ _ _ _ _, hnative _ _ _ _ _ _, hentry uint128_contained,
    hentry varint32_contained, hentry varuint32_contained, hentry (float32_contained p),
    hentry (float64_contained p), ?_, hentry name_contained, hentry bytes_contained, ?_, ?_, ?_,
    ?_, ?_, hentry asset_contained, ?_, ?_, hentry extendedAsset_contained, ?_, ?_, ?_⟩
  · refine hentry (textual_contained _ _ _ _ _ (fun text => ?_))
    exact Contained.bind (contained_hexToArray _) (fun _ _ => contained_float128 _)
  · exact hentry (textual_contained _ _ _ _ _ (contained_ofHex 20))
  · exact hentry (textual_contained _ _ _ _ _ (contained_ofHex 32))
  · exact hentry (textual_contained _ _ _ _ _ (contained_ofHex 64))
  · exact hentry (textual_contained _ _ _ _ _ (contained_publicKey p.toCrypto))
  · exact hentry (textual_contained _ _ _ _ _ (contained_signature p.toCrypto))
  · exact hentry (textual_contained _ _ _ _ _ contained_symbol)
  · exact hentry (textual_contained _ _ _ _ _ (fun _ => contained_symbolCode_ofRaw _))
  · exact hentry (time_contained _ _ _ _ _ (fun text =>
      Contained.bind (htime text) (fun _ _ => contained_ok _)))
  · exact hentry timePointSec_contained
  · exact hentry (time_contained _ _ _ _ _ (fun text =>
      Contained.bind (htime text) (fun _ _ => contained_ok _)))

theorem findBuiltin_contained {p : Platform} {name : Str} {builtin : BuiltinType}
    (h : findBuiltin p name = some builtin) (j : Json) : Contained (builtin.encodeJSON j) := by
  obtain ⟨e, hfind, rfl⟩ := Option.map_eq_some_iff.mp h
  exact registry_contained p e (List.mem_of_find?_eq_some hfind) j

end AbiTraits

/-! ## The encoder -/

/-- No json exception escapes from a walker. -/
abbrev ContainedAt {α : Type} (r : Coding α) : Prop :=
  ErrorsIn (fun f : Failure => f.error.kind ≠ .exception) r

theorem containedAt_failAt {α : Type} (path : CodingPath) (message : Str) :
    ContainedAt (failAt path message : Coding α) := by
  rintro f ⟨⟩
  simp

section Encoder

variable (p : Platform) (arena : ABI.Arena)
  {next : CodingPath → Json → ABI.ResolvedNode → Coding Bytes}
  (hnext : ∀ path value type, ContainedAt (next path value type))

include hnext

theorem containedAt_encodeFields (path : CodingPath) (value : Json)
    (fields : List (Str × ABI.ResolvedNode)) :
    ContainedAt (encodeFields next path value fields) := by
  induction fields with
  | nil => exact errorsIn_ok _
  | cons field fields ih =>
    unfold encodeFields
    exact ErrorsIn.bind (hnext _ _ _)
      (fun _ _ => ErrorsIn.bind ih (fun _ _ => errorsIn_ok _))

theorem containedAt_encodeItems (path : CodingPath) (type : ABI.ResolvedNode) (i : ℕ)
    (values : List Json) : ContainedAt (encodeItems next path type i values) := by
  induction values generalizing i with
  | nil => exact errorsIn_ok _
  | cons value values ih =>
    unfold encodeItems
    exact ErrorsIn.bind (hnext _ _ _)
      (fun _ _ => ErrorsIn.bind (ih _) (fun _ _ => errorsIn_ok _))

theorem containedAt_encodeInner (path : CodingPath) (value : Json) (type : ABI.ResolvedNode) :
    ContainedAt (encodeInner p arena next path value type) := by
  unfold encodeInner
  simp only
  split
  · exact hnext _ _ _
  · split
    · split
      · exact errorsIn_ok _
      · exact containedAt_failAt _ _
    · split
      · rename_i builtin _ hbuiltin
        exact errorsIn_mapError_iff.mpr (AbiTraits.findBuiltin_contained hbuiltin value)
      · split
        · split
          · exact containedAt_encodeFields hnext _ _ _
          · exact containedAt_failAt _ _
        · exact containedAt_failAt _ _
      · split
        · exact containedAt_failAt _ _
        · exact ErrorsIn.bind (hnext _ _ _) (fun _ _ => errorsIn_ok _)
      · exact containedAt_failAt _ _

theorem containedAt_encodeContents (path : CodingPath) (value : Json) (type : ABI.ResolvedNode) :
    ContainedAt (encodeContents next path value type) := by
  unfold encodeContents
  split
  · split
    · exact ErrorsIn.bind (containedAt_encodeItems hnext _ _ _ _) (fun _ _ => errorsIn_ok _)
    · exact containedAt_failAt _ _
  · exact hnext _ _ _

end Encoder

theorem containedAt_encodeAny (p : Platform) (arena : ABI.Arena) (fuel : ℕ) (path : CodingPath)
    (value : Json) (type : ABI.ResolvedNode) :
    ContainedAt (encodeAny p arena fuel path value type) := by
  induction fuel generalizing path value type with
  | zero => exact containedAt_failAt _ _
  | succ fuel ih =>
    unfold encodeAny
    split
    · exact errorsIn_ok _
    · refine ErrorsIn.bind (containedAt_encodeContents ?_ _ _ _) (fun _ _ => errorsIn_ok _)
      exact containedAt_encodeInner p arena (fun _ _ _ => ih _ _ _)

/-- **The encoder never throws**: every value is encoded or refused. -/
theorem Serializer.contained_encode (p : Platform) (object : Json) (type : Str) (abi : ABI) :
    Contained (Serializer.encode p object type abi) := by
  unfold Serializer.encode
  exact errorsIn_mapError_iff.mpr (containedAt_encodeAny p _ _ _ _ _)

end Dwarfkit
