/-
# Errors of the readers

The readers of the wire types, and the decoding walker, fail with `ErrorKind::Invalid`
only.  The error of the depth guard is the walker's own: no builtin fails with its text.

* `registry_misreads` : the readers of the builtins;
* `decodeBinary_invalid`, `Serializer.contained_decode` : the walker.
-/
import Dwarfkit.Antelope.Serializer.Contained

namespace Dwarfkit

open Wire

/-- The text of the depth guard of the decoding walkers. -/
def depthText : Str := "Maximum decoding depth exceeded"

/-- An error about what was read, not about how deep it lies. -/
def Misread (e : Error) : Prop := e.kind = .invalid ∧ e.message ≠ depthText

/-- A text that starts differently is not the depth guard's. -/
theorem misread_of_head {message : Str} (h : message.head? ≠ depthText.head?) :
    Misread { kind := .invalid, message } :=
  ⟨rfl, fun heq => h (congrArg List.head? heq)⟩

section Readers

theorem decodeErr_misreads {α : Type} {message : Str} (h : message.head? ≠ depthText.head?) :
    FailsIn Misread (decodeErr .invalid message : Decoder α) := by
  rintro s e ⟨⟩
  exact misread_of_head h

/-- A result inside a decoder fails as the result does. -/
theorem ofResult_misreads {α : Type} {r : Result α} (h : ErrorsIn Misread r) :
    FailsIn Misread (Decoder.ofResult r) := by
  intro s e hrun
  cases r with
  | error e' =>
    cases hrun
    exact h e rfl
  | ok a => cases hrun

theorem readArray_misreads (n : ℕ) : FailsIn Misread (readArray n) := by
  intro s e hrun
  change (if n ≤ s.length then _ else _) = Except.error e at hrun
  split at hrun
  · cases hrun
  · cases hrun
    exact misread_of_head (by decide)

theorem readByte_misreads : FailsIn Misread readByte := by
  rintro (_ | ⟨b, s⟩) e hrun
  · cases hrun
    exact misread_of_head (by decide)
  · cases hrun

theorem readInt_misreads (n : ℕ) : FailsIn Misread (readInt n) := (readArray_misreads n).map _

theorem readVaruint32From_misreads (groups bit : ℕ) (v : UInt32) :
    FailsIn Misread (readVaruint32From groups bit v) := by
  induction groups generalizing bit v with
  | zero => exact readByte_misreads.bind (fun _ => decodeErr_misreads (by decide))
  | succ groups ih => exact readByte_misreads.bind (fun b => FailsIn.ite (FailsIn.pure _) (ih _ _))

theorem readVaruint32_misreads : FailsIn Misread readVaruint32 := readVaruint32From_misreads 5 0 0

theorem readVarint32_misreads : FailsIn Misread readVarint32 :=
  readVaruint32_misreads.bind (fun _ => FailsIn.ite (FailsIn.pure _) (FailsIn.pure _))

theorem readString_misreads : FailsIn Misread readString :=
  readVaruint32_misreads.bind (fun _ => (readArray_misreads _).bind
    (fun _ => FailsIn.ite (FailsIn.pure _) (decodeErr_misreads (by decide))))

theorem remaining_misreads : FailsIn Misread remaining := by
  rintro s e ⟨⟩

theorem canRead_misreads : FailsIn Misread canRead := by
  rintro s e ⟨⟩

end Readers

/-! ## The typed forms -/

namespace AbiTraits

/-- A type whose reader only misreads. -/
abbrev Misreads {α : Type} (t : AbiTraits α) : Prop := FailsIn Misread t.fromABI

theorem readPrefixed_misreads : FailsIn Misread readPrefixed := by
  intro s e hrun
  change (readVaruint32.run s >>= fun q =>
    (readArray q.1.toNat).run q.2 >>= fun r => pure (s.take (s.length - r.2.length), r.2)) = _ at hrun
  cases hlen : readVaruint32.run s with
  | error e' =>
    rw [hlen] at hrun
    cases hrun
    exact readVaruint32_misreads s e hlen
  | ok q =>
    rw [hlen, ok_bind] at hrun
    cases hdata : (readArray q.1.toNat).run q.2 with
    | error e' =>
      rw [hdata] at hrun
      cases hrun
      exact readArray_misreads _ _ e hdata
    | ok r =>
      rw [hdata] at hrun
      cases hrun

theorem symbolCode_ofRaw_misreads (value : UInt64) : ErrorsIn Misread (SymbolCode.ofRaw value) := by
  unfold SymbolCode.ofRaw
  split
  · exact (errorsIn_error_iff _).mpr (misread_of_head (by decide))
  · exact errorsIn_ok _

theorem symbol_ofRaw_misreads (value : UInt64) : ErrorsIn Misread (AssetSymbol.ofRaw value) := by
  unfold AssetSymbol.ofRaw
  split
  · exact (errorsIn_error_iff _).mpr (misread_of_head (by decide))
  · split
    · exact (errorsIn_error_iff _).mpr (misread_of_head (by decide))
    · exact errorsIn_ok _

theorem checksum_ofBytes_misreads (n : ℕ) (value : Bytes) :
    ErrorsIn Misread (Checksum.ofBytes n value) := by
  unfold Checksum.ofBytes
  split
  · exact errorsIn_ok _
  · refine (errorsIn_error_iff _).mpr (misread_of_head ?_)
    intro h
    cases h

theorem keyType_misreads (i : ℕ) : ErrorsIn Misread (KeyType.ofIndex i) := by
  unfold KeyType.ofIndex
  split
  · exact errorsIn_ok _
  · exact errorsIn_ok _
  · exact errorsIn_ok _
  · exact (errorsIn_error_iff _).mpr (misread_of_head (by decide))

/-- The native integers, and the times. -/
theorem readInt_map_misreads {α : Type} (n : ℕ) (f : ℕ → α) :
    FailsIn Misread (do
      let v ← readInt n
      return f v : Decoder α) :=
  (readInt_misreads n).map f

theorem name_misreads : name.Misreads := readInt_map_misreads 8 _

theorem asset_misreads : asset.Misreads :=
  (readInt_misreads 8).bind (fun _ => (readInt_misreads 8).bind
    (fun _ => (ofResult_misreads (symbol_ofRaw_misreads _)).map _))

theorem extendedAsset_misreads : extendedAsset.Misreads :=
  asset_misreads.bind (fun _ => name_misreads.map _)

theorem bytes_misreads : bytes.Misreads :=
  readVaruint32_misreads.bind (fun _ => readArray_misreads _)

theorem checksum_misreads (abiName : Str) (n : ℕ) : (checksum abiName n).Misreads :=
  (readArray_misreads n).bind (fun _ => ofResult_misreads (checksum_ofBytes_misreads n _))

theorem float128_misreads : float128.Misreads := by
  refine (readArray_misreads 16).bind (fun data => ofResult_misreads ?_)
  unfold float128.ofBytes
  split
  · exact errorsIn_ok _
  · exact (errorsIn_error_iff _).mpr (misread_of_head (by decide))

theorem publicKey_misreads (p : Platform) : (publicKey p).Misreads := by
  refine readByte_misreads.bind (fun _ => (ofResult_misreads (keyType_misreads _)).bind (fun _ => ?_))
  apply FailsIn.ite
  · exact (readArray_misreads 33).bind (fun _ => (readArray_misreads 1).bind
      (fun _ => readPrefixed_misreads.map _))
  · exact (readArray_misreads 33).map _

theorem signature_misreads (p : Platform) : (signature p).Misreads := by
  refine readByte_misreads.bind (fun _ => (ofResult_misreads (keyType_misreads _)).bind (fun _ => ?_))
  apply FailsIn.ite
  · exact (readArray_misreads 65).bind (fun _ => readPrefixed_misreads.bind
      (fun _ => readPrefixed_misreads.map _))
  · exact (readArray_misreads 65).map _

theorem readItems_misreads {α : Type} {item : Decoder α} (h : FailsIn Misread item) (n : ℕ)
    (rv : List α) : FailsIn Misread (readItems item n rv) := by
  induction n generalizing rv with
  | zero => exact FailsIn.pure rv
  | succ n ih =>
    exact remaining_misreads.bind (fun _ => h.bind (fun _ => remaining_misreads.bind
      (fun _ => FailsIn.ite (decodeErr_misreads (by decide)) (ih _))))

theorem vector_misreads {α : Type} {t : AbiTraits α} (h : t.Misreads) : (vector t).Misreads :=
  readVaruint32_misreads.bind (fun _ => readItems_misreads h _ _)

theorem optional_misreads {α : Type} {t : AbiTraits α} (h : t.Misreads) : (optional t).Misreads :=
  readByte_misreads.bind (fun _ => FailsIn.ite (FailsIn.pure _) (h.map _))

/-- **The readers of the builtins** only misread. -/
theorem registry_misreads (p : Platform) :
    ∀ e ∈ registry p, FailsIn Misread e.2.decodeABI := by
  have hentry {α : Type} {t : AbiTraits α} (h : t.Misreads) :
      FailsIn Misread (builtinEntry t).2.decodeABI := FailsIn.map h _
  have hint {α : Type} {t : AbiTraits α} (n : ℕ) (f : ℕ → α)
      (h : t.fromABI = do
        let v ← readInt n
        return f v) : FailsIn Misread (builtinEntry t).2.decodeABI := by
    refine hentry ?_
    rw [Misreads, h]
    exact readInt_map_misreads n f
  unfold registry
  simp only [List.forall_mem_cons, List.not_mem_nil, false_implies, implies_true, and_true]
  refine ⟨hentry (readByte_misreads.map _), hentry readString_misreads, hint 1 _ rfl, hint 2 _ rfl,
    hint 4 _ rfl, hint 8 _ rfl, hentry ((readArray_misreads 16).map _), hint 1 _ rfl, hint 2 _ rfl,
    hint 4 _ rfl, hint 8 _ rfl, hentry ((readArray_misreads 16).map _),
    hentry readVarint32_misreads, hentry readVaruint32_misreads, hint 4 _ rfl, hint 8 _ rfl,
    hentry float128_misreads, hentry name_misreads, hentry bytes_misreads,
    hentry (checksum_misreads _ 20), hentry (checksum_misreads _ 32),
    hentry (checksum_misreads _ 64), hentry (publicKey_misreads p),
    hentry (signature_misreads p), hentry asset_misreads, ?_, ?_,
    hentry extendedAsset_misreads, hint 8 _ rfl, hint 4 _ rfl, hint 4 _ rfl⟩
  · exact hentry ((readInt_misreads 8).bind
      (fun _ => ofResult_misreads (symbol_ofRaw_misreads _)))
  · exact hentry ((readInt_misreads 8).bind
      (fun _ => ofResult_misreads (symbolCode_ofRaw_misreads _)))

theorem findBuiltin_misreads {p : Platform} {name : Str} {builtin : BuiltinType}
    (h : findBuiltin p name = some builtin) : FailsIn Misread builtin.decodeABI := by
  obtain ⟨e, hfind, rfl⟩ := Option.map_eq_some_iff.mp h
  exact registry_misreads p e (List.mem_of_find?_eq_some hfind)

end AbiTraits

/-! ## The decoding walker -/

section Walker

variable {p : Platform} {arena : ABI.Arena} {P : Error → Prop}

/-- A walker whose errors have a property, wherever it meets them. -/
abbrev FailsAt {α : Type} (P : Error → Prop) (d : Decoding α) : Prop :=
  FailsIn (fun f : Failure => P f.error) d

theorem failDecoding_failsAt {α : Type} (hP : ∀ e, Misread e → P e) (path : CodingPath)
    {message : Str} (h : message.head? ≠ depthText.head?) :
    FailsAt P (failDecoding path message : Decoding α) := by
  rintro s f ⟨⟩
  exact hP _ (misread_of_head h)

theorem readAt_failsAt {α : Type} {d : Decoder α} (hP : ∀ e, Misread e → P e) (path : CodingPath)
    (h : FailsIn Misread d) : FailsAt P (readAt path d) := by
  intro s f hrun
  change (d.run s).mapError _ = _ at hrun
  cases hd : d.run s with
  | error e =>
    rw [hd] at hrun
    cases hrun
    exact hP e (h s e hd)
  | ok q =>
    rw [hd] at hrun
    cases hrun

theorem popping_failsAt {α : Type} {d : Decoding α} (h : FailsAt P d) : FailsAt P (popping d) := by
  intro s f hrun
  change (d.run s).mapError _ = _ at hrun
  cases hd : d.run s with
  | error e =>
    rw [hd] at hrun
    cases hrun
    exact h s e hd
  | ok q =>
    rw [hd] at hrun
    cases hrun

/-- The types that a walker gets to from a type. -/
def parts (arena : ABI.Arena) (type : ABI.ResolvedNode) : List ABI.ResolvedNode :=
  type.ref.toList.map arena.node ++ ((arena.allFields type).getD []).map (·.2) ++
    (type.variant.getD []).map arena.node

theorem ref_mem_parts {type : ABI.ResolvedNode} {ref : ℕ} (h : type.ref = some ref) :
    arena.node ref ∈ parts arena type := by
  simp [parts, h]

theorem field_mem_parts {type : ABI.ResolvedNode} {fields : List (Str × ABI.ResolvedNode)}
    (h : arena.allFields type = some fields) {field : Str × ABI.ResolvedNode}
    (hfield : field ∈ fields) : field.2 ∈ parts arena type := by
  refine List.mem_append_left _ (List.mem_append_right _ ?_)
  rw [h]
  exact List.mem_map_of_mem hfield

theorem alternative_mem_parts {type : ABI.ResolvedNode} {variant : List ℕ}
    (h : type.variant = some variant) {i : ℕ} (hi : i ∈ variant) :
    arena.node i ∈ parts arena type := by
  refine List.mem_append_right _ ?_
  rw [h]
  exact List.mem_map_of_mem hi

theorem decodeFields_failsAt {next : CodingPath → ABI.ResolvedNode → Decoding Json}
    {path : CodingPath} {fields : List (Str × ABI.ResolvedNode)} (rv : List (Str × Json))
    (hnext : ∀ field ∈ fields, FailsAt P (next (path.push field.1 field.2) field.2)) :
    FailsAt P (decodeFields next path fields rv) := by
  induction fields generalizing rv with
  | nil => exact FailsIn.pure rv
  | cons field fields ih =>
    exact FailsIn.bind (hnext field List.mem_cons_self)
      (fun _ => ih _ (fun f hf => hnext f (List.mem_cons_of_mem _ hf)))

/-- **One level of the decoder** fails as the level below does, or misreads. -/
theorem decodeBinaryInner_failsAt (hP : ∀ e, Misread e → P e)
    {next : CodingPath → ABI.ResolvedNode → Decoding Json} {path : CodingPath}
    {type : ABI.ResolvedNode}
    (hnext : ∀ field, ∀ child ∈ parts arena type, FailsAt P (next (path.push field child) child)) :
    FailsAt P (decodeBinaryInner p arena next path type) := by
  unfold decodeBinaryInner
  -- The branches of the source: builtin, alias, struct, variant, and a type nothing is known of.
  split
  · exact readAt_failsAt hP path (AbiTraits.findBuiltin_misreads (by assumption))
  · rename_i ref _ _ _ href
    exact popping_failsAt (hnext [] _ (ref_mem_parts href))
  · split
    · rename_i fields hall
      exact FailsIn.bind (decodeFields_failsAt []
        (fun field hfield => hnext field.1 field.2 (field_mem_parts hall hfield)))
        (fun _ => FailsIn.pure _)
    · exact failDecoding_failsAt hP path (by decide)
  · rename_i variant _ _ _ hvariant
    refine FailsIn.bind (readAt_failsAt hP path readByte_misreads) (fun vIdx => ?_)
    split
    · refine failDecoding_failsAt hP path ?_
      intro h
      cases h
    · rename_i i hi
      exact FailsIn.bind (hnext _ _ (alternative_mem_parts hvariant (List.mem_of_getElem? hi)))
        (fun _ => FailsIn.pure _)
  · refine failDecoding_failsAt hP path ?_
    split
    · decide
    · decide

theorem decodeItems_failsAt (hP : ∀ e, Misread e → P e)
    {inner : CodingPath → ABI.ResolvedNode → Decoding Json} {path : CodingPath}
    {type : ABI.ResolvedNode} (hinner : ∀ i, FailsAt P (inner (path.pushIndex i type) type)) (n : ℕ)
    (rv : List Json) : FailsAt P (decodeItems inner path type n rv) := by
  induction n generalizing rv with
  | zero => exact FailsIn.pure rv
  | succ n ih =>
    refine FailsIn.bind (readAt_failsAt hP _ remaining_misreads) (fun _ => FailsIn.bind (hinner _)
      (fun _ => FailsIn.bind (readAt_failsAt hP _ remaining_misreads) (fun _ => FailsIn.ite ?_ (ih _))))
    exact failDecoding_failsAt hP _ (by decide)

theorem decodeContents_failsAt (hP : ∀ e, Misread e → P e)
    {inner : CodingPath → ABI.ResolvedNode → Decoding Json} {path : CodingPath}
    {type : ABI.ResolvedNode}
    (hitem : type.isArray = true → ∀ i, FailsAt P (inner (path.pushIndex i type) type))
    (hplain : type.isArray = false → FailsAt P (inner path type)) :
    FailsAt P (decodeContents inner path type) := by
  unfold decodeContents
  by_cases harray : type.isArray = true
  · rw [if_pos harray]
    have hitems (len : UInt32) : FailsAt P (do
        let items ← decodeItems inner path type len.toNat []
        return Json.arr items) :=
      FailsIn.bind (decodeItems_failsAt hP (hitem harray) _ _) (fun _ => FailsIn.pure _)
    cases type.size with
    | some n => exact hitems n
    | none => exact FailsIn.bind (readAt_failsAt hP path readVaruint32_misreads) hitems
  · rw [if_neg harray]
    exact hplain (by simpa using harray)

/-- The optional byte and the check for an absent extension around the contents. -/
theorem decodeBinary_failsAt (hP : ∀ e, Misread e → P e) {fuel : ℕ} {path : CodingPath}
    {type : ABI.ResolvedNode} (hpath : path.length ≤ maxCodingDepth)
    (hcontents : FailsAt P
      (decodeContents (decodeBinaryInner p arena (decodeBinary p arena fuel)) path type)) :
    FailsAt P (decodeBinary p arena (fuel + 1) path type) := by
  rw [decodeBinary, if_neg (by omega)]
  refine FailsIn.bind (readAt_failsAt hP path canRead_misreads) (fun _ => ?_)
  apply FailsIn.ite
  · exact FailsIn.pure _
  · apply FailsIn.ite
    · exact FailsIn.bind (readAt_failsAt hP path readByte_misreads)
        (fun _ => FailsIn.ite (FailsIn.pure _) hcontents)
    · exact hcontents

/-- **The decoder fails with `Invalid` only.** -/
theorem decodeBinary_invalid (p : Platform) (arena : ABI.Arena) (fuel : ℕ) (path : CodingPath)
    (type : ABI.ResolvedNode) :
    FailsAt (fun e => e.kind = .invalid) (decodeBinary p arena fuel path type) := by
  have hP : ∀ e, Misread e → e.kind = .invalid := fun e h => h.1
  have hdeep (path : CodingPath) : FailsAt (fun e => e.kind = .invalid)
      (failDecoding path "Maximum decoding depth exceeded" : Decoding Json) := by
    rintro s f ⟨⟩
    rfl
  induction fuel generalizing path type with
  | zero => exact hdeep path
  | succ fuel ih =>
    by_cases hpath : path.length ≤ maxCodingDepth
    · exact decodeBinary_failsAt hP hpath (decodeContents_failsAt hP
        (fun _ _ => decodeBinaryInner_failsAt hP (fun _ _ _ => ih _ _))
        (fun _ => decodeBinaryInner_failsAt hP (fun _ _ _ => ih _ _)))
    · rw [decodeBinary, if_pos (by omega)]
      exact hdeep path

end Walker

/-- So does `Serializer::decode`. -/
theorem Serializer.contained_decode (p : Platform) (data : Bytes) (type : Str) (abi : ABI) :
    Contained (Serializer.decode p data type abi) := by
  refine contained_map_iff.mpr ?_
  unfold decodeFront
  refine errorsIn_mapError_iff.mpr ?_
  intro f hrun
  have hkind : f.error.kind = .invalid := decodeBinary_invalid p _ _ _ _ data f hrun
  show f.error.kind ≠ .exception
  rw [hkind]
  simp

end Dwarfkit
