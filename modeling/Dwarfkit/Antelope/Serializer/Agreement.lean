/-
# Static and dynamic decoders

The static decoder of a type against the dynamic one over the ABI that is synthesized from
it.  Their indices of variant alternatives differ: the static decoder reads a varuint32,
the dynamic one a byte.

* `decodeBinary_lockstep` : the dynamic decoder against a static one whose indices are
  single bytes;
* `decode_agrees` : the two decoders agree where every index they meet is one byte.
-/
import Dwarfkit.Antelope.Serializer.Nodes
import Dwarfkit.Antelope.Serializer.Serializer
import Dwarfkit.Core.JsonText
import Dwarfkit.Library.Lockstep

namespace Dwarfkit

open Wire

/-! ## Absent members -/

namespace Json

mutual

/-- A value without the members that are null, at any depth. -/
def dropNulls : Json → Json
  | .arr items => .arr (dropNullsItems items)
  | .obj members => .obj (dropNullsMembers members)
  | j => j

def dropNullsItems : List Json → List Json
  | [] => []
  | j :: items => j.dropNulls :: dropNullsItems items

def dropNullsMembers : List (Str × Json) → List (Str × Json)
  | [] => []
  | (name, j) :: members =>
    if j.isNull then dropNullsMembers members else (name, j.dropNulls) :: dropNullsMembers members

end

@[simp]
theorem isNull_dropNulls (j : Json) : j.dropNulls.isNull = j.isNull := by
  cases j <;> rfl

theorem dropNullsMembers_append (members members' : List (Str × Json)) :
    dropNullsMembers (members ++ members') =
      dropNullsMembers members ++ dropNullsMembers members' := by
  induction members with
  | nil => rfl
  | cons m members ih =>
    obtain ⟨name, j⟩ := m
    rw [List.cons_append, dropNullsMembers, dropNullsMembers, ih]
    split
    · rfl
    · rfl

end Json

/-! ## A dynamic result and a static value -/

/-- The dynamic decoder's result is the value's json, up to the members left out for what
is absent. -/
def Shows (j : Json) (v : DkValue) : Prop := j.dropNulls = v.toJSON.dropNulls

theorem Shows.items {js : List Json} {vs : List DkValue} (h : List.Forall₂ Shows js vs) :
    Shows (.arr js) (.array vs) := by
  have hitems : Json.dropNullsItems js = Json.dropNullsItems (DkValue.itemsJSON vs) := by
    induction h with
    | nil => rfl
    | @cons j v js vs hj _ ih =>
      rw [DkValue.itemsJSON, Json.dropNullsItems, Json.dropNullsItems, ih]
      congr 1
  show Json.arr (Json.dropNullsItems js) = Json.arr (Json.dropNullsItems (DkValue.itemsJSON vs))
  rw [hitems]

/-- One member, and what its value leaves of it. -/
theorem Shows.member {j : Json} {v : DkValue} (h : Shows j v) (name : Str) :
    Json.dropNullsMembers [(name, j)] =
      Json.dropNullsMembers (if v.jsonFieldPresent then [(name, v.toJSON)] else []) := by
  have hnull : j.isNull = v.toJSON.isNull := by
    rw [← Json.isNull_dropNulls j, h, Json.isNull_dropNulls]
  cases hpresent : v.jsonFieldPresent with
  | true =>
    rw [if_pos rfl, Json.dropNullsMembers, Json.dropNullsMembers, hnull, h]
    rfl
  | false =>
    have habsent : v.toJSON.isNull = true := by
      cases v with
      | absent => rfl
      | _ => cases hpresent
    rw [if_neg Bool.false_ne_true]
    exact if_pos (hnull.trans habsent)

/-- The members of a struct whose field names are distinct. -/
theorem Shows.members {js : List (Str × Json)} {vs : List (Str × DkValue)}
    (h : List.Forall₂ (fun m v => m.1 = v.1 ∧ Shows m.2 v.2) js vs)
    (hnodup : (js.map Prod.fst).Nodup) : Shows (.obj js) (.struct vs) := by
  -- Stated for the members written so far, none of which has the name of a later one.
  have hmembers : ∀ obj : List (Str × Json), (∀ m ∈ js, m.1 ∉ obj.map Prod.fst) →
      Json.dropNullsMembers (DkValue.fieldsJSON vs obj) =
        Json.dropNullsMembers (obj ++ js) := by
    induction h with
    | nil =>
      intro obj _
      rw [List.append_nil]
      rfl
    | @cons m v js vs hm _ ih =>
      intro obj hobj
      obtain ⟨name, j⟩ := m
      obtain ⟨name', value⟩ := v
      obtain ⟨hname, hshows⟩ := hm
      simp only at hname hshows
      subst hname
      obtain ⟨hfresh, hnodup⟩ := List.nodup_cons.mp hnodup
      have hnew : name ∉ obj.map Prod.fst := hobj (name, j) (by simp)
      have hinsert : (if value.jsonFieldPresent then Json.insert obj name value.toJSON else obj) =
          obj ++ (if value.jsonFieldPresent then [(name, value.toJSON)] else []) := by
        cases value.jsonFieldPresent with
        | true => exact Json.insert_of_not_mem _ hnew
        | false => exact (List.append_nil _).symm
      have hkeys : ∀ m ∈ js, m.1 ∉ (obj ++
          (if value.jsonFieldPresent then [(name, value.toJSON)] else [])).map Prod.fst := by
        intro m hm hmem
        rw [List.map_append, List.mem_append] at hmem
        rcases hmem with hmem | hmem
        · exact hobj m (by simp [hm]) hmem
        · have heq : m.1 = name := by
            cases hp : value.jsonFieldPresent with
            | true => simpa [hp] using hmem
            | false => simp [hp] at hmem
          exact hfresh (List.mem_map.mpr ⟨m, hm, heq⟩)
      rw [DkValue.fieldsJSON, hinsert, ih hnodup _ hkeys, ← List.singleton_append (l := js),
        ← List.append_assoc]
      rw [Json.dropNullsMembers_append, Json.dropNullsMembers_append, Json.dropNullsMembers_append,
        Json.dropNullsMembers_append, hshows.member name]
  show Json.obj (Json.dropNullsMembers js) =
    Json.obj (Json.dropNullsMembers (DkValue.fieldsJSON vs []))
  rw [hmembers [] (fun m _ => by simp), List.nil_append]

/-! ## Indices of alternatives -/

namespace DkTypes

/-- An index that fits one byte of a varuint32. -/
def readShortIdx : Decoder UInt32 := do
  let b ← readByte
  if b < 0x80 then return b.toUInt32 else decodeErr .invalid "Index of several bytes"

/-- The error of an index that does not. -/
def LongIdx (e : Error) : Prop := e.message = lit "Index of several bytes"

/-- The error of a value nested too deeply. -/
def TooDeep (f : Failure) : Prop := f.error.message = lit "Maximum decoding depth exceeded"

theorem longIdx_of_readShortIdx {b : UInt8} {rest : Bytes} (h : ¬ b < 0x80) :
    ∃ e, readShortIdx.run (b :: rest) = .error e ∧ LongIdx e := by
  have hrun : readShortIdx.run (b :: rest) = err .invalid "Index of several bytes" := by
    show (if b < 0x80 then (pure b.toUInt32 : Decoder UInt32)
      else decodeErr .invalid "Index of several bytes").run rest = _
    rw [if_neg h]
    rfl
  exact ⟨_, hrun, rfl⟩

theorem readShortIdx_short {b : UInt8} {rest : Bytes} (h : b < 0x80) :
    readShortIdx.run (b :: rest) = .ok (b.toUInt32, rest) := by
  show (if b < 0x80 then (pure b.toUInt32 : Decoder UInt32)
    else decodeErr .invalid "Index of several bytes").run rest = _
  rw [if_pos h]
  rfl

/-- The dynamic decoder's index is the short one. -/
theorem readByte_lockstep (E : Failure → Prop) (path : CodingPath) :
    Lockstep E LongIdx (fun (b : UInt8) (idx : UInt32) => idx.toNat = b.toNat)
      (readAt path readByte) readShortIdx := by
  intro s
  cases s with
  | nil => trivial
  | cons b rest =>
    have hbyte : (readAt path readByte).run (b :: rest) = .ok (b, rest) := rfl
    rw [hbyte]
    by_cases hb : b < 0x80
    · rw [readShortIdx_short hb]
      exact ⟨by simp, rfl⟩
    · obtain ⟨e, he, hlong⟩ := @longIdx_of_readShortIdx b rest hb
      rw [he]
      exact hlong

/-- So is the static decoder's. -/
theorem readVaruint32_lockstep (E' : Error → Prop) :
    Lockstep LongIdx E' Eq readShortIdx readVaruint32 := by
  intro s
  cases s with
  | nil => trivial
  | cons b rest =>
    by_cases hb : b < 0x80
    · -- A single byte is its own value, for both readers.
      have hcontinue : b &&& 0x80 = 0 := by
        revert hb
        revert b
        exact forall_byte (by decide +kernel)
      have hvalue : (0 : UInt32) ||| ((b &&& 0x7f).toUInt32 <<< (0 : ℕ).toUInt32) = b.toUInt32 := by
        revert hb
        revert b
        exact forall_byte (by decide +kernel)
      have hrun : readVaruint32.run (b :: rest) = .ok (b.toUInt32, rest) := by
        show ((let v := (0 : UInt32) ||| ((b &&& 0x7f).toUInt32 <<< (0 : ℕ).toUInt32)
          if b &&& 0x80 = 0 then return v else readVaruint32From 4 (0 + 7) v) :
          Decoder UInt32).run rest = _
        simp only [hvalue]
        rw [if_pos hcontinue]
        rfl
      rw [readShortIdx_short hb, hrun]
      exact ⟨rfl, rfl⟩
    · obtain ⟨e, he, hlong⟩ := @longIdx_of_readShortIdx b rest hb
      rw [he]
      cases readVaruint32.run (b :: rest) with
      | ok q => exact hlong
      | error e' => trivial

/-! ## Containers -/

/-- A primitive reader used at a path. -/
theorem lockstep_readAt {α : Type} (E : Failure → Prop) (E' : Error → Prop) (path : CodingPath)
    (d : Decoder α) : Lockstep E E' Eq (readAt path d) d := by
  intro s
  show SameOutcome E E' Eq (atPath path (d.run s)) (d.run s)
  cases d.run s with
  | ok q => exact ⟨rfl, rfl⟩
  | error e => trivial

theorem tooDeep_of_failDecoding {α : Type} (path : CodingPath) (s : Bytes) :
    ∃ f, (failDecoding path "Maximum decoding depth exceeded" : Decoding α).run s = .error f ∧
      TooDeep f := by
  have hrun : (failDecoding path "Maximum decoding depth exceeded" : Decoding α).run s =
      failAt path "Maximum decoding depth exceeded" := rfl
  exact ⟨_, hrun, rfl⟩

/-- The pop after an alias does not change the error. -/
theorem lockstep_popping {α β : Type} {E' : Error → Prop} {R : α → β → Prop} {d : Decoding α}
    {d' : Decoder β} (h : Lockstep TooDeep E' R d d') : Lockstep TooDeep E' R (popping d) d' := by
  intro s
  have hs := h s
  show SameOutcome TooDeep E' R ((d.run s).mapError _) (d'.run s)
  cases hd : d.run s with
  | ok q =>
    rw [hd] at hs
    exact hs
  | error f =>
    rw [hd] at hs
    cases hd' : d'.run s with
    | ok q =>
      rw [hd'] at hs
      exact hs
    | error e => trivial

section Containers

variable {p : Platform} {types : DkTypes} {E' : Error → Prop}

/-- The item loops. -/
theorem decodeItems_lockstep {inner : CodingPath → ABI.ResolvedNode → Decoding Json}
    {node : ABI.ResolvedNode} {item : Decoder DkValue}
    (hitem : ∀ path, Lockstep TooDeep E' Shows (inner path node) item) (path : CodingPath) (n : ℕ)
    {js : List Json} {vs : List DkValue} (h : List.Forall₂ Shows js vs) :
    Lockstep TooDeep E' (List.Forall₂ Shows) (decodeItems inner path node n js)
      (AbiTraits.readItems item n vs) := by
  induction n generalizing js vs with
  | zero => exact .pure h
  | succ n ih =>
    refine (lockstep_readAt _ _ _ _).bind ?_
    rintro before _ rfl
    refine (hitem _).bind ?_
    intro j v hjv
    refine (lockstep_readAt _ _ _ _).bind ?_
    rintro after _ rfl
    rw [← h.length_eq]
    by_cases hbound : after = before ∧ after + 1 ≤ js.length
    · rw [if_pos hbound, if_pos hbound]
      exact .fail (fun s => ⟨_, rfl⟩) (fun s => ⟨_, rfl⟩)
    · rw [if_neg hbound, if_neg hbound]
      exact ih (List.rel_append h (.cons hjv .nil))

/-- The arrays. -/
theorem decodeContents_lockstep {inner : CodingPath → ABI.ResolvedNode → Decoding Json}
    {node : ABI.ResolvedNode} {item : Decoder DkValue}
    (hitem : ∀ path, Lockstep TooDeep E' Shows (inner path node) item) (hsize : node.size = none)
    (path : CodingPath) :
    Lockstep TooDeep E' Shows (decodeContents inner path node)
      (if node.isArray then vectorFromABI item else item) := by
  unfold decodeContents
  cases node.isArray with
  | true =>
    rw [if_pos rfl, if_pos rfl, hsize]
    refine (lockstep_readAt _ _ _ _).bind ?_
    rintro len _ rfl
    refine (decodeItems_lockstep hitem path len.toNat .nil).bind ?_
    intro js vs h
    exact .pure (.items h)
  | false => exact hitem path

/-- The optionals. -/
theorem optional_lockstep {contents : Decoding Json} {value : Decoder DkValue}
    (h : Lockstep TooDeep E' Shows contents value) (isOptional : Bool) (path : CodingPath) :
    Lockstep TooDeep E' Shows
      (if isOptional then do
        let present ← readAt path readByte
        if present = 0 then return .null else contents
      else contents)
      (if isOptional then optionalFromABI value else value) := by
  cases isOptional with
  | false => exact h
  | true =>
    refine (lockstep_readAt _ _ _ _).bind ?_
    rintro present _ rfl
    by_cases hpresent : present = 0
    · rw [if_pos hpresent, if_pos hpresent]
      exact .pure rfl
    · rw [if_neg hpresent, if_neg hpresent, ← id_map contents]
      exact h.map (fun j v hjv => hjv)

/-- The extensions, and with them all containers of a type. -/
theorem decodeBinary_lockstep_of_inner {arena : ABI.Arena} {fuel : ℕ} {node : ABI.ResolvedNode}
    {t : DkType types.count} {item : Decoder DkValue}
    (hitem : ∀ path, Lockstep TooDeep E' Shows
      (decodeBinaryInner p arena (decodeBinary p arena fuel) path node) item)
    (hsize : node.size = none) (harray : node.isArray = t.isArray)
    (hoptional : node.isOptional = t.isOptional) (hextension : node.isExtension = t.isExtension)
    (path : CodingPath) :
    Lockstep TooDeep E' Shows (decodeBinary p arena (fuel + 1) path node)
      (wrapFromABI types t item) := by
  by_cases hdeep : maxCodingDepth < path.length
  · rw [decodeBinary, if_pos hdeep]
    exact .giveUp (tooDeep_of_failDecoding path) _
  · have hcontents := optional_lockstep (decodeContents_lockstep hitem hsize path) node.isOptional path
    rw [decodeBinary, if_neg hdeep]
    unfold wrapFromABI
    simp only
    rw [← harray, ← hoptional, ← hextension]
    cases node.isExtension with
    | true =>
      refine (lockstep_readAt _ _ _ _).bind ?_
      rintro more _ rfl
      cases more with
      | true =>
        rw [if_pos rfl, ← id_map (if node.isOptional = true then _ else _)]
        exact hcontents.map (fun j v hjv => hjv)
      | false => exact .pure rfl
    | false => exact fun s => hcontents s

end Containers

/-! ## Structs -/

section Structs

variable {p : Platform} {types : DkTypes} {arena : ABI.Arena} {tys : List (DkType types.count)}

/-- The node of a declared struct, whatever its containers. -/
theorem Reflects.struct_node (h : Reflects types arena tys) {k : ℕ} {t : DkType types.count}
    (ht : PointsTo types tys k t) {i : Fin types.count} (htype : t.type = .declared i)
    {base : Option (Fin types.count)} {fields : List (Str × DkType types.count)}
    (hdecl : types.decl i = .struct base fields) :
    ∃ base' fields',
      arena.node k = { types.parsed t with base := base', fields := some fields' } ∧
        Option.Rel (fun b k => PointsTo types tys k (types.plain b)) base base' ∧
        List.Forall₂ (fun f f' => f'.1 = f.1 ∧ PointsTo types tys f'.2 f.2) fields fields' := by
  have hcomplete := h.complete k t ht
  unfold Complete at hcomplete
  rw [htype] at hcomplete
  simp only [hdecl] at hcomplete
  exact hcomplete

/-- Distinct positions of an arena are no more than its nodes. -/
theorem length_le_of_nodup {l : List ℕ} (hnodup : l.Nodup) {n : ℕ} (h : ∀ k ∈ l, k < n) :
    l.length ≤ n := by
  rw [← List.toFinset_card_of_nodup hnodup, ← Finset.card_range n]
  apply Finset.card_le_card
  intro k hk
  exact Finset.mem_range.mpr (h k (List.mem_toFinset.mp hk))

/-- The loop of `allFields`, at a struct whose extensions are at the positions `visited` and
have the names `seen`. -/
theorem collectFields_eq (hinj : Function.Injective types.abiName) (h : Reflects types arena tys)
    (fuel : ℕ) {k : ℕ} {t : DkType types.count} (ht : PointsTo types tys k t)
    {i : Fin types.count} (htype : t.type = .declared i) (hstruct : (types.decl i).isStruct = true)
    {seen : List Str} (hseen : ∀ name ∈ seen, ∃ j, i < j ∧ name = types.abiName j)
    {visited : List ℕ} (hnodup : visited.Nodup)
    (hvisited : ∀ v ∈ visited, ∃ s j, PointsTo types tys v s ∧ s.type = .declared j ∧ i < j)
    (hfuel : visited.length + fuel = arena.length + 1) (rv : List (Str × ℕ)) :
    ∃ fields, arena.collectFields fuel seen (arena.node k) rv = some (fields ++ rv) ∧
      List.Forall₂ (fun f f' => f'.1 = f.1 ∧ PointsTo types tys f'.2 f.2) (types.dkForEach i)
        fields := by
  induction fuel generalizing k t i seen visited rv with
  | zero =>
    have hlen := length_le_of_nodup hnodup (n := tys.length) (fun v hv => by
      obtain ⟨s, j, hs, -, -⟩ := hvisited v hv
      exact hs.lt)
    rw [← h.length] at hlen
    omega
  | succ fuel ih =>
    obtain ⟨base, fields, hdecl⟩ : ∃ base fields, types.decl i = .struct base fields := by
      cases hdecl : types.decl i with
      | struct base fields => exact ⟨base, fields, rfl⟩
      | variant alternatives =>
        rw [hdecl] at hstruct
        cases hstruct
      | typeAlias aliased =>
        rw [hdecl] at hstruct
        cases hstruct
    obtain ⟨base', fields', hnode, hbase, hfields⟩ := h.struct_node ht htype hdecl
    have hname : (types.parsed t).name = types.abiName i := by
      unfold parsed
      rw [htype]
      rfl
    -- A base has a smaller number than the struct, so no extension's name comes again.
    have hfresh : types.abiName i ∉ seen := by
      intro hmem
      obtain ⟨j, hlt, hj⟩ := hseen _ hmem
      rw [hinj hj] at hlt
      exact lt_irrefl j hlt
    rw [dkForEach_eq, hdecl, ABI.Arena.collectFields, hnode]
    simp only [hname, if_neg hfresh]
    cases hbase with
    | none => exact ⟨fields', rfl, hfields⟩
    | @some b kb hb =>
      have hlt : b < i := types.base_lt i b (by rw [hdecl]; rfl)
      have hnew : k ∉ visited := by
        intro hmem
        obtain ⟨s, j, hs, hj, hij⟩ := hvisited k hmem
        obtain rfl : t = s := Option.some.inj (ht.symm.trans hs)
        rw [htype] at hj
        cases hj
        exact lt_irrefl i hij
      have hseen' : ∀ name ∈ types.abiName i :: seen, ∃ j, b < j ∧ name = types.abiName j := by
        intro name hmem
        rcases List.mem_cons.mp hmem with rfl | hmem
        · exact ⟨i, hlt, rfl⟩
        · obtain ⟨j, hij, hj⟩ := hseen name hmem
          exact ⟨j, hlt.trans hij, hj⟩
      have hvisited' : ∀ v ∈ k :: visited, ∃ s j, PointsTo types tys v s ∧
          s.type = .declared j ∧ b < j := by
        intro v hv
        rcases List.mem_cons.mp hv with rfl | hv
        · exact ⟨t, i, ht, htype, hlt⟩
        · obtain ⟨s, j, hs, hj, hij⟩ := hvisited v hv
          exact ⟨s, j, hs, hj, hlt.trans hij⟩
      obtain ⟨inherited, hcollect, hinherited⟩ := ih hb (i := b) rfl
        (types.base_struct i b (by rw [hdecl]; rfl)) hseen' (List.nodup_cons.mpr ⟨hnew, hnodup⟩)
        hvisited' (by rw [List.length_cons]; omega) (fields' ++ rv)
      refine ⟨inherited ++ fields', ?_, List.rel_append hinherited hfields⟩
      show arena.collectFields fuel _ _ _ = _
      rw [hcollect, List.append_assoc]

/-- **`allFields` lists the fields of `dkForEach`.** -/
theorem allFields_eq (hinj : Function.Injective types.abiName) (h : Reflects types arena tys)
    {k : ℕ} {t : DkType types.count} (ht : PointsTo types tys k t) {i : Fin types.count}
    (htype : t.type = .declared i) (hstruct : (types.decl i).isStruct = true) :
    ∃ fields, arena.allFields (arena.node k) = some fields ∧
      List.Forall₂ (fun f g => g.1 = f.1 ∧ ∃ k, g.2 = arena.node k ∧ PointsTo types tys k f.2)
        (types.dkForEach i) fields := by
  have hseen : ∀ name ∈ ([] : List Str), ∃ j, i < j ∧ name = types.abiName j := by simp
  have hvisited : ∀ v ∈ ([] : List ℕ), ∃ s j, PointsTo types tys v s ∧ s.type = .declared j ∧
      i < j := by simp
  obtain ⟨fields, hcollect, hfields⟩ := collectFields_eq hinj h (arena.length + 1) ht htype hstruct
    hseen List.nodup_nil hvisited (Nat.zero_add _) []
  refine ⟨fields.map (fun f => (f.1, arena.node f.2)), ?_, ?_⟩
  · unfold ABI.Arena.allFields
    rw [hcollect, List.append_nil]
    rfl
  · rw [List.forall₂_map_right_iff]
    exact hfields.imp (fun f f' hf => ⟨hf.1, f'.2, rfl, hf.2⟩)

/-- The field loops. -/
theorem decodeFields_lockstep {E' : Error → Prop}
    {next : CodingPath → ABI.ResolvedNode → Decoding Json}
    {next' : DkType types.count → Decoder DkValue}
    (hnext : ∀ k t path, PointsTo types tys k t →
      Lockstep TooDeep E' Shows (next path (arena.node k)) (next' t))
    (path : CodingPath) {fields : List (Str × DkType types.count)}
    {nodes : List (Str × ABI.ResolvedNode)}
    (h : List.Forall₂ (fun f g => g.1 = f.1 ∧ ∃ k, g.2 = arena.node k ∧ PointsTo types tys k f.2)
      fields nodes)
    (hnodup : (fields.map Prod.fst).Nodup) {rv : List (Str × Json)}
    (hrv : ∀ f ∈ fields, f.1 ∉ rv.map Prod.fst) :
    Lockstep TooDeep E'
      (fun members vs => ∃ js, members = rv ++ js ∧ js.map Prod.fst = fields.map Prod.fst ∧
        List.Forall₂ (fun m v => m.1 = v.1 ∧ Shows m.2 v.2) js vs)
      (decodeFields next path nodes rv) (readFields types next' fields) := by
  induction h generalizing rv with
  | nil => exact .pure ⟨[], (List.append_nil rv).symm, rfl, .nil⟩
  | @cons f g fields nodes hfg _ ih =>
    obtain ⟨name, t⟩ := f
    obtain ⟨name', node⟩ := g
    obtain ⟨hname, k, hnode, ht⟩ := hfg
    simp only at hname hnode ht
    subst hname hnode
    obtain ⟨hfresh, hnodup⟩ := List.nodup_cons.mp hnodup
    refine (hnext k t _ ht).bind ?_
    intro j v hjv
    -- A fresh name is inserted at the end, where the static decoder puts its value.
    have hinsert : Json.insert rv name' j = rv ++ [(name', j)] :=
      Json.insert_of_not_mem j (hrv (name', t) (by simp))
    rw [hinsert]
    have hrv' : ∀ f ∈ fields, f.1 ∉ (rv ++ [(name', j)]).map Prod.fst := by
      intro f hf hmem
      rw [List.map_append, List.mem_append] at hmem
      rcases hmem with hmem | hmem
      · exact hrv f (by simp [hf]) hmem
      · have heq : f.1 = name' := by simpa using hmem
        exact hfresh (List.mem_map.mpr ⟨f, hf, heq⟩)
    have hrest := ih hnodup hrv'
    rw [← bind_pure (decodeFields next path nodes (rv ++ [(name', j)]))]
    refine hrest.bind ?_
    rintro members vs ⟨js, hmembers, hkeys, hjs⟩
    refine .pure ⟨(name', j) :: js, ?_, ?_, .cons ⟨rfl, hjv⟩ hjs⟩
    · rw [hmembers, List.append_assoc, List.singleton_append]
    · rw [List.map_cons, hkeys, List.map_cons]

end Structs

/-! ## The dynamic decoder -/

section Dynamic

variable {p : Platform} {types : DkTypes} {arena : ABI.Arena} {tys : List (DkType types.count)}

/-- What a node takes over from its type's name. -/
theorem Reflects.containers (h : Reflects types arena tys) {k : ℕ} {t : DkType types.count}
    (ht : PointsTo types tys k t) :
    (arena.node k).name = types.refName t.type ∧ (arena.node k).size = none ∧
      (arena.node k).isArray = t.isArray ∧ (arena.node k).isOptional = t.isOptional ∧
      (arena.node k).isExtension = t.isExtension := by
  have hcomplete := h.complete k t ht
  unfold Complete at hcomplete
  split at hcomplete
  · rw [hcomplete]
    exact ⟨rfl, rfl, rfl, rfl, rfl⟩
  · split at hcomplete
    · obtain ⟨_, _, hnode, -⟩ := hcomplete
      rw [hnode]
      exact ⟨rfl, rfl, rfl, rfl, rfl⟩
    · obtain ⟨_, hnode, -⟩ := hcomplete
      rw [hnode]
      exact ⟨rfl, rfl, rfl, rfl, rfl⟩
    · obtain ⟨_, hnode, -⟩ := hcomplete
      rw [hnode]
      exact ⟨rfl, rfl, rfl, rfl, rfl⟩

theorem Reflects.typeName (h : Reflects types arena tys) {k : ℕ} {t : DkType types.count}
    (ht : PointsTo types tys k t) : (arena.node k).typeName = types.typeName t := by
  obtain ⟨hname, hsize, harray, hoptional, hextension⟩ := h.containers ht
  unfold ABI.ResolvedNode.typeName
  rw [hname, hsize, harray, hoptional, hextension]
  rfl

theorem decodeBinaryInner_alias {node : ABI.ResolvedNode}
    (next : CodingPath → ABI.ResolvedNode → Decoding Json) (path : CodingPath) {ref : ℕ}
    (href : node.ref = some ref) :
    decodeBinaryInner p arena next path node =
      popping (next (path.push [] (arena.node ref)) (arena.node ref)) := by
  unfold decodeBinaryInner
  rw [href]

theorem decodeBinaryInner_struct {node : ABI.ResolvedNode}
    (next : CodingPath → ABI.ResolvedNode → Decoding Json) (path : CodingPath)
    {fields : List (Str × ℕ)} {nodes : List (Str × ABI.ResolvedNode)} (href : node.ref = none)
    (hfields : node.fields = some fields) (hall : arena.allFields node = some nodes) :
    decodeBinaryInner p arena next path node = (do
      let members ← decodeFields next path nodes []
      return .obj members) := by
  unfold decodeBinaryInner
  rw [href, hfields]
  simp only [hall]

theorem decodeBinaryInner_variant {node : ABI.ResolvedNode}
    (next : CodingPath → ABI.ResolvedNode → Decoding Json) (path : CodingPath) {variant : List ℕ}
    (href : node.ref = none) (hfields : node.fields = none) (hvariant : node.variant = some variant) :
    decodeBinaryInner p arena next path node = (do
      let vIdx ← readAt path readByte
      match variant[vIdx.toNat]? with
      | none => failDecoding path (lit "Unknown variant idx: " ++ natToString vIdx.toNat)
      | some i =>
        let vType := arena.node i
        let inner ← next (path.push (lit "v" ++ natToString vIdx.toNat) vType) vType
        return .arr [.str vType.typeName, inner]) := by
  obtain ⟨name, isExtension, isOptional, isArray, size, base, fields, alternatives, ref⟩ := node
  subst href hfields hvariant
  rfl

/-- What stands at a position of the left list is related to what stands there on the
right. -/
theorem forall₂_getElem? {α β : Type} {R : α → β → Prop} {as : List α} {bs : List β}
    (h : List.Forall₂ R as bs) {i : ℕ} {a : α} (ha : as[i]? = some a) :
    ∃ b, bs[i]? = some b ∧ R a b := by
  induction h generalizing i with
  | nil => cases ha
  | @cons a' b' as bs hab _ ih =>
    cases i with
    | zero =>
      cases ha
      exact ⟨b', rfl, hab⟩
    | succ i => exact ih ha

/-- **One level of the dynamic decoder**: a type without its containers. -/
theorem decodeBinaryInner_lockstep (hnames : types.NamesFit) (h : Reflects types arena tys)
    {next : CodingPath → ABI.ResolvedNode → Decoding Json}
    {next' : DkType types.count → Decoder DkValue}
    (hnext : ∀ k t path, PointsTo types tys k t →
      Lockstep TooDeep LongIdx Shows (next path (arena.node k)) (next' t))
    {k : ℕ} {t : DkType types.count} (ht : PointsTo types tys k t) (path : CodingPath) :
    Lockstep TooDeep LongIdx Shows (decodeBinaryInner p arena next path (arena.node k))
      (refFromABI p types readShortIdx next' t.type) := by
  have hcomplete := h.complete k t ht
  unfold Complete at hcomplete
  cases htype : t.type with
  | builtin abiName =>
    rw [htype] at hcomplete
    simp only at hcomplete
    have hname : (types.parsed t).name = abiName.val := by
      unfold parsed
      rw [htype]
      rfl
    rw [hcomplete]
    unfold decodeBinaryInner refFromABI
    simp only [hname]
    cases hbuiltin : findBuiltin p abiName.val with
    | none => exact .fail (fun s => ⟨_, rfl⟩) (fun s => ⟨_, rfl⟩)
    | some builtin =>
      show Lockstep TooDeep LongIdx Shows (readAt path builtin.decodeABI)
        (DkValue.builtin <$> builtin.decodeABI)
      rw [← id_map (readAt path builtin.decodeABI)]
      refine (lockstep_readAt _ _ path _).map ?_
      rintro j _ rfl
      rfl
  -- The node says whether the name is an alias, a variant or a struct, as the declaration does.
  | declared i =>
    rw [htype] at hcomplete
    unfold refFromABI
    cases hdecl : types.decl i with
    | typeAlias aliased =>
      simp only [hdecl] at hcomplete ⊢
      obtain ⟨ref, hnode, href⟩ := hcomplete
      rw [decodeBinaryInner_alias next path (by rw [hnode]), ← id_map (popping _)]
      exact (lockstep_popping (hnext ref aliased _ href)).map (fun j v hjv => hjv)
    | variant alternatives =>
      simp only [hdecl] at hcomplete ⊢
      obtain ⟨variant, hnode, hvariant⟩ := hcomplete
      rw [decodeBinaryInner_variant next path (by rw [hnode]; rfl) (by rw [hnode]; rfl)
        (by rw [hnode])]
      refine (readByte_lockstep _ path).bind ?_
      intro b idx hidx
      rw [hidx]
      cases halternative : alternatives[b.toNat]? with
      | none =>
        have hnone : variant[b.toNat]? = none := by
          rw [List.getElem?_eq_none_iff, ← hvariant.length_eq]
          exact List.getElem?_eq_none_iff.mp halternative
        rw [hnone]
        exact .fail (fun s => ⟨_, rfl⟩) (fun s => ⟨_, rfl⟩)
      | some s =>
        obtain ⟨k', hk', hs⟩ := forall₂_getElem? hvariant halternative
        rw [hk']
        simp only [h.typeName hs, map_eq_pure_bind]
        refine (hnext k' s _ hs).bind ?_
        intro j v hjv
        refine .pure ?_
        show Json.arr [_, j.dropNulls] = Json.arr [_, v.toJSON.dropNulls]
        rw [hjv]
    | struct base fields =>
      simp only [hdecl] at hcomplete ⊢
      obtain ⟨base', fields', hnode, -, -⟩ := hcomplete
      obtain ⟨nodes, hall, hnodes⟩ := allFields_eq hnames.injective h ht htype (by rw [hdecl]; rfl)
      rw [decodeBinaryInner_struct next path (by rw [hnode]; rfl) (by rw [hnode]) hall,
        map_eq_pure_bind]
      have hempty : ∀ f ∈ types.dkForEach i, f.1 ∉ ([] : List (Str × Json)).map Prod.fst := by
        simp
      refine (decodeFields_lockstep hnext path hnodes (hnames.fieldNames i) hempty).bind ?_
      rintro members vs ⟨js, rfl, hkeys, hjs⟩
      refine .pure (.members hjs ?_)
      rw [hkeys]
      exact hnames.fieldNames i

/-- **The dynamic decoder is in lockstep with the static one** whose indices are single
bytes, as long as it is not too deep. -/
theorem decodeBinary_lockstep (hnames : types.NamesFit) (h : Reflects types arena tys) (fuel : ℕ)
    {fuel' : ℕ} (hfuel : fuel ≤ fuel') {k : ℕ} {t : DkType types.count}
    (ht : PointsTo types tys k t) (path : CodingPath) :
    Lockstep TooDeep LongIdx Shows (decodeBinary p arena fuel path (arena.node k))
      (fromABIWith p types readShortIdx fuel' t) := by
  induction fuel generalizing fuel' k t path with
  | zero => exact .giveUp (tooDeep_of_failDecoding path) _
  | succ fuel ih =>
    obtain ⟨fuel', rfl⟩ : ∃ n, fuel' = n + 1 := ⟨fuel' - 1, by omega⟩
    obtain ⟨-, hsize, harray, hoptional, hextension⟩ := h.containers ht
    exact decodeBinary_lockstep_of_inner
      (decodeBinaryInner_lockstep hnames h (fun k t path ht => ih (by omega) ht path) ht)
      hsize harray hoptional hextension path

end Dynamic

/-! ## The static decoder -/

section Static

variable {p : Platform} {types : DkTypes} {E E' : Error → Prop}

theorem readItems_lockstep {item item' : Decoder DkValue} (h : Lockstep E E' Eq item item') (n : ℕ)
    (vs : List DkValue) :
    Lockstep E E' Eq (AbiTraits.readItems item n vs) (AbiTraits.readItems item' n vs) := by
  induction n generalizing vs with
  | zero => exact .pure rfl
  | succ n ih =>
    refine (Lockstep.refl _).bind ?_
    rintro before _ rfl
    refine h.bind ?_
    rintro v _ rfl
    refine (Lockstep.refl _).bind ?_
    rintro after _ rfl
    by_cases hbound : after = before ∧ after + 1 ≤ vs.length
    · rw [if_pos hbound, if_pos hbound]
      exact .refl _
    · rw [if_neg hbound, if_neg hbound]
      exact ih _

theorem readFields_lockstep {next next' : DkType types.count → Decoder DkValue}
    (h : ∀ t, Lockstep E E' Eq (next t) (next' t)) (fields : List (Str × DkType types.count)) :
    Lockstep E E' Eq (readFields types next fields) (readFields types next' fields) := by
  induction fields with
  | nil => exact .refl _
  | cons f fields ih =>
    obtain ⟨name, t⟩ := f
    refine (h t).bind ?_
    rintro v _ rfl
    refine ih.bind ?_
    rintro vs _ rfl
    exact .refl _

theorem wrapFromABI_lockstep {item item' : Decoder DkValue} (h : Lockstep E E' Eq item item')
    (t : DkType types.count) :
    Lockstep E E' Eq (wrapFromABI types t item) (wrapFromABI types t item') := by
  have hvector : Lockstep E E' Eq (vectorFromABI item) (vectorFromABI item') := by
    refine (Lockstep.refl _).bind ?_
    rintro len _ rfl
    refine (readItems_lockstep h len.toNat []).bind ?_
    rintro vs _ rfl
    exact .refl _
  have harray : Lockstep E E' Eq (if t.isArray then vectorFromABI item else item)
      (if t.isArray then vectorFromABI item' else item') := by
    cases t.isArray with
    | true => exact hvector
    | false => exact h
  have hoptional : ∀ value value', Lockstep E E' Eq value value' →
      Lockstep E E' Eq (if t.isOptional then optionalFromABI value else value)
        (if t.isOptional then optionalFromABI value' else value') := by
    intro value value' hvalue
    cases t.isOptional with
    | false => exact hvalue
    | true =>
      refine (Lockstep.refl _).bind ?_
      rintro present _ rfl
      by_cases hpresent : present = 0
      · rw [if_pos hpresent, if_pos hpresent]
        exact .refl _
      · rw [if_neg hpresent, if_neg hpresent]
        exact hvalue.map (fun v v' hv => congrArg _ hv)
  unfold wrapFromABI
  simp only
  cases t.isExtension with
  | false => exact hoptional _ _ harray
  | true =>
    refine (Lockstep.refl _).bind ?_
    rintro more _ rfl
    cases more with
    | true => exact (hoptional _ _ harray).map (fun v v' hv => congrArg _ hv)
    | false => exact .refl _

/-- **Static decoders are in lockstep** when their indices are. -/
theorem fromABIWith_lockstep {readIdx readIdx' : Decoder UInt32}
    (h : Lockstep E E' Eq readIdx readIdx') (fuel : ℕ) (t : DkType types.count) :
    Lockstep E E' Eq (fromABIWith p types readIdx fuel t)
      (fromABIWith p types readIdx' fuel t) := by
  induction fuel generalizing t with
  | zero => exact .refl _
  | succ fuel ih =>
    refine wrapFromABI_lockstep ?_ t
    unfold refFromABI
    cases t.type with
    | builtin abiName => exact .refl _
    | declared i =>
      cases hdecl : types.decl i with
      | struct base fields =>
        simp only [hdecl]
        exact (readFields_lockstep ih _).map (fun vs vs' hvs => congrArg _ hvs)
      | variant alternatives =>
        simp only [hdecl]
        refine h.bind ?_
        rintro idx _ rfl
        cases alternatives[idx.toNat]? with
        | none => exact .refl _
        | some t => exact (ih t).map (fun v v' hv => congrArg _ hv)
      | typeAlias aliased =>
        simp only [hdecl]
        exact (ih aliased).map (fun v v' hv => congrArg _ hv)

end Static

/-! ## Agreement -/

section Agreement

variable (p : Platform) (types : DkTypes) (fuel : ℕ) (t : DkType types.count) (data : Bytes)

/-- The static decoder accepts the data exactly when the dynamic one does over the
synthesized ABI, with the value's json as its result. -/
def Agrees : Prop :=
  match types.decode p fuel t data,
    Serializer.decode p data (types.typeName t) (types.synthesize t) with
  | .ok v, .ok j => Shows j v
  | .error _, .error _ => True
  | _, _ => False

/-- No index of an alternative that is met in the data takes several bytes. -/
def ShortIndexes : Prop :=
  ∀ e, (fromABIWith p types readShortIdx fuel t).run data = .error e → ¬ LongIdx e

/-- The dynamic decoder does not give up at its depth limit. -/
def WithinDepth : Prop :=
  ∀ f, (decodeBinary p ((types.synthesize t).resolveType (types.typeName t)).1 (maxCodingDepth + 1)
    (Serializer.rootPath (((types.synthesize t).resolveType (types.typeName t)).1.node
      ((types.synthesize t).resolveType (types.typeName t)).2))
    (((types.synthesize t).resolveType (types.typeName t)).1.node
      ((types.synthesize t).resolveType (types.typeName t)).2)).run data = .error f → ¬ TooDeep f

end Agreement

/-- A type that is made of no more types than the depth limit allows is shallow. -/
theorem shallow_of_closed {types : DkTypes} {root : DkType types.count}
    (all : List (DkType types.count)) (hroot : root ∈ all)
    (hclosed : ∀ t ∈ all, ∀ s ∈ types.parts t, s ∈ all) (hlen : all.length ≤ ABI.maxResolveDepth) :
    types.Shallow root := by
  intro chain hchain
  have hall : chain.Nodup ∧ ∀ t ∈ chain, t ∈ all := by
    induction hchain with
    | root => exact ⟨List.nodup_singleton root, fun t ht => List.mem_singleton.mp ht ▸ hroot⟩
    | @part t s outer _ hs hnew ih =>
      obtain ⟨hnodup, hmem⟩ := ih
      refine ⟨List.nodup_cons.mpr ⟨hnew, hnodup⟩, ?_⟩
      intro t' ht'
      rcases List.mem_cons.mp ht' with rfl | ht'
      · exact hclosed t (hmem t (by simp)) t' hs
      · exact hmem t' ht'
  exact (hall.1.subperm hall.2).length_le.trans hlen

/-! ## A recursive row -/

/-- A builtin type. -/
def builtinType {n : ℕ} (name : Str) (h : name ∈ builtinNames := by decide) : DkType n :=
  { type := .builtin ⟨name, h⟩ }

/-- An alias, a base struct, a variant, and a row that may hold another row. -/
def rowTypes : DkTypes where
  count := 4
  abiName := ![lit "count", lit "base", lit "either", lit "row"]
  decl := ![
    .typeAlias (builtinType "uint16"),
    .struct none [(lit "id", builtinType "uint8")],
    .variant [builtinType "uint8", { type := .declared 0, isArray := true }],
    .struct (some 1) [(lit "either", { type := .declared 2 }),
      (lit "next", { type := .declared 3, isOptional := true }),
      (lit "tags", { (builtinType "string" : DkType 4) with isArray := true, isOptional := true }),
      (lit "extra", { (builtinType "uint8" : DkType 4) with isExtension := true })]]
  base_lt := by decide
  base_struct := by decide

theorem namesFit_rowTypes : rowTypes.NamesFit where
  injective := by decide +kernel
  plain := by decide +kernel
  notBuiltin := by decide +kernel
  fieldNames := by decide +kernel

def rowType : DkType rowTypes.count := rowTypes.plain (3 : Fin 4)

theorem shallow_rowType : rowTypes.Shallow rowType := by
  refine shallow_of_closed ([rowType, rowTypes.plain (1 : Fin 4),
    rowTypes.plain (2 : Fin 4), builtinType "uint8",
    { type := .declared (0 : Fin 4), isArray := true }, builtinType "uint16",
    { type := .declared (3 : Fin 4), isOptional := true },
    { (builtinType "string" : DkType rowTypes.count) with isArray := true, isOptional := true },
    { (builtinType "uint8" : DkType rowTypes.count) with isExtension := true }]) ?_ ?_ ?_
  · decide +kernel
  · decide +kernel
  · decide

/-- A row with a row inside that ends at its extension. -/
def rowData : Bytes := [7, 1, 2, 44, 1, 5, 0, 1, 8, 0, 9, 0, 1, 1, 2, 104, 105, 3, 0]

theorem Agrees.toOption {p : Platform} {types : DkTypes} {fuel : ℕ} {t : DkType types.count}
    {data : Bytes} (h : types.Agrees p fuel t data) :
    (types.decode p fuel t data).toOption.map (fun v => v.toJSON.dropNulls) =
      (Serializer.decode p data (types.typeName t) (types.synthesize t)).toOption.map
        Json.dropNulls := by
  unfold Agrees at h
  cases hs : types.decode p fuel t data with
  | error e =>
    cases hd : Serializer.decode p data (types.typeName t) (types.synthesize t) with
    | error e' => rfl
    | ok j =>
      rw [hs, hd] at h
      exact absurd h not_false
  | ok v =>
    cases hd : Serializer.decode p data (types.typeName t) (types.synthesize t) with
    | error e' =>
      rw [hs, hd] at h
      exact absurd h not_false
    | ok j =>
      rw [hs, hd] at h
      show some v.toJSON.dropNulls = some j.dropNulls
      rw [h]

/-- A program with a single variant. -/
def variantTypes (alternatives : List (DkType 1)) : DkTypes where
  count := 1
  abiName := ![lit "choice"]
  decl := ![.variant alternatives]
  base_lt := by
    intro i b hb
    rw [Subsingleton.elim i 0] at hb
    cases hb
  base_struct := by
    intro i b hb
    rw [Subsingleton.elim i 0] at hb
    cases hb

def choice (alternatives : List (DkType 1)) : DkType (variantTypes alternatives).count :=
  (variantTypes alternatives).plain (0 : Fin 1)

/-- A program with two structs: the outer one has the fields `fields`. -/
def nestedTypes (inner outer : Str) (fields : List (Str × DkType 2)) : DkTypes where
  count := 2
  abiName := ![inner, outer]
  decl := ![.struct none [(lit "a", builtinType "uint16")], .struct none fields]
  base_lt := by
    refine Fin.forall_fin_two.mpr ⟨?_, ?_⟩
    · intro b hb
      cases hb
    · intro b hb
      cases hb
  base_struct := by
    refine Fin.forall_fin_two.mpr ⟨?_, ?_⟩
    · intro b hb
      cases hb
    · intro b hb
      cases hb

def outer (inner outer : Str) (fields : List (Str × DkType 2)) :
    DkType (nestedTypes inner outer fields).count :=
  (nestedTypes inner outer fields).plain (1 : Fin 2)

/-- They also do when names do not tell the types apart: two structs of one name, a name
that ends in a suffix, a builtin's name, and two fields of one name of which the second is
absent. -/
theorem names_disagree :
    ¬ (nestedTypes "pair" "pair" [(lit "b", { type := .declared 0 })]).Agrees default 40
      (outer _ _ _) [7, 0] ∧
    ¬ (nestedTypes "pair?" "holder" [(lit "b", { type := .declared 0 })]).Agrees default 40
      (outer _ _ _) [7, 0] ∧
    ¬ (nestedTypes "uint8" "holder" [(lit "b", { type := .declared 0 }),
      (lit "c", builtinType "uint8")]).Agrees default 40 (outer _ _ _) [7, 0, 3] ∧
    ¬ (nestedTypes "pair" "holder" [(lit "b", builtinType "uint8"),
      (lit "b", { (builtinType "uint8" : DkType 2) with isOptional := true })]).Agrees default 40
      (outer _ _ _) [7, 0] := by
  refine ⟨fun h => ?_, fun h => ?_, fun h => ?_, fun h => ?_⟩
  · exact absurd h.toOption (by decide +kernel)
  · exact absurd h.toOption (by decide +kernel)
  · exact absurd h.toOption (by decide +kernel)
  · exact absurd h.toOption (by decide +kernel)

end DkTypes

end Dwarfkit
