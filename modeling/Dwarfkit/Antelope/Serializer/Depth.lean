/-
# The depth guards

The encoder and the normalizer count the levels they are in, the decoder the entries of
its coding path, where an array item has one of its own.

* `shallow_decodes`, `shallow_normalizes` : a type without long paths is never too deep;
* `normalizes_in_depth` : the normalizer goes no deeper than the encoder did;
* `overflows` : what only lacks room for its way back is turned down for its depth;
* `Serializer.depths_agree` : so the guards agree on what fits, and only on that.
-/
import Dwarfkit.Antelope.Serializer.Misreads
import Dwarfkit.Antelope.Serializer.RoundTrip

namespace Dwarfkit

open Wire

/-! ## Errors of the guards -/

section TooDeep

variable {α β : Type}

/-- A walk that was turned down for its depth. -/
def TooDeep (r : Coding α) : Prop := ∃ f, r = .error f ∧ f.error.message = depthText

/-- A walk whose error, if any, is not the guard's. -/
abbrev InDepth (r : Coding α) : Prop := ErrorsIn (fun f => f.error.message ≠ depthText) r

theorem not_tooDeep_iff {r : Coding α} : ¬ TooDeep r ↔ InDepth r := by
  constructor
  · intro h f hf hdeep
    exact h ⟨f, hf, hdeep⟩
  · rintro h ⟨f, hf, hdeep⟩
    exact h f hf hdeep

theorem TooDeep.bind {r : Coding α} (h : TooDeep r) (f : α → Coding β) : TooDeep (r >>= f) := by
  obtain ⟨e, rfl, he⟩ := h
  exact ⟨e, rfl, he⟩

theorem TooDeep.popping {d : Decoding α} {s : Bytes} (h : TooDeep (d.run s)) :
    TooDeep ((popping d).run s) := by
  obtain ⟨f, hf, hdeep⟩ := h
  refine ⟨{ f with path := f.path.dropLast }, ?_, hdeep⟩
  show (d.run s).mapError _ = _
  rw [hf]
  rfl

theorem inDepth_failAt (path : CodingPath) {message : Str} (h : message.head? ≠ depthText.head?) :
    InDepth (failAt path message : Coding α) :=
  (errorsIn_error_iff _).mpr (misread_of_head h).2

theorem inDepth_atPath {r : Result α} (path : CodingPath) (h : ErrorsIn Misread r) :
    InDepth (atPath path r) :=
  errorsIn_mapError_iff.mpr (fun e he => (h e he).2)

end TooDeep

section Guard

variable {p : Platform} {arena : ABI.Arena}

/-- A path of 33 entries is turned down. -/
theorem tooDeep_of_path {fuel : ℕ} {path : CodingPath} (h : maxCodingDepth < path.length)
    (type : ABI.ResolvedNode) (s : Bytes) :
    TooDeep ((decodeBinary p arena fuel path type).run s) := by
  cases fuel with
  | zero => exact ⟨_, rfl, rfl⟩
  | succ fuel =>
    rw [decodeBinary, if_pos h]
    exact ⟨_, rfl, rfl⟩

end Guard

/-! ## Types without long paths -/

/-- Every coding path from the type has room for its entries. -/
def Shallow (arena : ABI.Arena) : (room : ℕ) → ABI.ResolvedNode → Bool
  | 0, _ => false
  | room + 1, type =>
    let next := if type.isArray then
        -- an item has an entry of its own
        match room with
        | 0 => fun _ => false
        | room + 1 => Shallow arena room
      else Shallow arena room
    (parts arena type).all next

section Shallow

variable {p : Platform} {arena : ABI.Arena}

theorem shallow_parts {room : ℕ} {type : ABI.ResolvedNode}
    (h : Shallow arena (room + 1) type = true) {child : ABI.ResolvedNode}
    (hchild : child ∈ parts arena type) :
    Shallow arena (if type.isArray then room - 1 else room) child = true := by
  rw [Shallow.eq_def] at h
  simp only [List.all_eq_true] at h
  have hroom := h child hchild
  by_cases harray : type.isArray = true
  · rw [if_pos harray] at hroom ⊢
    cases room with
    | zero => exact absurd hroom Bool.false_ne_true
    | succ room => exact hroom
  · rw [if_neg harray] at hroom ⊢
    exact hroom

theorem shallow_pos {room : ℕ} {type : ABI.ResolvedNode} (h : Shallow arena room type = true) :
    0 < room := by
  cases room with
  | zero => cases h
  | succ room => exact Nat.succ_pos room

/-- **The decoder stays in a type without long paths**, whatever the bytes. -/
theorem shallow_decodes (p : Platform) {room : ℕ} {type : ABI.ResolvedNode}
    (h : Shallow arena room type = true) {fuel : ℕ} {path : CodingPath} (hfuel : room ≤ fuel)
    (hpath : path.length + room ≤ maxCodingDepth + 1) :
    FailsAt Misread (decodeBinary p arena fuel path type) := by
  induction room using Nat.strong_induction_on generalizing type fuel path with
  | _ room ih =>
    obtain ⟨room, rfl⟩ : ∃ room', room = room' + 1 := ⟨room - 1, by have := shallow_pos h; omega⟩
    obtain ⟨fuel, rfl⟩ : ∃ fuel', fuel = fuel' + 1 := ⟨fuel - 1, by omega⟩
    refine decodeBinary_failsAt (fun _ he => he) (by omega)
      (decodeContents_failsAt (fun _ he => he) ?_ ?_)
    · intro harray i
      refine decodeBinaryInner_failsAt (fun _ he => he) (fun field child hchild => ?_)
      have hnext := shallow_parts h hchild
      rw [if_pos harray] at hnext
      have hpos := shallow_pos hnext
      refine ih (room - 1) (by omega) hnext (by omega) ?_
      rw [length_push, length_pushIndex]
      omega
    · intro harray
      refine decodeBinaryInner_failsAt (fun _ he => he) (fun field child hchild => ?_)
      have hnext := shallow_parts h hchild
      rw [harray, if_neg Bool.false_ne_true] at hnext
      refine ih room (by omega) hnext (by omega) ?_
      rw [length_push]
      omega

end Shallow

/-! ## The normalizer after the encoder -/

section Normalizer

/-- No builtin takes a null, and none says that it lies too deep. -/
theorem normalize_null (p : Platform) :
    ∀ e ∈ registry p, ErrorsIn Misread (e.2.normalizeJSON .null) := by
  have hentry {α : Type} {t : AbiTraits α} (message : Str)
      (h : t.fromJSON .null = err .invalid message) (hmessage : message.head? ≠ depthText.head?) :
      ErrorsIn Misread ((builtinEntry t).2.normalizeJSON .null) := by
    show ErrorsIn Misread (t.fromJSON .null >>= _)
    rw [h]
    exact (errorsIn_error_iff _).mpr (misread_of_head hmessage)
  unfold registry
  simp only [List.forall_mem_cons, List.not_mem_nil, false_implies, implies_true, and_true]
  refine ⟨?_, ?_, ?_, ?_, ?_, ?_, ?_, ?_, ?_, ?_, ?_, ?_, ?_, ?_, ?_, ?_, ?_, ?_, ?_, ?_, ?_, ?_, ?_,
    ?_, ?_, ?_, ?_, ?_, ?_, ?_, ?_⟩
  all_goals exact hentry _ rfl (by decide)

/-- What a builtin encodes it normalizes. -/
theorem registry_normalizes (p : Platform) (value : Json) :
    ∀ e ∈ registry p, ∀ bytes, e.2.encodeJSON value = .ok bytes →
      ∃ j, e.2.normalizeJSON value = .ok j := by
  have hentry {α : Type} (t : AbiTraits α) (bytes : Bytes)
      (h : (builtinEntry t).2.encodeJSON value = .ok bytes) :
      ∃ j, (builtinEntry t).2.normalizeJSON value = .ok j := by
    obtain ⟨typed, htyped, -⟩ := bind_eq_ok.mp h
    refine ⟨t.toJSON typed, ?_⟩
    show (t.fromJSON value >>= _) = _
    rw [htyped]
    rfl
  unfold registry
  simp only [List.forall_mem_cons, List.not_mem_nil, false_implies, implies_true, and_true]
  refine ⟨?_, ?_, ?_, ?_, ?_, ?_, ?_, ?_, ?_, ?_, ?_, ?_, ?_, ?_, ?_, ?_, ?_, ?_, ?_, ?_, ?_, ?_, ?_,
    ?_, ?_, ?_, ?_, ?_, ?_, ?_, ?_⟩
  all_goals exact hentry _

variable {p : Platform} {arena : ABI.Arena}

theorem normalizeFields_inDepth
    {encode : CodingPath → Json → ABI.ResolvedNode → Coding Bytes}
    {next : CodingPath → Json → ABI.ResolvedNode → Coding Json} {value : Json}
    {fields : List (Str × ABI.ResolvedNode)}
    (hnext : ∀ field ∈ fields, ∀ path value bytes, encode path value field.2 = .ok bytes →
      ∀ path', InDepth (next path' value field.2))
    {path path' : CodingPath} {bytes : Bytes} (rv : List (Str × Json))
    (h : encodeFields encode path value fields = .ok bytes) :
    InDepth (normalizeFields next path' value fields rv) := by
  induction fields generalizing bytes rv with
  | nil => exact errorsIn_ok rv
  | cons field fields ih =>
    obtain ⟨front, hfront, h⟩ := bind_eq_ok.mp h
    obtain ⟨back, hback, -⟩ := bind_eq_ok.mp h
    exact ErrorsIn.bind (hnext field List.mem_cons_self _ _ _ hfront _)
      (fun _ _ => ih (fun f hf => hnext f (List.mem_cons_of_mem _ hf)) _ hback)

/-- An alternative that is found is a part of its variant. -/
theorem found_mem_parts {type : ABI.ResolvedNode} {variant : List ℕ}
    (hvariant : type.variant = some variant) {vName : Str} {vIdx : ℕ}
    (hfound : findAlternative arena variant vName = some vIdx) :
    arena.node (variant.getD vIdx 0) ∈ parts arena type ∧
      (arena.node (variant.getD vIdx 0)).typeName = vName := by
  have hget := findAlternative_eq_some hfound
  obtain ⟨hlt, hname, -⟩ := List.findIdx?_eq_some_iff_getElem.mp hfound
  refine ⟨alternative_mem_parts hvariant (List.mem_of_getElem? hget), ?_⟩
  rw [List.getD_eq_getElem _ _ hlt]
  exact of_decide_eq_true hname

variable {next : CodingPath → Json → ABI.ResolvedNode → Coding Json} {type : ABI.ResolvedNode}

/-- A null that is no alias's goes on to an alternative that is named undefined at most. -/
theorem decodeObjectInner_null (hfollowed : followed p arena type = none)
    (hnull : ∀ child ∈ parts arena type, child.typeName = lit "undefined" →
      ∀ path, InDepth (next path .null child))
    (path : CodingPath) : InDepth (decodeObjectInner p arena next path .null type) := by
  unfold followed at hfollowed
  simp only [decodeObjectInner]
  split
  · simp_all
  cases hfields : type.fields with
  | some own => exact inDepth_failAt path (by decide)
  | none =>
    cases hvariant : type.variant with
    | some variant =>
      simp only [chosenAlternative]
      -- A null, like a number, is looked up under the name `undefined`.
      cases hfound : findAlternative arena variant (lit "undefined") with
      | none =>
        refine inDepth_failAt path ?_
        intro h
        cases h
      | some vIdx =>
        obtain ⟨hmem, hname⟩ := found_mem_parts hvariant hfound
        exact ErrorsIn.bind (hnull _ hmem hname _) (fun _ _ => errorsIn_ok _)
    | none =>
      cases hbuiltin : findBuiltin p type.name with
      | some builtin =>
        obtain ⟨e, hfind, rfl⟩ := Option.map_eq_some_iff.mp hbuiltin
        exact inDepth_atPath path (normalize_null p e (List.mem_of_find?_eq_some hfind))
      | none =>
        simp only
        split
        · exact errorsIn_ok _
        · exact inDepth_failAt path (by decide)

/-- **One level of the normalizer** goes no deeper than the encoder did, or with a null to
an alternative that is named undefined. -/
theorem decodeObjectInner_inDepth
    {encode : CodingPath → Json → ABI.ResolvedNode → Coding Bytes}
    (hnext : ∀ child ∈ parts arena type, ∀ path value bytes, encode path value child = .ok bytes →
      ∀ path', InDepth (next path' value child))
    (hnull : ∀ child ∈ parts arena type, child.typeName = lit "undefined" →
      ∀ path, InDepth (next path .null child))
    {path path' : CodingPath} {value : Json} {bytes : Bytes}
    (h : encodeInner p arena encode path value type = .ok bytes) :
    InDepth (decodeObjectInner p arena next path' value type) := by
  cases hfollowed : followed p arena type with
  | some target =>
    rw [encodeInner_of_followed hfollowed] at h
    rw [decodeObjectInner_of_followed hfollowed]
    obtain ⟨ref, href, -, rfl⟩ := followed_eq_some hfollowed
    exact hnext _ (ref_mem_parts href) _ _ _ h _
  | none =>
    -- The encoder may write nothing for a null that the normalizer still looks into.
    by_cases hvalue : value.isNull = true
    · obtain rfl := Json.eq_null_of_isNull hvalue
      exact decodeObjectInner_null hfollowed hnull path'
    unfold followed at hfollowed
    simp only [encodeInner] at h
    simp only [decodeObjectInner]
    split at h
    · simp_all
    rw [if_neg hvalue] at h
    cases hfields : type.fields with
    | some own =>
      simp only [hfields] at h
      by_cases hobject : value.isObject = true
      · rw [if_pos hobject] at h ⊢
        cases hall : arena.allFields type with
        | none => exact inDepth_failAt path' (by decide)
        | some fields =>
          rw [hall] at h
          refine ErrorsIn.bind ?_ (fun _ _ => errorsIn_ok _)
          exact normalizeFields_inDepth (fun field hfield => hnext _ (field_mem_parts hall hfield))
            [] h
      · rw [if_neg hobject] at h
        cases h
    | none =>
      cases hvariant : type.variant with
      | some variant =>
        simp only [hfields, hvariant] at h
        simp only
        cases hfound : findAlternative arena variant (chosenAlternative value).1 with
        | none =>
          rw [hfound] at h
          cases h
        | some vIdx =>
          rw [hfound] at h
          obtain ⟨content, hcontent, -⟩ := bind_eq_ok.mp h
          have hmem := (found_mem_parts hvariant hfound).1
          exact ErrorsIn.bind (hnext _ hmem _ _ _ hcontent _) (fun _ _ => errorsIn_ok _)
      | none =>
        simp only [hfields, hvariant] at h
        cases hbuiltin : findBuiltin p type.name with
        | none =>
          rw [hbuiltin] at h
          cases h
        | some builtin =>
          rw [hbuiltin] at h
          obtain ⟨e, hfind, rfl⟩ := Option.map_eq_some_iff.mp hbuiltin
          obtain ⟨j, hj⟩ := registry_normalizes p value e (List.mem_of_find?_eq_some hfind) _
            (atPath_eq_ok.mp h)
          simp only
          rw [hj]
          exact errorsIn_ok j

theorem normalizeItems_inDepth
    {encode : CodingPath → Json → ABI.ResolvedNode → Coding Bytes}
    {normalize : CodingPath → Json → ABI.ResolvedNode → Coding Json}
    (hinner : ∀ path path' value bytes, encode path value type = .ok bytes →
      InDepth (normalize path' value type))
    {path path' : CodingPath} {i i' : ℕ} {items : List Json} {bytes : Bytes}
    (h : encodeItems encode path type i items = .ok bytes) :
    InDepth (normalizeItems normalize path' type i' items) := by
  induction items generalizing i i' bytes with
  | nil => exact errorsIn_ok _
  | cons item items ih =>
    obtain ⟨front, hfront, h⟩ := bind_eq_ok.mp h
    obtain ⟨back, hback, -⟩ := bind_eq_ok.mp h
    exact ErrorsIn.bind (hinner _ _ _ _ hfront)
      (fun _ _ => ErrorsIn.bind (ih hback) (fun _ _ => errorsIn_ok _))

/-- With a level left a null goes no further. -/
theorem decodeObject_null (p : Platform) (arena : ABI.Arena) (fuel : ℕ) (path : CodingPath)
    (type : ABI.ResolvedNode) : InDepth (decodeObject p arena (fuel + 1) path .null type) := by
  have hnull : Json.null.isNull = true := rfl
  rw [decodeObject, if_pos hnull]
  split
  · exact errorsIn_ok _
  · refine inDepth_failAt path ?_
    intro h
    cases h

/-- A level of the normalizer, from the levels below. -/
theorem decodeObject_inDepth {fuel fuel' : ℕ}
    (hnext : ∀ child ∈ parts arena type, ∀ path value bytes,
      encodeAny p arena fuel path value child = .ok bytes →
        ∀ path', InDepth (decodeObject p arena fuel' path' value child))
    (hnull : ∀ child ∈ parts arena type, child.typeName = lit "undefined" →
      ∀ path, InDepth (decodeObject p arena fuel' path .null child))
    {path path' : CodingPath} {value : Json} {bytes : Bytes}
    (h : encodeAny p arena (fuel + 1) path value type = .ok bytes) :
    InDepth (decodeObject p arena (fuel' + 1) path' value type) := by
  by_cases hvalue : value.isNull = true
  · obtain rfl := Json.eq_null_of_isNull hvalue
    exact decodeObject_null p arena fuel' path' type
  rw [encodeAny, if_neg (by simp [hvalue])] at h
  obtain ⟨contents, hcontents, -⟩ := bind_eq_ok.mp h
  rw [decodeObject, if_neg hvalue]
  unfold encodeContents at hcontents
  unfold normalizeContents
  by_cases harray : type.isArray = true
  · rw [if_pos harray] at hcontents ⊢
    cases value with
    | arr items =>
      obtain ⟨body, hbody, -⟩ := bind_eq_ok.mp hcontents
      refine ErrorsIn.bind (normalizeItems_inDepth ?_ hbody) (fun _ _ => errorsIn_ok _)
      intro path path' value bytes hitem
      exact decodeObjectInner_inDepth hnext hnull hitem
    | _ => cases hcontents
  · rw [if_neg harray] at hcontents ⊢
    exact decodeObjectInner_inDepth hnext hnull hcontents

/-- No type of the arena is named undefined. -/
def NoneUndefined (arena : ABI.Arena) : Prop :=
  ∀ child type : ABI.ResolvedNode, child ∈ parts arena type → child.typeName ≠ lit "undefined"

/-- **The normalizer goes no deeper than the encoder did**, but for a null that it takes to
an alternative named undefined. -/
theorem normalizes_in_depth {fuel fuel' : ℕ} (hfuel : fuel ≤ fuel')
    (hroom : fuel < fuel' ∨ NoneUndefined arena) {path path' : CodingPath} {value : Json}
    {bytes : Bytes} (h : encodeAny p arena fuel path value type = .ok bytes) :
    InDepth (decodeObject p arena fuel' path' value type) := by
  induction fuel generalizing fuel' path path' value bytes type with
  | zero => cases h
  | succ fuel ih =>
    obtain ⟨fuel', rfl⟩ : ∃ k, fuel' = k + 1 := ⟨fuel' - 1, by omega⟩
    refine decodeObject_inDepth ?_ ?_ h
    · intro child _ path value bytes hchild path'
      exact ih (by omega) (hroom.imp_left (by omega)) hchild
    · intro child hchild hname path
      rcases hroom with hroom | hroom
      · obtain ⟨fuel', rfl⟩ : ∃ k, fuel' = k + 1 := ⟨fuel' - 1, by omega⟩
        exact decodeObject_null p arena fuel' path child
      · exact absurd hname (hroom child type hchild)

/-- **The normalizer stays in a type without long paths.** -/
theorem shallow_normalizes {room : ℕ} (hshallow : Shallow arena room type = true)
    {fuel fuel' : ℕ} (hfuel : room ≤ fuel') {path path' : CodingPath} {value : Json}
    {bytes : Bytes} (h : encodeAny p arena fuel path value type = .ok bytes) :
    InDepth (decodeObject p arena fuel' path' value type) := by
  induction room using Nat.strong_induction_on generalizing type fuel fuel' path path' value bytes with
  | _ room ih =>
    obtain ⟨room, rfl⟩ : ∃ k, room = k + 1 := ⟨room - 1, by have := shallow_pos hshallow; omega⟩
    obtain ⟨fuel', rfl⟩ : ∃ k, fuel' = k + 1 := ⟨fuel' - 1, by omega⟩
    cases fuel with
    | zero => cases h
    | succ fuel =>
      have hparts (child) (hchild : child ∈ parts arena type) :
          ∃ k ≤ room, Shallow arena k child = true := by
        refine ⟨_, ?_, shallow_parts hshallow hchild⟩
        split <;> omega
      refine decodeObject_inDepth ?_ ?_ h
      · intro child hchild path value bytes hwrite path'
        obtain ⟨k, hk, hnext⟩ := hparts child hchild
        exact ih k (by omega) hnext (by omega) hwrite
      · intro child hchild _ path
        obtain ⟨k, hk, hnext⟩ := hparts child hchild
        have hpos := shallow_pos hnext
        obtain ⟨fuel', rfl⟩ : ∃ k, fuel' = k + 1 := ⟨fuel' - 1, by omega⟩
        exact decodeObject_null p arena fuel' path child

end Normalizer

/-! ## Values that lack room for the way back -/

section Overflow

variable {p : Platform} {arena : ABI.Arena} {room left : ℕ}

/-- The path has `left` entries to go, or is full. -/
structure Leaves (path : CodingPath) (left : ℕ) : Prop where
  least : maxCodingDepth + 1 ≤ path.length + left
  most : 0 < left → path.length + left ≤ maxCodingDepth + 1

theorem Leaves.step {path path' : CodingPath} (h : Leaves path left)
    (hlength : path'.length = path.length + 1) : Leaves path' (left - 1) := by
  obtain ⟨hleast, hmost⟩ := h
  constructor <;> omega

variable (p arena room left)

/-- A value that comes back with `room` levels to go and not with `left` is turned down
where the path leaves that many. -/
def Overflows : Prop :=
  ∀ last value type fuel path bytes, Reversible p arena room last value type →
    ¬ Reversible p arena left last value type →
    encodeAny p arena fuel path value type = .ok bytes →
    ∀ fuel path rest, left ≤ fuel → Leaves path left → (last = true → rest = []) →
      TooDeep ((decodeBinary p arena fuel path type).run (bytes ++ rest))

/-- So is a value past the suffixes of its type. -/
def OverflowsInner : Prop :=
  ∀ last value type fuel path bytes,
    ReversibleInner p arena (Reversible p arena (room - 1)) last value type →
    ¬ ReversibleInner p arena (Reversible p arena (left - 1)) last value type →
    encodeInner p arena (encodeAny p arena fuel) path value type = .ok bytes →
    ∀ fuel path rest, left ≤ fuel → Leaves path left → (last = true → rest = []) →
      TooDeep ((decodeBinaryInner p arena (decodeBinary p arena (fuel - 1)) path type).run
        (bytes ++ rest))

variable {p arena room left}

/-- The first field that does not fit is turned down, after those before it were read. -/
theorem fields_overflow (hnext : Overflows p arena room left)
    {fields : List (Str × ABI.ResolvedNode)} {last : Bool} {value : Json} {fuel : ℕ}
    {path : CodingPath} {bytes : Bytes}
    (hrev : ReversibleFields p arena (Reversible p arena room) last value fields)
    (hnot : ¬ ReversibleFields p arena (Reversible p arena left) last value fields)
    (h : encodeFields (encodeAny p arena fuel) path value fields = .ok bytes)
    {fuel' : ℕ} {path' : CodingPath} (rv : List (Str × Json)) {rest : Bytes} (hfuel : left ≤ fuel')
    (hpath : ∀ field child, Leaves (path'.push field child) left) (hlast : last = true → rest = []) :
    TooDeep ((decodeFields (decodeBinary p arena fuel') path' fields rv).run (bytes ++ rest)) := by
  induction fields generalizing bytes rv with
  | nil => exact absurd trivial hnot
  | cons field fields ih =>
    obtain ⟨name, type⟩ := field
    obtain ⟨hhead, htail⟩ := hrev
    obtain ⟨front, hfront, h⟩ := bind_eq_ok.mp h
    obtain ⟨back, hback, h⟩ := bind_eq_ok.mp h
    obtain rfl : front ++ back = bytes := Except.ok.inj h
    have hend : (last && fields.all (fun f => absentField p arena (value.jsonAt f.1) f.2)) = true →
        back ++ rest = [] := by
      rw [Bool.and_eq_true]
      rintro ⟨hl, habsent⟩
      rw [encodeFields_absent habsent hback, hlast hl]
      rfl
    have hleaves := hpath name type
    rw [List.append_assoc, decodeFields, StateT.run_bind]
    by_cases hfits : Reversible p arena left
        (last && fields.all (fun f => absentField p arena (value.jsonAt f.1) f.2))
        (value.jsonAt name) type
    · -- the field comes back, so a later one does not fit
      obtain ⟨-, j, hj⟩ := restores p arena left _ _ _ _ _ _ hfits hfront
      rw [hj.reads fuel' _ _ hfuel (hleaves.most hfits.pos) hend, ok_bind]
      exact ih htail (fun htail => hnot ⟨hfits, htail⟩) hback _
    · exact (hnext _ _ _ _ _ _ hhead hfits hfront fuel' _ _ hfuel hleaves hend).bind _

/-- So is the first item. -/
theorem items_overflow (hinner : OverflowsInner p arena room left)
    {items : List Json} {last : Bool} {type : ABI.ResolvedNode} {fuel : ℕ} {path : CodingPath}
    {i n : ℕ} {bytes : Bytes}
    (hne : emptyInner p arena (canBeEmpty p arena n) true type = false)
    (hrev : ReversibleItems p arena (Reversible p arena (room - 1)) last type items)
    (hnot : ¬ ReversibleItems p arena (Reversible p arena (left - 1)) last type items)
    (h : encodeItems (encodeInner p arena (encodeAny p arena fuel)) path type i items = .ok bytes)
    {fuel' : ℕ} {path' : CodingPath} (rv : List Json) {rest : Bytes} (hfuel : left ≤ fuel')
    (hpath : Leaves path' (left + 1)) (hlast : last = true → rest = []) :
    TooDeep ((decodeItems (decodeBinaryInner p arena (decodeBinary p arena (fuel' - 1))) path' type
      items.length rv).run (bytes ++ rest)) := by
  induction items generalizing i bytes rv with
  | nil => exact absurd trivial hnot
  | cons item items ih =>
    obtain ⟨hhead, htail⟩ := hrev
    obtain ⟨front, hfront, h⟩ := bind_eq_ok.mp h
    obtain ⟨back, hback, h⟩ := bind_eq_ok.mp h
    obtain rfl : front ++ back = bytes := Except.ok.inj h
    have hend : (last && items.isEmpty) = true → back ++ rest = [] := by
      rw [Bool.and_eq_true, List.isEmpty_iff]
      rintro ⟨hl, rfl⟩
      rw [← Except.ok.inj hback, hlast hl]
      rfl
    have hleaves : Leaves (path'.pushIndex rv.length type) left :=
      hpath.step (length_pushIndex _ _ _)
    have hremaining : ∀ (path : CodingPath) (s : Bytes),
        (readAt path remaining).run s = .ok (s.length, s) := fun _ _ => rfl
    rw [List.append_assoc, List.length_cons, decodeItems, StateT.run_bind, hremaining, ok_bind,
      StateT.run_bind]
    by_cases hfits : ReversibleInner p arena (Reversible p arena (left - 1)) (last && items.isEmpty)
        item type
    · -- the item comes back, and took at least one byte
      have hitem : RestoresInner p arena left := restoresInner (restores p arena (left - 1))
      obtain ⟨hfrontne, j, hj⟩ := hitem _ _ _ _ _ _ hfits hfront
      have hfrontnil : front ≠ [] := hfrontne n true hne (fun _ => rfl)
      have hroom : (path'.pushIndex rv.length type).length + left ≤ maxCodingDepth + 1 := by
        have hmost := hpath.most (Nat.succ_pos left)
        rw [length_pushIndex]
        omega
      have htook : ¬ ((back ++ rest).length = (front ++ (back ++ rest)).length ∧
          (back ++ rest).length + 1 ≤ rv.length) := by
        rintro ⟨hlength, -⟩
        simp only [List.length_append] at hlength
        exact hfrontnil (List.length_eq_zero_iff.mp (by omega))
      rw [hj.reads fuel' _ _ hfuel hroom hend, ok_bind, StateT.run_bind, hremaining, ok_bind,
        if_neg htook]
      exact ih htail (fun htail => hnot ⟨hfits, htail⟩) hback _
    · exact (hinner _ _ _ _ _ _ hhead hfits hfront fuel' _ _ hfuel hleaves hend).bind _

/-- **One level past the suffixes**: what does not fit lies in the alias, the struct or the
variant, as a builtin has no levels. -/
theorem overflowsInner (hnext : Overflows p arena (room - 1) (left - 1)) :
    OverflowsInner p arena room left := by
  intro last value type fuel path bytes hrev hnot h fuel' path' rest hfuel hpath hlast
  have hpush (field : Str) (child : ABI.ResolvedNode) :
      Leaves (path'.push field child) (left - 1) := hpath.step (length_push _ _ _)
  unfold ReversibleInner at hrev hnot
  cases hfollowed : followed p arena type with
  | some target =>
    rw [hfollowed] at hrev hnot
    rw [encodeInner_of_followed hfollowed] at h
    rw [decodeBinaryInner_of_followed hfollowed]
    exact (hnext _ _ _ _ _ _ hrev hnot h _ _ _ (by omega) (hpush _ _) hlast).popping
  | none =>
    rw [hfollowed] at hrev hnot
    obtain ⟨href, hvalue, hrev⟩ := hrev
    have hnot := fun hkind => hnot ⟨href, hvalue, hkind⟩
    simp only [encodeInner, href, hvalue, Bool.false_eq_true, if_false] at h
    cases hfields : type.fields with
    | some own =>
      simp only [hfields] at h hrev hnot
      by_cases hobject : value.isObject = true
      · rw [if_pos hobject] at h
        cases hall : arena.allFields type with
        | none =>
          rw [hall] at h
          cases h
        | some fields =>
          simp only [hall] at h hrev hnot
          simp only [decodeBinaryInner, href, hfields, hall]
          exact (fields_overflow hnext hrev hnot h [] (by omega) hpush hlast).bind _
      · rw [if_neg hobject] at h
        cases h
    | none =>
      cases hvariant : type.variant with
      | some variant =>
        simp only [hfields, hvariant] at h hrev hnot
        cases hfound : findAlternative arena variant (chosenAlternative value).1 with
        | none =>
          rw [hfound] at h
          cases h
        | some vIdx =>
          simp only [hfound] at h hrev hnot
          obtain ⟨hsmall, hinner⟩ := hrev
          obtain ⟨content, hcontent, h⟩ := bind_eq_ok.mp h
          obtain rfl := Except.ok.inj h
          -- One byte is all the decoder reads of the index, and all that such an index takes.
          have hbyte : (vIdx.toUInt8).toNat = vIdx := by
            simp only [Nat.toUInt8, UInt8.toNat_ofNat']
            omega
          have hread : (readAt path' readByte).run ([vIdx.toUInt8] ++ (content ++ rest)) =
              .ok (vIdx.toUInt8, content ++ rest) := rfl
          simp only [decodeBinaryInner, href, hfields, hvariant]
          rw [writeVaruint32_of_lt hsmall, List.append_assoc, StateT.run_bind, hread, ok_bind, hbyte,
            findAlternative_eq_some hfound]
          exact (hnext _ _ _ _ _ _ hinner (fun hfits => hnot ⟨hsmall, hfits⟩) hcontent _ _ _ (by omega)
            (hpush _ _) hlast).bind _
      | none =>
        simp only [hfields, hvariant] at hrev hnot
        exact absurd hrev hnot

/-- A null that is written as nothing is silent. -/
theorem silent_of_encodeAny {type : ABI.ResolvedNode} {fuel : ℕ} {path : CodingPath}
    (h : encodeAny p arena fuel path .null type = .ok []) : silent p arena fuel type = true := by
  induction fuel generalizing type path with
  | zero => cases h
  | succ fuel ih =>
    have hopt : type.isOptional = false := by
      by_contra hopt
      have hopt : type.isOptional = true := by simpa using hopt
      have hnull : Json.null.isNull = true := rfl
      rw [encodeAny, hopt, hnull] at h
      cases h
    rw [silent, hopt, Bool.not_false, Bool.true_and]
    cases hfollowed : followed p arena type with
    | none => rfl
    | some target =>
      rw [encodeAny, hopt, Bool.false_and, if_neg Bool.false_ne_true] at h
      obtain ⟨contents, hcontents, h⟩ := bind_eq_ok.mp h
      obtain rfl : contents = [] := Except.ok.inj h
      unfold encodeContents at hcontents
      by_cases harray : type.isArray = true
      · rw [if_pos harray] at hcontents
        cases hcontents
      · rw [if_neg harray, encodeInner_of_followed hfollowed] at hcontents
        exact ih hcontents

/-- A null that is written as nothing comes back at the end of the input only. -/
theorem last_of_nullReversible {last : Bool} {type : ABI.ResolvedNode}
    (hnull : NullReversible p arena room last type) {fuel : ℕ} {path : CodingPath}
    (h : encodeAny p arena fuel path .null type = .ok []) : last = true := by
  induction room generalizing type fuel path with
  | zero => cases hnull
  | succ room ih =>
    have hsilent := silent_of_encodeAny h
    cases fuel with
    | zero => cases h
    | succ fuel =>
      rw [silent, Bool.and_eq_true, Bool.not_eq_true'] at hsilent
      obtain ⟨-, hwritten⟩ := encodeAny_null hsilent.1 h
      rcases hnull with hopt | ⟨hl, -⟩ | hnull
      · rw [hsilent.1] at hopt
        cases hopt
      · exact hl
      · cases hfollowed : followed p arena type with
        | none =>
          rw [hfollowed] at hnull
          exact hnull
        | some target =>
          rw [hfollowed] at hnull hwritten
          obtain ⟨fuel₂, hwritten⟩ := hwritten
          exact ih hnull hwritten

/-- A null that comes back lies as deep as the aliases before it. -/
theorem null_overflow {last : Bool} {type : ABI.ResolvedNode}
    (hnull : NullReversible p arena room last type)
    (hnot : ¬ NullReversible p arena left last type) {fuel : ℕ} {path : CodingPath} {bytes : Bytes}
    (h : encodeAny p arena fuel path .null type = .ok bytes) {fuel' : ℕ} {path' : CodingPath}
    {rest : Bytes} (hfuel : left ≤ fuel') (hpath : Leaves path' left) :
    TooDeep ((decodeBinary p arena fuel' path' type).run (bytes ++ rest)) := by
  induction left generalizing room type fuel path fuel' path' with
  | zero => exact tooDeep_of_path (by have := hpath.least; omega) type _
  | succ left ih =>
    obtain ⟨room, rfl⟩ : ∃ k, room = k + 1 := by
      cases room with
      | zero => cases hnull
      | succ room => exact ⟨room, rfl⟩
    obtain ⟨fuel', rfl⟩ : ∃ k, fuel' = k + 1 := ⟨fuel' - 1, by omega⟩
    have hroom := hpath.most (Nat.succ_pos left)
    rw [NullReversible, not_or, not_or] at hnot
    obtain ⟨hopt, habsent, hnot⟩ := hnot
    obtain ⟨harray, hwritten⟩ := encodeAny_null (by simpa using hopt) h
    rcases hnull with hcontra | ⟨hl, hext, hsilent⟩ | hnull
    · exact absurd hcontra hopt
    · exact absurd ⟨hl, hext, hsilent⟩ habsent
    · have hmore : type.isExtension = true → bytes ++ rest ≠ [] := by
        intro hext hempty
        obtain ⟨rfl, -⟩ := List.append_eq_nil_iff.mp hempty
        have hreversible : NullReversible p arena (room + 1) last type := .inr (.inr hnull)
        have hl : last = true := last_of_nullReversible hreversible h
        exact habsent ⟨hl, hext, fuel, silent_of_encodeAny h⟩
      cases hfollowed : followed p arena type with
      | none =>
        rw [hfollowed] at hnull hnot
        exact absurd hnull hnot
      -- Only an alias goes on, and each takes one entry of the path.
      | some target =>
        rw [hfollowed] at hnull hnot hwritten
        obtain ⟨fuel₂, hwritten⟩ := hwritten
        rw [decodeBinary_run (by omega) hmore, if_neg hopt, decodeContents,
          if_neg (by simp [harray]), decodeBinaryInner_of_followed hfollowed]
        have hstep : Leaves (path'.push [] target) left := hpath.step (length_push _ _ _)
        exact (ih hnull hnot hwritten (by omega) hstep).popping

/-- The items of an array lie one entry further down. -/
theorem array_overflow (hinner : OverflowsInner p arena room left) {last : Bool}
    {items : List Json} {type : ABI.ResolvedNode} {n : ℕ} (harray : type.isArray = true)
    (hlength : items.length < 2 ^ 32)
    (hsize : ∀ size, type.size = some size → items.length = size.toNat)
    (hne : emptyInner p arena (canBeEmpty p arena n) true type = false)
    (hrev : ReversibleItems p arena (Reversible p arena (room - 1)) last type items)
    (hnot : ¬ ReversibleItems p arena (Reversible p arena (left - 1)) last type items)
    {fuel : ℕ} {path : CodingPath} {bytes : Bytes}
    (h : encodeContents (encodeInner p arena (encodeAny p arena fuel)) path (.arr items) type =
      .ok bytes)
    {fuel' : ℕ} {path' : CodingPath} {rest : Bytes} (hfuel : left ≤ fuel')
    (hpath : Leaves path' (left + 1)) (hlast : last = true → rest = []) :
    TooDeep ((decodeContents (decodeBinaryInner p arena (decodeBinary p arena (fuel' - 1))) path'
      type).run (bytes ++ rest)) := by
  rw [encodeContents, if_pos harray] at h
  obtain ⟨body, hbody, h⟩ := bind_eq_ok.mp h
  obtain rfl := Except.ok.inj h
  have hitems := items_overflow hinner hne hrev hnot hbody [] hfuel hpath hlast
  rw [decodeContents, if_pos harray]
  -- A fixed size writes no length in front of the items.
  cases hfixed : type.size with
  | some size =>
    rw [Option.isNone_some, if_neg Bool.false_ne_true, List.nil_append]
    rw [hsize size hfixed] at hitems
    exact hitems.bind _
  | none =>
    have hcount : (items.length.toUInt32).toNat = items.length := by
      simp only [Nat.toUInt32, UInt32.toNat_ofNat']
      omega
    have hlen := reads_readAt path' (reads_readVaruint32 items.length.toUInt32) (body ++ rest)
    rw [Option.isNone_none, if_pos rfl]
    simp only
    rw [List.append_assoc, StateT.run_bind, hlen, ok_bind, hcount, StateT.run_bind]
    exact hitems.bind _

/-- What it takes for a value that is not null to come back. -/
theorem reversible_succ_iff {last : Bool} {value : Json} {type : ABI.ResolvedNode}
    (hvalue : value.isNull = false) :
    Reversible p arena (room + 1) last value type ↔
      (type.isExtension = true → canBeEmpty p arena (maxCodingDepth + 1) false type = false) ∧
        if type.isArray then
          ∀ items, value = .arr items → items.length < 2 ^ 32 ∧
            (∀ n, type.size = some n → items.length = n.toNat) ∧
            emptyInner p arena (canBeEmpty p arena (maxCodingDepth + 1)) true type = false ∧
            ReversibleItems p arena (Reversible p arena (room - 1)) last type items
        else ReversibleInner p arena (Reversible p arena room) last value type := by
  rw [Reversible.eq_def]
  simp only [hvalue, Bool.false_eq_true, if_false]
  refine and_congr_right (fun _ => ?_)
  by_cases harray : type.isArray = true
  · rw [if_pos harray, if_pos harray]
    cases value with
    | arr items =>
      simp only [Json.arr.injEq, forall_eq']
      cases room with
      | zero => exact Iff.rfl
      | succ room => exact Iff.rfl
    | _ => simp
  · rw [if_neg harray, if_neg harray]

/-- The contents of a value lie no deeper than the value. -/
theorem contents_overflow (hinner : OverflowsInner p arena (room + 1) (left + 1))
    (hitem : OverflowsInner p arena room left) {last : Bool} {value : Json}
    {type : ABI.ResolvedNode} (hvalue : value.isNull = false)
    (hrev : Reversible p arena (room + 1) last value type)
    (hnot : ¬ Reversible p arena (left + 1) last value type) {fuel : ℕ} {path : CodingPath}
    {bytes : Bytes}
    (h : encodeContents (encodeInner p arena (encodeAny p arena fuel)) path value type = .ok bytes)
    {fuel' : ℕ} {path' : CodingPath} {rest : Bytes} (hfuel : left ≤ fuel')
    (hpath : Leaves path' (left + 1)) (hlast : last = true → rest = []) :
    TooDeep ((decodeContents (decodeBinaryInner p arena (decodeBinary p arena fuel')) path'
      type).run (bytes ++ rest)) := by
  rw [reversible_succ_iff hvalue] at hrev hnot
  obtain ⟨hext, hrev⟩ := hrev
  have hnot := fun hfits => hnot ⟨hext, hfits⟩
  -- The items of an array lie one entry deeper than it, the contents of anything else do not.
  by_cases harray : type.isArray = true
  · rw [if_pos harray] at hrev hnot
    obtain ⟨items, rfl⟩ := encodeContents_array harray h
    obtain ⟨hlength, hsize, hempty, hitems⟩ := hrev items rfl
    have hnot' : ¬ ReversibleItems p arena (Reversible p arena (left - 1)) last type items := by
      intro hfits
      apply hnot
      rintro items' ⟨⟩
      exact ⟨hlength, hsize, hempty, hfits⟩
    have hdeep : TooDeep ((decodeContents (decodeBinaryInner p arena
        (decodeBinary p arena (fuel' + 1 - 1))) path' type).run (bytes ++ rest)) :=
      array_overflow hitem harray hlength hsize hempty hitems hnot' h (by omega) hpath hlast
    rwa [Nat.add_sub_cancel] at hdeep
  · rw [if_neg harray] at hrev hnot
    unfold encodeContents at h
    unfold decodeContents
    rw [if_neg harray] at h ⊢
    exact hinner _ _ _ _ _ _ hrev hnot h (fuel' + 1) _ _ (by omega) hpath hlast

/-- **What comes back with enough room, and does not fit the room there is, is turned down
for its depth**: by induction on the entries left. -/
theorem overflows (p : Platform) (arena : ABI.Arena) (room left : ℕ) :
    Overflows p arena room left := by
  induction left using Nat.strong_induction_on generalizing room with
  -- An array in the value takes two entries at once, hence the strong induction.
  | _ left ih =>
    intro last value type fuel path bytes hrev hnot h fuel' path' rest hfuel hpath hlast
    cases left with
    | zero => exact tooDeep_of_path (by have := hpath.least; omega) type _
    | succ left =>
      obtain ⟨room, rfl⟩ : ∃ k, room = k + 1 := ⟨room - 1, by have := hrev.pos; omega⟩
      obtain ⟨fuel', rfl⟩ : ∃ k, fuel' = k + 1 := ⟨fuel' - 1, by omega⟩
      have hroom := hpath.most (Nat.succ_pos left)
      by_cases hnull : value.isNull = true
      · rw [Reversible.eq_def] at hrev hnot
        simp only at hrev hnot
        rw [if_pos hnull] at hrev hnot
        obtain ⟨hkind, hrev⟩ := hrev
        obtain rfl := Json.eq_null_of_isNull hnull
        exact null_overflow hrev (fun hfits => hnot ⟨hkind, hfits⟩) h hfuel hpath
      · have hvalue : value.isNull = false := by simpa using hnull
        obtain ⟨hne, -⟩ := restores p arena (room + 1) _ _ _ _ _ _ hrev h
        obtain ⟨hext, -⟩ := (reversible_succ_iff hvalue).mp hrev
        have hmore : type.isExtension = true → bytes ++ rest ≠ [] := fun he hempty =>
          hne _ false (hext he) (fun h => absurd h hnull) (List.append_eq_nil_iff.mp hempty).1
        cases fuel with
        | zero => cases h
        | succ fuel =>
          rw [encodeAny, if_neg (by simp [hnull])] at h
          obtain ⟨contents, hcontents, h⟩ := bind_eq_ok.mp h
          obtain rfl := Except.ok.inj h
          have hdeep : TooDeep ((decodeContents (decodeBinaryInner p arena
              (decodeBinary p arena fuel')) path' type).run (contents ++ rest)) :=
            contents_overflow (overflowsInner (ih left (by omega) room))
              (overflowsInner (ih (left - 1) (by omega) _)) hvalue hrev hnot hcontents (by omega)
              hpath hlast
          rw [decodeBinary_run (by omega) hmore]
          by_cases hopt : type.isOptional = true
          · have hbyte : (readAt path' readByte).run ([1] ++ (contents ++ rest)) =
                .ok (1, contents ++ rest) := rfl
            rw [if_pos hopt, if_pos hopt, List.append_assoc, StateT.run_bind, hbyte, ok_bind]
            exact hdeep
          · rw [if_neg hopt, if_neg hopt, List.nil_append]
            exact hdeep

end Overflow

/-! ## The end of the decoder's walk -/

section Fuel

variable {p : Platform} {arena : ABI.Arena}

theorem decodeFields_congr {next next' : CodingPath → ABI.ResolvedNode → Decoding Json}
    {path : CodingPath} {fields : List (Str × ABI.ResolvedNode)} (rv : List (Str × Json))
    (h : ∀ field child, next (path.push field child) child = next' (path.push field child) child) :
    decodeFields next path fields rv = decodeFields next' path fields rv := by
  induction fields generalizing rv with
  | nil => rfl
  | cons field fields ih =>
    rw [decodeFields, decodeFields, h]
    exact congrArg _ (funext (fun v => ih _))

theorem decodeBinaryInner_congr {next next' : CodingPath → ABI.ResolvedNode → Decoding Json}
    {path : CodingPath} (type : ABI.ResolvedNode)
    (h : ∀ field child, next (path.push field child) child = next' (path.push field child) child) :
    decodeBinaryInner p arena next path type = decodeBinaryInner p arena next' path type := by
  unfold decodeBinaryInner
  simp only [h, decodeFields_congr _ h]

theorem decodeItems_congr {inner inner' : CodingPath → ABI.ResolvedNode → Decoding Json}
    {path : CodingPath} {type : ABI.ResolvedNode}
    (h : ∀ i, inner (path.pushIndex i type) type = inner' (path.pushIndex i type) type) (n : ℕ)
    (rv : List Json) : decodeItems inner path type n rv = decodeItems inner' path type n rv := by
  induction n generalizing rv with
  | zero => rfl
  | succ n ih => simp only [decodeItems, h, ih]

/-- **The walk ends at its guard**: more fuel changes nothing. -/
theorem decodeBinary_fuel {fuel : ℕ} {path : CodingPath}
    (h : maxCodingDepth + 1 ≤ path.length + fuel) (type : ABI.ResolvedNode) :
    decodeBinary p arena (fuel + 1) path type = decodeBinary p arena fuel path type := by
  induction fuel generalizing path type with
  | zero =>
    have hfull : maxCodingDepth < path.length := by omega
    rw [decodeBinary.eq_def, decodeBinary.eq_def]
    simp only
    rw [if_pos hfull]
  | succ fuel ih =>
    have hinner (path' : CodingPath) (hlength : path.length ≤ path'.length) :
        decodeBinaryInner p arena (decodeBinary p arena (fuel + 1)) path' type =
          decodeBinaryInner p arena (decodeBinary p arena fuel) path' type := by
      refine decodeBinaryInner_congr type (fun field child => ih ?_ child)
      rw [length_push]
      omega
    have hcontents : decodeContents (decodeBinaryInner p arena (decodeBinary p arena (fuel + 1)))
        path type = decodeContents (decodeBinaryInner p arena (decodeBinary p arena fuel)) path
          type := by
      have hitem (i : ℕ) := hinner (path.pushIndex i type) (by rw [length_pushIndex]; omega)
      unfold decodeContents
      simp only [decodeItems_congr hitem, hinner path le_rfl]
    rw [decodeBinary, decodeBinary, hcontents]

end Fuel

/-! ## The serializer -/

namespace Serializer

/-- What the encoder accepts is not turned down for its depth, by the walk of `decode` over
the bytes or by that of `decodeObject` over the value. -/
def DepthsAgree (p : Platform) (abi : ABI) (type : Str) (value : Json) : Prop :=
  let (arena, root) := abi.resolveType type
  let rootType := arena.node root
  ∀ bytes, encode p value type abi = .ok bytes →
    ¬ TooDeep ((decodeBinary p arena (maxCodingDepth + 1) (rootPath rootType) rootType).run bytes) ∧
    ¬ TooDeep (Dwarfkit.decodeObject p arena (maxCodingDepth + 1) (rootPath rootType) value rootType)

/-- No coding path from the root of the type has more than 32 entries. -/
def ShallowType (abi : ABI) (type : Str) : Prop :=
  let (arena, root) := abi.resolveType type
  Shallow arena maxCodingDepth (arena.node root) = true

/-- The value would come back with enough room. -/
def Aligned (p : Platform) (abi : ABI) (type : Str) (value : Json) : Prop :=
  let (arena, root) := abi.resolveType type
  ∃ room, Dwarfkit.Reversible p arena room true value (arena.node root)

/-- No alternative of the ABI is named undefined. -/
def NoneUndefined (abi : ABI) (type : Str) : Prop :=
  let (arena, _) := abi.resolveType type
  Dwarfkit.NoneUndefined arena

/-- The root is the first of 33 entries. -/
theorem leaves_rootPath (type : ABI.ResolvedNode) : Leaves (rootPath type) maxCodingDepth := by
  have hlength : (rootPath type).length = 1 := rfl
  constructor
  · rw [hlength]
    omega
  · intro _
    rw [hlength]
    omega

theorem decodeBinary_ends (p : Platform) (arena : ABI.Arena) (rootType : ABI.ResolvedNode)
    {fuel : ℕ} (hfuel : maxCodingDepth + 1 ≤ fuel) :
    decodeBinary p arena fuel (rootPath rootType) rootType =
      decodeBinary p arena (maxCodingDepth + 1) (rootPath rootType) rootType := by
  induction fuel, hfuel using Nat.le_induction with
  | base => rfl
  | succ fuel hfuel ih => rw [decodeBinary_fuel (by omega), ih]

/-- A shallow type is never too deep. -/
theorem depthsAgree_of_shallow {p : Platform} {abi : ABI} {type : Str} (h : ShallowType abi type)
    (value : Json) : DepthsAgree p abi type value := by
  unfold ShallowType at h
  unfold DepthsAgree encode
  rcases hresolve : abi.resolveType type with ⟨arena, root⟩
  rw [hresolve] at h
  intro bytes hencode
  have hencode := mapError_eq_ok.mp hencode
  constructor
  · refine not_tooDeep_iff.mpr (fun f hf => ?_)
    have hroot := (leaves_rootPath (arena.node root)).most (by decide)
    exact (shallow_decodes p h (by omega) hroot bytes f hf).2
  · exact not_tooDeep_iff.mpr (shallow_normalizes h (by omega) hencode)

/-- A reversible value comes back, so it is not too deep. -/
theorem depthsAgree_of_reversible {p : Platform} {abi : ABI} {type : Str} {value : Json}
    (h : Reversible p abi type value) : DepthsAgree p abi type value := by
  unfold Reversible at h
  unfold DepthsAgree encode
  rcases hresolve : abi.resolveType type with ⟨arena, root⟩
  rw [hresolve] at h
  intro bytes hencode
  obtain ⟨j, hdecode, hobject⟩ := restored_root h (mapError_eq_ok.mp hencode)
  constructor
  · rintro ⟨f, hf, -⟩
    rw [hdecode] at hf
    cases hf
  · rintro ⟨f, hf, -⟩
    rw [hobject] at hf
    cases hf

/-- A value that only lacks the room is too deep. -/
theorem reversible_of_depthsAgree {p : Platform} {abi : ABI} {type : Str} {value : Json}
    (haligned : Aligned p abi type value) (h : DepthsAgree p abi type value) {bytes : Bytes}
    (hencode : encode p value type abi = .ok bytes) : Reversible p abi type value := by
  unfold Aligned at haligned
  unfold DepthsAgree encode at h
  unfold encode at hencode
  unfold Reversible
  rcases hresolve : abi.resolveType type with ⟨arena, root⟩
  rw [hresolve] at haligned h hencode
  obtain ⟨room, hroom⟩ := haligned
  by_contra hnot
  have hdeep : TooDeep ((decodeBinary p arena (maxCodingDepth + 1) (rootPath (arena.node root))
      (arena.node root)).run (bytes ++ [])) :=
    overflows p arena room maxCodingDepth _ _ _ _ _ _ hroom hnot (mapError_eq_ok.mp hencode) _ _ _
      (by omega) (leaves_rootPath _) (fun _ => rfl)
  rw [List.append_nil] at hdeep
  exact (h bytes hencode).1 hdeep

/-- The normalizer is not too deep where no alternative is named undefined. -/
theorem normalizes_of_noneUndefined {p : Platform} {abi : ABI} {type : Str} {value : Json}
    (h : NoneUndefined abi type) {bytes : Bytes} (hencode : encode p value type abi = .ok bytes) :
    let (arena, root) := abi.resolveType type
    let rootType := arena.node root
    ¬ TooDeep (Dwarfkit.decodeObject p arena (maxCodingDepth + 1) (rootPath rootType) value
      rootType) := by
  unfold NoneUndefined at h
  unfold encode at hencode
  rcases hresolve : abi.resolveType type with ⟨arena, root⟩
  rw [hresolve] at h hencode
  exact not_tooDeep_iff.mpr (normalizes_in_depth le_rfl (.inr h) (mapError_eq_ok.mp hencode))

/-- A tree. -/
def treeABI : ABI where
  structs := [⟨"node", "", [⟨"children", "node[]"⟩]⟩]

/-- A tree of `n` nodes below its root, one below the other. -/
def chain : ℕ → Json
  | 0 => .obj [("children", .arr [])]
  | n + 1 => .obj [("children", .arr [chain n])]

/-- A list whose cells hold items of a variant with an alternative named undefined. -/
def cellABI : ABI where
  structs := [⟨"cell", "", [⟨"next", "cell?"⟩, ⟨"items", "item[]$"⟩]⟩, ⟨"undefined", "", []⟩]
  variants := [⟨"item", ["undefined"]⟩]

/-- `n` cells before one with a null for its item. -/
def cells : ℕ → Json
  | 0 => .obj [("items", .arr [.null])]
  | n + 1 => .obj [("next", cells n), ("items", .arr [])]

instance {α : Type} (r : Coding α) : Decidable (TooDeep r) :=
  match r with
  | .ok a => isFalse (by rintro ⟨f, hf, -⟩; cases hf)
  | .error f => decidable_of_iff (f.error.message = depthText)
    ⟨fun h => ⟨f, rfl, h⟩, by rintro ⟨f', hf, h⟩; cases hf; exact h⟩

/-- Bytes that were written, and a walk that is turned down for its depth. -/
theorem not_depthsAgree {p : Platform} {abi : ABI} {type : Str} {value : Json} {bytes : Bytes}
    (hencode : (encode p value type abi).toOption = some bytes)
    (h : let (arena, root) := abi.resolveType type
      let rootType := arena.node root
      TooDeep ((decodeBinary p arena (maxCodingDepth + 1) (rootPath rootType) rootType).run bytes) ∨
      TooDeep (Dwarfkit.decodeObject p arena (maxCodingDepth + 1) (rootPath rootType) value
        rootType)) :
    ¬ DepthsAgree p abi type value := by
  have haccepted : encode p value type abi = .ok bytes := by
    cases hresult : encode p value type abi with
    | error e =>
      rw [hresult] at hencode
      cases hencode
    | ok written =>
      rw [hresult] at hencode
      rw [Option.some.inj hencode]
  unfold DepthsAgree
  rcases hresolve : abi.resolveType type with ⟨arena, root⟩
  rw [hresolve] at h
  intro hagree
  rcases h with h | h
  · exact (hagree bytes haccepted).1 h
  · exact (hagree bytes haccepted).2 h

end Serializer

end Dwarfkit
