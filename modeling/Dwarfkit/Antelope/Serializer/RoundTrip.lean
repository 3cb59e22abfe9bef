/-
# Decoding undoes encoding

The round trip of the dynamic serializer.  `Reversible` says, along the resolved type,
which json values come back: those that meet no place where the three walkers part
ways.  They do part ways

* at `T[N]`, whose size the encoder does not check;
* at an alternative past the 127th, whose index is written as a varuint32 and read as a
  byte;
* at a type definition under a builtin's name, which only the decoder follows;
* at a null for a type definition of an optional, which only the normalizer refuses.

`undoes_of_reversible` : of a reversible value the decoder reads back every byte, and gets
what the normalizer makes of the value.
-/
import Dwarfkit.Antelope.Serializer.Serializer

namespace Dwarfkit

open Wire

theorem Json.eq_null_of_isNull {j : Json} (h : j.isNull = true) : j = .null := by
  cases j with
  | null => rfl
  | _ => cases h

/-! ## Reversible values -/

section Reversible

variable (p : Platform) (arena : ABI.Arena)

/-- The type the encoder and the normalizer go on to from an alias. -/
def followed (type : ABI.ResolvedNode) : Option ABI.ResolvedNode :=
  match type.ref, findBuiltin p type.name with
  | some ref, none => some (arena.node ref)
  | _, _ => none

/-- A null of this type is written as nothing. -/
def silent : (fuel : ℕ) → ABI.ResolvedNode → Bool
  | 0, _ => false
  | fuel + 1, type =>
    !type.isOptional &&
      match followed p arena type with
      | some target => silent fuel target
      | none => true

/-- A member that is absent and leaves no trace in the bytes. -/
def absentField (value : Json) (type : ABI.ResolvedNode) : Bool :=
  value.isNull && silent p arena (maxCodingDepth + 1) type

/-- Can `encodeInner` write nothing?  `next` answers for the walker one level down, given
whether the value may be null. -/
def emptyInner (next : Bool → ABI.ResolvedNode → Bool) (absent : Bool) (type : ABI.ResolvedNode) :
    Bool :=
  match followed p arena type with
  | some target => next absent target
  | none =>
    match type.fields with
    | some _ =>
      match arena.allFields type with
      | some fields => fields.all (fun f => next true f.2)
      | none => true
    | none => false

/-- Can `encodeAny` write nothing for a value of this type, of the right size where the
type fixes one? -/
def canBeEmpty : (fuel : ℕ) → (absent : Bool) → ABI.ResolvedNode → Bool
  | 0, _, _ => true
  | fuel + 1, absent, type =>
    !type.isOptional &&
      (absent && type.isExtension ||
        if type.isArray then
          match type.size with
          | some n => n = 0 || emptyInner p arena (canBeEmpty fuel) true type
          | none => false
        else emptyInner p arena (canBeEmpty fuel) absent type)

/-- A null that is read back: an optional's, or an extension's at the end of the input,
which the decoder leaves at the first extension on its way. -/
def NullReversible : (room : ℕ) → (last : Bool) → ABI.ResolvedNode → Prop
  | 0, _, _ => False
  | room + 1, last, type =>
    type.isOptional = true ∨
      (last = true ∧ type.isExtension = true ∧ ∃ n, silent p arena n type = true) ∨
      match followed p arena type with
      | some target => NullReversible room last target
      | none => last = true

/-- The members of a struct.  One of them ends the input when the struct does and every
member after it is absent. -/
def ReversibleFields (next : Bool → Json → ABI.ResolvedNode → Prop) (last : Bool)
    (value : Json) : List (Str × ABI.ResolvedNode) → Prop
  | [] => True
  | (name, type) :: fields =>
    next (last && fields.all (fun f => absentField p arena (value.jsonAt f.1) f.2))
      (value.jsonAt name) type ∧ ReversibleFields next last value fields

/-- What the walkers make of a value past the suffixes of its type. -/
def ReversibleInner (next : Bool → Json → ABI.ResolvedNode → Prop) (last : Bool) (value : Json)
    (type : ABI.ResolvedNode) : Prop :=
  match followed p arena type with
  | some target => next last value target
  | none =>
    type.ref = none ∧ value.isNull = false ∧
      match type.fields, type.variant with
      | some _, _ =>
        match arena.allFields type with
        | some fields => ReversibleFields p arena next last value fields
        | none => True
      | none, some variant =>
        match findAlternative arena variant (chosenAlternative value).1 with
        | some vIdx => vIdx < 128 ∧
            next last (chosenAlternative value).2 (arena.node (variant.getD vIdx 0))
        | none => True
      | none, none => Framed p type.name value

/-- The items of an array; only the last one can end the input. -/
def ReversibleItems (next : Bool → Json → ABI.ResolvedNode → Prop) (last : Bool)
    (type : ABI.ResolvedNode) : List Json → Prop
  | [] => True
  | value :: values =>
    ReversibleInner p arena next (last && values.isEmpty) value type ∧
      ReversibleItems next last type values

/-- The value survives encoding and decoding as `type`, with `room` levels left before
the decoder's limit; `last` says that the input ends with it. -/
def Reversible : (room : ℕ) → (last : Bool) → Json → ABI.ResolvedNode → Prop
  | 0, _, _, _ => False
  | room + 1, last, value, type =>
    if value.isNull then
      (type.isOptional || type.isExtension) = true ∧ NullReversible p arena (room + 1) last type
    else
      (type.isExtension = true → canBeEmpty p arena (maxCodingDepth + 1) false type = false) ∧
        if type.isArray then
          -- an item lies one path entry below its array
          let next := match room with
            | 0 => fun _ _ _ => False
            | room + 1 => Reversible room
          match value with
          | .arr items =>
            items.length < 2 ^ 32 ∧ (∀ n, type.size = some n → items.length = n.toNat) ∧
              emptyInner p arena (canBeEmpty p arena (maxCodingDepth + 1)) true type = false ∧
              ReversibleItems p arena next last type items
          | _ => True
        else ReversibleInner p arena (Reversible room) last value type

end Reversible

/-! ## Walkers on the way down -/

/-- A reader used at a path reads what it reads. -/
theorem reads_readAt {α : Type} {d : Decoder α} {chunk : Bytes} {a : α} (path : CodingPath)
    (h : Reads d chunk a) : Reads (readAt path d) chunk a := by
  intro rest
  show atPath path (d.run (chunk ++ rest)) = _
  rw [h rest]
  rfl

/-- A success is not touched by the pop. -/
theorem popping_run {α : Type} {d : Decoding α} {s : Bytes} {r : α × Bytes}
    (h : d.run s = .ok r) : (popping d).run s = .ok r := by
  show (d.run s).mapError _ = _
  rw [h]
  rfl

/-- A result met at a path succeeds when it does. -/
theorem atPath_eq_ok {α : Type} {path : CodingPath} {r : Result α} {a : α} :
    atPath path r = .ok a ↔ r = .ok a := by
  cases r <;> simp [atPath, Except.mapError]

section Walkers

variable {p : Platform} {arena : ABI.Arena} {type target : ABI.ResolvedNode}

/-- An alias that is followed is a reference under a name that is no builtin's. -/
theorem followed_eq_some (h : followed p arena type = some target) :
    ∃ ref, type.ref = some ref ∧ findBuiltin p type.name = none ∧ target = arena.node ref := by
  unfold followed at h
  split at h
  · rename_i ref href hbuiltin
    exact ⟨ref, href, hbuiltin, (Option.some.inj h).symm⟩
  · cases h

/-- The encoder goes on to the target of an alias. -/
theorem encodeInner_of_followed (h : followed p arena type = some target)
    (next : CodingPath → Json → ABI.ResolvedNode → Coding Bytes) (path : CodingPath)
    (value : Json) : encodeInner p arena next path value type = next path value target := by
  obtain ⟨ref, href, hbuiltin, rfl⟩ := followed_eq_some h
  simp only [encodeInner, href, hbuiltin]

/-- So does the normalizer. -/
theorem decodeObjectInner_of_followed (h : followed p arena type = some target)
    (next : CodingPath → Json → ABI.ResolvedNode → Coding Json) (path : CodingPath)
    (value : Json) : decodeObjectInner p arena next path value type = next path value target := by
  obtain ⟨ref, href, hbuiltin, rfl⟩ := followed_eq_some h
  simp only [decodeObjectInner, href, hbuiltin]

/-- The decoder goes on to it one path entry further down. -/
theorem decodeBinaryInner_of_followed (h : followed p arena type = some target)
    (next : CodingPath → ABI.ResolvedNode → Decoding Json) (path : CodingPath) :
    decodeBinaryInner p arena next path type = popping (next (path.push [] target) target) := by
  obtain ⟨ref, href, hbuiltin, rfl⟩ := followed_eq_some h
  simp only [decodeBinaryInner, href, hbuiltin]

/-- A path grows by one entry. -/
@[simp]
theorem length_push (path : CodingPath) (field : Str) (type : ABI.ResolvedNode) :
    (path.push field type).length = path.length + 1 := by
  simp [CodingPath.push]

@[simp]
theorem length_pushIndex (path : CodingPath) (i : ℕ) (type : ABI.ResolvedNode) :
    (path.pushIndex i type).length = path.length + 1 := by
  simp [CodingPath.pushIndex]

/-- What a null is written as when it passes the optional byte: it is passed on along an
alias, or it is an extension's and nothing is written. -/
theorem encodeAny_null {fuel : ℕ} {path : CodingPath} {bytes : Bytes}
    (hopt : type.isOptional = false) (h : encodeAny p arena fuel path .null type = .ok bytes) :
    type.isArray = false ∧
      match followed p arena type with
      | some target => ∃ fuel, encodeAny p arena fuel path .null target = .ok bytes
      | none => type.isExtension = true ∧ bytes = [] := by
  cases fuel with
  | zero => cases h
  | succ fuel =>
    rw [encodeAny, hopt, Bool.false_and, if_neg Bool.false_ne_true] at h
    obtain ⟨contents, hcontents, h⟩ := bind_eq_ok.mp h
    have hbytes : contents = bytes := Except.ok.inj h
    subst hbytes
    unfold encodeContents at hcontents
    by_cases harray : type.isArray = true
    · rw [if_pos harray] at hcontents
      cases hcontents
    · rw [if_neg harray] at hcontents
      refine ⟨by simpa using harray, ?_⟩
      cases hfollowed : followed p arena type with
      | some target =>
        rw [encodeInner_of_followed hfollowed] at hcontents
        exact ⟨fuel, hcontents⟩
      | none =>
        -- no alias to follow: the null reaches the check for an extension
        unfold followed at hfollowed
        simp only [encodeInner] at hcontents
        split at hcontents
        · simp_all
        · rw [if_pos (by rfl)] at hcontents
          split at hcontents
          · exact ⟨by assumption, (Except.ok.inj hcontents).symm⟩
          · cases hcontents

/-- A silent null is written as nothing. -/
theorem encodeAny_silent {n : ℕ} (hsilent : silent p arena n type = true) {fuel : ℕ}
    {path : CodingPath} {bytes : Bytes} (h : encodeAny p arena fuel path .null type = .ok bytes) :
    bytes = [] := by
  induction n generalizing fuel type with
  | zero => cases hsilent
  | succ n ih =>
    rw [silent, Bool.and_eq_true, Bool.not_eq_true'] at hsilent
    obtain ⟨hopt, hsilent⟩ := hsilent
    obtain ⟨-, hnull⟩ := encodeAny_null hopt h
    cases hfollowed : followed p arena type with
    | some target =>
      rw [hfollowed] at hsilent hnull
      obtain ⟨fuel, hnull⟩ := hnull
      exact ih hsilent hnull
    | none =>
      rw [hfollowed] at hnull
      exact hnull.2

/-- An extension at the end of the input is absent. -/
theorem decodeBinary_absent {fuel : ℕ} {path : CodingPath} (hpath : path.length ≤ maxCodingDepth)
    (hext : type.isExtension = true) :
    (decodeBinary p arena (fuel + 1) path type).run [] = .ok (.null, []) := by
  have hread : (readAt path canRead).run [] = .ok (false, []) := rfl
  rw [decodeBinary, if_neg (by omega), StateT.run_bind, hread, ok_bind, hext]
  rfl

/-- Anything else goes on to its optional byte and its contents. -/
theorem decodeBinary_run {fuel : ℕ} {path : CodingPath} (hpath : path.length ≤ maxCodingDepth)
    {s : Bytes} (hmore : type.isExtension = true → s ≠ []) :
    (decodeBinary p arena (fuel + 1) path type).run s =
      (if type.isOptional then do
        let present ← readAt path readByte
        if present = 0 then return .null
        else decodeContents (decodeBinaryInner p arena (decodeBinary p arena fuel)) path type
      else decodeContents (decodeBinaryInner p arena (decodeBinary p arena fuel)) path type).run s := by
  have hread : (readAt path canRead).run s = .ok (!s.isEmpty, s) := rfl
  have hnot : ¬ (type.isExtension && !!s.isEmpty) = true := by
    rw [Bool.not_not, Bool.and_eq_true, List.isEmpty_iff]
    rintro ⟨hext, hempty⟩
    exact hmore hext hempty
  rw [decodeBinary, if_neg (by omega), StateT.run_bind, hread, ok_bind, if_neg hnot]

/-- **A null that is written is read back**, where the input ends with an absent
extension. -/
theorem decodeBinary_null {room : ℕ} {last : Bool} (hnull : NullReversible p arena room last type)
    {fuel : ℕ} {path : CodingPath} {bytes : Bytes}
    (h : encodeAny p arena fuel path .null type = .ok bytes) {fd : ℕ} {pd : CodingPath}
    {rest : Bytes} (hfd : room ≤ fd) (hpd : pd.length + room ≤ maxCodingDepth + 1)
    (hlast : last = true → rest = []) :
    (decodeBinary p arena fd pd type).run (bytes ++ rest) = .ok (.null, rest) := by
  induction room generalizing type fuel path fd pd with
  | zero => cases hnull
  | succ room ih =>
    obtain ⟨fd, rfl⟩ : ∃ fd', fd = fd' + 1 := ⟨fd - 1, by omega⟩
    by_cases hopt : type.isOptional = true
    · -- an optional: the byte 0
      have hbytes : bytes = [0] := by
        cases fuel with
        | zero => cases h
        | succ fuel =>
          rw [encodeAny, hopt] at h
          exact (Except.ok.inj h).symm
      subst hbytes
      rw [decodeBinary_run (by omega) (fun _ => by simp), if_pos hopt]
      rfl
    · have hopt' : type.isOptional = false := by simpa using hopt
      obtain ⟨harray, hwritten⟩ := encodeAny_null hopt' h
      rcases hnull with hcontra | ⟨hend, hext, n, hsilent⟩ | hnull
      · exact absurd hcontra hopt
      · -- an absent extension, whatever its target
        rw [encodeAny_silent hsilent h, hlast hend]
        exact decodeBinary_absent (by omega) hext
      · cases hfollowed : followed p arena type with
        | none =>
          rw [hfollowed] at hnull hwritten
          obtain ⟨hext, rfl⟩ := hwritten
          rw [hlast hnull]
          exact decodeBinary_absent (by omega) hext
        | some target =>
          rw [hfollowed] at hnull hwritten
          obtain ⟨fuel, hwritten⟩ := hwritten
          by_cases hmore : type.isExtension = true ∧ bytes ++ rest = []
          · obtain ⟨hext, hempty⟩ := hmore
            have hrest : rest = [] := (List.append_eq_nil_iff.mp hempty).2
            rw [hempty, hrest]
            exact decodeBinary_absent (by omega) hext
          · rw [decodeBinary_run (by omega) (fun hext hempty => hmore ⟨hext, hempty⟩),
              if_neg hopt, decodeContents, if_neg (by simp [harray]),
              decodeBinaryInner_of_followed hfollowed]
            refine popping_run (ih hnull hwritten (by omega) ?_)
            rw [length_push]
            omega

end Walkers

/-! ## One level of the three walkers -/

/-- `bytes`, written for some value, come back from the decoder as `j`, and `j` is what
the normalizer makes of the value; both have `room` levels to go. -/
structure Restored (room : ℕ) (last : Bool) (bytes : Bytes) (j : Json)
    (decoder : ℕ → CodingPath → Decoding Json) (normalizer : ℕ → CodingPath → Coding Json) :
    Prop where
  reads : ∀ fuel path rest, room ≤ fuel → path.length + room ≤ maxCodingDepth + 1 →
    (last = true → rest = []) → (decoder fuel path).run (bytes ++ rest) = .ok (j, rest)
  normalizes : ∀ fuel path, room ≤ fuel → normalizer fuel path = .ok j

section Levels

variable (p : Platform) (arena : ABI.Arena)

/-- Every reversible value with `room` levels to go is restored. -/
def Restores (room : ℕ) : Prop :=
  ∀ last value type fuel path bytes, Reversible p arena room last value type →
    encodeAny p arena fuel path value type = .ok bytes →
    (∀ n absent, canBeEmpty p arena n absent type = false → (value.isNull = true → absent = true) →
      bytes ≠ []) ∧
    ∃ j, Restored room last bytes j (fun fuel path => decodeBinary p arena fuel path type)
      (fun fuel path => decodeObject p arena fuel path value type)

/-- So is every value past the suffixes of its type, from a path with `room` left. -/
def RestoresInner (room : ℕ) : Prop :=
  ∀ last value type fuel path bytes,
    ReversibleInner p arena (Reversible p arena (room - 1)) last value type →
    encodeInner p arena (encodeAny p arena fuel) path value type = .ok bytes →
    (∀ n absent, emptyInner p arena (canBeEmpty p arena n) absent type = false →
      (value.isNull = true → absent = true) → bytes ≠ []) ∧
    ∃ j, Restored room last bytes j
      (fun fuel path => decodeBinaryInner p arena (decodeBinary p arena (fuel - 1)) path type)
      (fun fuel path => decodeObjectInner p arena (decodeObject p arena (fuel - 1)) path value type)

end Levels

section Levels

variable {p : Platform} {arena : ABI.Arena} {room : ℕ}

/-- Only with room left is a value reversible. -/
theorem Reversible.pos {last : Bool} {value : Json} {type : ABI.ResolvedNode}
    (h : Reversible p arena room last value type) : 0 < room := by
  cases room with
  | zero => cases h
  | succ room => exact Nat.succ_pos room

/-- Members that are absent without a trace. -/
theorem encodeFields_absent {fields : List (Str × ABI.ResolvedNode)} {value : Json} {fuel : ℕ}
    {path : CodingPath} {bytes : Bytes}
    (habsent : fields.all (fun f => absentField p arena (value.jsonAt f.1) f.2) = true)
    (h : encodeFields (encodeAny p arena fuel) path value fields = .ok bytes) : bytes = [] := by
  induction fields generalizing bytes with
  | nil => exact (Except.ok.inj h).symm
  | cons field fields ih =>
    obtain ⟨name, type⟩ := field
    rw [List.all_cons, Bool.and_eq_true, absentField, Bool.and_eq_true] at habsent
    obtain ⟨⟨hnull, hsilent⟩, htail⟩ := habsent
    obtain ⟨front, hfront, h⟩ := bind_eq_ok.mp h
    obtain ⟨back, hback, h⟩ := bind_eq_ok.mp h
    rw [Json.eq_null_of_isNull hnull] at hfront
    rw [← Except.ok.inj h, encodeAny_silent hsilent hfront, ih htail hback]
    rfl

/-- Assign members one after the other. -/
def insertAll (rv members : List (Str × Json)) : List (Str × Json) :=
  members.foldl (fun rv m => Json.insert rv m.1 m.2) rv

/-- **The field loops agree**: what the encoder wrote for the members of a struct, the
decoder collects in the same order as the normalizer. -/
theorem fields_restored (hnext : Restores p arena room) {fields : List (Str × ABI.ResolvedNode)}
    {last : Bool} {value : Json} {fuel : ℕ} {path : CodingPath} {bytes : Bytes}
    (hrev : ReversibleFields p arena (Reversible p arena room) last value fields)
    (h : encodeFields (encodeAny p arena fuel) path value fields = .ok bytes) :
    (∀ n, fields.all (fun f => canBeEmpty p arena n true f.2) = false → bytes ≠ []) ∧
    ∃ members,
      (∀ fuel path rv rest, room ≤ fuel →
        (0 < room → path.length + 1 + room ≤ maxCodingDepth + 1) → (last = true → rest = []) →
        (decodeFields (decodeBinary p arena fuel) path fields rv).run (bytes ++ rest) =
          .ok (insertAll rv members, rest)) ∧
      (∀ fuel path rv, room ≤ fuel →
        normalizeFields (decodeObject p arena fuel) path value fields rv =
          .ok (insertAll rv members)) := by
  induction fields generalizing bytes with
  | nil =>
    cases h
    refine ⟨fun n hn => (by cases hn), [], ?_, fun _ _ _ _ => rfl⟩
    intro fuel path rv rest _ _ _
    rfl
  | cons field fields ih =>
    obtain ⟨name, type⟩ := field
    obtain ⟨hhead, htail⟩ := hrev
    obtain ⟨front, hfront, h⟩ := bind_eq_ok.mp h
    obtain ⟨back, hback, h⟩ := bind_eq_ok.mp h
    have hbytes : front ++ back = bytes := Except.ok.inj h
    subst hbytes
    have hroom := hhead.pos
    obtain ⟨hne, j, hj⟩ := hnext _ _ _ _ _ _ hhead hfront
    obtain ⟨hne', members, hreads, hnormalizes⟩ := ih htail hback
    refine ⟨?_, (name, j) :: members, ?_, ?_⟩
    · intro n hn hempty
      obtain ⟨hfrontnil, hbacknil⟩ := List.append_eq_nil_iff.mp hempty
      rw [List.all_cons, Bool.and_eq_false_iff] at hn
      rcases hn with hn | hn
      · exact hne n true hn (fun _ => rfl) hfrontnil
      · exact hne' n hn hbacknil
    · intro fuel path rv rest hfuel hpath hlast
      -- the member ends the input when every later one is absent
      have hend : (last && fields.all (fun f => absentField p arena (value.jsonAt f.1) f.2)) = true →
          back ++ rest = [] := by
        rw [Bool.and_eq_true]
        rintro ⟨hl, habsent⟩
        rw [encodeFields_absent habsent hback, hlast hl]
        rfl
      have hlen : (path.push name type).length + room ≤ maxCodingDepth + 1 := by
        rw [length_push]
        exact hpath hroom
      rw [List.append_assoc, decodeFields, StateT.run_bind, hj.reads fuel _ _ hfuel hlen hend,
        ok_bind]
      exact hreads fuel path _ rest hfuel hpath hlast
    · intro fuel path rv hfuel
      rw [normalizeFields, hj.normalizes fuel _ hfuel, ok_bind]
      exact hnormalizes fuel path _ hfuel

/-- **The item loops agree**, for items that are never written as nothing. -/
theorem items_restored (hinner : RestoresInner p arena room) {items : List Json} {last : Bool}
    {type : ABI.ResolvedNode} {fuel : ℕ} {path : CodingPath} {i n : ℕ} {bytes : Bytes}
    (hne : emptyInner p arena (canBeEmpty p arena n) true type = false)
    (hrev : ReversibleItems p arena (Reversible p arena (room - 1)) last type items)
    (h : encodeItems (encodeInner p arena (encodeAny p arena fuel)) path type i items = .ok bytes) :
    (items ≠ [] → bytes ≠ []) ∧
    ∃ values,
      (∀ fuel path rv rest, room ≤ fuel → path.length + 1 + room ≤ maxCodingDepth + 1 →
        (last = true → rest = []) →
        (decodeItems (decodeBinaryInner p arena (decodeBinary p arena (fuel - 1))) path type
          items.length rv).run (bytes ++ rest) = .ok (rv ++ values, rest)) ∧
      (∀ fuel path i, room ≤ fuel →
        normalizeItems (decodeObjectInner p arena (decodeObject p arena (fuel - 1))) path type i
          items = .ok values) := by
  induction items generalizing i bytes with
  | nil =>
    cases h
    refine ⟨fun hnil => absurd rfl hnil, [], ?_, fun _ _ _ _ => rfl⟩
    intro fuel path rv rest _ _ _
    rw [List.append_nil]
    rfl
  | cons item items ih =>
    obtain ⟨hhead, htail⟩ := hrev
    obtain ⟨front, hfront, h⟩ := bind_eq_ok.mp h
    obtain ⟨back, hback, h⟩ := bind_eq_ok.mp h
    have hbytes : front ++ back = bytes := Except.ok.inj h
    subst hbytes
    obtain ⟨hfrontne, j, hj⟩ := hinner _ _ _ _ _ _ hhead hfront
    have hfrontnil : front ≠ [] := hfrontne n true hne (fun _ => rfl)
    obtain ⟨-, values, hreads, hnormalizes⟩ := ih htail hback
    refine ⟨?_, j :: values, ?_, ?_⟩
    · intro _ hempty
      exact hfrontnil (List.append_eq_nil_iff.mp hempty).1
    · intro fuel path rv rest hfuel hpath hlast
      have hend : (last && items.isEmpty) = true → back ++ rest = [] := by
        rw [Bool.and_eq_true, List.isEmpty_iff]
        rintro ⟨hl, rfl⟩
        rw [← Except.ok.inj hback, hlast hl]
        rfl
      have hlen : (path.pushIndex rv.length type).length + room ≤ maxCodingDepth + 1 := by
        rw [length_pushIndex]
        exact hpath
      have hread := hj.reads fuel _ _ hfuel hlen hend
      have hremaining : ∀ (path : CodingPath) (s : Bytes),
          (readAt path remaining).run s = .ok (s.length, s) := fun _ _ => rfl
      -- the item took at least one byte, so the bound on empty items is not looked at
      have htook : ¬ ((back ++ rest).length = (front ++ (back ++ rest)).length ∧
          (back ++ rest).length + 1 ≤ rv.length) := by
        rintro ⟨hlength, -⟩
        simp only [List.length_append] at hlength
        exact hfrontnil (List.length_eq_zero_iff.mp (by omega))
      rw [List.append_assoc, List.length_cons, decodeItems, StateT.run_bind, hremaining, ok_bind,
        StateT.run_bind, hread, ok_bind, StateT.run_bind, hremaining, ok_bind, if_neg htook,
        hreads fuel path _ rest hfuel hpath hlast, List.append_assoc, List.singleton_append]
    · intro fuel path i hfuel
      rw [normalizeItems, hj.normalizes fuel _ hfuel, ok_bind, hnormalizes fuel path _ hfuel,
        ok_bind]
      rfl

/-- An alternative that is found is one of the variant's. -/
theorem findAlternative_eq_some {variant : List ℕ} {vName : Str} {vIdx : ℕ}
    (h : findAlternative arena variant vName = some vIdx) :
    variant[vIdx]? = some (variant.getD vIdx 0) := by
  obtain ⟨hlt, -⟩ := List.findIdx?_eq_some_iff_getElem.mp h
  rw [List.getD_eq_getElem _ _ hlt, List.getElem?_eq_getElem hlt]

/-- An index of one group is one byte. -/
theorem writeVaruint32_of_lt {v : ℕ} (h : v < 128) : writeVaruint32 v.toUInt32 = [v.toUInt8] := by
  have hv : (v.toUInt32).toNat = v := by
    simp only [Nat.toUInt32, UInt32.toNat_ofNat']
    omega
  rw [writeVaruint32, hv, lebBytes, if_pos (by omega)]

/-- A struct is restored when its members are. -/
theorem struct_restored (last : Bool) (hnext : Restores p arena (room - 1)) {value : Json}
    {type : ABI.ResolvedNode} {own : List (Str × ℕ)} (hfollowed : followed p arena type = none)
    (href : type.ref = none) (hvalue : value.isNull = false) (hown : type.fields = some own)
    (hrev : ∀ fields, arena.allFields type = some fields →
      ReversibleFields p arena (Reversible p arena (room - 1)) last value fields)
    {fuel : ℕ} {path : CodingPath} {bytes : Bytes}
    (h : encodeInner p arena (encodeAny p arena fuel) path value type = .ok bytes) :
    (∀ n absent, emptyInner p arena (canBeEmpty p arena n) absent type = false → bytes ≠ []) ∧
    ∃ j, Restored room last bytes j
      (fun fuel path => decodeBinaryInner p arena (decodeBinary p arena (fuel - 1)) path type)
      (fun fuel path => decodeObjectInner p arena (decodeObject p arena (fuel - 1)) path value type) := by
  simp only [encodeInner, href, hown, hvalue, Bool.false_eq_true, if_false] at h
  split at h
  · rename_i hobject
    cases hall : arena.allFields type with
    | none =>
      rw [hall] at h
      cases h
    | some fields =>
      rw [hall] at h
      obtain ⟨hne, members, hreads, hnormalizes⟩ := fields_restored hnext (hrev fields hall) h
      -- In turn: the bytes written, what is read of them, and what the value is normalized to.
      refine ⟨?_, .obj (insertAll [] members), ?_, ?_⟩
      · intro n absent hempty
        simp only [emptyInner, hfollowed, hown, hall] at hempty
        exact hne n hempty
      · intro fuel path rest hfuel hpath hlast
        have hread := hreads (fuel - 1) path [] rest (by omega) (by omega) hlast
        simp only [decodeBinaryInner, href, hown, hall]
        rw [StateT.run_bind, hread, ok_bind]
        rfl
      · intro fuel path hfuel
        simp only [decodeObjectInner, href, hown, hobject, if_true, hall]
        rw [hnormalizes (fuel - 1) path [] (by omega), ok_bind]
        rfl
  · cases h

/-- A variant is restored when its content is and its index fits one group. -/
theorem variant_restored (last : Bool) (hnext : Restores p arena (room - 1)) {value : Json}
    {type : ABI.ResolvedNode} {variant : List ℕ} (href : type.ref = none)
    (hvalue : value.isNull = false) (hfields : type.fields = none)
    (hvariant : type.variant = some variant)
    (hrev : ∀ vIdx, findAlternative arena variant (chosenAlternative value).1 = some vIdx →
      vIdx < 128 ∧ Reversible p arena (room - 1) last (chosenAlternative value).2
        (arena.node (variant.getD vIdx 0)))
    {fuel : ℕ} {path : CodingPath} {bytes : Bytes}
    (h : encodeInner p arena (encodeAny p arena fuel) path value type = .ok bytes) :
    bytes ≠ [] ∧
    ∃ j, Restored room last bytes j
      (fun fuel path => decodeBinaryInner p arena (decodeBinary p arena (fuel - 1)) path type)
      (fun fuel path => decodeObjectInner p arena (decodeObject p arena (fuel - 1)) path value type) := by
  simp only [encodeInner, href, hfields, hvariant, hvalue, Bool.false_eq_true, if_false] at h
  cases hfound : findAlternative arena variant (chosenAlternative value).1 with
  | none =>
    rw [hfound] at h
    cases h
  | some vIdx =>
    obtain ⟨hsmall, hinner⟩ := hrev vIdx hfound
    rw [hfound] at h
    obtain ⟨content, hcontent, h⟩ := bind_eq_ok.mp h
    -- The decoder reads a byte where the encoder writes a varuint, which agree below 128.
    have hbytes : writeVaruint32 vIdx.toUInt32 ++ content = bytes := Except.ok.inj h
    rw [writeVaruint32_of_lt hsmall] at hbytes
    subst hbytes
    have hroom := hinner.pos
    have hbyte : (vIdx.toUInt8).toNat = vIdx := by
      simp only [Nat.toUInt8, UInt8.toNat_ofNat']
      omega
    obtain ⟨-, j, hj⟩ := hnext _ _ _ _ _ _ hinner hcontent
    refine ⟨by simp, .arr [.str (arena.node (variant.getD vIdx 0)).typeName, j], ?_, ?_⟩
    · intro fuel path rest hfuel hpath hlast
      have hread : (readAt path readByte).run ([vIdx.toUInt8] ++ (content ++ rest)) =
          .ok (vIdx.toUInt8, content ++ rest) := rfl
      have hlen : (path.push (lit "v" ++ natToString vIdx)
          (arena.node (variant.getD vIdx 0))).length + (room - 1) ≤ maxCodingDepth + 1 := by
        rw [length_push]
        omega
      simp only [decodeBinaryInner, href, hfields, hvariant]
      rw [List.append_assoc, StateT.run_bind, hread, ok_bind, hbyte,
        findAlternative_eq_some hfound]
      simp only
      rw [StateT.run_bind, hj.reads (fuel - 1) _ rest (by omega) hlen hlast, ok_bind]
      rfl
    · intro fuel path hfuel
      simp only [decodeObjectInner, href, hfields, hvariant, hfound]
      rw [hj.normalizes (fuel - 1) _ (by omega), ok_bind]
      rfl

/-- A builtin is restored when its value is framed. -/
theorem builtin_restored {last : Bool} {value : Json} {type : ABI.ResolvedNode}
    (href : type.ref = none) (hvalue : value.isNull = false) (hfields : type.fields = none)
    (hvariant : type.variant = none) (hframed : Framed p type.name value)
    {fuel : ℕ} {path : CodingPath} {bytes : Bytes}
    (h : encodeInner p arena (encodeAny p arena fuel) path value type = .ok bytes) :
    bytes ≠ [] ∧
    ∃ j, Restored room last bytes j
      (fun fuel path => decodeBinaryInner p arena (decodeBinary p arena (fuel - 1)) path type)
      (fun fuel path => decodeObjectInner p arena (decodeObject p arena (fuel - 1)) path value type) := by
  simp only [encodeInner, href, hfields, hvariant, hvalue, Bool.false_eq_true, if_false] at h
  cases hbuiltin : findBuiltin p type.name with
  | none =>
    rw [hbuiltin] at h
    cases h
  | some builtin =>
    rw [hbuiltin] at h
    obtain ⟨hne, j, hreads, hnormalizes⟩ :=
      findBuiltin_roundTrips hbuiltin hframed bytes (atPath_eq_ok.mp h)
    refine ⟨hne, j, ?_, ?_⟩
    · intro fuel path rest _ _ _
      simp only [decodeBinaryInner, href, hfields, hvariant, hbuiltin]
      exact reads_readAt path hreads rest
    · intro fuel path _
      simp only [decodeObjectInner, href, hfields, hvariant, hbuiltin]
      exact atPath_eq_ok.mpr hnormalizes

/-- **One level past the suffixes**: alias, struct, variant or builtin. -/
theorem restoresInner (hnext : Restores p arena (room - 1)) : RestoresInner p arena room := by
  intro last value type fuel path bytes hrev h
  unfold ReversibleInner at hrev
  cases hfollowed : followed p arena type with
  | some target =>
    rw [hfollowed] at hrev
    rw [encodeInner_of_followed hfollowed] at h
    obtain ⟨hne, j, hj⟩ := hnext _ _ _ _ _ _ hrev h
    have hroom := Reversible.pos hrev
    -- An alias takes an entry of the path, its target one less of the room.
    refine ⟨?_, j, ?_, ?_⟩
    · intro n absent hempty
      simp only [emptyInner, hfollowed] at hempty
      exact hne n absent hempty
    · intro fuel path rest hfuel hpath hlast
      rw [decodeBinaryInner_of_followed hfollowed]
      refine popping_run (hj.reads (fuel - 1) _ rest (by omega) ?_ hlast)
      rw [length_push]
      omega
    · intro fuel path hfuel
      rw [decodeObjectInner_of_followed hfollowed]
      exact hj.normalizes (fuel - 1) path (by omega)
  | none =>
    rw [hfollowed] at hrev
    obtain ⟨href, hvalue, hrev⟩ := hrev
    cases hfields : type.fields with
    | some own =>
      rw [hfields] at hrev
      obtain ⟨hne, hj⟩ := struct_restored last hnext hfollowed href hvalue hfields
        (fun fields hall => by simpa only [hall] using hrev) h
      exact ⟨fun n absent hempty _ => hne n absent hempty, hj⟩
    | none =>
      cases hvariant : type.variant with
      | some variant =>
        rw [hfields, hvariant] at hrev
        obtain ⟨hne, hj⟩ := variant_restored last hnext href hvalue hfields hvariant
          (fun vIdx hfound => by simpa only [hfound] using hrev) h
        exact ⟨fun _ _ _ _ => hne, hj⟩
      | none =>
        rw [hfields, hvariant] at hrev
        obtain ⟨hne, hj⟩ := builtin_restored href hvalue hfields hvariant hrev h
        exact ⟨fun _ _ _ _ => hne, hj⟩

/-- Only an array is written as one. -/
theorem encodeContents_array {inner : CodingPath → Json → ABI.ResolvedNode → Coding Bytes}
    {path : CodingPath} {value : Json} {type : ABI.ResolvedNode} {bytes : Bytes}
    (harray : type.isArray = true) (h : encodeContents inner path value type = .ok bytes) :
    ∃ items, value = .arr items := by
  unfold encodeContents at h
  rw [if_pos harray] at h
  split at h
  · exact ⟨_, rfl⟩
  · cases h

/-- **An array is restored** when its length is the one its type fixes, if any, and its
items are never written as nothing. -/
theorem array_restored (hinner : RestoresInner p arena room) {last : Bool} {items : List Json}
    {type : ABI.ResolvedNode} {n : ℕ} (harray : type.isArray = true)
    (hlength : items.length < 2 ^ 32)
    (hsize : ∀ size, type.size = some size → items.length = size.toNat)
    (hne : emptyInner p arena (canBeEmpty p arena n) true type = false)
    (hrev : ReversibleItems p arena (Reversible p arena (room - 1)) last type items)
    {fuel : ℕ} {path : CodingPath} {bytes : Bytes}
    (h : encodeContents (encodeInner p arena (encodeAny p arena fuel)) path (.arr items) type =
      .ok bytes) :
    (type.size ≠ some 0 → bytes ≠ []) ∧
    ∃ j, Restored (room + 1) last bytes j
      (fun fuel path =>
        decodeContents (decodeBinaryInner p arena (decodeBinary p arena (fuel - 1))) path type)
      (fun fuel path =>
        normalizeContents (decodeObjectInner p arena (decodeObject p arena (fuel - 1))) path
          (.arr items) type) := by
  rw [encodeContents, if_pos harray] at h
  obtain ⟨body, hbody, h⟩ := bind_eq_ok.mp h
  have hbytes := Except.ok.inj h
  subst hbytes
  obtain ⟨hbodyne, values, hreads, hnormalizes⟩ := items_restored hinner hne hrev hbody
  have hnormal : ∀ fuel path, room + 1 ≤ fuel →
      normalizeContents (decodeObjectInner p arena (decodeObject p arena (fuel - 1))) path
        (.arr items) type = .ok (.arr values) := by
    intro fuel path hfuel
    rw [normalizeContents, if_pos harray, hnormalizes fuel path 0 (by omega), ok_bind]
    rfl
  cases hfixed : type.size with
  | some size =>
    rw [Option.isNone_some, if_neg Bool.false_ne_true, List.nil_append]
    refine ⟨?_, .arr values, ?_, hnormal⟩
    · -- Only an array of fixed size zero is written as nothing.
      intro hzero
      apply hbodyne
      rintro rfl
      apply hzero
      congr 1
      rw [← UInt32.toNat_inj]
      exact (hsize size hfixed).symm
    · intro fuel path rest hfuel hpath hlast
      rw [decodeContents, if_pos harray, hfixed]
      have hread := hreads fuel path [] rest (by omega) (by omega) hlast
      rw [hsize size hfixed] at hread
      show ((decodeItems _ path type size.toNat [] >>= fun items => pure (Json.arr items)).run _) = _
      rw [StateT.run_bind, hread, ok_bind]
      rfl
  | none =>
    rw [Option.isNone_none, if_pos rfl]
    have hcount : (items.length.toUInt32).toNat = items.length := by
      simp only [Nat.toUInt32, UInt32.toNat_ofNat']
      omega
    refine ⟨?_, .arr values, ?_, hnormal⟩
    · intro _ hnil
      exact AbiTraits.writeVaruint32_ne_nil _ (List.append_eq_nil_iff.mp hnil).1
    · intro fuel path rest hfuel hpath hlast
      rw [decodeContents, if_pos harray, hfixed]
      have hread := hreads fuel path [] rest (by omega) (by omega) hlast
      have hlen := reads_readAt path (reads_readVaruint32 items.length.toUInt32) (body ++ rest)
      simp only
      rw [List.append_assoc, StateT.run_bind, hlen, ok_bind, hcount, StateT.run_bind, hread,
        ok_bind]
      rfl

/-- The optional byte and the check for an absent extension, around contents that are
restored. -/
theorem suffixes_restored {last : Bool} {value : Json} {type : ABI.ResolvedNode}
    (hvalue : value.isNull = false) {contents : Bytes} {j : Json}
    (hj : Restored (room + 1) last contents j
      (fun fuel path =>
        decodeContents (decodeBinaryInner p arena (decodeBinary p arena (fuel - 1))) path type)
      (fun fuel path =>
        normalizeContents (decodeObjectInner p arena (decodeObject p arena (fuel - 1))) path value
          type))
    (hext : type.isExtension = true → (if type.isOptional then [1] else []) ++ contents ≠ []) :
    Restored (room + 1) last ((if type.isOptional then [1] else []) ++ contents) j
      (fun fuel path => decodeBinary p arena fuel path type)
      (fun fuel path => decodeObject p arena fuel path value type) := by
  refine ⟨?_, ?_⟩
  · intro fuel path rest hfuel hpath hlast
    obtain ⟨fuel, rfl⟩ : ∃ fuel', fuel = fuel' + 1 := ⟨fuel - 1, by omega⟩
    have hread := hj.reads (fuel + 1) path rest hfuel hpath hlast
    rw [Nat.add_sub_cancel] at hread
    have hmore : type.isExtension = true →
        (if type.isOptional then [1] else []) ++ contents ++ rest ≠ [] := by
      intro he hnil
      exact hext he (List.append_eq_nil_iff.mp hnil).1
    -- Bytes are left, so the extension is not taken for absent.
    rw [decodeBinary_run (by omega) hmore]
    by_cases hopt : type.isOptional = true
    · have hbyte : (readAt path readByte).run ([1] ++ (contents ++ rest)) =
          .ok (1, contents ++ rest) := rfl
      rw [if_pos hopt, if_pos hopt, List.append_assoc, StateT.run_bind, hbyte, ok_bind]
      exact hread
    · rw [if_neg hopt, if_neg hopt, List.nil_append]
      exact hread
  · intro fuel path hfuel
    obtain ⟨fuel, rfl⟩ : ∃ fuel', fuel = fuel' + 1 := ⟨fuel - 1, by omega⟩
    have hnormal := hj.normalizes (fuel + 1) path hfuel
    rw [Nat.add_sub_cancel] at hnormal
    rw [decodeObject, if_neg (by simp [hvalue])]
    exact hnormal

/-- What `encodeAny` writes for a value that is there, where nothing is not an option. -/
theorem contents_ne_nil {type : ABI.ResolvedNode} {contents : Bytes} {absent : Bool} {n : ℕ}
    (hempty : canBeEmpty p arena n absent type = false)
    (harray : type.isArray = true → type.size ≠ some 0 → contents ≠ [])
    (hinner : ∀ n, type.isArray = false →
      emptyInner p arena (canBeEmpty p arena n) absent type = false → contents ≠ []) :
    (if type.isOptional then [1] else []) ++ contents ≠ [] := by
  intro hnil
  obtain ⟨hfront, hcontents⟩ := List.append_eq_nil_iff.mp hnil
  cases n with
  | zero => cases hempty
  | succ n =>
    have hopt : type.isOptional = false := by
      by_contra hopt
      rw [if_pos (by simpa using hopt)] at hfront
      cases hfront
    rw [canBeEmpty, hopt, Bool.not_false, Bool.true_and, Bool.or_eq_false_iff] at hempty
    obtain ⟨-, hempty⟩ := hempty
    by_cases hkind : type.isArray = true
    · apply harray hkind ?_ hcontents
      intro hzero
      rw [if_pos hkind, hzero] at hempty
      simp at hempty
    · rw [if_neg hkind] at hempty
      exact hinner n (by simpa using hkind) hempty hcontents

/-- **The step of the induction**: values one level deeper than those already known. -/
theorem restores_succ (hinner : RestoresInner p arena (room + 1))
    (hitem : RestoresInner p arena room) : Restores p arena (room + 1) := by
  intro last value type fuel path bytes hrev h
  rw [Reversible.eq_def] at hrev
  simp only at hrev
  by_cases hnull : value.isNull = true
  · -- a null: the encoder's byte or nothing, and the normalizer's null
    rw [if_pos hnull] at hrev
    obtain ⟨hkind, hrev⟩ := hrev
    obtain rfl := Json.eq_null_of_isNull hnull
    refine ⟨?_, .null, ?_, ?_⟩
    · intro n absent hempty habsent hnil
      cases n with
      | zero => cases hempty
      | succ n =>
        rw [canBeEmpty, habsent rfl] at hempty
        by_cases hopt : type.isOptional = true
        · cases fuel with
          | zero => cases h
          | succ fuel =>
            rw [encodeAny, hopt, hnil] at h
            cases h
        · have hext : type.isExtension = true := by simpa [hopt] using hkind
          simp [hopt, hext] at hempty
    · intro fd pd rest hfd hpd hlast
      exact decodeBinary_null hrev h hfd hpd hlast
    · intro fo po hfo
      obtain ⟨fo, rfl⟩ : ∃ fo', fo = fo' + 1 := ⟨fo - 1, by omega⟩
      show decodeObject p arena (fo + 1) po .null type = _
      rw [decodeObject, if_pos hnull, if_pos hkind]
  · have hvalue : value.isNull = false := by simpa using hnull
    rw [if_neg hnull] at hrev
    obtain ⟨hext, hrev⟩ := hrev
    cases fuel with
    | zero => cases h
    | succ fuel =>
      rw [encodeAny, hvalue, Bool.and_false, if_neg Bool.false_ne_true] at h
      obtain ⟨contents, hcontents, h⟩ := bind_eq_ok.mp h
      have hbytes := Except.ok.inj h
      subst hbytes
      by_cases harray : type.isArray = true
      · rw [if_pos harray] at hrev
        obtain ⟨items, rfl⟩ := encodeContents_array harray hcontents
        have hrev' : items.length < 2 ^ 32 ∧
            (∀ n, type.size = some n → items.length = n.toNat) ∧
            emptyInner p arena (canBeEmpty p arena (maxCodingDepth + 1)) true type = false ∧
            ReversibleItems p arena (Reversible p arena (room - 1)) last type items := by
          cases room with
          | zero => exact hrev
          | succ room => exact hrev
        obtain ⟨hlength, hsize, hempty, hitems⟩ := hrev'
        obtain ⟨hne, j, hj⟩ := array_restored hitem harray hlength hsize hempty hitems hcontents
        have hne' : ∀ n absent, canBeEmpty p arena n absent type = false →
            (if type.isOptional then [1] else []) ++ contents ≠ [] := fun n absent hcan =>
          contents_ne_nil hcan (fun _ => hne) (fun n hno _ => by rw [harray] at hno; cases hno)
        exact ⟨fun n absent hcan _ => hne' n absent hcan, j,
          suffixes_restored hvalue hj (fun he => hne' _ _ (hext he))⟩
      · have harray' : type.isArray = false := by simpa using harray
        rw [if_neg harray] at hrev
        unfold encodeContents at hcontents
        rw [if_neg harray] at hcontents
        obtain ⟨hne, j, hj⟩ := hinner _ _ _ _ _ _ hrev hcontents
        have hne' : ∀ n absent, canBeEmpty p arena n absent type = false →
            (if type.isOptional then [1] else []) ++ contents ≠ [] := fun n absent hcan =>
          contents_ne_nil hcan (fun hyes => absurd hyes harray)
            (fun n _ hin => hne n absent hin (fun h => absurd h hnull))
        refine ⟨fun n absent hcan _ => hne' n absent hcan, j,
          suffixes_restored hvalue ⟨?_, ?_⟩ (fun he => hne' _ _ (hext he))⟩
        · intro fuel path rest hfuel hpath hlast
          rw [decodeContents, if_neg harray]
          exact hj.reads fuel path rest hfuel hpath hlast
        · intro fuel path hfuel
          unfold normalizeContents
          rw [if_neg harray]
          exact hj.normalizes fuel path hfuel

/-- **Every reversible value is restored**, by induction on the room left. -/
theorem restores (p : Platform) (arena : ABI.Arena) (room : ℕ) : Restores p arena room := by
  induction room using Nat.strong_induction_on with
  | _ room ih =>
    cases room with
    | zero =>
      intro last value type fuel path bytes hrev
      cases hrev
    | succ room =>
      have hnext : RestoresInner p arena (room + 1) := restoresInner (ih room (by omega))
      have hitem : RestoresInner p arena room := by
        apply restoresInner
        exact ih (room - 1) (by omega)
      exact restores_succ hnext hitem

end Levels

/-! ## The serializer -/

namespace Serializer

/-- A value that is reversible from the root of its type. -/
def Reversible (p : Platform) (abi : ABI) (type : Str) (value : Json) : Prop :=
  let (arena, root) := abi.resolveType type
  Dwarfkit.Reversible p arena maxCodingDepth true value (arena.node root)

/-- Decoding undoes encoding at `value`: whatever it is encoded as is decoded to the last
byte, to what the normalizer makes of it. -/
def Undoes (p : Platform) (abi : ABI) (type : Str) (value : Json) : Prop :=
  ∀ bytes, encode p value type abi = .ok bytes →
    ∃ j, decodeFront p bytes type abi = .ok (j, []) ∧ decodeObject p value type abi = .ok j

/-- A wrapped walk succeeds when the walk does. -/
theorem mapError_eq_ok {ε ε' α : Type} {r : Except ε α} {f : ε → ε'} {a : α} :
    r.mapError f = .ok a ↔ r = .ok a := by
  cases r <;> simp [Except.mapError]

/-- What a reversible value is written as, at the root of its type, comes back to the last
byte. -/
theorem restored_root {p : Platform} {arena : ABI.Arena} {root : ABI.ResolvedNode} {value : Json}
    {bytes : Bytes} (h : Dwarfkit.Reversible p arena maxCodingDepth true value root)
    (hencode : encodeAny p arena (maxCodingDepth + 1) (rootPath root) value root = .ok bytes) :
    ∃ j, (decodeBinary p arena (maxCodingDepth + 1) (rootPath root) root).run bytes =
        .ok (j, []) ∧
      Dwarfkit.decodeObject p arena (maxCodingDepth + 1) (rootPath root) value root = .ok j := by
  obtain ⟨-, j, hj⟩ := restores p arena maxCodingDepth _ _ _ _ _ _ h hencode
  have hroot : (rootPath root).length + maxCodingDepth ≤ maxCodingDepth + 1 := by
    simp [rootPath]
    omega
  have hread := hj.reads (maxCodingDepth + 1) _ [] (by omega) hroot (fun _ => rfl)
  rw [List.append_nil] at hread
  exact ⟨j, hread, hj.normalizes (maxCodingDepth + 1) _ (by omega)⟩

/-- A struct with a base, an alias of a fixed-size array's items, an optional and an
extension. -/
def rowABI : ABI where
  types := [⟨"count", "uint16"⟩]
  structs := [⟨"base", "", [⟨"id", "uint8"⟩]⟩,
    ⟨"row", "base", [⟨"counts", "count[2]"⟩, ⟨"flag", "bool?"⟩, ⟨"extra", "uint8$"⟩]⟩]

/-- A row without its optional and its extension. -/
def row : Json := .obj [("id", .uint 7), ("counts", .arr [.uint 300, .uint 1])]

theorem resolveType_row : rowABI.resolveType "row" = ([
    { name := "row", base := some 1, fields := some [("counts", 3), ("flag", 5), ("extra", 6)] },
    { name := "base", fields := some [("id", 2)] },
    { name := "uint8" },
    { name := "count", isArray := true, size := some 2, ref := some 4 },
    { name := "uint16" },
    { name := "bool", isOptional := true },
    { name := "uint8", isExtension := true }], 0) := by
  decide +kernel

/-- The row is reversible, member by member. -/
theorem row_reversible : Reversible default rowABI "row" row := by
  have plain : ∀ {name : Str} {v : Json}, name ∈ [lit "uint8", lit "uint16"] →
      Framed default name v := by
    intro name v h
    apply Framed.of_plain
    rcases List.mem_pair.mp h with rfl | rfl <;> decide
  unfold Reversible
  rw [resolveType_row]
  -- the struct itself, then `id`, `counts` and the two absent members
  refine And.intro (fun h => Bool.noConfusion h) (And.intro rfl (And.intro rfl ?_))
  refine And.intro (And.intro (fun h => Bool.noConfusion h) (And.intro rfl (And.intro rfl ?_)))
    (And.intro (And.intro (fun h => Bool.noConfusion h) ?_) ?_)
  · exact plain (by decide)
  · refine And.intro (by decide) (And.intro ?_ (And.intro (by decide +kernel) ?_))
    · intro n hn
      cases hn
      rfl
    · refine And.intro (And.intro (fun h => Bool.noConfusion h) (And.intro rfl (And.intro rfl ?_)))
        (And.intro (And.intro (fun h => Bool.noConfusion h) (And.intro rfl (And.intro rfl ?_)))
          trivial)
      · exact plain (by decide)
      · exact plain (by decide)
  · exact And.intro (And.intro rfl (Or.inl rfl))
      (And.intro (And.intro rfl (Or.inr (Or.inr rfl))) trivial)

/-- Bytes that do not come back as the normalized value, with none left over. -/
theorem not_undoes {p : Platform} {abi : ABI} {type : Str} {value : Json} {bytes : Bytes}
    (hencode : (encode p value type abi).toOption = some bytes)
    (h : (decodeFront p bytes type abi).toOption ≠
      (decodeObject p value type abi).toOption.map (fun j => (j, []))) :
    ¬ Undoes p abi type value := by
  intro hundoes
  cases hresult : encode p value type abi with
  | error e =>
    rw [hresult] at hencode
    cases hencode
  | ok written =>
    rw [hresult] at hencode
    obtain rfl : written = bytes := Option.some.inj hencode
    obtain ⟨j, hdecode, hobject⟩ := hundoes written hresult
    rw [hdecode, hobject] at h
    exact h rfl

end Serializer

end Dwarfkit
