/-
# Resolving once more

A plugin that signs a resolution has the session resolve the signed transaction again.  What
is encoded in a resolution is a json value whose names were replaced.  If the data was faithful
and the signer's names are no placeholders, that value is its own normal form, has no
placeholder text and is given back by the serializer, so a second resolution returns the bytes
it was given.

* `settles` : what the walk over a normal form leaves is settled;
* `resolve_again` : a resolved transaction is resolved to itself, in every context.
-/
import Dwarfkit.SigningRequest.FromTransaction
import Dwarfkit.SigningRequest.Placeholders

namespace Dwarfkit

open Wire

/-! ## Members -/

theorem unmarkedItems_iff {items : List Json} :
    UnmarkedItems items ↔ ∀ item ∈ items, Unmarked item := by
  induction items with
  | nil => simp [UnmarkedItems]
  | cons item items ih => rw [UnmarkedItems, List.forall_mem_cons, ih]

theorem unmarkedMembers_iff {members : List (Str × Json)} :
    UnmarkedMembers members ↔ ∀ member ∈ members, Unmarked member.2 := by
  induction members with
  | nil => simp [UnmarkedMembers]
  | cons member members ih => rw [UnmarkedMembers, List.forall_mem_cons, ih]

theorem resolveMembers_eq (signer : PermissionLevel) (members : List (Str × Json)) :
    resolveMembers signer members =
      members.map (fun member => (member.1, resolvePlaceholders signer member.2)) := by
  induction members with
  | nil => rfl
  | cons member members ih => rw [resolveMembers, ih, List.map_cons]

section Fields

variable {next : CodingPath → Json → ABI.ResolvedNode → Coding Json} {path : CodingPath}
  {value : Json} {fields : List (Str × ABI.ResolvedNode)} {rv members : List (Str × Json)}

/-- A member under a new key goes to the end. -/
theorem insert_new {key : Str} (h : key ∉ rv.map Prod.fst) (v : Json) :
    Json.insert rv key v = rv ++ [(key, v)] := by
  unfold Json.insert
  apply if_neg
  rw [List.any_eq_true]
  rintro ⟨member, hmember, hkey⟩
  exact h (List.mem_map.mpr ⟨member, hmember, of_decide_eq_true hkey⟩)

/-- The members of a struct are normalized in the order of its fields. -/
theorem keys_normalizeFields (hnodup : (rv.map Prod.fst ++ fields.map Prod.fst).Nodup)
    (h : normalizeFields next path value fields rv = .ok members) :
    members.map Prod.fst = rv.map Prod.fst ++ fields.map Prod.fst := by
  induction fields generalizing rv with
  | nil =>
    cases h
    simp
  | cons field fields ih =>
    obtain ⟨name, type⟩ := field
    obtain ⟨j, -, h⟩ := bind_eq_ok.mp h
    have hnew : name ∉ rv.map Prod.fst := fun hmem =>
      (List.nodup_append.mp hnodup).2.2 name hmem name (by simp) rfl
    rw [insert_new hnew] at h
    have hkeys := ih (by simpa using hnodup) h
    simpa using hkeys

/-- Members with distinct keys are those that are found under their keys. -/
theorem eq_map_jsonAt (h : (members.map Prod.fst).Nodup) :
    members = (members.map Prod.fst).map (fun key => (key, (Json.obj members).jsonAt key)) := by
  have hat : ∀ member ∈ members, (Json.obj members).jsonAt member.1 = member.2 := by
    intro member hmember
    show ((members.find? (fun m => m.1 = member.1)).map Prod.snd).getD .null = member.2
    induction members with
    | nil => cases hmember
    | cons first members ih =>
      rw [List.map_cons, List.nodup_cons] at h
      rw [List.find?_cons]
      rcases List.mem_cons.mp hmember with rfl | hmember
      · simp
      · have hne : first.1 ≠ member.1 := fun heq =>
          h.1 (heq ▸ List.mem_map_of_mem hmember)
        simp only [hne, decide_false]
        exact ih h.2 hmember
  rw [List.map_map]
  conv_lhs => rw [← List.map_id members]
  apply List.map_congr_left
  intro member hmember
  show member = (member.1, _)
  rw [hat member hmember]

/-- Members that are their own normal forms are returned. -/
theorem normalizeFields_map {g : Str → Json}
    (hnodup : (rv.map Prod.fst ++ fields.map Prod.fst).Nodup)
    (h : ∀ field ∈ fields, next (path.push field.1 field.2) (value.jsonAt field.1) field.2 =
      .ok (g field.1)) :
    normalizeFields next path value fields rv =
      .ok (rv ++ fields.map (fun field => (field.1, g field.1))) := by
  induction fields generalizing rv with
  | nil => simp [normalizeFields]
  | cons field fields ih =>
    obtain ⟨name, type⟩ := field
    obtain ⟨hhead, htail⟩ := List.forall_mem_cons.mp h
    have hnew : name ∉ rv.map Prod.fst := fun hmem =>
      (List.nodup_append.mp hnodup).2.2 name hmem name (by simp) rfl
    rw [normalizeFields, hhead, ok_bind, insert_new hnew, ih (by simpa using hnodup) htail]
    simp

end Fields

/-! ## Leaves -/

/-- A signer whose names are no placeholders. -/
structure Concrete (signer : PermissionLevel) : Prop where
  actor : signer.actor ≠ placeholderName ∧ signer.actor ≠ placeholderPermission
  permission : signer.permission ≠ placeholderName ∧ signer.permission ≠ placeholderPermission

/-- A resolved name is none. -/
theorem Concrete.resolveName_ne {signer : PermissionLevel} (h : Concrete signer) (n : Name) :
    resolveName signer n ≠ placeholderName ∧ resolveName signer n ≠ placeholderPermission := by
  unfold resolveName
  split
  · exact h.actor
  · rename_i hactor
    split
    · exact h.permission
    · rename_i hpermission
      exact ⟨hactor, hpermission⟩

/-- Neither is one of a resolved authorization. -/
theorem Concrete.resolveAuth_ne {signer : PermissionLevel} (h : Concrete signer)
    (auth : PermissionLevel) :
    (resolveAuth signer auth).actor ≠ placeholderName ∧
      (resolveAuth signer auth).permission ≠ placeholderName ∧
      (resolveAuth signer auth).permission ≠ placeholderPermission := by
  unfold resolveAuth
  simp only
  constructor
  · split
    · exact h.actor.1
    · assumption
  · by_cases hpermission : auth.permission = placeholderPermission
    · rw [if_pos hpermission, if_neg h.permission.1]
      exact h.permission
    · rw [if_neg hpermission]
      by_cases hname : auth.permission = placeholderName
      · rw [if_pos hname]
        exact h.permission
      · rw [if_neg hname]
        exact ⟨hname, hpermission⟩

/-- A resolved authorization stays. -/
theorem Concrete.resolveAuth_resolveAuth {signer : PermissionLevel} (h : Concrete signer)
    (auth : PermissionLevel) :
    resolveAuth signer (resolveAuth signer auth) = resolveAuth signer auth := by
  obtain ⟨hactor, hname, hpermission⟩ := h.resolveAuth_ne auth
  rw [resolveAuth]
  simp only [if_neg hactor, if_neg hname, if_neg hpermission]

/-- The text of a name that is no placeholder is none. -/
theorem unmarked_name {n : Name} (h : n ≠ placeholderName ∧ n ≠ placeholderPermission) :
    Unmarked (.str n.toString) := by
  have htext : ∀ placeholder : Name, n ≠ placeholder → n.toString ≠ placeholder.toString := by
    intro placeholder hne heq
    apply hne
    rw [← Name.ofString_toString n, heq, Name.ofString_toString]
  have hactor : lit "............1" = placeholderName.toString := by decide +kernel
  have hpermission : lit "............2" = placeholderPermission.toString := by decide +kernel
  rw [Unmarked, hactor, hpermission]
  exact ⟨htext _ h.1, htext _ h.2⟩

section Leaves

variable {p : Platform} {name : Str} {b : BuiltinType} {v j : Json}

/-- What is read of a legible normal form was read of the value. -/
theorem fromJSON_of_normalizeJSON {α : Type} {t : AbiTraits α}
    (hj : (makeBuiltin t).normalizeJSON v = .ok j)
    (hlegible : ∀ x, t.fromJSON v = .ok x → t.fromJSON (t.toJSON x) = .ok x) {y : α}
    (hy : t.fromJSON j = .ok y) : t.fromJSON v = .ok y := by
  obtain ⟨x, hx, hj⟩ := bind_eq_ok.mp hj
  obtain rfl : t.toJSON x = j := Except.ok.inj hj
  rw [hlegible x hx] at hy
  cases hy
  exact hx

/-- The wire form that has room for a value has room for its normal form. -/
theorem framed_normalizeJSON (hbuiltin : findBuiltin p name = some b) (h : Framed p name v)
    (hj : b.normalizeJSON v = .ok j) : Framed p name j where
  string := by
    rintro rfl s hs
    obtain rfl : makeBuiltin AbiTraits.string = b := Option.some.inj hbuiltin
    exact h.string rfl s (fromJSON_of_normalizeJSON hj
      (fun x _ => AbiTraits.string_readsJson.read x) hs)
  bytes := by
    rintro rfl s hs
    obtain rfl : makeBuiltin AbiTraits.bytes = b := Option.some.inj hbuiltin
    exact h.bytes rfl s (fromJSON_of_normalizeJSON hj
      (fun x _ => AbiTraits.bytes_readsJson.read x) hs)
  publicKey := by
    rintro rfl k hk
    obtain rfl : makeBuiltin (AbiTraits.publicKey p) = b := Option.some.inj hbuiltin
    exact h.publicKey rfl k (fromJSON_of_normalizeJSON hj
      (fun x hx => (AbiTraits.publicKey_legible (h.publicKey rfl x hx)).1) hk)
  signature := by
    rintro rfl s hs
    obtain rfl : makeBuiltin (AbiTraits.signature p) = b := Option.some.inj hbuiltin
    exact h.signature rfl s (fromJSON_of_normalizeJSON hj
      (fun x hx => (AbiTraits.signature_legible (h.signature rfl x hx)).1) hs)

/-- A builtin's normal form is its own: both are written as the same bytes, which are read as
the one and as the other. -/
theorem normalizeJSON_normalizeJSON (hbuiltin : findBuiltin p name = some b)
    (hframed : Framed p name v) (hprintable : Printable p name v) {bytes : Bytes}
    (hencode : b.encodeJSON v = .ok bytes) (hj : b.normalizeJSON v = .ok j) :
    b.normalizeJSON j = .ok j := by
  obtain ⟨hagain, -⟩ := findBuiltin_rewrites hbuiltin hframed hprintable bytes j hencode hj
  obtain ⟨-, x, hx, hnormal⟩ := findBuiltin_roundTrips hbuiltin hframed bytes hencode
  obtain ⟨-, y, hy, hnormal'⟩ :=
    findBuiltin_roundTrips hbuiltin (framed_normalizeJSON hbuiltin hframed hj) bytes hagain
  have hsame : b.decodeABI.run (bytes ++ []) = .ok (x, []) := hx []
  rw [hy []] at hsame
  rw [hj] at hnormal
  cases hnormal
  cases hsame
  exact hnormal'

end Leaves

/-! ## Settled values -/

section Settled

/-- A value in the place of another: null alike, reversible where that one is, its own normal
form, and without placeholder texts. -/
structure Settled (reversible : ℕ → Bool → Json → Prop)
    (normalize : CodingPath → Json → Coding Json) (value value' : Json) : Prop where
  null : value'.isNull = value.isNull
  reversible : ∀ room last, reversible room last value → reversible room last value'
  normal : ∀ path, normalize path value' = .ok value'
  unmarked : Unmarked value'

variable (p : Platform) (arena : ABI.Arena) (signer : PermissionLevel)

/-- Settled as a value of a type. -/
def SettledAs (fuel : ℕ) (value value' : Json) (type : ABI.ResolvedNode) : Prop :=
  Settled (fun room last value => Reversible p arena room last value type)
    (fun path value => decodeObject p arena fuel path value type) value value'

/-- Settled past the suffixes of a type. -/
def SettledInner (fuel : ℕ) (value value' : Json) (type : ABI.ResolvedNode) : Prop :=
  Settled (fun room last value => ReversibleInner p arena (Reversible p arena room) last value type)
    (fun path value => decodeObjectInner p arena (decodeObject p arena fuel) path value type)
    value value'

/-- The walk over the normal form of a value that is encoded leaves a settled one. -/
def SettlesAny (fuel : ℕ) : Prop :=
  ∀ (value : Json) (type : ABI.ResolvedNode) (bytes : Bytes) (j : Json) (path path' : CodingPath),
    Lossless p arena fuel value type → Unmistakable p arena fuel value type →
    encodeAny p arena fuel path value type = .ok bytes →
    decodeObject p arena fuel path' value type = .ok j →
    SettledAs p arena fuel value (resolvePlaceholders signer j) type

variable {p arena signer}

/-- Every member of a struct that is encoded is. -/
theorem exists_encodeFields {next : CodingPath → Json → ABI.ResolvedNode → Coding Bytes}
    {path : CodingPath} {value : Json} {fields : List (Str × ABI.ResolvedNode)} {bytes : Bytes}
    (h : encodeFields next path value fields = .ok bytes) :
    ∀ field ∈ fields, ∃ path bytes, next path (value.jsonAt field.1) field.2 = .ok bytes := by
  induction fields generalizing bytes with
  | nil => simp
  | cons field fields ih =>
    obtain ⟨name, type⟩ := field
    obtain ⟨front, hfront, h⟩ := bind_eq_ok.mp h
    obtain ⟨back, hback, -⟩ := bind_eq_ok.mp h
    exact List.forall_mem_cons.mpr ⟨⟨_, front, hfront⟩, ih hback⟩

/-- Members that are null alike and reversible where the others are. -/
theorem reversibleFields_settled {fuel room : ℕ} {last : Bool} {value value' : Json}
    {fields : List (Str × ABI.ResolvedNode)}
    (hfields : ∀ field ∈ fields,
      SettledAs p arena fuel (value.jsonAt field.1) (value'.jsonAt field.1) field.2)
    (h : ReversibleFields p arena (Reversible p arena room) last value fields) :
    ReversibleFields p arena (Reversible p arena room) last value' fields := by
  induction fields with
  | nil => trivial
  | cons field fields ih =>
    obtain ⟨name, type⟩ := field
    obtain ⟨hhead, htail⟩ := List.forall_mem_cons.mp hfields
    obtain ⟨hfirst, hrest⟩ := h
    have habsent : fields.all (fun f => absentField p arena (value'.jsonAt f.1) f.2) =
        fields.all (fun f => absentField p arena (value.jsonAt f.1) f.2) := by
      rw [Bool.eq_iff_iff, List.all_eq_true, List.all_eq_true]
      refine forall₂_congr (fun f hf => ?_)
      unfold absentField
      rw [(htail f hf).null]
    refine ⟨?_, ih htail hrest⟩
    rw [habsent]
    exact hhead.reversible _ _ hfirst

/-- **One level past the suffixes**: alias, struct, variant or builtin. -/
theorem settled_inner (hsigner : Concrete signer) {fuel : ℕ}
    (hnext : SettlesAny p arena signer fuel) {value : Json} {type : ABI.ResolvedNode}
    {bytes : Bytes} {j : Json} {path path' : CodingPath}
    (hlossless : LosslessInner p arena (Lossless p arena fuel) value type)
    (hunmistakable : EverywhereInner p arena (fun _ => True) (fun name => Unmarked (.str name))
      (UnmarkedLeaf p) (Unmistakable p arena fuel) value type)
    (hencode : encodeInner p arena (encodeAny p arena fuel) path value type = .ok bytes)
    (hnormalize : decodeObjectInner p arena (decodeObject p arena fuel) path' value type = .ok j) :
    SettledInner p arena fuel value (resolvePlaceholders signer j) type := by
  unfold LosslessInner at hlossless
  unfold EverywhereInner at hunmistakable
  cases hfollowed : followed p arena type with
  | some target =>
    rw [hfollowed] at hlossless hunmistakable
    rw [encodeInner_of_followed hfollowed] at hencode
    rw [decodeObjectInner_of_followed hfollowed] at hnormalize
    have hsettled := hnext _ _ _ _ _ _ hlossless hunmistakable hencode hnormalize
    constructor
    · exact hsettled.null
    · intro room last h
      unfold ReversibleInner at h ⊢
      rw [hfollowed] at h ⊢
      exact hsettled.reversible room last h
    · intro path
      rw [decodeObjectInner_of_followed hfollowed]
      exact hsettled.normal path
    · exact hsettled.unmarked
  | none =>
    rw [hfollowed] at hlossless hunmistakable
    obtain ⟨href, hvalue, hlossless⟩ := hlossless
    cases hfields : type.fields with
    | some own =>
      simp only [hfields] at hlossless hunmistakable
      simp only [encodeInner, href, hfields, hvalue, Bool.false_eq_true, if_false] at hencode
      simp only [decodeObjectInner, href, hfields] at hnormalize
      split at hnormalize
      · rename_i hobject
        rw [if_pos hobject] at hencode
        cases hall : arena.allFields type with
        | none =>
          rw [hall] at hencode
          cases hencode
        | some fields =>
          rw [hall] at hencode hnormalize hlossless hunmistakable
          obtain ⟨hnodup, hlossless⟩ := hlossless
          obtain ⟨members, hmembers, hnormalize⟩ := bind_eq_ok.mp hnormalize
          cases hnormalize
          obtain ⟨-, hlookup⟩ := normalizeFields_lookup hnodup hmembers
          have hkeys : members.map Prod.fst = fields.map Prod.fst :=
            keys_normalizeFields (by simpa using hnodup) hmembers
          -- Each member is settled in the place of the field's value.
          have hsettled : ∀ field ∈ fields, SettledAs p arena fuel (value.jsonAt field.1)
              (resolvePlaceholders signer ((Json.obj members).jsonAt field.1)) field.2 := by
            intro field hfield
            obtain ⟨j, hj, hfind⟩ := hlookup field hfield
            have hat : (Json.obj members).jsonAt field.1 = j := by
              show (Json.lookup members field.1).getD .null = j
              rw [hfind]
              rfl
            obtain ⟨path, bytes, hbytes⟩ := exists_encodeFields hencode field hfield
            rw [hat]
            exact hnext _ _ _ _ _ _ (hlossless field hfield) (hunmistakable.2 field hfield)
              hbytes hj
          have hmap : resolveMembers signer members = fields.map (fun field =>
              (field.1, resolvePlaceholders signer ((Json.obj members).jsonAt field.1))) := by
            rw [resolveMembers_eq]
            have hmembers : members = _ := eq_map_jsonAt (by rw [hkeys]; exact hnodup)
            rw [hkeys, List.map_map] at hmembers
            conv_lhs => rw [hmembers]
            rw [List.map_map]
            rfl
          have hat : ∀ field ∈ fields, SettledAs p arena fuel (value.jsonAt field.1)
              ((resolvePlaceholders signer (.obj members)).jsonAt field.1) field.2 := by
            intro field hfield
            rw [resolvePlaceholders, jsonAt_resolveMembers]
            exact hsettled field hfield
          constructor
          · rw [hvalue, isNull_resolvePlaceholders]
            rfl
          · intro room last h
            unfold ReversibleInner at h ⊢
            simp only [hfollowed, hfields, hall] at h ⊢
            refine ⟨href, by rw [isNull_resolvePlaceholders]; rfl, ?_⟩
            exact reversibleFields_settled hat h.2.2
          · intro path
            have hnormal : normalizeFields (decodeObject p arena fuel) path
                (.obj (resolveMembers signer members)) fields [] = .ok (fields.map (fun field =>
                  (field.1, resolvePlaceholders signer ((Json.obj members).jsonAt field.1)))) := by
              rw [← List.nil_append (fields.map _)]
              apply normalizeFields_map
                (g := fun key => resolvePlaceholders signer ((Json.obj members).jsonAt key))
              · simpa using hnodup
              · intro field hfield
                rw [jsonAt_resolveMembers]
                exact (hsettled field hfield).normal _
            simp only [decodeObjectInner, href, hfields, hall]
            rw [resolvePlaceholders, if_pos (by rfl), hnormal, ← hmap]
            rfl
          · rw [resolvePlaceholders, Unmarked, hmap, unmarkedMembers_iff]
            intro member hmember
            obtain ⟨field, hfield, rfl⟩ := List.mem_map.mp hmember
            exact (hsettled field hfield).unmarked
      · cases hnormalize
    | none =>
      cases hvariant : type.variant with
      | some variant =>
        simp only [hfields, hvariant] at hlossless hunmistakable
        simp only [encodeInner, href, hfields, hvariant, hvalue, Bool.false_eq_true, if_false]
          at hencode
        simp only [decodeObjectInner, href, hfields, hvariant] at hnormalize
        cases hfound : findAlternative arena variant (chosenAlternative value).1 with
        | none =>
          rw [hfound] at hencode
          cases hencode
        | some vIdx =>
          rw [hfound] at hlossless hunmistakable
          simp only [hfound] at hencode hnormalize
          obtain ⟨content, hcontent, hencode⟩ := bind_eq_ok.mp hencode
          obtain ⟨inner, hinner, hnormalize⟩ := bind_eq_ok.mp hnormalize
          cases hnormalize
          have hname := typeName_of_findAlternative hfound
          obtain ⟨hunmarked, hunmistakable⟩ := hunmistakable
          have hsettled := hnext _ _ _ _ _ _ hlossless hunmistakable hcontent hinner
          -- The alternative keeps its name, by which it is found again.
          rw [resolvePlaceholders, resolveItems, resolveItems, resolveItems, hname,
            resolvePlaceholders_unmarked signer hunmarked]
          have hchosen : chosenAlternative (.arr [.str (chosenAlternative value).1,
              resolvePlaceholders signer inner]) =
            ((chosenAlternative value).1, resolvePlaceholders signer inner) := rfl
          constructor
          · rw [hvalue]
            rfl
          · intro room last h
            unfold ReversibleInner at h ⊢
            simp only [hfollowed, hfields, hvariant, hchosen, hfound] at h ⊢
            exact ⟨href, rfl, h.2.2.1, hsettled.reversible _ _ h.2.2.2⟩
          · intro path
            simp only [decodeObjectInner, href, hfields, hvariant, hchosen, hfound]
            rw [hsettled.normal, ok_bind, hname]
            rfl
          · rw [Unmarked, unmarkedItems_iff, List.forall_mem_cons, List.forall_mem_singleton]
            exact ⟨hunmarked, hsettled.unmarked⟩
      | none =>
        simp only [hfields, hvariant] at hlossless hunmistakable
        simp only [encodeInner, href, hfields, hvariant, hvalue, Bool.false_eq_true, if_false]
          at hencode
        simp only [decodeObjectInner, href, hfields, hvariant] at hnormalize
        cases hbuiltin : findBuiltin p type.name with
        | none =>
          rw [hbuiltin] at hencode
          cases hencode
        | some builtin =>
          simp only [hbuiltin] at hencode hnormalize
          obtain ⟨hframed, hprintable⟩ := hlossless
          have hencode := atPath_eq_ok.mp hencode
          have hj := atPath_eq_ok.mp hnormalize
          -- It is enough that the leaf has room for what stands there now.
          have hleaf : (resolvePlaceholders signer j).isNull = false →
              Framed p type.name (resolvePlaceholders signer j) →
              builtin.normalizeJSON (resolvePlaceholders signer j) =
                .ok (resolvePlaceholders signer j) → Unmarked (resolvePlaceholders signer j) →
              SettledInner p arena fuel value (resolvePlaceholders signer j) type := by
            intro hnull hframed hnormal hunmarked
            refine ⟨hnull.trans hvalue.symm, fun room last h => ?_, fun path => ?_, hunmarked⟩
            · unfold ReversibleInner at h ⊢
              simp only [hfollowed, hfields, hvariant] at h ⊢
              exact ⟨href, hnull, hframed⟩
            · simp only [decodeObjectInner, href, hfields, hvariant, hbuiltin]
              exact atPath_eq_ok.mpr hnormal
          by_cases hname : type.name = lit "name"
          · rw [hname] at hbuiltin hleaf
            obtain rfl : makeBuiltin AbiTraits.name = builtin := Option.some.inj hbuiltin
            obtain ⟨n, -, hj⟩ := bind_eq_ok.mp hj
            obtain rfl : Json.str n.toString = j := Except.ok.inj hj
            rw [resolvePlaceholders_name] at hleaf ⊢
            apply hleaf
            · rfl
            · apply Framed.of_plain
              decide
            · exact bind_eq_ok.mpr ⟨_, AbiTraits.name_readsJson.read (resolveName signer n), rfl⟩
            · exact unmarked_name (hsigner.resolveName_ne n)
          · have hunmarked := hunmistakable hname _ _ hbuiltin hj
            rw [resolvePlaceholders_unmarked signer hunmarked] at hleaf ⊢
            obtain ⟨-, hnull⟩ :=
              findBuiltin_rewrites hbuiltin hframed hprintable bytes j hencode hj
            exact hleaf hnull (framed_normalizeJSON hbuiltin hframed hj)
              (normalizeJSON_normalizeJSON hbuiltin hframed hprintable hencode hj) hunmarked

/-- The items of an array. -/
theorem settled_items (hsigner : Concrete signer) {fuel : ℕ}
    (hnext : SettlesAny p arena signer fuel) {type : ABI.ResolvedNode} {items items' : List Json}
    {bytes : Bytes} {path path' : CodingPath} {i i' : ℕ}
    (hlossless : ∀ item ∈ items, LosslessInner p arena (Lossless p arena fuel) item type)
    (hunmistakable : ∀ item ∈ items, EverywhereInner p arena (fun _ => True)
      (fun name => Unmarked (.str name)) (UnmarkedLeaf p) (Unmistakable p arena fuel) item type)
    (hencode : encodeItems (encodeInner p arena (encodeAny p arena fuel)) path type i items =
      .ok bytes)
    (hnormalize : normalizeItems (decodeObjectInner p arena (decodeObject p arena fuel)) path' type
      i' items = .ok items') :
    List.Forall₂ (fun item item' => SettledInner p arena fuel item item' type) items
      (items'.map (resolvePlaceholders signer)) := by
  induction items generalizing items' bytes i i' with
  | nil =>
    cases hnormalize
    exact .nil
  | cons item items ih =>
    obtain ⟨hhead, htail⟩ := List.forall_mem_cons.mp hlossless
    obtain ⟨hhead', htail'⟩ := List.forall_mem_cons.mp hunmistakable
    obtain ⟨front, hfront, hencode⟩ := bind_eq_ok.mp hencode
    obtain ⟨back, hback, -⟩ := bind_eq_ok.mp hencode
    obtain ⟨item', hitem, hnormalize⟩ := bind_eq_ok.mp hnormalize
    obtain ⟨rest, hrest, hnormalize⟩ := bind_eq_ok.mp hnormalize
    cases hnormalize
    exact .cons (settled_inner hsigner hnext hhead hhead' hfront hitem)
      (ih htail htail' hback hrest)

section Items

variable {fuel : ℕ} {type : ABI.ResolvedNode} {items items' : List Json}

theorem reversibleItems_settled {room : ℕ} {last : Bool}
    (h : List.Forall₂ (fun item item' => SettledInner p arena fuel item item' type) items items')
    (hitems : ReversibleItems p arena (Reversible p arena room) last type items) :
    ReversibleItems p arena (Reversible p arena room) last type items' := by
  induction h with
  | nil => trivial
  | cons hhead htail ih =>
    obtain ⟨hfirst, hrest⟩ := hitems
    refine ⟨?_, ih hrest⟩
    have hempty := hhead.reversible _ _ hfirst
    have hlength := htail.length_eq
    rename_i items items'
    have hsame : items'.isEmpty = items.isEmpty := by
      cases items <;> cases items' <;> simp_all
    rw [hsame]
    exact hempty

theorem normalizeItems_settled
    (h : List.Forall₂ (fun item item' => SettledInner p arena fuel item item' type) items items')
    (path : CodingPath) (i : ℕ) :
    normalizeItems (decodeObjectInner p arena (decodeObject p arena fuel)) path type i items' =
      .ok items' := by
  induction h generalizing i with
  | nil => rfl
  | cons hhead htail ih =>
    rw [normalizeItems, hhead.normal, ok_bind, ih (i + 1)]
    rfl

theorem unmarkedItems_settled
    (h : List.Forall₂ (fun item item' => SettledInner p arena fuel item item' type) items items') :
    UnmarkedItems items' := by
  induction h with
  | nil => trivial
  | cons hhead htail ih => exact ⟨hhead.unmarked, ih⟩

end Items

/-- **What the walk over a normal form leaves** is settled. -/
theorem settles (p : Platform) (arena : ABI.Arena) (hsigner : Concrete signer) (fuel : ℕ) :
    SettlesAny p arena signer fuel := by
  induction fuel with
  | zero =>
    intro value type bytes j path path' _ _ hencode
    cases hencode
  | succ fuel ih =>
    intro value type bytes j path path' hlossless hunmistakable hencode hnormalize
    rw [decodeObject] at hnormalize
    cases hvalue : value.isNull with
    | true =>
      obtain rfl := Json.eq_null_of_isNull hvalue
      rw [if_pos hvalue] at hnormalize
      split at hnormalize
      · rename_i hskipped
        cases hnormalize
        refine ⟨rfl, fun _ _ h => h, fun path => ?_, trivial⟩
        rw [resolvePlaceholders, decodeObject, if_pos hvalue, if_pos hskipped]
        all_goals simp
      · cases hnormalize
    | false =>
      rw [hvalue, if_neg Bool.false_ne_true] at hnormalize
      rw [Lossless, hvalue, if_neg Bool.false_ne_true] at hlossless
      unfold Unmistakable at hunmistakable
      rw [Everywhere, hvalue, if_neg Bool.false_ne_true] at hunmistakable
      rw [encodeAny, hvalue, Bool.and_false, if_neg Bool.false_ne_true] at hencode
      obtain ⟨contents, hcontents, -⟩ := bind_eq_ok.mp hencode
      by_cases harray : type.isArray = true
      · obtain ⟨items, rfl⟩ := encodeContents_array harray hcontents
        unfold encodeContents at hcontents
        unfold normalizeContents at hnormalize
        rw [if_pos harray] at hlossless hunmistakable hcontents hnormalize
        simp only at hcontents hnormalize
        obtain ⟨body, hbody, -⟩ := bind_eq_ok.mp hcontents
        obtain ⟨items', hitems', hnormalize⟩ := bind_eq_ok.mp hnormalize
        cases hnormalize
        have hitems : List.Forall₂ (fun item item' => SettledInner p arena fuel item item' type)
            items (items'.map (resolvePlaceholders signer)) :=
          settled_items hsigner ih hlossless hunmistakable hbody hitems'
        rw [resolvePlaceholders, resolveItems_eq]
        refine ⟨rfl, fun room last h => ?_, fun path => ?_, ?_⟩
        · cases room with
          | zero => exact h
          | succ room =>
            unfold Reversible at h ⊢
            rw [if_neg (by simp [Json.isNull]), if_pos harray] at h ⊢
            simp only at h ⊢
            obtain ⟨hextension, hlength, hsize, hempty, hreversible⟩ := h
            rw [hitems.length_eq] at hlength hsize
            refine ⟨hextension, hlength, hsize, hempty, ?_⟩
            -- an item lies one path entry below its array, if there is room for it
            cases room with
            | zero =>
              exact @reversibleItems_settled p arena fuel type items _ 0 last hitems hreversible
            | succ room => exact reversibleItems_settled hitems hreversible
        · show (if (Json.arr _).isNull then _ else _) = _
          rw [if_neg (by simp [Json.isNull])]
          unfold normalizeContents
          rw [if_pos harray]
          simp only
          rw [normalizeItems_settled hitems]
          rfl
        · rw [Unmarked]
          exact unmarkedItems_settled hitems
      · unfold encodeContents at hcontents
        unfold normalizeContents at hnormalize
        rw [if_neg harray] at hlossless hunmistakable hcontents hnormalize
        have hinner := settled_inner hsigner ih hlossless hunmistakable hcontents hnormalize
        have hnull : (resolvePlaceholders signer j).isNull = false := hinner.null.trans hvalue
        refine ⟨hinner.null, fun room last h => ?_, fun path => ?_, hinner.unmarked⟩
        · cases room with
          | zero => exact h
          | succ room =>
            unfold Reversible at h ⊢
            rw [hvalue] at h
            rw [hnull]
            rw [if_neg Bool.false_ne_true, if_neg harray] at h ⊢
            exact ⟨h.1, hinner.reversible room last h.2⟩
        · rw [decodeObject, hnull, if_neg Bool.false_ne_true]
          unfold normalizeContents
          rw [if_neg harray]
          exact hinner.normal path

end Settled

namespace Serializer

/-- **Resolved data is decoded to what it was encoded from**, which has no placeholder text. -/
theorem Faithful.settles {p : Platform} {abi : ABI} {type : Str} {data data' : Bytes} {j : Json}
    {signer : PermissionLevel} (h : Faithful p abi type data) (hsigner : Concrete signer)
    (hdecode : decode p data type abi = .ok j)
    (hencode : encode p (resolvePlaceholders signer j) type abi = .ok data') :
    decode p data' type abi = .ok (resolvePlaceholders signer j) ∧
      Unmarked (resolvePlaceholders signer j) := by
  unfold Faithful Reversible Lossless at h
  unfold decode decodeFront at hdecode ⊢
  unfold encode at hencode
  have hwrites : ∀ value bytes, encode p value type abi = .ok bytes →
      encodeAny p (abi.resolveType type).1 (maxCodingDepth + 1)
        (rootPath ((abi.resolveType type).1.node (abi.resolveType type).2)) value
        ((abi.resolveType type).1.node (abi.resolveType type).2) = .ok bytes := by
    intro value bytes hbytes
    unfold encode at hbytes
    exact mapError_eq_ok.mp hbytes
  rcases hresolve : abi.resolveType type with ⟨arena, root⟩
  rw [hresolve] at h hdecode hencode hwrites
  obtain ⟨value, hvalue, hreversible, hlossless, hunmistakable⟩ := h
  have hvalue := hwrites _ _ hvalue
  obtain ⟨normal, hread, hnormalize⟩ := restored_root hreversible hvalue
  obtain ⟨⟨read, rest⟩, hrun, rfl⟩ := map_eq_ok.mp hdecode
  have hrun := mapError_eq_ok.mp hrun
  rw [hread] at hrun
  cases hrun
  have hsettled := Dwarfkit.settles p arena hsigner _ _ _ _ _ _ _ hlossless hunmistakable hvalue
    hnormalize
  -- What stands in the place of the value is reversible, and its own normal form.
  obtain ⟨normal', hread', hnormalize'⟩ :=
    restored_root (hsettled.reversible _ _ hreversible) (mapError_eq_ok.mp hencode)
  rw [hsettled.normal] at hnormalize'
  cases hnormalize'
  exact ⟨map_eq_ok.mpr ⟨_, mapError_eq_ok.mpr hread', rfl⟩, hsettled.unmarked⟩

end Serializer

namespace SigningRequest

/-! ## The request of a transaction -/

section Request

variable {p : Platform} {version : ℕ} {abis : AbiMap} {signer : PermissionLevel}

/-- Resolving actions keeps their accounts and names. -/
theorem keeps_actions {raw actions : List Action} {decoded : List ResolvedAction}
    (hdecoded : raw.mapM (resolveAction p version abis (some signer)) = .ok decoded)
    (hencoded : decoded.mapM (encodeAction p version abis) = .ok actions) :
    actions.map (fun action => (action.account, action.name)) =
      raw.map (fun action => (action.account, action.name)) := by
  induction raw generalizing decoded actions with
  | nil =>
    cases hdecoded
    cases hencoded
    rfl
  | cons action raw ih =>
    rw [List.mapM_cons] at hdecoded
    obtain ⟨one, hone, hdecoded⟩ := bind_eq_ok.mp hdecoded
    obtain ⟨rest, hrest, hdecoded⟩ := bind_eq_ok.mp hdecoded
    cases hdecoded
    rw [List.mapM_cons] at hencoded
    obtain ⟨written, hwritten, hencoded⟩ := bind_eq_ok.mp hencoded
    obtain ⟨others, hothers, hencoded⟩ := bind_eq_ok.mp hencoded
    cases hencoded
    obtain ⟨haccount, hname, -⟩ := resolveAction_eq_ok hone
    have hkept : written.account = one.account ∧ written.name = one.name := by
      obtain ⟨abi, -, hwritten⟩ := bind_eq_ok.mp hwritten
      split at hwritten
      · cases hwritten
      · obtain ⟨data, -, hwritten⟩ := bind_eq_ok.mp hwritten
        cases hwritten
        exact ⟨rfl, rfl⟩
    rw [List.map_cons, List.map_cons, ih hrest hothers, hkept.1, hkept.2, haccount, hname]

/-- The required ABIs are those of the accounts and names of the actions. -/
theorem getRequiredAbis_congr {request request' : SigningRequest} {actions actions' : List Action}
    (hraw : request.getRawActions = .ok actions) (hraw' : request'.getRawActions = .ok actions')
    (h : actions'.map (fun action => (action.account, action.name)) =
      actions.map (fun action => (action.account, action.name))) :
    request'.getRequiredAbis = request.getRequiredAbis := by
  have hfold : ∀ l : List Action, ∀ rv : List Name,
      l.foldl (fun rv action => if isIdentityAction action.account action.name then rv
        else if action.account ∈ rv then rv else rv ++ [action.account]) rv =
      (l.map (fun action => (action.account, action.name))).foldl (fun rv action =>
        if isIdentityAction action.1 action.2 then rv
        else if action.1 ∈ rv then rv else rv ++ [action.1]) rv := by
    intro l rv
    rw [List.foldl_map]
  unfold getRequiredAbis
  rw [hraw, hraw']
  simp only
  rw [hfold, hfold, h]

/-- A request of a transaction on a chain, but for its flags, callback and info pairs. -/
structure OfTransaction (chainId : ChainId) (tx : Transaction) (request : SigningRequest) :
    Prop where
  version : request.version = 2
  raw : request.getRawTransaction = .ok tx
  isIdentity : request.isIdentity = false
  chain : request.data.chain_id = chainId.chainVariant

/-- The request that is created of a transaction, with other info pairs, is one. -/
theorem OfTransaction.of_sameData {chainId : ChainId} {tx : Transaction} {request : SigningRequest}
    {enabled : Bool}
    (h : request.SameData ((transactionRequest chainId tx).setBroadcast enabled)) :
    request.OfTransaction chainId tx := by
  obtain ⟨version, data, signature⟩ := request
  obtain ⟨hversion, hdata⟩ := h
  cases data with
  | v2 d =>
    obtain ⟨chain_id, req, flags, callback, info⟩ := d
    cases hdata
    exact ⟨hversion, rfl, rfl, rfl⟩
  | v3 d => cases hdata

/-- Such a request is for its chain in every context. -/
theorem OfTransaction.resolveChain {chainId : ChainId} {tx : Transaction} {request : SigningRequest}
    (h : request.OfTransaction chainId tx) (ctx : TransactionContext) :
    request.resolveChain ctx = .ok chainId := by
  have hmulti : request.isMultiChain = false := by
    unfold isMultiChain
    rw [h.chain]
    exact decide_eq_false (ChainId.chainVariant_ne_any chainId)
  unfold SigningRequest.resolveChain getChainId
  rw [hmulti, if_neg Bool.false_ne_true, h.chain]
  exact ChainId.variantChainId_chainVariant chainId

end Request

/-! ## A second resolution -/

section Again

variable {p : Platform} {version : ℕ} {abis : AbiMap} {signer : PermissionLevel}

/-- The ABI of an action depends on the version for the identity action only. -/
theorem actionAbi_version {account name : Name}
    (h : isIdentityAction account name = true → version = 2) :
    actionAbi version abis account name = actionAbi 2 abis account name := by
  unfold actionAbi
  split
  · rename_i hidentity
    rw [h hidentity]
  · rfl

/-- **One action**: the resolved one is resolved to what it was encoded from. -/
theorem settled_action (hsigner : Concrete signer) {raw action : Action} {decoded : ResolvedAction}
    (hfaithful : ∀ abi type, actionAbi version abis raw.account raw.name = .ok abi →
      abi.getActionType raw.name = some type → Serializer.Faithful p abi type raw.data)
    (hversion : isIdentityAction raw.account raw.name = true → version = 2)
    (hdecoded : resolveAction p version abis (some signer) raw = .ok decoded)
    (hencoded : encodeAction p version abis decoded = .ok action) :
    resolveAction p 2 abis (some signer) action = .ok decoded ∧
      encodeAction p 2 abis decoded = .ok action := by
  obtain ⟨haccount, hname, hauthorization, abi, type, data, habi, htype, hdecode, hdata⟩ :=
    resolveAction_eq_ok hdecoded
  obtain ⟨account, name, authorization, value⟩ := decoded
  simp only at haccount hname hauthorization hdata
  subst haccount hname hdata
  have habi₂ : actionAbi 2 abis raw.account raw.name = .ok abi := by
    rw [← actionAbi_version hversion]
    exact habi
  have hwritten : Serializer.encode p (resolvePlaceholders signer data) type abi =
      .ok action.data ∧ action =
        { account := raw.account, name := raw.name, authorization, data := action.data } := by
    unfold encodeAction at hencoded
    simp only at hencoded
    rw [habi, ok_bind, htype] at hencoded
    obtain ⟨data', hencode, hencoded⟩ := bind_eq_ok.mp hencoded
    cases hencoded
    exact ⟨hencode, rfl⟩
  obtain ⟨hencode, haction⟩ := hwritten
  obtain ⟨hagain, hunmarked⟩ := (hfaithful abi type habi htype).settles hsigner hdecode hencode
  have hlevels : authorization.map (resolveAuth signer) = authorization := by
    rw [hauthorization, List.map_map]
    apply List.map_congr_left
    intro level _
    exact hsigner.resolveAuth_resolveAuth level
  rw [haction]
  constructor
  · unfold resolveAction Action.decodeData
    simp only
    rw [habi₂, ok_bind, htype]
    simp only
    rw [hagain, ok_bind, resolvePlaceholders_unmarked signer hunmarked, hlevels]
    rfl
  · unfold encodeAction
    simp only
    rw [habi₂, ok_bind, htype]
    simp only
    rw [hencode]
    rfl

/-- The actions, one after the other. -/
theorem settled_actions (hsigner : Concrete signer) {raw actions : List Action}
    {decoded : List ResolvedAction}
    (hfaithful : ∀ action ∈ raw, ∀ abi type,
      actionAbi version abis action.account action.name = .ok abi →
      abi.getActionType action.name = some type → Serializer.Faithful p abi type action.data)
    (hversion : ∀ action ∈ raw, isIdentityAction action.account action.name = true → version = 2)
    (hdecoded : raw.mapM (resolveAction p version abis (some signer)) = .ok decoded)
    (hencoded : decoded.mapM (encodeAction p version abis) = .ok actions) :
    actions.mapM (resolveAction p 2 abis (some signer)) = .ok decoded ∧
      decoded.mapM (encodeAction p 2 abis) = .ok actions := by
  induction raw generalizing decoded actions with
  | nil =>
    cases hdecoded
    cases hencoded
    exact ⟨rfl, rfl⟩
  | cons action raw ih =>
    obtain ⟨hhead, htail⟩ := List.forall_mem_cons.mp hfaithful
    obtain ⟨hhead', htail'⟩ := List.forall_mem_cons.mp hversion
    rw [List.mapM_cons] at hdecoded
    obtain ⟨one, hone, hdecoded⟩ := bind_eq_ok.mp hdecoded
    obtain ⟨rest, hrest, hdecoded⟩ := bind_eq_ok.mp hdecoded
    cases hdecoded
    rw [List.mapM_cons] at hencoded
    obtain ⟨written, hwritten, hencoded⟩ := bind_eq_ok.mp hencoded
    obtain ⟨others, hothers, hencoded⟩ := bind_eq_ok.mp hencoded
    cases hencoded
    obtain ⟨hfirst, hfirst'⟩ := settled_action hsigner hhead hhead' hone hwritten
    obtain ⟨hmore, hmore'⟩ := ih htail htail' hrest hothers
    rw [List.mapM_cons, hfirst, ok_bind, hmore, List.mapM_cons, hfirst', ok_bind, hmore']
    exact ⟨rfl, rfl⟩

/-- Only a request of version 2 has an action that is read as an identity. -/
def IdentityInV2 (request : SigningRequest) : Prop :=
  ∀ tx, request.getRawTransaction = .ok tx → ∀ action ∈ tx.actions,
    isIdentityAction action.account action.name = true → request.version = 2

/-- A transaction that carries TaPoS values keeps its header in every context. -/
theorem taposHeader_eq_of_hasTapos {request : SigningRequest} {tx : Transaction}
    (hraw : request.getRawTransaction = .ok tx) (htapos : tx.hasTapos = true) (now : ℤ)
    (ctx : TransactionContext) :
    request.taposHeader now ctx tx.toTransactionHeader = .ok tx.toTransactionHeader := by
  unfold taposHeader
  rw [if_neg (by rw [htapos]; rintro ⟨-, h⟩; cases h), if_neg]
  rintro ⟨hidentity, -⟩
  rw [hasTapos_of_isIdentity hraw hidentity] at htapos
  cases htapos

variable {request : SigningRequest} {now : ℤ} {ctx : TransactionContext}
  {resolved : ResolvedSigningRequest}

/-- **A request of a resolved transaction** is resolved to it. -/
theorem resolve_settled (hresolve : request.resolve p now abis signer ctx = .ok resolved)
    (hfaithful : request.FaithfulActions p abis) (hidentity : request.IdentityInV2)
    (hsigner : Concrete signer) (htapos : resolved.transaction.hasTapos = true)
    {request' : SigningRequest} {chainId : ChainId}
    (hrequest' : request'.OfTransaction chainId resolved.transaction) (now' : ℤ)
    (ctx' : TransactionContext) :
    request'.resolve p now' abis signer ctx' =
      .ok { resolved with request := request', signer, chainId } := by
  obtain ⟨tx, h⟩ := resolve_eq_ok.mp hresolve
  have hdecoded := h.decoded
  unfold resolveActions at hdecoded
  rw [getRawActions_of_getRawTransaction h.raw, ok_bind] at hdecoded
  obtain ⟨hagain, hencoded⟩ := settled_actions hsigner (hfaithful tx h.raw) (hidentity tx h.raw)
    hdecoded h.encoded
  refine resolve_eq_ok.mpr ⟨resolved.transaction, {
    raw := hrequest'.raw
    tapos := taposHeader_eq_of_hasTapos hrequest'.raw htapos now' ctx'
    decoded := ?_
    encoded := by rw [hrequest'.version]; exact hencoded
    contextFree := rfl
    extensions := rfl
    resolvedTransaction := by rw [h.contextFree, h.extensions]; exact h.resolvedTransaction
    chain := hrequest'.resolveChain ctx'
    request_eq := rfl
    signer_eq := rfl }⟩
  unfold resolveActions
  rw [getRawActions_of_getRawTransaction hrequest'.raw, ok_bind, hrequest'.version]
  exact hagain

/-- **Resolution is idempotent** on faithful data: the request that is created of a resolved
transaction with TaPoS values is resolved to the same transaction, in every context. -/
theorem resolve_again (hresolve : request.resolve p now abis signer ctx = .ok resolved)
    (hfaithful : request.FaithfulActions p abis) (hidentity : request.IdentityInV2)
    (hsigner : Concrete signer) (htapos : resolved.transaction.hasTapos = true)
    (abiProvider : Option AbiProvider) (chainId : ChainId) (now' : ℤ) (ctx' : TransactionContext) :
    ∃ created again,
      create p (transactionArgs chainId resolved.transaction) { abiProvider } = .ok created ∧
      created.resolve p now' abis signer ctx' = .ok again ∧
      again.transaction = resolved.transaction ∧
      again.resolvedTransaction = resolved.resolvedTransaction ∧ again.chainId = chainId := by
  have hrequest : (transactionRequest chainId resolved.transaction).OfTransaction chainId
      resolved.transaction := ⟨rfl, rfl, rfl, rfl⟩
  exact ⟨_, _, create_transactionArgs,
    resolve_settled hresolve hfaithful hidentity hsigner htapos hrequest now' ctx', rfl, rfl, rfl⟩

end Again

/-- The payment to the signer, resolved and resolved again for another chain. -/
theorem resolve_again_payment : ∃ resolved created again,
    (tokenRequest "pay" paymentData).resolve default 0 payABIs signerBob explicitContext =
      .ok resolved ∧
    create default (transactionArgs (.zero 32) resolved.transaction) = .ok created ∧
    created.resolve default 7 payABIs signerBob {} = .ok again ∧
    again.transaction = resolved.transaction ∧
    again.resolvedTransaction = resolved.resolvedTransaction ∧ again.chainId = .zero 32 := by
  have hrun : ((tokenRequest "pay" paymentData).resolve default 0 payABIs signerBob
      explicitContext).toOption.map (·.transaction.hasTapos) = some true := by decide +kernel
  have hsigner : Concrete signerBob := ⟨⟨by decide, by decide⟩, ⟨by decide, by decide⟩⟩
  have hfaithful : (tokenRequest "pay" paymentData).FaithfulActions default payABIs := by
    intro tx htx action haction abi type habi htype
    cases htx
    obtain rfl := List.mem_singleton.mp haction
    obtain rfl : payABI = abi := Except.ok.inj habi
    obtain rfl : lit "pay" = type := Option.some.inj htype
    exact payment_faithful
  have hidentity : (tokenRequest "pay" paymentData).IdentityInV2 := fun _ _ _ _ _ => rfl
  rcases hresolve : (tokenRequest "pay" paymentData).resolve default 0 payABIs signerBob
    explicitContext with e | resolved
  · rw [hresolve] at hrun
    cases hrun
  · rw [hresolve] at hrun
    obtain ⟨created, again, h⟩ := resolve_again hresolve hfaithful hidentity hsigner
      (Option.some.inj hrun) none (.zero 32) 7 {}
    exact ⟨resolved, created, again, rfl, h⟩

end SigningRequest

end Dwarfkit
