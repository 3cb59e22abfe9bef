/-
# Default values

`defaultValue` of `antelope/serializer/serializer.cpp`: the value that stands in for an
absent extension field.  One set of names runs through all fields of a struct, and a
variant's alternative starts with an empty one.

* `defaultValue_ok_iff` : it succeeds when no name comes twice between two variants;
* `ends_iff_acc`, `ends_iff` : it ends unless an alternative comes back to itself;
* `defaultRight_iff` : so it ends, and succeeds exactly for the types with a finite
  default, under these two conditions;
* `default_fails` : two ABIs that break them.
-/
import Dwarfkit.Antelope.Serializer.Serializer
import Dwarfkit.Library.Descent

namespace Dwarfkit

/-! ## The walker -/

/-- A computation that may have no result within its fuel. -/
abbrev Computing (α : Type) := ExceptT Failure Option α

/-- A computation that fails. -/
def failComputing {α : Type} (path : CodingPath) (message : Str) : Computing α :=
  ExceptT.mk (some (failAt path message))

/-- The pop after an alias. -/
def poppingPath {α : Type} (c : Computing α) : Computing α :=
  ExceptT.mk (c.run.map (fun r => r.mapError (fun f => { f with path := f.path.dropLast })))

/-- The field loop of `defaultValue`. -/
def defaultFields (next : CodingPath → List Str → ABI.ResolvedNode → Computing (Json × List Str))
    (path : CodingPath) :
    List (Str × ABI.ResolvedNode) → (seen : List Str) → (rv : List (Str × Json)) →
      Computing (Json × List Str)
  | [], seen, rv => pure (.obj rv, seen)
  | (name, fieldType) :: fields, seen, rv => do
    let (fieldDefault, seen) ← next (path.push name fieldType) seen fieldType
    defaultFields next path fields seen (Json.insert rv name fieldDefault)

/-- `defaultValue`, with `fuel` levels left; the names seen come back with the value, as
they are passed by reference. -/
def defaultValue (p : Platform) (arena : ABI.Arena) :
    (fuel : ℕ) → CodingPath → (seen : List Str) → ABI.ResolvedNode → Computing (Json × List Str)
  | 0, _, _, _ => ExceptT.mk none
  | fuel + 1, path, seen, type =>
    if type.isArray then pure (.arr [], seen)
    else if type.isOptional then pure (.null, seen)
    else match findBuiltin p type.name, type.fields, type.variant, type.ref with
      | some builtin, none, none, none => pure (builtin.defaultJSON, seen)
      | _, fields, variant, ref =>
        if type.name ∈ seen then failComputing path "Circular type reference"
        else
          let seen := type.name :: seen
          match fields, variant, ref with
          | some _, _, _ =>
            match arena.allFields type with
            | some fields => defaultFields (defaultValue p arena fuel) path fields seen []
            | none => failComputing path "Invalid struct fields"
          | none, some (i :: _), _ => do
            let vType := arena.node i
            let (inner, _) ← defaultValue p arena fuel path [] vType
            return (.arr [.str vType.typeName, inner], seen)
          | none, _, some ref =>
            let target := arena.node ref
            poppingPath (defaultValue p arena fuel (path.push [] target) seen target)
          | none, _, none => failComputing path "Unable to determine default value"

/-! ## Finite defaults -/

/-- What the default of a type is made of. -/
inductive DefaultShape where
  | value (v : Json)
  | struct (fields : List (Str × ABI.ResolvedNode))
  | variant (alternative : ABI.ResolvedNode)
  | ref (target : ABI.ResolvedNode)
  | none (message : Str)

section Shapes

variable (p : Platform) (arena : ABI.Arena)

/-- Arrays are empty, optionals null, and builtins have a default of their own; a struct
needs all its fields, a variant its first alternative and an alias its target. -/
def defaultShape (type : ABI.ResolvedNode) : DefaultShape :=
  if type.isArray then .value (.arr [])
  else if type.isOptional then .value .null
  else match findBuiltin p type.name, type.fields, type.variant, type.ref with
    | some builtin, none, none, none => .value builtin.defaultJSON
    | _, fields, variant, ref =>
      match fields, variant, ref with
      | some _, _, _ =>
        match arena.allFields type with
        | some fields => .struct fields
        | none => .none "Invalid struct fields"
      | none, some (i :: _), _ => .variant (arena.node i)
      | none, _, some ref => .ref (arena.node ref)
      | none, _, none => .none "Unable to determine default value"

/-- The members of a struct, set one after the other. -/
def structMembers (rv : List (Str × Json)) (fields : List (Str × ABI.ResolvedNode))
    (values : List Json) : List (Str × Json) :=
  (fields.zip values).foldl (fun rv m => Json.insert rv m.1.1 m.2) rv

/-- The default of a type, if `n` levels are enough to write it down. -/
def finiteDefault : (n : ℕ) → ABI.ResolvedNode → Option Json
  | 0, _ => none
  | n + 1, type =>
    match defaultShape p arena type with
    | .value v => some v
    | .struct fields => do
      let values ← fields.mapM (fun f => finiteDefault n f.2)
      return .obj (structMembers [] fields values)
    | .variant alternative => do
      let inner ← finiteDefault n alternative
      return .arr [.str alternative.typeName, inner]
    | .ref target => finiteDefault n target
    | .none _ => none

/-- The names that the default of a type goes through up to the next variants, if `n` levels
are enough and no name comes twice behind a variant. -/
def stretch : (n : ℕ) → ABI.ResolvedNode → Option (List Str)
  | 0, _ => none
  | n + 1, type =>
    match defaultShape p arena type with
    | .value _ => some []
    | .struct fields => do
      let lists ← fields.mapM (fun f => stretch n f.2)
      return type.name :: lists.flatten
    | .variant alternative => do
      let names ← stretch n alternative
      if names.Nodup then some [type.name] else none
    | .ref target => do
      let names ← stretch n target
      return type.name :: names
    | .none _ => none

/-- The type has a finite default. -/
def HasDefault (type : ABI.ResolvedNode) : Prop := ∃ n v, finiteDefault p arena n type = some v

/-- No struct, variant or alias comes twice between two variants of the default. -/
def NoneTwice (type : ABI.ResolvedNode) : Prop :=
  ∃ n names, stretch p arena n type = some names ∧ names.Nodup

end Shapes

/-! ## One level -/

section Levels

variable {p : Platform} {arena : ABI.Arena}

/-- One level of `defaultValue` by the shape of the type. -/
theorem defaultValue_succ (fuel : ℕ) (path : CodingPath) (seen : List Str)
    (type : ABI.ResolvedNode) :
    defaultValue p arena (fuel + 1) path seen type =
      match defaultShape p arena type with
      | .value v => pure (v, seen)
      | shape =>
        if type.name ∈ seen then failComputing path "Circular type reference"
        else match shape with
          | .value v => pure (v, seen)
          | .struct fields =>
            defaultFields (defaultValue p arena fuel) path fields (type.name :: seen) []
          | .variant alternative => do
            let (inner, _) ← defaultValue p arena fuel path [] alternative
            return (.arr [.str alternative.typeName, inner], type.name :: seen)
          | .ref target =>
            poppingPath (defaultValue p arena fuel (path.push [] target) (type.name :: seen) target)
          | .none message => failComputing path message := by
  rw [defaultValue]
  unfold defaultShape
  -- The tests in the order of the source: an array, an optional and a builtin look at no name.
  by_cases harray : type.isArray = true
  · rw [if_pos harray, if_pos harray]
  by_cases hoptional : type.isOptional = true
  · rw [if_neg harray, if_neg harray, if_pos hoptional, if_pos hoptional]
  rw [if_neg harray, if_neg harray, if_neg hoptional, if_neg hoptional]
  cases type.fields with
  | some fields =>
    cases findBuiltin p type.name <;> cases arena.allFields type <;> rfl
  | none =>
    rcases type.variant with _ | _ | ⟨i, rest⟩
    · cases findBuiltin p type.name <;> cases type.ref <;> rfl
    · cases findBuiltin p type.name <;> cases type.ref <;> rfl
    · cases findBuiltin p type.name <;> rfl

/-! ## Success -/

theorem run_computing_bind {α β : Type} {x : Computing α} {f : α → Computing β} {b : β} :
    (x >>= f).run = some (.ok b) ↔ ∃ a, x.run = some (.ok a) ∧ (f a).run = some (.ok b) := by
  rw [ExceptT.run_bind]
  rcases x.run with _ | e | a
  · simp
  · simp
  · simp

/-- What a successful walk over a field's type gives, in terms of its default and its
names. -/
def WalksWith (next : CodingPath → List Str → ABI.ResolvedNode → Computing (Json × List Str))
    (default : ABI.ResolvedNode → Option Json) (names : ABI.ResolvedNode → Option (List Str)) :
    Prop :=
  ∀ path seen type v seen', (next path seen type).run = some (.ok (v, seen')) ↔
    default type = some v ∧ ∃ l, names type = some l ∧ l.Nodup ∧ l.Disjoint seen ∧
      seen' = l.reverse ++ seen

/-- The fields of a struct, one after the other. -/
theorem defaultFields_ok_iff
    {next : CodingPath → List Str → ABI.ResolvedNode → Computing (Json × List Str)}
    {default : ABI.ResolvedNode → Option Json} {names : ABI.ResolvedNode → Option (List Str)}
    (hnext : WalksWith next default names) (path : CodingPath)
    (fields : List (Str × ABI.ResolvedNode)) (seen : List Str) (rv : List (Str × Json)) (w : Json)
    (seen' : List Str) :
    (defaultFields next path fields seen rv).run = some (.ok (w, seen')) ↔
      ∃ values lists, fields.mapM (fun f => default f.2) = some values ∧
        fields.mapM (fun f => names f.2) = some lists ∧ lists.flatten.Nodup ∧
        lists.flatten.Disjoint seen ∧ seen' = lists.flatten.reverse ++ seen ∧
        w = .obj (structMembers rv fields values) := by
  -- The names of the fields done so far are in `seen`, in reverse.
  induction fields generalizing seen rv with
  | nil =>
    constructor
    · intro h
      cases h
      exact ⟨[], [], rfl, rfl, by simp, by simp, rfl, rfl⟩
    · rintro ⟨values, lists, ⟨⟩, ⟨⟩, -, -, rfl, rfl⟩
      rfl
  | cons field fields ih =>
    obtain ⟨name, fieldType⟩ := field
    unfold defaultFields
    rw [run_computing_bind]
    constructor
    · rintro ⟨⟨v, mid⟩, hv, hrest⟩
      obtain ⟨hdefault, l, hl, hnodup, hdisjoint, rfl⟩ := (hnext _ _ _ _ _).mp hv
      obtain ⟨values, lists, hvalues, hlists, hnodups, hdisjoints, rfl, rfl⟩ :=
        (ih _ _).mp hrest
      rw [List.disjoint_append_right] at hdisjoints
      refine ⟨v :: values, l :: lists, ?_, ?_, ?_, ?_, ?_, rfl⟩
      · simp [List.mapM_cons, hdefault, hvalues]
      · simp [List.mapM_cons, hl, hlists]
      · rw [List.flatten_cons, List.nodup_append']
        exact ⟨hnodup, hnodups, fun x hx hx' => hdisjoints.1 hx' (List.mem_reverse.mpr hx)⟩
      · rw [List.flatten_cons, List.disjoint_append_left]
        exact ⟨hdisjoint, hdisjoints.2⟩
      · rw [List.flatten_cons, List.reverse_append, List.append_assoc]
    · rintro ⟨values, lists, hvalues, hlists, hnodups, hdisjoints, rfl, rfl⟩
      rw [List.mapM_cons] at hvalues hlists
      obtain ⟨v, hv, hconsv⟩ := Option.bind_eq_some_iff.mp hvalues
      obtain ⟨rest, hrest, ⟨⟩⟩ := Option.bind_eq_some_iff.mp hconsv
      obtain ⟨l, hl, hconsl⟩ := Option.bind_eq_some_iff.mp hlists
      obtain ⟨more, hmore, ⟨⟩⟩ := Option.bind_eq_some_iff.mp hconsl
      rw [List.flatten_cons, List.nodup_append'] at hnodups
      rw [List.flatten_cons, List.disjoint_append_left] at hdisjoints
      obtain ⟨hnodup, hnodups, hapart⟩ := hnodups
      refine ⟨(v, l.reverse ++ seen), ?_, ?_⟩
      · exact (hnext _ _ _ _ _).mpr ⟨hv, l, hl, hnodup, hdisjoints.1, rfl⟩
      · refine (ih _ _).mpr ⟨rest, more, hrest, hmore, hnodups, ?_, ?_, rfl⟩
        · rw [List.disjoint_append_right]
          exact ⟨fun x hx hx' => hapart (List.mem_reverse.mp hx') hx, hdisjoints.2⟩
        · rw [List.flatten_cons, List.reverse_append, List.append_assoc]

/-- A name that was not seen, in front of a walk. -/
theorem nodup_cons_disjoint {name : Str} {l seen : List Str} :
    (name :: l).Nodup ∧ (name :: l).Disjoint seen ↔
      name ∉ seen ∧ l.Nodup ∧ l.Disjoint (name :: seen) := by
  simp only [List.nodup_cons, List.disjoint_cons_left, List.disjoint_cons_right]
  tauto

/-- **What a successful walk computes**: the finite default of a type whose names do not come
twice and were not seen before. -/
theorem defaultValue_ok_iff (fuel : ℕ) :
    WalksWith (defaultValue p arena fuel) (finiteDefault p arena fuel) (stretch p arena fuel) := by
  induction fuel with
  | zero =>
    intro path seen type v seen'
    constructor
    · rintro ⟨⟩
    · rintro ⟨⟨⟩, -⟩
  | succ fuel ih =>
    intro path seen type v seen'
    rw [defaultValue_succ, finiteDefault, stretch]
    cases hshape : defaultShape p arena type with
    | value w =>
      constructor
      · rintro ⟨⟩
        exact ⟨rfl, [], rfl, List.nodup_nil, by simp, rfl⟩
      · rintro ⟨⟨⟩, l, ⟨⟩, -, -, rfl⟩
        rfl
    | struct fields =>
      simp only
      by_cases hseen : type.name ∈ seen
      · rw [if_pos hseen]
        constructor
        · rintro ⟨⟩
        · rintro ⟨-, l, hl, -, hdisjoint, -⟩
          obtain ⟨lists, -, hcons⟩ := Option.bind_eq_some_iff.mp hl
          cases hcons
          exact absurd hseen (List.disjoint_cons_left.mp hdisjoint).1
      · rw [if_neg hseen, defaultFields_ok_iff ih]
        constructor
        · rintro ⟨values, lists, hvalues, hlists, hnodup, hdisjoint, rfl, rfl⟩
          obtain ⟨hnodup, hdisjoint⟩ := nodup_cons_disjoint.mpr ⟨hseen, hnodup, hdisjoint⟩
          refine ⟨by simp [hvalues], type.name :: lists.flatten, by simp [hlists], hnodup,
            hdisjoint, by simp⟩
        · rintro ⟨hv, l, hl, hnodup, hdisjoint, rfl⟩
          obtain ⟨lists, hlists, hcons⟩ := Option.bind_eq_some_iff.mp hl
          cases hcons
          obtain ⟨values, hvalues, hobj⟩ := Option.bind_eq_some_iff.mp hv
          cases hobj
          obtain ⟨-, hnodup, hdisjoint⟩ := nodup_cons_disjoint.mp ⟨hnodup, hdisjoint⟩
          exact ⟨values, lists, hvalues, hlists, hnodup, hdisjoint, by simp, rfl⟩
    -- The alternative is walked with an empty `seen`: its names need only differ from each other.
    | variant alternative =>
      simp only
      by_cases hseen : type.name ∈ seen
      · rw [if_pos hseen]
        constructor
        · rintro ⟨⟩
        · rintro ⟨-, l, hl, -, hdisjoint, -⟩
          obtain ⟨names, -, hnames⟩ := Option.bind_eq_some_iff.mp hl
          split at hnames
          · cases hnames
            exact absurd hseen (List.disjoint_cons_left.mp hdisjoint).1
          · cases hnames
      · rw [if_neg hseen, run_computing_bind]
        constructor
        · rintro ⟨⟨inner, mid⟩, hinner, ⟨⟩⟩
          obtain ⟨hdefault, names, hnames, hnodup, -, -⟩ := (ih _ _ _ _ _).mp hinner
          refine ⟨by simp [hdefault], [type.name], by simp [hnames, hnodup], by simp, by simpa,
            by simp⟩
        · rintro ⟨hv, l, hl, -, -, rfl⟩
          obtain ⟨inner, hinner, hv⟩ := Option.bind_eq_some_iff.mp hv
          cases hv
          obtain ⟨names, hnames, hl⟩ := Option.bind_eq_some_iff.mp hl
          split at hl
          · rename_i hnodup
            cases hl
            exact ⟨(inner, names.reverse ++ []), (ih _ _ _ _ _).mpr ⟨hinner, names, hnames, hnodup,
              by simp, rfl⟩, rfl⟩
          · cases hl
    | ref target =>
      simp only
      by_cases hseen : type.name ∈ seen
      · rw [if_pos hseen]
        constructor
        · rintro ⟨⟩
        · rintro ⟨-, l, hl, -, hdisjoint, -⟩
          obtain ⟨names, -, hcons⟩ := Option.bind_eq_some_iff.mp hl
          cases hcons
          exact absurd hseen (List.disjoint_cons_left.mp hdisjoint).1
      · rw [if_neg hseen]
        have hpop (c : Computing (Json × List Str)) :
            (poppingPath c).run = some (.ok (v, seen')) ↔ c.run = some (.ok (v, seen')) := by
          show c.run.map _ = _ ↔ _
          rcases c.run with _ | e | a
          · simp
          · simp [Except.mapError]
          · simp [Except.mapError]
        rw [hpop, ih]
        constructor
        · rintro ⟨hdefault, names, hnames, hnodup, hdisjoint, rfl⟩
          obtain ⟨hnodup, hdisjoint⟩ := nodup_cons_disjoint.mpr ⟨hseen, hnodup, hdisjoint⟩
          exact ⟨hdefault, type.name :: names, by simp [hnames], hnodup, hdisjoint, by simp⟩
        · rintro ⟨hdefault, l, hl, hnodup, hdisjoint, rfl⟩
          obtain ⟨names, hnames, hcons⟩ := Option.bind_eq_some_iff.mp hl
          cases hcons
          obtain ⟨-, hnodup, hdisjoint⟩ := nodup_cons_disjoint.mp ⟨hnodup, hdisjoint⟩
          exact ⟨hdefault, names, hnames, hnodup, hdisjoint, by simp⟩
    | none message =>
      simp only
      constructor
      · split
        · rintro ⟨⟩
        · rintro ⟨⟩
      · rintro ⟨⟨⟩, -⟩

/-! ## More fuel -/

/-- Every result of a computation is one of another. -/
def Refines {α : Type} (x y : Computing α) : Prop := ∀ r, x.run = some r → y.run = some r

theorem Refines.refl {α : Type} (x : Computing α) : Refines x x := fun _ h => h

theorem Refines.bind {α β : Type} {x y : Computing α} {f g : α → Computing β}
    (hx : Refines x y) (hf : ∀ a, Refines (f a) (g a)) : Refines (x >>= f) (y >>= g) := by
  intro r h
  rw [ExceptT.run_bind] at h ⊢
  obtain ⟨result, hresult, h⟩ := Option.bind_eq_some_iff.mp h
  refine Option.bind_eq_some_iff.mpr ⟨result, hx result hresult, ?_⟩
  cases result with
  | error e => exact h
  | ok a => exact hf a r h

theorem Refines.poppingPath {α : Type} {x y : Computing α} (h : Refines x y) :
    Refines (poppingPath x) (poppingPath y) := by
  intro r hr
  obtain ⟨result, hresult, heq⟩ := Option.map_eq_some_iff.mp hr
  exact Option.map_eq_some_iff.mpr ⟨result, h result hresult, heq⟩

theorem defaultFields_refines
    {next next' : CodingPath → List Str → ABI.ResolvedNode → Computing (Json × List Str)}
    (h : ∀ path seen type, Refines (next path seen type) (next' path seen type))
    (path : CodingPath) (fields : List (Str × ABI.ResolvedNode)) (seen : List Str)
    (rv : List (Str × Json)) :
    Refines (defaultFields next path fields seen rv) (defaultFields next' path fields seen rv) := by
  induction fields generalizing seen rv with
  | nil => exact Refines.refl _
  | cons field fields ih =>
    unfold defaultFields
    exact Refines.bind (h _ _ _) (fun _ => ih _ _)

theorem defaultValue_refines_succ (fuel : ℕ) (path : CodingPath) (seen : List Str)
    (type : ABI.ResolvedNode) :
    Refines (defaultValue p arena fuel path seen type) (defaultValue p arena (fuel + 1) path seen type) := by
  induction fuel generalizing path seen type with
  | zero => rintro r ⟨⟩
  | succ fuel ih =>
    rw [defaultValue_succ, defaultValue_succ (fuel + 1)]
    cases defaultShape p arena type with
    | value v => exact Refines.refl _
    | none message => exact Refines.refl _
    | struct fields =>
      simp only
      split
      · exact Refines.refl _
      · exact defaultFields_refines ih _ _ _ _
    | variant alternative =>
      simp only
      split
      · exact Refines.refl _
      · exact Refines.bind (ih _ _ _) (fun _ => Refines.refl _)
    | ref target =>
      simp only
      split
      · exact Refines.refl _
      · exact Refines.poppingPath (ih _ _ _)

/-- More fuel does not change a result. -/
theorem defaultValue_refines {fuel fuel' : ℕ} (hle : fuel ≤ fuel') (path : CodingPath)
    (seen : List Str) (type : ABI.ResolvedNode) :
    Refines (defaultValue p arena fuel path seen type) (defaultValue p arena fuel' path seen type) := by
  induction hle with
  | refl => exact Refines.refl _
  | step _ ih => exact fun r h => defaultValue_refines_succ _ _ _ _ r (ih r h)

/-- So two results are the same. -/
theorem defaultValue_unique {fuel fuel' : ℕ} {path : CodingPath} {seen : List Str}
    {type : ABI.ResolvedNode} {r r' : Coding (Json × List Str)}
    (h : (defaultValue p arena fuel path seen type).run = some r)
    (h' : (defaultValue p arena fuel' path seen type).run = some r') : r = r' := by
  have hmax := defaultValue_refines (le_max_left fuel fuel') path seen type r h
  have hmax' := defaultValue_refines (le_max_right fuel fuel') path seen type r' h'
  rw [hmax] at hmax'
  exact Option.some.inj hmax'

/-- A walk with more results. -/
theorem mapM_refines {α β : Type} {f g : α → Option β} (h : ∀ a b, f a = some b → g a = some b)
    {l : List α} {bs : List β} (hl : l.mapM f = some bs) : l.mapM g = some bs := by
  induction l generalizing bs with
  | nil => exact hl
  | cons a l ih =>
    rw [List.mapM_cons] at hl ⊢
    obtain ⟨b, hb, hl⟩ := Option.bind_eq_some_iff.mp hl
    obtain ⟨rest, hrest, hcons⟩ := Option.bind_eq_some_iff.mp hl
    rw [h a b hb]
    show (l.mapM g >>= _) = _
    rw [ih hrest]
    exact hcons

theorem finiteDefault_succ {n : ℕ} {type : ABI.ResolvedNode} {v : Json}
    (h : finiteDefault p arena n type = some v) : finiteDefault p arena (n + 1) type = some v := by
  induction n generalizing type v with
  | zero => cases h
  | succ n ih =>
    rw [finiteDefault] at h ⊢
    cases hshape : defaultShape p arena type with
    | value w => rwa [hshape] at h
    | none message => rwa [hshape] at h
    | ref target =>
      rw [hshape] at h
      exact ih h
    | struct fields =>
      rw [hshape] at h
      obtain ⟨values, hvalues, hcons⟩ := Option.bind_eq_some_iff.mp h
      exact Option.bind_eq_some_iff.mpr ⟨values, mapM_refines (fun _ _ => ih) hvalues, hcons⟩
    | variant alternative =>
      rw [hshape] at h
      obtain ⟨inner, hinner, hcons⟩ := Option.bind_eq_some_iff.mp h
      exact Option.bind_eq_some_iff.mpr ⟨inner, ih hinner, hcons⟩

theorem stretch_succ {n : ℕ} {type : ABI.ResolvedNode} {l : List Str}
    (h : stretch p arena n type = some l) : stretch p arena (n + 1) type = some l := by
  induction n generalizing type l with
  | zero => cases h
  | succ n ih =>
    rw [stretch] at h ⊢
    cases hshape : defaultShape p arena type with
    | value w => rwa [hshape] at h
    | none message => rwa [hshape] at h
    | ref target =>
      rw [hshape] at h
      obtain ⟨names, hnames, hcons⟩ := Option.bind_eq_some_iff.mp h
      exact Option.bind_eq_some_iff.mpr ⟨names, ih hnames, hcons⟩
    | struct fields =>
      rw [hshape] at h
      obtain ⟨lists, hlists, hcons⟩ := Option.bind_eq_some_iff.mp h
      exact Option.bind_eq_some_iff.mpr ⟨lists, mapM_refines (fun _ _ => ih) hlists, hcons⟩
    | variant alternative =>
      rw [hshape] at h
      obtain ⟨names, hnames, hcons⟩ := Option.bind_eq_some_iff.mp h
      exact Option.bind_eq_some_iff.mpr ⟨names, ih hnames, hcons⟩

theorem finiteDefault_mono {n m : ℕ} (hle : n ≤ m) {type : ABI.ResolvedNode} {v : Json}
    (h : finiteDefault p arena n type = some v) : finiteDefault p arena m type = some v := by
  induction hle with
  | refl => exact h
  | step _ ih => exact finiteDefault_succ ih

theorem stretch_mono {n m : ℕ} (hle : n ≤ m) {type : ABI.ResolvedNode} {l : List Str}
    (h : stretch p arena n type = some l) : stretch p arena m type = some l := by
  induction hle with
  | refl => exact h
  | step _ ih => exact stretch_succ ih

/-- Where there are names, there is a default. -/
theorem exists_finiteDefault {n : ℕ} {type : ABI.ResolvedNode} {l : List Str}
    (h : stretch p arena n type = some l) : ∃ v, finiteDefault p arena n type = some v := by
  induction n generalizing type l with
  | zero => cases h
  | succ n ih =>
    rw [stretch] at h
    rw [finiteDefault]
    cases hshape : defaultShape p arena type with
    | value w => exact ⟨w, rfl⟩
    | none message =>
      rw [hshape] at h
      cases h
    | ref target =>
      rw [hshape] at h
      obtain ⟨names, hnames, -⟩ := Option.bind_eq_some_iff.mp h
      exact ih hnames
    | struct fields =>
      rw [hshape] at h
      obtain ⟨lists, hlists, -⟩ := Option.bind_eq_some_iff.mp h
      -- Field by field: each has names, so each has a default.
      have hvalues : ∃ values, fields.mapM (fun f => finiteDefault p arena n f.2) = some values := by
        clear h hshape
        induction fields generalizing lists with
        | nil => exact ⟨[], rfl⟩
        | cons field fields ihf =>
          rw [List.mapM_cons] at hlists
          obtain ⟨first, hfirst, hlists⟩ := Option.bind_eq_some_iff.mp hlists
          obtain ⟨rest, hrest, -⟩ := Option.bind_eq_some_iff.mp hlists
          obtain ⟨v, hv⟩ := ih hfirst
          obtain ⟨values, hvalues⟩ := ihf rest hrest
          exact ⟨v :: values, by simp [List.mapM_cons, hv, hvalues]⟩
      obtain ⟨values, hvalues⟩ := hvalues
      exact ⟨_, Option.bind_eq_some_iff.mpr ⟨values, hvalues, rfl⟩⟩
    | variant alternative =>
      rw [hshape] at h
      obtain ⟨names, hnames, -⟩ := Option.bind_eq_some_iff.mp h
      obtain ⟨inner, hinner⟩ := ih hnames
      exact ⟨_, Option.bind_eq_some_iff.mpr ⟨inner, hinner, rfl⟩⟩

end Levels

/-! ## The calls of a walk -/

/-- What a call of `defaultValue` depends on: the names seen, and the type. -/
abbrev DefaultCall := List Str × ABI.ResolvedNode

section Calls

variable (p : Platform) (arena : ABI.Arena)

/-- A call that another one makes: the next field of a struct, once the fields before it have
their values; the first alternative of a variant, with no name seen; the target of an
alias. -/
inductive Calls : DefaultCall → DefaultCall → Prop where
  | field {seen : List Str} {type child : ABI.ResolvedNode} {name : Str}
      {before after : List (Str × ABI.ResolvedNode)} {n : ℕ} {lists : List (List Str)}
      (shape : defaultShape p arena type = .struct (before ++ (name, child) :: after))
      (new : type.name ∉ seen) (names : before.mapM (fun f => stretch p arena n f.2) = some lists)
      (nodup : lists.flatten.Nodup) (apart : lists.flatten.Disjoint (type.name :: seen)) :
      Calls (seen, type) (lists.flatten.reverse ++ type.name :: seen, child)
  | alternative {seen : List Str} {type inner : ABI.ResolvedNode}
      (shape : defaultShape p arena type = .variant inner) (new : type.name ∉ seen) :
      Calls (seen, type) ([], inner)
  | target {seen : List Str} {type target : ABI.ResolvedNode}
      (shape : defaultShape p arena type = .ref target) (new : type.name ∉ seen) :
      Calls (seen, type) (type.name :: seen, target)

/-- The call ends. -/
def Ends (call : DefaultCall) : Prop :=
  ∃ fuel, ∀ path, (defaultValue p arena fuel path call.1 call.2).run ≠ none

/-- An alternative that the call of a type gets to is called again for its own default. -/
def Returns (type : ABI.ResolvedNode) : Prop :=
  ∃ inner, Relation.TransGen (Calls p arena) ([], type) ([], inner) ∧
    Relation.TransGen (Calls p arena) ([], inner) ([], inner)

end Calls

/-- The first field of a struct is always called. -/
theorem Calls.first {p : Platform} {arena : ABI.Arena} {seen : List Str}
    {type child : ABI.ResolvedNode} {name : Str} {after : List (Str × ABI.ResolvedNode)}
    (hshape : defaultShape p arena type = .struct ((name, child) :: after))
    (hnew : type.name ∉ seen) : Calls p arena (seen, type) (type.name :: seen, child) :=
  @Calls.field p arena seen type child name [] after 0 [] hshape hnew rfl List.nodup_nil
    (List.disjoint_nil_left _)

section Termination

variable {p : Platform} {arena : ABI.Arena}

/-- A composed computation ends when its parts do. -/
theorem run_bind_eq_none {α β : Type} {x : Computing α} {f : α → Computing β} :
    (x >>= f).run = none ↔ x.run = none ∨ ∃ a, x.run = some (.ok a) ∧ (f a).run = none := by
  rw [ExceptT.run_bind]
  rcases x.run with _ | e | a
  · simp
  · simp
  · simp

theorem run_poppingPath_eq_none {α : Type} {c : Computing α} :
    (poppingPath c).run = none ↔ c.run = none := Option.map_eq_none_iff

/-- If the walk over some fields ends, so does the call of each field behind fields that have
their values. -/
theorem field_ends {fuel n : ℕ} {path : CodingPath} {name : Str} {child : ABI.ResolvedNode}
    {before after : List (Str × ABI.ResolvedNode)} {lists : List (List Str)}
    (hnames : before.mapM (fun f => stretch p arena n f.2) = some lists)
    (hnodup : lists.flatten.Nodup) {seen : List Str} (hapart : lists.flatten.Disjoint seen)
    {rv : List (Str × Json)}
    (h : (defaultFields (defaultValue p arena fuel) path (before ++ (name, child) :: after) seen
      rv).run ≠ none) :
    ∃ path', (defaultValue p arena fuel path' (lists.flatten.reverse ++ seen) child).run ≠ none := by
  induction before generalizing lists seen rv with
  | nil =>
    cases hnames
    refine ⟨path.push name child, fun hnone => h ?_⟩
    exact run_bind_eq_none.mpr (Or.inl hnone)
  | cons field before ih =>
    obtain ⟨name₀, first⟩ := field
    rw [List.mapM_cons] at hnames
    obtain ⟨l, hl, hnames⟩ := Option.bind_eq_some_iff.mp hnames
    obtain ⟨rest, hrest, ⟨⟩⟩ := Option.bind_eq_some_iff.mp hnames
    rw [List.flatten_cons, List.nodup_append'] at hnodup
    rw [List.flatten_cons, List.disjoint_append_left] at hapart
    obtain ⟨hl_nodup, hrest_nodup, hdisjoint⟩ := hnodup
    obtain ⟨v, hv⟩ := exists_finiteDefault hl
    -- the first field has its value, so its call has this result
    have hok := (defaultValue_ok_iff n (path.push name₀ first) seen first v (l.reverse ++ seen)).mpr
      ⟨hv, l, hl, hl_nodup, hapart.1, rfl⟩
    have hwalk := run_bind_eq_none.not.mp h
    rw [not_or] at hwalk
    obtain ⟨r, hr⟩ := Option.ne_none_iff_exists'.mp hwalk.1
    have hsame := defaultValue_unique hr hok
    rw [hsame] at hr
    have hmore : (defaultFields (defaultValue p arena fuel) path (before ++ (name, child) :: after)
        (l.reverse ++ seen) (Json.insert rv name₀ v)).run ≠ none :=
      fun hnone => hwalk.2 ⟨_, hr, hnone⟩
    have hrest_apart : rest.flatten.Disjoint (l.reverse ++ seen) := by
      rw [List.disjoint_append_right]
      exact ⟨fun x hx hx' => hdisjoint (List.mem_reverse.mp hx') hx, hapart.2⟩
    obtain ⟨path', hpath'⟩ := ih hrest hrest_nodup hrest_apart hmore
    refine ⟨path', ?_⟩
    rwa [List.flatten_cons, List.reverse_append, List.append_assoc]

/-- A call that ends makes calls that end, with less fuel. -/
theorem calls_ends {fuel : ℕ} {path : CodingPath} {call call' : DefaultCall}
    (hcalls : Calls p arena call call')
    (h : (defaultValue p arena (fuel + 1) path call.1 call.2).run ≠ none) :
    ∃ path', (defaultValue p arena fuel path' call'.1 call'.2).run ≠ none := by
  cases hcalls with
  | field hshape hnew hnames hnodup hapart =>
    rw [defaultValue_succ, hshape] at h
    simp only [if_neg hnew] at h
    exact field_ends hnames hnodup hapart h
  | alternative hshape hnew =>
    rw [defaultValue_succ, hshape] at h
    simp only [if_neg hnew] at h
    exact ⟨path, fun hnone => h (run_bind_eq_none.mpr (Or.inl hnone))⟩
  | target hshape hnew =>
    rw [defaultValue_succ, hshape] at h
    simp only [if_neg hnew] at h
    exact ⟨_, fun hnone => h (run_poppingPath_eq_none.mpr hnone)⟩

theorem acc_of_run {fuel : ℕ} {path : CodingPath} {call : DefaultCall}
    (h : (defaultValue p arena fuel path call.1 call.2).run ≠ none) :
    Acc (flip (Calls p arena)) call := by
  induction fuel generalizing path call with
  | zero => exact absurd rfl h
  | succ fuel ih =>
    refine Acc.intro call (fun call' hcalls => ?_)
    obtain ⟨path', hpath'⟩ := calls_ends hcalls h
    exact ih hpath'

/-- The fields of a struct end, if all the calls that it makes do. -/
theorem fields_end {seen : List Str} {type : ABI.ResolvedNode}
    (hend : ∀ call', Calls p arena (seen, type) call' → Ends p arena call') (hnew : type.name ∉ seen)
    {before after : List (Str × ABI.ResolvedNode)}
    (hshape : defaultShape p arena type = .struct (before ++ after)) {n : ℕ}
    {lists : List (List Str)} (hnames : before.mapM (fun f => stretch p arena n f.2) = some lists)
    (hnodup : lists.flatten.Nodup) (hapart : lists.flatten.Disjoint (type.name :: seen)) :
    ∃ fuel, ∀ path rv, (defaultFields (defaultValue p arena fuel) path after
      (lists.flatten.reverse ++ type.name :: seen) rv).run ≠ none := by
  induction after generalizing before n lists with
  | nil =>
    refine ⟨0, fun path rv => ?_⟩
    rintro ⟨⟩
  | cons field after ih =>
    obtain ⟨name, child⟩ := field
    obtain ⟨fuel, hfuel⟩ := hend _ (Calls.field hshape hnew hnames hnodup hapart)
    by_cases hok : ∃ v l, finiteDefault p arena fuel child = some v ∧
        stretch p arena fuel child = some l ∧ l.Nodup ∧
        l.Disjoint (lists.flatten.reverse ++ type.name :: seen)
    · obtain ⟨v, l, hv, hl, hl_nodup, hl_apart⟩ := hok
      have hchild (path : CodingPath) := (defaultValue_ok_iff fuel path
        (lists.flatten.reverse ++ type.name :: seen) child v _).mpr
          ⟨hv, l, hl, hl_nodup, hl_apart, rfl⟩
      rw [List.disjoint_append_right] at hl_apart
      have hmore : (before ++ [(name, child)]).mapM (fun f => stretch p arena (max n fuel) f.2) =
          some (lists ++ [l]) := by
        rw [List.mapM_append, mapM_refines (fun _ _ => stretch_mono (le_max_left n fuel)) hnames]
        simp [stretch_mono (le_max_right n fuel) hl]
      have hmore_nodup : (lists ++ [l]).flatten.Nodup := by
        rw [List.flatten_append, List.flatten_singleton, List.nodup_append']
        exact ⟨hnodup, hl_nodup, fun x hx hx' => hl_apart.1 hx' (List.mem_reverse.mpr hx)⟩
      have hmore_apart : (lists ++ [l]).flatten.Disjoint (type.name :: seen) := by
        rw [List.flatten_append, List.flatten_singleton, List.disjoint_append_left]
        exact ⟨hapart, hl_apart.2⟩
      have hshape' : defaultShape p arena type =
          .struct ((before ++ [(name, child)]) ++ after) := by
        rw [hshape, List.append_assoc]
        rfl
      obtain ⟨fuel', hfuel'⟩ := ih hshape' hmore hmore_nodup hmore_apart
      refine ⟨max fuel fuel', fun path rv hnone => ?_⟩
      have hfirst := defaultValue_refines (le_max_left fuel fuel') _ _ _ _ (hchild (path.push name child))
      rcases run_bind_eq_none.mp hnone with hnone | ⟨a, ha, hnone⟩
      · rw [hfirst] at hnone
        cases hnone
      · rw [hfirst] at ha
        cases ha
        obtain ⟨r, hr⟩ := Option.ne_none_iff_exists'.mp (hfuel' path (Json.insert rv name v))
        rw [List.flatten_append, List.flatten_singleton, List.reverse_append, List.append_assoc] at hr
        have hrest := defaultFields_refines
          (fun path seen type => defaultValue_refines (le_max_right fuel fuel') path seen type)
          _ _ _ _ _ hr
        rw [hrest] at hnone
        cases hnone
    · -- the child is refused, and so is the struct
      refine ⟨fuel, fun path rv hnone => ?_⟩
      rcases run_bind_eq_none.mp hnone with hnone | ⟨⟨v, mid⟩, ha, -⟩
      · exact hfuel _ hnone
      · obtain ⟨hv, l, hl, hl_nodup, hl_apart, -⟩ := (defaultValue_ok_iff _ _ _ _ _ _).mp ha
        exact hok ⟨v, l, hv, hl, hl_nodup, hl_apart⟩

/-- A call ends if all the calls that it makes do. -/
theorem ends_of_calls {call : DefaultCall}
    (hend : ∀ call', Calls p arena call call' → Ends p arena call') : Ends p arena call := by
  obtain ⟨seen, type⟩ := call
  by_cases hseen : type.name ∈ seen
  · refine ⟨1, fun path => ?_⟩
    show (defaultValue p arena (0 + 1) path seen type).run ≠ none
    rw [defaultValue_succ]
    split
    · rintro ⟨⟩
    · rw [if_pos hseen]
      rintro ⟨⟩
  · cases hshape : defaultShape p arena type with
    | value v =>
      refine ⟨1, fun path => ?_⟩
      show (defaultValue p arena (0 + 1) path seen type).run ≠ none
      rw [defaultValue_succ, hshape]
      rintro ⟨⟩
    | none message =>
      refine ⟨1, fun path => ?_⟩
      show (defaultValue p arena (0 + 1) path seen type).run ≠ none
      rw [defaultValue_succ, hshape]
      simp only [if_neg hseen]
      rintro ⟨⟩
    -- These three call the walk again, and are given one more than the fuel of that call.
    | struct fields =>
      have hnames : ([] : List (Str × ABI.ResolvedNode)).mapM (fun f => stretch p arena 0 f.2) =
          some [] := rfl
      obtain ⟨fuel, hfuel⟩ := fields_end hend hseen
        (show defaultShape p arena type = .struct ([] ++ fields) from hshape) hnames List.nodup_nil
        (List.disjoint_nil_left _)
      refine ⟨fuel + 1, fun path => ?_⟩
      show (defaultValue p arena (fuel + 1) path seen type).run ≠ none
      rw [defaultValue_succ, hshape]
      simp only [if_neg hseen]
      exact hfuel path []
    | variant inner =>
      obtain ⟨fuel, hfuel⟩ := hend _ (Calls.alternative hshape hseen)
      refine ⟨fuel + 1, fun path => ?_⟩
      show (defaultValue p arena (fuel + 1) path seen type).run ≠ none
      rw [defaultValue_succ, hshape]
      simp only [if_neg hseen]
      intro hnone
      rcases run_bind_eq_none.mp hnone with hnone | ⟨a, -, ⟨⟩⟩
      exact hfuel path hnone
    | ref target =>
      obtain ⟨fuel, hfuel⟩ := hend _ (Calls.target hshape hseen)
      refine ⟨fuel + 1, fun path => ?_⟩
      show (defaultValue p arena (fuel + 1) path seen type).run ≠ none
      rw [defaultValue_succ, hshape]
      simp only [if_neg hseen]
      exact fun hnone => hfuel _ (run_poppingPath_eq_none.mp hnone)

/-- **A call ends** exactly when it is not followed by calls without end. -/
theorem ends_iff_acc (call : DefaultCall) :
    Ends p arena call ↔ Acc (flip (Calls p arena)) call := by
  constructor
  · rintro ⟨fuel, hfuel⟩
    exact acc_of_run (hfuel [])
  · intro h
    induction h with
    | intro call _ ih => exact ends_of_calls (fun call' hcalls => ih call' hcalls)

/-! ## Returns -/

/-- The types of an arena; an index out of range stands for an empty node. -/
def Known (arena : ABI.Arena) (type : ABI.ResolvedNode) : Prop := type ∈ default :: arena

theorem known_node (arena : ABI.Arena) (i : ℕ) : Known arena (arena.node i) := by
  unfold ABI.Arena.node
  rcases Nat.lt_or_ge i arena.length with hi | hi
  · rw [List.getD_eq_getElem _ _ hi]
    exact List.mem_cons_of_mem _ (List.getElem_mem hi)
  · rw [List.getD_eq_default _ _ hi]
    exact List.mem_cons_self

/-- The parts of a type are known. -/
theorem known_of_shape (p : Platform) (arena : ABI.Arena) (type : ABI.ResolvedNode) :
    match defaultShape p arena type with
    | .struct fields => ∀ f ∈ fields, Known arena f.2
    | .variant inner => Known arena inner
    | .ref target => Known arena target
    | _ => True := by
  have hfields (fields : List (Str × ABI.ResolvedNode)) (h : arena.allFields type = some fields) :
      ∀ f ∈ fields, Known arena f.2 := by
    obtain ⟨indices, -, rfl⟩ := Option.map_eq_some_iff.mp h
    intro f hf
    obtain ⟨index, -, rfl⟩ := List.mem_map.mp hf
    exact known_node arena index.2
  unfold defaultShape
  by_cases harray : type.isArray = true
  · rw [if_pos harray]
    trivial
  by_cases hoptional : type.isOptional = true
  · rw [if_neg harray, if_pos hoptional]
    trivial
  rw [if_neg harray, if_neg hoptional]
  -- Every part is a node of the arena, reached through an index.
  rcases hf : type.fields with _ | fields
  · rcases type.variant with _ | _ | ⟨i, rest⟩
    · rcases type.ref with _ | ref
      · cases findBuiltin p type.name <;> trivial
      · cases findBuiltin p type.name <;> exact known_node arena ref
    · rcases type.ref with _ | ref
      · cases findBuiltin p type.name <;> trivial
      · cases findBuiltin p type.name <;> exact known_node arena ref
    · cases findBuiltin p type.name <;> exact known_node arena i
  · cases hall : arena.allFields type with
    | none => cases findBuiltin p type.name <;> trivial
    | some fields => cases findBuiltin p type.name <;> exact hfields fields hall

theorem calls_known {call call' : DefaultCall} (h : Calls p arena call call') :
    Known arena call'.2 := by
  cases h with
  | @field seen type child name before after n lists hshape hnew hnames hnodup hapart =>
    have hknown := known_of_shape p arena type
    rw [hshape] at hknown
    exact hknown (name, child) (by simp)
  | @alternative seen type inner hshape hnew =>
    have hknown := known_of_shape p arena type
    rw [hshape] at hknown
    exact hknown
  | @target seen type target hshape hnew =>
    have hknown := known_of_shape p arena type
    rw [hshape] at hknown
    exact hknown

/-- How many names of the arena a call has not seen. -/
def unseen (arena : ABI.Arena) (call : DefaultCall) : ℕ :=
  (((default :: arena).map (·.name)).toFinset \ call.1.toFinset).card

theorem unseen_lt {seen more : List Str} {type child : ABI.ResolvedNode} (htype : Known arena type)
    (hnew : type.name ∉ seen) (hmore : type.name :: seen ⊆ more) :
    unseen arena (more, child) < unseen arena (seen, type) := by
  refine Finset.card_lt_card (Finset.ssubset_iff_of_subset ?_ |>.mpr ⟨type.name, ?_, ?_⟩)
  · intro x hx
    rw [Finset.mem_sdiff] at hx ⊢
    refine ⟨hx.1, fun hseen => hx.2 ?_⟩
    exact List.mem_toFinset.mpr (hmore (List.mem_cons_of_mem _ (List.mem_toFinset.mp hseen)))
  · rw [Finset.mem_sdiff]
    exact ⟨List.mem_toFinset.mpr (List.mem_map_of_mem htype), fun h => hnew (List.mem_toFinset.mp h)⟩
  · rw [Finset.mem_sdiff, not_and_not_right]
    intro _
    exact List.mem_toFinset.mpr (hmore List.mem_cons_self)

/-- The names seen grow, but where a call starts over with the alternative of a variant. -/
theorem calls_unseen {call call' : DefaultCall} (hcall : Known arena call.2)
    (h : Calls p arena call call') (hnot : ¬ (call'.1 = [] ∧ Known arena call'.2)) :
    unseen arena call' < unseen arena call := by
  have hknown := calls_known h
  cases h with
  | field hshape hnew hnames hnodup hapart =>
    exact unseen_lt hcall hnew (List.subset_append_right _ _)
  | alternative hshape hnew => exact absurd ⟨rfl, hknown⟩ hnot
  | target hshape hnew => exact unseen_lt hcall hnew (List.Subset.refl _)

/-- **The call of a type ends** unless an alternative returns. -/
theorem ends_iff {type : ABI.ResolvedNode} (htype : Known arena type) :
    Ends p arena ([], type) ↔ ¬ Returns p arena type := by
  rw [ends_iff_acc]
  constructor
  · rintro hacc ⟨inner, hreach, hback⟩
    exact Descent.not_acc_of_return hreach hback hacc
  · intro hreturns
    have hfinite : Set.Finite {call : DefaultCall | call.1 = [] ∧ Known arena call.2} := by
      refine ((default :: arena).finite_toSet.image (fun t => (([], t) : DefaultCall))).subset ?_
      rintro ⟨seen, t⟩ ⟨rfl, ht⟩
      exact ⟨t, ht, rfl⟩
    have hgood : ∀ call call' : DefaultCall, Known arena call.2 → Calls p arena call call' →
        Known arena call'.2 := fun _ _ _ hcalls => calls_known hcalls
    refine Descent.acc_of_no_return hgood (fun _ _ => calls_unseen) hfinite htype ?_
    rintro ⟨seen, inner⟩ ⟨rfl, -⟩ hreach hback
    exact hreturns ⟨inner, hreach, hback⟩

end Termination

/-! ## Right defaults -/

section Right

variable (p : Platform) (arena : ABI.Arena)

/-- The computation of a default ends, and gives the finite default of the type, or an error
if it has none. -/
def DefaultRight (type : ABI.ResolvedNode) : Prop :=
  ∃ fuel result, (defaultValue p arena fuel [] [] type).run = some result ∧
    ∀ v, (∃ seen, result = .ok (v, seen)) ↔ ∃ n, finiteDefault p arena n type = some v

variable {p arena}

/-- A type whose names do not come twice gets its default. -/
theorem exists_default {type : ABI.ResolvedNode} (h : NoneTwice p arena type) :
    ∃ n v seen, finiteDefault p arena n type = some v ∧
      (defaultValue p arena n [] [] type).run = some (.ok (v, seen)) := by
  obtain ⟨n, names, hnames, hnodup⟩ := h
  obtain ⟨v, hv⟩ := exists_finiteDefault hnames
  exact ⟨n, v, _, hv, (defaultValue_ok_iff n [] [] type v _).mpr
    ⟨hv, names, hnames, hnodup, List.disjoint_nil_right _, rfl⟩⟩

theorem noneTwice_of_ok {fuel : ℕ} {type : ABI.ResolvedNode} {v : Json} {seen : List Str}
    (h : (defaultValue p arena fuel [] [] type).run = some (.ok (v, seen))) :
    NoneTwice p arena type := by
  obtain ⟨-, names, hnames, hnodup, -⟩ := (defaultValue_ok_iff fuel [] [] type v seen).mp h
  exact ⟨fuel, names, hnames, hnodup⟩

theorem right_node_iff {type : ABI.ResolvedNode} (htype : Known arena type) :
    DefaultRight p arena type ↔
      (HasDefault p arena type → NoneTwice p arena type) ∧ ¬ Returns p arena type := by
  constructor
  · rintro ⟨fuel, result, hrun, hright⟩
    constructor
    · rintro ⟨n, v, hv⟩
      obtain ⟨seen, rfl⟩ := (hright v).mpr ⟨n, hv⟩
      exact noneTwice_of_ok hrun
    · have hends : (defaultValue p arena fuel [] [] type).run ≠ none := by
        rw [hrun]
        exact Option.some_ne_none result
      have hacc : Acc (flip (Calls p arena)) ([], type) := acc_of_run hends
      exact (ends_iff htype).mp ((ends_iff_acc _).mpr hacc)
  · rintro ⟨htwice, hreturns⟩
    obtain ⟨fuel, hfuel⟩ := (ends_iff htype).mpr hreturns
    obtain ⟨result, hrun⟩ := Option.ne_none_iff_exists'.mp (hfuel [])
    refine ⟨fuel, result, hrun, fun v => ⟨?_, ?_⟩⟩
    · rintro ⟨seen, rfl⟩
      exact ⟨fuel, ((defaultValue_ok_iff fuel [] [] type v seen).mp hrun).1⟩
    · rintro ⟨n, hv⟩
      obtain ⟨m, w, seen, hw, hok⟩ := exists_default (htwice ⟨n, v, hv⟩)
      have hsame := finiteDefault_mono (le_max_left n m) hv
      rw [finiteDefault_mono (le_max_right n m) hw] at hsame
      cases hsame
      exact ⟨seen, defaultValue_unique hrun hok⟩

end Right

/-! ## Types of an ABI -/

/-- The default of a type name is right in its resolution. -/
def ABI.DefaultRight (p : Platform) (abi : ABI) (name : Str) : Prop :=
  Dwarfkit.DefaultRight p (abi.resolveType name).1
    ((abi.resolveType name).1.node (abi.resolveType name).2)

/-- In the default of a type name, if it has one, no name comes twice between two
variants. -/
def ABI.NoneTwice (p : Platform) (abi : ABI) (name : Str) : Prop :=
  HasDefault p (abi.resolveType name).1 ((abi.resolveType name).1.node (abi.resolveType name).2) →
    Dwarfkit.NoneTwice p (abi.resolveType name).1
      ((abi.resolveType name).1.node (abi.resolveType name).2)

/-- The default of a type name needs a variant's alternative for that alternative. -/
def ABI.Returns (p : Platform) (abi : ABI) (name : Str) : Prop :=
  Dwarfkit.Returns p (abi.resolveType name).1
    ((abi.resolveType name).1.node (abi.resolveType name).2)

/-- **Default values**: for every ABI and type name the computation ends and succeeds exactly
for a finite default, if and only if no name comes twice in a default and no alternative
returns. -/
theorem defaultRight_iff (p : Platform) (abi : ABI) (name : Str) :
    abi.DefaultRight p name ↔ abi.NoneTwice p name ∧ ¬ abi.Returns p name :=
  right_node_iff (known_node _ _)

/-- An error where there is a finite default. -/
theorem not_right_of_error {p : Platform} {arena : ABI.Arena} {type : ABI.ResolvedNode}
    {n fuel : ℕ} (hvalue : (finiteDefault p arena n type).isSome = true)
    (herror : ((defaultValue p arena fuel [] [] type).run.map Except.isOk) = some false) :
    ¬ DefaultRight p arena type := by
  rintro ⟨fuel', result, hrun, hright⟩
  obtain ⟨v, hv⟩ := Option.isSome_iff_exists.mp hvalue
  obtain ⟨seen, rfl⟩ := (hright v).mpr ⟨n, hv⟩
  obtain ⟨result', hrun', hbad⟩ := Option.map_eq_some_iff.mp herror
  obtain rfl := defaultValue_unique hrun hrun'
  cases hbad

/-- A struct with two fields of one struct type. -/
def pairABI : ABI where
  structs := [⟨"pair", "", [⟨"left", "leaf"⟩, ⟨"right", "leaf"⟩]⟩,
    ⟨"leaf", "", [⟨"value", "uint8"⟩]⟩]

/-- A variant whose first alternative holds the variant. -/
def chainABI : ABI where
  structs := [⟨"link", "", [⟨"next", "choice"⟩]⟩]
  variants := [⟨"choice", ["link", "uint8"]⟩]

/-- A struct with two fields of one struct type is called circular, and the default of a
variant that comes back through its first alternative does not end. -/
theorem default_fails :
    ¬ pairABI.DefaultRight default "pair" ∧ ¬ chainABI.DefaultRight default "choice" := by
  constructor
  · unfold ABI.DefaultRight
    exact @not_right_of_error _ _ _ 3 3 (by decide +kernel) (by decide +kernel)
  · have hresolve : chainABI.resolveType "choice" = ([
        { name := "choice", variant := some [1, 2] },
        { name := "link", fields := some [("next", 0)] },
        { name := "uint8" }], 0) := by decide +kernel
    unfold ABI.DefaultRight
    rw [hresolve]
    intro hright
    -- from the link to its field, and from there to the link again
    have hreturns := ((right_node_iff (known_node _ _)).mp hright).2
    refine hreturns ⟨_, .single (.alternative rfl List.not_mem_nil), ?_⟩
    apply Relation.TransGen.trans
    · exact .single (.first rfl List.not_mem_nil)
    · exact .single (.alternative rfl (by decide +kernel))

end Dwarfkit
