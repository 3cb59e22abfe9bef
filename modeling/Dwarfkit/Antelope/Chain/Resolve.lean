/-
# One call of `resolve`

What the context of a resolution answers after each of its steps, and what one call of
`ABI::resolve` does: a known name is answered at once, a new one is known before what it
stands for is resolved, and at the depth limit it is known and that is all.

* `resolve_new` : the body of one call, for a name that is not known yet.
-/
import Dwarfkit.Antelope.Chain.Abi

namespace Dwarfkit

namespace ABI

/-! ## Contexts -/

section Contexts

variable {ctx : ResolveContext}

/-- A value that a list does not have is at its end once it is added, and every other value is
where it was. -/
theorem getElem?_concat_iff {α : Type} {l : List α} {a : α} (ha : a ∉ l) (b : α) (k : ℕ) :
    (l ++ [a])[k]? = some b ↔ a = b ∧ l.length = k ∨ a ≠ b ∧ l[k]? = some b := by
  rcases Nat.lt_trichotomy k l.length with hlt | rfl | hgt
  · rw [List.getElem?_append_left hlt]
    constructor
    · intro hk
      have hmem : b ∈ l := List.mem_of_getElem? hk
      exact .inr ⟨fun hab => ha (hab ▸ hmem), hk⟩
    · rintro (⟨-, hk⟩ | ⟨-, hk⟩)
      · omega
      · exact hk
  · rw [List.getElem?_append_right le_rfl, Nat.sub_self]
    simp
  · rw [List.getElem?_eq_none (by simp; omega), List.getElem?_eq_none (by omega)]
    constructor
    · rintro ⟨⟩
    · rintro (⟨-, hk⟩ | ⟨-, hk⟩)
      · omega
      · cases hk

/-- What a context finds after a node was pushed. -/
theorem find_push (ctx : ResolveContext) (node : ResolvedNode) (name : Str) :
    (ctx.push node).find name =
      if node.typeName = name then some ctx.arena.length else ctx.find name := by
  unfold ResolveContext.push ResolveContext.find
  rw [List.find?_cons]
  by_cases h : node.typeName = name
  · simp [h]
  · simp [h]

/-- The new node, before it is completed. -/
theorem node_push {i : ℕ} (hi : ctx.arena.length = i) (node : ResolvedNode) :
    (ctx.push node).arena.node i = node := by
  show (ctx.arena ++ [node]).getD i default = _
  rw [← hi, List.getD_eq_getElem?_getD, List.getElem?_append_right le_rfl, Nat.sub_self]
  rfl

/-- The other nodes. -/
theorem node_push_of_lt (node : ResolvedNode) {k : ℕ} (hk : k < ctx.arena.length) :
    (ctx.push node).arena.node k = ctx.arena.node k := by
  show (ctx.arena ++ [node]).getD k default = ctx.arena.getD k default
  rw [List.getD_eq_getElem?_getD, List.getD_eq_getElem?_getD, List.getElem?_append_left hk]

/-- Completing a node keeps the others. -/
theorem node_update_of_ne (ctx : ResolveContext) {i k : ℕ} (hk : k ≠ i)
    (f : ResolvedNode → ResolvedNode) : (ctx.update i f).arena.node k = ctx.arena.node k := by
  show (ctx.arena.modify i f).getD k default = ctx.arena.getD k default
  rw [List.getD_eq_getElem?_getD, List.getD_eq_getElem?_getD,
    List.getElem?_modify_ne f _ (fun h => hk h.symm)]

theorem node_update {i : ℕ} (hi : i < ctx.arena.length) (f : ResolvedNode → ResolvedNode) :
    (ctx.update i f).arena.node i = f (ctx.arena.node i) := by
  show (ctx.arena.modify i f).getD i default = f (ctx.arena.getD i default)
  rw [List.getD_eq_getElem?_getD, List.getD_eq_getElem?_getD, List.getElem?_modify_eq,
    List.getElem?_eq_getElem hi]
  rfl

theorem update_id (ctx : ResolveContext) (i : ℕ) : ctx.update i id = ctx := by
  unfold ResolveContext.update
  rw [List.modify_id]

end Contexts

/-! ## Calls -/

section Calls

variable {abi : ABI} {ctx : ResolveContext}

/-- A known name is not resolved again. -/
theorem resolve_of_find {fuel : ℕ} {name : Str} {k : ℕ} (h : ctx.find name = some k) :
    (abi.resolve fuel name).run ctx = (k, ctx) := by
  rw [resolve.eq_def]
  simp only [StateT.run_bind, StateT.run_get, pure_bind, h]
  rfl

/-- The base of a struct. -/
def resolveBase (abi : ABI) (fuel : ℕ) (base : Str) : StateM ResolveContext (Option ℕ) :=
  if base = [] then pure none else some <$> abi.resolve fuel base

/-- A field of a struct. -/
def resolveField (abi : ABI) (fuel : ℕ) (field : Field) : StateM ResolveContext (Str × ℕ) := do
  let t ← abi.resolve fuel field.type
  return (field.name, t)

/-- **A new name** is known before what it stands for is resolved. -/
theorem resolve_new {fuel : ℕ} {name : Str} (h : ctx.find name = none) :
    (abi.resolve (fuel + 1) name).run ctx =
      (ctx.arena.length,
        match abi.types.find? (fun e => e.new_type_name = (ResolvedNode.parse name).name) with
        | some typeDef =>
          let (ref, ctx') := (abi.resolve fuel typeDef.type).run
            (ctx.push (ResolvedNode.parse name))
          ctx'.update ctx.arena.length (fun node => { node with ref := some ref })
        | none =>
          match abi.getStruct (ResolvedNode.parse name).name with
          | some entry =>
            let (base, ctx') := (resolveBase abi fuel entry.base).run
              (ctx.push (ResolvedNode.parse name))
            let (fields, ctx'') := (entry.fields.mapM (resolveField abi fuel)).run ctx'
            ctx''.update ctx.arena.length (fun node => { node with base, fields := some fields })
          | none =>
            match abi.getVariant (ResolvedNode.parse name).name with
            | some entry =>
              let (variant, ctx') := (entry.types.mapM (abi.resolve fuel)).run
                (ctx.push (ResolvedNode.parse name))
              ctx'.update ctx.arena.length (fun node => { node with variant := some variant })
            | none => ctx.push (ResolvedNode.parse name)) := by
  rw [resolve.eq_def]
  simp only [StateT.run_bind, StateT.run_get, pure_bind, h]
  cases htypes : abi.types.find? (fun e => e.new_type_name = (ResolvedNode.parse name).name) with
  | some typeDef => rfl
  | none =>
    cases hstruct : abi.getStruct (ResolvedNode.parse name).name with
    | some entry =>
      simp only
      -- A struct without a base resolves nothing for it.
      unfold resolveBase
      by_cases hbase : entry.base = []
      · rw [if_pos hbase, if_pos hbase]
        rfl
      · rw [if_neg hbase, if_neg hbase]
        rfl
    | none =>
      cases hvariant : abi.getVariant (ResolvedNode.parse name).name with
      | some entry => rfl
      | none => rfl

/-- At the depth limit a new name is known, and that is all. -/
theorem resolve_zero {name : Str} (h : ctx.find name = none) :
    (abi.resolve 0 name).run ctx = (ctx.arena.length, ctx.push (ResolvedNode.parse name)) := by
  rw [resolve.eq_def]
  simp only [StateT.run_bind, StateT.run_get, pure_bind, h]
  rfl

end Calls

end ABI

end Dwarfkit
