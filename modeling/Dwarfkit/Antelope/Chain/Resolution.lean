/-
# Resolved type names

What `ABI::resolve` comes to for an arbitrary ABI.  It searches the type strings depth
first: the nodes of the arena stand for the strings the search lists, one node for a string,
and each points to the nodes of the strings that its meaning in the ABI mentions, unless it
was met at the depth limit.

* `resolve_meets` : one call and the depth-limited search.
-/
import Dwarfkit.Antelope.Chain.Resolve
import Dwarfkit.Library.DepthLimited

namespace Dwarfkit

open DepthLimited

namespace ABI

/-- A type string that its node gives back as it was written. -/
def Canonical (name : Str) : Prop := (ResolvedNode.parse name).typeName = name

/-! ## What a type string mentions -/

section Parts

variable (abi : ABI)

/-- The type strings that the meaning of a name without suffixes mentions, in the order
`resolve` goes on to them. -/
def partsOf (name : Str) : List Str :=
  match abi.types.find? (fun e => e.new_type_name = name) with
  | some typeDef => [typeDef.type]
  | none =>
    match abi.getStruct name with
    | some entry =>
      (if entry.base = [] then [] else [entry.base]) ++ entry.fields.map (fun f => f.type)
    | none =>
      match abi.getVariant name with
      | some entry => entry.types
      | none => []

/-- The type strings a type string mentions. -/
def parts (name : Str) : List Str := abi.partsOf (ResolvedNode.parse name).name

/-- One type string mentions another. -/
def Mentions (s t : Str) : Prop := t ∈ abi.parts s

/-- All type strings linked to one by no more than `n` mentions are canonical. -/
def CanonicalWithin (n : ℕ) (name : Str) : Prop :=
  ∀ m ≤ n, ∀ s, Links abi.Mentions name m s → Canonical s

/-- `node` is `bare` with the meaning of its name: a type definition before a struct, a struct
before a variant, and nothing for any other name.  `R` says which type string a pointer
stands for. -/
def Means (R : ℕ → Str → Prop) (bare node : ResolvedNode) : Prop :=
  match abi.types.find? (fun e => e.new_type_name = bare.name) with
  | some typeDef => ∃ ref, node = { bare with ref := some ref } ∧ R ref typeDef.type
  | none =>
    match abi.getStruct bare.name with
    | some entry =>
      ∃ base fields, node = { bare with base, fields := some fields } ∧
        (if entry.base = [] then base = none else ∃ k, base = some k ∧ R k entry.base) ∧
        List.Forall₂ (fun (f : Field) f' => f'.1 = f.name ∧ R f'.2 f.type) entry.fields fields
    | none =>
      match abi.getVariant bare.name with
      | some entry =>
        ∃ variant, node = { bare with variant := some variant } ∧
          List.Forall₂ (fun type k => R k type) entry.types variant
      | none => node = bare

/-- What a complete node of a type string holds: the suffixes of the string, and pointers to
the nodes of what it mentions. -/
def Complete (names : List Str) (name : Str) (node : ResolvedNode) : Prop :=
  abi.Means (fun k s => names[k]? = some s) (ResolvedNode.parse name) node

/-- The context knows the nodes of a listing by its strings. -/
structure Knows (ctx : ResolveContext) (met : List (Str × Bool)) : Prop where
  length : ctx.arena.length = met.length
  find : ∀ name k, ctx.find name = some k ↔ (met.map Prod.fst)[k]? = some name

/-- What the node of a listed string holds: all of its meaning, or nothing of it if the
string was met at the limit. -/
def Settled (met : List (Str × Bool)) (name : Str) (flag : Bool) (node : ResolvedNode) : Prop :=
  if flag then abi.Complete (met.map Prod.fst) name node else node = ResolvedNode.parse name

/-- From `ctx` on to `ctx'`: what was there is untouched, and what is new is settled. -/
structure Reaches (ctx : ResolveContext) (met : List (Str × Bool)) (ctx' : ResolveContext)
    (met' : List (Str × Bool)) : Prop where
  extends_ : met <+: met'
  knows : Knows ctx' met'
  kept : ∀ k < met.length, ctx'.arena.node k = ctx.arena.node k
  settled : ∀ k name flag, met.length ≤ k → met'[k]? = some (name, flag) →
    abi.Settled met' name flag (ctx'.arena.node k)

end Parts

/-! ## Contexts -/

section Contexts

variable {abi : ABI} {names : List Str} {met met' met'' : List (Str × Bool)}
  {ctx ctx' ctx'' : ResolveContext}

/-- A position of a list is one of a longer list. -/
theorem getElem?_append {α : Type} {l : List α} {k : ℕ} {a : α} (h : l[k]? = some a)
    (new : List α) : (l ++ new)[k]? = some a := by
  obtain ⟨hk, -⟩ := List.getElem?_eq_some_iff.mp h
  rw [List.getElem?_append_left hk, h]

/-- The string at a position of a listing is the one at that position of a longer one. -/
theorem getElem?_names (h : met <+: met') {k : ℕ} {name : Str}
    (hk : (met.map Prod.fst)[k]? = some name) : (met'.map Prod.fst)[k]? = some name := by
  obtain ⟨new, rfl⟩ := h
  rw [List.map_append]
  exact getElem?_append hk _

/-- A meaning is one for any weaker reading of the pointers. -/
theorem Means.imp {R R' : ℕ → Str → Prop} (hR : ∀ k s, R k s → R' k s) {bare node : ResolvedNode}
    (h : abi.Means R bare node) : abi.Means R' bare node := by
  unfold Means at h ⊢
  split at h
  · obtain ⟨ref, hnode, href⟩ := h
    exact ⟨ref, hnode, hR _ _ href⟩
  · split at h
    · rename_i entry _
      obtain ⟨base, fields, hnode, hbase, hfields⟩ := h
      refine ⟨base, fields, hnode, ?_, hfields.imp (fun _ _ hf => ⟨hf.1, hR _ _ hf.2⟩)⟩
      by_cases hempty : entry.base = []
      · rw [if_pos hempty] at hbase ⊢
        exact hbase
      · rw [if_neg hempty] at hbase ⊢
        obtain ⟨k, hk, hname⟩ := hbase
        exact ⟨k, hk, hR _ _ hname⟩
    · split at h
      · obtain ⟨variant, hnode, hvariant⟩ := h
        exact ⟨variant, hnode, hvariant.imp (fun _ _ hf => hR _ _ hf)⟩
      · exact h

/-- A complete node stays complete. -/
theorem Complete.append {name : Str} {node : ResolvedNode} (h : abi.Complete names name node)
    (new : List Str) : abi.Complete (names ++ new) name node :=
  Means.imp (fun _ _ hk => getElem?_append hk new) h

/-- A settled node stays settled. -/
theorem Settled.mono {name : Str} {flag : Bool} {node : ResolvedNode}
    (h : abi.Settled met name flag node) (hmet : met <+: met') :
    abi.Settled met' name flag node := by
  obtain ⟨new, rfl⟩ := hmet
  cases flag with
  | false => exact h
  | true =>
    show abi.Complete ((met ++ new).map Prod.fst) name node
    rw [List.map_append]
    exact Complete.append h _

theorem Reaches.refl (h : Knows ctx met) : abi.Reaches ctx met ctx met where
  extends_ := List.prefix_rfl
  knows := h
  kept _ _ := rfl
  settled k name flag hk hname := by
    obtain ⟨hlt, -⟩ := List.getElem?_eq_some_iff.mp hname
    omega

theorem Reaches.trans (h : abi.Reaches ctx met ctx' met') (h' : abi.Reaches ctx' met' ctx'' met'') :
    abi.Reaches ctx met ctx'' met'' := by
  have hle : met.length ≤ met'.length := h.extends_.length_le
  refine ⟨h.extends_.trans h'.extends_, h'.knows, ?_, ?_⟩
  · intro k hk
    rw [h'.kept k (by omega), h.kept k hk]
  · intro k name flag hk hname
    by_cases hmid : k < met'.length
    · have hname' : met'[k]? = some (name, flag) := by
        obtain ⟨new, hnew⟩ := h'.extends_
        rwa [← hnew, List.getElem?_append_left hmid] at hname
      rw [h'.kept k hmid]
      exact (h.settled k name flag hk hname').mono h'.extends_
    · exact h'.settled k name flag (not_lt.mp hmid) hname

theorem Reaches.pointsTo (h : abi.Reaches ctx met ctx' met') {k : ℕ} {name : Str}
    (hname : (met.map Prod.fst)[k]? = some name) : (met'.map Prod.fst)[k]? = some name :=
  getElem?_names h.extends_ hname

/-- A string that the context does not know is not found. -/
theorem Knows.find_eq_none (h : Knows ctx met) {name : Str} (hname : name ∉ met.map Prod.fst) :
    ctx.find name = none := by
  rw [Option.eq_none_iff_forall_not_mem]
  intro k hk
  exact hname (List.mem_of_getElem? ((h.find name k).mp hk))

/-- Before a resolution nothing is known. -/
theorem knows_empty : Knows {} [] := by
  refine ⟨rfl, fun name k => ?_⟩
  constructor
  · intro h
    cases h
  · intro h
    cases h

/-- A new node, known by its type string. -/
theorem Knows.push (h : Knows ctx met) {name : Str} (hcanonical : Canonical name)
    (hname : name ∉ met.map Prod.fst) (flag : Bool) :
    Knows (ctx.push (ResolvedNode.parse name)) (met ++ [(name, flag)]) := by
  have hlength : ctx.arena.length = (met.map Prod.fst).length := by rw [h.length, List.length_map]
  refine ⟨?_, ?_⟩
  · show (ctx.arena ++ [ResolvedNode.parse name]).length = _
    rw [List.length_append, List.length_append, h.length]
    rfl
  · intro other k
    rw [find_push, hcanonical, List.map_append, List.map_cons, List.map_nil,
      getElem?_concat_iff hname]
    by_cases hother : name = other
    · simp [hother, hlength]
    · simp [hother, h.find other k]

/-- **A node is settled** once what it mentions is resolved: from before its push to after
its update. -/
theorem Reaches.complete_new (h : Knows ctx met) {name : Str} {flag : Bool}
    (hparts : abi.Reaches (ctx.push (ResolvedNode.parse name)) (met ++ [(name, flag)]) ctx' met')
    {f : ResolvedNode → ResolvedNode}
    (hsettled : abi.Settled met' name flag (f (ResolvedNode.parse name))) :
    abi.Reaches ctx met (ctx'.update met.length f) met' := by
  obtain ⟨new, hnew⟩ := hparts.extends_
  have hlen : met.length < ctx'.arena.length := by
    rw [hparts.knows.length, ← hnew]
    simp only [List.length_append, List.length_singleton]
    omega
  refine ⟨⟨[(name, flag)] ++ new, by rw [← hnew, List.append_assoc]⟩, ⟨?_, hparts.knows.find⟩,
    ?_, ?_⟩
  · show (ctx'.arena.modify met.length f).length = _
    rw [List.length_modify, hparts.knows.length]
  · intro k hk
    rw [node_update_of_ne ctx' (by omega), hparts.kept k (by simp; omega), node_push_of_lt _ (by rw [h.length]; exact hk)]
  · intro k other flag' hk hother
    -- The node itself is completed here; those after it were settled when they were resolved.
    by_cases hnode : k = met.length
    · subst hnode
      have hsame : (other, flag') = (name, flag) := by
        have hname : met'[met.length]? = some (name, flag) := by
          rw [← hnew, List.getElem?_append_left (by simp), List.getElem?_append_right le_rfl,
            Nat.sub_self]
          rfl
        exact Option.some.inj (hother.symm.trans hname)
      cases hsame
      rw [node_update hlen, hparts.kept met.length (by simp), node_push h.length _]
      exact hsettled
    · rw [node_update_of_ne ctx' hnode]
      exact hparts.settled k other flag' (by simp; omega) hother

end Contexts

/-! ## Resolution -/

section Resolve

variable {abi : ABI} {met : List (Str × Bool)} {ctx : ResolveContext}

/-- What a call of `resolve` comes to: the search from its name, and the node of the name. -/
def Resolves (abi : ABI) (fuel : ℕ) (name : Str) : Prop :=
  ∀ ctx met, Knows ctx met →
    abi.Reaches ctx met ((abi.resolve fuel name).run ctx).2 (meet abi.parts fuel met name) ∧
      ((meet abi.parts fuel met name).map Prod.fst)[((abi.resolve fuel name).run ctx).1]? =
        some name

/-- A list is resolved one by one. -/
theorem mapM_reaches {β γ : Type} {f : β → StateM ResolveContext γ} {type : β → Str} {fuel : ℕ}
    {R : List Str → β → γ → Prop} (happend : ∀ names b c new, R names b c → R (names ++ new) b c)
    {l : List β}
    (hf : ∀ b ∈ l, ∀ ctx met, Knows ctx met →
      abi.Reaches ctx met ((f b).run ctx).2 (meet abi.parts fuel met (type b)) ∧
        R ((meet abi.parts fuel met (type b)).map Prod.fst) b ((f b).run ctx).1)
    (hknows : Knows ctx met) :
    abi.Reaches ctx met ((l.mapM f).run ctx).2 ((l.map type).foldl (meet abi.parts fuel) met) ∧
      List.Forall₂ (R (((l.map type).foldl (meet abi.parts fuel) met).map Prod.fst)) l
        ((l.mapM f).run ctx).1 := by
  induction l generalizing ctx met with
  | nil => exact ⟨.refl hknows, .nil⟩
  | cons b l ih =>
    obtain ⟨hb, hR⟩ := hf b (by simp) ctx met hknows
    obtain ⟨hl, hRs⟩ := ih (fun b' hb' => hf b' (by simp [hb'])) hb.knows
    obtain ⟨new, hnew⟩ := hl.extends_
    have hrun : ((b :: l).mapM f).run ctx =
        (((f b).run ctx).1 :: ((l.mapM f).run ((f b).run ctx).2).1,
          ((l.mapM f).run ((f b).run ctx).2).2) := by
      rw [List.mapM_cons]
      rfl
    rw [hrun, List.map_cons, List.foldl_cons]
    refine ⟨hb.trans hl, .cons ?_ hRs⟩
    rw [← hnew, List.map_append]
    exact happend _ b _ _ hR

/-- The base is resolved if there is one. -/
theorem resolveBase_reaches {fuel : ℕ} {base : Str}
    (hbase : base ≠ [] → Resolves abi fuel base) (hknows : Knows ctx met) :
    abi.Reaches ctx met ((resolveBase abi fuel base).run ctx).2
        ((if base = [] then [] else [base]).foldl (meet abi.parts fuel) met) ∧
      if base = [] then ((resolveBase abi fuel base).run ctx).1 = none
      else ∃ k, ((resolveBase abi fuel base).run ctx).1 = some k ∧
        (((if base = [] then [] else [base]).foldl (meet abi.parts fuel) met).map Prod.fst)[k]? =
          some base := by
  unfold resolveBase
  by_cases hempty : base = []
  · simp only [if_pos hempty]
    exact ⟨.refl hknows, rfl⟩
  · simp only [if_neg hempty]
    obtain ⟨hreaches, hpoints⟩ := hbase hempty ctx met hknows
    exact ⟨hreaches, _, rfl, hpoints⟩

/-- A string that is new: its node is pushed, what it mentions is resolved, and it is
completed. -/
theorem resolves_new {fuel : ℕ} {name : Str} (hcanonical : Canonical name)
    (hparts : ∀ s ∈ abi.parts name, Resolves abi fuel s) (hknows : Knows ctx met)
    (hnew : name ∉ met.map Prod.fst) :
    abi.Reaches ctx met ((abi.resolve (fuel + 1) name).run ctx).2
        (meet abi.parts (fuel + 1) met name) ∧
      ((meet abi.parts (fuel + 1) met name).map Prod.fst)[
        ((abi.resolve (fuel + 1) name).run ctx).1]? = some name := by
  have hpushed := hknows.push hcanonical hnew true
  have hself : ((met ++ [(name, true)]).map Prod.fst)[met.length]? = some name := by
    rw [List.getElem?_map, List.getElem?_append_right le_rfl, Nat.sub_self]
    rfl
  rw [resolve_new (hknows.find_eq_none hnew), hknows.length, meet_succ hnew]
  -- The cases are those of the source: an alias, a struct, a variant, or nothing to follow.
  unfold parts partsOf at hparts ⊢
  cases htypes : abi.types.find? (fun e => e.new_type_name = (ResolvedNode.parse name).name) with
  | some typeDef =>
    simp only [htypes] at hparts ⊢
    obtain ⟨hreaches, hpoints⟩ := hparts typeDef.type (by simp) _ _ hpushed
    refine ⟨Reaches.complete_new hknows hreaches ?_, hreaches.pointsTo hself⟩
    show abi.Complete _ _ _
    unfold Complete Means
    simp only [htypes]
    exact ⟨_, rfl, hpoints⟩
  | none =>
    simp only [htypes] at hparts ⊢
    cases hstruct : abi.getStruct (ResolvedNode.parse name).name with
    | some entry =>
      simp only [hstruct] at hparts ⊢
      rw [List.foldl_append]
      have hbaseParts : entry.base ≠ [] → Resolves abi fuel entry.base := by
        intro hbase
        exact hparts entry.base (by simp [hbase])
      -- The base comes before the fields, and what it pointed to stays where it is.
      obtain ⟨hbase, hbaseName⟩ := resolveBase_reaches hbaseParts hpushed
      obtain ⟨hfields, hpoints⟩ := mapM_reaches
        (f := resolveField abi fuel)
        (R := fun names (f : Field) (f' : Str × ℕ) => f'.1 = f.name ∧ names[f'.2]? = some f.type)
        (fun _ _ _ new h => ⟨h.1, getElem?_append h.2 new⟩) (l := entry.fields)
        (fun field hfield ctx met hknows => by
          obtain ⟨hreaches, hpoints⟩ := hparts field.type
            (List.mem_append_right _ (List.mem_map_of_mem hfield)) ctx met hknows
          exact ⟨hreaches, rfl, hpoints⟩)
        hbase.knows
      refine ⟨Reaches.complete_new hknows (hbase.trans hfields) ?_,
        (hbase.trans hfields).pointsTo hself⟩
      show abi.Complete _ _ _
      unfold Complete Means
      simp only [htypes, hstruct]
      refine ⟨_, _, rfl, ?_, hpoints⟩
      by_cases hempty : entry.base = []
      · rw [if_pos hempty] at hbaseName ⊢
        exact hbaseName
      · rw [if_neg hempty] at hbaseName ⊢
        obtain ⟨k, hk, hname⟩ := hbaseName
        exact ⟨k, hk, hfields.pointsTo hname⟩
    | none =>
      simp only [hstruct] at hparts ⊢
      cases hvariant : abi.getVariant (ResolvedNode.parse name).name with
      | some entry =>
        simp only [hvariant] at hparts ⊢
        obtain ⟨hreaches, hpoints⟩ := mapM_reaches
          (f := abi.resolve fuel) (R := fun names s k => names[k]? = some s)
          (fun _ _ _ new h => getElem?_append h new) (l := entry.types)
          (fun s hs ctx met hknows => hparts s hs ctx met hknows) hpushed
        rw [List.map_id'] at hreaches hpoints
        refine ⟨Reaches.complete_new hknows hreaches ?_, hreaches.pointsTo hself⟩
        show abi.Complete _ _ _
        unfold Complete Means
        simp only [htypes, hstruct, hvariant]
        exact ⟨_, rfl, hpoints⟩
      | none =>
        have hcomplete : abi.Complete ((met ++ [(name, true)]).map Prod.fst) name
            (id (ResolvedNode.parse name)) := by
          unfold Complete Means
          simp only [htypes, hstruct, hvariant]
          rfl
        have hreaches := Reaches.complete_new hknows (.refl hpushed) hcomplete
        rw [update_id] at hreaches
        exact ⟨hreaches, hself⟩

/-- At the depth limit a new string is listed and nothing else. -/
theorem resolves_limit {name : Str} (hcanonical : Canonical name) (hknows : Knows ctx met)
    (hnew : name ∉ met.map Prod.fst) :
    abi.Reaches ctx met ((abi.resolve 0 name).run ctx).2 (meet abi.parts 0 met name) ∧
      ((meet abi.parts 0 met name).map Prod.fst)[((abi.resolve 0 name).run ctx).1]? =
        some name := by
  have hpushed := hknows.push hcanonical hnew false
  have hself : ((met ++ [(name, false)]).map Prod.fst)[met.length]? = some name := by
    rw [List.getElem?_map, List.getElem?_append_right le_rfl, Nat.sub_self]
    rfl
  rw [resolve_zero (hknows.find_eq_none hnew), hknows.length, meet_zero hnew]
  have hreaches := @Reaches.complete_new abi _ _ _ _ hknows _ _ (.refl hpushed) id rfl
  rw [update_id] at hreaches
  exact ⟨hreaches, hself⟩

/-- What a canonical string mentions is canonical for one link less. -/
theorem CanonicalWithin.part {fuel : ℕ} {name s : Str} (h : abi.CanonicalWithin (fuel + 1) name)
    (hs : s ∈ abi.parts name) : abi.CanonicalWithin fuel s :=
  fun m hm t ht => h (m + 1) (by omega) t (.head hs ht)

/-- **One call of `resolve`** is the depth-limited search from its name, where the strings
within the limit are canonical. -/
theorem resolve_meets (fuel : ℕ) {name : Str} (hcanonical : abi.CanonicalWithin fuel name) :
    Resolves abi fuel name := by
  induction fuel generalizing name with
  | zero =>
    intro ctx met hknows
    by_cases hmem : name ∈ met.map Prod.fst
    · obtain ⟨k, hk⟩ := List.mem_iff_getElem?.mp hmem
      rw [resolve_of_find ((hknows.find name k).mpr hk), meet_of_mem hmem]
      exact ⟨.refl hknows, hk⟩
    · exact resolves_limit (hcanonical 0 le_rfl name .here) hknows hmem
  | succ fuel ih =>
    intro ctx met hknows
    by_cases hmem : name ∈ met.map Prod.fst
    · obtain ⟨k, hk⟩ := List.mem_iff_getElem?.mp hmem
      rw [resolve_of_find ((hknows.find name k).mpr hk), meet_of_mem hmem]
      exact ⟨.refl hknows, hk⟩
    · exact resolves_new (hcanonical 0 (by omega) name .here)
        (fun s hs => ih (hcanonical.part hs)) hknows hmem

end Resolve

end ABI

end Dwarfkit
