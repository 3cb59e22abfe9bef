/-
# The graph of a resolved type

When every node of a resolution within the depth limit denotes what its name means.  The
condition speaks of type strings: none of them is read as another type, and none with a
meaning is met first at the limit although it lies nearer to the root.

* `ResolvesWithin.clear`, `Clear.resolvesWithin` : the two directions;
* `lateChain_not_resolvesWithin` : an ABI whose chain of types is met before a field nearby.
-/
import Dwarfkit.Antelope.Chain.TypeNames

namespace Dwarfkit

open DepthLimited

namespace ABI

/-! ## The graph -/

/-- A node without what its name stands for. -/
def ResolvedNode.head (node : ResolvedNode) : ResolvedNode :=
  { node with base := none, fields := none, variant := none, ref := none }

/-- The pointers of a node. -/
def ResolvedNode.targets (node : ResolvedNode) : List ℕ :=
  node.ref.toList ++ node.base.toList ++ (node.fields.getD []).map Prod.snd ++
    node.variant.getD []

/-- A node points to another. -/
def Arena.Points (arena : Arena) (i j : ℕ) : Prop := j ∈ (arena.node i).targets

/-- A node carries a type string: it has its name and suffixes, and its type name. -/
def Arena.StandsFor (arena : Arena) (i : ℕ) (name : Str) : Prop :=
  i < arena.length ∧ (arena.node i).head = ResolvedNode.parse name ∧
    (arena.node i).typeName = name

/-- A node denotes what its name means. -/
def Denotes (abi : ABI) (arena : Arena) (node : ResolvedNode) : Prop :=
  abi.Means arena.StandsFor node.head node

/-- The root carries the type string that was asked for, and every node within the depth
limit denotes what its name means. -/
def ResolvesWithin (abi : ABI) (root : Str) : Prop :=
  (abi.resolveType root).1.StandsFor (abi.resolveType root).2 root ∧
    ∀ n i, n < maxResolveDepth →
      Links (abi.resolveType root).1.Points (abi.resolveType root).2 n i →
      abi.Denotes (abi.resolveType root).1 ((abi.resolveType root).1.node i)

/-! ## The condition -/

/-- A name without suffixes that the ABI gives a meaning to. -/
def HasMeaning (abi : ABI) (name : Str) : Prop :=
  (abi.types.find? (fun e => e.new_type_name = name)).isSome ∨ (abi.getStruct name).isSome ∨
    (abi.getVariant name).isSome

/-- The depth-first search through the type strings from `root` first meets `name` at the
depth limit. -/
def MetAtLimit (abi : ABI) (root name : Str) : Prop :=
  (name, false) ∈ meet abi.parts maxResolveDepth [] root

/-- No type string within the limit is read as another type, and no type string with a
meaning that is met first at the limit has a chain of fewer mentions from the root. -/
structure Clear (abi : ABI) (root : Str) : Prop where
  faithful : ∀ n name, n ≤ maxResolveDepth → Links abi.Mentions root n name → ¬ Misread name
  limit : ∀ name, abi.MetAtLimit root name → abi.HasMeaning (ResolvedNode.parse name).name →
    ∀ n, Links abi.Mentions root n name → maxResolveDepth ≤ n

section Meanings

/-- What stands on the right of related lists is related to something on the left. -/
theorem exists_left_of_forall₂ {α β : Type} {r : α → β → Prop} {l : List α} {l' : List β}
    (h : List.Forall₂ r l l') {b : β} (hb : b ∈ l') : ∃ a ∈ l, r a b := by
  induction h with
  | nil => cases hb
  | cons hr _ ih =>
    rcases List.mem_cons.mp hb with rfl | hb
    · exact ⟨_, List.mem_cons_self, hr⟩
    · obtain ⟨a, ha, hab⟩ := ih hb
      exact ⟨a, List.mem_cons_of_mem _ ha, hab⟩

/-- What stands on the left is related to something on the right. -/
theorem exists_right_of_forall₂ {α β : Type} {r : α → β → Prop} {l : List α} {l' : List β}
    (h : List.Forall₂ r l l') {a : α} (ha : a ∈ l) : ∃ b ∈ l', r a b := by
  obtain ⟨b, hb, hr⟩ := exists_left_of_forall₂ h.flip ha
  exact ⟨b, hb, hr⟩

variable {abi : ABI} {R : ℕ → Str → Prop} {bare node : ResolvedNode}

/-- The pointers of a meaning go to what the name mentions. -/
theorem Means.targets (h : abi.Means R bare node) (hbare : bare.head = bare) {j : ℕ}
    (hj : j ∈ node.targets) : ∃ t ∈ abi.partsOf bare.name, R j t := by
  have hplain : bare.targets = [] := by
    rw [← hbare]
    rfl
  have hbase : bare.base = none := by rw [← hbare]; rfl
  have hfields : bare.fields = none := by rw [← hbare]; rfl
  have hvariant : bare.variant = none := by rw [← hbare]; rfl
  have href : bare.ref = none := by rw [← hbare]; rfl
  unfold Means at h
  unfold partsOf
  -- The pointers a node has are those of its kind: the bare node brings none along.
  split at h
  · obtain ⟨ref, rfl, hR⟩ := h
    rename_i typeDef _
    refine ⟨typeDef.type, by simp, ?_⟩
    have hjr : j = ref := by
      simpa [ResolvedNode.targets, hbase, hfields, hvariant] using hj
    rwa [hjr]
  · split at h
    · rename_i entry _
      obtain ⟨base, fields, rfl, hstructBase, hstructFields⟩ := h
      have hj' : base = some j ∨ j ∈ fields.map Prod.snd := by
        simpa [ResolvedNode.targets, href, hvariant] using hj
      rcases hj' with rfl | hj'
      · by_cases hempty : entry.base = []
        · rw [if_pos hempty] at hstructBase
          cases hstructBase
        · rw [if_neg hempty] at hstructBase
          obtain ⟨k, hk, hname⟩ := hstructBase
          cases hk
          exact ⟨entry.base, by simp [hempty], hname⟩
      · obtain ⟨f', hf', rfl⟩ := List.mem_map.mp hj'
        obtain ⟨f, hf, -, hname⟩ := exists_left_of_forall₂ hstructFields hf'
        exact ⟨f.type, List.mem_append_right _ (List.mem_map_of_mem hf), hname⟩
    · split at h
      · rename_i entry _
        obtain ⟨variant, rfl, htypes⟩ := h
        have hj' : j ∈ variant := by
          simpa [ResolvedNode.targets, href, hbase, hfields] using hj
        obtain ⟨t, ht, hname⟩ := exists_left_of_forall₂ htypes hj'
        exact ⟨t, ht, hname⟩
      · rw [h, hplain] at hj
        cases hj

/-- Everything the name mentions is pointed to. -/
theorem Means.mentions (h : abi.Means R bare node) {t : Str} (ht : t ∈ abi.partsOf bare.name) :
    ∃ j ∈ node.targets, R j t := by
  unfold Means at h
  unfold partsOf at ht
  cases htypes : abi.types.find? (fun e => e.new_type_name = bare.name) with
  | some typeDef =>
    simp only [htypes] at h ht
    obtain ⟨ref, rfl, hR⟩ := h
    rw [List.mem_singleton.mp ht]
    exact ⟨ref, by simp [ResolvedNode.targets], hR⟩
  | none =>
    simp only [htypes] at h ht
    cases hstruct : abi.getStruct bare.name with
    | some entry =>
      simp only [hstruct] at h ht
      obtain ⟨base, fields, rfl, hstructBase, hstructFields⟩ := h
      rcases List.mem_append.mp ht with ht | ht
      · by_cases hempty : entry.base = []
        · rw [if_pos hempty] at ht
          cases ht
        · rw [if_neg hempty] at ht hstructBase
          obtain ⟨k, rfl, hname⟩ := hstructBase
          rw [List.mem_singleton.mp ht]
          exact ⟨k, by simp [ResolvedNode.targets], hname⟩
      · obtain ⟨f, hf, rfl⟩ := List.mem_map.mp ht
        obtain ⟨f', hf', -, hname⟩ := exists_right_of_forall₂ hstructFields hf
        refine ⟨f'.2, ?_, hname⟩
        unfold ResolvedNode.targets
        exact List.mem_append_left _ (List.mem_append_right _ (List.mem_map_of_mem hf'))
    | none =>
      simp only [hstruct] at h ht
      cases hvariant : abi.getVariant bare.name with
      | some entry =>
        simp only [hvariant] at h ht
        obtain ⟨variant, rfl, htypes⟩ := h
        obtain ⟨j, hj, hname⟩ := exists_right_of_forall₂ htypes ht
        exact ⟨j, List.mem_append_right _ hj, hname⟩
      | none =>
        simp only [hvariant] at ht
        cases ht

/-- A meaning leaves the name and the suffixes alone. -/
theorem Means.head (h : abi.Means R bare node) (hbare : bare.head = bare) : node.head = bare := by
  unfold Means at h
  split at h
  · obtain ⟨ref, rfl, -⟩ := h
    exact hbare
  · split at h
    · obtain ⟨base, fields, rfl, -⟩ := h
      exact hbare
    · split at h
      · obtain ⟨variant, rfl, -⟩ := h
        exact hbare
      · rw [h, hbare]

/-- A node without content denotes no name that has a meaning. -/
theorem not_means_bare (hbare : bare.head = bare) (hmeaning : abi.HasMeaning bare.name) :
    ¬ abi.Means R bare bare := by
  have hfields : bare.fields = none := by rw [← hbare]; rfl
  have hvariant : bare.variant = none := by rw [← hbare]; rfl
  have href : bare.ref = none := by rw [← hbare]; rfl
  intro h
  unfold Means at h
  unfold HasMeaning at hmeaning
  split at h
  · obtain ⟨ref, heq, -⟩ := h
    rw [heq] at href
    cases href
  · rename_i htypes
    split at h
    · obtain ⟨base, fields, heq, -⟩ := h
      rw [heq] at hfields
      cases hfields
    · rename_i hstruct
      split at h
      · obtain ⟨variant, heq, -⟩ := h
        rw [heq] at hvariant
        cases hvariant
      · rename_i hvariants
        simp [htypes, hstruct, hvariants] at hmeaning

/-- A name without a meaning is denoted by the node without content. -/
theorem means_bare (hmeaning : ¬ abi.HasMeaning bare.name) : abi.Means R bare bare := by
  unfold HasMeaning at hmeaning
  simp only [not_or, Bool.not_eq_true, Option.isSome_eq_false_iff, Option.isNone_iff_eq_none]
    at hmeaning
  obtain ⟨htypes, hstruct, hvariant⟩ := hmeaning
  unfold Means
  simp only [htypes, hstruct, hvariant]

end Meanings

/-! ## The graph and the search -/

/-- A parsed name has no content. -/
theorem head_parse (name : Str) : (ResolvedNode.parse name).head = ResolvedNode.parse name := by
  obtain ⟨core, isArray, isOptional, isExtension, -, hparse⟩ := ResolvedNode.parse_cases name
  rw [hparse]
  cases ResolvedNode.fixedSize core <;> rfl

section Graph

variable {abi : ABI} {root : Str}

/-- What a resolution comes to where no type string within the limit is misread: a node for
each listed string, settled as the listing says. -/
structure Drawn (abi : ABI) (root : Str) (arena : Arena) (i : ℕ) : Prop where
  length : arena.length = (meet abi.parts maxResolveDepth [] root).length
  settled : ∀ k name flag, (meet abi.parts maxResolveDepth [] root)[k]? = some (name, flag) →
    abi.Settled (meet abi.parts maxResolveDepth [] root) name flag (arena.node k)
  start : ((meet abi.parts maxResolveDepth [] root).map Prod.fst)[i]? = some root

/-- A resolution without misread type strings is drawn from the search. -/
theorem drawn_of_faithful
    (h : ∀ n name, n ≤ maxResolveDepth → Links abi.Mentions root n name → ¬ Misread name) :
    abi.Drawn root (abi.resolveType root).1 (abi.resolveType root).2 := by
  have hcanonical : abi.CanonicalWithin maxResolveDepth root := fun n hn name hname =>
    (canonical_iff name).mpr (h n name hn hname)
  obtain ⟨hreaches, hstart⟩ := resolve_meets maxResolveDepth hcanonical {} [] knows_empty
  exact ⟨hreaches.knows.length, fun k name flag => hreaches.settled k name flag (Nat.zero_le k),
    hstart⟩

variable {arena : Arena} {i : ℕ}

/-- The node of a listed string carries it. -/
theorem Drawn.standsFor (hdrawn : abi.Drawn root arena i)
    (hfaithful : ∀ n name, n ≤ maxResolveDepth → Links abi.Mentions root n name → ¬ Misread name)
    {k : ℕ} {name : Str}
    (hk : ((meet abi.parts maxResolveDepth [] root).map Prod.fst)[k]? = some name) :
    arena.StandsFor k name := by
  rw [List.getElem?_map, Option.map_eq_some_iff] at hk
  obtain ⟨⟨name, flag⟩, hk, rfl⟩ := hk
  have hhead : (arena.node k).head = ResolvedNode.parse name := by
    have hsettled := hdrawn.settled k name flag hk
    cases flag with
    | true =>
      have hcomplete : abi.Complete _ name (arena.node k) := hsettled
      exact Means.head hcomplete (head_parse name)
    | false =>
      rw [show arena.node k = ResolvedNode.parse name from hsettled, head_parse]
  obtain ⟨n, hn, hlinks, -⟩ := links_of_mem_meet (List.mem_of_getElem? hk) (by simp)
  refine ⟨?_, hhead, ?_⟩
  · rw [hdrawn.length]
    exact (List.getElem?_eq_some_iff.mp hk).1
  · have hcanonical : Canonical name := (canonical_iff name).mpr (hfaithful n name hn hlinks)
    show (arena.node k).head.typeName = name
    rw [hhead]
    exact hcanonical

/-- A chain of pointers is a chain of mentions. -/
theorem Drawn.links (hdrawn : abi.Drawn root arena i) {n k : ℕ} (h : Links arena.Points i n k) :
    ∃ name, ((meet abi.parts maxResolveDepth [] root).map Prod.fst)[k]? = some name ∧
      Links abi.Mentions root n name := by
  induction h with
  | here => exact ⟨root, hdrawn.start, .here⟩
  | @link n k j _ hpoints ih =>
    obtain ⟨name, hk, hlinks⟩ := ih
    rw [List.getElem?_map, Option.map_eq_some_iff] at hk
    obtain ⟨⟨name, flag⟩, hk, rfl⟩ := hk
    have hsettled := hdrawn.settled k name flag hk
    cases flag with
    | true =>
      have hcomplete : abi.Complete _ name (arena.node k) := hsettled
      obtain ⟨t, ht, hj⟩ := Means.targets hcomplete (head_parse name) hpoints
      exact ⟨t, hj, hlinks.link ht⟩
    | false =>
      have hnode : arena.node k = ResolvedNode.parse name := hsettled
      have hpoints' : j ∈ (arena.node k).targets := hpoints
      rw [hnode, ← head_parse name] at hpoints'
      cases hpoints'

/-- **Where the condition holds**, every node within the limit denotes what its name means. -/
theorem Clear.resolvesWithin (h : abi.Clear root) : abi.ResolvesWithin root := by
  have hdrawn := drawn_of_faithful h.faithful
  refine ⟨hdrawn.standsFor h.faithful hdrawn.start, ?_⟩
  intro n k hn hlinks
  obtain ⟨name, hk, hmentions⟩ := hdrawn.links hlinks
  obtain ⟨-, hhead, -⟩ := hdrawn.standsFor h.faithful hk
  unfold Denotes
  rw [hhead]
  rw [List.getElem?_map, Option.map_eq_some_iff] at hk
  obtain ⟨⟨name, flag⟩, hk, rfl⟩ := hk
  have hsettled := hdrawn.settled k name flag hk
  cases flag with
  | true => exact Means.imp (fun _ _ hj => hdrawn.standsFor h.faithful hj) hsettled
  | false =>
    rw [show (abi.resolveType root).1.node k = ResolvedNode.parse name from hsettled]
    refine means_bare (fun hmeaning => ?_)
    have hle := h.limit name (List.mem_of_getElem? hk) hmeaning n hmentions
    omega

/-- Where all nodes within the limit denote what they mean, each mentioned string has a node
as near to the root. -/
theorem ResolvesWithin.node_of_links (h : abi.ResolvesWithin root) {n : ℕ} {name : Str}
    (hn : n ≤ maxResolveDepth) (hlinks : Links abi.Mentions root n name) :
    ∃ k, Links (abi.resolveType root).1.Points (abi.resolveType root).2 n k ∧
      (abi.resolveType root).1.StandsFor k name := by
  induction hlinks with
  | here => exact ⟨_, .here, h.1⟩
  | @link n s t _ hmentions ih =>
    obtain ⟨k, hk, -, hhead, -⟩ := ih (by omega)
    have hdenotes := h.2 n k (by omega) hk
    unfold Denotes at hdenotes
    have hparts : t ∈ abi.partsOf ((abi.resolveType root).1.node k).head.name := by
      rw [hhead]
      exact hmentions
    obtain ⟨j, hj, hstands⟩ := Means.mentions hdenotes hparts
    exact ⟨j, hk.link hj, hstands⟩

/-- **Where every node within the limit denotes what its name means**, the condition holds. -/
theorem ResolvesWithin.clear (h : abi.ResolvesWithin root) : abi.Clear root := by
  have hfaithful : ∀ n name, n ≤ maxResolveDepth → Links abi.Mentions root n name →
      ¬ Misread name := by
    intro n name hn hlinks
    obtain ⟨k, -, -, hhead, htype⟩ := h.node_of_links hn hlinks
    refine (canonical_iff name).mp ?_
    show (ResolvedNode.parse name).typeName = name
    rw [← hhead]
    exact htype
  have hdrawn := drawn_of_faithful hfaithful
  refine ⟨hfaithful, ?_⟩
  intro name hmet hmeaning n hlinks
  by_contra hn
  obtain ⟨k, hk, hlength, hhead, htype⟩ := h.node_of_links (by omega) hlinks
  have hdenotes := h.2 n k (by omega) hk
  unfold Denotes at hdenotes
  -- the node is the one that the search left at the limit
  obtain ⟨other, hother, -⟩ := hdrawn.links hk
  obtain ⟨-, -, htype'⟩ := hdrawn.standsFor hfaithful hother
  have hsame : other = name := htype'.symm.trans htype
  rw [hsame, List.getElem?_map, Option.map_eq_some_iff] at hother
  obtain ⟨⟨name', flag⟩, hmem, rfl⟩ := hother
  have hnodup : ((meet abi.parts maxResolveDepth [] root).map Prod.fst).Nodup :=
    nodup_meet (by simp)
  have hflag : (name', flag) = (name', false) :=
    List.inj_on_of_nodup_map hnodup (List.mem_of_getElem? hmem) hmet rfl
  cases hflag
  have hbare : (abi.resolveType root).1.node k = ResolvedNode.parse name' :=
    hdrawn.settled k name' false hmem
  rw [hbare, head_parse] at hdenotes
  exact not_means_bare (head_parse name') hmeaning hdenotes

end Graph

/-- **Every node within the depth limit denotes what its name means** exactly if no type
string within the limit is read as another type, and none with a meaning is met first at the
limit although it lies nearer to the root. -/
theorem resolvesWithin_iff_clear (abi : ABI) (root : Str) :
    abi.ResolvesWithin root ↔ abi.Clear root :=
  ⟨ResolvesWithin.clear, Clear.resolvesWithin⟩

/-! ## A chain met before a field nearby -/

/-- The names of a chain of types. -/
def chainName (n : ℕ) : Str := [UInt8.ofNat (97 + n / 16), UInt8.ofNat (97 + n % 16)]

/-- A struct whose first field starts a chain of 256 type definitions, and whose second field
has the type at the end of the chain. -/
def lateChain : ABI where
  types := (List.range 256).map (fun n =>
    { new_type_name := chainName n, type := if n = 255 then lit "uint8" else chainName (n + 1) })
  structs := [⟨lit "S", [], [⟨lit "a", chainName 0⟩, ⟨lit "b", chainName 255⟩]⟩]

theorem chainName_inj {m n : ℕ} (hm : m < 256) (hn : n < 256) (h : chainName m = chainName n) :
    m = n := by
  unfold chainName at h
  simp only [List.cons.injEq, and_true] at h
  have hhigh := congrArg UInt8.toNat h.1
  have hlow := congrArg UInt8.toNat h.2
  rw [UInt8.toNat_ofNat_of_lt' (show _ < 2 ^ 8 by omega),
    UInt8.toNat_ofNat_of_lt' (show _ < 2 ^ 8 by omega)] at hhigh hlow
  omega

theorem parse_chainName (n : ℕ) :
    ResolvedNode.parse (chainName n) = { name := chainName n } := by
  refine parse_plain (fun c hc => ?_)
  have hlast : UInt8.ofNat (97 + n % 16) = c := Option.some.inj hc
  have hvalue : c.toNat = 97 + n % 16 := by
    rw [← hlast]
    exact UInt8.toNat_ofNat_of_lt' (show 97 + n % 16 < 2 ^ 8 by omega)
  refine ⟨?_, ?_, ?_⟩ <;>
  · rintro rfl
    simp at hvalue
    omega

theorem chainName_ne_struct (n : ℕ) : chainName n ≠ lit "S" := by
  simp [chainName, lit]

/-- The type definition of a name of the chain. -/
theorem find?_chainName {n : ℕ} (hn : n < 256) :
    lateChain.types.find? (fun e => e.new_type_name = chainName n) =
      some ⟨chainName n, if n = 255 then lit "uint8" else chainName (n + 1)⟩ := by
  have hfind : (List.range 256).find? (fun m => decide (chainName m = chainName n)) = some n := by
    rw [List.find?_range_eq_some]
    refine ⟨by simp, by simpa using hn, fun m hm => ?_⟩
    simp only [Bool.not_eq_true', decide_eq_false_iff_not]
    intro heq
    have := chainName_inj (by omega) hn heq
    omega
  unfold lateChain
  rw [List.find?_map]
  show Option.map _ ((List.range 256).find? (fun m => decide (chainName m = chainName n))) = _
  rw [hfind]
  rfl

/-- The search goes down the chain to the limit. -/
theorem metAtLimit_chain {fuel n : ℕ} (hfuel : n + fuel = 255) {met : List (Str × Bool)}
    (hnew : ∀ m, n ≤ m → m < 256 → chainName m ∉ met.map Prod.fst) :
    (chainName 255, false) ∈ meet lateChain.parts fuel met (chainName n) := by
  induction fuel generalizing n met with
  | zero =>
    rw [meet_zero (hnew n le_rfl (by omega)), show n = 255 by omega]
    simp
  | succ fuel ih =>
    have hparts : lateChain.parts (chainName n) = [chainName (n + 1)] := by
      unfold parts partsOf
      rw [parse_chainName, find?_chainName (by omega), if_neg (by omega)]
    rw [meet_succ (hnew n le_rfl (by omega)), hparts]
    refine ih (by omega) ?_
    intro m hm hm' hmem
    rw [List.map_append, List.mem_append] at hmem
    rcases hmem with hmem | hmem
    · exact hnew m (by omega) hm' hmem
    · have heq := chainName_inj hm' (by omega) (List.mem_singleton.mp hmem)
      omega

/-- The type of the second field is left without a meaning, one mention from the root. -/
theorem lateChain_not_resolvesWithin : ¬ lateChain.ResolvesWithin (lit "S") := by
  intro h
  have hparse : (ResolvedNode.parse (lit "S")).name = lit "S" := by decide
  have hparts : lateChain.parts (lit "S") = [chainName 0, chainName 255] := by
    have hnone : lateChain.types.find? (fun e => e.new_type_name = lit "S") = none := by
      rw [List.find?_eq_none]
      intro e he
      obtain ⟨n, -, rfl⟩ := List.mem_map.mp he
      exact fun heq => chainName_ne_struct n (of_decide_eq_true heq)
    unfold parts partsOf
    rw [hparse, hnone]
    rfl
  -- The first field's chain ends at the depth limit, and the second field names that end.
  have hmet : lateChain.MetAtLimit (lit "S") (chainName 255) := by
    show _ ∈ meet lateChain.parts (255 + 1) [] (lit "S")
    rw [meet_succ (by simp), hparts, List.foldl_cons, List.foldl_cons, List.foldl_nil]
    refine (meet_extends lateChain.parts 255 _ (chainName 255)).subset
      (metAtLimit_chain (by omega) ?_)
    exact fun m _ _ hmem => chainName_ne_struct m (List.mem_singleton.mp hmem)
  have hmeaning : lateChain.HasMeaning (ResolvedNode.parse (chainName 255)).name := by
    rw [parse_chainName]
    exact .inl (by rw [find?_chainName (by omega)]; rfl)
  have hmentions : lateChain.Mentions (lit "S") (chainName 255) := by
    show _ ∈ lateChain.parts (lit "S")
    rw [hparts]
    simp
  have hle := h.clear.limit _ hmet hmeaning 1 (.link .here hmentions)
  exact absurd hle (by decide)

end ABI

end Dwarfkit
