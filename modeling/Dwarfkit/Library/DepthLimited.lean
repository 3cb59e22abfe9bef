/-
# Depth-limited search

A depth-first search that lists every node when it first meets it, and that goes no
further from a node met at the depth limit.  The listing says of each node whether the
search went on from it: a node met at the limit keeps its place, so the search passes it by
where it meets it again nearer to the root.

* `nodup_meet` : no node is listed twice;
* `links_of_mem_meet` : a listed node is linked to the root, one met at the limit by a chain
  as long as the limit.
-/
import Mathlib

namespace DepthLimited

/-! ## Chains of links -/

section Links

variable {α : Type}

/-- A chain of `n` links. -/
inductive Links (r : α → α → Prop) (a : α) : ℕ → α → Prop
  | here : Links r a 0 a
  | link {n : ℕ} {b c : α} : Links r a n b → r b c → Links r a (n + 1) c

variable {r : α → α → Prop} {a b c : α} {n m : ℕ}

/-- Two chains, one after the other. -/
theorem Links.trans (h : Links r a n b) (h' : Links r b m c) : Links r a (n + m) c := by
  induction h' with
  | here => exact h
  | link _ hr ih => exact ih.link hr

/-- A chain that starts with a link. -/
theorem Links.head (hr : r a b) (h : Links r b n c) : Links r a (n + 1) c := by
  rw [Nat.add_comm]
  exact (Links.here.link hr).trans h

/-- What every link keeps, a chain keeps. -/
theorem Links.keeps {P : α → Prop} (hstep : ∀ b c, P b → r b c → P c) (h : Links r a n b)
    (ha : P a) : P b := by
  induction h with
  | here => exact ha
  | link _ hr ih => exact hstep _ _ ih hr

end Links

/-! ## The search -/

section Search

variable {α : Type} [DecidableEq α] (next : α → List α)

/-- Meet a node: nothing if it is listed already, else it is listed, and if the limit is
not reached the nodes it leads to are met. -/
def meet : (fuel : ℕ) → List (α × Bool) → α → List (α × Bool)
  | 0, met, a => if a ∈ met.map Prod.fst then met else met ++ [(a, false)]
  | fuel + 1, met, a =>
    if a ∈ met.map Prod.fst then met else (next a).foldl (meet fuel) (met ++ [(a, true)])

variable {next} {fuel : ℕ} {met : List (α × Bool)} {a : α}

/-- A listed node is passed by. -/
theorem meet_of_mem (h : a ∈ met.map Prod.fst) : meet next fuel met a = met := by
  cases fuel with
  | zero => exact if_pos h
  | succ fuel => exact if_pos h

theorem meet_zero (h : a ∉ met.map Prod.fst) : meet next 0 met a = met ++ [(a, false)] := if_neg h

theorem meet_succ (h : a ∉ met.map Prod.fst) :
    meet next (fuel + 1) met a = (next a).foldl (meet next fuel) (met ++ [(a, true)]) := if_neg h

/-- What every step of a fold keeps, the fold keeps. -/
theorem foldl_keeps {β γ : Type} {f : β → γ → β} {I : β → Prop} {l : List γ}
    (hstep : ∀ b, ∀ c ∈ l, I b → I (f b c)) {b : β} (hb : I b) : I (l.foldl f b) := by
  induction l generalizing b with
  | nil => exact hb
  | cons c l ih =>
    exact ih (fun b c hc => hstep b c (List.mem_cons_of_mem _ hc))
      (hstep b c List.mem_cons_self hb)

/-- The search only adds to the end of the listing. -/
theorem meet_extends (next : α → List α) (fuel : ℕ) (met : List (α × Bool)) (a : α) :
    met <+: meet next fuel met a := by
  induction fuel generalizing met a with
  | zero =>
    by_cases h : a ∈ met.map Prod.fst
    · rw [meet_of_mem h]
    · rw [meet_zero h]
      exact List.prefix_append _ _
  | succ fuel ih =>
    by_cases h : a ∈ met.map Prod.fst
    · rw [meet_of_mem h]
    · rw [meet_succ h]
      exact foldl_keeps (I := fun met' => met <+: met')
        (fun met' b _ hmet' => hmet'.trans (ih met' b)) (List.prefix_append _ _)

theorem foldl_meet_extends (next : α → List α) (fuel : ℕ) (met : List (α × Bool)) (l : List α) :
    met <+: l.foldl (meet next fuel) met :=
  foldl_keeps (I := fun met' => met <+: met')
    (fun met' b _ hmet' => hmet'.trans (meet_extends next fuel met' b)) List.prefix_rfl

/-- The node that is met is listed. -/
theorem mem_meet (next : α → List α) (fuel : ℕ) (met : List (α × Bool)) (a : α) :
    a ∈ (meet next fuel met a).map Prod.fst := by
  by_cases h : a ∈ met.map Prod.fst
  · rwa [meet_of_mem h]
  · cases fuel with
    | zero =>
      rw [meet_zero h]
      simp
    | succ fuel =>
      rw [meet_succ h]
      have hmore := foldl_meet_extends next fuel (met ++ [(a, true)]) (next a)
      exact List.mem_map_of_mem (f := Prod.fst) (hmore.subset (a := (a, true)) (by simp))

/-- **No node is listed twice.** -/
theorem nodup_meet (h : (met.map Prod.fst).Nodup) :
    ((meet next fuel met a).map Prod.fst).Nodup := by
  have hpush (met : List (α × Bool)) (a : α) (flag : Bool) (h : (met.map Prod.fst).Nodup)
      (ha : a ∉ met.map Prod.fst) : ((met ++ [(a, flag)]).map Prod.fst).Nodup := by
    rw [List.map_append, List.map_cons, List.map_nil]
    refine List.nodup_append.mpr ⟨h, List.nodup_singleton a, ?_⟩
    intro b hb c hc
    rw [List.mem_singleton.mp hc]
    intro heq
    rw [heq] at hb
    exact ha hb
  induction fuel generalizing met a with
  | zero =>
    by_cases ha : a ∈ met.map Prod.fst
    · rwa [meet_of_mem ha]
    · rw [meet_zero ha]
      exact hpush met a false h ha
  | succ fuel ih =>
    by_cases ha : a ∈ met.map Prod.fst
    · rwa [meet_of_mem ha]
    · rw [meet_succ ha]
      exact foldl_keeps (I := fun met : List (α × Bool) => (met.map Prod.fst).Nodup)
        (fun _ _ _ hmet => ih hmet)
        (hpush met a true h ha)

/-- **A node that the search adds is linked to the node it started from**, one that it does
not go on from by a chain as long as the limit. -/
theorem links_of_mem_meet {b : α} {flag : Bool} (h : (b, flag) ∈ meet next fuel met a)
    (hnew : (b, flag) ∉ met) :
    ∃ n ≤ fuel, Links (fun a b => b ∈ next a) a n b ∧ (flag = false → n = fuel) := by
  induction fuel generalizing met a with
  | zero =>
    by_cases ha : a ∈ met.map Prod.fst
    · rw [meet_of_mem ha] at h
      exact absurd h hnew
    · rw [meet_zero ha] at h
      rcases List.mem_append.mp h with h | h
      · exact absurd h hnew
      · cases List.mem_singleton.mp h
        exact ⟨0, le_rfl, .here, fun _ => rfl⟩
  | succ fuel ih =>
    by_cases ha : a ∈ met.map Prod.fst
    · rw [meet_of_mem ha] at h
      exact absurd h hnew
    · rw [meet_succ ha] at h
      -- What was met before stays; what a call adds hangs one link below the node.
      refine foldl_keeps (I := fun met' => (b, flag) ∈ met' → ∃ n ≤ fuel + 1,
        Links (fun a b => b ∈ next a) a n b ∧ (flag = false → n = fuel + 1)) ?_ ?_ h
      · intro met' c hc hmet' hmem
        by_cases hold : (b, flag) ∈ met'
        · exact hmet' hold
        · obtain ⟨n, hn, hlinks, hcut⟩ := ih hmem hold
          exact ⟨n + 1, by omega, .head hc hlinks, fun hflag => by rw [hcut hflag]⟩
      · intro hmem
        rcases List.mem_append.mp hmem with hmem | hmem
        · exact absurd hmem hnew
        · cases List.mem_singleton.mp hmem
          exact ⟨0, by omega, .here, fun hflag => by cases hflag⟩

/-- In a set that the graph does not leave, the listing is no longer than the set. -/
theorem length_meet_le {nodes : List α} (h : ∀ n b, Links (fun a b => b ∈ next a) a n b →
    b ∈ nodes) : (meet next fuel [] a).length ≤ nodes.dedup.length := by
  have hnodup : ((meet next fuel [] a).map Prod.fst).Nodup := nodup_meet (by simp)
  have hsubset : (meet next fuel [] a).map Prod.fst ⊆ nodes.dedup := by
    intro b hb
    obtain ⟨⟨b, flag⟩, hmem, rfl⟩ := List.mem_map.mp hb
    obtain ⟨n, -, hlinks, -⟩ := links_of_mem_meet hmem (by simp)
    exact List.mem_dedup.mpr (h n b hlinks)
  calc (meet next fuel [] a).length
    _ = ((meet next fuel [] a).map Prod.fst).length := (List.length_map Prod.fst).symm
    _ ≤ nodes.dedup.length := (hnodup.subperm hsubset).length_le

end Search

end DepthLimited
