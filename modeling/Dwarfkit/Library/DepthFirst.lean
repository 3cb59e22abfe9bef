/-
# Depth-first listing

A depth-first search lists the nodes it leaves: a node comes after the nodes it leads to,
unless they lie on the path to it.  Nodes that are listed or on the path are skipped.

* `exists_visitAll` : the search ends, whatever the graph;
* `nodup_of_visitAll`, `mem_of_visitAll` : every root is listed, and no node twice;
* `sorted_of_visitAll` : without cycles, the listing is a topological order;
* `listed_visitAll_iff` : which of two nodes is listed first.
-/
import Mathlib

namespace DepthFirst

/-! ## Folds that may fail -/

section Fold

variable {α β : Type}

/-- What every step keeps, a fold that succeeds keeps. -/
theorem foldlM_keeps {f : β → α → Option β} {I : β → Prop} {l : List α}
    (hstep : ∀ b a b', a ∈ l → I b → f b a = some b' → I b') {b b' : β} (hb : I b)
    (hfold : l.foldlM f b = some b') : I b' := by
  induction l generalizing b with
  | nil =>
    cases hfold
    exact hb
  | cons a l ih =>
    rw [List.foldlM_cons] at hfold
    obtain ⟨mid, hmid, hrest⟩ := Option.bind_eq_some_iff.mp hfold
    refine ih (fun b a b' ha => hstep b a b' (List.mem_cons_of_mem _ ha)) ?_ hrest
    exact hstep b a mid List.mem_cons_self hb hmid

/-- A fold of steps that succeed succeeds. -/
theorem exists_foldlM {f : β → α → Option β} {l : List α}
    (hstep : ∀ b, ∀ a ∈ l, ∃ b', f b a = some b') (b : β) : ∃ b', l.foldlM f b = some b' := by
  induction l generalizing b with
  | nil => exact ⟨b, rfl⟩
  | cons a l ih =>
    obtain ⟨mid, hmid⟩ := hstep b a List.mem_cons_self
    obtain ⟨b', hb'⟩ := ih (fun b a ha => hstep b a (List.mem_cons_of_mem _ ha)) mid
    refine ⟨b', ?_⟩
    rw [List.foldlM_cons, hmid]
    exact hb'

end Fold

/-! ## The search -/

variable {κ : Type} [DecidableEq κ] (next : κ → List κ)

/-- Visit a node: first the nodes it leads to, from the path that it ends, and then the
node itself is listed. -/
def visit : (fuel : ℕ) → (path done : List κ) → κ → Option (List κ)
  | 0, _, _, _ => none
  | fuel + 1, path, done, k =>
    if k ∈ done ∨ k ∈ path then some done
    else do
      let done ← (next k).foldlM (visit fuel (k :: path)) done
      return done ++ [k]

/-- Visit the roots in their order. -/
def visitAll (fuel : ℕ) (roots : List κ) : Option (List κ) := roots.foldlM (visit next fuel []) []

variable {next}

/-- What a visit does: nothing, or its node is new and is listed after a fold over the
nodes it leads to. -/
theorem visit_cases {fuel : ℕ} {path done done' : List κ} {k : κ}
    (h : visit next (fuel + 1) path done k = some done') :
    ((k ∈ done ∨ k ∈ path) ∧ done' = done) ∨
      (k ∉ done ∧ k ∉ path ∧ ∃ mid, (next k).foldlM (visit next fuel (k :: path)) done = some mid ∧
        done' = mid ++ [k]) := by
  rw [visit] at h
  split_ifs at h with hskip
  · cases h
    exact .inl ⟨hskip, rfl⟩
  · rw [not_or] at hskip
    obtain ⟨mid, hmid, hdone⟩ := Option.bind_eq_some_iff.mp h
    cases hdone
    exact .inr ⟨hskip.1, hskip.2, mid, hmid, rfl⟩

/-- A visit only adds to the end of the listing. -/
theorem visit_prefix {fuel : ℕ} {path done done' : List κ} {k : κ}
    (h : visit next fuel path done k = some done') : done <+: done' := by
  induction fuel generalizing path done done' k with
  | zero => cases h
  | succ fuel ih =>
    rcases visit_cases h with ⟨-, rfl⟩ | ⟨-, -, mid, hmid, rfl⟩
    · exact List.prefix_rfl
    · have hprefix : done <+: mid :=
        foldlM_keeps (I := fun l => done <+: l) (fun _ _ _ _ hl hstep => hl.trans (ih hstep))
          List.prefix_rfl hmid
      exact hprefix.trans (List.prefix_append _ _)

/-- A visited node is listed, or it was on the path. -/
theorem mem_of_visit {fuel : ℕ} {path done done' : List κ} {k : κ}
    (h : visit next fuel path done k = some done') : k ∈ done' ∨ k ∈ path := by
  cases fuel with
  | zero => cases h
  | succ fuel =>
    rcases visit_cases h with ⟨hskip, rfl⟩ | ⟨-, -, mid, -, rfl⟩
    · exact hskip
    · exact .inl (by simp)

/-- So are the nodes of a fold. -/
theorem mem_of_foldlM_visit {fuel : ℕ} {path done done' : List κ} {ks : List κ}
    (h : ks.foldlM (visit next fuel path) done = some done') :
    ∀ k ∈ ks, k ∈ done' ∨ k ∈ path := by
  induction ks generalizing done with
  | nil => simp
  | cons k ks ih =>
    rw [List.foldlM_cons] at h
    obtain ⟨mid, hmid, hrest⟩ := Option.bind_eq_some_iff.mp h
    refine List.forall_mem_cons.mpr ⟨?_, ih hrest⟩
    have hprefix : mid <+: done' :=
      foldlM_keeps (I := fun l => mid <+: l)
        (fun _ _ _ _ hl hstep => hl.trans ( visit_prefix hstep)) List.prefix_rfl hrest
    exact (mem_of_visit hmid).imp_left (fun hk => hprefix.subset hk)

/-- A node on the path is not listed. -/
theorem not_mem_of_visit {fuel : ℕ} {path done done' : List κ} {k y : κ} (hy : y ∈ path)
    (hdone : y ∉ done) (h : visit next fuel path done k = some done') : y ∉ done' := by
  induction fuel generalizing path done done' k with
  | zero => cases h
  | succ fuel ih =>
    rcases visit_cases h with ⟨-, rfl⟩ | ⟨-, hpath, mid, hmid, rfl⟩
    · exact hdone
    · have hmid' : y ∉ mid :=
        foldlM_keeps (I := fun l => y ∉ l)
          (fun _ _ _ _ hl hstep => ih (List.mem_cons_of_mem _ hy) hl hstep) hdone hmid
      have hne : y ≠ k := fun heq => hpath (heq ▸ hy)
      simp [hmid', hne]

/-- No node is listed twice. -/
theorem nodup_of_visit {fuel : ℕ} {path done done' : List κ} {k : κ} (hdone : done.Nodup)
    (h : visit next fuel path done k = some done') : done'.Nodup := by
  induction fuel generalizing path done done' k with
  | zero => cases h
  | succ fuel ih =>
    rcases visit_cases h with ⟨-, rfl⟩ | ⟨hk, -, mid, hmid, rfl⟩
    · exact hdone
    · have hnodup : mid.Nodup :=
        foldlM_keeps (I := List.Nodup) (fun _ _ _ _ hl hstep => ih hl hstep) hdone hmid
      have hk' : k ∉ mid :=
        foldlM_keeps (I := fun l => k ∉ l)
          (fun _ _ _ _ hl hstep => not_mem_of_visit List.mem_cons_self hl hstep) hk hmid
      exact List.nodup_append.mpr ⟨hnodup, List.nodup_singleton k, by
        intro a ha b hb
        rw [List.mem_singleton.mp hb]
        exact fun heq => hk' (heq ▸ ha)⟩

/-- Only nodes of a set that the graph does not leave are listed. -/
theorem forall_of_visit {P : κ → Prop} (hnext : ∀ a, P a → ∀ b ∈ next a, P b) {fuel : ℕ}
    {path done done' : List κ} {k : κ} (hk : P k) (hdone : ∀ a ∈ done, P a)
    (h : visit next fuel path done k = some done') : ∀ a ∈ done', P a := by
  induction fuel generalizing path done done' k with
  | zero => cases h
  | succ fuel ih =>
    rcases visit_cases h with ⟨-, rfl⟩ | ⟨-, -, mid, hmid, rfl⟩
    · exact hdone
    · have hmid' : ∀ a ∈ mid, P a :=
        foldlM_keeps (I := fun l => ∀ a ∈ l, P a)
          (fun _ c _ hc hl hstep => ih (hnext k hk c hc) hl hstep) hdone hmid
      intro a ha
      rcases List.mem_append.mp ha with ha | ha
      · exact hmid' a ha
      · rw [List.mem_singleton.mp ha]
        exact hk

/-! ## Ending -/

/-- In a finite set that the graph does not leave, a visit needs no more fuel than there
are nodes off the path. -/
theorem exists_visit {U : Finset κ} (hU : ∀ a ∈ U, ∀ b ∈ next a, b ∈ U) {fuel : ℕ} {path : List κ}
    (hfuel : (U \ path.toFinset).card < fuel) (done : List κ) {k : κ} (hk : k ∈ U) :
    ∃ done', visit next fuel path done k = some done' := by
  induction fuel generalizing path done k with
  | zero => omega
  | succ fuel ih =>
    rw [visit]
    split_ifs with hskip
    · exact ⟨done, rfl⟩
    · rw [not_or] at hskip
      have hcard : (U \ (k :: path).toFinset).card < (U \ path.toFinset).card := by
        apply Finset.card_lt_card
        rw [Finset.ssubset_iff_of_subset]
        · refine ⟨k, ?_, by simp⟩
          rw [Finset.mem_sdiff, List.mem_toFinset]
          exact ⟨hk, hskip.2⟩
        · intro a ha
          rw [Finset.mem_sdiff, List.mem_toFinset] at ha ⊢
          exact ⟨ha.1, fun hpath => ha.2 (List.mem_cons_of_mem _ hpath)⟩
      obtain ⟨mid, hmid⟩ := exists_foldlM (f := visit next fuel (k :: path)) (l := next k)
        (fun b c hc => ih (by omega) b (hU k hk c hc)) done
      exact ⟨mid ++ [k], by rw [hmid]; rfl⟩

/-- **The search ends** in every finite graph. -/
theorem exists_visitAll {roots : List κ} (hnext : ∀ a ∈ roots, ∀ b ∈ next a, b ∈ roots) {fuel : ℕ}
    (hfuel : roots.length < fuel) : ∃ done, visitAll next fuel roots = some done := by
  refine exists_foldlM ?_ []
  intro done k hk
  refine exists_visit (U := roots.toFinset) ?_ ?_ done (List.mem_toFinset.mpr hk)
  · intro a ha b hb
    exact List.mem_toFinset.mpr (hnext a (List.mem_toFinset.mp ha) b hb)
  · have hcard := roots.toFinset_card_le
    rw [List.toFinset_nil, Finset.sdiff_empty]
    omega

theorem nodup_of_visitAll {fuel : ℕ} {roots done : List κ}
    (h : visitAll next fuel roots = some done) : done.Nodup :=
  foldlM_keeps (I := List.Nodup) (fun _ _ _ _ hl hstep => nodup_of_visit hl hstep)
    List.nodup_nil h

/-- **The listed nodes** of a search from a set that the graph does not leave are the
roots. -/
theorem mem_of_visitAll {fuel : ℕ} {roots done : List κ}
    (hnext : ∀ a ∈ roots, ∀ b ∈ next a, b ∈ roots) (h : visitAll next fuel roots = some done)
    (k : κ) : k ∈ done ↔ k ∈ roots := by
  constructor
  · have hall : ∀ a ∈ done, a ∈ roots :=
      foldlM_keeps (I := fun l => ∀ a ∈ l, a ∈ roots)
        (fun _ _ _ hk hl hstep => forall_of_visit hnext hk hl hstep) (by simp) h
    exact hall k
  · intro hk
    exact (mem_of_foldlM_visit h k hk).resolve_right (by simp)

/-! ## Order -/

/-- Every node comes after the nodes it leads to. -/
def Sorted (next : κ → List κ) (l : List κ) : Prop :=
  ∀ front k back, l = front ++ k :: back → ∀ c ∈ next k, c ∈ front

/-- No node leads to itself. -/
def Acyclic (next : κ → List κ) : Prop := ∀ k, ¬ Relation.TransGen (fun a b => b ∈ next a) k k

omit [DecidableEq κ] in
theorem sorted_append {l : List κ} {k : κ} (hl : Sorted next l) (hk : ∀ c ∈ next k, c ∈ l) :
    Sorted next (l ++ [k]) := by
  intro front x back hsplit c hc
  rcases List.eq_nil_or_concat back with rfl | ⟨back, y, rfl⟩
  · obtain ⟨rfl, hx⟩ := List.append_inj' hsplit rfl
    cases hx
    exact hk c hc
  · rw [List.concat_eq_append, ← List.cons_append, ← List.append_assoc] at hsplit
    obtain ⟨hl', -⟩ := List.append_inj' hsplit rfl
    exact hl front x back hl' c hc

/-- Where every node of the path leads to the node, so does none of them to itself, and
what the node leads to is listed before it. -/
theorem sorted_of_visit (hacyclic : Acyclic next) {fuel : ℕ} {path done done' : List κ} {k : κ}
    (hpath : ∀ p ∈ path, Relation.TransGen (fun a b => b ∈ next a) p k)
    (hdone : Sorted next done) (h : visit next fuel path done k = some done') :
    Sorted next done' := by
  induction fuel generalizing path done done' k with
  | zero => cases h
  | succ fuel ih =>
    rcases visit_cases h with ⟨-, rfl⟩ | ⟨-, -, mid, hmid, rfl⟩
    · exact hdone
    · have hlead : ∀ c ∈ next k, ∀ p ∈ k :: path,
          Relation.TransGen (fun a b => b ∈ next a) p c := by
        intro c hc p hp
        rcases List.mem_cons.mp hp with rfl | hp
        · exact .single hc
        · exact (hpath p hp).tail hc
      have hmid' : Sorted next mid :=
        foldlM_keeps (I := Sorted next)
          (fun _ c _ hc hl hstep => ih (hlead c hc) hl hstep) hdone hmid
      refine sorted_append hmid' ?_
      intro c hc
      refine (mem_of_foldlM_visit hmid c hc).resolve_right ?_
      intro hcycle
      exact hacyclic c (hlead c hc c hcycle)

/-- **A topological order**: without cycles, every node is listed after the nodes it leads
to. -/
theorem sorted_of_visitAll (hacyclic : Acyclic next) {fuel : ℕ} {roots done : List κ}
    (h : visitAll next fuel roots = some done) : Sorted next done := by
  refine foldlM_keeps (I := Sorted next)
    (fun _ _ _ _ hl hstep => sorted_of_visit hacyclic (by simp) hl hstep) ?_ h
  intro front k back hsplit
  simp at hsplit

/-! ## Which node is listed first -/

/-- There is a way from a node to another, or they are the same. -/
def Reach (next : κ → List κ) : κ → κ → Prop := Relation.ReflTransGen (fun a b => b ∈ next a)

/-- `a` is in the list before `b`. -/
def Listed (l : List κ) (a b : κ) : Prop := ∃ front back, l = front ++ b :: back ∧ a ∈ front

/-- Walking the nodes in turn, down to the first one that leads to `b`, `a` is met first: it
is reached from a node that does not lead to `b`, or from `b` itself. -/
inductive Before (next : κ → List κ) : List κ → κ → κ → Prop
  | reached {k : κ} {ks : List κ} {a b : κ} : ¬ Reach next k b → Reach next k a →
    Before next (k :: ks) a b
  | later {k : κ} {ks : List κ} {a b : κ} : ¬ Reach next k b → Before next ks a b →
    Before next (k :: ks) a b
  | inside {k : κ} {ks : List κ} {a b : κ} : k ≠ b → Reach next k b → Before next (next k) a b →
    Before next (k :: ks) a b
  | under {k : κ} {ks : List κ} {a : κ} : Relation.TransGen (fun a b => b ∈ next a) k a →
    Before next (k :: ks) a k

section Listed

omit [DecidableEq κ]

/-- What is before the one place of `b`. -/
theorem listed_iff {front back : List κ} {a b : κ} (hfront : b ∉ front) (hback : b ∉ back) :
    Listed (front ++ b :: back) a b ↔ a ∈ front := by
  constructor
  · rintro ⟨front', back', hsplit, ha⟩
    rcases List.append_eq_append_iff.mp hsplit with ⟨mid, rfl, hmid⟩ | ⟨mid, rfl, hmid⟩
    · cases mid with
      | nil => simpa using ha
      | cons x mid =>
        obtain ⟨rfl, rfl⟩ := List.cons.inj hmid
        exact absurd (by simp) hback
    · cases mid with
      | nil => simpa using ha
      | cons x mid =>
        obtain ⟨rfl, -⟩ := List.cons.inj hmid
        exact absurd (by simp) hfront
  · intro ha
    exact ⟨front, back, rfl, ha⟩

/-- What is added behind `b` changes nothing. -/
theorem listed_append {l more : List κ} {a b : κ} (hnodup : (l ++ more).Nodup) (hb : b ∈ l) :
    Listed (l ++ more) a b ↔ Listed l a b := by
  obtain ⟨front, back, rfl⟩ := List.append_of_mem hb
  rw [List.append_assoc, List.cons_append] at hnodup ⊢
  obtain ⟨-, hrest, hdisjoint⟩ := List.nodup_append.mp hnodup
  have hfront : b ∉ front := fun hmem => hdisjoint b hmem b List.mem_cons_self rfl
  have hback : b ∉ back ++ more := (List.nodup_cons.mp hrest).1
  rw [listed_iff hfront hback, listed_iff hfront (fun h => hback (List.mem_append_left _ h))]

theorem listed_append_self {l : List κ} {a b : κ} (hb : b ∉ l) : Listed (l ++ [b]) a b ↔ a ∈ l :=
  listed_iff hb List.not_mem_nil

/-- A sorted list is not left by the graph. -/
theorem Sorted.reach {l : List κ} (h : Sorted next l) {a b : κ} (ha : a ∈ l)
    (hab : Reach next a b) : b ∈ l := by
  induction hab with
  | refl => exact ha
  | tail _ hstep ih =>
    obtain ⟨front, back, hsplit⟩ := List.append_of_mem ih
    rw [hsplit]
    exact List.mem_append_left _ (h front _ back hsplit _ hstep)

end Listed

section Acyclic

variable (hacyclic : Acyclic next)
include hacyclic

/-- A visit lists what its node leads to. -/
theorem mem_visit_iff {fuel : ℕ} {path done done' : List κ} {k : κ}
    (hpath : ∀ p ∈ path, Relation.TransGen (fun a b => b ∈ next a) p k)
    (hdone : Sorted next done) (h : visit next fuel path done k = some done') (x : κ) :
    x ∈ done' ↔ x ∈ done ∨ Reach next k x := by
  constructor
  · have hclosed : ∀ a, a ∈ done ∨ Reach next k a → ∀ b ∈ next a, b ∈ done ∨ Reach next k b := by
      rintro a (ha | ha) b hb
      · exact .inl (hdone.reach ha (.single hb))
      · exact .inr (ha.tail hb)
    exact forall_of_visit hclosed (.inr .refl) (fun a ha => .inl ha) h x
  · have hsorted := sorted_of_visit hacyclic hpath hdone h
    rintro (hx | hx)
    · exact ( visit_prefix h).subset hx
    · have hk : k ∈ done' := by
        refine (mem_of_visit h).resolve_right ?_
        intro hmem
        exact hacyclic k (hpath k hmem)
      exact hsorted.reach hk hx

/-- The nodes that a fold lists. -/
theorem mem_foldlM_visit_iff {fuel : ℕ} {path done done' ks : List κ}
    (hpath : ∀ k ∈ ks, ∀ p ∈ path, Relation.TransGen (fun a b => b ∈ next a) p k)
    (hdone : Sorted next done) (h : ks.foldlM (visit next fuel path) done = some done') (x : κ) :
    x ∈ done' ↔ x ∈ done ∨ ∃ k ∈ ks, Reach next k x := by
  induction ks generalizing done with
  | nil =>
    cases h
    simp
  | cons k ks ih =>
    rw [List.foldlM_cons] at h
    obtain ⟨mid, hmid, hrest⟩ := Option.bind_eq_some_iff.mp h
    have hk := hpath k List.mem_cons_self
    have hsorted := sorted_of_visit hacyclic hk hdone hmid
    rw [ih (fun k hk => hpath k (List.mem_cons_of_mem _ hk)) hsorted hrest,
      mem_visit_iff hacyclic hk hdone hmid, List.exists_mem_cons_iff, or_assoc]

/-- Where a visit to `k` lists `b`, what is listed before it. -/
def BeforeVisit (next : κ → List κ) (k a b : κ) : Prop :=
  (k = b ∧ Relation.TransGen (fun a b => b ∈ next a) k a) ∨ (k ≠ b ∧ Before next (next k) a b)

omit [DecidableEq κ] hacyclic in
theorem before_cons_iff {k : κ} {ks : List κ} {a b : κ} :
    Before next (k :: ks) a b ↔
      (Reach next k b ∧ BeforeVisit next k a b) ∨
        (¬ Reach next k b ∧ (Reach next k a ∨ Before next ks a b)) := by
  constructor
  · intro h
    cases h with
    | reached hkb hka => exact .inr ⟨hkb, .inl hka⟩
    | later hkb hrest => exact .inr ⟨hkb, .inr hrest⟩
    | inside hne hkb hin => exact .inl ⟨hkb, .inr ⟨hne, hin⟩⟩
    | under hka => exact .inl ⟨.refl, .inl ⟨rfl, hka⟩⟩
  · rintro (⟨hkb, ⟨rfl, hka⟩ | ⟨hne, hin⟩⟩ | ⟨hkb, hka | hrest⟩)
    · exact .under hka
    · exact .inside hne hkb hin
    · exact .reached hkb hka
    · exact .later hkb hrest

/-- A fold over nodes whose visits are understood. -/
theorem listed_foldlM_iff {fuel : ℕ} {path : List κ} {a b : κ}
    (hvisit : ∀ {done done' : List κ} {k : κ},
      (∀ p ∈ path, Relation.TransGen (fun a b => b ∈ next a) p k) → Sorted next done →
      done.Nodup → visit next fuel path done k = some done' → b ∉ done → Reach next k b →
      (Listed done' a b ↔ a ∈ done ∨ BeforeVisit next k a b))
    {done done' ks : List κ}
    (hpath : ∀ k ∈ ks, ∀ p ∈ path, Relation.TransGen (fun a b => b ∈ next a) p k)
    (hdone : Sorted next done) (hnodup : done.Nodup)
    (h : ks.foldlM (visit next fuel path) done = some done') (hb : b ∉ done) (hb' : b ∈ done') :
    Listed done' a b ↔ a ∈ done ∨ Before next ks a b := by
  induction ks generalizing done with
  | nil =>
    cases h
    exact absurd hb' hb
  | cons k ks ih =>
    rw [List.foldlM_cons] at h
    obtain ⟨mid, hmid, hrest⟩ := Option.bind_eq_some_iff.mp h
    have hk := hpath k List.mem_cons_self
    have hks : ∀ k ∈ ks, ∀ p ∈ path, Relation.TransGen (fun a b => b ∈ next a) p k :=
      fun k hk => hpath k (List.mem_cons_of_mem _ hk)
    have hsorted := sorted_of_visit hacyclic hk hdone hmid
    have hmidNodup := nodup_of_visit hnodup hmid
    rw [before_cons_iff]
    by_cases hkb : Reach next k b
    · -- `b` is listed by the first visit, and what follows goes behind it.
      have hbmid : b ∈ mid := (mem_visit_iff hacyclic hk hdone hmid b).mpr (.inr hkb)
      obtain ⟨more, rfl⟩ : mid <+: done' :=
        foldlM_keeps (I := fun l => mid <+: l)
          (fun _ _ _ _ hl hstep => hl.trans ( visit_prefix hstep)) List.prefix_rfl hrest
      have hall : (mid ++ more).Nodup :=
        foldlM_keeps (I := List.Nodup) (fun _ _ _ _ hl hstep => nodup_of_visit hl hstep)
          hmidNodup hrest
      rw [listed_append hall hbmid, hvisit hk hdone hnodup hmid hb hkb]
      simp [hkb]
    · have hbmid : b ∉ mid := by
        rw [mem_visit_iff hacyclic hk hdone hmid b]
        exact fun h => h.elim hb hkb
      rw [ih hks hsorted hmidNodup hrest hbmid, mem_visit_iff hacyclic hk hdone hmid a]
      simp [hkb, or_assoc]

/-- Where a visit lists a new node, what is listed before it. -/
theorem listed_visit_iff {fuel : ℕ} {path done done' : List κ} {k a b : κ}
    (hpath : ∀ p ∈ path, Relation.TransGen (fun a b => b ∈ next a) p k)
    (hdone : Sorted next done) (hnodup : done.Nodup)
    (h : visit next fuel path done k = some done') (hb : b ∉ done) (hkb : Reach next k b) :
    Listed done' a b ↔ a ∈ done ∨ BeforeVisit next k a b := by
  induction fuel generalizing path done done' k with
  | zero => cases h
  | succ fuel ih =>
    have hb' : b ∈ done' := (mem_visit_iff hacyclic hpath hdone h b).mpr (.inr hkb)
    have hlead : ∀ c ∈ next k, ∀ p ∈ k :: path,
        Relation.TransGen (fun a b => b ∈ next a) p c := by
      intro c hc p hp
      rcases List.mem_cons.mp hp with rfl | hp
      · exact .single hc
      · exact (hpath p hp).tail hc
    have hnodup' := nodup_of_visit hnodup h
    rcases visit_cases h with ⟨-, rfl⟩ | ⟨hk, -, mid, hmid, rfl⟩
    · exact absurd hb' hb
    · -- A visit lists its own node last, after all that can be reached from it.
      by_cases hkeq : k = b
      · subst hkeq
        have hkmid : k ∉ mid := by
          intro hmem
          rw [List.nodup_append] at hnodup'
          exact hnodup'.2.2 k hmem k (by simp) rfl
        rw [listed_append_self hkmid, mem_foldlM_visit_iff hacyclic hlead hdone hmid]
        have htrans : (∃ c ∈ next k, Reach next c a) ↔
            Relation.TransGen (fun a b => b ∈ next a) k a :=
          (Relation.TransGen.head'_iff (r := fun a b => b ∈ next a)).symm
        rw [htrans]
        simp [BeforeVisit]
      · have hbmid : b ∈ mid := by
          rcases List.mem_append.mp hb' with hmem | hmem
          · exact hmem
          · exact absurd (List.mem_singleton.mp hmem).symm hkeq
        rw [listed_append hnodup' hbmid,
          listed_foldlM_iff hacyclic (fun hp hd hn hv hbd hr => ih hp hd hn hv hbd hr) hlead hdone
            hnodup hmid hb hbmid]
        simp [BeforeVisit, hkeq]

/-- **Which of two nodes is listed first**: the one that the walk down to the other meets. -/
theorem listed_visitAll_iff {fuel : ℕ} {roots done : List κ}
    (h : visitAll next fuel roots = some done) {a b : κ} (hb : b ∈ done) :
    Listed done a b ↔ Before next roots a b := by
  have hnil : Sorted next ([] : List κ) := by
    intro front k back hsplit
    simp at hsplit
  have hiff := listed_foldlM_iff (a := a) (b := b) hacyclic
    (fun hp hd hn hv hbd hr => listed_visit_iff hacyclic hp hd hn hv hbd hr) (by simp) hnil
    List.nodup_nil h List.not_mem_nil hb
  rw [hiff]
  simp

end Acyclic

end DepthFirst
