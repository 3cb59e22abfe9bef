/-
# The ABI cache

`ABICache` of `abicache/abicache.cpp`.  A `getAbi` call is three atomic steps:
it checks the cache under the mutex, fetches the raw ABI from the chain without
it, and completes under the mutex again; `setAbi` is one step.  Any number of
calls interleave.

* `merge_merge` : merging the same chain ABI a second time changes nothing;
* `setAbi_kept_iff` : after an explicit `setAbi`, calls return exactly its ABI as
  long as no completing fetch of that account adds something to it;
* `completions_absorb` : completions that fetched the same ABI leave the same
  cache behind, whatever their order and number.
-/
import Dwarfkit.Antelope.Chain.Abi
import Dwarfkit.Library.Runs

namespace Dwarfkit

namespace ABICache

/-! ## Merging -/

section Merge

variable {α β : Type} [DecidableEq β]

/-- `mergeAndDeduplicate`: entries of the second list whose field no entry has yet
are appended. -/
def mergeAndDeduplicate (field : α → β) (array1 array2 : List α) : List α :=
  array2.foldl (fun rv current =>
    if rv.any (fun entry => field entry = field current) then rv else rv ++ [current]) array1

/-- Merging in entries whose fields are all there changes nothing. -/
theorem mergeAndDeduplicate_of_fields_mem (field : α → β) (xs ys : List α)
    (h : ∀ y ∈ ys, field y ∈ xs.map field) : mergeAndDeduplicate field xs ys = xs := by
  unfold mergeAndDeduplicate
  induction ys with
  | nil => rfl
  | cons y ys ih =>
    have hy : xs.any (fun entry => field entry = field y) = true := by
      obtain ⟨x, hx, hxy⟩ := List.mem_map.mp (h y (by simp))
      exact List.any_eq_true.mpr ⟨x, hx, by simpa using hxy⟩
    rw [List.foldl_cons, if_pos hy]
    exact ih (fun z hz => h z (by simp [hz]))

/-- A merge step by step: one entry of the second list at a time. -/
theorem mergeAndDeduplicate_cons (field : α → β) (xs : List α) (y : α) (ys : List α) :
    mergeAndDeduplicate field xs (y :: ys) =
      mergeAndDeduplicate field
        (if xs.any (fun entry => field entry = field y) then xs else xs ++ [y]) ys := rfl

/-- The result starts with the first list; the entries added to it have fields that
are new and occur once. -/
theorem mergeAndDeduplicate_eq_append (field : α → β) (xs ys : List α) :
    ∃ zs, mergeAndDeduplicate field xs ys = xs ++ zs ∧ (zs.map field).Nodup ∧
      ∀ z ∈ zs, field z ∉ xs.map field := by
  -- The first list grows by what is kept, so the induction is over all of them.
  induction ys generalizing xs with
  | nil => exact ⟨[], by simp [mergeAndDeduplicate], by simp, by simp⟩
  | cons y ys ih =>
    rw [mergeAndDeduplicate_cons]
    by_cases hy : xs.any (fun entry => field entry = field y) = true
    · rw [if_pos hy]
      exact ih xs
    · rw [if_neg hy]
      obtain ⟨zs, hzs, hnodup, hnew⟩ := ih (xs ++ [y])
      have hfresh : field y ∉ xs.map field := by
        intro hmem
        obtain ⟨x, hx, hxy⟩ := List.mem_map.mp hmem
        exact hy (List.any_eq_true.mpr ⟨x, hx, by simpa using hxy⟩)
      refine ⟨y :: zs, by rw [hzs]; simp, ?_, ?_⟩
      · rw [List.map_cons, List.nodup_cons]
        refine ⟨fun hmem => ?_, hnodup⟩
        obtain ⟨z, hz, hzy⟩ := List.mem_map.mp hmem
        exact hnew z hz (by rw [hzy]; simp)
      · intro z hz
        rcases List.mem_cons.mp hz with rfl | hz
        · exact hfresh
        · intro hmem
          exact hnew z hz (by rw [List.map_append]; exact List.mem_append_left _ hmem)

/-- Entries with new and distinct fields are appended as they are. -/
theorem mergeAndDeduplicate_of_nodup (field : α → β) (xs zs : List α)
    (hnodup : (zs.map field).Nodup) (hnew : ∀ z ∈ zs, field z ∉ xs.map field) :
    mergeAndDeduplicate field xs zs = xs ++ zs := by
  induction zs generalizing xs with
  | nil => simp [mergeAndDeduplicate]
  | cons z zs ih =>
    have hz : ¬ xs.any (fun entry => field entry = field z) = true := by
      intro hany
      obtain ⟨x, hx, hxz⟩ := List.any_eq_true.mp hany
      exact hnew z (by simp) (List.mem_map.mpr ⟨x, hx, by simpa using hxz⟩)
    rw [List.map_cons, List.nodup_cons] at hnodup
    rw [mergeAndDeduplicate_cons, if_neg hz, ih (xs ++ [z]) hnodup.2 (fun w hw hmem => ?_)]
    · simp
    · rw [List.map_append, List.mem_append] at hmem
      rcases hmem with hmem | hmem
      · exact hnew w (by simp [hw]) hmem
      · have hwz : field w = field z := by simpa using hmem
        exact hnodup.1 (hwz ▸ List.mem_map_of_mem hw)

/-- Merging the first list into a merge a second time changes nothing. -/
theorem mergeAndDeduplicate_absorb (field : α → β) (xs ys : List α) :
    mergeAndDeduplicate field xs (mergeAndDeduplicate field xs ys) =
      mergeAndDeduplicate field xs ys := by
  obtain ⟨zs, hzs, hnodup, hnew⟩ := mergeAndDeduplicate_eq_append field xs ys
  rw [hzs]
  have hsplit : mergeAndDeduplicate field xs (xs ++ zs) =
      mergeAndDeduplicate field (mergeAndDeduplicate field xs xs) zs := List.foldl_append ..
  rw [hsplit, mergeAndDeduplicate_of_fields_mem field xs xs (fun y hy => List.mem_map_of_mem hy),
    mergeAndDeduplicate_of_nodup field xs zs hnodup hnew]

end Merge

/-- `merge`: list by list, the base's entries first. -/
def merge (base addition : ABI) (version : Str) : ABI where
  version := version
  action_results :=
    mergeAndDeduplicate (fun e => e.name.toString) base.action_results addition.action_results
  types := mergeAndDeduplicate (fun e => e.new_type_name) base.types addition.types
  structs := mergeAndDeduplicate (fun e => e.name) base.structs addition.structs
  actions := mergeAndDeduplicate (fun e => e.name.toString) base.actions addition.actions
  tables := mergeAndDeduplicate (fun e => e.name.toString) base.tables addition.tables
  ricardian_clauses :=
    mergeAndDeduplicate (fun e => e.id) base.ricardian_clauses addition.ricardian_clauses
  variants := mergeAndDeduplicate (fun e => e.name) base.variants addition.variants

/-- Merging the same base a second time changes nothing. -/
theorem merge_merge (base addition : ABI) (version : Str) :
    merge base (merge base addition version) version = merge base addition version := by
  unfold merge
  simp only [mergeAndDeduplicate_absorb]

/-! ## The cache and its critical sections -/

/-- `cache_` and `partial_`: what is cached, and which of it came from merged partial
ABIs only. -/
structure Cache where
  entry : Str → Option ABI := fun _ => none
  partialKeys : Str → Bool := fun _ => false

/-- The first critical section of `getAbi`: the cached ABI, unless it is partial. -/
def check (c : Cache) (account : Name) : Option ABI :=
  match c.entry account.toString with
  | some abi => if c.partialKeys account.toString then none else some abi
  | none => none

/-- The second critical section of `getAbi`, on the raw ABI the chain answered with:
the cache after it and the result of the call. -/
def complete (c : Cache) (account : Name) (blob : Bytes) : Cache × Result ABI :=
  let key := account.toString
  if blob ≠ [] then
    match ABI.ofBlob blob with
    | .error e => (c, .error e)
    | .ok chainAbi =>
      let resolved := match c.entry key with
        | some record => merge chainAbi record chainAbi.version
        | none => chainAbi
      ({ entry := Function.update c.entry key (some resolved)
         partialKeys := Function.update c.partialKeys key false }, .ok resolved)
  else
    match c.entry key with
    | some record => (c, .ok record)
    | none => (c, err .notFound (lit "ABI for " ++ key ++ lit " could not be loaded."))

/-- `setAbi`, one critical section. -/
def setAbi (c : Cache) (account : Name) (abi : ABI) (merge_ : Bool) : Cache :=
  let key := account.toString
  match merge_, c.entry key with
  | true, some existing =>
    { c with entry := Function.update c.entry key (some (merge existing abi abi.version)) }
  | _, _ =>
    { entry := Function.update c.entry key (some abi)
      partialKeys := Function.update c.partialKeys key merge_ }

/-! ## Interleaved calls -/

/-- Where a caller's `getAbi` call stands. -/
inductive Phase where
  | idle
  | fetching (account : Name)
  | fetched (account : Name) (blob : Bytes)
  | returned (account : Name) (result : Result ABI)
  deriving DecidableEq

/-- The cache and every caller's phase. -/
structure State (ι : Type) where
  cache : Cache := {}
  phase : ι → Phase := fun _ => .idle

/-- What can happen next: a caller starts a call (its check), the chain answers it,
it completes; or somebody sets an ABI. -/
inductive Label (ι : Type) where
  | start (caller : ι) (account : Name)
  | fetch (caller : ι) (response : Result Bytes)
  | complete (caller : ι)
  | setAbi (account : Name) (abi : ABI) (merge_ : Bool)

/-- Where a call starting now stands after its check. -/
def startPhase (c : Cache) (account : Name) : Phase :=
  match check c account with
  | some abi => .returned account (.ok abi)
  | none => .fetching account

section System

variable {ι : Type}

/-- A call of `account` that starts in `s` returns exactly `abi`. -/
def ReturnsExactly (account : Name) (abi : ABI) (s : State ι) : Prop :=
  startPhase s.cache account = .returned account (.ok abi)

/-- Does this label set an ABI of `account`? -/
def Sets (account : Name) : Label ι → Prop
  | .setAbi other _ _ => other = account
  | _ => False

/-- A step adds nothing to `abi`: it is not the completion of a fetch of `account`
whose chain ABI, merged under `abi`, makes a different one. -/
def AddsNothing (account : Name) (abi : ABI) (s : State ι) : Label ι → Prop
  | .complete caller => ∀ blob chainAbi, s.phase caller = .fetched account blob → blob ≠ [] →
      ABI.ofBlob blob = .ok chainAbi → merge chainAbi abi chainAbi.version = abi
  | _ => True

/-- A call returns exactly `abi` when that is cached and not partial. -/
theorem returnsExactly_iff (account : Name) (abi : ABI) (s : State ι) :
    ReturnsExactly account abi s ↔ s.cache.entry account.toString = some abi ∧
      s.cache.partialKeys account.toString = false := by
  unfold ReturnsExactly startPhase check
  cases hentry : s.cache.entry account.toString with
  | none => simp
  | some record =>
    cases hreconciled : s.cache.partialKeys account.toString with
    | true => simp
    | false => simp

/-- Right after an explicit `setAbi`, a call returns exactly its ABI. -/
theorem setAbi_returnsExactly (s : State ι) (account : Name) (abi : ABI) :
    ReturnsExactly account abi { s with cache := setAbi s.cache account abi false } := by
  rw [returnsExactly_iff]
  simp [setAbi]

variable [DecidableEq ι]

/-- One atomic step. -/
def step (s : State ι) : Label ι → Option (State ι)
  | .start caller account =>
    match s.phase caller with
    | .idle | .returned _ _ =>
      some { s with phase := Function.update s.phase caller (startPhase s.cache account) }
    | _ => none
  | .fetch caller response =>
    match s.phase caller with
    | .fetching account =>
      let phase := match response with
        | .ok blob => .fetched account blob
        | .error e => .returned account (.error e)
      some { s with phase := Function.update s.phase caller phase }
    | _ => none
  | .complete caller =>
    match s.phase caller with
    | .fetched account blob =>
      let (cache, result) := complete s.cache account blob
      some { cache, phase := Function.update s.phase caller (.returned account result) }
    | _ => none
  | .setAbi account abi merge_ => some { s with cache := setAbi s.cache account abi merge_ }

/-- Two accounts share a cache key only when they are equal. -/
theorem key_ne {a b : Name} (h : a ≠ b) : a.toString ≠ b.toString :=
  fun heq => h (Name.toString_injective heq)

/-- A completion touches the entry of its own account only. -/
theorem complete_other (c : Cache) {account other : Name} (h : account ≠ other) (blob : Bytes) :
    (complete c other blob).1.entry account.toString = c.entry account.toString ∧
      (complete c other blob).1.partialKeys account.toString =
        c.partialKeys account.toString := by
  have hkey := key_ne h
  unfold complete
  by_cases hblob : blob ≠ []
  · rw [if_pos hblob]
    cases ABI.ofBlob blob with
    | error e => exact ⟨rfl, rfl⟩
    | ok chainAbi =>
      exact ⟨Function.update_of_ne hkey _ _, Function.update_of_ne hkey _ _⟩
  · rw [if_neg hblob]
    cases c.entry other.toString <;> exact ⟨rfl, rfl⟩

/-- So does `setAbi`. -/
theorem setAbi_other (c : Cache) {account other : Name} (h : account ≠ other) (abi : ABI)
    (merge_ : Bool) :
    (setAbi c other abi merge_).entry account.toString = c.entry account.toString ∧
      (setAbi c other abi merge_).partialKeys account.toString =
        c.partialKeys account.toString := by
  have hkey := key_ne h
  unfold setAbi
  cases merge_ with
  | false => exact ⟨Function.update_of_ne hkey _ _, Function.update_of_ne hkey _ _⟩
  | true =>
    cases hentry : c.entry other.toString with
    | none =>
      simp only [hentry]
      exact ⟨Function.update_of_ne hkey _ _, Function.update_of_ne hkey _ _⟩
    | some existing =>
      simp only [hentry]
      exact ⟨Function.update_of_ne hkey _ _, trivial⟩

/-- A completion that finds `abi` cached keeps it exactly when the chain ABI adds
nothing to it. -/
theorem complete_keeps_iff (c : Cache) (account : Name) (abi : ABI) (blob : Bytes)
    (hentry : c.entry account.toString = some abi)
    (hreconciled : c.partialKeys account.toString = false) :
    ((complete c account blob).1.entry account.toString = some abi ∧
      (complete c account blob).1.partialKeys account.toString = false) ↔
        (blob ≠ [] → ∀ chainAbi, ABI.ofBlob blob = .ok chainAbi →
          merge chainAbi abi chainAbi.version = abi) := by
  unfold complete
  by_cases hblob : blob ≠ []
  · rw [if_pos hblob]
    cases hparse : ABI.ofBlob blob with
    | error e => simp [hentry, hreconciled]
    | ok chainAbi => simp [hentry, hblob]
  · rw [if_neg hblob]
    simp [hentry, hreconciled, hblob]

/-- **One step keeps an explicit ABI exactly when it adds nothing to it.** -/
theorem step_returnsExactly_iff (account : Name) (abi : ABI) (s : State ι) (l : Label ι)
    (t : State ι) (hs : ReturnsExactly account abi s) (hl : ¬ Sets account l)
    (ht : step s l = some t) : ReturnsExactly account abi t ↔ AddsNothing account abi s l := by
  rw [returnsExactly_iff] at hs ⊢
  obtain ⟨hentry, hreconciled⟩ := hs
  cases l with
  | start caller other =>
    simp only [step] at ht
    split at ht <;> cases ht <;> simp [AddsNothing, hentry, hreconciled]
  | fetch caller response =>
    simp only [step] at ht
    split at ht <;> cases ht
    simp [AddsNothing, hentry, hreconciled]
  -- The only step that can touch the entry: the fetched ABI is merged into it.
  | complete caller =>
    simp only [step] at ht
    cases hphase : s.phase caller with
    | fetched other blob =>
      rw [hphase] at ht
      cases ht
      by_cases hother : account = other
      · subst hother
        rw [complete_keeps_iff s.cache account abi blob hentry hreconciled]
        simp only [AddsNothing, hphase, Phase.fetched.injEq, true_and]
        constructor
        · rintro h b chainAbi rfl hb hparse
          exact h hb chainAbi hparse
        · intro h hb chainAbi hparse
          exact h blob chainAbi rfl hb hparse
      · obtain ⟨he, hp⟩ := complete_other s.cache hother blob
        have hne : other ≠ account := fun h => hother h.symm
        simp [AddsNothing, hphase, he, hp, hentry, hreconciled, hne]
    | idle => rw [hphase] at ht; cases ht
    | fetching other => rw [hphase] at ht; cases ht
    | returned other result => rw [hphase] at ht; cases ht
  | setAbi other abi' merge_ =>
    have hne : account ≠ other := fun h => hl h.symm
    obtain ⟨he, hp⟩ := setAbi_other s.cache hne abi' merge_
    cases ht
    simp [AddsNothing, he, hp, hentry, hreconciled]

/-- Merging an ABI with itself gives it back. -/
theorem merge_self (abi : ABI) : merge abi abi abi.version = abi := by
  have hself : ∀ {α β : Type} [DecidableEq β] (field : α → β) (xs : List α),
      mergeAndDeduplicate field xs xs = xs :=
    fun field xs => mergeAndDeduplicate_of_fields_mem field xs xs
      (fun y hy => List.mem_map_of_mem hy)
  unfold merge
  simp only [hself]

/-- Completing the same answer a second time changes nothing. -/
theorem complete_complete (c : Cache) (account : Name) (blob : Bytes) :
    (complete (complete c account blob).1 account blob).1 = (complete c account blob).1 := by
  unfold complete
  by_cases hblob : blob ≠ []
  · simp only [if_pos hblob]
    cases ABI.ofBlob blob with
    | error e => rfl
    | ok chainAbi =>
      cases c.entry account.toString with
      | none => simp [merge_self]
      | some record => simp [merge_merge]
  · simp only [if_neg hblob]
    cases hentry : c.entry account.toString <;> simp [hentry]

/-- **Completions that fetched the same ABI absorb each other**: whatever their order
and number, they leave the cache a single one of them leaves. -/
theorem completions_absorb (s : State ι) (account : Name) (blob : Bytes) (callers : List ι)
    (hne : callers ≠ []) (hnodup : callers.Nodup)
    (hphase : ∀ caller ∈ callers, s.phase caller = .fetched account blob) :
    ∃ t, Runs.run step s (callers.map .complete) = some t ∧
      t.cache = (complete s.cache account blob).1 := by
  induction callers generalizing s with
  | nil => exact absurd rfl hne
  | cons caller rest ih =>
    have hcaller : s.phase caller = .fetched account blob := hphase caller (by simp)
    set s' : State ι := {
      cache := (complete s.cache account blob).1
      phase := Function.update s.phase caller
        (.returned account (complete s.cache account blob).2) } with hs'
    have hstep : step s (.complete caller) = some s' := by
      simp only [step, hcaller, hs']
    rw [List.map_cons, Runs.run_cons, hstep, Option.bind_some]
    rw [List.nodup_cons] at hnodup
    cases rest with
    | nil => exact ⟨s', rfl, rfl⟩
    | cons next rest =>
      have hphase' : ∀ c ∈ next :: rest, s'.phase c = .fetched account blob := by
        intro c hc
        have hcne : c ≠ caller := fun h => hnodup.1 (h ▸ hc)
        rw [hs']
        show Function.update s.phase caller _ c = _
        rw [Function.update_of_ne hcne]
        exact hphase c (by simp [List.mem_cons.mp hc])
      -- The rest run from a cache that has the ABI: completing twice is completing once.
      obtain ⟨t, hrun, ht⟩ := ih s' (by simp) hnodup.2 hphase'
      exact ⟨t, hrun, by rw [ht, hs', complete_complete]⟩

/-- **The cache keeps an explicit ABI.**  After `setAbi(account, abi)`, along any run
without another `setAbi` of the account, calls starting in every state return exactly
`abi` if and only if no step adds something to it; and concurrent completions that
fetched the same ABI leave the cache that one of them leaves. -/
theorem setAbi_kept_iff (s : State ι) (account : Name) (abi : ABI) (ls : List (Label ι))
    (hls : ∀ l ∈ ls, ¬ Sets account l) :
    (Runs.AllStates step (ReturnsExactly account abi)
        { s with cache := setAbi s.cache account abi false } ls ↔
      Runs.AllSteps step (AddsNothing account abi)
        { s with cache := setAbi s.cache account abi false } ls) ∧
    (∀ (t : State ι) (blob : Bytes) (callers : List ι), callers ≠ [] → callers.Nodup →
      (∀ caller ∈ callers, t.phase caller = .fetched account blob) →
      ∃ u, Runs.run step t (callers.map .complete) = some u ∧
        u.cache = (complete t.cache account blob).1) := by
  refine ⟨?_, fun t blob callers hne hnodup hphase =>
    completions_absorb t account blob callers hne hnodup hphase⟩
  refine Runs.allStates_iff_allSteps step (I := fun _ => True) (fun _ _ _ _ _ _ => trivial)
    (fun s l t _ hs hl ht => step_returnsExactly_iff account abi s l t hs hl ht)
    (fun s l _ _ _ hnone => ?_) trivial (setAbi_returnsExactly s account abi) hls
  -- only the completion of a fetched call is conditional, and that one can be taken
  cases l with
  | complete caller =>
    intro blob chainAbi hphase
    simp [step, hphase] at hnone
  | start caller other => trivial
  | fetch caller response => trivial
  | setAbi other abi' merge_ => trivial

end System

/-- The raw ABI of a contract with one type definition, `a = b`. -/
def oneTypeBlob : Bytes := [0, 1, 1, 97, 1, 98, 0, 0, 0, 0, 0, 0]

/-- A call that was in flight when the account's ABI was set, and completes with no
chain ABI, leaves it as it was set. -/
theorem setAbi_kept_empty_fetch :
    let s : State ℕ := { phase := fun _ => .fetched (.ofString "eosio") [] }
    let s' : State ℕ := { s with cache := setAbi s.cache (.ofString "eosio") {} false }
    Runs.AllStates step (ReturnsExactly (.ofString "eosio") {}) s' [.complete 0] := by
  intro s s'
  refine (setAbi_kept_iff s (.ofString "eosio") {} [.complete 0] (by simp [Sets])).1.mpr ?_
  refine ⟨?_, fun t _ => trivial⟩
  rintro blob chainAbi hphase hblob
  cases hphase
  exact absurd rfl hblob

/-- A fetch in flight across an explicit `setAbi` merges the chain's type into it. -/
theorem setAbi_overwritten :
    let account : Name := .ofString "eosio"
    let s : State ℕ := {}
    ∃ t, Runs.run step s [.start 0 account, .fetch 0 (.ok oneTypeBlob),
        .setAbi account {} false, .complete 0] = some t ∧
      ¬ ReturnsExactly account {} t := by
  intro account s
  refine ⟨_, rfl, ?_⟩
  rw [returnsExactly_iff]
  rintro ⟨hentry, -⟩
  revert hentry
  decide

end ABICache

end Dwarfkit
