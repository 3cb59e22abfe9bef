/-
# What a logout leaves

`logout` of one session writes back the sessions it read through `getSessions`, which
shows those of registered wallet plugins only, and removes the current session whichever
it is.  It does so step by step, so an error leaves some of it done.

* `logoutSession_removesExactly_iff` : when a logout removes its session and nothing else;
* `logoutSerialized_error`, `logout_error` : what is stored after a logout that fails.
-/
import Dwarfkit.Session.Restore

namespace Dwarfkit

open Effects

/-- A filter drops nothing from a filtered list exactly if all that passes the one passes
the other. -/
theorem length_filter_filter {α : Type} (p q : α → Bool) (l : List α) :
    ((l.filter p).filter q).length = (l.filter q).length ↔ ∀ a ∈ l, q a = true → p a = true := by
  have hsub : ((l.filter p).filter q).Sublist (l.filter q) := List.filter_sublist.filter q
  constructor
  · intro hlength a ha hq
    have hmem : a ∈ (l.filter p).filter q := by
      rw [hsub.eq_of_length hlength]
      exact List.mem_filter.mpr ⟨ha, hq⟩
    exact (List.mem_filter.mp (List.mem_filter.mp hmem).1).2
  · intro hall
    rw [List.filter_filter]
    congr 1
    apply List.filter_congr
    intro a ha
    cases hq : q a with
    | false => rfl
    | true => rw [hall a ha hq]; rfl

namespace SessionKit

variable {W : Type}

/-! ## What is removed -/

/-- The current session is the one of an identity. -/
def HeldBy (storage : Storage) (i : SerializedSession.Identity) : Prop :=
  currentIdentity storage = some i

instance (storage : Storage) (i : SerializedSession.Identity) : Decidable (HeldBy storage i) :=
  inferInstanceAs (Decidable (_ = _))

/-- The list loses the entries of one identity and keeps every other as it is, and the
current session is removed if it is the one of that identity, and stays if it is not. -/
def RemovesExactly (i : SerializedSession.Identity) (before after : Storage) : Prop :=
  (sessionsOf (after .sessions)).map SerializedSession.toJSON =
      ((sessionsOf (before .sessions)).filter (fun e => e.identity ≠ i)).map
        SerializedSession.toJSON ∧
    after .session = if HeldBy before i then none else before .session

/-- **Logging out of a stored session removes exactly it** if all other sessions have a
registered wallet plugin, and the current session is that one or there is none. -/
theorem logoutSerialized_removesExactly_iff {kit : SessionKit W} {serialized : SerializedSession}
    {s t : KitState W} (h : exec (kit.logoutSerialized serialized) s = (.ok (), t)) :
    RemovesExactly serialized.identity s.storage t.storage ↔
      (∀ e ∈ sessionsOf (s.storage .sessions),
        e.identity ≠ serialized.identity → kit.registered e = true) ∧
      (s.storage .session = none ∨ HeldBy s.storage serialized.identity) := by
  obtain ⟨hsession, listed, hlisted, hlist⟩ := logoutSerialized_spec h
  have hdiffers : (fun e => !sameSession e serialized) =
      (fun e : SerializedSession => decide (e.identity ≠ serialized.identity)) := by
    funext e
    rw [Bool.eq_iff_iff, Bool.not_eq_true', ← Bool.not_eq_true, sameSession_iff]
    simp
  -- the entries that are written back are read as they were
  have hsame : ∀ l : List SerializedSession, (∀ e ∈ l, e ∈ listed) →
      (l.map SerializedSession.stored).map SerializedSession.toJSON =
        l.map SerializedSession.toJSON := by
    intro l hl
    rw [List.map_map]
    apply List.map_congr_left
    intro e he
    cases hdata : s.storage .sessions with
    | none =>
      rw [hdata] at hlisted
      cases hlisted
      exact absurd (hl e he) List.not_mem_nil
    | some text =>
      rw [hdata] at hlisted
      exact toJSON_stored_of_parsed hlisted (hl e he)
  unfold RemovesExactly
  rw [sessionsOf_listed hlist, sessionsOf_listed hlisted, hsession, hdiffers,
    hsame _ (fun e he => (List.mem_filter.mp (List.mem_filter.mp he).1).1)]
  apply and_congr
  · have hlength := length_filter_filter kit.registered
      (fun e => decide (e.identity ≠ serialized.identity)) listed
    simp only [decide_eq_true_eq] at hlength
    rw [← hlength]
    constructor
    · intro heq
      simpa using congrArg List.length heq
    · intro hlen
      rw [(List.filter_sublist.filter _).eq_of_length hlen]
  · by_cases hheld : HeldBy s.storage serialized.identity
    · rw [if_pos hheld]
      exact iff_of_true rfl (.inr hheld)
    · rw [if_neg hheld]
      constructor
      · intro hnone
        exact .inl hnone.symm
      · intro hnone
        exact (hnone.resolve_right hheld).symm

/-- **Logging out of a session removes exactly it** under the same condition. -/
theorem logoutSession_removesExactly_iff {kit : SessionKit W} {session : Session W}
    {s t : KitState W} (h : exec (kit.logoutSession session) s = (.ok (), t)) :
    RemovesExactly session.identity s.storage t.storage ↔
      (∀ e ∈ sessionsOf (s.storage .sessions),
        e.identity ≠ session.identity → kit.registered e = true) ∧
      (s.storage .session = none ∨ HeldBy s.storage session.identity) := by
  rw [logoutSession, exec_look_bind] at h
  exact logoutSerialized_removesExactly_iff h

/-- **Who removes exactly its session**: a logout, given the session or its serialized
form, does exactly if all other sessions have a registered wallet plugin, and the current
session is that one or there is none. -/
theorem logout_removesExactly_iff (kit : SessionKit W) (s t : KitState W) :
    (∀ session : Session W, exec (kit.logoutSession session) s = (.ok (), t) →
      (RemovesExactly session.identity s.storage t.storage ↔
        (∀ e ∈ sessionsOf (s.storage .sessions),
          e.identity ≠ session.identity → kit.registered e = true) ∧
        (s.storage .session = none ∨ HeldBy s.storage session.identity))) ∧
      ∀ serialized : SerializedSession, exec (kit.logoutSerialized serialized) s = (.ok (), t) →
        (RemovesExactly serialized.identity s.storage t.storage ↔
          (∀ e ∈ sessionsOf (s.storage .sessions),
            e.identity ≠ serialized.identity → kit.registered e = true) ∧
          (s.storage .session = none ∨ HeldBy s.storage serialized.identity)) :=
  ⟨fun _ h => logoutSession_removesExactly_iff h,
    fun _ h => logoutSerialized_removesExactly_iff h⟩

open Sample in
/-- Logging alice out, who is the current session, leaves bob. -/
theorem logout_alice_removesExactly :
    RemovesExactly (session "alice").identity aliceIsDefault.storage
      (after (kit.logoutSession (session "alice")) aliceIsDefault).storage := by
  obtain ⟨_, hlogout⟩ := exec_after
    (show (exec (kit.logoutSession (session "alice")) aliceIsDefault).1.toOption.isSome = true by
      decide +kernel)
  have hregistered : ∀ e ∈ sessionsOf (aliceIsDefault.storage .sessions),
      kit.registered e = true := by
    decide +kernel
  have hheld : HeldBy aliceIsDefault.storage (session "alice").identity := by
    decide +kernel
  exact ((logout_removesExactly_iff kit aliceIsDefault _).1 (session "alice") hlogout).mpr
    ⟨fun e he _ => hregistered e he, .inr hheld⟩

open Sample in
/-- A session whose wallet plugin is not registered in the kit is lost when another one is
logged out, and so is the current session. -/
theorem logout_removes_others :
    let s := after (persistSession (session "carol" "elsewhere") false) aliceIsDefault
    let t := after (kit.logoutSession (session "bob")) s
    (exec (kit.logoutSession (session "bob")) s).1.toOption.isSome = true ∧
      (session "carol").identity ∈ (sessionsOf (s.storage .sessions)).map
        SerializedSession.identity ∧
      (session "carol").identity ∉ (sessionsOf (t.storage .sessions)).map
        SerializedSession.identity ∧
      currentIdentity s.storage = some (session "alice").identity ∧
      currentIdentity t.storage = none := by
  decide +kernel

/-! ## What an error leaves -/

/-- **A logout of one session that fails** has removed the current session, and has left
the list as it was. -/
theorem logoutSerialized_error {kit : SessionKit W} {serialized : SerializedSession}
    {s t : KitState W} {e : Error}
    (h : exec (kit.logoutSerialized serialized) s = (.error e, t)) :
    t.storage = Function.update s.storage .session none := by
  rw [logoutSerialized, remove, exec_change_bind] at h
  obtain h | ⟨_, u, hplugin, h⟩ := exec_bind_error.mp h
  · exact (frames_logoutPlugin kit serialized).of_exec h
  · have hu : u.storage = Function.update s.storage .session none :=
      (frames_logoutPlugin kit serialized).of_exec hplugin
    obtain h | ⟨sessions, v, hsessions, h⟩ := exec_bind_error.mp h
    · exact ((frames_getSessions kit).of_exec h).trans hu
    · have hv : v.storage = u.storage := (frames_getSessions kit).of_exec hsessions
      obtain h | ⟨text, w, -, h⟩ := exec_bind_error.mp h
      · exact ((Frames.outcome _ _).of_exec h).trans (hv.trans hu)
      · cases h

/-- Without the current session the list is read as before. -/
theorem exec_getSessions_removed (kit : SessionKit W) (s : KitState W) :
    exec kit.getSessions { s with storage := Function.update s.storage .session none } =
      ((listSessions (s.storage .sessions)).map (List.filter kit.registered),
        { s with storage := Function.update s.storage .session none }) := by
  rw [exec_getSessions]
  show (Except.map _ (listSessions (Function.update s.storage .session none .sessions)), _) = _
  rw [Function.update_of_ne (by decide)]

/-- A logout of all sessions where none is stored does not fail. -/
theorem logout_of_nothing (kit : SessionKit W) {s : KitState W}
    (hnothing : s.storage .sessions = none) (e : Error) (t : KitState W) :
    exec kit.logout s ≠ (.error e, t) := by
  intro h
  have hsessions := exec_getSessions_removed kit s
  rw [hnothing] at hsessions
  rw [logout, remove, exec_change_bind, exec_bind_of_ok hsessions] at h
  cases h

/-- **A logout of all sessions that fails** has removed the current session; the list, too,
unless it could not be read. -/
theorem logout_error {kit : SessionKit W} {s t : KitState W} {e : Error}
    (h : exec kit.logout s = (.error e, t)) :
    t.storage =
      match listSessions (s.storage .sessions) with
      | .error _ => Function.update s.storage .session none
      | .ok _ => fun _ => none := by
  rw [logout, remove, exec_change_bind] at h
  obtain h | ⟨sessions, u, hsessions, h⟩ := exec_bind_error.mp h
  · have ht := (frames_getSessions kit).of_exec h
    change t.storage = Function.update s.storage .session none at ht
    rw [exec_getSessions_removed] at h
    cases hlisted : listSessions (s.storage .sessions) with
    | error e' => exact ht
    | ok listed =>
      simp only [hlisted] at h
      cases h
  · obtain ⟨rfl, listed, hlisted, rfl⟩ := getSessions_spec hsessions
    change listSessions (Function.update s.storage .session none .sessions) = _ at hlisted
    rw [Function.update_of_ne (by decide)] at hlisted
    rw [hlisted]
    rw [remove, exec_change_bind] at h
    rw [(Frames.forM (frames_logoutPlugin kit) _).of_exec h]
    funext key
    cases key with
    | session => rfl
    | sessions => rfl

/-- **What a failed logout leaves**: the current session is removed; the list is as it was
after a logout of one session, and after a logout of all of them if it could not be read,
and is removed if a wallet plugin failed.  So the stored values are those from before
exactly if there was no current session and, for a logout of all, the list could not be
read. -/
theorem logout_failed (kit : SessionKit W) (s t : KitState W) (e : Error) :
    (∀ session : Session W, exec (kit.logoutSession session) s = (.error e, t) →
      t.storage .session = none ∧ t.storage .sessions = s.storage .sessions ∧
        (t.storage = s.storage ↔ s.storage .session = none)) ∧
    (∀ serialized : SerializedSession, exec (kit.logoutSerialized serialized) s = (.error e, t) →
      t.storage .session = none ∧ t.storage .sessions = s.storage .sessions ∧
        (t.storage = s.storage ↔ s.storage .session = none)) ∧
    (exec kit.logout s = (.error e, t) →
      t.storage .session = none ∧
        t.storage .sessions =
          (if (listSessions (s.storage .sessions)).toOption.isSome then none
            else s.storage .sessions) ∧
        (t.storage = s.storage ↔ s.storage .session = none ∧
          (listSessions (s.storage .sessions)).toOption = none)) := by
  have hone : ∀ serialized : SerializedSession,
      exec (kit.logoutSerialized serialized) s = (.error e, t) →
        t.storage .session = none ∧ t.storage .sessions = s.storage .sessions ∧
          (t.storage = s.storage ↔ s.storage .session = none) := by
    intro serialized h
    rw [logoutSerialized_error h]
    refine ⟨rfl, rfl, fun hsame => ?_, fun hnone => ?_⟩
    · rw [← hsame]
      rfl
    · rw [← hnone]
      exact Function.update_eq_self _ _
  refine ⟨fun session h => ?_, hone, fun h => ?_⟩
  · rw [logoutSession, exec_look_bind] at h
    exact hone _ h
  · have hstorage := logout_error h
    cases hlisted : listSessions (s.storage .sessions) with
    | error e' =>
      rw [hlisted] at hstorage
      rw [hstorage]
      refine ⟨rfl, rfl, fun hsame => ⟨?_, rfl⟩, fun hnone => ?_⟩
      · rw [← hsame]
        rfl
      · rw [← hnone.1]
        exact Function.update_eq_self _ _
    | ok listed =>
      rw [hlisted] at hstorage
      rw [hstorage]
      refine ⟨rfl, rfl, fun hsame => ?_, fun hnone => absurd hnone.2 (by simp [Except.toOption])⟩
      -- a list that is not there has no plugin that could fail
      have hnothing : s.storage .sessions = none := by
        rw [← hsame]
      exact absurd h (logout_of_nothing kit hnothing e t)

end SessionKit

/-- The sample kit with a wallet plugin whose logout fails. -/
def Sample.offlineKit : SessionKit Unit :=
  { Sample.kit with
    walletPlugins := [{ Sample.plugin "wallet" (.zero 32) "alice" with
      hasLogout := true
      logout := fun _ => outcome (err .plugin "Wallet not reachable.") }] }

theorem Sample.exec_failed {α : Type} {x : KitM Unit α} {s : KitState Unit}
    (h : (exec x s).1.toOption.isNone = true) : ∃ e, exec x s = (.error e, Sample.after x s) :=
  exec_of_isNone h

namespace SessionKit

open Sample in
/-- When a wallet plugin fails, the current session is gone all the same; after a logout of
all sessions the list, too. -/
theorem logout_not_atomic :
    let s := aliceIsDefault
    (s.storage .session).isSome = true ∧ (s.storage .sessions).isSome = true ∧
      (exec (offlineKit.logoutSession (session "alice")) s).1.toOption.isNone = true ∧
      ((after (offlineKit.logoutSession (session "alice")) s).storage .session).isNone = true ∧
      (exec offlineKit.logout s).1.toOption.isNone = true ∧
      ((after offlineKit.logout s).storage .sessions).isNone = true := by
  decide +kernel

open Sample in
/-- The list is still there after alice could not be logged out. -/
theorem logout_failed_alice :
    let t := after (offlineKit.logoutSession (session "alice")) aliceIsDefault
    t.storage .session = none ∧ t.storage .sessions = aliceIsDefault.storage .sessions := by
  obtain ⟨e, hfailed⟩ := exec_failed
    (show (exec (offlineKit.logoutSession (session "alice")) aliceIsDefault).1.toOption.isNone =
      true by decide +kernel)
  have hleft := (logout_failed offlineKit aliceIsDefault _ e).1 (session "alice") hfailed
  exact ⟨hleft.1, hleft.2.1⟩

end SessionKit

end Dwarfkit
