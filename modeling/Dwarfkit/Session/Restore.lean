/-
# Default flags when sessions are persisted and restored

`persistSession` clears the default flag of the other sessions of its chain, whether
its session is to be the default or not; `restoreAll` restores one session after the
other, each as the default.

* `flagOf_addSession` : the flags after one more session;
* `restoreSerialized_spec`, `restoreEach_spec` : what restoring one stored session does,
  and a list of them: the last of each chain ends up as its default;
* `defaultsKept_iff` : when the two leave the flags and the current session alone.
-/
import Dwarfkit.Session.Store

namespace Dwarfkit

open Effects

/-! ## Flags by identity -/

/-- The default flag stored for an identity. -/
def flagOf (l : List SerializedSession) (i : SerializedSession.Identity) : Bool :=
  l.any (fun e => e.identity = i && e.defaultFlag)

theorem flagOf_iff {l : List SerializedSession} {i : SerializedSession.Identity} :
    flagOf l i = true ↔ ∃ e ∈ l, e.identity = i ∧ e.defaultFlag = true := by
  simp [flagOf]

/-- Reading a list back does not change its flags. -/
@[simp]
theorem flagOf_stored (l : List SerializedSession) (i : SerializedSession.Identity) :
    flagOf (l.map SerializedSession.stored) i = flagOf l i := by
  unfold flagOf
  rw [List.any_map]
  rfl

/-- **The flags after one more session**: its own is the one it comes with, that of every
other identity of its chain is cleared, and the rest stays. -/
theorem flagOf_addSession (l : List SerializedSession) (x : SerializedSession)
    (i : SerializedSession.Identity) :
    flagOf (addSession l x) i =
      if i = x.identity then x.defaultFlag
      else if i.chain = x.chain then false
      else flagOf l i := by
  rw [Bool.eq_iff_iff, flagOf_iff]
  by_cases hown : i = x.identity
  · subst hown
    rw [if_pos rfl]
    constructor
    · rintro ⟨e, he, hidentity, hflag⟩
      obtain rfl | ⟨s, hs, hne, rfl⟩ := mem_addSession.mp he
      · exact hflag
      · rw [identity_clear] at hidentity
        exact absurd hidentity hne
    · intro hflag
      exact ⟨x, mem_addSession.mpr (.inl rfl), rfl, hflag⟩
  · rw [if_neg hown]
    -- Of another identity the flag is the list's, unless the new session's chain clears it.
    by_cases hchain : i.chain = x.chain
    · rw [if_pos hchain]
      constructor
      · rintro ⟨e, he, rfl, hflag⟩
        obtain rfl | ⟨s, hs, hne, rfl⟩ := mem_addSession.mp he
        · exact absurd rfl hown
        · have hs : s.chain = x.chain := by
            rw [identity_clear] at hchain
            exact hchain
          rw [if_pos hs] at hflag
          cases hflag
      · intro h
        cases h
    · rw [if_neg hchain, flagOf_iff]
      constructor
      · rintro ⟨e, he, rfl, hflag⟩
        obtain rfl | ⟨s, hs, hne, rfl⟩ := mem_addSession.mp he
        · exact absurd rfl hown
        · have hs' : s.chain ≠ x.chain := by
            rw [identity_clear] at hchain
            exact hchain
          rw [if_neg hs'] at hflag ⊢
          exact ⟨s, hs, rfl, hflag⟩
      · rintro ⟨e, he, rfl, hflag⟩
        refine ⟨e, mem_addSession.mpr (.inr ⟨e, he, hown, ?_⟩), rfl, hflag⟩
        exact (if_neg hchain).symm

/-- The identities after one more session. -/
theorem identity_mem_addSession {l : List SerializedSession} {x : SerializedSession}
    {i : SerializedSession.Identity} (h : i ∈ l.map SerializedSession.identity) :
    i ∈ (addSession l x).map SerializedSession.identity := by
  obtain ⟨e, he, rfl⟩ := List.mem_map.mp h
  by_cases hown : e.identity = x.identity
  · rw [hown]
    exact List.mem_map.mpr ⟨x, mem_addSession.mpr (.inl rfl), rfl⟩
  · exact List.mem_map.mpr ⟨_, mem_addSession.mpr (.inr ⟨e, he, hown, rfl⟩), identity_clear e _⟩

/-! ## One default after the other -/

/-- The last of some identities that is of a chain. -/
def lastOf (restored : List SerializedSession.Identity) (chain : Str) :
    Option SerializedSession.Identity :=
  (restored.filter (fun k => k.chain = chain)).getLast?

/-- The flags after each of some identities was made the default of its chain. -/
def afterDefaults (restored : List SerializedSession.Identity)
    (flags : SerializedSession.Identity → Bool) (i : SerializedSession.Identity) : Bool :=
  match lastOf restored i.chain with
  | some k => i = k
  | none => flags i

/-- The flags after one identity was made the default of its chain. -/
def setDefault (k : SerializedSession.Identity) (flags : SerializedSession.Identity → Bool)
    (i : SerializedSession.Identity) : Bool :=
  if i = k then true else if i.chain = k.chain then false else flags i

theorem lastOf_cons (k : SerializedSession.Identity) (restored : List SerializedSession.Identity)
    (chain : Str) :
    lastOf (k :: restored) chain =
      (lastOf restored chain).or (if k.chain = chain then some k else none) := by
  unfold lastOf
  by_cases hk : k.chain = chain
  · rw [List.filter_cons_of_pos (by simpa using hk), List.getLast?_cons, if_pos hk]
    cases (restored.filter (fun k => k.chain = chain)).getLast? with
    | none => rfl
    | some k' => rfl
  · rw [List.filter_cons_of_neg (by simpa using hk), if_neg hk, Option.or_none]

/-- The first one is overruled by the rest. -/
theorem afterDefaults_cons (k : SerializedSession.Identity)
    (restored : List SerializedSession.Identity) (flags : SerializedSession.Identity → Bool) :
    afterDefaults (k :: restored) flags = afterDefaults restored (setDefault k flags) := by
  funext i
  unfold afterDefaults
  rw [lastOf_cons]
  cases lastOf restored i.chain with
  | some k' => rfl
  | none =>
    rw [Option.none_or]
    unfold setDefault
    by_cases hk : k.chain = i.chain
    · rw [if_pos hk, if_pos hk.symm]
      by_cases hi : i = k
      · simp [hi]
      · simp [hi]
    · rw [if_neg hk, if_neg (fun h => hk (by rw [h])), if_neg (fun h => hk h.symm)]

namespace SessionKit

variable {W : Type}

/-- The identity of the current session. -/
def currentIdentity (storage : Storage) : Option SerializedSession.Identity :=
  (sessionOf (storage .session)).map SerializedSession.identity

/-- The identity a stored session is persisted under once it is restored: its chain id
and its names are read and written anew. -/
def restoredIdentity (serialized : SerializedSession) : SerializedSession.Identity where
  chain := (chainIdOr serialized.chain (.zero 32)).hexString
  actor := (Name.ofString serialized.actor).toString
  permission := (Name.ofString serialized.permission).toString

/-- A stored session is found by its own identity. -/
theorem findStored_some {sessions : List SerializedSession} {serialized : SerializedSession}
    {chain : Checksum256} {args : RestoreArgs} {data : Option JsonText}
    {found : Option SerializedSession} (hchain : Checksum.ofHex 32 serialized.chain = .ok chain)
    (hmem : serialized.identity ∈ sessions.map SerializedSession.identity)
    (hlisted : listSessions data = .ok sessions) (hargs : args.chain = chain)
    (hactor : args.actor = some serialized.actor)
    (hpermission : args.permission = some serialized.permission)
    (hfound : findStored args data = .ok found) :
    ∃ s, found = some s ∧ chainIdOr s.chain args.chain = chain ∧ s.actor = serialized.actor ∧
      s.permission = serialized.permission := by
  obtain ⟨e, he, hidentity⟩ := List.mem_map.mp hmem
  obtain ⟨hechain, heactor, hepermission⟩ := SerializedSession.Identity.mk.inj hidentity
  have hparsed : ∀ {id fallback : Checksum256} {c : Str}, chainIdOr c (.zero 32) = id →
      fallback = id → chainIdOr c fallback = id := by
    intro id fallback c hid hfallback
    unfold chainIdOr at hid ⊢
    cases hof : (Checksum.ofHex 32 c).toOption with
    | none => exact hfallback
    | some v =>
      rw [hof] at hid
      exact hid
  have hefits : chainIdOr e.chain (.zero 32) = args.chain := by
    unfold chainIdOr
    rw [hechain, hchain, hargs]
    rfl
  cases data with
  | none =>
    cases hlisted
    cases he
  | some text =>
    have hparse : parseSessions text = .ok sessions := hlisted
    simp only [findStored, hparse, hactor, hpermission, ok_bind] at hfound
    cases hfound
    -- The stored session fits the search itself, so something is found.
    cases hfind : sessions.find? (fun s => chainIdOr s.chain (.zero 32) = args.chain ∧
        s.actor = serialized.actor ∧ s.permission = serialized.permission) with
    | none =>
      have hno := List.find?_eq_none.mp hfind e he
      exact absurd (decide_eq_true ⟨hefits, heactor, hepermission⟩) hno
    | some s =>
      have hs : chainIdOr s.chain (.zero 32) = args.chain ∧ s.actor = serialized.actor ∧
          s.permission = serialized.permission := by
        simpa using List.find?_some hfind
      exact ⟨s, rfl, hparsed (hs.1.trans hargs) hargs, hs.2.1, hs.2.2⟩

/-- **Restoring a session that is stored** persists its identity as the default. -/
theorem restoreSerialized_spec {kit : SessionKit W} {serialized : SerializedSession}
    {restored : Option (Session W)} {sessions : List SerializedSession} {s t : KitState W}
    (hmem : serialized.identity ∈ sessions.map SerializedSession.identity)
    (hlisted : listSessions (s.storage .sessions) = .ok sessions)
    (h : exec (kit.restoreSerialized serialized) s = (.ok restored, t)) :
    ∃ x : SerializedSession, x.identity = restoredIdentity serialized ∧ x.defaultFlag = true ∧
      listSessions (t.storage .sessions) =
        .ok ((addSession sessions x).map SerializedSession.stored) ∧
      currentIdentity t.storage = some x.identity := by
  obtain ⟨chain, hchain, h⟩ := exec_outcome_bind_ok.mp h
  obtain ⟨found, hfound, hcases⟩ := restoreArgs_spec h
  obtain ⟨stored, rfl, hstored, hactor, hpermission⟩ :=
    findStored_some hchain hmem hlisted rfl rfl rfl hfound
  obtain ⟨hnone, -⟩ | ⟨stored', session, u, hsome, -, hsession, hu, hpersist⟩ := hcases
  · cases hnone
  · cases hsome
    obtain ⟨hid, hlevel⟩ := restoreFound_spec hsession
    obtain ⟨-, hcurrent, -, listed, hlisted', hlist⟩ := persistSession_spec hpersist
    rw [hu, hlisted] at hlisted'
    cases hlisted'
    -- The chain of the restored session is the one its stored hex reads as.
    have hidentity : session.identity = restoredIdentity serialized := by
      unfold Session.identity restoredIdentity
      rw [hid, hstored, hlevel, hactor, hpermission]
      unfold chainIdOr
      rw [hchain]
      rfl
    refine ⟨persisted session true u.world, hidentity, rfl, hlist, ?_⟩
    unfold currentIdentity
    rw [hcurrent rfl]
    rfl

/-- **Restoring one stored session after the other** leaves the last of each chain as its
default, and the last of all as the current session. -/
theorem restoreEach_spec {kit : SessionKit W} (l : List SerializedSession)
    {restored : List (Option (Session W))} {sessions : List SerializedSession} {s t : KitState W}
    (hmem : ∀ e ∈ l, e.identity ∈ sessions.map SerializedSession.identity)
    (hlisted : listSessions (s.storage .sessions) = .ok sessions)
    (h : exec (l.mapM (fun serialized => kit.restoreSerialized serialized)) s = (.ok restored, t)) :
    flagOf (sessionsOf (t.storage .sessions)) =
        afterDefaults (l.map restoredIdentity) (flagOf sessions) ∧
      currentIdentity t.storage =
        ((l.map restoredIdentity).getLast?).or (currentIdentity s.storage) := by
  induction l generalizing sessions s restored with
  | nil =>
    cases h
    rw [sessionsOf_listed hlisted]
    exact ⟨rfl, rfl⟩
  | cons e l ih =>
    rw [List.mapM_cons] at h
    obtain ⟨first, u, hfirst, h⟩ := exec_bind_ok.mp h
    obtain ⟨rest, v, hrest, h⟩ := exec_bind_ok.mp h
    cases h
    obtain ⟨x, hidentity, hflag, hlist, hcurrent⟩ :=
      restoreSerialized_spec (hmem e (by simp)) hlisted hfirst
    have hstep : flagOf ((addSession sessions x).map SerializedSession.stored) =
        setDefault (restoredIdentity e) (flagOf sessions) := by
      funext i
      rw [flagOf_stored, flagOf_addSession, hflag, ← hidentity]
      rfl
    -- Adding a session drops no identity, so the others are still stored.
    have hmem' : ∀ e' ∈ l, e'.identity ∈
        ((addSession sessions x).map SerializedSession.stored).map SerializedSession.identity := by
      intro e' he'
      rw [map_identity_stored]
      exact identity_mem_addSession (hmem e' (by simp [he']))
    obtain ⟨hflags, hlast⟩ := ih hmem' hlist hrest
    rw [List.map_cons, afterDefaults_cons, ← hstep]
    refine ⟨hflags, ?_⟩
    rw [hlast, hcurrent, hidentity, List.getLast?_cons]
    cases (l.map restoredIdentity).getLast? with
    | none => rfl
    | some k => rfl

/-! ## Who keeps the defaults -/

/-- The stored sessions keep their default flags from one storage to another, but for one
identity. -/
def FlagsKept (other : SerializedSession.Identity → Prop) (before after : Storage) : Prop :=
  ∀ e ∈ sessionsOf (before .sessions), other e.identity →
    flagOf (sessionsOf (after .sessions)) e.identity =
      flagOf (sessionsOf (before .sessions)) e.identity

/-- **Persisting without default**: the current session stays; the flags do exactly if no
other session of the chain is its default. -/
theorem persistSession_flagsKept_iff {session : Session W} {s t : KitState W}
    (h : exec (persistSession session false) s = (.ok (), t)) :
    t.storage .session = s.storage .session ∧
      (FlagsKept (fun i => i ≠ session.identity) s.storage t.storage ↔
        ∀ e ∈ sessionsOf (s.storage .sessions), e.identity ≠ session.identity →
          e.chain = session.identity.chain → e.defaultFlag = false) := by
  obtain ⟨-, -, hother, listed, hlisted, hlist⟩ := persistSession_spec h
  refine ⟨hother rfl, ?_⟩
  unfold FlagsKept
  rw [sessionsOf_listed hlisted, sessionsOf_listed hlist]
  constructor
  · intro hkept e he hne hchain
    have hflag := hkept e he hne
    rw [flagOf_stored, flagOf_addSession, identity_persisted, chain_persisted, if_neg hne,
      if_pos (show e.identity.chain = session.identity.chain from hchain)] at hflag
    by_contra htrue
    rw [Bool.not_eq_false] at htrue
    exact absurd (flagOf_iff.mpr ⟨e, he, rfl, htrue⟩) (by rw [← hflag]; decide)
  · intro hnone e he hne
    rw [flagOf_stored, flagOf_addSession, identity_persisted, chain_persisted, if_neg hne]
    by_cases hchain : e.identity.chain = session.identity.chain
    · rw [if_pos hchain]
      by_contra hflag
      obtain ⟨e', he', hidentity, htrue⟩ := flagOf_iff.mp (Bool.eq_true_of_not_eq_false (Ne.symm hflag))
      have hchain' : e'.chain = session.identity.chain :=
        (congrArg SerializedSession.Identity.chain hidentity).trans hchain
      rw [hnone e' he' (by rw [hidentity]; exact hne) hchain'] at htrue
      cases htrue
    · rw [if_neg hchain]

/-- The identities that `restoreAll` restores, in its order. -/
def restoredIdentities (kit : SessionKit W) (storage : Storage) :
    List SerializedSession.Identity :=
  ((sessionsOf (storage .sessions)).filter kit.registered).map restoredIdentity

/-- **Restoring all sessions**: the flags after it, and the current session. -/
theorem restoreAll_spec {kit : SessionKit W} {restored : List (Session W)} {s t : KitState W}
    (h : exec kit.restoreAll s = (.ok restored, t)) :
    flagOf (sessionsOf (t.storage .sessions)) =
        afterDefaults (kit.restoredIdentities s.storage) (flagOf (sessionsOf (s.storage .sessions))) ∧
      currentIdentity t.storage =
        ((kit.restoredIdentities s.storage).getLast?).or (currentIdentity s.storage) := by
  obtain ⟨sessions, u, hsessions, h⟩ := exec_bind_ok.mp h
  obtain ⟨rfl, listed, hlisted, rfl⟩ := getSessions_spec hsessions
  obtain ⟨each, v, heach, h⟩ := exec_bind_ok.mp h
  cases h
  have hmem : ∀ e ∈ listed.filter kit.registered, e.identity ∈ listed.map SerializedSession.identity :=
    fun e he => List.mem_map_of_mem (List.mem_filter.mp he).1
  obtain ⟨hflags, hcurrent⟩ := restoreEach_spec _ hmem hlisted heach
  unfold restoredIdentities
  rw [sessionsOf_listed hlisted]
  exact ⟨hflags, hcurrent⟩

/-- The sessions that `restoreAll` restores are in an order that ends, for each chain, with
its default, and at the end with the current session. -/
def EndsWithDefaults (kit : SessionKit W) (storage : Storage) : Prop :=
  (∀ e ∈ sessionsOf (storage .sessions), ∀ k, lastOf (kit.restoredIdentities storage) e.chain = some k →
    (flagOf (sessionsOf (storage .sessions)) e.identity = true ↔ e.identity = k)) ∧
  ∀ k, (kit.restoredIdentities storage).getLast? = some k → currentIdentity storage = some k

theorem restoreAll_flagsKept_iff {kit : SessionKit W} {restored : List (Session W)}
    {s t : KitState W} (h : exec kit.restoreAll s = (.ok restored, t)) :
    (FlagsKept (fun _ => True) s.storage t.storage ∧
        currentIdentity t.storage = currentIdentity s.storage) ↔
      kit.EndsWithDefaults s.storage := by
  obtain ⟨hflags, hcurrent⟩ := restoreAll_spec h
  unfold FlagsKept EndsWithDefaults
  rw [hflags, hcurrent]
  apply and_congr
  · apply forall₂_congr
    intro e he
    rw [forall_const]
    unfold afterDefaults
    show _ ↔ ∀ k, lastOf (kit.restoredIdentities s.storage) e.chain = some k → _
    show (match lastOf (kit.restoredIdentities s.storage) e.chain with
      | some k => decide (e.identity = k)
      | none => flagOf (sessionsOf (s.storage .sessions)) e.identity) = _ ↔ _
    cases lastOf (kit.restoredIdentities s.storage) e.chain with
    | none => simp
    | some k =>
      simp only [Option.some.injEq, forall_eq']
      rw [Bool.eq_iff_iff, decide_eq_true_iff]
      exact ⟨fun h => h.symm, fun h => h.symm⟩
  · cases (kit.restoredIdentities s.storage).getLast? with
    | none => simp
    | some k =>
      simp only [Option.some_or, Option.some.injEq, forall_eq']
      exact eq_comm

/-- **Who keeps the defaults**: persisting a session without making it the default keeps
the current session, and the flags of the other sessions exactly if none of them is the
default of its chain; restoring all sessions keeps both exactly if they are restored in
an order that ends with them. -/
theorem defaultsKept_iff :
    (∀ (session : Session W) (s t : KitState W),
      exec (persistSession session false) s = (.ok (), t) →
        t.storage .session = s.storage .session ∧
          (FlagsKept (fun i => i ≠ session.identity) s.storage t.storage ↔
            ∀ e ∈ sessionsOf (s.storage .sessions), e.identity ≠ session.identity →
              e.chain = session.identity.chain → e.defaultFlag = false)) ∧
      ∀ (kit : SessionKit W) (s t : KitState W) (restored : List (Session W)),
        exec kit.restoreAll s = (.ok restored, t) →
          ((FlagsKept (fun _ => True) s.storage t.storage ∧
              currentIdentity t.storage = currentIdentity s.storage) ↔
            kit.EndsWithDefaults s.storage) :=
  ⟨fun _ _ _ h => persistSession_flagsKept_iff h, fun _ _ _ _ h => restoreAll_flagsKept_iff h⟩

end SessionKit

/-! ## A kit with two accounts -/

namespace Sample

open SessionKit

/-- A wallet plugin without data of its own that answers with one account. -/
def plugin (id : Str) (chain : Checksum256) (actor : Str) : WalletPlugin Unit where
  id := id
  data := fun _ => .obj []
  setData := fun _ w => w
  login := fun context =>
    pure ({ chain, permissionLevel := { actor := .ofString actor, permission := .ofString "active" } },
      context)

/-- A user interface that names the first wallet plugin. -/
def ui : UserInterface Unit where
  login := fun context => pure ({}, context)

/-- A kit for one chain with one wallet plugin. -/
def kit : SessionKit Unit where
  chains := [{}]
  ui := ui
  walletPlugins := [plugin "wallet" (.zero 32) "alice"]

/-- A session on the kit's chain, of the kit's wallet plugin or another one. -/
def session (actor : Str) (wallet : Str := "wallet") : Session Unit where
  chain := {}
  permissionLevel := { actor := .ofString actor, permission := .ofString "active" }
  walletPlugin := plugin wallet (.zero 32) actor

/-- The state after a member of the kit. -/
def after {α : Type} (x : KitM Unit α) (s : KitState Unit) : KitState Unit := (exec x s).2

theorem exec_after {α : Type} {x : KitM Unit α} {s : KitState Unit}
    (h : (exec x s).1.toOption.isSome = true) : ∃ a, exec x s = (.ok a, after x s) :=
  exec_of_isSome h

/-- Nothing stored yet. -/
def empty : KitState Unit := ⟨fun _ => none, ()⟩

/-- Bob is stored, but not as a default. -/
def bobIsStored : KitState Unit := after (persistSession (session "bob") false) empty

/-- Bob is stored, then alice as the default and current session. -/
def aliceIsDefault : KitState Unit :=
  after (persistSession (session "alice")) (after (persistSession (session "bob")) empty)

end Sample

namespace SessionKit

open Sample

/-- Bob persisted without default takes it from alice; restoring alice and bob makes bob
the default and the current session. -/
theorem defaults_moved :
    (flagOf (sessionsOf (aliceIsDefault.storage .sessions)) (session "alice").identity = true ∧
      (exec (persistSession (session "carol") false) aliceIsDefault).1.toOption = some () ∧
      flagOf (sessionsOf ((after (persistSession (session "carol") false) aliceIsDefault).storage
        .sessions)) (session "alice").identity = false) ∧
    (exec kit.restoreAll aliceIsDefault).1.toOption.isSome = true ∧
    currentIdentity aliceIsDefault.storage = some (session "alice").identity ∧
    currentIdentity (after kit.restoreAll aliceIsDefault).storage = some (session "bob").identity ∧
    flagOf (sessionsOf ((after kit.restoreAll aliceIsDefault).storage .sessions))
      (session "alice").identity = false := by
  decide +kernel

/-- Carol persisted next to bob, who is no default, changes no flag; restoring bob alone
does what the order of the stored sessions says. -/
theorem defaultsKept_bob :
    FlagsKept (fun i => i ≠ (session "carol").identity) bobIsStored.storage
        (after (persistSession (session "carol") false) bobIsStored).storage ∧
      ((FlagsKept (fun _ => True) bobIsStored.storage (after kit.restoreAll bobIsStored).storage ∧
          currentIdentity (after kit.restoreAll bobIsStored).storage =
            currentIdentity bobIsStored.storage) ↔ kit.EndsWithDefaults bobIsStored.storage) := by
  obtain ⟨_, hpersist⟩ := exec_after
    (show (exec (persistSession (session "carol") false) bobIsStored).1.toOption.isSome = true by
      decide +kernel)
  obtain ⟨restored, hrestore⟩ := exec_after
    (show (exec kit.restoreAll bobIsStored).1.toOption.isSome = true by decide +kernel)
  have hnone : ∀ e ∈ sessionsOf (bobIsStored.storage .sessions), e.defaultFlag = false := by
    decide +kernel
  exact ⟨(defaultsKept_iff.1 (session "carol") bobIsStored _ hpersist).2.mpr
    (fun e he _ _ => hnone e he), defaultsKept_iff.2 kit bobIsStored _ restored hrestore⟩

end SessionKit

end Dwarfkit
