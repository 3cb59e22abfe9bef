/-
# The store of a kit

What each member of a kit does to the storage when it succeeds, and the invariant
that all of them keep.

* `persistSession_spec`, `logoutSerialized_spec`, `logout_spec` : the two keys after a
  member that writes them;
* `restoreArgs_spec` : a restored session is persisted;
* `StoreInvariant` : the list is sorted strictly, with one default for a chain, and the
  current session is in it;
* `storeInvariant_run` : it holds after every sequence of members that succeed.
-/
import Dwarfkit.Library.Runs
import Dwarfkit.Session.Kit

namespace Dwarfkit

open Effects

/-! ## The list in the storage -/

/-- The sessions under the key `sessions`: none where nothing is stored yet. -/
def listSessions (data : Option JsonText) : Result (List SerializedSession) :=
  match data with
  | some text => parseSessions text
  | none => .ok []

theorem sessionsOf_listed {data : Option JsonText} {sessions : List SerializedSession}
    (h : listSessions data = .ok sessions) : sessionsOf data = sessions := by
  cases data with
  | none =>
    cases h
    rfl
  | some text => exact sessionsOf_parsed h

/-- A list that was written is the list that is there. -/
theorem listSessions_stringify {sessions : List SerializedSession} {text : JsonText}
    (h : stringifySessions sessions = .ok text) :
    listSessions (some text) = .ok (sessions.map SerializedSession.stored) :=
  parseSessions_stringify h

namespace SessionKit

variable {W : Type}

/-! ## Members that leave the storage alone -/

/-- A call into the world of the plugins does not touch the storage. -/
theorem frames_call {α : Type} (x : Effect W Error α) :
    Frames (fun s : KitState W => s.storage) (call x) :=
  fun _ => rfl

theorem frames_logoutPlugin (kit : SessionKit W) (serialized : SerializedSession) :
    Frames (fun s : KitState W => s.storage) (kit.logoutPlugin serialized) := by
  unfold logoutPlugin
  cases kit.findWalletPlugin serialized.walletPlugin.id with
  | none => exact Frames.pure _ ()
  | some plugin =>
    show Frames _ (if plugin.hasLogout then _ else _)
    by_cases hlogout : plugin.hasLogout = true
    · rw [if_pos hlogout]
      exact frames_call _
    · rw [if_neg hlogout]
      exact Frames.pure _ ()

theorem frames_getSessions (kit : SessionKit W) :
    Frames (fun s : KitState W => s.storage) kit.getSessions := by
  refine (Frames.look _ _).bind (fun data => ?_)
  cases data with
  | none => exact Frames.pure _ []
  | some text => exact (Frames.outcome _ _).bind (fun _ => Frames.pure _ _)

theorem frames_restoreFound (kit : SessionKit W) (args : RestoreArgs)
    (serialized : SerializedSession) :
    Frames (fun s : KitState W => s.storage) (kit.restoreFound args serialized) := by
  unfold restoreFound
  cases kit.findWalletPlugin serialized.walletPlugin.id with
  | none => exact Frames.outcome _ _
  | some plugin =>
    refine Frames.bind (Frames.change (fun _ => rfl)) (fun _ => ?_)
    exact (Frames.outcome _ _).bind (fun _ => Frames.pure _ _)

theorem frames_runHooks (hooks : List (LoginHook W)) (context : LoginContext) :
    Frames (fun s : KitState W => s.storage) (runHooks hooks context) := by
  unfold runHooks
  induction hooks generalizing context with
  | nil => exact Frames.pure _ context
  | cons hook hooks ih =>
    rw [List.foldlM_cons]
    exact (frames_call _).bind (fun context => ih context)

theorem frames_askUser (kit : SessionKit W) (plugin : Option (WalletPlugin W))
    (context : LoginContext) :
    Frames (fun s : KitState W => s.storage) (kit.askUser plugin context) := by
  unfold askUser
  by_cases hask : asksUser context = true
  · rw [if_pos hask]
    exact (frames_call _).bind (fun _ => (Frames.outcome _ _).bind (fun _ => Frames.pure _ _))
  · rw [if_neg hask]
    exact Frames.pure _ _

theorem frames_select (kit : SessionKit W) (options : LoginOptions) :
    Frames (fun s : KitState W => s.storage) (kit.select options) := by
  have hprepare : Frames (fun s : KitState W => s.storage) (kit.prepare options) :=
    (Frames.outcome _ _).bind (fun _ => (frames_call _).bind (fun _ => Frames.outcome _ _))
  refine hprepare.bind (fun _ => (frames_askUser kit _ _).bind (fun selected => ?_))
  rcases selected with ⟨_ | plugin, context⟩
  · exact Frames.outcome _ _
  · exact (Frames.outcome _ _).bind (fun _ => Frames.pure _ _)

/-! ## Persisting -/

/-- What `persistSession` stores of a session. -/
def persisted (session : Session W) (setAsDefault : Bool) (w : W) : SerializedSession :=
  { session.serialize w with isDefault := some setAsDefault }

@[simp]
theorem identity_persisted (session : Session W) (setAsDefault : Bool) (w : W) :
    (persisted session setAsDefault w).identity = session.identity := rfl

@[simp]
theorem chain_persisted (session : Session W) (setAsDefault : Bool) (w : W) :
    (persisted session setAsDefault w).chain = session.identity.chain := rfl

/-- **Adding to the list**: the list that is there must parse, and the session is added
to it. -/
theorem addToSessions_spec {serialized : SerializedSession} {s t : KitState W}
    (h : exec (addToSessions serialized) s = (.ok (), t)) :
    t.world = s.world ∧ t.storage .session = s.storage .session ∧
      ∃ listed, listSessions (s.storage .sessions) = .ok listed ∧
        listSessions (t.storage .sessions) =
          .ok ((addSession listed serialized).map SerializedSession.stored) := by
  have hwritten : ∀ {listed : List SerializedSession} {text : JsonText},
      stringifySessions listed = .ok text →
      exec (write .sessions text : KitM W Unit) s = (.ok (), t) →
      t.world = s.world ∧ t.storage .session = s.storage .session ∧
        listSessions (t.storage .sessions) = .ok (listed.map SerializedSession.stored) := by
    intro listed text htext hwrite
    cases hwrite
    exact ⟨rfl, rfl, listSessions_stringify htext⟩
  rw [addToSessions, read, exec_look_bind] at h
  cases hexisting : s.storage .sessions with
  | none =>
    rw [hexisting] at h
    obtain ⟨text, htext, h⟩ := exec_outcome_bind_ok.mp h
    obtain ⟨hworld, hsession, hlist⟩ := hwritten htext h
    exact ⟨hworld, hsession, [], rfl, hlist⟩
  | some data =>
    rw [hexisting] at h
    obtain ⟨listed, hparse, h⟩ := exec_outcome_bind_ok.mp h
    obtain ⟨text, htext, h⟩ := exec_outcome_bind_ok.mp h
    obtain ⟨hworld, hsession, hlist⟩ := hwritten htext h
    exact ⟨hworld, hsession, listed, hparse, hlist⟩

/-- **Persisting a session** adds it to the list, and makes it the current one if it is
to be the default. -/
theorem persistSession_spec {session : Session W} {setAsDefault : Bool} {s t : KitState W}
    (h : exec (persistSession session setAsDefault) s = (.ok (), t)) :
    t.world = s.world ∧
      (setAsDefault = true →
        sessionOf (t.storage .session) = some (persisted session true s.world).stored) ∧
      (setAsDefault = false → t.storage .session = s.storage .session) ∧
      ∃ listed, listSessions (s.storage .sessions) = .ok listed ∧
        listSessions (t.storage .sessions) =
          .ok ((addSession listed (persisted session setAsDefault s.world)).map
            SerializedSession.stored) := by
  rw [persistSession, exec_look_bind] at h
  cases setAsDefault with
  | false =>
    obtain ⟨hworld, hsession, hlist⟩ := addToSessions_spec h
    exact ⟨hworld, fun hfalse => absurd hfalse (by decide), fun _ => hsession, hlist⟩
  | true =>
    obtain ⟨_, u, hcurrent, h⟩ := exec_bind_ok.mp h
    obtain ⟨text, htext, hwrite⟩ := exec_outcome_bind_ok.mp hcurrent
    cases hwrite
    obtain ⟨hworld, hsession, hlist⟩ := addToSessions_spec h
    refine ⟨hworld, fun _ => ?_, fun hfalse => absurd hfalse (by decide), hlist⟩
    rw [hsession]
    exact sessionOf_dump htext

/-! ## Logging out -/

/-- `getSessions` reads the stored list and keeps the sessions of registered wallet
plugins. -/
theorem exec_getSessions (kit : SessionKit W) (s : KitState W) :
    exec kit.getSessions s =
      ((listSessions (s.storage .sessions)).map (List.filter kit.registered), s) := by
  rw [getSessions, read, exec_look_bind]
  cases s.storage .sessions with
  | none => rfl
  | some text =>
    change exec (outcome (parseSessions text) >>= _) s = ((parseSessions text).map _, s)
    cases parseSessions text with
    | error e => rfl
    | ok listed => rfl

/-- What `getSessions` reads: the sessions of registered wallet plugins. -/
theorem getSessions_spec {kit : SessionKit W} {sessions : List SerializedSession}
    {s t : KitState W} (h : exec kit.getSessions s = (.ok sessions, t)) :
    t = s ∧ ∃ listed, listSessions (s.storage .sessions) = .ok listed ∧
      sessions = listed.filter kit.registered := by
  rw [exec_getSessions] at h
  cases hlisted : listSessions (s.storage .sessions) with
  | error e =>
    rw [hlisted] at h
    cases h
  | ok listed =>
    rw [hlisted] at h
    cases h
    exact ⟨rfl, listed, rfl, rfl⟩

/-- **Logging out of one session** removes the current one, and writes back the sessions
of registered wallet plugins but for it. -/
theorem logoutSerialized_spec {kit : SessionKit W} {serialized : SerializedSession}
    {s t : KitState W} (h : exec (kit.logoutSerialized serialized) s = (.ok (), t)) :
    t.storage .session = none ∧
      ∃ listed, listSessions (s.storage .sessions) = .ok listed ∧
        listSessions (t.storage .sessions) =
          .ok (((listed.filter kit.registered).filter
            (fun session => !sameSession session serialized)).map SerializedSession.stored) := by
  rw [logoutSerialized, remove, exec_change_bind] at h
  obtain ⟨_, u, hplugin, h⟩ := exec_bind_ok.mp h
  have hu : u.storage = Function.update s.storage .session none :=
    (frames_logoutPlugin kit serialized).of_exec hplugin
  obtain ⟨sessions, v, hsessions, h⟩ := exec_bind_ok.mp h
  obtain ⟨rfl, listed, hlisted, rfl⟩ := getSessions_spec hsessions
  obtain ⟨text, htext, h⟩ := exec_outcome_bind_ok.mp h
  cases h
  rw [hu, Function.update_of_ne (by decide)] at hlisted
  refine ⟨?_, listed, hlisted, listSessions_stringify htext⟩
  show Function.update v.storage .sessions (some text) .session = none
  rw [Function.update_of_ne (by decide), hu, Function.update_self]

/-- **Logging out** of all sessions leaves nothing stored. -/
theorem logout_spec {kit : SessionKit W} {s t : KitState W}
    (h : exec kit.logout s = (.ok (), t)) : t.storage = fun _ => none := by
  rw [logout, remove, exec_change_bind] at h
  obtain ⟨sessions, v, hsessions, h⟩ := exec_bind_ok.mp h
  obtain ⟨rfl, -⟩ := getSessions_spec hsessions
  rw [remove, exec_change_bind] at h
  rw [(Frames.forM (frames_logoutPlugin kit) sessions).of_exec h]
  funext key
  cases key with
  | session => rfl
  | sessions => rfl

/-! ## Restoring -/

/-- The session a stored one is restored to. -/
theorem restoreFound_spec {kit : SessionKit W} {args : RestoreArgs}
    {serialized : SerializedSession} {session : Session W} {s t : KitState W}
    (h : exec (kit.restoreFound args serialized) s = (.ok session, t)) :
    session.chain.id = chainIdOr serialized.chain args.chain ∧
      session.permissionLevel =
        { actor := .ofString serialized.actor, permission := .ofString serialized.permission } := by
  unfold restoreFound at h
  cases hplugin : kit.findWalletPlugin serialized.walletPlugin.id with
  | none =>
    rw [hplugin] at h
    cases h
  | some plugin =>
    rw [hplugin] at h
    obtain ⟨_, u, -, h⟩ := exec_bind_ok.mp h
    obtain ⟨chain, hchain, h⟩ := exec_outcome_bind_ok.mp h
    cases h
    refine ⟨?_, rfl⟩
    unfold getChainDefinition at hchain
    cases hfind : (Option.getD none kit.chains).find?
        (fun c => c.id = chainIdOr serialized.chain args.chain) with
    | none =>
      rw [hfind] at hchain
      cases hchain
    | some found =>
      rw [hfind] at hchain
      cases hchain
      simpa using List.find?_some hfind

/-- **Restoring by arguments**: the session they name, if there is one, is persisted. -/
theorem restoreArgs_spec {kit : SessionKit W} {args : RestoreArgs} {options : LoginOptions}
    {restored : Option (Session W)} {s t : KitState W}
    (h : exec (kit.restoreArgs args options) s = (.ok restored, t)) :
    ∃ found, findStored args (s.storage .sessions) = .ok found ∧
      ((found = none ∧ restored = none ∧ t = s) ∨
        ∃ serialized session u, found = some serialized ∧ restored = some session ∧
          exec (kit.restoreFound args serialized) s = (.ok session, u) ∧ u.storage = s.storage ∧
          exec (persistSession session (options.setAsDefault.getD true)) u = (.ok (), t)) := by
  rw [restoreArgs, read, exec_look_bind] at h
  obtain ⟨found, hfound, h⟩ := exec_outcome_bind_ok.mp h
  refine ⟨found, hfound, ?_⟩
  cases found with
  | none =>
    cases h
    exact .inl ⟨rfl, rfl, rfl⟩
  | some serialized =>
    obtain ⟨session, v, hsession, h⟩ := exec_bind_ok.mp h
    obtain ⟨_, w, hpersist, h⟩ := exec_bind_ok.mp h
    cases h
    exact .inr ⟨serialized, session, v, rfl, rfl, hsession,
      (frames_restoreFound kit args serialized).of_exec hsession, hpersist⟩

end SessionKit

/-! ## The invariant -/

theorem StrictlySorted.filter {l : List SerializedSession} (h : StrictlySorted l)
    (p : SerializedSession → Bool) : StrictlySorted (l.filter p) :=
  List.Pairwise.filter p h

theorem OneDefault.filter {l : List SerializedSession} (h : OneDefault l)
    (p : SerializedSession → Bool) : OneDefault (l.filter p) :=
  fun a ha b hb => h a (List.mem_filter.mp ha).1 b (List.mem_filter.mp hb).1

/-- Reading back what was written keeps the order. -/
theorem StrictlySorted.stored {l : List SerializedSession} (h : StrictlySorted l) :
    StrictlySorted (l.map SerializedSession.stored) := by
  unfold StrictlySorted at h ⊢
  rw [List.pairwise_map]
  refine h.imp (fun {a b} hab => ?_)
  rw [comesBefore_iff] at hab ⊢
  exact hab

theorem OneDefault.stored {l : List SerializedSession} (h : OneDefault l) :
    OneDefault (l.map SerializedSession.stored) := by
  intro a ha b hb
  obtain ⟨a, hmema, rfl⟩ := List.mem_map.mp ha
  obtain ⟨b, hmemb, rfl⟩ := List.mem_map.mp hb
  exact h a hmema b hmemb

theorem map_identity_stored (l : List SerializedSession) :
    (l.map SerializedSession.stored).map SerializedSession.identity =
      l.map SerializedSession.identity := by
  rw [List.map_map]
  rfl

/-- In a sorted list with one default for a chain, at most one entry of it is a default. -/
theorem OneDefault.length_le {l : List SerializedSession} (hsorted : StrictlySorted l)
    (h : OneDefault l) (chain : Str) :
    (l.filter (fun s => s.chain = chain && s.defaultFlag)).length ≤ 1 := by
  have hnodup := (hsorted.filter (fun s => s.chain = chain && s.defaultFlag)).nodup
  have hsame : ∀ a ∈ l.filter (fun s => s.chain = chain && s.defaultFlag),
      ∀ b ∈ l.filter (fun s => s.chain = chain && s.defaultFlag), a.identity = b.identity := by
    intro a ha b hb
    simp only [List.mem_filter, Bool.and_eq_true, decide_eq_true_eq] at ha hb
    exact h a ha.1 b hb.1 (ha.2.1.trans hb.2.1.symm) ha.2.2 hb.2.2
  match hdefaults : l.filter (fun s => s.chain = chain && s.defaultFlag) with
  | [] => rw [hdefaults]; simp
  | [a] => rw [hdefaults]; simp
  | a :: b :: rest =>
    rw [hdefaults] at hnodup hsame
    have hne := (List.pairwise_cons.mp hnodup).1 b.identity (by simp)
    exact absurd (hsame a (by simp) b (by simp)) hne

/-- What holds of the storage between the members: the list parses, is sorted strictly by
chain, actor and permission, has one default for a chain, and holds the current
session. -/
structure StoreInvariant (storage : Storage) : Prop where
  readable : ∃ listed, listSessions (storage .sessions) = .ok listed
  sorted : StrictlySorted (sessionsOf (storage .sessions))
  oneDefault : OneDefault (sessionsOf (storage .sessions))
  current : ∀ data, storage .session = some data → ∃ current,
    sessionOf (some data) = some current ∧
      current.identity ∈ (sessionsOf (storage .sessions)).map SerializedSession.identity

/-- A storage whose list is known. -/
theorem StoreInvariant.of_listed {storage : Storage} {listed : List SerializedSession}
    (hlisted : listSessions (storage .sessions) = .ok listed) (hsorted : StrictlySorted listed)
    (hdefault : OneDefault listed)
    (hcurrent : ∀ data, storage .session = some data → ∃ current,
      sessionOf (some data) = some current ∧
        current.identity ∈ listed.map SerializedSession.identity) : StoreInvariant storage := by
  have hsessions := sessionsOf_listed hlisted
  refine ⟨⟨listed, hlisted⟩, ?_, ?_, ?_⟩
  · rw [hsessions]
    exact hsorted
  · rw [hsessions]
    exact hdefault
  · rw [hsessions]
    exact hcurrent

/-- It holds of the empty storage. -/
theorem storeInvariant_empty : StoreInvariant (fun _ => none) :=
  have hlisted : listSessions none = .ok [] := rfl
  .of_listed hlisted List.Pairwise.nil
    (fun a ha => absurd ha List.not_mem_nil) (fun data hdata => by cases hdata)

/-- The stored sessions, as they are supposed to be: the list is sorted strictly by chain,
actor and permission, names no identity twice, has at most one default for a chain, and
the current session is one of its entries. -/
def WellStored (storage : Storage) : Prop :=
  ∃ listed, listSessions (storage .sessions) = .ok listed ∧
    StrictlySorted listed ∧ (listed.map SerializedSession.identity).Nodup ∧
    (∀ chain, (listed.filter (fun s => s.chain = chain && s.defaultFlag)).length ≤ 1) ∧
    ∀ data, storage .session = some data → ∃ current,
      sessionOf (some data) = some current ∧
        current.identity ∈ listed.map SerializedSession.identity

theorem StoreInvariant.wellStored {storage : Storage} (h : StoreInvariant storage) :
    WellStored storage := by
  obtain ⟨listed, hlisted⟩ := h.readable
  have hsessions := sessionsOf_listed hlisted
  have hsorted : StrictlySorted listed := hsessions ▸ h.sorted
  have hone : OneDefault listed := hsessions ▸ h.oneDefault
  exact ⟨listed, hlisted, hsorted, hsorted.nodup, hone.length_le hsorted,
    fun data hdata => hsessions ▸ h.current data hdata⟩

namespace SessionKit

variable {W : Type}

/-- The invariant of a member's state. -/
def Invariant (s : KitState W) : Prop := StoreInvariant s.storage

/-- What does not touch the storage keeps its invariant. -/
theorem keeps_of_frames {α : Type} {x : KitM W α}
    (h : Frames (fun s : KitState W => s.storage) x) : Keeps Invariant x := by
  intro s a t hs hexec
  have hstorage : t.storage = s.storage := h.of_exec hexec
  unfold Invariant
  rw [hstorage]
  exact hs

/-- **Persisting keeps the invariant**. -/
theorem keeps_persistSession (session : Session W) (setAsDefault : Bool) :
    Keeps Invariant (persistSession session setAsDefault) := by
  intro s a t hs h
  obtain ⟨-, hdefault, hother, listed, hlisted, hlist⟩ := persistSession_spec h
  have hsessions := sessionsOf_listed hlisted
  have hsorted : StrictlySorted listed := hsessions ▸ hs.sorted
  have hone : OneDefault listed := hsessions ▸ hs.oneDefault
  -- an identity of the new list: the session's own, or one that was there
  have hmem : ∀ i, i = session.identity ∨ i ∈ listed.map SerializedSession.identity →
      i ∈ ((addSession listed (persisted session setAsDefault s.world)).map
        SerializedSession.stored).map SerializedSession.identity := by
    intro i hi
    rw [map_identity_stored]
    by_cases hsame : i = session.identity
    · subst hsame
      exact List.mem_map.mpr ⟨_, mem_addSession.mpr (.inl rfl), rfl⟩
    · obtain ⟨e, he, rfl⟩ := List.mem_map.mp (hi.resolve_left hsame)
      exact List.mem_map.mpr ⟨_, mem_addSession.mpr (.inr ⟨e, he, hsame, rfl⟩), identity_clear e _⟩
  refine .of_listed hlist (addSession_sorted hsorted.nodup).stored
    (addSession_oneDefault hone).stored (fun data hdata => ?_)
  cases setAsDefault with
  | true =>
    have hcurrent := hdefault rfl
    rw [hdata] at hcurrent
    exact ⟨_, hcurrent, hmem _ (.inl rfl)⟩
  | false =>
    rw [hother rfl] at hdata
    obtain ⟨current, hcurrent, hin⟩ := hs.current data hdata
    rw [hsessions] at hin
    exact ⟨current, hcurrent, hmem _ (.inr hin)⟩

/-- **Logging out of one session keeps the invariant**. -/
theorem keeps_logoutSerialized (kit : SessionKit W) (serialized : SerializedSession) :
    Keeps Invariant (kit.logoutSerialized serialized) := by
  intro s a t hs h
  obtain ⟨hsession, listed, hlisted, hlist⟩ := logoutSerialized_spec h
  have hsessions := sessionsOf_listed hlisted
  have hsorted : StrictlySorted listed := hsessions ▸ hs.sorted
  have hone : OneDefault listed := hsessions ▸ hs.oneDefault
  refine .of_listed hlist ((hsorted.filter _).filter _).stored ((hone.filter _).filter _).stored
    (fun data hdata => ?_)
  rw [hsession] at hdata
  cases hdata

theorem keeps_logout (kit : SessionKit W) : Keeps Invariant kit.logout := by
  intro s a t _ h
  unfold Invariant
  rw [logout_spec h]
  exact storeInvariant_empty

/-- **Restoring keeps the invariant**. -/
theorem keeps_restoreArgs (kit : SessionKit W) (args : RestoreArgs) (options : LoginOptions) :
    Keeps Invariant (kit.restoreArgs args options) := by
  intro s restored t hs h
  obtain ⟨found, -, ⟨-, -, rfl⟩ | ⟨serialized, session, u, -, -, -, hu, hpersist⟩⟩ :=
    restoreArgs_spec h
  · exact hs
  · have hmiddle : Invariant u := by
      unfold Invariant
      rw [hu]
      exact hs
    exact keeps_persistSession session _ u () t hmiddle hpersist

theorem keeps_restoreSerialized (kit : SessionKit W) (serialized : SerializedSession)
    (options : LoginOptions) : Keeps Invariant (kit.restoreSerialized serialized options) :=
  (Keeps.outcome _ _).bind (fun _ => keeps_restoreArgs kit _ options)

theorem keeps_restore (kit : SessionKit W) : Keeps Invariant kit.restore := by
  refine (Keeps.look _ _).bind (fun data => ?_)
  cases data with
  | none => exact Keeps.pure _ none
  | some text =>
    dsimp only
    cases text.parsed with
    | none => exact Keeps.outcome _ _
    | some parsed => exact (Keeps.outcome _ _).bind (fun _ => keeps_restoreSerialized kit _ _)

theorem keeps_restoreAll (kit : SessionKit W) : Keeps Invariant kit.restoreAll :=
  (keeps_of_frames (frames_getSessions kit)).bind (fun _ =>
    (Keeps.mapM (fun serialized => keeps_restoreSerialized kit serialized {}) _).bind
      (fun _ => Keeps.pure _ _))

/-- **Logging in keeps the invariant**: it persists one session, and touches the storage
nowhere else. -/
theorem keeps_login (kit : SessionKit W) (options : LoginOptions) :
    Keeps Invariant (kit.login options) := by
  apply Keeps.onFailure
  refine (keeps_of_frames (frames_select kit options)).bind (fun selected => ?_)
  refine (keeps_of_frames (frames_runHooks _ _)).bind (fun context => ?_)
  refine (keeps_of_frames (frames_call _)).bind (fun response => ?_)
  refine (Keeps.outcome _ _).bind (fun session => ?_)
  refine (keeps_of_frames (frames_runHooks _ _)).bind (fun context => ?_)
  refine (keeps_persistSession session _).bind (fun _ => ?_)
  exact (keeps_of_frames (frames_call _)).bind (fun _ => Keeps.pure _ _)

/-! ## Runs -/

/-- The members that change what is stored, with their arguments. -/
inductive Operation (W : Type) where
  | login (options : LoginOptions)
  | persistSession (session : Session W) (setAsDefault : Bool)
  | restore
  | restoreSerialized (serialized : SerializedSession) (options : LoginOptions)
  | restoreArgs (args : RestoreArgs) (options : LoginOptions)
  | restoreAll
  | logoutSession (session : Session W)
  | logoutSerialized (serialized : SerializedSession)
  | logout

/-- Perform a member of a kit. -/
def perform (kit : SessionKit W) : Operation W → KitM W Unit
  | .login options => do let _ ← kit.login options
  | .persistSession session setAsDefault => SessionKit.persistSession session setAsDefault
  | .restore => do let _ ← kit.restore
  | .restoreSerialized serialized options => do let _ ← kit.restoreSerialized serialized options
  | .restoreArgs args options => do let _ ← kit.restoreArgs args options
  | .restoreAll => do let _ ← kit.restoreAll
  | .logoutSession session => kit.logoutSession session
  | .logoutSerialized serialized => kit.logoutSerialized serialized
  | .logout => kit.logout

/-- A member of some kit that reports success. -/
def step (s : KitState W) (member : SessionKit W × Operation W) : Option (KitState W) :=
  match exec (member.1.perform member.2) s with
  | (.ok _, t) => some t
  | (.error _, _) => none

/-- **Every member keeps the invariant**. -/
theorem keeps_perform (kit : SessionKit W) (operation : Operation W) :
    Keeps Invariant (kit.perform operation) := by
  cases operation with
  | login options => exact (keeps_login kit options).bind (fun _ => Keeps.pure _ _)
  | persistSession session setAsDefault => exact keeps_persistSession session setAsDefault
  | restore => exact (keeps_restore kit).bind (fun _ => Keeps.pure _ _)
  | restoreSerialized serialized options =>
    exact (keeps_restoreSerialized kit serialized options).bind (fun _ => Keeps.pure _ _)
  | restoreArgs args options =>
    exact (keeps_restoreArgs kit args options).bind (fun _ => Keeps.pure _ _)
  | restoreAll => exact (keeps_restoreAll kit).bind (fun _ => Keeps.pure _ _)
  | logoutSession session => exact (Keeps.look _ _).bind (fun _ => keeps_logoutSerialized kit _)
  | logoutSerialized serialized => exact keeps_logoutSerialized kit serialized
  | logout => exact keeps_logout kit

theorem invariant_step (s : KitState W) (member : SessionKit W × Operation W) (t : KitState W)
    (hs : Invariant s) (h : step s member = some t) : Invariant t := by
  unfold step at h
  rcases hexec : exec (member.1.perform member.2) s with ⟨e | a, u⟩
  · rw [hexec] at h
    cases h
  · rw [hexec] at h
    cases h
    exact keeps_perform member.1 member.2 s a t hs hexec

/-- **The stored sessions are well stored** after every sequence of members, of any kits,
that report success, from the empty storage. -/
theorem wellStored_run (w : W) (members : List (SessionKit W × Operation W)) :
    Runs.AllStates step (fun s => WellStored s.storage) ⟨fun _ => none, w⟩ members := by
  have hrun : Runs.AllStates step Invariant ⟨fun _ => none, w⟩ members :=
    Runs.AllStates.of_run step (C := fun _ _ => True)
      (fun s member t hs _ h => invariant_step s member t hs h) storeInvariant_empty
      (Runs.allSteps_true step _ _)
  exact hrun.imp step (fun s hs => hs.wellStored)

end SessionKit

end Dwarfkit
