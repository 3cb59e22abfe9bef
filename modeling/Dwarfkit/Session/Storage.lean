/-
# Stored sessions

What a session kit keeps in its storage: sessions in their serialized form
(`session/session.hpp`), as json texts under the keys `session` and `sessions`, and
the list operations of `session/kit.cpp` on them.

* `parseSessions_stringify` : a list that was written is read back;
* `addSession_sorted`, `addSession_oneDefault` : adding a session sorts the list by
  identity, without duplicates, and leaves at most one default for a chain.
-/
import Dwarfkit.Core.JsonText

namespace Dwarfkit

/-! ## Serialized sessions -/

/-- `SerializedWalletPlugin`. -/
structure SerializedWalletPlugin where
  id : Str := []
  data : Json := .null
  deriving DecidableEq

/-- `SerializedSession`. -/
structure SerializedSession where
  actor : Str := []
  chain : Str := []
  isDefault : Option Bool := none
  permission : Str := []
  walletPlugin : SerializedWalletPlugin := {}
  data : Json := .null
  deriving DecidableEq

namespace SerializedWalletPlugin

def toJSON (plugin : SerializedWalletPlugin) : Json :=
  .obj [(lit "id", .str plugin.id), (lit "data", plugin.data)]

def fromJSON (value : Json) : Result SerializedWalletPlugin := do
  let id ← value.valueStr "id" ""
  return { id, data := if value.contains "data" then value.jsonAt "data" else .obj [] }

end SerializedWalletPlugin

/-- An object without members. -/
def Json.isEmptyObject : Json → Bool
  | .obj [] => true
  | _ => false

namespace SerializedSession

/-- The members of `toJSON`: session data that is null or empty is left out. -/
def members (session : SerializedSession) : List (Str × Json) :=
  [(lit "chain", .str session.chain), (lit "actor", .str session.actor),
    (lit "permission", .str session.permission),
    (lit "walletPlugin", session.walletPlugin.toJSON)] ++
  (match session.isDefault with
    | some b => [(lit "default", .bool b)]
    | none => []) ++
  (if session.data.isNull || session.data.isEmptyObject then []
    else [(lit "data", session.data)])

def toJSON (session : SerializedSession) : Json := .obj session.members

/-- The member `default`, if it is there. -/
def readDefault (value : Json) : Result (Option Bool) :=
  if value.contains "default" then some <$> (value.jsonAt "default").getBool else .ok none

/-- The member `walletPlugin`, if it is there. -/
def readWalletPlugin (value : Json) : Result SerializedWalletPlugin :=
  if value.contains "walletPlugin" then
    SerializedWalletPlugin.fromJSON (value.jsonAt "walletPlugin")
  else .ok {}

def fromJSON (value : Json) : Result SerializedSession :=
  if !value.isObject then err .invalid "Serialized session must be an object"
  else do
    let chain ← value.valueStr "chain" ""
    let actor ← value.valueStr "actor" ""
    let permission ← value.valueStr "permission" ""
    let isDefault ← readDefault value
    let walletPlugin ← readWalletPlugin value
    let data := if value.contains "data" then value.jsonAt "data" else .null
    return { actor, chain, isDefault, permission, walletPlugin, data }

/-! ## Written and read back -/

/-- The session that is read back from a written one. -/
def stored (session : SerializedSession) : SerializedSession where
  actor := session.actor
  chain := session.chain
  isDefault := session.isDefault
  permission := session.permission
  walletPlugin := { session.walletPlugin with data := session.walletPlugin.data.reread }
  data := if session.data.isNull || session.data.isEmptyObject then .null else session.data.reread

/-- A plugin is read back, with its data. -/
theorem walletPlugin_reread (plugin : SerializedWalletPlugin) :
    SerializedWalletPlugin.fromJSON plugin.toJSON.reread =
      .ok { plugin with data := plugin.data.reread } := by
  have hreread : plugin.toJSON.reread =
      .obj [(lit "id", .str plugin.id), (lit "data", plugin.data.reread)] := by
    unfold SerializedWalletPlugin.toJSON
    have hnodup : [lit "id", lit "data"].Nodup := by decide
    rw [Json.reread, Json.rereadMembers_of_nodup (by exact hnodup)]
    rfl
  rw [hreread]
  rfl

/-- What an object with these members is read as. -/
theorem fromJSON_obj {members : List (Str × Json)} {chain actor permission : Str} {plugin : Json}
    {walletPlugin : SerializedWalletPlugin} {isDefault : Option Bool} {data : Option Json}
    (hchain : Json.lookup members "chain" = some (.str chain))
    (hactor : Json.lookup members "actor" = some (.str actor))
    (hpermission : Json.lookup members "permission" = some (.str permission))
    (hplugin : Json.lookup members "walletPlugin" = some plugin)
    (hwallet : SerializedWalletPlugin.fromJSON plugin = .ok walletPlugin)
    (hdefault : Json.lookup members "default" = isDefault.map Json.bool)
    (hdata : Json.lookup members "data" = data) :
    fromJSON (.obj members) =
      .ok { actor, chain, isDefault, permission, walletPlugin, data := data.getD .null } := by
  unfold fromJSON readDefault readWalletPlugin
  simp only [Json.isObject, Bool.not_true, Bool.false_eq_true, if_false, Json.valueStr,
    Json.valueOr, Json.contains, Json.jsonAt, Json.find, hchain, hactor, hpermission, hplugin,
    hdefault, hdata, Option.getD_some, Option.isSome_some, if_true, ok_bind, Json.getStr, hwallet]
  cases isDefault with
  | none =>
    cases data with
    | none => rfl
    | some j => rfl
  | some b =>
    cases data with
    | none => rfl
    | some j => rfl

/-- The optional members of a session. -/
theorem lookup_members (session : SerializedSession) :
    Json.lookup session.members "default" = session.isDefault.map Json.bool ∧
      Json.lookup session.members "data" =
        if session.data.isNull || session.data.isEmptyObject then none else some session.data := by
  unfold members
  by_cases hdata : (session.data.isNull || session.data.isEmptyObject) = true
  · rw [if_pos hdata, if_pos hdata]
    cases session.isDefault with
    | none => exact ⟨rfl, rfl⟩
    | some b => exact ⟨rfl, rfl⟩
  · rw [if_neg hdata, if_neg hdata]
    cases session.isDefault with
    | none => exact ⟨rfl, rfl⟩
    | some b => exact ⟨rfl, rfl⟩

/-- The names of the members are apart. -/
theorem nodup_members (session : SerializedSession) : (session.members.map Prod.fst).Nodup := by
  have hnames : [lit "chain", lit "actor", lit "permission", lit "walletPlugin", lit "default",
      lit "data"].Nodup := by decide
  refine hnames.sublist ?_
  unfold members
  by_cases hdata : (session.data.isNull || session.data.isEmptyObject) = true
  · rw [if_pos hdata]
    cases session.isDefault with
    | none => simp
    | some b => simp
  · rw [if_neg hdata]
    cases session.isDefault with
    | none => simp
    | some b => simp

/-- **A written session is read back**: its identity, default flag and wallet plugin,
and the data but for what `toJSON` leaves out. -/
theorem fromJSON_reread (session : SerializedSession) :
    fromJSON session.toJSON.reread = .ok session.stored := by
  obtain ⟨hdefault, hdata⟩ := session.lookup_members
  have hreread : session.toJSON.reread =
      .obj (session.members.map (fun m => (m.1, m.2.reread))) := by
    unfold toJSON
    rw [Json.reread, Json.rereadMembers_of_nodup (by simpa using session.nodup_members),
      List.nil_append]
  -- The members have distinct names, so rereading changes nothing but their values.
  have hlookup : ∀ {key : Str} {j : Json}, Json.lookup session.members key = some j →
      Json.lookup (session.members.map (fun m => (m.1, m.2.reread))) key = some j.reread := by
    intro key j h
    rw [Json.lookup_map, h, Option.map_some]
  have hdefault' : Json.lookup (session.members.map (fun m => (m.1, m.2.reread))) "default" =
      session.isDefault.map Json.bool := by
    rw [Json.lookup_map, hdefault]
    cases session.isDefault with
    | none => rfl
    | some b => rfl
  have hchain := hlookup (show Json.lookup session.members "chain" = some (.str session.chain) from rfl)
  have hactor := hlookup (show Json.lookup session.members "actor" = some (.str session.actor) from rfl)
  have hpermission := hlookup
    (show Json.lookup session.members "permission" = some (.str session.permission) from rfl)
  have hplugin := hlookup
    (show Json.lookup session.members "walletPlugin" = some session.walletPlugin.toJSON from rfl)
  rw [hreread, fromJSON_obj hchain hactor hpermission hplugin
    (walletPlugin_reread session.walletPlugin) hdefault' rfl, Json.lookup_map, hdata]
  unfold stored
  by_cases hempty : (session.data.isNull || session.data.isEmptyObject) = true
  · rw [if_pos hempty, if_pos hempty]
    rfl
  · rw [if_neg hempty, if_neg hempty]
    rfl

/-! ## Identities and order -/

/-- `chain`, `actor` and `permission`. -/
structure Identity where
  chain : Str
  actor : Str
  permission : Str
  deriving DecidableEq

def identity (session : SerializedSession) : Identity where
  chain := session.chain
  actor := session.actor
  permission := session.permission

/-- `isDefault.value_or(false)`. -/
def defaultFlag (session : SerializedSession) : Bool := session.isDefault.getD false

@[simp]
theorem identity_stored (session : SerializedSession) : session.stored.identity = session.identity :=
  rfl

@[simp]
theorem defaultFlag_stored (session : SerializedSession) :
    session.stored.defaultFlag = session.defaultFlag := rfl

@[simp]
theorem chain_stored (session : SerializedSession) : session.stored.chain = session.chain := rfl

end SerializedSession

/-- `sameSession`. -/
def sameSession (a b : SerializedSession) : Bool :=
  a.chain = b.chain && a.actor = b.actor && a.permission = b.permission

theorem sameSession_iff {a b : SerializedSession} :
    sameSession a b = true ↔ a.identity = b.identity := by
  simp [sameSession, SerializedSession.identity, and_assoc]

/-- A string as a number per byte, whose lists are ordered lexicographically. -/
def strKey (s : Str) : List ℕ := s.map UInt8.toNat

theorem strKey_injective : Function.Injective strKey :=
  List.map_injective_iff.mpr (fun _ _ h => UInt8.toNat_inj.mp h)

/-- `operator<` of `std::string`: by unsigned bytes. -/
def strBefore (a b : Str) : Bool := strKey a < strKey b

theorem strBefore_iff {a b : Str} : strBefore a b = true ↔ strKey a < strKey b :=
  decide_eq_true_iff

/-- The comparison the sessions are sorted by. -/
def comesBefore (a b : SerializedSession) : Bool :=
  if a.chain ≠ b.chain then strBefore a.chain b.chain
  else if a.actor ≠ b.actor then strBefore a.actor b.actor
  else strBefore a.permission b.permission

/-- The place of an identity in the order. -/
def SerializedSession.Identity.key (i : SerializedSession.Identity) : List ℕ ×ₗ List ℕ ×ₗ List ℕ :=
  toLex (strKey i.chain, toLex (strKey i.actor, strKey i.permission))

theorem SerializedSession.Identity.key_injective :
    Function.Injective SerializedSession.Identity.key := by
  rintro ⟨chain, actor, permission⟩ ⟨chain', actor', permission'⟩ h
  have hpair := Prod.ext_iff.mp (toLex.injective h)
  have hrest := Prod.ext_iff.mp (toLex.injective hpair.2)
  obtain rfl := strKey_injective hpair.1
  obtain rfl := strKey_injective hrest.1
  obtain rfl := strKey_injective hrest.2
  rfl

/-- The comparison is the lexicographic one of the identities. -/
theorem comesBefore_iff {a b : SerializedSession} :
    comesBefore a b = true ↔ a.identity.key < b.identity.key := by
  show _ ↔ toLex (strKey a.chain, toLex (strKey a.actor, strKey a.permission)) <
    toLex (strKey b.chain, toLex (strKey b.actor, strKey b.permission))
  rw [Prod.Lex.toLex_lt_toLex, Prod.Lex.toLex_lt_toLex]
  unfold comesBefore
  by_cases hchain : a.chain = b.chain
  · rw [if_neg (by simpa using hchain), hchain]
    by_cases hactor : a.actor = b.actor
    · rw [if_neg (by simpa using hactor), hactor, strBefore_iff]
      simp
    · have hne : ¬ strKey a.actor = strKey b.actor := fun h => hactor (strKey_injective h)
      rw [if_pos (by simpa using hactor), strBefore_iff]
      simp [hne]
  · have hne : ¬ strKey a.chain = strKey b.chain := fun h => hchain (strKey_injective h)
    rw [if_pos (by simpa using hchain), strBefore_iff]
    simp [hne]

/-- `std::sort` puts no session before one that it comes after. -/
def NotAfter (a b : SerializedSession) : Prop := comesBefore b a = false

instance : DecidableRel NotAfter := fun a b => inferInstanceAs (Decidable (comesBefore b a = false))

theorem notAfter_iff {a b : SerializedSession} :
    NotAfter a b ↔ a.identity.key ≤ b.identity.key := by
  unfold NotAfter
  rw [← Bool.not_eq_true, comesBefore_iff, not_lt]

instance : Std.Total NotAfter := ⟨fun a b => by
  rw [notAfter_iff, notAfter_iff]
  exact le_total _ _⟩

instance : IsTrans SerializedSession NotAfter := ⟨fun a b c hab hbc => by
  rw [notAfter_iff] at hab hbc ⊢
  exact le_trans hab hbc⟩

/-! ## Adding a session to a list -/

/-- The loop and the sort of `persistSession`: the session replaces the one of its
identity and the others of its chain lose their default flag. -/
def addSession (stored : List SerializedSession) (serialized : SerializedSession) :
    List SerializedSession :=
  let kept := (stored.filter (fun s => !sameSession s serialized)).map (fun s =>
    if s.chain = serialized.chain then { s with isDefault := some false } else s)
  (kept ++ [serialized]).insertionSort NotAfter

/-- A session of the new list is the added one, or one of another identity that was
there, without its default flag if the chain is the same. -/
theorem mem_addSession {stored : List SerializedSession} {serialized e : SerializedSession} :
    e ∈ addSession stored serialized ↔
      e = serialized ∨ ∃ s ∈ stored, s.identity ≠ serialized.identity ∧
        e = if s.chain = serialized.chain then { s with isDefault := some false } else s := by
  unfold addSession
  rw [List.mem_insertionSort, List.mem_append, List.mem_singleton, or_comm, List.mem_map]
  apply or_congr_right
  constructor
  · rintro ⟨s, hs, rfl⟩
    obtain ⟨hmem, hne⟩ := List.mem_filter.mp hs
    refine ⟨s, hmem, fun h => ?_, rfl⟩
    rw [sameSession_iff.mpr h] at hne
    cases hne
  · rintro ⟨s, hmem, hne, rfl⟩
    refine ⟨s, List.mem_filter.mpr ⟨hmem, ?_⟩, rfl⟩
    rw [Bool.not_eq_true', ← Bool.not_eq_true, sameSession_iff]
    exact hne

/-- Losing its default flag leaves a session its identity. -/
theorem identity_clear (s : SerializedSession) (chain : Str) :
    (if s.chain = chain then { s with isDefault := some false } else s).identity = s.identity := by
  split <;> rfl

/-- The stored list is sorted strictly, so that no identity is there twice. -/
def StrictlySorted (l : List SerializedSession) : Prop :=
  l.Pairwise (fun a b => comesBefore a b = true)

/-- At most one session of a chain is its default. -/
def OneDefault (l : List SerializedSession) : Prop :=
  ∀ a ∈ l, ∀ b ∈ l, a.chain = b.chain → a.defaultFlag = true → b.defaultFlag = true →
    a.identity = b.identity

/-- **Adding a session sorts the list** strictly, if its identities were apart. -/
theorem addSession_sorted {stored : List SerializedSession} {serialized : SerializedSession}
    (h : (stored.map SerializedSession.identity).Nodup) :
    StrictlySorted (addSession stored serialized) := by
  have hsorted : (addSession stored serialized).Pairwise NotAfter :=
    List.pairwise_insertionSort NotAfter _
  have hnodup : ((addSession stored serialized).map SerializedSession.identity).Nodup := by
    unfold addSession
    rw [((List.perm_insertionSort NotAfter _).map _).nodup_iff, List.map_append,
      List.nodup_append', List.map_map]
    refine ⟨?_, by simp, ?_⟩
    · have hsame : SerializedSession.identity ∘ (fun s =>
          if s.chain = serialized.chain then { s with isDefault := some false } else s) =
          SerializedSession.identity := by
        funext s
        exact identity_clear s serialized.chain
      rw [hsame]
      exact h.sublist (List.filter_sublist.map _)
    · intro i hi hserialized
      obtain ⟨s, hs, rfl⟩ := List.mem_map.mp hi
      obtain ⟨-, hne⟩ := List.mem_filter.mp hs
      rw [List.map_singleton, List.mem_singleton] at hserialized
      have hsame := sameSession_iff.mpr ((identity_clear s serialized.chain).symm.trans hserialized)
      rw [hsame] at hne
      cases hne
  -- in order, and never equal
  unfold StrictlySorted
  rw [List.pairwise_iff_getElem] at hsorted ⊢
  intro i j hi hj hij
  have hle := notAfter_iff.mp (hsorted i j hi hj hij)
  rw [comesBefore_iff]
  refine lt_of_le_of_ne hle (fun heq => ?_)
  have hne := List.pairwise_iff_getElem.mp hnodup i j (by simpa using hi) (by simpa using hj) hij
  rw [List.getElem_map, List.getElem_map] at hne
  exact hne (SerializedSession.Identity.key_injective heq)

/-- **Adding a session leaves one default a chain**, if there was no second one. -/
theorem addSession_oneDefault {stored : List SerializedSession} {serialized : SerializedSession}
    (h : OneDefault stored) : OneDefault (addSession stored serialized) := by
  -- a default that was there is of another chain
  have hold : ∀ s e : SerializedSession,
      e = (if s.chain = serialized.chain then { s with isDefault := some false } else s) →
      e.defaultFlag = true → e = s ∧ s.chain ≠ serialized.chain := by
    rintro s e rfl hflag
    by_cases hchain : s.chain = serialized.chain
    · rw [if_pos hchain] at hflag
      cases hflag
    · exact ⟨if_neg hchain, hchain⟩
  intro a ha b hb hchain hflaga hflagb
  rcases mem_addSession.mp ha with rfl | ⟨s, hs, -, hea⟩
  · rcases mem_addSession.mp hb with rfl | ⟨t, ht, -, heb⟩
    · rfl
    · obtain ⟨rfl, hother⟩ := hold t b heb hflagb
      exact absurd hchain.symm hother
  · obtain ⟨rfl, hother⟩ := hold s a hea hflaga
    rcases mem_addSession.mp hb with rfl | ⟨t, ht, -, heb⟩
    · exact absurd hchain hother
    · obtain ⟨rfl, -⟩ := hold t b heb hflagb
      exact h a hs b ht hchain hflaga hflagb

/-- Sorted strictly, the identities are apart. -/
theorem StrictlySorted.nodup {l : List SerializedSession} (h : StrictlySorted l) :
    (l.map SerializedSession.identity).Nodup := by
  rw [List.Nodup, List.pairwise_map]
  refine h.imp (fun {a b} hab heq => ?_)
  rw [comesBefore_iff, heq] at hab
  exact lt_irrefl _ hab

/-! ## The storage -/

/-- The keys a kit uses. -/
inductive StorageKey where
  | session
  | sessions
  deriving DecidableEq

/-- `SessionStorage`, one that works: what is written stays until it is overwritten or
removed, as in `MemorySessionStorage`. -/
abbrev Storage := StorageKey → Option JsonText

/-- `stringifySessions`. -/
def stringifySessions (sessions : List SerializedSession) : Result JsonText :=
  (Json.arr (sessions.map SerializedSession.toJSON)).dump

/-- `parseSessions`. -/
def parseSessions (data : JsonText) : Result (List SerializedSession) :=
  match data.parsed with
  | some (.arr items) => items.mapM SerializedSession.fromJSON
  | _ => err .storage "Failed to parse sessions from storage"

/-- **A list that was written is read back.** -/
theorem parseSessions_stringify {sessions : List SerializedSession} {text : JsonText}
    (h : stringifySessions sessions = .ok text) :
    parseSessions text = .ok (sessions.map SerializedSession.stored) := by
  unfold parseSessions
  rw [Json.parsed_of_dump h, Json.reread, Json.rereadItems_eq_map, List.map_map]
  show (sessions.map (fun s => s.toJSON.reread)).mapM SerializedSession.fromJSON = _
  rw [List.mapM_map]
  exact mapM_eq_ok (fun s _ => s.fromJSON_reread)

/-- The sessions of a stored text; none where it does not parse. -/
def sessionsOf (data : Option JsonText) : List SerializedSession :=
  match data with
  | some text => (parseSessions text).toOption.getD []
  | none => []

theorem sessionsOf_parsed {text : JsonText} {sessions : List SerializedSession}
    (h : parseSessions text = .ok sessions) : sessionsOf (some text) = sessions := by
  simp only [sessionsOf, h]
  rfl

theorem sessionsOf_stringify {sessions : List SerializedSession} {text : JsonText}
    (h : stringifySessions sessions = .ok text) :
    sessionsOf (some text) = sessions.map SerializedSession.stored :=
  sessionsOf_parsed (parseSessions_stringify h)

/-- The session of a stored text, if it is one. -/
def sessionOf (data : Option JsonText) : Option SerializedSession :=
  data.bind (fun text => text.parsed.bind (fun j => (SerializedSession.fromJSON j).toOption))

/-- A session that was written is the one that is there. -/
theorem sessionOf_dump {session : SerializedSession} {text : JsonText}
    (h : session.toJSON.dump = .ok text) : sessionOf (some text) = some session.stored := by
  unfold sessionOf
  rw [Option.bind_some, Json.parsed_of_dump h, Option.bind_some, session.fromJSON_reread]
  rfl

/-- The data of a session read from a text reads back as it is. -/
theorem SerializedSession.reread_of_fromJSON {j : Json} {s : SerializedSession}
    (hj : j.reread = j) (h : fromJSON j = .ok s) :
    s.data.reread = s.data ∧ s.walletPlugin.data.reread = s.walletPlugin.data := by
  unfold fromJSON at h
  by_cases hobject : (!j.isObject) = true
  · rw [if_pos hobject] at h
    cases h
  · rw [if_neg hobject] at h
    obtain ⟨chain, -, h⟩ := bind_eq_ok.mp h
    obtain ⟨actor, -, h⟩ := bind_eq_ok.mp h
    obtain ⟨permission, -, h⟩ := bind_eq_ok.mp h
    obtain ⟨isDefault, -, h⟩ := bind_eq_ok.mp h
    obtain ⟨plugin, hplugin, h⟩ := bind_eq_ok.mp h
    cases h
    constructor
    · show (if j.contains "data" then j.jsonAt "data" else .null).reread = _
      by_cases hdata : j.contains "data" = true
      · rw [if_pos hdata]
        exact Json.reread_jsonAt hj "data"
      · rw [if_neg hdata]
        rfl
    · show plugin.data.reread = plugin.data
      unfold readWalletPlugin at hplugin
      by_cases hcontains : j.contains "walletPlugin" = true
      · rw [if_pos hcontains] at hplugin
        obtain ⟨id, -, hplugin⟩ := bind_eq_ok.mp hplugin
        cases hplugin
        show (if (j.jsonAt "walletPlugin").contains "data" then
          (j.jsonAt "walletPlugin").jsonAt "data" else .obj []).reread = _
        by_cases hdata : (j.jsonAt "walletPlugin").contains "data" = true
        · rw [if_pos hdata]
          exact Json.reread_jsonAt (Json.reread_jsonAt hj "walletPlugin") "data"
        · rw [if_neg hdata]
          rfl
      · rw [if_neg hcontains] at hplugin
        cases hplugin
        rfl

/-- **The sessions of a stored text stay as they are** when they are written again: empty
data may be left out, which json does not show. -/
theorem toJSON_stored_of_parsed {text : JsonText} {sessions : List SerializedSession}
    (h : parseSessions text = .ok sessions) {s : SerializedSession} (hs : s ∈ sessions) :
    s.stored.toJSON = s.toJSON := by
  have hreread : s.data.reread = s.data ∧ s.walletPlugin.data.reread = s.walletPlugin.data := by
    unfold parseSessions at h
    cases hparsed : text.parsed with
    | none =>
      rw [hparsed] at h
      cases h
    | some j =>
      rw [hparsed] at h
      cases j with
      | arr items =>
        obtain ⟨item, hitem, hfrom⟩ := mem_of_mapM h hs
        have hitems := text.settled _ hparsed
        exact SerializedSession.reread_of_fromJSON (Json.reread_of_mem_arr hitems hitem) hfrom
      | _ => cases h
  unfold SerializedSession.stored SerializedSession.toJSON SerializedSession.members
  rw [hreread.1, hreread.2]
  by_cases hempty : (s.data.isNull || s.data.isEmptyObject) = true
  · rw [if_pos hempty, if_pos hempty]
    rfl
  · rw [if_neg hempty]

end Dwarfkit
