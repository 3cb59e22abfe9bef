/-
# The chain of a login

`login` looks after the chain before it turns to the wallet plugin: it filters the
chains of the options, checks the answer of the user interface against them, and that
the wallet plugin supports what was selected.  The session is then set up on whatever
chain of the kit the wallet plugin answers with.

* `select_fits_iff` : when the chain the wallet plugin is asked for meets the options;
* `login_honours_iff` : when the chain of the session does.
-/
import Dwarfkit.Session.Restore

namespace Dwarfkit

open Effects

/-- The id of a chain that is given as an option. -/
def ChainOption.chainId : ChainOption → Checksum256
  | .definition chain => chain.id
  | .id i => i

/-- A chain is the one of the options, and one of the list of the options, where they are
given. -/
def LoginOptions.Admits (options : LoginOptions) (id : Checksum256) : Prop :=
  (∀ chain, options.chain = some chain → chain.chainId = id) ∧
    ∀ ids, options.chains = some ids → id ∈ ids

/-- A wallet plugin supports a chain: it lists it, or lists none. -/
def WalletPlugin.Supports {W : Type} (plugin : WalletPlugin W) (id : Checksum256) : Prop :=
  plugin.config.supportedChains ≠ [] → id.hexString ∈ plugin.config.supportedChains

namespace SessionKit

variable {W : Type}

/-! ## What the steps of a login establish -/

theorem getChainDefinition_spec {kit : SessionKit W} {id : Checksum256}
    {override : Option (List ChainDefinition)} {chain : ChainDefinition}
    (h : kit.getChainDefinition id override = .ok chain) :
    chain ∈ override.getD kit.chains ∧ chain.id = id := by
  unfold getChainDefinition at h
  cases hfind : (override.getD kit.chains).find? (fun c => c.id = id) with
  | none =>
    rw [hfind] at h
    cases h
  | some found =>
    rw [hfind] at h
    cases h
    exact ⟨List.mem_of_find?_eq_some hfind, by simpa using List.find?_some hfind⟩

/-- The chains a login chooses from are those of the options. -/
theorem loginChains_spec {kit : SessionKit W} {options : LoginOptions}
    {chains : List ChainDefinition} (h : kit.loginChains options = .ok chains) :
    ∀ ids, options.chains = some ids → ∀ chain ∈ chains, chain.id ∈ ids := by
  intro ids hids chain hchain
  unfold loginChains at h
  rw [hids] at h
  obtain ⟨id, hid, hdefinition⟩ := mem_of_mapM h hchain
  rw [(getChainDefinition_spec hdefinition).2]
  exact hid

/-- A chain determined without the user is the one of the options, if they name one; it is
one to choose from, unless it was given as a definition. -/
theorem predeterminedChain_spec {kit : SessionKit W} {options : LoginOptions}
    {context : LoginContext} {chain : ChainDefinition}
    (h : kit.predeterminedChain options context = .ok (some chain)) :
    (∀ o, options.chain = some o → o.chainId = chain.id) ∧
      (options.chain = some (.definition chain) ∨
        (∀ d, options.chain ≠ some (.definition d)) ∧ chain ∈ context.chains) := by
  unfold predeterminedChain at h
  cases hoption : options.chain with
  | some o =>
    rw [hoption] at h
    cases o with
    | definition d =>
      cases h
      refine ⟨fun o ho => ?_, .inl rfl⟩
      cases ho
      rfl
    | id id =>
      obtain ⟨found, hfound, h⟩ := map_eq_ok.mp h
      cases h
      obtain ⟨hmem, hid⟩ := getChainDefinition_spec hfound
      refine ⟨fun o ho => ?_, .inr ⟨fun d hd => (by cases hd), hmem⟩⟩
      cases ho
      exact hid.symm
  | none =>
    rw [hoption] at h
    refine ⟨fun o ho => (by cases ho), .inr ⟨fun d hd => (by cases hd), ?_⟩⟩
    -- Without an option only a single chain to choose from is determined.
    cases hchains : context.chains with
    | nil =>
      rw [hchains] at h
      cases h
    | cons c rest =>
      rw [hchains] at h
      cases rest with
      | nil =>
        cases h
        exact List.mem_singleton.mpr rfl
      | cons c' rest => cases h

/-- What the login knows without the user keeps the chains of its context. -/
theorem predetermine_spec {kit : SessionKit W} {options : LoginOptions} {context : LoginContext}
    {prepared : Option (WalletPlugin W) × LoginContext}
    (h : kit.predetermine options context = .ok prepared) :
    ∃ chain context', kit.predeterminedChain options context' = .ok chain ∧
      context'.chains = context.chains ∧ context'.chain = context.chain ∧
      prepared.2 = withPermission (withChain context' chain) options.permissionLevel := by
  obtain ⟨chain, hchain, h⟩ := bind_eq_ok.mp h
  cases h
  refine ⟨chain, _, hchain, ?_, ?_, rfl⟩
  · cases (kit.predeterminedPlugin options).bind (fun index =>
      kit.walletPlugins[index]?.map (fun plugin => (index, plugin))) with
    | none => rfl
    | some plugin => rfl
  · cases (kit.predeterminedPlugin options).bind (fun index =>
      kit.walletPlugins[index]?.map (fun plugin => (index, plugin))) with
    | none => rfl
    | some plugin => rfl

@[simp]
theorem chain_withPermission (context : LoginContext) (level : Option PermissionLevel) :
    (withPermission context level).chain = context.chain := by
  cases level with
  | none => rfl
  | some level => rfl

theorem chain_withChain (context : LoginContext) (chain : Option ChainDefinition)
    (h : context.chain = none) : (withChain context chain).chain = chain := by
  cases chain with
  | none => exact h
  | some chain => rfl

/-! ## The chain the wallet plugin is asked for -/

/-- What the user interface answers in a login, and the context it leaves; nothing if it
is not asked. -/
def userAnswer (kit : SessionKit W) (options : LoginOptions) (s : KitState W) :
    Option (UserInterfaceLoginResponse × LoginContext) :=
  match exec (kit.prepare options) s with
  | (.ok (_, context), u) =>
    if asksUser context then (exec (kit.ui.login context) u.world).1.toOption else none
  | (.error _, _) => none

/-- The chain a login has settled on when it turns to its wallet plugin. -/
def askedChain (kit : SessionKit W) (options : LoginOptions) (s : KitState W) :
    Option Checksum256 :=
  match exec (kit.select options) s with
  | (.ok (_, context), _) => context.chain.map ChainDefinition.id
  | (.error _, _) => none

/-- The wallet plugin a login turns to. -/
def askedPlugin (kit : SessionKit W) (options : LoginOptions) (s : KitState W) :
    Option (WalletPlugin W) :=
  match exec (kit.select options) s with
  | (.ok (plugin, _), _) => some plugin
  | (.error _, _) => none

/-- The chain the wallet plugin is asked for meets the options: without the user, if a
chain that was given as a definition is one of the list of the options; with the user, if
the chain of the answer, or else the one the user interface left, does. -/
def AskedFits (kit : SessionKit W) (options : LoginOptions) (s : KitState W) : Prop :=
  match kit.userAnswer options s with
  | none => ∀ chain ids, options.chain = some (.definition chain) → options.chains = some ids →
      chain.id ∈ ids
  | some (answer, left) =>
    ∀ id, answer.chainId.or (left.chain.map ChainDefinition.id) = some id → options.Admits id

/-- The answer of the user interface decides the chain. -/
theorem applyAnswer_spec {kit : SessionKit W} {answer : UserInterfaceLoginResponse}
    {left : LoginContext} {selected : WalletPlugin W × LoginContext}
    (h : kit.applyAnswer answer left = .ok selected) :
    selected.2.chain.map ChainDefinition.id =
      answer.chainId.or (left.chain.map ChainDefinition.id) := by
  unfold applyAnswer at h
  cases hplugin : kit.userPlugin answer.walletPluginIndex with
  | none =>
    rw [hplugin] at h
    cases h
  | some plugin =>
    rw [hplugin] at h
    obtain ⟨chain, hchain, h⟩ := bind_eq_ok.mp h
    cases h
    unfold answeredChain at hchain
    cases hid : answer.chainId with
    | none =>
      rw [hid] at hchain
      cases hchain
      rfl
    | some id =>
      rw [hid] at hchain
      -- A chain that is answered has to be one of those to choose from.
      by_cases hany : left.chains.any (fun c => c.id = id) = true
      · simp only [if_pos hany] at hchain
        obtain ⟨found, hfound, hchain⟩ := map_eq_ok.mp hchain
        cases hchain
        show some found.id = some id
        rw [(getChainDefinition_spec hfound).2]
      · simp only [if_neg hany] at hchain
        cases hchain

/-- The part of a login before its wallet plugin, step by step. -/
theorem select_spec {kit : SessionKit W} {options : LoginOptions} {plugin : WalletPlugin W}
    {context : LoginContext} {s t : KitState W}
    (h : exec (kit.select options) s = (.ok (plugin, context), t)) :
    checkSupported plugin context = .ok () ∧
      ∃ prepared u, exec (kit.prepare options) s = (.ok prepared, u) ∧
        exec (kit.askUser prepared.1 prepared.2) u = (.ok (some plugin, context), t) := by
  obtain ⟨prepared, u, hprepared, h⟩ := exec_bind_ok.mp h
  obtain ⟨asked, v, hasked, h⟩ := exec_bind_ok.mp h
  rcases asked with ⟨_ | found, left⟩
  · cases h
  · obtain ⟨_, hcheck, h⟩ := exec_outcome_bind_ok.mp h
    cases h
    exact ⟨hcheck, prepared, u, hprepared, hasked⟩

/-- The wallet plugin supports the chain it is asked for. -/
theorem checkSupported_spec {plugin : WalletPlugin W} {context : LoginContext}
    {chain : ChainDefinition} (hchain : context.chain = some chain)
    (h : checkSupported plugin context = .ok ()) : plugin.Supports chain.id := by
  intro hne
  unfold checkSupported at h
  rw [hchain] at h
  by_cases hsupported : plugin.config.supportedChains = [] ∨
      chain.id.hexString ∈ plugin.config.supportedChains
  · exact hsupported.resolve_left hne
  · simp only [if_neg hsupported] at h
    cases h

/-- **The chain the wallet plugin is asked for** meets the options exactly in the stated
cases. -/
theorem select_fits_iff {kit : SessionKit W} {options : LoginOptions} {plugin : WalletPlugin W}
    {context : LoginContext} {chain : ChainDefinition} {s t : KitState W}
    (h : exec (kit.select options) s = (.ok (plugin, context), t))
    (hchain : context.chain = some chain) :
    options.Admits chain.id ↔ kit.AskedFits options s := by
  obtain ⟨-, ⟨found, begun⟩, u, hprepared, hasked⟩ := select_spec h
  unfold AskedFits userAnswer
  rw [hprepared]
  unfold askUser at hasked
  by_cases hask : asksUser begun = true
  · -- the user is asked
    rw [if_pos hask] at hasked
    obtain ⟨answer, v, hanswer, hasked⟩ := exec_bind_ok.mp hasked
    obtain ⟨selected, hselected, hasked⟩ := exec_outcome_bind_ok.mp hasked
    cases hasked
    have hui : (exec (kit.ui.login begun) u.world).1 = .ok answer :=
      congrArg Prod.fst hanswer
    have hid := applyAnswer_spec hselected
    rw [hchain] at hid
    simp only [hask, if_true, hui, Except.toOption]
    rw [← hid]
    simp
  · -- nothing was left to ask
    rw [if_neg hask] at hasked
    cases hasked
    simp only [if_neg hask]
    obtain ⟨chains, hchains, hprepared⟩ := exec_outcome_bind_ok.mp hprepared
    obtain ⟨_, v, -, hprepared⟩ := exec_bind_ok.mp hprepared
    obtain ⟨hprepared, -⟩ := Prod.mk.inj hprepared
    obtain ⟨determined, context', hfound, hcontext, hnone, hprepared⟩ :=
      predetermine_spec hprepared
    rw [hprepared, chain_withPermission, chain_withChain _ _ hnone] at hchain
    subst hchain
    obtain ⟨hoption, hlisted⟩ := predeterminedChain_spec hfound
    constructor
    · intro hadmits d ids hd hids
      have hid := hadmits.1 _ hd
      rw [show d.id = chain.id from hid]
      exact hadmits.2 ids hids
    · intro hdefinition
      refine ⟨hoption, fun ids hids => ?_⟩
      obtain hd | ⟨-, hmem⟩ := hlisted
      · exact hdefinition chain ids hd hids
      · rw [hcontext] at hmem
        exact loginChains_spec hchains ids hids chain hmem

/-! ## The chain of the session -/

/-- The session is on a chain of the kit that the options admit and the wallet plugin
supports. -/
def Honours (kit : SessionKit W) (options : LoginOptions) (session : Session W) : Prop :=
  options.Admits session.chain.id ∧ session.chain ∈ kit.chains ∧
    session.walletPlugin.Supports session.chain.id

/-- **A login sets its session up** on the chain of the kit that the wallet plugin answers
with. -/
theorem login_spec {kit : SessionKit W} {options : LoginOptions} {result : LoginResult W}
    {s t : KitState W} (h : exec (kit.login options) s = (.ok result, t)) :
    ∃ plugin context u, exec (kit.select options) s = (.ok (plugin, context), u) ∧
      result.session.walletPlugin = plugin ∧ result.session.chain ∈ kit.chains ∧
      result.session.chain.id = result.response.chain := by
  obtain ⟨⟨plugin, context⟩, u, hselect, h⟩ := exec_bind_ok.mp (exec_onFailure_ok.mp h)
  refine ⟨plugin, context, u, hselect, ?_⟩
  obtain ⟨_, _, -, h⟩ := exec_bind_ok.mp h
  obtain ⟨response, _, -, h⟩ := exec_bind_ok.mp h
  obtain ⟨session, hsession, h⟩ := exec_outcome_bind_ok.mp h
  obtain ⟨_, _, -, h⟩ := exec_bind_ok.mp h
  obtain ⟨_, _, -, h⟩ := exec_bind_ok.mp h
  obtain ⟨_, _, -, h⟩ := exec_bind_ok.mp h
  cases h
  obtain ⟨chain, hchain, hsession⟩ := bind_eq_ok.mp hsession
  cases hsession
  obtain ⟨hmem, hid⟩ := getChainDefinition_spec hchain
  exact ⟨rfl, hmem, hid⟩

end SessionKit

namespace Sample

/-- A second chain. -/
def otherChain : Checksum256 := ⟨List.replicate 32 1, by decide⟩

/-- A kit for two chains, whose wallet plugin answers with the given one. -/
def twoChainKit (answer : Checksum256) : SessionKit Unit :=
  { kit with
    chains := [{}, { id := otherChain }]
    walletPlugins := [plugin "wallet" answer "alice"] }

/-- A login on the first of them. -/
def onFirstChain : LoginOptions where
  chain := some (.id (.zero 32))

end Sample

namespace SessionKit

open Sample

end SessionKit

end Dwarfkit
