/-
# What a correction buys

The results about `TransactPluginAutoCorrect`.  A run is followed through its corrections:
each prepends the actions of its purchases and pays for them, and the user is asked about
all of them at once.

* `Pays` : purchases that go in front of a request and into the total;
* `correct_ok` : a corrected request is what the purchases of its corrections make of it;
* `correct_of_le` : four calls of `correct` are all there are;
* `right_iff` : when the user is told the truth.
-/
import Dwarfkit.Plugins.Transact.AutoCorrect

namespace Dwarfkit

open Effects

namespace AutoCorrect

/-! ## Purchases -/

/-- A purchase of the system contract's, for the signer, authorized by the signer, and with a
price in the symbol. -/
def Purchase.For (signer : PermissionLevel) (symbol : AssetSymbol) (p : Purchase) : Prop :=
  p.price.symbol = symbol ∧
  ((∃ bytes data, Buyrambytes.toABI ⟨signer.actor, signer.actor, bytes⟩ = .ok data ∧
      p.action = eosioAction signer "buyrambytes" data ∧ p.resources = ["RAM"]) ∨
    (∃ net_frac cpu_frac data,
      Powerup.toABI ⟨signer.actor, signer.actor, 1, net_frac, cpu_frac, p.price⟩ = .ok data ∧
      p.action = eosioAction signer "powerup" data ∧ p.resources = ["CPU", "NET"]))

/-- The purchases of corrections, in the order they were made. -/
def allPurchases (corrections : List Correction) : List Purchase :=
  corrections.flatMap Correction.purchases

/-- The exact sum of the prices. -/
def exactSum (purchases : List Purchase) : ℤ :=
  (purchases.map (fun p => p.price.units.toInt)).sum

/-- Purchases whose actions go in front of a request, one after the other, and whose prices
go into the running total. -/
structure Pays (signer : PermissionLevel) (symbol : AssetSymbol) (request : SigningRequest)
    (m : Members) (ps : List Purchase) (request' : SigningRequest) (m' : Members) : Prop where
  actions : (ps.map Purchase.action).foldlM Transact.prependAction request = .ok request'
  price : m'.price_ = ps.foldl (fun total p => addPrice total p.price) m.price_
  resources : m'.resources_ = m.resources_ ++ ps.flatMap Purchase.resources
  bought : ∀ p ∈ ps, p.For signer symbol

namespace Pays

variable {signer : PermissionLevel} {symbol : AssetSymbol} {request request₁ request₂ : SigningRequest}
  {m m₁ m₂ : Members} {ps qs : List Purchase}

/-- Nothing bought is nothing paid. -/
theorem refl (hprice : m₁.price_ = m.price_) (hresources : m₁.resources_ = m.resources_) :
    Pays signer symbol request m [] request m₁ where
  actions := rfl
  price := hprice
  resources := by rw [hresources, List.flatMap_nil, List.append_nil]
  bought := by simp

/-- Only the total and the names of the resources matter. -/
theorem of_eq (h : Pays signer symbol request m ps request₁ m₁) (hprice : m.price_ = m₂.price_)
    (hresources : m.resources_ = m₂.resources_) :
    Pays signer symbol request m₂ ps request₁ m₁ where
  actions := h.actions
  price := by rw [h.price, hprice]
  resources := by rw [h.resources, hresources]
  bought := h.bought

/-- Purchases after purchases. -/
theorem append (h₁ : Pays signer symbol request m ps request₁ m₁)
    (h₂ : Pays signer symbol request₁ m₁ qs request₂ m₂) :
    Pays signer symbol request m (ps ++ qs) request₂ m₂ where
  actions := by
    rw [List.map_append, List.foldlM_append, h₁.actions, ok_bind]
    exact h₂.actions
  price := by rw [h₂.price, h₁.price, List.foldl_append]
  resources := by
    rw [h₂.resources, h₁.resources, List.flatMap_append, List.append_assoc]
  bought := by
    intro p hp
    rcases List.mem_append.mp hp with hp | hp
    · exact h₁.bought p hp
    · exact h₂.bought p hp

/-- One purchase, when it is paid before or after its action is in place. -/
theorem single {p : Purchase} (hprepend : Transact.prependAction request p.action = .ok request₁)
    (hprice : m₁.price_ = addPrice m.price_ p.price)
    (hresources : m₁.resources_ = m.resources_ ++ p.resources) (hp : p.For signer symbol) :
    Pays signer symbol request m [p] request₁ m₁ where
  actions := by
    rw [List.map_singleton, List.foldlM_cons, hprepend, ok_bind]
    rfl
  price := hprice
  resources := by rw [hresources, List.flatMap_singleton]
  bought := by
    intro q hq
    rw [List.mem_singleton.mp hq]
    exact hp

/-- Where the actions are: in front of the request's own, the last one first. -/
theorem rawActions (h : Pays signer symbol request m ps request₁ m₁) {actions : List Action}
    (hactions : request.getRawActions = .ok actions) :
    request₁.getRawActions = .ok (ps.reverse.map Purchase.action ++ actions) := by
  have key : ∀ (l : List Action) (request : SigningRequest) (actions : List Action),
      request.getRawActions = .ok actions → l.foldlM Transact.prependAction request = .ok request₁ →
      request₁.getRawActions = .ok (l.reverse ++ actions) := by
    intro l
    induction l with
    | nil =>
      intro request actions hactions hfold
      cases hfold
      exact hactions
    | cons action l ih =>
      intro request actions hactions hfold
      rw [List.foldlM_cons] at hfold
      obtain ⟨next, hnext, hfold⟩ := bind_eq_ok.mp hfold
      have hrest := ih next _ (Transact.getRawActions_prependAction hnext hactions) hfold
      rw [List.reverse_cons, List.append_assoc, List.singleton_append]
      exact hrest
  rw [List.map_reverse]
  exact key _ request actions hactions h.actions

/-- A request that something goes in front of has raw actions. -/
theorem exists_rawActions (h : Pays signer symbol request m ps request₁ m₁) (hne : ps ≠ []) :
    ∃ actions, request.getRawActions = .ok actions := by
  obtain ⟨p, qs, rfl⟩ := List.exists_cons_of_ne_nil hne
  have hfold := h.actions
  rw [List.map_cons, List.foldlM_cons] at hfold
  obtain ⟨next, hnext, -⟩ := bind_eq_ok.mp hfold
  obtain ⟨actions, hactions, -⟩ := Transact.getRawActions_insertAction hnext
  exact ⟨actions, hactions⟩

/-- Without purchases, the request is the same. -/
theorem request_eq (h : Pays signer symbol request m [] request₁ m₁) : request₁ = request := by
  have hfold := h.actions
  cases hfold
  rfl

end Pays

/-! ## The running total -/

/-- A total that is there stays there, and wraps around. -/
theorem foldl_addPrice (ps : List Purchase) (total : Asset) :
    ∃ units, ps.foldl (fun total p => addPrice total p.price) (some total) =
        some { total with units } ∧
      units.toInt = (total.units.toInt + exactSum ps).bmod (2 ^ 64) := by
  induction ps generalizing total with
  | nil =>
    refine ⟨total.units, rfl, ?_⟩
    have hlow := Int64.le_toInt total.units
    have hhigh := Int64.toInt_lt total.units
    show _ = (total.units.toInt + 0).bmod (2 ^ 64)
    rw [add_zero, Int.bmod_eq_of_le (by omega) (by omega)]
  | cons p ps ih =>
    obtain ⟨units, hfold, hunits⟩ := ih { total with units := total.units + p.price.units }
    refine ⟨units, hfold, ?_⟩
    rw [hunits]
    show ((total.units + p.price.units).toInt + exactSum ps).bmod (2 ^ 64) = _
    rw [Int64.toInt_add, Int.bmod_add_bmod, add_assoc]
    rfl

/-- The sum fits the units of an asset. -/
def Fits (sum : ℤ) : Prop := -2 ^ 63 ≤ sum ∧ sum < 2 ^ 63

/-- The total of some purchases: in the symbol of the first, and exact if the sum fits. -/
theorem total_of_ne_nil {ps : List Purchase} (hne : ps ≠ []) :
    ∃ cost, ps.foldl (fun total p => addPrice total p.price) none = some cost ∧
      (∃ p ∈ ps, cost.symbol = p.price.symbol) ∧
      (Fits (exactSum ps) → cost.units.toInt = exactSum ps) := by
  obtain ⟨p, qs, rfl⟩ := List.exists_cons_of_ne_nil hne
  obtain ⟨units, hfold, hunits⟩ := foldl_addPrice qs p.price
  refine ⟨_, hfold, ⟨p, List.mem_cons_self, rfl⟩, ?_⟩
  rintro ⟨hlow, hhigh⟩
  have hsum : exactSum (p :: qs) = p.price.units.toInt + exactSum qs := rfl
  show units.toInt = _
  rw [hunits, ← hsum, Int.bmod_eq_of_le (by omega) (by omega)]

/-! ## One correction -/

/-- An asset keeps the symbol it is made with. -/
theorem assetFromFloat_symbol {fp : Arithmetic} {value : Double} {symbol : AssetSymbol}
    {price : Asset} (h : assetFromFloat fp value symbol = .ok price) : price.symbol = symbol := by
  obtain ⟨units, -, h⟩ := bind_eq_ok.mp h
  cases h
  rfl

/-- The purchase of RAM for the signer goes in front. -/
theorem prependBuyrambytes_ok {signer : PermissionLevel} {bytes : UInt32}
    {request request' : SigningRequest} {action : Action}
    (h : prependBuyrambytes signer bytes request = .ok (action, request')) (price : Asset) :
    Transact.prependAction request action = .ok request' ∧
      Purchase.For signer price.symbol ⟨action, price, ["RAM"]⟩ := by
  obtain ⟨data, hdata, h⟩ := bind_eq_ok.mp h
  obtain ⟨newRequest, hnew, h⟩ := bind_eq_ok.mp h
  cases h
  exact ⟨hnew, rfl, .inl ⟨bytes, data, hdata, rfl, rfl⟩⟩

/-- So does the powerup. -/
theorem prependPowerup_ok {signer : PermissionLevel} {net_frac cpu_frac : Int64} {price : Asset}
    {request request' : SigningRequest} {action : Action}
    (h : prependPowerup signer net_frac cpu_frac price request = .ok (action, request')) :
    Transact.prependAction request action = .ok request' ∧
      Purchase.For signer price.symbol ⟨action, price, ["CPU", "NET"]⟩ := by
  obtain ⟨data, hdata, h⟩ := bind_eq_ok.mp h
  obtain ⟨newRequest, hnew, h⟩ := bind_eq_ok.mp h
  cases h
  exact ⟨hnew, rfl, .inr ⟨net_frac, cpu_frac, data, hdata, rfl, rfl⟩⟩

namespace Setting

variable {W : Type} (setting : Setting W)

/-- The symbol of the chain's prices. -/
def symbol : AssetSymbol := (setting.config.map configSymbol).getD {}

/-- A sample is not paid for. -/
theorem sampled_keeps {config : ChainConfig} {usage : SampleUsage} {s t : W × Members}
    (h : exec (setting.sampled config) s = (.ok usage, t)) :
    t.2.price_ = s.2.price_ ∧ t.2.resources_ = s.2.resources_ := by
  unfold sampled at h
  rw [exec_look_bind] at h
  cases hsample : s.2.sample_ with
  | some usage' =>
    rw [hsample] at h
    cases h
    exact ⟨rfl, rfl⟩
  | none =>
    rw [hsample] at h
    obtain ⟨usage', w, -, h⟩ := exec_onFirst_bind_ok.mp h
    rw [exec_change_bind] at h
    cases h
    exact ⟨rfl, rfl⟩

/-- **`buyram` buys RAM.** -/
theorem buyram_pays {config : ChainConfig} {resolved : ResolvedSigningRequest}
    {account : AccountObject} {needed : Double} {found : Correction} {s t : W × Members}
    (h : exec (setting.buyram config resolved account needed) s = (.ok found, t)) :
    Pays resolved.signer (configSymbol config) resolved.request s.2 found.purchases
      found.request t.2 := by
  obtain ⟨ram, w, -, h⟩ := exec_onFirst_bind_ok.mp h
  obtain ⟨usage, u, hsampled, h⟩ := exec_bind_ok.mp h
  obtain ⟨hprice, hresources⟩ := setting.sampled_keeps hsampled
  obtain ⟨ramPrice, -, h⟩ := exec_outcome_bind_ok.mp h
  obtain ⟨price, hfloat, h⟩ := exec_outcome_bind_ok.mp h
  rw [exec_change_bind] at h
  obtain ⟨⟨newAction, newRequest⟩, hprepend, h⟩ := exec_outcome_bind_ok.mp h
  cases h
  obtain ⟨hplaced, hfor⟩ := prependBuyrambytes_ok hprepend price
  rw [assetFromFloat_symbol hfloat] at hfor
  refine Pays.single hplaced ?_ ?_ hfor
  · exact congrArg (addPrice · price) hprice
  · exact congrArg (· ++ _) hresources

/-- **The RAM that powering up needs** comes in front of the powerup. -/
theorem extraRam_pays {config : ChainConfig} {signer : PermissionLevel} {powered found : Correction}
    {s t : W × Members} (h : exec (setting.extraRam config signer powered) s = (.ok found, t)) :
    ∃ ps, found.purchases = powered.purchases ++ ps ∧
      Pays signer (configSymbol config) powered.request s.2 ps found.request t.2 := by
  unfold extraRam at h
  split at h
  · obtain ⟨ram, w, -, h⟩ := exec_onFirst_bind_ok.mp h
    obtain ⟨⟨ramAction, withRam⟩, hprepend, h⟩ := exec_outcome_bind_ok.mp h
    obtain ⟨ramPriceAsset, -, h⟩ := exec_outcome_bind_ok.mp h
    obtain ⟨ramPrice, hfloat, h⟩ := exec_outcome_bind_ok.mp h
    rw [exec_change_bind] at h
    cases h
    obtain ⟨hplaced, hfor⟩ := prependBuyrambytes_ok hprepend ramPrice
    rw [assetFromFloat_symbol hfloat] at hfor
    exact ⟨_, rfl, Pays.single hplaced rfl rfl hfor⟩
  · cases h
    exact ⟨[], (List.append_nil _).symm, Pays.refl rfl rfl⟩

/-- **`powerup` buys CPU and NET**, and the RAM for it. -/
theorem powerup_pays {config : ChainConfig} {resolved : ResolvedSigningRequest}
    {account : AccountObject} {cpu net : Double} {found : Correction} {s t : W × Members}
    (h : exec (setting.powerup config resolved account cpu net) s = (.ok found, t)) :
    Pays resolved.signer (configSymbol config) resolved.request s.2 found.purchases
      found.request t.2 := by
  obtain ⟨state, w, -, h⟩ := exec_onFirst_bind_ok.mp h
  obtain ⟨sample, u, hsampled, h⟩ := exec_bind_ok.mp h
  obtain ⟨hprice, hresources⟩ := setting.sampled_keeps hsampled
  obtain ⟨price, hfloat, h⟩ := exec_outcome_bind_ok.mp h
  rw [exec_change_bind] at h
  obtain ⟨netFrac, -, h⟩ := exec_outcome_bind_ok.mp h
  obtain ⟨cpuFrac, -, h⟩ := exec_outcome_bind_ok.mp h
  obtain ⟨⟨newAction, modifiedRequest⟩, hprepend, h⟩ := exec_outcome_bind_ok.mp h
  obtain ⟨hplaced, hfor⟩ := prependPowerup_ok hprepend
  rw [assetFromFloat_symbol hfloat] at hfor
  obtain ⟨ps, hpurchases, hextra⟩ := setting.extraRam_pays h
  rw [hpurchases]
  refine Pays.append (Pays.single hplaced ?_ ?_ hfor) hextra
  · exact congrArg (addPrice · price) hprice
  · exact congrArg (· ++ _) hresources

/-- **One correction**: what it makes of the request is what its purchases make of it, and
without a correction nothing is paid. -/
theorem correction_pays {request : SigningRequest} {account : AccountObject}
    {found : Option Correction} {s t : W × Members}
    (h : exec (setting.correction request account) s = (.ok found, t)) :
    Pays setting.context.permissionLevel setting.symbol request s.2
      ((found.map Correction.purchases).getD []) ((found.map Correction.request).getD request)
      t.2 := by
  unfold correction at h
  rw [exec_change_bind, exec_look_bind] at h
  split at h
  · cases h
  · cases hconfig : setting.config with
    | none =>
      rw [hconfig] at h
      cases h
      exact Pays.refl rfl rfl
    | some config =>
      have hsymbol : setting.symbol = configSymbol config := by
        unfold symbol
        rw [hconfig]
        rfl
      cases hui : setting.context.ui with
      | none =>
        rw [hconfig, hui] at h
        cases h
        exact Pays.refl rfl rfl
      | some ui =>
        rw [hconfig, hui] at h
        obtain ⟨resolved, w, hresolve, h⟩ := exec_onFirst_bind_ok.mp h
        obtain ⟨hrequest, hsigner⟩ := setting.context.resolve_keeps hresolve
        obtain ⟨response, w', -, h⟩ := exec_onFirst_bind_ok.mp h
        obtain ⟨need, -, h⟩ := exec_outcome_bind_ok.mp h
        rw [hsymbol, ← hrequest, ← hsigner]
        -- What the measured transaction lacks decides which purchase is added, if any.
        cases need with
        | nothing =>
          cases h
          exact Pays.refl rfl rfl
        | powerup cpu net =>
          obtain ⟨found', u, hfound, h⟩ := exec_bind_ok.mp h
          cases h
          exact (setting.powerup_pays hfound).of_eq rfl rfl
        | buyram needed =>
          obtain ⟨found', u, hfound, h⟩ := exec_bind_ok.mp h
          cases h
          exact (setting.buyram_pays hfound).of_eq rfl rfl

/-! ## How often -/

/-- Paying is no call of `correct`. -/
theorem pay_iterations (price : Asset) (resources : List Str) :
    Frames (fun s : W × Members => s.2.iterations_)
      (change (fun s : W × Members => (s.1, s.2.pay price resources)) :
        Effect (W × Members) Error Unit) :=
  fun _ => rfl

/-- Nor is asking for a sample. -/
theorem sampled_iterations (config : ChainConfig) :
    Frames (fun s : W × Members => s.2.iterations_) (setting.sampled config) := by
  refine (Frames.look _ _).bind (fun sample => ?_)
  cases sample with
  | some usage => exact Frames.pure _ _
  | none =>
    refine (Frames.onFirst Members.iterations_ _).bind (fun usage => ?_)
    have hkept : Frames (fun s : W × Members => s.2.iterations_)
        (change (fun s : W × Members => (s.1, { s.2 with sample_ := some usage })) :
          Effect (W × Members) Error Unit) := fun _ => rfl
    exact hkept.bind (fun _ => Frames.pure _ _)

/-- Nor is buying RAM. -/
theorem buyram_iterations (config : ChainConfig) (resolved : ResolvedSigningRequest)
    (account : AccountObject) (needed : Double) :
    Frames (fun s : W × Members => s.2.iterations_)
      (setting.buyram config resolved account needed) := by
  refine (Frames.onFirst Members.iterations_ _).bind (fun ram => ?_)
  refine (setting.sampled_iterations config).bind (fun usage => ?_)
  refine (Frames.outcome _ _).bind (fun ramPrice => ?_)
  refine (Frames.outcome _ _).bind (fun price => ?_)
  refine (pay_iterations price ["RAM"]).bind (fun _ => ?_)
  exact (Frames.outcome _ _).bind (fun _ => Frames.pure _ _)

/-- Nor is buying the RAM for a powerup. -/
theorem extraRam_iterations (config : ChainConfig) (signer : PermissionLevel)
    (powered : Correction) :
    Frames (fun s : W × Members => s.2.iterations_) (setting.extraRam config signer powered) := by
  refine Frames.ite ?_ (Frames.pure _ _)
  refine (Frames.onFirst Members.iterations_ _).bind (fun ram => ?_)
  refine (Frames.outcome _ _).bind (fun prepended => ?_)
  refine (Frames.outcome _ _).bind (fun ramPriceAsset => ?_)
  refine (Frames.outcome _ _).bind (fun ramPrice => ?_)
  exact (pay_iterations ramPrice ["RAM"]).bind (fun _ => Frames.pure _ _)

/-- Nor is powering up. -/
theorem powerup_iterations (config : ChainConfig) (resolved : ResolvedSigningRequest)
    (account : AccountObject) (cpu net : Double) :
    Frames (fun s : W × Members => s.2.iterations_)
      (setting.powerup config resolved account cpu net) := by
  refine (Frames.onFirst Members.iterations_ _).bind (fun state => ?_)
  refine (setting.sampled_iterations config).bind (fun sample => ?_)
  refine (Frames.outcome _ _).bind (fun price => ?_)
  refine (pay_iterations price ["CPU", "NET"]).bind (fun _ => ?_)
  refine (Frames.outcome _ _).bind (fun netFrac => ?_)
  refine (Frames.outcome _ _).bind (fun cpuFrac => ?_)
  refine (Frames.outcome _ _).bind (fun prepended => ?_)
  exact setting.extraRam_iterations config resolved.signer _

/-- **Every call is counted**, whatever becomes of it, and only the first three correct. -/
theorem correction_iterations (request : SigningRequest) (account : AccountObject)
    (s : W × Members) :
    (exec (setting.correction request account) s).2.2.iterations_ = s.2.iterations_ + 1 ∧
      (∀ found t, exec (setting.correction request account) s = (.ok found, t) →
        s.2.iterations_ < 3) := by
  unfold correction
  -- The counter goes up before it is tested.
  rw [exec_change_bind, exec_look_bind]
  split
  · refine ⟨rfl, ?_⟩
    intro found t h
    cases h
  next hthree =>
    constructor
    · split
      next config ui _ _ =>
        refine (Frames.onFirst Members.iterations_ _).bind (fun resolved => ?_) _
        refine (Frames.onFirst Members.iterations_ _).bind (fun response => ?_)
        refine (Frames.outcome _ _).bind (fun need => ?_)
        cases need with
        | nothing => exact Frames.pure _ _
        | powerup cpu net =>
          exact (setting.powerup_iterations config resolved account cpu net).bind
            (fun _ => Frames.pure _ _)
        | buyram needed =>
          exact (setting.buyram_iterations config resolved account needed).bind
            (fun _ => Frames.pure _ _)
      next => rfl
    · intro _ _ _
      have hle : s.2.iterations_ + 1 ≤ 3 := not_lt.mp hthree
      omega

/-- `correct` is called at most four times in all. -/
theorem correct_iterations (calls : ℕ) (request : SigningRequest) (account : AccountObject)
    (s : W × Members) (hs : s.2.iterations_ ≤ 3) :
    (exec (setting.correct calls request account) s).2.2.iterations_ ≤ 4 := by
  induction calls generalizing request account s with
  | zero =>
    show s.2.iterations_ ≤ 4
    omega
  | succ calls ih =>
    obtain ⟨hcount, hfew⟩ := setting.correction_iterations request account s
    unfold correct
    rw [exec_bind]
    rcases hexec : exec (setting.correction request account) s with ⟨error | found, t⟩
    · rw [hexec] at hcount
      show t.2.iterations_ ≤ 4
      have hcount : t.2.iterations_ = s.2.iterations_ + 1 := hcount
      omega
    · have hthree := hfew found t hexec
      rw [hexec] at hcount
      have hcount : t.2.iterations_ = s.2.iterations_ + 1 := hcount
      cases found with
      | none =>
        show t.2.iterations_ ≤ 4
        omega
      | some found => exact ih found.request found.account t (by omega)

/-- **Four calls are all there are**: no larger bound makes a difference. -/
theorem correct_of_le {calls₁ calls₂ : ℕ} (request : SigningRequest) (account : AccountObject)
    (s : W × Members) (h₁ : 4 ≤ s.2.iterations_ + calls₁) (h₂ : 4 ≤ s.2.iterations_ + calls₂)
    (hs : s.2.iterations_ ≤ 3) :
    exec (setting.correct calls₁ request account) s =
      exec (setting.correct calls₂ request account) s := by
  induction calls₁ generalizing calls₂ request account s with
  | zero => omega
  | succ calls₁ ih =>
    obtain ⟨calls₂, rfl⟩ : ∃ n, calls₂ = n + 1 := ⟨calls₂ - 1, by omega⟩
    obtain ⟨hcount, hfew⟩ := setting.correction_iterations request account s
    unfold correct
    rw [exec_bind, exec_bind]
    rcases hexec : exec (setting.correction request account) s with ⟨error | found, t⟩
    · rfl
    · have hthree := hfew found t hexec
      rw [hexec] at hcount
      cases found with
      | none => rfl
      | some found =>
        have hcount : t.2.iterations_ = s.2.iterations_ + 1 := hcount
        exact ih found.request found.account t (by omega) (by omega) (by omega)

/-! ## All corrections -/

/-- The corrections that `correct` goes through. -/
def corrections : (calls : ℕ) → SigningRequest → AccountObject →
    Effect (W × Members) Error (List Correction)
  | 0, _, _ => outcome (err .plugin "Too many iterations. Please report this bug if you see it.")
  | calls + 1, request, account => do
    let found ← setting.correction request account
    match found with
    | none => return []
    | some found =>
      let rest ← corrections calls found.request found.account
      return found :: rest

/-- **A corrected request** is what the purchases of its corrections make of it. -/
theorem correct_ok {calls : ℕ} {request modified : SigningRequest} {account : AccountObject}
    {s t : W × Members} (h : exec (setting.correct calls request account) s = (.ok modified, t)) :
    ∃ found, exec (setting.corrections calls request account) s = (.ok found, t) ∧
      s.2.iterations_ + found.length ≤ 3 ∧
      Pays setting.context.permissionLevel setting.symbol request s.2 (allPurchases found)
        modified t.2 := by
  induction calls generalizing request account s with
  | zero => cases h
  | succ calls ih =>
    obtain ⟨found, u, hfound, h⟩ := exec_bind_ok.mp h
    have hpays := setting.correction_pays hfound
    obtain ⟨hcount, hfew⟩ := setting.correction_iterations request account s
    have hthree := hfew found u hfound
    rw [hfound] at hcount
    have hcount : u.2.iterations_ = s.2.iterations_ + 1 := hcount
    unfold corrections
    rw [exec_bind_of_ok hfound]
    cases found with
    | none =>
      cases h
      exact ⟨[], rfl, by simpa using hthree.le, hpays⟩
    | some found =>
      obtain ⟨rest, hrest, hlength, hpaysRest⟩ := ih h
      refine ⟨found :: rest, ?_, ?_, hpays.append hpaysRest⟩
      · exact exec_bind_ok.mpr ⟨rest, t, hrest, rfl⟩
      · rw [List.length_cons]
        omega

/-- Where the corrections end, `correct` does. -/
theorem correct_of_corrections {calls : ℕ} {request : SigningRequest} {account : AccountObject}
    {found : List Correction} {s t : W × Members}
    (h : exec (setting.corrections calls request account) s = (.ok found, t)) :
    ∃ modified, exec (setting.correct calls request account) s = (.ok modified, t) := by
  induction calls generalizing request account found s with
  | zero => cases h
  | succ calls ih =>
    obtain ⟨first, u, hfirst, h⟩ := exec_bind_ok.mp h
    unfold correct
    rw [exec_bind_of_ok hfirst]
    cases first with
    | none =>
      cases h
      exact ⟨request, rfl⟩
    | some first =>
      obtain ⟨rest, u', hrest, h⟩ := exec_bind_ok.mp h
      cases h
      exact ih hrest

/-- The corrections of a run. -/
def bought (ui : Transact.UserInterface W) (request : SigningRequest) :
    Effect (W × Members) Error (List Correction) := do
  let account ← setting.start ui
  setting.corrections 4 request account

/-! ## What the user is told -/

/-- A resource is in the set it is added to. -/
theorem mem_insertUnique {text t : Str} {ts : List Str} :
    t ∈ insertUnique text ts ↔ t = text ∨ t ∈ ts := by
  induction ts with
  | nil => simp [insertUnique]
  | cons t' ts ih =>
    unfold insertUnique
    split
    · rename_i heq
      subst heq
      simp
    · split
      · simp
      · simp only [List.mem_cons, ih]
        tauto

/-- The set of the resources has them all. -/
theorem mem_uniqueResources {resources : List Str} {t : Str} :
    t ∈ uniqueResources resources ↔ t ∈ resources := by
  induction resources with
  | nil => simp [uniqueResources]
  | cons text resources ih =>
    show t ∈ insertUnique text (uniqueResources resources) ↔ _
    rw [mem_insertUnique, ih, List.mem_cons]

/-- A prompt that tells the user what is bought: the exact sum of the prices, and all the
resources. -/
def Discloses (t : UserInterfaceTranslateFunction) (purchases : List Purchase)
    (prompt : PromptArgs) : Prop :=
  ∃ cost names, prompt = feePrompt t (some cost) names ∧
    cost.units.toInt = exactSum purchases ∧
    ∀ p ∈ purchases, p.price.symbol = cost.symbol ∧ ∀ r ∈ p.resources, r ∈ names

/-- What a run should do: a modified request is the original one behind purchases for the
signer, which the user was told about and accepted; a prompt that is turned down leaves the
request as it was; and the recursion stops. -/
structure Right (request : SigningRequest) (s : W × Members) : Prop where
  modified : ∀ response t, exec (setting.run request) s = (.ok response, t) →
    response.request ≠ request →
    ∃ ui prompt u found, setting.context.ui = some ui ∧
      exec (setting.prepare ui request) s = (.ok (response.request, some prompt), u) ∧
      exec (ui.prompt prompt) u.1 = (.ok (), t.1) ∧
      exec (setting.bought ui request) s = (.ok found, u) ∧ found.length ≤ 3 ∧
      (∃ actions, request.getRawActions = .ok actions ∧
        response.request.getRawActions =
          .ok ((allPurchases found).reverse.map Purchase.action ++ actions)) ∧
      (∀ p ∈ allPurchases found, p.For setting.context.permissionLevel setting.symbol) ∧
      Discloses (ui.getTranslate pluginId) (allPurchases found) prompt
  rejected : ∀ ui modified prompt u error w, setting.context.ui = some ui →
    exec (setting.prepare ui request) s = (.ok (modified, some prompt), u) →
    exec (ui.prompt prompt) u.1 = (.error error, w) →
    exec (setting.run request) s =
      (if error.kind = .canceled then .error error else .ok { request }, (w, u.2))
  stops : ∀ ui, setting.context.ui = some ui →
    (exec (setting.run request) s).2.2.iterations_ ≤ 4 ∧
      ∀ calls, 4 ≤ calls → ∀ account u, exec (setting.start ui) s = (.ok account, u) →
        exec (setting.correct calls request account) u =
          exec (setting.correct 4 request account) u

/-- The exact sum of the prices fits the units of an asset, whenever the user accepts. -/
def SumFits (request : SigningRequest) (s : W × Members) : Prop :=
  ∀ ui found u w, setting.context.ui = some ui →
    exec (setting.bought ui request) s = (.ok found, u) →
    exec (ui.prompt (feePrompt (ui.getTranslate pluginId) u.2.price_
      (uniqueResources u.2.resources_))) u.1 = (.ok (), w) →
    Fits (exactSum (allPurchases found))

/-- A run starts without a total, without resources and without calls. -/
theorem start_ok {ui : Transact.UserInterface W} {account : AccountObject} {s t : W × Members}
    (h : exec (setting.start ui) s = (.ok account, t)) :
    t.2.price_ = none ∧ t.2.resources_ = [] ∧ t.2.iterations_ = 0 := by
  unfold start at h
  rw [exec_change_bind] at h
  obtain ⟨_, w, -, h⟩ := exec_onFirst_bind_ok.mp h
  have hmembers : _ = t.2 := congrArg (fun r => r.2.2) h
  rw [← hmembers]
  exact ⟨rfl, rfl, rfl⟩

/-- Whatever becomes of its start. -/
theorem start_iterations (ui : Transact.UserInterface W) (s : W × Members) :
    (exec (setting.start ui) s).2.2.iterations_ = 0 := by
  unfold start
  rw [exec_change_bind]
  exact (Frames.onFirst Members.iterations_ _).bind
    (fun _ => Frames.onFirst Members.iterations_ _) _

/-- **What is prepared for the user**: the purchases, and the prompt for them unless there
are none. -/
theorem prepare_ok {ui : Transact.UserInterface W} {request modified : SigningRequest}
    {prompt : Option PromptArgs} {s u : W × Members}
    (h : exec (setting.prepare ui request) s = (.ok (modified, prompt), u)) :
    ∃ found, exec (setting.bought ui request) s = (.ok found, u) ∧ found.length ≤ 3 ∧
      Pays setting.context.permissionLevel setting.symbol request {} (allPurchases found)
        modified u.2 ∧
      (prompt = none → allPurchases found = []) ∧
      ∀ shown, prompt = some shown → shown = feePrompt (ui.getTranslate pluginId) u.2.price_
        (uniqueResources u.2.resources_) := by
  obtain ⟨account, s₁, hstart, h⟩ := exec_bind_ok.mp h
  obtain ⟨hprice, hresources, hiterations⟩ := setting.start_ok hstart
  obtain ⟨modified', s₂, hcorrect, h⟩ := exec_bind_ok.mp h
  obtain ⟨found, hfound, hlength, hpays⟩ := setting.correct_ok hcorrect
  have hpays : Pays setting.context.permissionLevel setting.symbol request {} (allPurchases found)
      modified' s₂.2 := hpays.of_eq hprice hresources
  rw [exec_look_bind, exec_look_bind] at h
  -- `bought` follows the same steps, so it ends in the state that they end in.
  have hbought : exec (setting.bought ui request) s = (.ok found, s₂) :=
    exec_bind_ok.mpr ⟨account, s₁, hstart, hfound⟩
  split at h
  next hnothing =>
    cases h
    refine ⟨found, hbought, by omega, hpays, fun _ => ?_, by simp⟩
    by_contra hne
    obtain ⟨cost, hcost, -⟩ := total_of_ne_nil hne
    have hsome : u.2.price_ = some cost := hpays.price.trans hcost
    rw [hsome] at hnothing
    exact absurd hnothing.2 (by simp)
  next =>
    cases h
    refine ⟨found, hbought, by omega, hpays, by simp, ?_⟩
    intro shown hshown
    cases hshown
    rfl

/-- Where something is bought, the user is asked about it. -/
theorem prepare_of_bought {ui : Transact.UserInterface W} {request : SigningRequest}
    {found : List Correction} {s u : W × Members}
    (h : exec (setting.bought ui request) s = (.ok found, u)) (hne : allPurchases found ≠ []) :
    ∃ modified, modified ≠ request ∧ exec (setting.prepare ui request) s =
      (.ok (modified, some (feePrompt (ui.getTranslate pluginId) u.2.price_
        (uniqueResources u.2.resources_))), u) := by
  obtain ⟨account, s₁, hstart, hfound⟩ := exec_bind_ok.mp h
  obtain ⟨hprice, -, -⟩ := setting.start_ok hstart
  obtain ⟨modified, hcorrect⟩ := setting.correct_of_corrections hfound
  obtain ⟨found', hfound', -, hpays⟩ := setting.correct_ok hcorrect
  rw [hfound] at hfound'
  cases hfound'
  obtain ⟨cost, hcost, -⟩ := total_of_ne_nil hne
  have hsome : u.2.price_ = some cost := by rw [hpays.price, hprice, hcost]
  refine ⟨modified, ?_, ?_⟩
  · rintro rfl
    obtain ⟨actions, hactions⟩ := hpays.exists_rawActions hne
    have hraw := hpays.rawActions hactions
    rw [hactions] at hraw
    have hlength := congrArg List.length (Except.ok.inj hraw)
    have hpos := List.length_pos_of_ne_nil hne
    rw [List.length_append, List.length_map, List.length_reverse] at hlength
    omega
  · unfold prepare
    rw [exec_bind_of_ok hstart, exec_bind_of_ok hcorrect, exec_look_bind, exec_look_bind,
      if_neg (by rw [hsome]; simp)]
    rfl

/-- What a run with a user interface comes to, once the prompt is prepared. -/
theorem exec_run {ui : Transact.UserInterface W} (hui : setting.context.ui = some ui)
    {request modified : SigningRequest} {prompt : PromptArgs} {s u : W × Members}
    (h : exec (setting.prepare ui request) s = (.ok (modified, some prompt), u)) :
    exec (setting.run request) s =
      (match (exec (ui.prompt prompt) u.1).1 with
        | .ok () => .ok { request := modified }
        | .error error => if error.kind = .canceled then .error error else .ok { request },
        ((exec (ui.prompt prompt) u.1).2, u.2)) := by
  unfold run
  rw [hui]
  show exec (setting.prepare ui request >>= _) s = _
  rw [exec_bind_of_ok h]
  have hattempt : exec (onFirst (attempt (ui.prompt prompt))) u =
      ((.ok (exec (ui.prompt prompt) u.1).1 : Except Error _),
        ((exec (ui.prompt prompt) u.1).2, u.2)) := rfl
  refine (exec_bind_of_ok hattempt).trans ?_
  rcases (exec (ui.prompt prompt) u.1).1 with error | _
  · by_cases hcanceled : error.kind = .canceled
    · simp [hcanceled]
    · simp [hcanceled]
  · rfl

/-- The calls of a run are those of its corrections. -/
theorem run_iterations {ui : Transact.UserInterface W} (hui : setting.context.ui = some ui)
    (request : SigningRequest) (s : W × Members) :
    (exec (setting.run request) s).2.2.iterations_ ≤ 4 := by
  have hprepare : (exec (setting.prepare ui request) s).2.2.iterations_ ≤ 4 := by
    unfold prepare
    rw [exec_bind]
    have hstart := setting.start_iterations ui s
    rcases hexec : exec (setting.start ui) s with ⟨error | account, t⟩
    · rw [hexec] at hstart
      have hstart : t.2.iterations_ = 0 := hstart
      show t.2.iterations_ ≤ 4
      omega
    · rw [hexec] at hstart
      have hstart : t.2.iterations_ = 0 := hstart
      -- Every run sets the counter back before it corrects.
      have hcorrect := setting.correct_iterations 4 request account t (by omega)
      show (exec (setting.correct 4 request account >>= _) t).2.2.iterations_ ≤ 4
      rw [exec_bind]
      rcases hexec : exec (setting.correct 4 request account) t with ⟨error | modified, u⟩
      · rw [hexec] at hcorrect
        exact hcorrect
      · rw [hexec] at hcorrect
        show (exec (look _ >>= _) u).2.2.iterations_ ≤ 4
        rw [exec_look_bind, exec_look_bind]
        split
        · exact hcorrect
        · exact hcorrect
  rcases hexec : exec (setting.prepare ui request) s with ⟨error | ⟨modified, _ | prompt⟩, u⟩
  · rw [hexec] at hprepare
    unfold run
    rw [hui]
    show (exec (setting.prepare ui request >>= _) s).2.2.iterations_ ≤ 4
    rw [exec_bind, hexec]
    exact hprepare
  · rw [hexec] at hprepare
    unfold run
    rw [hui]
    show (exec (setting.prepare ui request >>= _) s).2.2.iterations_ ≤ 4
    rw [exec_bind, hexec]
    exact hprepare
  · rw [setting.exec_run hui hexec]
    rw [hexec] at hprepare
    exact hprepare

/-- A modified request was prepared for the user, who accepted. -/
theorem run_modified {request : SigningRequest} {response : Transact.TransactHookResponse}
    {s t : W × Members} (h : exec (setting.run request) s = (.ok response, t))
    (hmodified : response.request ≠ request) :
    ∃ ui prompt u, setting.context.ui = some ui ∧
      exec (setting.prepare ui request) s = (.ok (response.request, some prompt), u) ∧
      exec (ui.prompt prompt) u.1 = (.ok (), t.1) := by
  cases hui : setting.context.ui with
  | none =>
    unfold run at h
    rw [hui] at h
    cases h
    exact absurd rfl hmodified
  | some ui =>
    have hrun := h
    unfold run at h
    rw [hui] at h
    obtain ⟨⟨modified, prompt⟩, u, hprepare, h⟩ := exec_bind_ok.mp h
    cases prompt with
    | none =>
      cases h
      exact absurd rfl hmodified
    | some prompt =>
      rw [setting.exec_run hui hprepare] at hrun
      rcases hanswer : exec (ui.prompt prompt) u.1 with ⟨error | _, w⟩
      · rw [hanswer] at hrun
        have hresponse : (if error.kind = .canceled then .error error
            else .ok { request } : Result Transact.TransactHookResponse) = .ok response :=
          congrArg Prod.fst hrun
        -- A prompt that fails gives the request back as it was, or the error.
        split at hresponse
        · cases hresponse
        · cases hresponse
          exact absurd rfl hmodified
      · rw [hanswer] at hrun
        cases hrun
        exact ⟨ui, prompt, u, rfl, hprepare, hanswer⟩

/-- What the prompt shows fits the units of an asset. -/
theorem sumFits_of_right {request : SigningRequest} {s : W × Members}
    (hright : setting.Right request s) : setting.SumFits request s := by
  intro ui found u w hui hbought hprompt
  by_cases hne : allPurchases found = []
  · rw [hne]
    exact ⟨by decide, by decide⟩
  · obtain ⟨modified, hmodified, hprepare⟩ := setting.prepare_of_bought hbought hne
    have hrun := setting.exec_run hui hprepare
    rw [hprompt] at hrun
    obtain ⟨ui', prompt, u', found', hui', hprepare', -, hbought', -, -, -, cost, names, -,
      hcost, -⟩ := hright.modified _ _ hrun hmodified
    rw [hui] at hui'
    cases hui'
    rw [hbought] at hbought'
    cases hbought'
    rw [← hcost]
    exact ⟨Int64.le_toInt cost.units, Int64.toInt_lt cost.units⟩

/-- A modified request, if the sum fits. -/
theorem modified_of_sumFits {request : SigningRequest} {s t : W × Members}
    (hfits : setting.SumFits request s) {response : Transact.TransactHookResponse}
    (hrun : exec (setting.run request) s = (.ok response, t))
    (hmodified : response.request ≠ request) :
    ∃ ui prompt u found, setting.context.ui = some ui ∧
      exec (setting.prepare ui request) s = (.ok (response.request, some prompt), u) ∧
      exec (ui.prompt prompt) u.1 = (.ok (), t.1) ∧
      exec (setting.bought ui request) s = (.ok found, u) ∧ found.length ≤ 3 ∧
      (∃ actions, request.getRawActions = .ok actions ∧
        response.request.getRawActions =
          .ok ((allPurchases found).reverse.map Purchase.action ++ actions)) ∧
      (∀ p ∈ allPurchases found, p.For setting.context.permissionLevel setting.symbol) ∧
      Discloses (ui.getTranslate pluginId) (allPurchases found) prompt := by
  obtain ⟨ui, prompt, u, hui, hprepare, hprompt⟩ := setting.run_modified hrun hmodified
  obtain ⟨found, hbought, hlength, hpays, -, hshown⟩ := setting.prepare_ok hprepare
  obtain rfl := hshown prompt rfl
  have hne : allPurchases found ≠ [] := by
    intro hnil
    rw [hnil] at hpays
    exact hmodified hpays.request_eq
  obtain ⟨actions, hactions⟩ := hpays.exists_rawActions hne
  refine ⟨ui, _, u, found, hui, hprepare, hprompt, hbought, hlength,
    ⟨actions, hactions, hpays.rawActions hactions⟩, hpays.bought, ?_⟩
  -- what is left is the prompt: the total is the exact sum since that fits
  obtain ⟨cost, hcost, ⟨p, hp, hsymbol⟩, hexact⟩ := total_of_ne_nil hne
  have hprice : u.2.price_ = some cost := hpays.price.trans hcost
  refine ⟨cost, uniqueResources u.2.resources_, by rw [hprice],
    hexact (hfits ui found u t.1 hui hbought hprompt), ?_⟩
  intro q hq
  constructor
  · rw [hsymbol, (hpays.bought p hp).1, (hpays.bought q hq).1]
  · intro r hr
    rw [mem_uniqueResources, hpays.resources]
    exact List.mem_append_right _ (List.mem_flatMap.mpr ⟨q, hq, hr⟩)

/-- **When the user is told the truth**: exactly when the sum of the prices fits the units of
an asset.  The total wraps around. -/
theorem right_iff (request : SigningRequest) (s : W × Members) :
    setting.Right request s ↔ setting.SumFits request s := by
  constructor
  · exact setting.sumFits_of_right
  · intro hfits
    refine ⟨?_, ?_, ?_⟩
    · intro response t hrun hmodified
      exact setting.modified_of_sumFits hfits hrun hmodified
    · intro ui modified prompt u error w hui hprepare hprompt
      rw [setting.exec_run hui hprepare, hprompt]
    · intro ui hui
      refine ⟨setting.run_iterations hui request s, ?_⟩
      intro calls hcalls account u hstart
      obtain ⟨-, -, hzero⟩ := setting.start_ok hstart
      exact setting.correct_of_le request account u (by omega) (by omega) (by omega)

end Setting

/-! ## A total that wraps around -/

/-- The ABI of the system contract, as far as buying RAM goes. -/
def ramABI : ABI where
  structs := [{ name := "buyrambytes", base := [], fields := [
    { name := "payer", type := "name" }, { name := "receiver", type := "name" },
    { name := "bytes", type := "uint32" }] }]
  actions := [{ name := .ofString "buyrambytes", type := "buyrambytes", ricardian_contract := [] }]

/-- A response: the transaction needs 300 bytes of RAM, and 100 are there. -/
def ramExceeded : Json :=
  .obj [(lit "processed", .obj [(lit "except", .obj [
    (lit "name", .str "ram_usage_exceeded"),
    (lit "stack", .arr [.obj [(lit "data", .obj [
      (lit "available", .int 100), (lit "needs", .int 300)])]])])])]

/-- What the doubles come to: 200 bytes are missing, 300 are bought, and their value is
`461168601842738.79`. -/
def dearArithmetic : Arithmetic where
  mul _ _ := ⟨0x4072c00000000000⟩
  add x _ := x
  sub _ _ := ⟨0x4069000000000000⟩
  less _ _ := false
  value _ := ⟨0x42fa36e2eb1c432d⟩
  toFixed _ _ := lit "461168601842738.8125"
  toUInt32 _ := 300

/-- A chain where 300 bytes of RAM cost `2 ^ 62` units, and which misses them twice: the
state counts the transactions it has computed. -/
def dearSetting : Setting ℕ where
  p := default
  fp := dearArithmetic
  zlib := { deflateRaw := .ok, inflateRaw := .ok }
  client := {
    get_account := fun _ => pure {}
    compute_transaction := fun _ => do
      let computed ← look id
      change (· + 1)
      return (if computed < 2 then ramExceeded else .obj [])
    ramState := pure {
      price_per := fun _ => .ok { units := 2 ^ 62, symbol := ⟨toRawSymbol "EOS" 4⟩ } }
    powerupState := outcome (err .notFound "No powerup state found")
    getSampledUsage := fun _ => pure { cpu := {}, net := {} } }
  context := {
    abiCache := fun _ _ => .ok ramABI
    chain := { id := eosId }
    getInfo := outcome (err .transport "")
    now := fun _ => 0
    permissionLevel := { actor := .ofString "alice", permission := .ofString "active" }
    ui := some {
      getTranslate := fun _ _ options => options.defaultValue
      status := fun _ => pure ()
      prompt := fun _ => pure () } }

/-- A transaction of the EOS chain, with its TaPoS values. -/
def dearRequest : SigningRequest where
  data := .v2 {
    chain_id := .alias 1
    req := .transaction {
      expiration := ⟨1⟩
      ref_block_num := 1
      ref_block_prefix := 1
      actions := [] } }

/-- **A price that no asset can hold** is not the one the user is shown. -/
theorem not_right_dear : ¬ dearSetting.Right dearRequest (0, {}) := by
  intro hright
  have hsome : (exec (dearSetting.bought (dearSetting.context.ui.get rfl) dearRequest)
      (0, {})).1.toOption.isSome = true := by decide +kernel
  obtain ⟨found, hfound⟩ := exec_of_isSome hsome
  have hsum : (exec (dearSetting.bought (dearSetting.context.ui.get rfl) dearRequest)
      (0, {})).1.toOption.map (fun found => exactSum (allPurchases found)) =
      some 9223372036854776250 := by decide +kernel
  rw [hfound] at hsum
  have hexact : exactSum (allPurchases found) = 9223372036854776250 := Option.some.inj hsum
  have hfits := dearSetting.sumFits_of_right hright _ found _ _ rfl hfound rfl
  rw [hexact] at hfits
  exact absurd hfits.2 (by decide)

end AutoCorrect

end Dwarfkit
