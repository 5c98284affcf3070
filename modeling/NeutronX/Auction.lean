import Mathlib.Logic.Function.Basic
import NeutronX.Evm.Accounts
import NeutronX.Order

/-!
# FillAuction

The state of the stake auction and its entry points, one definition per
function of the contract. An entry point takes the immutables, the block,
`msg.sender` and the answers of the contracts it only reads (the oracle's
quote, the reactor's view of an order), and returns the next state or the
revert.

`withdraw` hands control to the receiver of the payment, so it is two
pieces: `withdrawSend` up to and including the payment, `withdrawReturn`
after it. Every other entry point is one piece, because the contracts it
calls are called read-only.

Three fields are history, not storage: `credits` has one entry for every
`pendingReturns[account] += amount` that was executed, `withdrawn` adds up
what left, `forcedEth` what arrived without a call.
-/

namespace NeutronX

open Evm Function

/-! ## State -/

structure Registration where
  filler : Address
  fillAmount : Nat
  stakeAmount : Nat
  orderTotal : Nat
  registeredAt : Nat
  deadline : Nat
  filled : Bool
  slashed : Bool
  released : Bool
  refundRow : List Nat
  ratioSnapshot : List Nat
deriving DecidableEq

/-- A slot of the mapping nothing was written to. -/
def Registration.empty : Registration :=
  ⟨0, 0, 0, 0, 0, 0, false, false, false, [], []⟩

def Registration.resolved (reg : Registration) : Bool :=
  reg.filled || reg.slashed || reg.released

inductive Role where
  | defaultAdmin
  | paramAdmin
  | guardian
  | keeper
deriving DecidableEq

inductive AuctionEvent (κ : Type) where
  | registered (filler : Address) (orderHash : κ) (fillAmount stake : Nat)
  | slashed (filler : Address) (orderHash : κ) (stake : Nat) (caller : Address) (reward : Nat)
  | stakeReturned (filler : Address) (orderHash : κ) (refund : Nat)
  | stakeForfeited (filler : Address) (orderHash : κ) (amount : Nat)
  | stakeReleased (filler : Address) (orderHash : κ) (amount : Nat)
  | reactorSet (reactor : Address)
  | stakeConfigUpdated
  | pendingConfigQueued (effectiveAt : Nat)
  | pendingConfigCancelled
  | configRollback

/-- One executed `pendingReturns[account] += amount`, with the registration
whose stake the amount is part of; `none` for value sent beyond the stake. -/
structure Credit (κ : Type) where
  account : Address
  amount : Nat
  source : Option (κ × Address)

structure AuctionState (κ : Type) where
  reactor : Address
  roles : Role → Address → Bool
  config : StakeConfig
  previousConfig : StakeConfig
  pending : StakeConfig
  pendingEffective : Nat
  lastChange : Nat
  registrations : κ → Address → Registration
  pendingReturns : Address → Nat
  /-- the reentrancy guard -/
  entered : Bool
  /-- the contract's ETH balance -/
  balance : Nat
  events : List (Nat × AuctionEvent κ)
  credits : List (Credit κ)
  withdrawn : Address → Nat
  forcedEth : Nat

/-- The immutables an entry point reads. -/
structure AuctionParams where
  self : Address
  treasury : Address

/-- `oracle.quoteEthNotional(token, amount, feeTier)`. -/
abbrev Quote := Address → Nat → Nat → Except Revert Nat

/-- `IReactorView`: what the auction asks the reactor about an order. -/
structure ReactorView (κ : Type) where
  remainingInput : κ → Nat → Nat
  isCancelled : κ → Bool
  isNonceInvalidatedForOrder : κ → Bool

namespace FillAuction

def SLASH_WINDOW : Nat := 50
def MAX_COLLATERAL_RATE : Nat := 1000000
def MAX_REFUND_BPS : Nat := 10000
def MIN_COLLATERAL_RATE : Nat := 100
def MAX_BUCKETS : Nat := 16
def MAX_DELTA_BPS : Nat := 2000
def CHANGE_COOLDOWN : Nat := 86400
def LOOSEN_DELAY : Nat := 604800
def MIN_PENALTY_BPS : Nat := 500
def MIN_WORST_CASE_KAPPA_BPS : Nat := 1000

variable {κ : Type}

/-- The state after the constructor, called by `admin`. -/
def deployed (admin : Address) : AuctionState κ where
  reactor := 0
  roles := fun role a => decide (role = .defaultAdmin ∧ a = admin)
  config := DynamicStakeLib.defaultStakeConfig
  previousConfig := DynamicStakeLib.emptyConfig
  pending := DynamicStakeLib.emptyConfig
  pendingEffective := 0
  lastChange := 0
  registrations := fun _ _ => .empty
  pendingReturns := fun _ => 0
  entered := false
  balance := 0
  events := []
  credits := []
  withdrawn := fun _ => 0
  forcedEth := 0

/-! ## Shared pieces -/

def emit (s : AuctionState κ) (blk : Block) (e : AuctionEvent κ) : AuctionState κ :=
  { s with events := (blk.number, e) :: s.events }

/-- `pendingReturns[c.account] += c.amount` -/
def credit (s : AuctionState κ) (c : Credit κ) : Except Revert (AuctionState κ) := do
  let sum ← checkedAdd (s.pendingReturns c.account) c.amount
  return { s with
    pendingReturns := update s.pendingReturns c.account sum
    credits := c :: s.credits }

/-- `AccessControl.onlyRole` of OpenZeppelin, as documented there: a call by
an account without the role reverts. -/
def onlyRole (s : AuctionState κ) (role : Role) (msgSender : Address) : Except Revert Unit :=
  requireCustom (s.roles role msgSender = true) "AccessControlUnauthorizedAccount"

/-- The value of a payable call arrives before its body runs. An account's
balance is a 256-bit word. -/
def receiveValue (s : AuctionState κ) (msgValue : Nat) : Except Revert (AuctionState κ) := do
  let balance ← checkedAdd s.balance msgValue
  return { s with balance }

variable [DecidableEq κ]

def setRegistration (s : AuctionState κ) (orderHash : κ) (filler : Address)
    (reg : Registration) : AuctionState κ :=
  { s with registrations := update₂ s.registrations orderHash filler reg }

/-! ## Registrations -/

/-- The raw amount when the oracle is disabled. -/
def notionalEth (oracle : Option Quote) (inputToken : Address) (feeTier fillAmount : Nat) :
    Except Revert Nat :=
  match oracle with
  | none => .ok fillAmount
  | some quote => quote inputToken fillAmount feeTier

structure RegisterArgs (κ : Type) where
  filler : Address
  orderHash : κ
  fillAmount : Nat
  orderTotal : Nat
  deadline : Nat
  inputToken : Address
  feeTier : Nat

/-- What `register` stores. -/
def newRegistration (blk : Block) (a : RegisterArgs κ) (snap : DynamicStakeLib.Snapshot) :
    Registration where
  filler := a.filler
  fillAmount := toUint 128 a.fillAmount
  stakeAmount := toUint 128 snap.required
  orderTotal := toUint 128 a.orderTotal
  registeredAt := toUint 64 blk.number
  deadline := toUint 64 a.deadline
  filled := false
  slashed := false
  released := false
  refundRow := snap.refundRow
  ratioSnapshot := snap.ratioSnapshot

def register (oracle : Option Quote) (blk : Block) (s : AuctionState κ) (msgSender : Address)
    (msgValue : Nat) (a : RegisterArgs κ) : Except Revert (AuctionState κ) := do
  let s ← receiveValue s msgValue
  require (msgSender = s.reactor) "only reactor"
  nonReentrant s.entered
  require (blk.number < a.deadline) "deadline passed"
  require (0 < a.fillAmount) "zero fill"
  require (a.fillAmount ≤ a.orderTotal) "fill > total"
  require ((s.registrations a.orderHash a.filler).filler = 0) "already registered"
  require (a.fillAmount ≤ maxUint 128) "fill too large"
  require (a.orderTotal ≤ maxUint 128) "total too large"
  let notional ← notionalEth oracle a.inputToken a.feeTier a.fillAmount
  let snap ← DynamicStakeLib.computeRegistration blk s.config notional a.deadline
  require (snap.required ≤ msgValue) "insufficient stake"
  require (snap.required ≤ maxUint 128) "stake too large"
  let s := setRegistration s a.orderHash a.filler (newRegistration blk a snap)
  let excess := msgValue - snap.required
  let s ← if 0 < excess then credit s ⟨a.filler, excess, none⟩ else pure s
  return emit s blk (.registered a.filler a.orderHash a.fillAmount snap.required)

def slash (p : AuctionParams) (view : ReactorView κ) (blk : Block) (s : AuctionState κ)
    (msgSender : Address) (orderHash : κ) (filler : Address) :
    Except Revert (AuctionState κ) := do
  nonReentrant s.entered
  let reg := s.registrations orderHash filler
  require (reg.filler ≠ 0) "not registered"
  require (reg.resolved = false) "invalid state"
  require (reg.deadline + SLASH_WINDOW < blk.number) "too early"
  require (view.isCancelled orderHash = false) "cancelled"
  require (view.isNonceInvalidatedForOrder orderHash = false) "nonce invalidated"
  require (0 < view.remainingInput orderHash reg.orderTotal) "order satisfied"
  let s := setRegistration s orderHash filler { reg with slashed := true }
  let stake := reg.stakeAmount
  let reward := stake / 10
  let toTreasury := stake - reward
  let s ← credit s ⟨msgSender, reward, some (orderHash, filler)⟩
  let s ← credit s ⟨p.treasury, toTreasury, some (orderHash, filler)⟩
  return emit s blk (.slashed filler orderHash stake msgSender reward)

def releaseRegistration (view : ReactorView κ) (blk : Block) (s : AuctionState κ)
    (orderHash : κ) (filler : Address) : Except Revert (AuctionState κ) := do
  nonReentrant s.entered
  let reg := s.registrations orderHash filler
  require (reg.filler ≠ 0) "not registered"
  require (reg.resolved = false) "invalid state"
  let satisfied := view.remainingInput orderHash reg.orderTotal = 0
  let cancelled := view.isCancelled orderHash = true
  let invalidated := view.isNonceInvalidatedForOrder orderHash = true
  require (satisfied ∨ cancelled ∨ invalidated) "still fillable"
  let s := setRegistration s orderHash filler { reg with released := true }
  let s ← credit s ⟨reg.filler, reg.stakeAmount, some (orderHash, filler)⟩
  return emit s blk (.stakeReleased reg.filler orderHash reg.stakeAmount)

/-- The refund of a settlement: against the registration's own snapshot,
for the fill over what was deliverable. -/
def settlementRefund (reg : Registration) (actualFillAmount remainingAtFill : Nat) :
    Except Revert Nat :=
  let deliverable := if remainingAtFill < reg.fillAmount then remainingAtFill else reg.fillAmount
  DynamicStakeLib.computeRefund reg.stakeAmount actualFillAmount deliverable reg.refundRow
    reg.ratioSnapshot

def onFillSuccess (p : AuctionParams) (blk : Block) (s : AuctionState κ) (msgSender : Address)
    (orderHash : κ) (filler : Address) (actualFillAmount remainingAtFill : Nat) :
    Except Revert (AuctionState κ) := do
  require (msgSender = s.reactor) "only reactor"
  let reg := s.registrations orderHash filler
  require (reg.resolved = false) "invalid state"
  let s := setRegistration s orderHash filler { reg with filled := true }
  let refund ← settlementRefund reg actualFillAmount remainingAtFill
  let forfeited ← checkedSub reg.stakeAmount refund
  let s ← credit s ⟨filler, refund, some (orderHash, filler)⟩
  let s := emit s blk (.stakeReturned filler orderHash refund)
  if 0 < forfeited then
    let s ← credit s ⟨p.treasury, forfeited, some (orderHash, filler)⟩
    return emit s blk (.stakeForfeited filler orderHash forfeited)
  return s

def hasValidRegistration (blk : Block) (s : AuctionState κ) (orderHash : κ) (filler : Address)
    (fillAmount : Nat) : Bool :=
  let reg := s.registrations orderHash filler
  decide (reg.filler = filler ∧ reg.filled = false ∧ reg.slashed = false ∧
    reg.released = false ∧ toUint 128 fillAmount ≤ reg.fillAmount ∧ blk.number ≤ reg.deadline)

/-! ## Withdrawals -/

/-- `withdraw` up to the payment. A payment to the auction itself fails: it
has no function that accepts plain ETH. -/
def withdrawSend (p : AuctionParams) (s : AuctionState κ) (msgSender to_ : Address) :
    Except Revert (AuctionState κ) := do
  nonReentrant s.entered
  require (to_ ≠ 0) "zero to"
  let amount := s.pendingReturns msgSender
  require (0 < amount) "nothing to withdraw"
  require (amount ≤ s.balance ∧ to_ ≠ p.self) "transfer failed"
  return { s with
    entered := true
    pendingReturns := update s.pendingReturns msgSender 0
    balance := s.balance - amount
    withdrawn := update s.withdrawn msgSender (s.withdrawn msgSender + amount) }

/-- `withdraw` after the payment, which the receiver accepted or not. -/
def withdrawReturn (s : AuctionState κ) (accepted : Bool) : Except Revert (AuctionState κ) := do
  require (accepted = true) "transfer failed"
  return { s with entered := false }

/-! ## Configuration -/

def setReactor (blk : Block) (s : AuctionState κ) (msgSender reactor_ : Address) :
    Except Revert (AuctionState κ) := do
  onlyRole s .defaultAdmin msgSender
  require (s.reactor = 0) "already set"
  require (reactor_ ≠ 0) "zero reactor"
  return emit { s with reactor := reactor_ } blk (.reactorSet reactor_)

/-- `AccessControl.grantRole` of OpenZeppelin, as documented there: the
caller must have the role's admin role, which is `DEFAULT_ADMIN_ROLE` for
every role unless it is set, and nothing sets it here. -/
def grantRole (s : AuctionState κ) (msgSender : Address) (role : Role) (account : Address) :
    Except Revert (AuctionState κ) := do
  onlyRole s .defaultAdmin msgSender
  return { s with roles := update₂ s.roles role account true }

/-- `AccessControl.revokeRole`, under the same condition. -/
def revokeRole (s : AuctionState κ) (msgSender : Address) (role : Role) (account : Address) :
    Except Revert (AuctionState κ) := do
  onlyRole s .defaultAdmin msgSender
  return { s with roles := update₂ s.roles role account false }

/-- `AccessControl.renounceRole`: an account gives up a role of its own, and
names itself to confirm it. -/
def renounceRole (s : AuctionState κ) (msgSender : Address) (role : Role)
    (callerConfirmation : Address) : Except Revert (AuctionState κ) := do
  requireCustom (callerConfirmation = msgSender) "AccessControlBadConfirmation"
  return { s with roles := update₂ s.roles role callerConfirmation false }

/-- `_apply`: the only place that replaces the live config by a new one. -/
def applyConfig (blk : Block) (s : AuctionState κ) (cfg : StakeConfig) : AuctionState κ :=
  emit { s with previousConfig := s.config, config := cfg, lastChange := blk.timestamp } blk
    .stakeConfigUpdated

def isEmptyConfig (c : StakeConfig) : Bool := c.collateralRate.length = 0

def validateConfig (c : StakeConfig) : Except Revert Unit :=
  DynamicStakeLib.validate c MIN_COLLATERAL_RATE MAX_COLLATERAL_RATE MAX_REFUND_BPS MAX_BUCKETS
    MIN_WORST_CASE_KAPPA_BPS

/-- `lastChange = 0` means that nothing was changed yet. -/
def checkCooldown (blk : Block) (s : AuctionState κ) : Except Revert Unit := do
  if s.lastChange = 0 then
    return ()
  let ready ← checkedAdd s.lastChange CHANGE_COOLDOWN
  requireCustom (ready ≤ blk.timestamp) "Cooldown"

/-- A loosening waits behind the delay. -/
def queueConfig (blk : Block) (s : AuctionState κ) (c : StakeConfig) :
    Except Revert (AuctionState κ) := do
  let effective ← checkedAdd blk.timestamp LOOSEN_DELAY
  return emit { s with pending := c, pendingEffective := effective, lastChange := blk.timestamp }
    blk (.pendingConfigQueued effective)

def guardBounds : DynamicStakeLib.GuardBounds := ⟨MAX_DELTA_BPS, MIN_PENALTY_BPS, MAX_REFUND_BPS⟩

def setStakeConfig (blk : Block) (s : AuctionState κ) (msgSender : Address) (c : StakeConfig) :
    Except Revert (AuctionState κ) := do
  onlyRole s .paramAdmin msgSender
  checkCooldown blk s
  requireCustom (isEmptyConfig s.pending = true) "PendingExists"
  validateConfig c
  let loosening ← DynamicStakeLib.guardCheck blk s.config c guardBounds
  if loosening then queueConfig blk s c else return applyConfig blk s c

def commitPending (blk : Block) (s : AuctionState κ) : Except Revert (AuctionState κ) := do
  requireCustom (isEmptyConfig s.pending = false) "NoPending"
  requireCustom (s.pendingEffective ≤ blk.timestamp) "StillPending"
  return applyConfig blk { s with pending := DynamicStakeLib.emptyConfig } s.pending

def cancelPendingConfig (blk : Block) (s : AuctionState κ) (msgSender : Address) :
    Except Revert (AuctionState κ) := do
  onlyRole s .guardian msgSender
  requireCustom (isEmptyConfig s.pending = false) "NoPending"
  return emit { s with pending := DynamicStakeLib.emptyConfig } blk .pendingConfigCancelled

def rollback (blk : Block) (s : AuctionState κ) (msgSender : Address) :
    Except Revert (AuctionState κ) := do
  onlyRole s .guardian msgSender
  requireCustom (isEmptyConfig s.previousConfig = false) "NoPreviousConfig"
  return emit { s with config := s.previousConfig, pending := DynamicStakeLib.emptyConfig } blk
    .configRollback

/-- ETH that arrives without a call (a self-destructing contract). -/
def forceEth (s : AuctionState κ) (amount : Nat) : Except Revert (AuctionState κ) := do
  let s ← receiveValue s amount
  return { s with forcedEth := s.forcedEth + amount }

end FillAuction

end NeutronX
