import NeutronX.Auction
import NeutronX.Evm.Custody

/-!
# What the auction can do

`AuctionStep` is the transition relation of the auction on its own: any
entry point, any caller, any block, any answer of the oracle and of the
reactor, in any order. The two pieces of `withdraw` are two steps, so
whatever a receiver of ETH calls back in between is an interleaving.

`step_books` says once what a step does to the books: nothing, a new
registration, a settlement by one of three outcomes, a payment, or forced
ETH. Every accounting fact about the auction is a case analysis on it.
-/

namespace NeutronX

open Evm Function

namespace FillAuction

variable {κ : Type}

/-! ## The books after a list of credits -/

/-- The payments of a list of credits. -/
def payments (cs : List (Credit κ)) : List (Address × Nat) :=
  cs.map fun c => (c.account, c.amount)

@[simp] theorem payments_nil : payments ([] : List (Credit κ)) = [] := rfl

@[simp] theorem payments_cons (c : Credit κ) (cs : List (Credit κ)) :
    payments (c :: cs) = (c.account, c.amount) :: payments cs := rfl

@[simp] theorem payments_append (cs ds : List (Credit κ)) :
    payments (cs ++ ds) = payments cs ++ payments ds := by
  simp [payments]

/-- The state after the credits `cs`, newest first. -/
def posted (s : AuctionState κ) (cs : List (Credit κ)) : AuctionState κ :=
  { s with
    pendingReturns := addTo s.pendingReturns (payments cs)
    credits := cs ++ s.credits }

@[simp] theorem posted_nil (s : AuctionState κ) : posted s [] = s := rfl

theorem credit_eq_ok {s s' : AuctionState κ} {c : Credit κ} :
    credit s c = .ok s' ↔
      s.pendingReturns c.account + c.amount < wordSize ∧ posted s [c] = s' := by
  simp only [credit, bind_eq_ok, checkedAdd_eq_ok, pure_eq_ok]
  constructor
  · rintro ⟨_, ⟨hlt, rfl⟩, rfl⟩
    exact ⟨hlt, by simp [posted, update_add_eq_addTo]⟩
  · rintro ⟨hlt, rfl⟩
    exact ⟨_, ⟨hlt, rfl⟩, by simp [posted, update_add_eq_addTo]⟩

theorem receiveValue_eq_ok {s s' : AuctionState κ} {v : Nat} :
    receiveValue s v = .ok s' ↔
      s.balance + v < wordSize ∧ { s with balance := s.balance + v } = s' := by
  simp only [receiveValue, bind_eq_ok, checkedAdd_eq_ok, pure_eq_ok]
  constructor
  · rintro ⟨_, ⟨hlt, rfl⟩, rfl⟩
    exact ⟨hlt, rfl⟩
  · rintro ⟨hlt, rfl⟩
    exact ⟨_, ⟨hlt, rfl⟩, rfl⟩

@[simp] theorem onlyRole_eq_ok {s : AuctionState κ} {role : Role} {a : Address} {u : Unit} :
    onlyRole s role a = .ok u ↔ s.roles role a = true := by
  simp [onlyRole]

/-! ## Settlement outcomes -/

/-- How a registration ends. -/
inductive Outcome where
  | filled (refund forfeited : Nat)
  | slashed (caller : Address)
  | released

namespace Outcome

/-- The terminal flag the outcome sets. -/
def flag : Outcome → Registration → Registration
  | .filled _ _, reg => { reg with filled := true }
  | .slashed _, reg => { reg with slashed := true }
  | .released, reg => { reg with released := true }

/-- The credits the outcome makes out of the stake of `reg`, newest first. -/
def credits (treasury : Address) (orderHash : κ) (filler : Address) (reg : Registration) :
    Outcome → List (Credit κ)
  | .filled refund forfeited =>
      (if 0 < forfeited then [⟨treasury, forfeited, some (orderHash, filler)⟩] else [])
        ++ [⟨filler, refund, some (orderHash, filler)⟩]
  | .slashed caller =>
      [⟨treasury, reg.stakeAmount - reg.stakeAmount / 10, some (orderHash, filler)⟩,
       ⟨caller, reg.stakeAmount / 10, some (orderHash, filler)⟩]
  | .released => [⟨reg.filler, reg.stakeAmount, some (orderHash, filler)⟩]

/-- A settled fill splits the stake into refund and forfeit. -/
def Splits (stake : Nat) : Outcome → Prop
  | .filled refund forfeited => refund + forfeited = stake
  | .slashed _ => True
  | .released => True

theorem amounts_credits {reg : Registration} {o : Outcome} (h : o.Splits reg.stakeAmount)
    (treasury : Address) (orderHash : κ) (filler : Address) :
    amounts (payments (o.credits treasury orderHash filler reg)) = reg.stakeAmount := by
  cases o with
  | filled refund forfeited =>
      simp only [Splits] at h
      simp only [credits]
      split
      · simp
        omega
      · simp
        omega
  | slashed caller =>
      simp only [credits, payments_cons, payments_nil, amounts_cons, amounts_nil]
      omega
  | released => simp [credits]

theorem mem_credits {c : Credit κ} {o : Outcome} {treasury filler : Address} {orderHash : κ}
    {reg : Registration} (h : c ∈ o.credits treasury orderHash filler reg) :
    c.source = some (orderHash, filler) := by
  cases o with
  | filled refund forfeited =>
      simp only [credits, List.mem_append, List.mem_singleton] at h
      rcases h with h | rfl
      · split at h
        · obtain rfl := List.mem_singleton.mp h
          rfl
        · exact absurd h List.not_mem_nil
      · rfl
  | slashed caller =>
      simp only [credits, List.mem_cons, List.not_mem_nil, or_false] at h
      rcases h with rfl | rfl <;> rfl
  | released =>
      obtain rfl := List.mem_singleton.mp h
      rfl

end Outcome

/-- The credit for value sent beyond the stake. -/
def excessCredits (filler : Address) (excess : Nat) : List (Credit κ) :=
  if 0 < excess then [⟨filler, excess, none⟩] else []

theorem amounts_excessCredits (filler : Address) (excess : Nat) :
    amounts (payments (excessCredits (κ := κ) filler excess)) = excess := by
  unfold excessCredits
  split
  · simp
  · simp
    omega

/-! ## One spec lemma for each entry point: payments, roles, configuration -/

theorem setReactor_spec {blk : Block} {s s' : AuctionState κ} {msgSender reactor_ : Address}
    (h : setReactor blk s msgSender reactor_ = .ok s') :
    s.reactor = 0 ∧ s' = emit { s with reactor := reactor_ } blk (.reactorSet reactor_) := by
  simp only [setReactor, bind_eq_ok, require_eq_ok, pure_eq_ok] at h
  obtain ⟨_, -, _, hunset, _, -, rfl⟩ := h
  exact ⟨hunset, rfl⟩

theorem withdrawSend_spec {p : AuctionParams} {s s' : AuctionState κ} {msgSender to_ : Address}
    (h : withdrawSend p s msgSender to_ = .ok s') :
    s.entered = false ∧ s.pendingReturns msgSender ≤ s.balance ∧
    s' = { s with
      entered := true
      pendingReturns := update s.pendingReturns msgSender 0
      balance := s.balance - s.pendingReturns msgSender
      withdrawn := update s.withdrawn msgSender
        (s.withdrawn msgSender + s.pendingReturns msgSender) } := by
  simp only [withdrawSend, bind_eq_ok, nonReentrant_eq_ok, require_eq_ok, pure_eq_ok] at h
  obtain ⟨_, hentered, _, -, _, -, _, ⟨hle, -⟩, rfl⟩ := h
  exact ⟨hentered, hle, rfl⟩

theorem withdrawReturn_spec {s s' : AuctionState κ} {accepted : Bool}
    (h : withdrawReturn s accepted = .ok s') : s' = { s with entered := false } := by
  simp only [withdrawReturn, bind_eq_ok, pure_eq_ok] at h
  obtain ⟨_, -, rfl⟩ := h
  rfl

theorem grantRole_spec {s s' : AuctionState κ} {msgSender : Address} {role : Role}
    {account : Address} (h : grantRole s msgSender role account = .ok s') :
    s' = { s with roles := update₂ s.roles role account true } := by
  simp only [grantRole, bind_eq_ok, pure_eq_ok] at h
  obtain ⟨_, -, rfl⟩ := h
  rfl

theorem revokeRole_spec {s s' : AuctionState κ} {msgSender : Address} {role : Role}
    {account : Address} (h : revokeRole s msgSender role account = .ok s') :
    s' = { s with roles := update₂ s.roles role account false } := by
  simp only [revokeRole, bind_eq_ok, pure_eq_ok] at h
  obtain ⟨_, -, rfl⟩ := h
  rfl

theorem renounceRole_spec {s s' : AuctionState κ} {msgSender : Address} {role : Role}
    {callerConfirmation : Address} (h : renounceRole s msgSender role callerConfirmation = .ok s') :
    s' = { s with roles := update₂ s.roles role callerConfirmation false } := by
  simp only [renounceRole, bind_eq_ok, pure_eq_ok] at h
  obtain ⟨_, -, rfl⟩ := h
  rfl

theorem queueConfig_spec {blk : Block} {s s' : AuctionState κ} {c : StakeConfig}
    (h : queueConfig blk s c = .ok s') :
    ∃ effective, s' = emit
      { s with pending := c, pendingEffective := effective, lastChange := blk.timestamp }
      blk (.pendingConfigQueued effective) := by
  simp only [queueConfig, bind_eq_ok, pure_eq_ok] at h
  obtain ⟨effective, -, rfl⟩ := h
  exact ⟨effective, rfl⟩

/-- A configuration that is set was validated; it waits, or is live at once. -/
theorem setStakeConfig_spec {blk : Block} {s s' : AuctionState κ} {msgSender : Address}
    {c : StakeConfig} (h : setStakeConfig blk s msgSender c = .ok s') :
    validateConfig c = .ok () ∧
      (queueConfig blk s c = .ok s' ∨ s' = applyConfig blk s c) := by
  simp only [setStakeConfig, bind_eq_ok] at h
  obtain ⟨_, -, _, -, _, -, _, hvalid, loosening, -, h⟩ := h
  refine ⟨hvalid, ?_⟩
  split at h
  · exact Or.inl h
  · exact Or.inr (pure_eq_ok.mp h).symm

theorem commitPending_spec {blk : Block} {s s' : AuctionState κ}
    (h : commitPending blk s = .ok s') :
    s' = applyConfig blk { s with pending := DynamicStakeLib.emptyConfig } s.pending := by
  simp only [commitPending, bind_eq_ok, pure_eq_ok] at h
  obtain ⟨_, -, _, -, rfl⟩ := h
  rfl

theorem cancelPendingConfig_spec {blk : Block} {s s' : AuctionState κ} {msgSender : Address}
    (h : cancelPendingConfig blk s msgSender = .ok s') :
    s' = emit { s with pending := DynamicStakeLib.emptyConfig } blk .pendingConfigCancelled := by
  simp only [cancelPendingConfig, bind_eq_ok, pure_eq_ok] at h
  obtain ⟨_, -, _, -, rfl⟩ := h
  rfl

theorem rollback_spec {blk : Block} {s s' : AuctionState κ} {msgSender : Address}
    (h : rollback blk s msgSender = .ok s') :
    s' = emit { s with config := s.previousConfig, pending := DynamicStakeLib.emptyConfig } blk
      .configRollback := by
  simp only [rollback, bind_eq_ok, pure_eq_ok] at h
  obtain ⟨_, -, _, -, rfl⟩ := h
  rfl

theorem forceEth_spec {s s' : AuctionState κ} {amount : Nat} (h : forceEth s amount = .ok s') :
    s.balance + amount < wordSize ∧
    s' = { s with balance := s.balance + amount, forcedEth := s.forcedEth + amount } := by
  simp only [forceEth, bind_eq_ok, receiveValue_eq_ok, pure_eq_ok] at h
  obtain ⟨_, ⟨hfits, rfl⟩, rfl⟩ := h
  exact ⟨hfits, rfl⟩

/-! ## One spec lemma for each entry point: registrations -/

variable [DecidableEq κ]

/-- The guards a successful `register` passed. -/
structure RegisterOk (blk : Block) (s : AuctionState κ) (msgSender : Address) (msgValue : Nat)
    (a : RegisterArgs κ) (snap : DynamicStakeLib.Snapshot) : Prop where
  sender : msgSender = s.reactor
  notEntered : s.entered = false
  early : blk.number < a.deadline
  fill_pos : 0 < a.fillAmount
  fill_le : a.fillAmount ≤ a.orderTotal
  free : (s.registrations a.orderHash a.filler).filler = 0
  total_fits : a.orderTotal < 2 ^ 128
  paid : snap.required ≤ msgValue
  stake_fits : snap.required < 2 ^ 128
  shape : snap.refundRow.length = snap.ratioSnapshot.length + 1
  row : ∀ v ∈ snap.refundRow, v ∈ s.config.refundTable
  balance_fits : s.balance + msgValue < wordSize

/-- The state a successful `register` leaves. -/
def afterRegister (blk : Block) (s : AuctionState κ) (msgValue : Nat) (a : RegisterArgs κ)
    (snap : DynamicStakeLib.Snapshot) : AuctionState κ :=
  emit
    (posted
      (setRegistration { s with balance := s.balance + msgValue } a.orderHash a.filler
        (newRegistration blk a snap))
      (excessCredits a.filler (msgValue - snap.required)))
    blk (.registered a.filler a.orderHash a.fillAmount snap.required)

theorem register_spec {oracle : Option Quote} {blk : Block} {s s' : AuctionState κ}
    {msgSender : Address} {msgValue : Nat} {a : RegisterArgs κ}
    (h : register oracle blk s msgSender msgValue a = .ok s') :
    ∃ snap, RegisterOk blk s msgSender msgValue a snap ∧
      s' = afterRegister blk s msgValue a snap := by
  simp only [register, bind_eq_ok, receiveValue_eq_ok, require_eq_ok, nonReentrant_eq_ok] at h
  obtain ⟨_, ⟨hbal, rfl⟩, _, hsender, _, hentered, _, hearly, _, hpos, _, hle, _, hfree, _, -,
    _, htotal, _, -, snap, hsnap, _, hpaid, _, hstake, h⟩ := h
  refine ⟨snap, ⟨hsender, hentered, hearly, hpos, hle, hfree, le_maxUint.mp htotal, hpaid,
    le_maxUint.mp hstake, DynamicStakeLib.computeRegistration_shape hsnap,
    DynamicStakeLib.computeRegistration_row hsnap, hbal⟩, ?_⟩
  simp only [afterRegister, excessCredits]
  split at h
  · rename_i hexcess
    simp only [bind_eq_ok, credit_eq_ok, pure_eq_ok] at h
    obtain ⟨_, ⟨-, rfl⟩, rfl⟩ := h
    rw [if_pos hexcess]
  · rename_i hexcess
    simp only [bind_eq_ok, pure_eq_ok] at h
    obtain ⟨_, rfl, rfl⟩ := h
    rw [if_neg hexcess, posted_nil]

/-- The guards of `slash`. -/
structure Slashable (view : ReactorView κ) (blk : Block) (s : AuctionState κ) (orderHash : κ)
    (filler : Address) : Prop where
  notEntered : s.entered = false
  registered : (s.registrations orderHash filler).filler ≠ 0
  unresolved : (s.registrations orderHash filler).resolved = false
  late : (s.registrations orderHash filler).deadline + SLASH_WINDOW < blk.number
  live : view.isCancelled orderHash = false
  nonceLive : view.isNonceInvalidatedForOrder orderHash = false
  unfilled : 0 < view.remainingInput orderHash (s.registrations orderHash filler).orderTotal

/-- The guards of `releaseRegistration`. -/
structure Releasable (view : ReactorView κ) (s : AuctionState κ) (orderHash : κ)
    (filler : Address) : Prop where
  notEntered : s.entered = false
  registered : (s.registrations orderHash filler).filler ≠ 0
  unresolved : (s.registrations orderHash filler).resolved = false
  terminal : view.remainingInput orderHash (s.registrations orderHash filler).orderTotal = 0 ∨
    view.isCancelled orderHash = true ∨ view.isNonceInvalidatedForOrder orderHash = true

/-- The state after `o` settled a registration, but for the events. -/
def settled (p : AuctionParams) (s : AuctionState κ) (orderHash : κ) (filler : Address)
    (o : Outcome) : AuctionState κ :=
  posted (setRegistration s orderHash filler (o.flag (s.registrations orderHash filler)))
    (o.credits p.treasury orderHash filler (s.registrations orderHash filler))

theorem slash_eq_ok {p : AuctionParams} {view : ReactorView κ} {blk : Block}
    {s s' : AuctionState κ} {msgSender : Address} {orderHash : κ} {filler : Address} :
    slash p view blk s msgSender orderHash filler = .ok s' ↔
      Slashable view blk s orderHash filler ∧
      s.pendingReturns msgSender + (s.registrations orderHash filler).stakeAmount / 10
        < wordSize ∧
      addTo s.pendingReturns
          [(msgSender, (s.registrations orderHash filler).stakeAmount / 10)] p.treasury
        + ((s.registrations orderHash filler).stakeAmount
          - (s.registrations orderHash filler).stakeAmount / 10) < wordSize ∧
      emit (settled p s orderHash filler (.slashed msgSender)) blk
        (.slashed filler orderHash (s.registrations orderHash filler).stakeAmount msgSender
          ((s.registrations orderHash filler).stakeAmount / 10)) = s' := by
  simp only [slash, bind_eq_ok, require_eq_ok, nonReentrant_eq_ok, pure_eq_ok, credit_eq_ok]
  constructor
  · rintro ⟨_, h1, _, h2, _, h3, _, h4, _, h5, _, h6, _, h7, _, ⟨hb1, rfl⟩, _, ⟨hb2, rfl⟩, rfl⟩
    exact ⟨⟨h1, h2, h3, h4, h5, h6, h7⟩, hb1, hb2, by
      simp [settled, posted, addTo_addTo, Outcome.credits, Outcome.flag, setRegistration]⟩
  · rintro ⟨⟨h1, h2, h3, h4, h5, h6, h7⟩, hb1, hb2, rfl⟩
    exact ⟨(), h1, (), h2, (), h3, (), h4, (), h5, (), h6, (), h7, _, ⟨hb1, rfl⟩, _,
      ⟨hb2, rfl⟩, by
      simp [settled, posted, addTo_addTo, Outcome.credits, Outcome.flag, setRegistration]⟩

theorem releaseRegistration_eq_ok {p : AuctionParams} {view : ReactorView κ} {blk : Block}
    {s s' : AuctionState κ} {orderHash : κ} {filler : Address} :
    releaseRegistration view blk s orderHash filler = .ok s' ↔
      Releasable view s orderHash filler ∧
      s.pendingReturns (s.registrations orderHash filler).filler
        + (s.registrations orderHash filler).stakeAmount < wordSize ∧
      emit (settled p s orderHash filler .released) blk
        (.stakeReleased (s.registrations orderHash filler).filler orderHash
          (s.registrations orderHash filler).stakeAmount) = s' := by
  simp only [releaseRegistration, bind_eq_ok, require_eq_ok, nonReentrant_eq_ok, pure_eq_ok,
    credit_eq_ok]
  constructor
  · rintro ⟨_, h1, _, h2, _, h3, _, h4, _, ⟨hb, rfl⟩, rfl⟩
    exact ⟨⟨h1, h2, h3, h4⟩, hb, rfl⟩
  · rintro ⟨⟨h1, h2, h3, h4⟩, hb, rfl⟩
    exact ⟨(), h1, (), h2, (), h3, (), h4, _, ⟨hb, rfl⟩, rfl⟩

/-- A successful settlement of a fill: the refund is the one computed from
the registration's own snapshot, the rest of the stake is forfeited. -/
theorem onFillSuccess_spec {p : AuctionParams} {blk : Block} {s s' : AuctionState κ}
    {msgSender : Address} {orderHash : κ} {filler : Address} {actual remainingAtFill : Nat}
    (h : onFillSuccess p blk s msgSender orderHash filler actual remainingAtFill = .ok s') :
    msgSender = s.reactor ∧ (s.registrations orderHash filler).resolved = false ∧
    ∃ refund forfeited evs,
      settlementRefund (s.registrations orderHash filler) actual remainingAtFill = .ok refund ∧
      refund + forfeited = (s.registrations orderHash filler).stakeAmount ∧
      s' = { settled p s orderHash filler (.filled refund forfeited) with events := evs } := by
  simp only [onFillSuccess, bind_eq_ok, require_eq_ok, checkedSub_eq_ok, credit_eq_ok] at h
  obtain ⟨_, hsender, _, hopen, refund, hrefund, _, ⟨hle, rfl⟩, _, ⟨-, rfl⟩, h⟩ := h
  refine ⟨hsender, hopen, refund, (s.registrations orderHash filler).stakeAmount - refund, ?_⟩
  split at h
  · rename_i hpos
    simp only [bind_eq_ok, credit_eq_ok, pure_eq_ok] at h
    obtain ⟨_, ⟨-, rfl⟩, rfl⟩ := h
    exact ⟨_, hrefund, by omega, by
      simp [settled, posted, emit, addTo_addTo, Outcome.credits, Outcome.flag, setRegistration,
        hpos]; rfl⟩
  · rename_i hpos
    obtain rfl := pure_eq_ok.mp h
    exact ⟨_, hrefund, by omega, by
      simp [settled, posted, emit, Outcome.credits, Outcome.flag, setRegistration, hpos]; rfl⟩

/-! ## The transition relation -/

/-- One step of the auction: an entry point called by anyone at any block,
whatever the oracle quotes and whatever the reactor says about orders. The
reactor registers its own `msg.sender`, never the zero address. -/
inductive AuctionStep (p : AuctionParams) : AuctionState κ → AuctionState κ → Prop
  | setReactor {s s'} (blk : Block) (msgSender reactor_ : Address)
      (h : setReactor blk s msgSender reactor_ = .ok s') : AuctionStep p s s'
  | register {s s'} (oracle : Option Quote) (blk : Block) (msgSender : Address) (msgValue : Nat)
      (a : RegisterArgs κ) (hfiller : a.filler ≠ 0)
      (h : register oracle blk s msgSender msgValue a = .ok s') : AuctionStep p s s'
  | onFillSuccess {s s'} (blk : Block) (msgSender : Address) (orderHash : κ) (filler : Address)
      (actual remainingAtFill : Nat)
      (h : onFillSuccess p blk s msgSender orderHash filler actual remainingAtFill = .ok s') :
      AuctionStep p s s'
  | slash {s s'} (view : ReactorView κ) (blk : Block) (msgSender : Address) (orderHash : κ)
      (filler : Address) (h : slash p view blk s msgSender orderHash filler = .ok s') :
      AuctionStep p s s'
  | releaseRegistration {s s'} (view : ReactorView κ) (blk : Block) (orderHash : κ)
      (filler : Address) (h : releaseRegistration view blk s orderHash filler = .ok s') :
      AuctionStep p s s'
  | withdrawSend {s s'} (msgSender to_ : Address)
      (h : withdrawSend p s msgSender to_ = .ok s') : AuctionStep p s s'
  | withdrawReturn {s s'} (accepted : Bool) (h : withdrawReturn s accepted = .ok s') :
      AuctionStep p s s'
  | grantRole {s s'} (msgSender : Address) (role : Role) (account : Address)
      (h : grantRole s msgSender role account = .ok s') : AuctionStep p s s'
  | revokeRole {s s'} (msgSender : Address) (role : Role) (account : Address)
      (h : revokeRole s msgSender role account = .ok s') : AuctionStep p s s'
  | renounceRole {s s'} (msgSender : Address) (role : Role) (callerConfirmation : Address)
      (h : renounceRole s msgSender role callerConfirmation = .ok s') : AuctionStep p s s'
  | setStakeConfig {s s'} (blk : Block) (msgSender : Address) (c : StakeConfig)
      (h : setStakeConfig blk s msgSender c = .ok s') : AuctionStep p s s'
  | commitPending {s s'} (blk : Block) (h : commitPending blk s = .ok s') : AuctionStep p s s'
  | cancelPendingConfig {s s'} (blk : Block) (msgSender : Address)
      (h : cancelPendingConfig blk s msgSender = .ok s') : AuctionStep p s s'
  | rollback {s s'} (blk : Block) (msgSender : Address)
      (h : rollback blk s msgSender = .ok s') : AuctionStep p s s'
  | forceEth {s s'} (amount : Nat) (h : forceEth s amount = .ok s') : AuctionStep p s s'

/-- Any number of steps. -/
abbrev AuctionRun (p : AuctionParams) : AuctionState κ → AuctionState κ → Prop :=
  Relation.ReflTransGen (AuctionStep p)

/-! ## The books -/

/-- The accounting part of the state. -/
structure Books (κ : Type) where
  registrations : κ → Address → Registration
  pendingReturns : Address → Nat
  balance : Nat
  credits : List (Credit κ)
  withdrawn : Address → Nat
  forcedEth : Nat

def books (s : AuctionState κ) : Books κ :=
  ⟨s.registrations, s.pendingReturns, s.balance, s.credits, s.withdrawn, s.forcedEth⟩

/-- A registration as `register` writes it. -/
structure Fresh (filler : Address) (reg : Registration) : Prop where
  filler_eq : reg.filler = filler
  filler_ne : filler ≠ 0
  filled : reg.filled = false
  slashed : reg.slashed = false
  released : reg.released = false
  shape : reg.refundRow.length = reg.ratioSnapshot.length + 1

/-- What a step can do to the books. -/
inductive BooksStep (treasury : Address) : Books κ → Books κ → Prop
  | register (b : Books κ) (orderHash : κ) (filler : Address) (reg : Registration) (msgValue : Nat)
      (hfree : (b.registrations orderHash filler).filler = 0) (hfresh : Fresh filler reg)
      (hpaid : reg.stakeAmount ≤ msgValue) (hfits : b.balance + msgValue < wordSize) :
      BooksStep treasury b
        { b with
          registrations := update₂ b.registrations orderHash filler reg
          pendingReturns := addTo b.pendingReturns
            (payments (excessCredits (κ := κ) filler (msgValue - reg.stakeAmount)))
          balance := b.balance + msgValue
          credits := excessCredits filler (msgValue - reg.stakeAmount) ++ b.credits }
  | settle (b : Books κ) (orderHash : κ) (filler : Address) (o : Outcome)
      (hused : b.registrations orderHash filler ≠ .empty)
      (hopen : (b.registrations orderHash filler).resolved = false)
      (hsplit : o.Splits (b.registrations orderHash filler).stakeAmount) :
      BooksStep treasury b
        { b with
          registrations := update₂ b.registrations orderHash filler
            (o.flag (b.registrations orderHash filler))
          pendingReturns := addTo b.pendingReturns
            (payments (o.credits treasury orderHash filler (b.registrations orderHash filler)))
          credits :=
            o.credits treasury orderHash filler (b.registrations orderHash filler) ++ b.credits }
  | pay (b : Books κ) (account : Address) (hle : b.pendingReturns account ≤ b.balance) :
      BooksStep treasury b
        { b with
          pendingReturns := update b.pendingReturns account 0
          balance := b.balance - b.pendingReturns account
          withdrawn := update b.withdrawn account
            (b.withdrawn account + b.pendingReturns account) }
  | force (b : Books κ) (amount : Nat) (hfits : b.balance + amount < wordSize) :
      BooksStep treasury b
        { b with balance := b.balance + amount, forcedEth := b.forcedEth + amount }

/-- A settled fill needs a refund row to read from, which an unwritten slot
does not have. -/
theorem settlementRefund_used {reg : Registration} {actual remainingAtFill refund : Nat}
    (h : settlementRefund reg actual remainingAtFill = .ok refund) : reg ≠ .empty := by
  rintro rfl
  simp only [settlementRefund, DynamicStakeLib.computeRefund, bind_eq_ok] at h
  obtain ⟨b, -, v, hv, -⟩ := h
  rw [getAt_eq_ok] at hv
  simp [Registration.empty] at hv

theorem used_of_filler {reg : Registration} (h : reg.filler ≠ 0) : reg ≠ .empty := by
  rintro rfl
  exact h rfl

/-- **The books of one step.** -/
theorem step_books {p : AuctionParams} {s s' : AuctionState κ} (h : AuctionStep p s s') :
    books s' = books s ∨ BooksStep p.treasury (books s) (books s') := by
  cases h with
  | setReactor blk msgSender reactor_ h =>
      obtain ⟨-, rfl⟩ := setReactor_spec h
      exact Or.inl rfl
  | register oracle blk msgSender msgValue a hfiller h =>
      obtain ⟨snap, hok, rfl⟩ := register_spec h
      have hstake : (newRegistration blk a snap).stakeAmount = snap.required :=
        toUint_of_lt hok.stake_fits
      have hstep : BooksStep p.treasury _ _ := .register (books s) a.orderHash a.filler
        (newRegistration blk a snap) msgValue hok.free
        ⟨rfl, hfiller, rfl, rfl, rfl, hok.shape⟩ (by rw [hstake]; exact hok.paid)
        hok.balance_fits
      rw [hstake] at hstep
      exact Or.inr hstep
  | onFillSuccess blk msgSender orderHash filler actual remainingAtFill h =>
      obtain ⟨-, hopen, refund, forfeited, evs, hrefund, hsplit, rfl⟩ := onFillSuccess_spec h
      exact Or.inr (BooksStep.settle (books s) orderHash filler (.filled refund forfeited)
        (settlementRefund_used hrefund) hopen hsplit)
  | slash view blk msgSender orderHash filler h =>
      obtain ⟨hok, -, -, rfl⟩ := slash_eq_ok.mp h
      exact Or.inr (BooksStep.settle (books s) orderHash filler (.slashed msgSender)
        (used_of_filler hok.registered) hok.unresolved trivial)
  | releaseRegistration view blk orderHash filler h =>
      obtain ⟨hok, -, rfl⟩ := (releaseRegistration_eq_ok (p := p)).mp h
      exact Or.inr (BooksStep.settle (books s) orderHash filler .released
        (used_of_filler hok.registered) hok.unresolved trivial)
  | withdrawSend msgSender to_ h =>
      obtain ⟨-, hle, rfl⟩ := withdrawSend_spec h
      exact Or.inr (BooksStep.pay (books s) msgSender hle)
  | withdrawReturn accepted h =>
      obtain rfl := withdrawReturn_spec h
      exact Or.inl rfl
  | grantRole msgSender role account h =>
      obtain rfl := grantRole_spec h
      exact Or.inl rfl
  | revokeRole msgSender role account h =>
      obtain rfl := revokeRole_spec h
      exact Or.inl rfl
  | renounceRole msgSender role callerConfirmation h =>
      obtain rfl := renounceRole_spec h
      exact Or.inl rfl
  | setStakeConfig blk msgSender c h =>
      obtain ⟨-, hqueued | rfl⟩ := setStakeConfig_spec h
      · obtain ⟨effective, rfl⟩ := queueConfig_spec hqueued
        exact Or.inl rfl
      · exact Or.inl rfl
  | commitPending blk h =>
      obtain rfl := commitPending_spec h
      exact Or.inl rfl
  | cancelPendingConfig blk msgSender h =>
      obtain rfl := cancelPendingConfig_spec h
      exact Or.inl rfl
  | rollback blk msgSender h =>
      obtain rfl := rollback_spec h
      exact Or.inl rfl
  | forceEth amount h =>
      obtain ⟨hfits, rfl⟩ := forceEth_spec h
      exact Or.inr (BooksStep.force (books s) amount hfits)

end FillAuction

end NeutronX
