import NeutronX.SystemEffects

/-!
# The reentrancy guards

Each contract has a guard of its own, and a body takes at most one. A call
that returns leaves all three as it found them, whatever was called in
between, so they are open between transactions.
-/

namespace NeutronX

open Evm Function

namespace System

variable {κ W : Type} [DecidableEq κ] {d : Deployment κ W}

structure SameGuards (s s' : World κ W) : Prop where
  auction : s'.auction.entered = s.auction.entered
  reactor : s'.reactor.entered = s.reactor.entered
  fallback : s'.fallback.entered = s.fallback.entered

omit [DecidableEq κ] in
theorem SameGuards.refl (s : World κ W) : SameGuards s s := ⟨rfl, rfl, rfl⟩

omit [DecidableEq κ] in
theorem SameGuards.trans {s s' s'' : World κ W} (h : SameGuards s s') (h' : SameGuards s' s'') :
    SameGuards s s'' :=
  ⟨h'.auction.trans h.auction, h'.reactor.trans h.reactor, h'.fallback.trans h.fallback⟩

/-- A chunk takes the reactor's guard and gives it back. -/
theorem executePartialChunk_guards (s : World κ W) (msgSender : Account) (order : SignedOrder)
    (fillAmount : Nat) (data : Bytes) :
    (executePartialChunk d s msgSender order fillAmount data).Sat SameGuards s := by
  refine Prog.sat_attempt fun ⟨s₁, c⟩ hopen => ?_
  have h₁ := chunkOpen_spec hopen
  refine Prog.sat_yieldIf SameGuards.refl fun s₂ h₂ => ?_
  refine Prog.sat_yieldIf SameGuards.refl fun s₃ h₃ => ?_
  refine Prog.sat_attempt fun ⟨s₄, balBefore⟩ hpay => ?_
  obtain ⟨-, -, hs₄⟩ := chunkPay_spec hpay
  have h₄ : SameGuards s₃ s₄ := by
    rw [hs₄]
    exact ⟨rfl, rfl, rfl⟩
  refine Prog.sat_yieldIf SameGuards.refl fun s₅ h₅ => ?_
  refine Prog.sat_attempt fun s₆ hclose => ?_
  obtain ⟨received, h₆⟩ := chunkClose_spec hclose
  obtain ⟨-, -, refund, forfeited, evs, -, -, hauction⟩ :=
    FillAuction.onFillSuccess_spec h₆.settled
  have hmid : SameGuards s₁ s₅ := ((h₂.trans h₃).trans h₄).trans h₅
  refine ⟨?_, ?_, ?_⟩
  · rw [hauction]
    exact hmid.auction.trans (congrArg AuctionState.entered h₁.auction)
  · rw [h₆.reactor, h₁.guards.notEntered]
  · rw [h₆.fallback, hmid.fallback, h₁.fallback]

/-- The fallback takes its own guard and gives it back. -/
theorem executeFallback_guards (s : World κ W) (order : SignedOrder) (router : Address)
    (routeOk : Bool) (minAmountOut : Nat) :
    (executeFallback d s order router routeOk minAmountOut).Sat SameGuards s := by
  refine Prog.sat_attempt fun ⟨s₁, o, inBalBefore⟩ hopen => ?_
  have h₁ := fallbackOpen_spec hopen
  refine Prog.sat_yieldIf SameGuards.refl fun s₂ h₂ => ?_
  refine Prog.sat_attempt fun ⟨s₃, balBefore⟩ happrove => ?_
  obtain ⟨-, -, hs₃⟩ := fallbackApprove_spec happrove
  have h₃ : SameGuards s₂ s₃ := by
    rw [hs₃]
    exact ⟨rfl, rfl, rfl⟩
  intro s₄ h₄
  refine Prog.sat_attempt fun ⟨s₅, amountOut, leftover⟩ hsettle => ?_
  have hs₅ := fallbackSettle_spec hsettle
  have h₅ : SameGuards s₄ s₅ := by
    refine ⟨?_, ?_, ?_⟩
    · rw [hs₅.auction]
    · rw [hs₅.reactor]
    · rw [hs₅.fallback]
  refine Prog.sat_yieldIf SameGuards.refl fun s₆ h₆ => ?_
  have hmid : SameGuards s₁ s₆ := (((h₂.trans h₃).trans h₄).trans h₅).trans h₆
  refine ⟨?_, ?_, ?_⟩
  · exact hmid.auction.trans (congrArg AuctionState.entered h₁.auction)
  · refine hmid.reactor.trans ?_
    rw [h₁.reactor]
  · exact h₁.guards.notEntered.symm

theorem body_guards (l : Label κ W) (s : World κ W) : (body d l s).Sat SameGuards s := by
  cases l with
  | register msgSender msgValue order fillAmount =>
      refine Prog.sat_attempt fun s' h => ?_
      obtain ⟨auction, hauction, -, -, rfl⟩ := register_spec h
      obtain ⟨snap, -, rfl⟩ := FillAuction.register_spec hauction
      exact ⟨rfl, rfl, rfl⟩
  | executePartialChunk msgSender order fillAmount =>
      exact executePartialChunk_guards s msgSender order fillAmount []
  | executePartialChunkWithCallback msgSender order fillAmount callbackData =>
      exact Prog.sat_attempt fun _ _ =>
        executePartialChunk_guards s msgSender order fillAmount callbackData
  | executeFallback order router routeOk minAmountOut =>
      exact executeFallback_guards s order router routeOk minAmountOut
  | cancelOrder msgSender info =>
      refine Prog.sat_attempt fun s' h => ?_
      rw [cancelOrder_spec h]
      exact ⟨rfl, rfl, rfl⟩
  | invalidateNonce msgSender nonce => exact ⟨rfl, rfl, rfl⟩
  | slash msgSender orderHash filler =>
      refine Prog.sat_attempt fun s' h => ?_
      obtain ⟨auction, hauction, rfl⟩ := onAuction_spec h
      obtain ⟨-, -, -, rfl⟩ := FillAuction.slash_eq_ok.mp hauction
      exact ⟨rfl, rfl, rfl⟩
  | releaseRegistration orderHash filler =>
      refine Prog.sat_attempt fun s' h => ?_
      obtain ⟨auction, hauction, rfl⟩ := onAuction_spec h
      obtain ⟨-, -, rfl⟩ :=
        (FillAuction.releaseRegistration_eq_ok (p := auctionParams d)).mp hauction
      exact ⟨rfl, rfl, rfl⟩
  | withdraw msgSender to_ accepted =>
      refine Prog.sat_attempt fun s₁ hsend => ?_
      obtain ⟨auction, hauction, rfl⟩ := onAuction_spec hsend
      obtain ⟨hentered, -, rfl⟩ := FillAuction.withdrawSend_spec hauction
      intro s₂ h₂
      refine Prog.sat_attempt fun s₃ hreturn => ?_
      obtain ⟨auction', hauction', rfl⟩ := onAuction_spec hreturn
      obtain rfl := FillAuction.withdrawReturn_spec hauction'
      exact ⟨hentered.symm, h₂.reactor, h₂.fallback⟩
  | auctionOp op =>
      refine Prog.sat_attempt fun s' h => ?_
      obtain ⟨auction, hauction, rfl⟩ := onAuction_spec h
      exact ⟨(AuctionOp.frame hauction).2, rfl, rfl⟩
  | setRouterAllowed msgSender router approveTarget allowed =>
      refine Prog.sat_attempt fun s' h => ?_
      obtain ⟨fallback, hentered, -, rfl⟩ := setRouterAllowed_spec h
      exact ⟨rfl, rfl, hentered⟩
  | tokens f => exact ⟨rfl, rfl, rfl⟩

/-- Between transactions no guard is taken. -/
theorem reachable_guards {s : World κ W} (h : Reachable d s) :
    s.auction.entered = false ∧ s.reactor.entered = false ∧ s.fallback.entered = false := by
  obtain ⟨tokens, block, txs, rfl⟩ := h
  have hsame : SameGuards (deployed d tokens block) (run d txs (deployed d tokens block)) :=
    runTxs_sat (P := fun _ => True) SameGuards.refl SameGuards.trans
      (fun l _ s => body_guards l s) (fun t s => (⟨rfl, rfl, rfl⟩ : SameGuards s (elapse t s))) _
      fun tx _ => tx.all_true
  exact ⟨hsame.auction, hsame.reactor, hsame.fallback⟩

end System

end NeutronX
