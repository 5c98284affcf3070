import NeutronX.AuctionSettlement

/-!
# What no configuration breaks

Every configuration that is ever live was validated, so it refunds at most
the whole stake, and a registration copies its row from a live one. With
the solvency of the auction this makes the settlement of an open
registration succeed, whatever was configured before or after it was made.

The reactor is set once.
-/

namespace NeutronX

open Evm Function

namespace FillAuction

variable {κ : Type}

/-! ## Refunds are shares of the stake -/

/-- Refunds in bps that exceed the stake nowhere. -/
def Shares (refunds : List Nat) : Prop := ∀ v ∈ refunds, v ≤ MAX_REFUND_BPS

structure ConfigLaw (s : AuctionState κ) : Prop where
  config : Shares s.config.refundTable
  previousConfig : Shares s.previousConfig.refundTable
  pending : Shares s.pending.refundTable
  rows : ∀ k f, Shares (s.registrations k f).refundRow

/-- What a step does to the configuration, its copies in registrations, and
the address of the reactor. -/
structure ConfigKept (s s' : AuctionState κ) : Prop where
  law : ConfigLaw s → ConfigLaw s'
  reactor : s.reactor ≠ 0 → s'.reactor = s.reactor

theorem ConfigKept.refl (s : AuctionState κ) : ConfigKept s s := ⟨fun h => h, fun _ => rfl⟩

theorem ConfigKept.trans {s s' s'' : AuctionState κ} (h : ConfigKept s s')
    (h' : ConfigKept s' s'') : ConfigKept s s'' where
  law := fun hs => h'.law (h.law hs)
  reactor := fun hne => by
    have heq := h.reactor hne
    exact (h'.reactor (by rwa [heq])).trans heq

theorem shares_nil : Shares [] := fun _ hv => absurd hv List.not_mem_nil

/-- A step on registrations that keeps their rows. -/
theorem ConfigKept.ofSame {s s' : AuctionState κ} (hreactor : s'.reactor = s.reactor)
    (hconfig : s'.config = s.config) (hprevious : s'.previousConfig = s.previousConfig)
    (hpending : s'.pending = s.pending)
    (hrows : ∀ k f, (s'.registrations k f).refundRow = (s.registrations k f).refundRow) :
    ConfigKept s s' where
  law := fun h => ⟨by rw [hconfig]; exact h.config, by rw [hprevious]; exact h.previousConfig,
    by rw [hpending]; exact h.pending, fun k f => by rw [hrows]; exact h.rows k f⟩
  reactor := fun _ => hreactor

theorem setStakeConfig_kept {blk : Block} {s s' : AuctionState κ} {msgSender : Address}
    {c : StakeConfig} (h : setStakeConfig blk s msgSender c = .ok s') : ConfigKept s s' := by
  obtain ⟨hvalid, hqueued | rfl⟩ := setStakeConfig_spec h
  · have hshares : Shares c.refundTable := DynamicStakeLib.validate_refunds_le hvalid
    obtain ⟨effective, rfl⟩ := queueConfig_spec hqueued
    exact ⟨fun hs => ⟨hs.config, hs.previousConfig, hshares, hs.rows⟩, fun _ => rfl⟩
  · have hshares : Shares c.refundTable := DynamicStakeLib.validate_refunds_le hvalid
    exact ⟨fun hs => ⟨hshares, hs.config, hs.pending, hs.rows⟩, fun _ => rfl⟩

variable [DecidableEq κ]

/-- The end of a registration keeps its row. -/
theorem settled_kept (p : AuctionParams) (s : AuctionState κ) (orderHash : κ) (filler : Address)
    (o : Outcome) (evs : List (Nat × AuctionEvent κ)) :
    ConfigKept s { settled p s orderHash filler o with events := evs } := by
  refine .ofSame rfl rfl rfl rfl fun k f => ?_
  simp only [settled, posted, setRegistration, update₂_apply]
  split
  · rename_i heq
    obtain ⟨rfl, rfl⟩ := heq
    cases o <;> rfl
  · rfl

/-- The step lemma of the configuration. -/
theorem step_config {p : AuctionParams} {s s' : AuctionState κ} (h : AuctionStep p s s') :
    ConfigKept s s' := by
  cases h with
  | setReactor blk msgSender reactor_ h =>
      obtain ⟨hunset, rfl⟩ := setReactor_spec h
      exact ⟨fun hs => ⟨hs.config, hs.previousConfig, hs.pending, hs.rows⟩,
        fun hne => absurd hunset hne⟩
  | register oracle blk msgSender msgValue a hfiller h =>
      obtain ⟨snap, hok, rfl⟩ := register_spec h
      refine ⟨fun hs => ⟨hs.config, hs.previousConfig, hs.pending, fun k f => ?_⟩, fun _ => rfl⟩
      simp only [afterRegister, emit, posted, setRegistration, update₂_apply]
      split
      · exact fun v hv => hs.config v (hok.row v hv)
      · exact hs.rows k f
  | onFillSuccess blk msgSender orderHash filler actual remainingAtFill h =>
      obtain ⟨-, -, refund, forfeited, evs, -, -, rfl⟩ := onFillSuccess_spec h
      exact settled_kept p s orderHash filler _ evs
  | slash view blk msgSender orderHash filler h =>
      obtain ⟨-, -, -, rfl⟩ := slash_eq_ok.mp h
      exact settled_kept p s orderHash filler _ _
  | releaseRegistration view blk orderHash filler h =>
      obtain ⟨-, -, rfl⟩ := (releaseRegistration_eq_ok (p := p)).mp h
      exact settled_kept p s orderHash filler _ _
  | withdrawSend msgSender to_ h =>
      obtain ⟨-, -, rfl⟩ := withdrawSend_spec h
      exact .ofSame rfl rfl rfl rfl fun _ _ => rfl
  | withdrawReturn accepted h =>
      obtain rfl := withdrawReturn_spec h
      exact .ofSame rfl rfl rfl rfl fun _ _ => rfl
  | grantRole msgSender role account h =>
      obtain rfl := grantRole_spec h
      exact .ofSame rfl rfl rfl rfl fun _ _ => rfl
  | revokeRole msgSender role account h =>
      obtain rfl := revokeRole_spec h
      exact .ofSame rfl rfl rfl rfl fun _ _ => rfl
  | renounceRole msgSender role callerConfirmation h =>
      obtain rfl := renounceRole_spec h
      exact .ofSame rfl rfl rfl rfl fun _ _ => rfl
  | setStakeConfig blk msgSender c h => exact setStakeConfig_kept h
  | commitPending blk h =>
      obtain rfl := commitPending_spec h
      exact ⟨fun hs => ⟨hs.pending, hs.config, shares_nil, hs.rows⟩, fun _ => rfl⟩
  | cancelPendingConfig blk msgSender h =>
      obtain rfl := cancelPendingConfig_spec h
      exact ⟨fun hs => ⟨hs.config, hs.previousConfig, shares_nil, hs.rows⟩, fun _ => rfl⟩
  | rollback blk msgSender h =>
      obtain rfl := rollback_spec h
      exact ⟨fun hs => ⟨hs.previousConfig, hs.previousConfig, shares_nil, hs.rows⟩,
        fun _ => rfl⟩
  | forceEth amount h =>
      obtain ⟨-, rfl⟩ := forceEth_spec h
      exact .ofSame rfl rfl rfl rfl fun _ _ => rfl

/-- The run lemma of the configuration. -/
theorem run_config {p : AuctionParams} {s s' : AuctionState κ} (h : AuctionRun p s s') :
    ConfigKept s s' := by
  induction h with
  | refl => exact .refl _
  | tail _ hstep ih => exact ih.trans (step_config hstep)

omit [DecidableEq κ] in
theorem configLaw_deployed (admin : Address) : ConfigLaw (deployed (κ := κ) admin) where
  config := by
    show ∀ v ∈ DynamicStakeLib.defaultStakeConfig.refundTable, v ≤ MAX_REFUND_BPS
    decide
  previousConfig := shares_nil
  pending := shares_nil
  rows := fun _ _ => shares_nil

/-! ## Settlement succeeds -/

/-- The settlement of an open registration succeeds when called by the
reactor: a row of the right shape that holds shares, and accounts that have
room for the stake. -/
theorem onFillSuccess_succeeds {p : AuctionParams} {blk : Block} {s : AuctionState κ}
    {orderHash : κ} {filler : Address} {actual remainingAtFill : Nat}
    (hopen : (s.registrations orderHash filler).resolved = false)
    (hshape : (s.registrations orderHash filler).refundRow.length
      = (s.registrations orderHash filler).ratioSnapshot.length + 1)
    (hrow : Shares (s.registrations orderHash filler).refundRow)
    (hactual : actual * 10000 < wordSize)
    (hroom : ∀ account, s.pendingReturns account
      + (s.registrations orderHash filler).stakeAmount < wordSize) :
    ∃ s', onFillSuccess p blk s s.reactor orderHash filler actual remainingAtFill = .ok s' := by
  have hstake : (s.registrations orderHash filler).stakeAmount < wordSize :=
    Nat.lt_of_le_of_lt (Nat.le_add_left _ _) (hroom 0)
  obtain ⟨refund, hrefund, hle⟩ : ∃ refund,
      settlementRefund (s.registrations orderHash filler) actual remainingAtFill = .ok refund ∧
      refund ≤ (s.registrations orderHash filler).stakeAmount :=
    DynamicStakeLib.computeRefund_succeeds hshape hrow hactual hstake
  have hfiller : s.pendingReturns filler + refund < wordSize := by
    have hlt := hroom filler
    omega
  have htreasury : addTo s.pendingReturns [(filler, refund)] p.treasury
      + ((s.registrations orderHash filler).stakeAmount - refund) < wordSize := by
    have hpaid : paidTo p.treasury [(filler, refund)] ≤ refund := paidTo_le_amounts _ _
    have hlt := hroom p.treasury
    rw [addTo]
    omega
  unfold onFillSuccess
  refine bind_succeeds (a := ()) (require_eq_ok.mpr rfl) ?_
  refine bind_succeeds (a := ()) (require_eq_ok.mpr hopen) ?_
  refine bind_succeeds hrefund ?_
  refine bind_succeeds (checkedSub_eq_ok.mpr ⟨hle, rfl⟩) ?_
  refine bind_succeeds (credit_eq_ok.mpr ⟨hfiller, rfl⟩) ?_
  split
  · exact bind_succeeds (credit_eq_ok.mpr ⟨htreasury, rfl⟩) ⟨_, rfl⟩
  · exact ⟨_, rfl⟩

end FillAuction

end NeutronX
