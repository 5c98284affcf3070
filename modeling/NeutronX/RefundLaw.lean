import NeutronX.AuctionConfig
import NeutronX.ConfigGovernance
import NeutronX.StakeTables

/-!
# Refunds grow with the fill

A registration is settled against the row and thresholds of the
configuration that was live when it was made. That one was validated, so
every registration of a reachable state carries a row that does not
decrease and ends at the whole stake (`Settleable`), and its settlement is
a function of the fill and of what remained (`Refunds`): monotone in the
first, antitone in the second, and the whole stake for whoever delivers
all that was deliverable. A competitor who fills in between makes the
remainder smaller, and that never costs anything.
-/

namespace NeutronX

open Evm Function

namespace DynamicStakeLib

/-! ## The bucket of a fill -/

/-- More of less is in no earlier bucket. -/
theorem getFillRatioBucket_mono {fill fill' total total' b b' : Nat} {thresholds : List Nat}
    (hshort : thresholds.length < 2 ^ 8) (hfill : fill ≤ fill') (htotal : total' ≤ total)
    (h : getFillRatioBucket fill total thresholds = .ok b)
    (h' : getFillRatioBucket fill' total' thresholds = .ok b') : b ≤ b' := by
  by_cases hfull : total' ≤ fill'
  · rw [getFillRatioBucket, if_pos hfull, toUint_of_lt hshort] at h'
    obtain rfl := pure_eq_ok.mp h'
    exact getFillRatioBucket_le h
  · rw [getFillRatioBucket, if_neg hfull] at h'
    rw [getFillRatioBucket, if_neg (show ¬total ≤ fill by omega)] at h
    simp only [bind_eq_ok, checkedMul_eq_ok, pure_eq_ok] at h h'
    obtain ⟨_, ⟨-, rfl⟩, rfl⟩ := h
    obtain ⟨_, ⟨-, rfl⟩, rfl⟩ := h'
    have hratio : fill * 10000 / total ≤ fill' * 10000 / total' :=
      calc fill * 10000 / total ≤ fill' * 10000 / total :=
            Nat.div_le_div_right (Nat.mul_le_mul_right _ hfill)
        _ ≤ fill' * 10000 / total' := Nat.div_le_div_left htotal (by omega)
    have hcast : ∀ p : Nat → Bool, toUint 8 (thresholds.findIdx p) = thresholds.findIdx p :=
      fun p => toUint_of_lt (Nat.lt_of_le_of_lt List.findIdx_le_length hshort)
    rw [hcast, hcast]
    exact findIdx_lt_mono thresholds hratio

theorem getFillRatioBucket_full {fill total : Nat} {thresholds : List Nat}
    (hshort : thresholds.length < 2 ^ 8) (h : total ≤ fill) :
    getFillRatioBucket fill total thresholds = .ok thresholds.length := by
  rw [getFillRatioBucket, if_pos h, toUint_of_lt hshort]
  rfl

end DynamicStakeLib

namespace FillAuction

open DynamicStakeLib

/-! ## What a registration can be settled against -/

/-- A registration as `register` makes it under a validated configuration. -/
structure Settleable (reg : Registration) : Prop where
  row : RefundRow reg.refundRow MAX_REFUND_BPS
  shape : reg.refundRow.length = reg.ratioSnapshot.length + 1
  short : reg.ratioSnapshot.length < 2 ^ 8
  fill_fits : reg.fillAmount < 2 ^ 128
  stake_fits : reg.stakeAmount < 2 ^ 128

theorem Settleable.terms {reg : Registration} (h : Settleable (FillAuction.terms reg)) :
    Settleable reg :=
  ⟨h.row, h.shape, h.short, h.fill_fits, h.stake_fits⟩

theorem settleable_newRegistration {κ : Type} {blk : Block} {a : RegisterArgs κ}
    {cfg : StakeConfig} {notional : Nat} {snap : Snapshot} (hvalid : validateConfig cfg = .ok ())
    (h : computeRegistration blk cfg notional a.deadline = .ok snap) :
    Settleable (newRegistration blk a snap) := by
  have htabled := validate_tabled hvalid
  have hshape := computeRegistration_shape h
  simp only [computeRegistration, bind_eq_ok, pure_eq_ok] at h
  obtain ⟨required, -, row, hrow, rfl⟩ := h
  have hbuckets : cfg.ratioThresholds.length + 1 ≤ 16 := htabled.ratioBuckets
  exact
    { row := htabled.rows _ row (htabled.sizeBucket_lt notional) hrow
      shape := hshape
      short := by
        show cfg.ratioThresholds.length < 2 ^ 8
        omega
      fill_fits := toUint_lt 128 _
      stake_fits := toUint_lt 128 _ }

variable {κ : Type} [DecidableEq κ]

/-- What `register` snapshots. -/
theorem register_snapshot {oracle : Option Quote} {blk : Block} {s s' : AuctionState κ}
    {msgSender : Address} {msgValue : Nat} {a : RegisterArgs κ}
    (h : register oracle blk s msgSender msgValue a = .ok s') :
    ∃ notional snap, notionalEth oracle a.inputToken a.feeTier a.fillAmount = .ok notional ∧
      computeRegistration blk s.config notional a.deadline = .ok snap ∧
      snap.required < 2 ^ 128 ∧
      s'.registrations = update₂ s.registrations a.orderHash a.filler
        (newRegistration blk a snap) := by
  simp only [register, bind_eq_ok, receiveValue_eq_ok, require_eq_ok] at h
  obtain ⟨_, ⟨-, rfl⟩, _, -, _, -, _, -, _, -, _, -, _, -, _, -, _, -, notional, hnotional, snap,
    hsnap, _, -, _, hfits, h⟩ := h
  refine ⟨notional, snap, hnotional, hsnap, le_maxUint.mp hfits, ?_⟩
  split at h
  · simp only [bind_eq_ok, credit_eq_ok, pure_eq_ok] at h
    obtain ⟨_, ⟨-, rfl⟩, rfl⟩ := h
    rfl
  · simp only [bind_eq_ok, pure_eq_ok] at h
    obtain ⟨_, rfl, rfl⟩ := h
    rfl

/-- A step registers somebody, or leaves the terms of every registration. -/
theorem step_registrations {p : AuctionParams} {s s' : AuctionState κ} (h : AuctionStep p s s') :
    (∃ oracle blk msgSender msgValue a, register oracle blk s msgSender msgValue a = .ok s') ∨
      ∀ k f, terms (s'.registrations k f) = terms (s.registrations k f) := by
  cases h with
  | register oracle blk msgSender msgValue a hfiller h => exact Or.inl ⟨_, _, _, _, _, h⟩
  | onFillSuccess blk msgSender orderHash filler actual remainingAtFill h =>
      obtain ⟨-, -, refund, forfeited, evs, -, -, rfl⟩ := onFillSuccess_spec h
      exact Or.inr (terms_settled p s orderHash filler _)
  | slash view blk msgSender orderHash filler h =>
      obtain ⟨-, -, -, rfl⟩ := slash_eq_ok.mp h
      exact Or.inr (terms_settled p s orderHash filler _)
  | releaseRegistration view blk orderHash filler h =>
      obtain ⟨-, -, rfl⟩ := (releaseRegistration_eq_ok (p := p)).mp h
      exact Or.inr (terms_settled p s orderHash filler _)
  | setReactor blk msgSender reactor_ h =>
      obtain ⟨-, rfl⟩ := setReactor_spec h
      exact Or.inr fun _ _ => rfl
  | withdrawSend msgSender to_ h =>
      obtain ⟨-, -, rfl⟩ := withdrawSend_spec h
      exact Or.inr fun _ _ => rfl
  | withdrawReturn accepted h =>
      obtain rfl := withdrawReturn_spec h
      exact Or.inr fun _ _ => rfl
  | grantRole msgSender role account h =>
      obtain rfl := grantRole_spec h
      exact Or.inr fun _ _ => rfl
  | revokeRole msgSender role account h =>
      obtain rfl := revokeRole_spec h
      exact Or.inr fun _ _ => rfl
  | renounceRole msgSender role callerConfirmation h =>
      obtain rfl := renounceRole_spec h
      exact Or.inr fun _ _ => rfl
  | setStakeConfig blk msgSender c h =>
      obtain ⟨-, hqueued | rfl⟩ := setStakeConfig_spec h
      · obtain ⟨effective, rfl⟩ := queueConfig_spec hqueued
        exact Or.inr fun _ _ => rfl
      · exact Or.inr fun _ _ => rfl
  | commitPending blk h =>
      obtain rfl := commitPending_spec h
      exact Or.inr fun _ _ => rfl
  | cancelPendingConfig blk msgSender h =>
      obtain rfl := cancelPendingConfig_spec h
      exact Or.inr fun _ _ => rfl
  | rollback blk msgSender h =>
      obtain rfl := rollback_spec h
      exact Or.inr fun _ _ => rfl
  | forceEth amount h =>
      obtain ⟨-, rfl⟩ := forceEth_spec h
      exact Or.inr fun _ _ => rfl

/-- Every registration of a reachable state can be settled. -/
theorem settleable_run {p : AuctionParams} {admin : Address} {s : AuctionState κ}
    (h : AuctionRun p (deployed admin) s) (k : κ) (f : Address)
    (hused : (s.registrations k f).filler ≠ 0) : Settleable (s.registrations k f) := by
  induction h with
  | refl => exact absurd rfl hused
  | tail hrun hstep ih =>
      rename_i s s'
      rcases step_registrations hstep with ⟨oracle, blk, msgSender, msgValue, a, hreg⟩ | hterms
      · obtain ⟨notional, snap, -, hsnap, -, hslots⟩ := register_snapshot hreg
        have hlaw : GovernanceLaw (governance s) :=
          governanceLaw_run (governanceLaw_deployed admin) hrun
        rw [hslots, update₂_apply] at hused ⊢
        split at hused
        · rw [if_pos ‹_›]
          exact settleable_newRegistration hlaw.config.1 hsnap
        · rw [if_neg ‹_›]
          exact ih hused
      · have hsame := hterms k f
        have hfiller : (s'.registrations k f).filler = (s.registrations k f).filler :=
          by
          have hof := congrArg Registration.filler hsame
          exact hof
        refine Settleable.terms ?_
        rw [hsame]
        obtain ⟨hrow, hshape, hshort, hfill, hstake⟩ := ih (by rwa [← hfiller])
        exact ⟨hrow, hshape, hshort, hfill, hstake⟩

/-! ## The refund as a function -/

/-- The fill that is deliverable when `remaining` is left of the order. -/
def deliverable (reg : Registration) (remainingAtFill : Nat) : Nat :=
  min remainingAtFill reg.fillAmount

omit [DecidableEq κ] in
theorem settlementRefund_eq (reg : Registration) (actual remainingAtFill : Nat) :
    settlementRefund reg actual remainingAtFill = computeRefund reg.stakeAmount actual
      (deliverable reg remainingAtFill) reg.refundRow reg.ratioSnapshot := by
  have hmin : deliverable reg remainingAtFill
      = if remainingAtFill < reg.fillAmount then remainingAtFill else reg.fillAmount := by
    unfold deliverable
    split <;> omega
  rw [settlementRefund, hmin]

/-- The bucket and the share a settlement goes by. -/
theorem Settleable.refund {reg : Registration} (h : Settleable reg)
    (actual remainingAtFill : Nat) : ∃ b share,
      getFillRatioBucket actual (deliverable reg remainingAtFill) reg.ratioSnapshot = .ok b ∧
      reg.refundRow[b]? = some share ∧
      settlementRefund reg actual remainingAtFill = .ok (reg.stakeAmount * share / 10000) := by
  obtain ⟨b, hb⟩ : ∃ b, getFillRatioBucket actual (deliverable reg remainingAtFill)
      reg.ratioSnapshot = .ok b := by
    by_cases hfull : deliverable reg remainingAtFill ≤ actual
    · exact ⟨_, getFillRatioBucket_full h.short hfull⟩
    · -- less than is deliverable is less than a commitment, of 128 bits
      have hfits := h.fill_fits
      refine getFillRatioBucket_eq_ok ?_
      simp only [deliverable] at hfull
      simp only [wordSize]
      omega
  have hlt : b < reg.refundRow.length := by
    have hle := getFillRatioBucket_le hb
    have hshape := h.shape
    omega
  have hshare : reg.refundRow[b]? = some reg.refundRow[b] := List.getElem?_eq_getElem hlt
  have hle : reg.stakeAmount * reg.refundRow[b] / 10000 ≤ reg.stakeAmount :=
    mul_div_le_left (h.row.le_full hshare)
  have hword : reg.stakeAmount * reg.refundRow[b] / 10000 < wordSize :=
    Nat.lt_of_le_of_lt hle (Nat.lt_trans h.stake_fits (by decide))
  refine ⟨b, _, hb, hshare, ?_⟩
  rw [settlementRefund_eq]
  simp only [computeRefund, bind_eq_ok]
  exact ⟨b, hb, _, getAt_of_lt hlt, mulDiv_eq_ok.mpr ⟨⟨by decide, hword⟩, rfl⟩⟩

/-- The settlement of `reg` refunds `refund actual remainingAtFill`: more for
a larger fill, no less for a smaller remainder, and all of the stake for a
fill of all that is deliverable. -/
structure Refunds (reg : Registration) (refund : Nat → Nat → Nat) : Prop where
  computed : ∀ actual remainingAtFill,
    settlementRefund reg actual remainingAtFill = .ok (refund actual remainingAtFill)
  le_stake : ∀ actual remainingAtFill, refund actual remainingAtFill ≤ reg.stakeAmount
  mono : ∀ actual actual' remainingAtFill, actual ≤ actual' →
    refund actual remainingAtFill ≤ refund actual' remainingAtFill
  anti : ∀ actual remainingAtFill remainingAtFill', remainingAtFill' ≤ remainingAtFill →
    refund actual remainingAtFill ≤ refund actual remainingAtFill'
  full : ∀ actual remainingAtFill, min reg.fillAmount remainingAtFill ≤ actual →
    refund actual remainingAtFill = reg.stakeAmount

theorem Settleable.refund_mono {reg : Registration} (h : Settleable reg)
    {actual actual' remaining remaining' refund refund' : Nat} (hactual : actual ≤ actual')
    (hremaining : remaining' ≤ remaining)
    (hr : settlementRefund reg actual remaining = .ok refund)
    (hr' : settlementRefund reg actual' remaining' = .ok refund') : refund ≤ refund' := by
  obtain ⟨b, share, hb, hshare, heq⟩ := h.refund actual remaining
  obtain ⟨b', share', hb', hshare', heq'⟩ := h.refund actual' remaining'
  obtain rfl : reg.stakeAmount * share / 10000 = refund := Except.ok.inj (heq.symm.trans hr)
  obtain rfl : reg.stakeAmount * share' / 10000 = refund' := Except.ok.inj (heq'.symm.trans hr')
  have hdeliverable : deliverable reg remaining' ≤ deliverable reg remaining := by
    simp only [deliverable]
    omega
  have hbucket : b ≤ b' := getFillRatioBucket_mono h.short hactual hdeliverable hb hb'
  exact Nat.div_le_div_right (Nat.mul_le_mul_left _ (h.row.le hbucket hshare hshare'))

theorem Settleable.refund_full {reg : Registration} (h : Settleable reg)
    {actual remaining refund : Nat} (hfull : min reg.fillAmount remaining ≤ actual)
    (hr : settlementRefund reg actual remaining = .ok refund) : refund = reg.stakeAmount := by
  obtain ⟨b, share, hb, hshare, heq⟩ := h.refund actual remaining
  obtain rfl : reg.stakeAmount * share / 10000 = refund := Except.ok.inj (heq.symm.trans hr)
  rw [getFillRatioBucket_full h.short (by rwa [deliverable, Nat.min_comm])] at hb
  obtain rfl : reg.ratioSnapshot.length = b := Except.ok.inj hb
  have hlast := h.row.last
  rw [h.shape, Nat.add_sub_cancel, hshare, Option.some.injEq] at hlast
  rw [hlast]
  exact Nat.mul_div_cancel _ (by decide)

theorem Settleable.refunds {reg : Registration} (h : Settleable reg) :
    ∃ refund, Refunds reg refund := by
  have hex : ∀ actual remaining, ∃ refund,
      settlementRefund reg actual remaining = .ok refund ∧ refund ≤ reg.stakeAmount := by
    intro actual remaining
    obtain ⟨b, share, -, hshare, heq⟩ := h.refund actual remaining
    exact ⟨_, heq, mul_div_le_left (h.row.le_full hshare)⟩
  choose refund hrefund hle using hex
  exact ⟨refund, hrefund, hle,
    fun actual actual' remaining hactual =>
      h.refund_mono hactual (Nat.le_refl remaining) (hrefund _ _) (hrefund _ _),
    fun actual remaining remaining' hremaining =>
      h.refund_mono (Nat.le_refl actual) hremaining (hrefund _ _) (hrefund _ _),
    fun actual remaining hfull => h.refund_full hfull (hrefund _ _)⟩

/-- **Refunds are monotone and safe from competitors.** Every registration
of a reachable state has a refund that grows with the fill, that a smaller
remainder never lowers, and that is the whole stake for a fill of the
smaller of commitment and remainder; and whoever settles it is credited
this refund, the treasury the rest. -/
theorem refund_competitor_proof {p : AuctionParams} {admin : Address} {s : AuctionState κ}
    (h : AuctionRun p (deployed admin) s) {orderHash : κ} {filler : Address}
    (hused : (s.registrations orderHash filler).filler ≠ 0) :
    ∃ refund, Refunds (s.registrations orderHash filler) refund ∧
      ∀ blk msgSender actual remainingAtFill s',
        onFillSuccess p blk s msgSender orderHash filler actual remainingAtFill = .ok s' →
        ∃ forfeited,
          refund actual remainingAtFill + forfeited
            = (s.registrations orderHash filler).stakeAmount ∧
          s'.credits = (if 0 < forfeited then
              [⟨p.treasury, forfeited, some (orderHash, filler)⟩] else [])
            ++ [⟨filler, refund actual remainingAtFill, some (orderHash, filler)⟩]
            ++ s.credits := by
  obtain ⟨refund, hrefunds⟩ := (settleable_run h orderHash filler hused).refunds
  refine ⟨refund, hrefunds, fun blk msgSender actual remaining s' hsettle => ?_⟩
  obtain ⟨-, -, refund', forfeited, evs, hrefund', hsplit, rfl⟩ := onFillSuccess_spec hsettle
  obtain rfl : refund actual remaining = refund' :=
    Except.ok.inj ((hrefunds.computed actual remaining).symm.trans hrefund')
  exact ⟨forfeited, hsplit, rfl⟩

/-- A commitment of 1000 of which 90 are delivered: a tenth of the stake of
200 comes back while the order is whole, all of it when only 100 are left
(90% is past the last threshold). -/
theorem refund_competitor_proof_default :
    ∃ (s : AuctionState Unit) (refund : Nat → Nat → Nat),
      refund 90 1000 = 20 ∧ refund 90 100 = 200 ∧ Refunds (s.registrations () 7) refund := by
  have hreturns : Returns (do
      let s₀ ← setReactor ⟨1, 1⟩ (deployed (κ := Unit) 1) 1 5
      register none ⟨1, 1⟩ s₀ 5 200 ⟨7, (), 1000, 1000, 100, 0, 0⟩)
      (fun s => settlementRefund (s.registrations () 7) 90 1000 = .ok 20 ∧
        settlementRefund (s.registrations () 7) 90 100 = .ok 200 ∧
        (s.registrations () 7).filler ≠ 0) := by
    decide +kernel
  obtain ⟨s, hok, hwide, hnarrow, hused⟩ := hreturns
  simp only [bind_eq_ok] at hok
  obtain ⟨s₀, h₀, hreg⟩ := hok
  have hrun : AuctionRun ⟨100, 101⟩ (deployed (κ := Unit) 1) s :=
    (Relation.ReflTransGen.single (.setReactor _ _ _ h₀)).tail
      (.register _ _ _ _ _ (by decide) hreg)
  obtain ⟨refund, hrefunds, -⟩ := refund_competitor_proof hrun hused
  have hwide' := hrefunds.computed 90 1000
  have hnarrow' := hrefunds.computed 90 100
  rw [hwide] at hwide'
  rw [hnarrow] at hnarrow'
  exact ⟨s, refund, (Except.ok.inj hwide').symm, (Except.ok.inj hnarrow').symm, hrefunds⟩

end FillAuction

end NeutronX
