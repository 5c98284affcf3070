import NeutronX.Ledger
import NeutronX.SystemGuards
import NeutronX.SystemProgress

/-!
# The way out of a stake

A registration that is not resolved can end by a slash or by a release,
and the guards of the two ask the reactor the same three questions. Each
answer is final: an order that is filled, cancelled or invalidated stays
so (`Terminal.keep`). So a stake that can be released can never be slashed
again, and after the window after the deadline, where the slash has no
other guard left, exactly one of the two succeeds: solvency rules out that
a credit overflows, and no guard is taken between transactions.
-/

namespace NeutronX

open Evm Function

namespace System

open PartialFillReactor (remainingInput isCancelled isNonceInvalidatedForOrder)
open FillAuction (Slashable Releasable SLASH_WINDOW openStake)

variable {κ W : Type} [DecidableEq κ] {d : Deployment κ W}

/-! ## Orders that have ended -/

/-- Nothing can be filled of an order: it is filled, cancelled or
invalidated. A swapper that is the zero address sends no transactions. -/
def Terminal (d : Deployment κ W) (s : World κ W) (info : OrderInfo) : Prop :=
  unfilled d s info = 0 ∨ s.reactor.cancelled (d.hashOrder info) = true ∨
    (info.swapper ≠ 0 ∧ s.reactor.nonceInvalidated info.swapper info.nonce = true)

omit [DecidableEq κ] in
theorem Terminal.keep {s s' : World κ W} {info : OrderInfo} (h : Terminal d s info)
    (hp : Progress d s s') : Terminal d s' info := by
  rcases h with hzero | hcancelled | ⟨hne, hnonce⟩
  · have hle := hp.unfilled info
    rw [hzero] at hle
    exact Or.inl (Nat.le_zero.mp hle)
  · exact Or.inr (Or.inl (hp.cancelled _ hcancelled))
  · exact Or.inr (Or.inr ⟨hne, hp.nonceInvalidated _ _ hnonce⟩)

/-- What the auction asks the reactor about the order of a registration. -/
def ReleasableOrder (s : World κ W) (orderHash : κ) (filler : Address) : Prop :=
  remainingInput s.reactor orderHash (s.auction.registrations orderHash filler).orderTotal = 0 ∨
    isCancelled s.reactor orderHash = true ∨ isNonceInvalidatedForOrder s.reactor orderHash = true

omit [DecidableEq κ] in
theorem RegisteredFor.releasable_iff {s : World κ W} {info : OrderInfo} {filler : Address}
    (h : RegisteredFor d s info filler
      (s.auction.registrations (d.hashOrder info) filler)) :
    ReleasableOrder s (d.hashOrder info) filler ↔ Terminal d s info := by
  have hnonce : isNonceInvalidatedForOrder s.reactor (d.hashOrder info) = true ↔
      info.swapper ≠ 0 ∧ s.reactor.nonceInvalidated info.swapper info.nonce = true := by
    simp only [isNonceInvalidatedForOrder, h.swapper, h.nonce]
    by_cases hzero : info.swapper = 0 <;> simp [hzero]
  unfold ReleasableOrder Terminal
  rw [hnonce, h.orderTotal]
  rfl

/-- Once releasable, the order of a registration is releasable for ever. -/
theorem releasable_stays {s t : World κ W} (hreg : Registered d s) (ht : Segments d s t)
    {orderHash : κ} {filler : Address}
    (hused : (s.auction.registrations orderHash filler).filler ≠ 0)
    (h : ReleasableOrder s orderHash filler) : ReleasableOrder t orderHash filler := by
  obtain ⟨info, rfl, hfor⟩ := hreg orderHash filler hused
  have hused' : (t.auction.registrations (d.hashOrder info) filler).filler ≠ 0 :=
    (FillAuction.slotKept_run (segments_auction ht) hused).used
  obtain ⟨info', hinfo', hfor'⟩ := Segments.keep registered_segment ht hreg _ filler hused'
  obtain rfl := d.hash_injective hinfo'
  exact hfor'.releasable_iff.mpr ((hfor.releasable_iff.mp h).keep (segments_progress ht))

/-! ## The two exits -/

/-- A slash and a release call nobody. -/
theorem exec_slash_leaf {s s' : World κ W} {msgSender : Account} {orderHash : κ}
    {filler : Address} :
    exec (body d) (.leaf (.slash msgSender orderHash filler)) s = .ok s' ↔
      slash d s msgSender orderHash filler = .ok s' := by
  rw [exec_leaf, body, Prog.finish_attempt_eq_ok]
  simp

theorem exec_release_leaf {s s' : World κ W} {orderHash : κ} {filler : Address} :
    exec (body d) (.leaf (.releaseRegistration orderHash filler)) s = .ok s' ↔
      releaseRegistration s orderHash filler = .ok s' := by
  rw [exec_leaf, body, Prog.finish_attempt_eq_ok]
  simp

theorem slash_guards {s s' : World κ W} {msgSender : Account} {orderHash : κ}
    {filler : Address} (h : slash d s msgSender orderHash filler = .ok s') :
    Slashable (PartialFillReactor.view s.reactor) s.block s.auction orderHash filler := by
  obtain ⟨auction, hauction, -⟩ := onAuction_spec h
  exact (FillAuction.slash_eq_ok.mp hauction).1

/-- The guards of the slash are the negation of those of the release. -/
theorem not_slash_of_releasable {s s' : World κ W} {msgSender : Account} {orderHash : κ}
    {filler : Address} (h : ReleasableOrder s orderHash filler) :
    slash d s msgSender orderHash filler ≠ .ok s' := by
  intro hslash
  have hguards := slash_guards hslash
  rcases h with hzero | hcancelled | hnonce
  · have hpos : 0 < remainingInput s.reactor orderHash
        (s.auction.registrations orderHash filler).orderTotal := hguards.unfilled
    omega
  · have hlive : isCancelled s.reactor orderHash = false := hguards.live
    rw [hcancelled] at hlive
    cases hlive
  · have hlive : isNonceInvalidatedForOrder s.reactor orderHash = false := hguards.nonceLive
    rw [hnonce] at hlive
    cases hlive

variable [Fintype κ]

/-- What an account is owed and an open stake together fit a word. -/
theorem owed_add_stake_lt {s : World κ W} (h : Visited d s) {orderHash : κ}
    {filler : Address} (hopen : (s.auction.registrations orderHash filler).resolved = false)
    (account : Address) :
    s.auction.pendingReturns account + (s.auction.registrations orderHash filler).stakeAmount
      < wordSize := by
  have hrun := h.auction
  have hbalance := FillAuction.balance_lt_run (show 0 < wordSize by decide) hrun
  have hle :=
    (FillAuction.balanced_reachable hrun).owed_add_locked_le account (orderHash, filler)
  have hstake : openStake (s.auction.registrations orderHash filler)
      = (s.auction.registrations orderHash filler).stakeAmount := by
    simp [openStake, hopen]
  simp only [FillAuction.custody, FillAuction.books, hstake] at hle
  omega

/-- After the window a stake whose order is still open can be slashed, by
anyone. -/
theorem slash_succeeds {s : World κ W} (h : Reachable d s) {orderHash : κ} {filler : Address}
    (hused : (s.auction.registrations orderHash filler).filler ≠ 0)
    (hopen : (s.auction.registrations orderHash filler).resolved = false)
    (hlate : (s.auction.registrations orderHash filler).deadline + SLASH_WINDOW < s.block.number)
    (hnot : ¬ReleasableOrder s orderHash filler) (msgSender : Account) :
    ∃ s', slash d s msgSender orderHash filler = .ok s' := by
  simp only [ReleasableOrder, not_or, Bool.not_eq_true] at hnot
  have hguards : Slashable (PartialFillReactor.view s.reactor) s.block s.auction orderHash filler :=
    ⟨(reachable_guards h).1, hused, hopen, hlate, hnot.2.1, hnot.2.2, Nat.pos_of_ne_zero hnot.1⟩
  have hcaller := owed_add_stake_lt h.visited hopen (msgSender : Address)
  have htreasury := owed_add_stake_lt h.visited hopen d.treasury
  have hreward : paidTo d.treasury
      [((msgSender : Address), (s.auction.registrations orderHash filler).stakeAmount / 10)]
      ≤ (s.auction.registrations orderHash filler).stakeAmount / 10 := paidTo_le_amounts _ _
  have hfits : addTo s.auction.pendingReturns
      [((msgSender : Address), (s.auction.registrations orderHash filler).stakeAmount / 10)]
        d.treasury
      + ((s.auction.registrations orderHash filler).stakeAmount
        - (s.auction.registrations orderHash filler).stakeAmount / 10) < wordSize := by
    rw [addTo]
    omega
  have hok := (FillAuction.slash_eq_ok (p := auctionParams d)).mpr
    ⟨hguards, (by omega : s.auction.pendingReturns msgSender + _ < wordSize), hfits, rfl⟩
  exact ⟨_, by simp only [slash, onAuction, hok]; rfl⟩

/-- A stake whose order has ended can be released, by anyone. -/
theorem release_succeeds {s : World κ W} (h : Reachable d s) {orderHash : κ} {filler : Address}
    (hused : (s.auction.registrations orderHash filler).filler ≠ 0)
    (hopen : (s.auction.registrations orderHash filler).resolved = false)
    (hrel : ReleasableOrder s orderHash filler) :
    ∃ s', releaseRegistration s orderHash filler = .ok s' := by
  have hguards : Releasable (PartialFillReactor.view s.reactor) s.auction orderHash filler :=
    ⟨(reachable_guards h).1, hused, hopen, hrel⟩
  obtain ⟨auction, hok⟩ : ∃ auction, FillAuction.releaseRegistration
      (PartialFillReactor.view s.reactor) s.block s.auction orderHash filler = .ok auction :=
    ⟨_, (FillAuction.releaseRegistration_eq_ok (p := auctionParams d)).mpr
      ⟨hguards, owed_add_stake_lt h.visited hopen _, rfl⟩⟩
  exact ⟨_, by simp only [releaseRegistration, onAuction, hok]; rfl⟩

/-- **One way out.** For a registration that is not resolved: once its
order is releasable it stays so in every later state, the middle of
transactions included, and excludes a slash; up to the end of the window
after its deadline no slash succeeds; and after the window exactly one of
the two transactions succeeds, the slash for every sender. -/
theorem stake_one_way_out {s : World κ W} (h : Reachable d s) {orderHash : κ}
    {filler : Address} (hused : (s.auction.registrations orderHash filler).filler ≠ 0)
    (hopen : (s.auction.registrations orderHash filler).resolved = false) :
    (ReleasableOrder s orderHash filler → ∀ t, Segments d s t →
      ReleasableOrder t orderHash filler ∧
      ∀ (msgSender : Account) (t' : World κ W), slash d t msgSender orderHash filler ≠ .ok t') ∧
    (∀ t, Segments d s t →
      t.block.number ≤ (s.auction.registrations orderHash filler).deadline + SLASH_WINDOW →
      ∀ (msgSender : Account) (t' : World κ W), slash d t msgSender orderHash filler ≠ .ok t') ∧
    ((s.auction.registrations orderHash filler).deadline + SLASH_WINDOW < s.block.number →
      ((∀ msgSender, ∃ s', exec (body d) (.leaf (.slash msgSender orderHash filler)) s = .ok s') ∧
        ∀ s', exec (body d) (.leaf (.releaseRegistration orderHash filler)) s ≠ .ok s') ∨
      ((∀ msgSender s', exec (body d) (.leaf (.slash msgSender orderHash filler)) s ≠ .ok s') ∧
        ∃ s', exec (body d) (.leaf (.releaseRegistration orderHash filler)) s = .ok s')) := by
  refine ⟨fun hrel t ht => ?_, fun t ht hnow msgSender t' hs => ?_, fun hlate => ?_⟩
  · have hstays := releasable_stays (reachable_registered h) ht hused hrel
    exact ⟨hstays, fun msgSender t' => not_slash_of_releasable hstays⟩
  · have hdeadline := congrArg Registration.deadline
      (FillAuction.slotKept_run (segments_auction ht) hused).terms_eq
    have hguard := (slash_guards hs).late
    rw [show (t.auction.registrations orderHash filler).deadline
      = (s.auction.registrations orderHash filler).deadline from hdeadline] at hguard
    omega
  · by_cases hrel : ReleasableOrder s orderHash filler
    · right
      refine ⟨fun msgSender s' hs => ?_, ?_⟩
      · exact not_slash_of_releasable hrel (exec_slash_leaf.mp hs)
      · obtain ⟨s', hs'⟩ := release_succeeds h hused hopen hrel
        exact ⟨s', exec_release_leaf.mpr hs'⟩
    · left
      refine ⟨fun msgSender => ?_, fun s' hs => ?_⟩
      · obtain ⟨s', hs'⟩ := slash_succeeds h hused hopen hlate hrel msgSender
        exact ⟨s', exec_slash_leaf.mpr hs'⟩
      · obtain ⟨auction, hauction, -⟩ := onAuction_spec (exec_release_leaf.mp hs)
        have hguards :=
          ((FillAuction.releaseRegistration_eq_ok (p := auctionParams d)).mp hauction).1
        exact hrel hguards.terminal

/-- A registration nobody filled, one block after the window. -/
theorem stake_one_way_out_late :
    ∃ s : World OrderInfo Ledger, ∃ info : OrderInfo, s.block.number = 151 ∧
      (((∀ msgSender, ∃ s', exec (body Ledger.deployment) (.leaf (.slash msgSender info 7)) s
            = .ok s') ∧
          ∀ s', exec (body Ledger.deployment) (.leaf (.releaseRegistration info 7)) s ≠ .ok s') ∨
        ((∀ msgSender s', exec (body Ledger.deployment) (.leaf (.slash msgSender info 7)) s
            ≠ .ok s') ∧
          ∃ s', exec (body Ledger.deployment) (.leaf (.releaseRegistration info 7)) s
            = .ok s')) := by
  let info : OrderInfo := ⟨1, 2, 1000, 3, 900, 100, 0, 0, 10 ^ 18, 0, 3000⟩
  let s := run Ledger.deployment
    [.call (.leaf (.register ⟨7, by decide⟩ 200 ⟨info, [1]⟩ 1000)), .tick ⟨141, 0⟩]
    (deployed Ledger.deployment (fun _ _ => 0) ⟨10, 0⟩)
  have hs : Reachable Ledger.deployment s := ⟨_, _, _, rfl⟩
  have hused : (s.auction.registrations info 7).filler ≠ 0 := by decide +kernel
  have hopen : (s.auction.registrations info 7).resolved = false := by decide +kernel
  have hlate : (s.auction.registrations info 7).deadline + SLASH_WINDOW < s.block.number := by
    decide +kernel
  exact ⟨s, info, by decide +kernel, (stake_one_way_out hs hused hopen).2.2 hlate⟩

end System

end NeutronX
