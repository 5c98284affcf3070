import NeutronX.CrossChain.DestinationSteps
import NeutronX.CrossChain.OrderAccounting

/-!
# Custody of the source escrows

Two things are left to show of a clone, beyond the law every step keeps.
A settlement whose guards hold goes through (`withdraw_completes`,
`cancel_completes`): a receiver that rejects ETH is credited, which fits
because the credit is covered by the balance, and the callback of a
cancellation finds room in the order's counter. And between transactions
no settlement is half done, so the deposit has followed the tokens.
-/

namespace NeutronX.CrossChain

open Evm Function

namespace SourceChain

open EscrowSrc (Standing Unsettled depositDue)

variable {κ A W : Type} [DecidableEq κ] [Zero A] [DecidableEq A] {d : SourceChain κ A W}

/-! ## Settlements complete -/

theorem Moment.turn {P : Fill κ A → Prop} {own : κ → Bytes32 → Prop} {s s' : SourceState κ A W}
    (hs : Moment d s) (h : Turn d P own s s') : Moment d s' := hs.segments h.segments

/-- A clone at the stage before its deposit still owes it, and its payment,
pushed or credited, goes through. -/
theorem pay_succeeds {s : SourceState κ A W} (hs : Moment d s) {k : κ} {h : Bytes32}
    {t : Terms κ A} {stage next : Stage} {payee : A} (hterms : (s.escrows k h).terms = some t)
    (hstage : (s.escrows k h).mutex = some stage)
    (hpays : EscrowSrc.PaysTo t stage next payee) (accepted : Bool) :
    ∃ c', EscrowSrc.payDeposit (s.escrows k h) next payee t.safetyDeposit accepted = .ok c' := by
  have hlaw := hs.law.clone k h
  have hdeposits := EscrowSrc.standing_pay (hlaw.standing t hterms) hstage hpays
  have hdue : depositDue (s.escrows k h) = t.safetyDeposit := by
    simp [depositDue, hterms, hdeposits]
  have hcovered := hlaw.pendingEth_le payee
  rw [hdue] at hcovered
  exact EscrowSrc.payDeposit_succeeds (Nat.lt_of_le_of_lt hcovered hlaw.word) accepted

/-- The token contract lets the clone send what it escrows. -/
def Sends (d : SourceChain κ A W) (s : SourceState κ A W) (k : κ) (h : Bytes32)
    (t : Terms κ A) (to_ : A) : Prop :=
  ∃ tokens, d.safeTransfer s.tokens (d.computeAddress k h) t.token to_ t.amount = .ok tokens

theorem withdraw_completes {s : SourceState κ A W} (hs : Moment d s) {k : κ}
    {h secret : Bytes32} {t : Terms κ A} (hopen : Unsettled (s.escrows k h) t)
    (hfree : (s.escrows k h).mutex = none) (htime : s.block.timestamp ≤ t.expiry)
    (hsecret : d.keccak secret = t.hashlock) (hsends : Sends d s k h t t.filler)
    (accepted : Bool) :
    (withdraw d s k h secret accepted).Completes (FullTurn d fun _ => True) fun _ => True := by
  obtain ⟨tokens, hsend⟩ := hsends
  have hcode := (hs.law.clone k h).code t hopen.terms
  have hstart : withdrawStart d s k h secret = .ok { setEscrow s k h
      (EscrowSrc.withdrawing s.block (s.escrows k h) t secret) with tokens } := by
    simp only [withdrawStart, payOut, bind_eq_ok, cloneAt_eq_ok, pure_eq_ok]
    exact ⟨_, ⟨hcode, rfl⟩, ⟨_, t⟩,
      EscrowSrc.withdrawStart_eq_ok.mpr ⟨⟨hfree, hopen, htime, hsecret⟩, rfl⟩, tokens, hsend, rfl⟩
  refine Prog.completes_attempt hstart fun s₂ h₂ => ?_
  have h₁ := (withdrawStart_moved hstart).1.turn (P := fun _ => True)
    (.withdrawStart k h secret hstart)
  have hs₂ := (hs.turn h₁).turn h₂
  have hlock₂ := (h₂.locks k h id).trans (withdrawStart_mutex hstart).2
  obtain ⟨t₂, hterms₂⟩ := (hs₂.law.clone k h).terms_of_mutex hlock₂
  obtain ⟨c₃, hpay⟩ := pay_succeeds hs₂ hterms₂ hlock₂ (.withdraw secret) accepted
  have hcode₂ := (hs₂.law.clone k h).code t₂ hterms₂
  have hok : withdrawPay s₂ k h secret accepted = .ok (setEscrow s₂ k h c₃) := by
    simp only [withdrawPay, bind_eq_ok, cloneAt_eq_ok, EscrowSrc.initialized_eq_ok, pure_eq_ok]
    exact ⟨_, ⟨hcode₂, rfl⟩, t₂, hterms₂, c₃, hpay, rfl⟩
  refine Prog.completes_attempt hok (Prog.completes_yieldIf (fun _ => .refl _) fun s₄ h₄ => ?_)
  have h₃ := (withdrawPay_moved (d := d) hlock₂ hok).1.turn (P := fun _ => True)
    (.withdrawPay k h secret accepted hlock₂ hok)
  have hs₄ := (hs₂.turn h₃).turn h₄
  have hlock₄ := (h₄.locks k h id).trans (withdrawPay_mutex hok)
  obtain ⟨t₄, hterms₄⟩ := (hs₄.law.clone k h).terms_of_mutex hlock₄
  have hcode₄ := (hs₄.law.clone k h).code t₄ hterms₄
  refine Prog.completes_attempt (a := emit (setEscrow s₄ k h (s₄.escrows k h).release)
    (.withdrawn (d.computeAddress k h) t₄.filler secret)) ?_ trivial
  simp only [withdrawEnd, bind_eq_ok, cloneAt_eq_ok, EscrowSrc.initialized_eq_ok, pure_eq_ok]
  exact ⟨_, ⟨hcode₄, rfl⟩, t₄, hterms₄, rfl⟩

theorem cancel_completes {s : SourceState κ A W} (hs : Moment d s) (msgSender : A) {k : κ}
    {h : Bytes32} {t : Terms κ A} (hopen : Unsettled (s.escrows k h) t)
    (hfree : (s.escrows k h).mutex = none) (htime : t.expiry < s.block.timestamp)
    (hsends : Sends d s k h t t.swapper) (accepted : Bool) :
    (cancel d s msgSender k h accepted).Completes (FullTurn d fun _ => True) fun _ => True := by
  obtain ⟨tokens, hsend⟩ := hsends
  have hcode := (hs.law.clone k h).code t hopen.terms
  have hstart : cancelStart d s k h = .ok { setEscrow s k h
      (EscrowSrc.cancelling s.block (s.escrows k h) t) with tokens } := by
    simp only [cancelStart, payOut, bind_eq_ok, cloneAt_eq_ok, pure_eq_ok]
    exact ⟨_, ⟨hcode, rfl⟩, ⟨_, t⟩,
      EscrowSrc.cancelStart_eq_ok.mpr ⟨⟨hfree, hopen, htime⟩, rfl⟩, tokens, hsend, rfl⟩
  refine Prog.completes_attempt hstart fun s₂ h₂ => ?_
  have h₁ := (cancelStart_moved hstart).1.turn (P := fun _ => True) (.cancelStart k h hstart)
  have hs₂ := (hs.turn h₁).turn h₂
  have hlock₂ := (h₂.locks k h id).trans (cancelStart_mutex hstart).2
  obtain ⟨t₂, hterms₂⟩ := (hs₂.law.clone k h).terms_of_mutex hlock₂
  obtain ⟨c₃, hpay⟩ := pay_succeeds hs₂ hterms₂ hlock₂ .cancel accepted
  have hcode₂ := (hs₂.law.clone k h).code t₂ hterms₂
  have hok : cancelPay s₂ k h accepted = .ok (setEscrow s₂ k h c₃) := by
    simp only [cancelPay, bind_eq_ok, cloneAt_eq_ok, EscrowSrc.initialized_eq_ok, pure_eq_ok]
    exact ⟨_, ⟨hcode₂, rfl⟩, t₂, hterms₂, c₃, hpay, rfl⟩
  refine Prog.completes_attempt hok (Prog.completes_yieldIf (fun _ => .refl _) fun s₄ h₄ => ?_)
  have h₃ := (cancelPay_moved (d := d) hlock₂ hok).1.turn (P := fun _ => True)
    (.cancelPay k h accepted hlock₂ hok)
  have hs₄ := (hs₂.turn h₃).turn h₄
  have hlock₄ := (h₄.locks k h id).trans (cancelPay_mutex hok)
  -- the callback finds the amount of the clone still reserved
  obtain ⟨fill, hfill, hterms₄, -, hrestore, -⟩ := restore_exact hs₄.law hs₄.accounted hlock₄
  obtain ⟨rfl, rfl, -⟩ := hs₄.law.fill k h fill hfill
  have hcode₄ := (hs₄.law.clone _ _).code _ hterms₄
  have hend : ∃ s₅, cancelEnd d s₄ msgSender (d.hashOrder fill.order) fill.auth.hashlock
      = .ok s₅ := by
    simp only [cancelEnd, bind_eq_ok, cloneAt_eq_ok, EscrowSrc.initialized_eq_ok, pure_eq_ok]
    exact ⟨_, _, ⟨hcode₄, rfl⟩, _, hterms₄, _, by
      simpa [callFactory, termsOf, initArgs] using hrestore, rfl⟩
  obtain ⟨s₅, hend⟩ := hend
  exact Prog.completes_attempt hend trivial

/-- A body that completes over turns completes over every call tree. -/
theorem exec_of_completes {l : Label d} {s : SourceState κ A W}
    (h : (body d l s).Completes (FullTurn d fun _ => True) fun _ => True)
    (turns : List (List (Call (Label d)))) :
    ∃ s', exec (body d) (.mk l turns) s = .ok s' := by
  have hcalls : ∀ cs s, FullTurn d (fun _ => True) s (runCalls (body d) cs s) := fun cs s =>
    runCalls_sat (P := fun _ => True) (fun _ => .refl _) (fun h h' => h.trans h')
      (fun l _ s => body_turn l (by cases l <;> trivial) s) (callsAll_true cs)
  obtain ⟨s', hs', -⟩ : ∃ s', resume (body d) turns (body d l s) = .ok s' ∧ True :=
    resume_completes (fun _ => .refl _) hcalls h
  exact ⟨s', by simpa [exec] using hs'⟩

/-! ## The law of custody -/

/-- What custody means for a clone with the terms `t`. -/
structure Custody (d : SourceChain κ A W) (s : SourceState κ A W) (k : κ) (h : Bytes32)
    (t : Terms κ A) : Prop where
  /-- the tokens are sent at most once, by the flags, the expiry and the preimage -/
  standing : Standing d.keccak t (s.escrows k h)
  /-- the deposit has gone where the tokens went -/
  deposit : Between s → (s.escrows k h).deposits =
    (s.escrows k h).payouts.map fun p => (p.to_, t.safetyDeposit)
  /-- the balance covers what is credited and the deposit that is due -/
  covered : ∀ owed : Finset A,
    ∑ a ∈ owed, (s.escrows k h).pendingEth a + depositDue (s.escrows k h)
      ≤ (s.escrows k h).balance
  /-- neither a receiver of ETH nor the callback can block a settlement -/
  withdraw : ∀ secret accepted turns, Unsettled (s.escrows k h) t →
    (s.escrows k h).mutex = none → s.block.timestamp ≤ t.expiry →
    d.keccak secret = t.hashlock → Sends d s k h t t.filler →
      ∃ s', exec (body d) (.mk (.withdraw k h secret accepted) turns) s = .ok s'
  cancel : ∀ (msgSender : Outsider d) accepted turns, Unsettled (s.escrows k h) t →
    (s.escrows k h).mutex = none → t.expiry < s.block.timestamp →
    Sends d s k h t t.swapper →
      ∃ s', exec (body d) (.mk (.cancel msgSender k h accepted) turns) s = .ok s'

omit [DecidableEq κ] [DecidableEq A] in
theorem deposit_follows {s : SourceState κ A W} {k : κ} {h : Bytes32} {t : Terms κ A}
    (hstanding : Standing d.keccak t (s.escrows k h)) (hbetween : Between s) :
    (s.escrows k h).deposits = (s.escrows k h).payouts.map fun p => (p.to_, t.safetyDeposit) := by
  have hfree := hbetween.free k h
  cases hstanding with
  | unsettled _ _ hpayouts hdeposits => simp [hpayouts, hdeposits]
  | withdrawn time secret _ _ _ _ hpayouts hdeposit =>
      rcases hdeposit with ⟨hwait, -⟩ | ⟨-, hpaid⟩
      · simp [hfree] at hwait
      · simp [hpayouts, hpaid]
  | cancelled time _ _ _ hpayouts hdeposit =>
      rcases hdeposit with ⟨hwait, -⟩ | ⟨-, hpaid⟩
      · simp [hfree] at hwait
      · simp [hpayouts, hpaid]

/-- **Escrow custody**, at every moment of every run of the source chain and
of the destination chain. -/
theorem escrow_custody {A' W' : Type} [DecidableEq A'] [Zero A'] (d' : DestinationChain A' W') :
    (∀ s : SourceState κ A W, Moment d s → ∀ k h t, (s.escrows k h).terms = some t →
      Custody d s k h t) ∧
    ∀ s : DestinationState A' W', DestinationChain.Moment d' (fun _ => True) s →
      ∀ hl f t, (s.escrows hl f).terms = some t →
        EscrowDst.Standing d'.keccak t (s.escrows hl f) := by
  refine ⟨fun s hs k h t hterms => ?_, fun s hs hl f t hterms => (hs.law hl f).standing t hterms⟩
  have hlaw := hs.law.clone k h
  have hstanding := hlaw.standing t hterms
  exact ⟨hstanding, deposit_follows hstanding, hlaw.covered,
    fun secret accepted turns hopen hfree htime hsecret hsends => exec_of_completes
      (withdraw_completes hs hopen hfree htime hsecret hsends accepted) turns,
    fun msgSender accepted turns hopen hfree htime hsends => exec_of_completes
      (cancel_completes hs msgSender hopen hfree htime hsends accepted) turns⟩

/-- A withdrawal to a filler that rejects ETH, with a second withdrawal tried
from inside: 40 units are sent once, and the deposit of 8 is credited. -/
theorem escrow_custody_rejected :
    ∃ s t, Reachable Ledger.sourceChain s ∧
      (s.escrows ⟨2, 4, 100, 6, 90, 1000, 0, 3000⟩ 8).payouts = [⟨14, 40, 5, some 7⟩] ∧
      (s.escrows ⟨2, 4, 100, 6, 90, 1000, 0, 3000⟩ 8).pendingEth 14 = 8 ∧
      Custody Ledger.sourceChain s ⟨2, 4, 100, 6, 90, 1000, 0, 3000⟩ 8 t := by
  let info : OrderInfo Nat := ⟨2, 4, 100, 6, 90, 1000, 0, 3000⟩
  let filler := Ledger.outsider 7 (by decide)
  let t : Terms (OrderInfo Nat) Nat := ⟨⟨8, 14, 2, 4, 40, 100, info, 100⟩, 8⟩
  let s := run Ledger.sourceChain
    [.call (.leaf (.fillSlot filler 8 info [1] ⟨info, 8, 40, 100, 200⟩ [1])),
     .tick ⟨1, 5⟩,
     .call (.mk (.withdraw info 8 7 false) [[.leaf (.withdraw info 8 7 true)]])]
    (deployed (update₂ (fun _ _ => 0) 4 2 100) ⟨1, 0⟩)
  have hs : Reachable Ledger.sourceChain s := ⟨_, _, _, rfl⟩
  have hterms : (s.escrows info 8).terms = some t := by decide +kernel
  exact ⟨s, t, hs, by decide +kernel, by decide +kernel,
    (escrow_custody Ledger.destinationChain).1 s hs.moment.1 info 8 t hterms⟩

end SourceChain

end NeutronX.CrossChain
