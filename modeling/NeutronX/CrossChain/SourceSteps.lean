import NeutronX.CrossChain.EscrowSteps
import NeutronX.CrossChain.SourceChain

/-!
# What the source chain can do

The pieces of the bodies are the transitions of the chain: `Segment` lists
them, each with the equation that it succeeded and with the stage its
clone stood at. Whatever a call tree does is a sequence of segments
(`Turn`, in the next module); the stage is known because nothing that is
called in the meantime gets past the mutex.

`Effect` says once what a segment does: a fill is opened or closed, one
clone takes a step, a cancelled clone hands its amount back, or nothing
but tokens and time moves. Every fact about the chain is a case analysis
on it.
-/

namespace NeutronX.CrossChain

open Evm Function

namespace SourceChain

open EscrowSrc (CloneStep Unsettled InitGuards)

variable {κ A W : Type}

/-! ## One spec lemma for each piece -/

@[simp] theorem cloneAt_eq_ok {s : SourceState κ A W} {k : κ} {h : Bytes32}
    {c : EscrowSrc κ A} :
    cloneAt s k h = .ok c ↔ (s.escrows k h).fill.isSome = true ∧ s.escrows k h = c := by
  simp only [cloneAt, bind_eq_ok, require_eq_ok, pure_eq_ok]
  constructor
  · rintro ⟨_, hcode, rfl⟩
    exact ⟨hcode, rfl⟩
  · rintro ⟨hcode, rfl⟩
    exact ⟨(), hcode, rfl⟩

variable [DecidableEq κ] [Zero A] [DecidableEq A] {d : SourceChain κ A W}

omit [DecidableEq κ] in
@[simp] theorem verifySig_eq_ok {structHash : κ} {sig : Bytes} {expectedSigner : A} {u : Unit} :
    verifySig d structHash sig expectedSigner = .ok u ↔
      d.recover structHash sig = some expectedSigner ∧ expectedSigner ≠ 0 := by
  unfold verifySig
  cases d.recover structHash sig with
  | none => simp
  | some signer =>
      simp only [require_eq_ok, Option.some.injEq]
      constructor
      · rintro ⟨hne, rfl⟩
        exact ⟨rfl, hne⟩
      · rintro ⟨rfl, hne⟩
        exact ⟨hne, rfl⟩

/-- What `fillOpen` did, and the guards it passed. -/
structure Opened (d : SourceChain κ A W) (s : SourceState κ A W) (fill : Fill κ A)
    (s' : SourceState κ A W) : Prop where
  free : s.filling = none
  orderHash : fill.auth.orderHash = d.hashOrder fill.order
  live : s.block.timestamp ≤ fill.order.deadlineBase
  t1_le : fill.auth.t1 ≤ fill.order.deadlineBase
  t1_lt_t2 : fill.auth.t1 < fill.auth.t2
  fillAmount_pos : 0 < (fill.auth.fillAmount : Nat)
  fillAmount_le : fill.auth.fillAmount ≤ maxUint 160
  swapperSig : ∃ sig, d.recover (d.hashOrder fill.order) sig = some fill.order.swapper
  perFillSig : ∃ sig, d.recover (d.hashFill fill.auth) sig = some fill.order.swapper
  swapper : fill.order.swapper ≠ 0
  available : fill.auth.fillAmount ≤
    RemainingLib.remaining (s.remaining (d.hashOrder fill.order)) fill.order.inputAmount
  bonded : ∃ required, requiredStake d s fill.auth.fillAmount fill.order.inputToken
    fill.order.feeTier fill.auth.t1 = .ok required ∧ required ≤ fill.bond
  vacant : (s.escrows (d.hashOrder fill.order) fill.auth.hashlock).fill = none
  escrows : s'.escrows = update₂ s.escrows (d.hashOrder fill.order) fill.auth.hashlock
    { s.escrows (d.hashOrder fill.order) fill.auth.hashlock with fill := some fill }
  filling : s'.filling = some (d.hashOrder fill.order, fill.auth.hashlock)
  orderAmount : s'.orderAmount =
    update s.orderAmount (d.hashOrder fill.order) fill.order.inputAmount
  remaining : s'.remaining = update s.remaining (d.hashOrder fill.order)
    (RemainingLib.store (RemainingLib.remaining (s.remaining (d.hashOrder fill.order))
      fill.order.inputAmount - fill.auth.fillAmount))
  block : s'.block = s.block
  events : s'.events = s.events

theorem fillOpen_spec {s s' : SourceState κ A W} {fill : Fill κ A}
    {swapperSig perFillSig : Bytes} (h : fillOpen d s fill swapperSig perFillSig = .ok s') :
    Opened d s fill s' := by
  simp only [fillOpen, deployClone, bind_eq_ok, nonReentrant_eq_ok, require_eq_ok,
    verifySig_eq_ok, checkedSub_eq_ok, requireCustom_eq_ok, pure_eq_ok,
    Option.isNone_iff_eq_none, Option.isSome_eq_false_iff] at h
  obtain ⟨_, hfree, _, horder, _, -, _, hlive, _, ht1, _, ht2, _, hpos, _, hle, _,
    ⟨hswapper, hne⟩, _, ⟨hauth, -⟩, _, havailable, _, ⟨-, rfl⟩, required, hstake, _, hbond, _,
    ⟨_, hvacant, rfl⟩, tokens, -, rfl⟩ := h
  exact ⟨hfree, horder, hlive, ht1, ht2, hpos, hle, ⟨_, hswapper⟩, ⟨_, hauth⟩, hne, havailable,
    ⟨required, hstake, hbond⟩, hvacant, rfl, rfl, rfl, rfl, rfl, rfl⟩

/-- The terms of a genuine clone. -/
def termsOf (d : SourceChain κ A W) (fill : Fill κ A) : Terms κ A :=
  { initArgs d fill with safetyDeposit := fill.bond }

/-- A step of one clone, and whatever it did to tokens, events and the
counters of the factory. -/
structure Moved (d : SourceChain κ A W) (s : SourceState κ A W) (k : κ) (h : Bytes32)
    (s' : SourceState κ A W) : Prop where
  step : CloneStep d.keccak s.block (s.escrows k h) (s'.escrows k h)
  escrows : s'.escrows = update₂ s.escrows k h (s'.escrows k h)
  filling : s'.filling = s.filling
  block : s'.block = s.block

/-- The counters of the factory stay. -/
structure Uncounted (s s' : SourceState κ A W) : Prop where
  remaining : s'.remaining = s.remaining
  orderAmount : s'.orderAmount = s.orderAmount

/-- Writing a clone that took a step. -/
theorem moved_setEscrow {s s' : SourceState κ A W} {k : κ} {h : Bytes32} {c' : EscrowSrc κ A}
    (hescrows : s'.escrows = update₂ s.escrows k h c') (hfilling : s'.filling = s.filling)
    (hblock : s'.block = s.block)
    (hstep : CloneStep d.keccak s.block (s.escrows k h) c') : Moved d s k h s' := by
  have hself : s'.escrows k h = c' := by rw [hescrows, update₂_self]
  exact ⟨hself ▸ hstep, by rw [hself, hescrows], hfilling, hblock⟩

/-- `initialize` at an address with code. -/
theorem initializeAt_spec {s s' : SourceState κ A W} {k : κ} {h : Bytes32} {msgValue : Nat}
    {args : InitArgs κ A} (hok : initializeAt d s k h msgValue args = .ok s') :
    (s.escrows k h).fill.isSome = true ∧
    InitGuards s.block (s.escrows k h) msgValue
      (d.balanceOf s.tokens args.token (d.computeAddress k h)) args ∧
    s' = setEscrow s k h
      ((s.escrows k h).opened { args with safetyDeposit := msgValue }) := by
  simp only [initializeAt, bind_eq_ok, cloneAt_eq_ok, EscrowSrc.initializeClone_eq_ok,
    pure_eq_ok] at hok
  obtain ⟨_, ⟨hcode, rfl⟩, _, ⟨hguards, rfl⟩, rfl⟩ := hok
  exact ⟨hcode, hguards, rfl⟩

omit [DecidableEq κ] in
theorem start_step {blk : Block} {c : EscrowSrc κ A} {msgValue held : Nat} {a : InitArgs κ A}
    (hcode : c.fill.isSome = true) (hg : InitGuards blk c msgValue held a) :
    CloneStep d.keccak blk c (c.opened { a with safetyDeposit := msgValue }) :=
  .start c _ hcode hg.fresh hg.fits hg.deposit hg.amount hg.expiry

theorem initializeAt_moved {s s' : SourceState κ A W} {k : κ} {h : Bytes32} {msgValue : Nat}
    {args : InitArgs κ A} (hok : initializeAt d s k h msgValue args = .ok s') :
    Moved d s k h s' ∧ Uncounted s s' ∧ s'.events = s.events := by
  obtain ⟨hcode, hguards, rfl⟩ := initializeAt_spec hok
  exact ⟨moved_setEscrow rfl rfl rfl (start_step hcode hguards), ⟨rfl, rfl⟩, rfl⟩

/-- What `fillClose` did. -/
structure Closed (d : SourceChain κ A W) (s : SourceState κ A W) (fill : Fill κ A)
    (s' : SourceState κ A W) : Prop where
  code : (s.escrows (d.hashOrder fill.order) fill.auth.hashlock).fill.isSome = true
  guards : ∃ held, InitGuards s.block (s.escrows (d.hashOrder fill.order) fill.auth.hashlock)
    fill.bond held (initArgs d fill)
  escrows : s'.escrows = update₂ s.escrows (d.hashOrder fill.order) fill.auth.hashlock
    ((s.escrows (d.hashOrder fill.order) fill.auth.hashlock).opened (termsOf d fill))
  filling : s'.filling = none
  counters : Uncounted s s'
  block : s'.block = s.block
  events : s'.events = (s.block.number, .filled (d.hashOrder fill.order) fill.auth.hashlock
    fill.filler (d.computeAddress (d.hashOrder fill.order) fill.auth.hashlock)
    fill.auth.fillAmount fill.bond fill.auth.t1 fill.auth.t2) :: s.events

theorem fillClose_spec {s s' : SourceState κ A W} {fill : Fill κ A}
    (h : fillClose d s fill = .ok s') : Closed d s fill s' := by
  simp only [fillClose, bind_eq_ok, pure_eq_ok] at h
  obtain ⟨_, hinit, rfl⟩ := h
  obtain ⟨hcode, hguards, rfl⟩ := initializeAt_spec hinit
  exact ⟨hcode, ⟨_, hguards⟩, rfl, rfl, ⟨rfl, rfl⟩, rfl, rfl⟩

theorem withdrawStart_moved {s s' : SourceState κ A W} {k : κ} {h secret : Bytes32}
    (hok : withdrawStart d s k h secret = .ok s') :
    Moved d s k h s' ∧ Uncounted s s' ∧ s'.events = s.events := by
  simp only [withdrawStart, payOut, bind_eq_ok, cloneAt_eq_ok, pure_eq_ok] at hok
  obtain ⟨_, ⟨-, rfl⟩, ⟨c', t⟩, hstart, tokens, -, rfl⟩ := hok
  obtain ⟨⟨hfree, hopen, htime, hsecret⟩, rfl⟩ := EscrowSrc.withdrawStart_eq_ok.mp hstart
  exact ⟨moved_setEscrow rfl rfl rfl (.withdrawStart _ t secret hfree hopen htime hsecret),
    ⟨rfl, rfl⟩, rfl⟩

theorem cancelStart_moved {s s' : SourceState κ A W} {k : κ} {h : Bytes32}
    (hok : cancelStart d s k h = .ok s') :
    Moved d s k h s' ∧ Uncounted s s' ∧ s'.events = s.events := by
  simp only [cancelStart, payOut, bind_eq_ok, cloneAt_eq_ok, pure_eq_ok] at hok
  obtain ⟨_, ⟨-, rfl⟩, ⟨c', t⟩, hstart, tokens, -, rfl⟩ := hok
  obtain ⟨⟨hfree, hopen, htime⟩, rfl⟩ := EscrowSrc.cancelStart_eq_ok.mp hstart
  exact ⟨moved_setEscrow rfl rfl rfl (.cancelStart _ t hfree hopen htime), ⟨rfl, rfl⟩, rfl⟩

theorem withdrawPay_moved {s s' : SourceState κ A W} {k : κ} {h secret : Bytes32}
    {accepted : Bool} (hstage : (s.escrows k h).mutex = some (.withdrawing secret))
    (hok : withdrawPay s k h secret accepted = .ok s') :
    Moved d s k h s' ∧ Uncounted s s' ∧ s'.events = s.events := by
  simp only [withdrawPay, bind_eq_ok, cloneAt_eq_ok, EscrowSrc.initialized_eq_ok,
    pure_eq_ok] at hok
  obtain ⟨_, ⟨-, rfl⟩, t, hterms, c', hpay, rfl⟩ := hok
  exact ⟨moved_setEscrow rfl rfl rfl
    (.pay _ _ t _ _ _ accepted hstage hterms (.withdraw secret) hpay), ⟨rfl, rfl⟩, rfl⟩

theorem cancelPay_moved {s s' : SourceState κ A W} {k : κ} {h : Bytes32} {accepted : Bool}
    (hstage : (s.escrows k h).mutex = some .cancelling)
    (hok : cancelPay s k h accepted = .ok s') :
    Moved d s k h s' ∧ Uncounted s s' ∧ s'.events = s.events := by
  simp only [cancelPay, bind_eq_ok, cloneAt_eq_ok, EscrowSrc.initialized_eq_ok,
    pure_eq_ok] at hok
  obtain ⟨_, ⟨-, rfl⟩, t, hterms, c', hpay, rfl⟩ := hok
  exact ⟨moved_setEscrow rfl rfl rfl
    (.pay _ _ t _ _ _ accepted hstage hterms .cancel hpay), ⟨rfl, rfl⟩, rfl⟩

/-- The end of a withdrawal, which alone emits `Withdrawn`. -/
theorem withdrawEnd_moved {s s' : SourceState κ A W} {k : κ} {h secret : Bytes32}
    (hstage : (s.escrows k h).mutex = some (.withdrawn secret))
    (hok : withdrawEnd d s k h secret = .ok s') :
    Moved d s k h s' ∧ Uncounted s s' ∧ ∃ t, (s.escrows k h).terms = some t ∧
      s'.escrows k h = (s.escrows k h).release ∧
      s'.events = (s.block.number, .withdrawn (d.computeAddress k h) t.filler secret)
        :: s.events := by
  simp only [withdrawEnd, bind_eq_ok, cloneAt_eq_ok, EscrowSrc.initialized_eq_ok,
    pure_eq_ok] at hok
  obtain ⟨_, ⟨-, rfl⟩, t, hterms, rfl⟩ := hok
  refine ⟨moved_setEscrow rfl rfl rfl (.release _ _ hstage (.withdrawn secret)), ⟨rfl, rfl⟩, t,
    hterms, ?_, rfl⟩
  simp [emit, setEscrow]

/-- What the remainder of the order becomes: the amount is added, up to the
order's total. -/
def restoredAmount (s : SourceState κ A W) (k : κ) (amount : Nat) : Nat :=
  min (s.orderAmount k) (RemainingLib.remaining (s.remaining k) (s.orderAmount k) + amount)

/-- What `restoreRemaining` leaves. -/
def restored (s : SourceState κ A W) (k : κ) (h : Bytes32) (amount : Nat) :
    SourceState κ A W :=
  emit { s with
    remaining := update s.remaining k
      (if restoredAmount s k amount = 0 then 0
        else RemainingLib.pack (restoredAmount s k amount)) }
    (.remainingRestored k h amount (restoredAmount s k amount))

theorem restoreRemaining_eq_ok {s s' : SourceState κ A W} {msgSender : A} {k : κ}
    {h : Bytes32} {amount : Nat} :
    restoreRemaining d s msgSender k h amount = .ok s' ↔
      (msgSender = d.computeAddress k h ∧
        RemainingLib.remaining (s.remaining k) (s.orderAmount k) + amount < wordSize) ∧
      restored s k h amount = s' := by
  have hmin : ∀ a b : Nat, (if a < b then a else b) = min a b := fun a b => by
    split <;> omega
  simp only [restoreRemaining, bind_eq_ok, require_eq_ok, checkedAdd_eq_ok, pure_eq_ok, hmin]
  constructor
  · rintro ⟨_, hsender, _, ⟨hfits, rfl⟩, rfl⟩
    exact ⟨⟨hsender, hfits⟩, rfl⟩
  · rintro ⟨⟨hsender, hfits⟩, rfl⟩
    exact ⟨(), hsender, _, ⟨hfits, rfl⟩, rfl⟩

/-- The end of a cancellation: the callback of a clone with the terms `t`. -/
structure HandedBack (d : SourceChain κ A W) (s : SourceState κ A W) (k : κ) (h : Bytes32)
    (s' : SourceState κ A W) : Prop where
  moved : Moved d s k h s'
  stage : (s.escrows k h).mutex = some .refunded
  escrow : s'.escrows k h = (s.escrows k h).release
  callback : ∃ t canceller, (s.escrows k h).terms = some t ∧ t.factory = d.factory ∧
    d.computeAddress k h = d.computeAddress t.orderHash t.hashlock ∧
    s'.remaining = (restored s t.orderHash t.hashlock t.amount).remaining ∧
    s'.orderAmount = s.orderAmount ∧
    s'.events = (s.block.number, .cancelled (d.computeAddress k h) t.swapper t.amount canceller
      t.safetyDeposit) :: (restored s t.orderHash t.hashlock t.amount).events

theorem cancelEnd_handedBack {s s' : SourceState κ A W} {msgSender : A} {k : κ} {h : Bytes32}
    (hstage : (s.escrows k h).mutex = some .refunded)
    (hok : cancelEnd d s msgSender k h = .ok s') : HandedBack d s k h s' := by
  simp only [cancelEnd, callFactory, bind_eq_ok, cloneAt_eq_ok, EscrowSrc.initialized_eq_ok,
    pure_eq_ok] at hok
  obtain ⟨_, ⟨-, rfl⟩, t, hterms, s₁, hcall, rfl⟩ := hok
  split at hcall
  case isFalse => cases hcall
  case isTrue hfactory =>
      obtain ⟨⟨hsender, -⟩, rfl⟩ := restoreRemaining_eq_ok.mp hcall
      refine ⟨moved_setEscrow rfl rfl rfl (.release _ _ hstage .refunded), hstage, ?_, t,
        msgSender, hterms, hfactory, hsender, rfl, rfl, rfl⟩
      simp only [emit, setEscrow, update₂_self]

theorem claimStart_moved {s s' : SourceState κ A W} {k : κ} {h : Bytes32} {msgSender to_ : A}
    (hok : claimStart s k h msgSender to_ = .ok s') :
    Moved d s k h s' ∧ Uncounted s s' ∧ s'.events = s.events := by
  simp only [claimStart, bind_eq_ok, cloneAt_eq_ok, pure_eq_ok] at hok
  obtain ⟨_, ⟨-, rfl⟩, c', hclaim, rfl⟩ := hok
  obtain ⟨hfree, hpos, hle, rfl⟩ := EscrowSrc.claimStart_spec hclaim
  exact ⟨moved_setEscrow rfl rfl rfl (.claimStart _ msgSender hfree hpos hle), ⟨rfl, rfl⟩, rfl⟩

theorem claimReturn_moved {s s' : SourceState κ A W} {k : κ} {h : Bytes32} {accepted : Bool}
    (hstage : (s.escrows k h).mutex = some .claimingEth)
    (hok : claimReturn s k h accepted = .ok s') :
    Moved d s k h s' ∧ Uncounted s s' ∧ s'.events = s.events := by
  simp only [claimReturn, bind_eq_ok, cloneAt_eq_ok, pure_eq_ok] at hok
  obtain ⟨_, ⟨-, rfl⟩, c', hreturn, rfl⟩ := hok
  obtain rfl := EscrowSrc.claimReturn_spec hreturn
  exact ⟨moved_setEscrow rfl rfl rfl (.release _ _ hstage .claimingEth), ⟨rfl, rfl⟩, rfl⟩

theorem forceEth_moved {s s' : SourceState κ A W} {k : κ} {h : Bytes32} {value : Nat}
    (hok : forceEth s k h value = .ok s') :
    Moved d s k h s' ∧ Uncounted s s' ∧ s'.events = s.events := by
  simp only [forceEth, bind_eq_ok, EscrowSrc.receiveEth_eq_ok, pure_eq_ok] at hok
  obtain ⟨_, ⟨hfits, rfl⟩, rfl⟩ := hok
  exact ⟨moved_setEscrow rfl rfl rfl (.receive _ value hfits), ⟨rfl, rfl⟩, rfl⟩

/-! ## The stage a piece leaves its clone at -/

omit [DecidableEq A] in
theorem withdrawStart_mutex {s s' : SourceState κ A W} {k : κ} {h secret : Bytes32}
    (hok : withdrawStart d s k h secret = .ok s') :
    (s.escrows k h).mutex = none ∧ (s'.escrows k h).mutex = some (.withdrawing secret) := by
  simp only [withdrawStart, payOut, bind_eq_ok, cloneAt_eq_ok, pure_eq_ok] at hok
  obtain ⟨_, ⟨-, rfl⟩, ⟨c', t⟩, hstart, tokens, -, rfl⟩ := hok
  obtain ⟨⟨hfree, -⟩, rfl⟩ := EscrowSrc.withdrawStart_eq_ok.mp hstart
  exact ⟨hfree, by simp [setEscrow, EscrowSrc.withdrawing]⟩

omit [DecidableEq A] in
theorem cancelStart_mutex {s s' : SourceState κ A W} {k : κ} {h : Bytes32}
    (hok : cancelStart d s k h = .ok s') :
    (s.escrows k h).mutex = none ∧ (s'.escrows k h).mutex = some .cancelling := by
  simp only [cancelStart, payOut, bind_eq_ok, cloneAt_eq_ok, pure_eq_ok] at hok
  obtain ⟨_, ⟨-, rfl⟩, ⟨c', t⟩, hstart, tokens, -, rfl⟩ := hok
  obtain ⟨⟨hfree, -⟩, rfl⟩ := EscrowSrc.cancelStart_eq_ok.mp hstart
  exact ⟨hfree, by simp [setEscrow, EscrowSrc.cancelling]⟩

omit [Zero A] in
theorem withdrawPay_mutex {s s' : SourceState κ A W} {k : κ} {h secret : Bytes32}
    {accepted : Bool} (hok : withdrawPay s k h secret accepted = .ok s') :
    (s'.escrows k h).mutex = some (.withdrawn secret) := by
  simp only [withdrawPay, bind_eq_ok, pure_eq_ok] at hok
  obtain ⟨_, -, t, -, c', hpay, rfl⟩ := hok
  simpa [setEscrow] using (EscrowSrc.payDeposit_kept hpay).mutex

omit [Zero A] in
theorem cancelPay_mutex {s s' : SourceState κ A W} {k : κ} {h : Bytes32} {accepted : Bool}
    (hok : cancelPay s k h accepted = .ok s') : (s'.escrows k h).mutex = some .refunded := by
  simp only [cancelPay, bind_eq_ok, pure_eq_ok] at hok
  obtain ⟨_, -, t, -, c', hpay, rfl⟩ := hok
  simpa [setEscrow] using (EscrowSrc.payDeposit_kept hpay).mutex

theorem claimStart_mutex {s s' : SourceState κ A W} {k : κ} {h : Bytes32} {msgSender to_ : A}
    (hok : claimStart s k h msgSender to_ = .ok s') :
    (s.escrows k h).mutex = none ∧ (s'.escrows k h).mutex = some .claimingEth := by
  simp only [claimStart, bind_eq_ok, cloneAt_eq_ok, pure_eq_ok] at hok
  obtain ⟨_, ⟨-, rfl⟩, c', hclaim, rfl⟩ := hok
  obtain ⟨hfree, -, -, rfl⟩ := EscrowSrc.claimStart_spec hclaim
  exact ⟨hfree, by simp [setEscrow, EscrowSrc.claiming]⟩

omit [DecidableEq A] in
theorem withdrawEnd_mutex {s s' : SourceState κ A W} {k : κ} {h secret : Bytes32}
    (hok : withdrawEnd d s k h secret = .ok s') : (s'.escrows k h).mutex = none := by
  simp only [withdrawEnd, bind_eq_ok, pure_eq_ok] at hok
  obtain ⟨_, -, t, -, rfl⟩ := hok
  simp [emit, setEscrow, EscrowSrc.release]

omit [Zero A] [DecidableEq A] in
theorem claimReturn_mutex {s s' : SourceState κ A W} {k : κ} {h : Bytes32} {accepted : Bool}
    (hok : claimReturn s k h accepted = .ok s') : (s'.escrows k h).mutex = none := by
  simp only [claimReturn, bind_eq_ok, pure_eq_ok] at hok
  obtain ⟨_, -, c', hreturn, rfl⟩ := hok
  obtain rfl := EscrowSrc.claimReturn_spec hreturn
  simp [setEscrow, EscrowSrc.release]

theorem initializeAt_mutex {s s' : SourceState κ A W} {k : κ} {h : Bytes32} {msgValue : Nat}
    {args : InitArgs κ A} (hok : initializeAt d s k h msgValue args = .ok s') :
    (s'.escrows k h).mutex = (s.escrows k h).mutex := by
  obtain ⟨-, -, rfl⟩ := initializeAt_spec hok
  simp [setEscrow, EscrowSrc.opened]

omit [Zero A] [DecidableEq A] in
theorem forceEth_mutex {s s' : SourceState κ A W} {k : κ} {h : Bytes32} {value : Nat}
    (hok : forceEth s k h value = .ok s') :
    (s'.escrows k h).mutex = (s.escrows k h).mutex := by
  simp only [forceEth, bind_eq_ok, EscrowSrc.receiveEth_eq_ok, pure_eq_ok] at hok
  obtain ⟨_, ⟨-, rfl⟩, rfl⟩ := hok
  simp [setEscrow]

/-! ## The transition relation -/

/-- A piece of a body that succeeded, at the stage it was reached in, or
time that passed between transactions. `P` holds of every fill opened. -/
inductive Segment (d : SourceChain κ A W) (P : Fill κ A → Prop) :
    SourceState κ A W → SourceState κ A W → Prop
  | fillOpen {s s'} (fill : Fill κ A) (swapperSig perFillSig : Bytes) (hP : P fill)
      (h : fillOpen d s fill swapperSig perFillSig = .ok s') : Segment d P s s'
  | fillClose {s s'} (fill : Fill κ A)
      (hfilling : s.filling = some (d.hashOrder fill.order, fill.auth.hashlock))
      (hfill : (s.escrows (d.hashOrder fill.order) fill.auth.hashlock).fill = some fill)
      (h : fillClose d s fill = .ok s') : Segment d P s s'
  | initializeAt {s s'} (k : κ) (h : Bytes32) (msgValue : Nat) (args : InitArgs κ A)
      (hok : initializeAt d s k h msgValue args = .ok s') : Segment d P s s'
  | withdrawStart {s s'} (k : κ) (h secret : Bytes32)
      (hok : withdrawStart d s k h secret = .ok s') : Segment d P s s'
  | withdrawPay {s s'} (k : κ) (h secret : Bytes32) (accepted : Bool)
      (hstage : (s.escrows k h).mutex = some (.withdrawing secret))
      (hok : withdrawPay s k h secret accepted = .ok s') : Segment d P s s'
  | withdrawEnd {s s'} (k : κ) (h secret : Bytes32)
      (hstage : (s.escrows k h).mutex = some (.withdrawn secret))
      (hok : withdrawEnd d s k h secret = .ok s') : Segment d P s s'
  | cancelStart {s s'} (k : κ) (h : Bytes32) (hok : cancelStart d s k h = .ok s') :
      Segment d P s s'
  | cancelPay {s s'} (k : κ) (h : Bytes32) (accepted : Bool)
      (hstage : (s.escrows k h).mutex = some .cancelling)
      (hok : cancelPay s k h accepted = .ok s') : Segment d P s s'
  | cancelEnd {s s'} (msgSender : A) (k : κ) (h : Bytes32)
      (hstage : (s.escrows k h).mutex = some .refunded)
      (hok : cancelEnd d s msgSender k h = .ok s') : Segment d P s s'
  | claimStart {s s'} (k : κ) (h : Bytes32) (msgSender to_ : A)
      (hok : claimStart s k h msgSender to_ = .ok s') : Segment d P s s'
  | claimReturn {s s'} (k : κ) (h : Bytes32) (accepted : Bool)
      (hstage : (s.escrows k h).mutex = some .claimingEth)
      (hok : claimReturn s k h accepted = .ok s') : Segment d P s s'
  | forceEth {s s'} (k : κ) (h : Bytes32) (value : Nat) (hok : forceEth s k h value = .ok s') :
      Segment d P s s'
  | tokens (s) (f : W → W) : Segment d P s { s with tokens := f s.tokens }
  | elapse (s) (t : Elapse) (hbetween : s.filling = none) : Segment d P s (elapse t s)

theorem Segment.mono {P Q : Fill κ A → Prop} {s s' : SourceState κ A W} (hPQ : ∀ f, P f → Q f)
    (h : Segment d P s s') : Segment d Q s s' := by
  cases h with
  | fillOpen fill swapperSig perFillSig hP h =>
      exact .fillOpen fill swapperSig perFillSig (hPQ fill hP) h
  | fillClose fill hfilling hfill h => exact .fillClose fill hfilling hfill h
  | initializeAt k h msgValue args hok => exact .initializeAt k h msgValue args hok
  | withdrawStart k h secret hok => exact .withdrawStart k h secret hok
  | withdrawPay k h secret accepted hstage hok =>
      exact .withdrawPay k h secret accepted hstage hok
  | withdrawEnd k h secret hstage hok => exact .withdrawEnd k h secret hstage hok
  | cancelStart k h hok => exact .cancelStart k h hok
  | cancelPay k h accepted hstage hok => exact .cancelPay k h accepted hstage hok
  | cancelEnd msgSender k h hstage hok => exact .cancelEnd msgSender k h hstage hok
  | claimStart k h msgSender to_ hok => exact .claimStart k h msgSender to_ hok
  | claimReturn k h accepted hstage hok => exact .claimReturn k h accepted hstage hok
  | forceEth k h value hok => exact .forceEth k h value hok
  | tokens f => exact .tokens _ f
  | elapse t hbetween => exact .elapse _ t hbetween

/-- Any number of segments. -/
abbrev Segments (d : SourceChain κ A W) (P : Fill κ A → Prop) :
    SourceState κ A W → SourceState κ A W → Prop :=
  Relation.ReflTransGen (Segment d P)

theorem Segments.mono {P Q : Fill κ A → Prop} {s s' : SourceState κ A W}
    (h : Segments d P s s') (hPQ : ∀ f, P f → Q f) : Segments d Q s s' :=
  h.lift id fun _ _ hseg => hseg.mono hPQ

/-- Tokens or time moved, and nothing else; time only between transactions. -/
structure Idled (s s' : SourceState κ A W) : Prop where
  escrows : s'.escrows = s.escrows
  filling : s'.filling = s.filling
  counters : Uncounted s s'
  number : s.block.number ≤ s'.block.number
  timestamp : s.block.timestamp ≤ s'.block.timestamp
  between : s.filling = none ∨ s'.block = s.block
  events : s'.events = s.events

/-- What a segment does. -/
inductive Effect (d : SourceChain κ A W) (P : Fill κ A → Prop) (s s' : SourceState κ A W) :
    Prop
  | opened (fill : Fill κ A) (hP : P fill) (h : Opened d s fill s')
  | closed (fill : Fill κ A)
      (hfilling : s.filling = some (d.hashOrder fill.order, fill.auth.hashlock))
      (hfill : (s.escrows (d.hashOrder fill.order) fill.auth.hashlock).fill = some fill)
      (h : Closed d s fill s')
  | moved (k : κ) (h : Bytes32) (hmoved : Moved d s k h s') (hcounters : Uncounted s s')
      (hevents : s'.events = s.events)
      (hkept : (s.escrows k h).mutex = some .refunded → (s'.escrows k h).mutex = some .refunded)
  | withdrawn (k : κ) (h secret : Bytes32) (t : Terms κ A) (hmoved : Moved d s k h s')
      (hcounters : Uncounted s s') (hstage : (s.escrows k h).mutex = some (.withdrawn secret))
      (hterms : (s.escrows k h).terms = some t)
      (hescrow : s'.escrows k h = (s.escrows k h).release)
      (hevents : s'.events = (s.block.number, .withdrawn (d.computeAddress k h) t.filler secret)
        :: s.events)
  | handedBack (k : κ) (h : Bytes32) (hback : HandedBack d s k h s')
  | idled (h : Idled s s')

theorem Segment.effect {P : Fill κ A → Prop} {s s' : SourceState κ A W}
    (h : Segment d P s s') : Effect d P s s' := by
  have ofMoved : ∀ {k h}, Moved d s k h s' ∧ Uncounted s s' ∧ s'.events = s.events →
      ((s.escrows k h).mutex = some .refunded → (s'.escrows k h).mutex = some .refunded) →
      Effect d P s s' := fun ⟨hmoved, hcounters, hevents⟩ hkept =>
    .moved _ _ hmoved hcounters hevents hkept
  cases h with
  | fillOpen fill swapperSig perFillSig hP h => exact .opened fill hP (fillOpen_spec h)
  | fillClose fill hfilling hfill h => exact .closed fill hfilling hfill (fillClose_spec h)
  | initializeAt k h msgValue args hok =>
      exact ofMoved (initializeAt_moved hok) (initializeAt_mutex hok).trans
  | withdrawStart k h secret hok =>
      exact ofMoved (withdrawStart_moved hok) (by simp [(withdrawStart_mutex hok).1])
  | withdrawPay k h secret accepted hstage hok =>
      exact ofMoved (withdrawPay_moved hstage hok) (by simp [hstage])
  | withdrawEnd k h secret hstage hok =>
      obtain ⟨hmoved, hcounters, t, hterms, hescrow, hevents⟩ := withdrawEnd_moved hstage hok
      exact .withdrawn k h secret t hmoved hcounters hstage hterms hescrow hevents
  | cancelStart k h hok =>
      exact ofMoved (cancelStart_moved hok) (by simp [(cancelStart_mutex hok).1])
  | cancelPay k h accepted hstage hok =>
      exact ofMoved (cancelPay_moved hstage hok) (by simp [hstage])
  | cancelEnd msgSender k h hstage hok => exact .handedBack k h (cancelEnd_handedBack hstage hok)
  | claimStart k h msgSender to_ hok =>
      exact ofMoved (claimStart_moved hok) (by simp [(claimStart_mutex hok).1])
  | claimReturn k h accepted hstage hok =>
      exact ofMoved (claimReturn_moved hstage hok) (by simp [hstage])
  | forceEth k h value hok => exact ofMoved (forceEth_moved hok) (forceEth_mutex hok).trans
  | tokens f => exact .idled ⟨rfl, rfl, ⟨rfl, rfl⟩, Nat.le_refl _, Nat.le_refl _, .inr rfl, rfl⟩
  | elapse t hbetween =>
      exact .idled ⟨rfl, rfl, ⟨rfl, rfl⟩, Nat.le_add_right .., Nat.le_add_right .., .inl hbetween,
        rfl⟩

/-- Seen from one address, a segment deploys its clone, is a step of it, or
nothing. -/
theorem Effect.clone {P : Fill κ A → Prop} {s s' : SourceState κ A W} (h : Effect d P s s')
    (k : κ) (hl : Bytes32) :
    s'.escrows k hl = s.escrows k hl ∨
      (∃ fill, (s.escrows k hl).fill = none ∧
        s'.escrows k hl = { s.escrows k hl with fill := some fill }) ∨
      CloneStep d.keccak s.block (s.escrows k hl) (s'.escrows k hl) := by
  have ofUpdate : ∀ {k' hl' c'}, s'.escrows = update₂ s.escrows k' hl' c' →
      CloneStep d.keccak s.block (s.escrows k' hl') c' →
      s'.escrows k hl = s.escrows k hl ∨
      (∃ fill, (s.escrows k hl).fill = none ∧
        s'.escrows k hl = { s.escrows k hl with fill := some fill }) ∨
        CloneStep d.keccak s.block (s.escrows k hl) (s'.escrows k hl) := by
    intro k' hl' c' hescrows hstep
    by_cases hsame : k = k' ∧ hl = hl'
    · obtain ⟨rfl, rfl⟩ := hsame
      rw [hescrows, update₂_self]
      exact .inr (.inr hstep)
    · rw [hescrows, update₂_of_ne hsame]
      exact .inl rfl
  cases h with
  | opened fill hP h =>
      by_cases hsame : k = d.hashOrder fill.order ∧ hl = fill.auth.hashlock
      · obtain ⟨rfl, rfl⟩ := hsame
        rw [h.escrows, update₂_self]
        exact .inr (.inl ⟨fill, h.vacant, rfl⟩)
      · rw [h.escrows, update₂_of_ne hsame]
        exact .inl rfl
  | closed fill hfilling hfill h =>
      obtain ⟨held, hguards⟩ := h.guards
      exact ofUpdate h.escrows (start_step h.code hguards)
  | moved k' hl' hmoved => exact ofUpdate hmoved.escrows hmoved.step
  | withdrawn k' hl' secret t hmoved => exact ofUpdate hmoved.escrows hmoved.step
  | handedBack k' hl' hback => exact ofUpdate hback.moved.escrows hback.moved.step
  | idled h => exact .inl (by rw [h.escrows])

end SourceChain

end NeutronX.CrossChain
