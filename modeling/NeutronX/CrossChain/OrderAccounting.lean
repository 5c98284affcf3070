import NeutronX.CrossChain.Ledger
import NeutronX.CrossChain.SourceLaw

/-!
# The accounts of a cross-chain order

The counter of an order goes down when a fill is opened and up when a
cancelled clone hands its amount back. `Accounted` is the balance of the
two: the remaining amount and what the order's clones still reserve add up
to the order, at every moment. So a clone that is about to hand its amount
back finds room for it, and the clamp and the overflow check of
`restoreRemaining` are never reached (`restore_exact`). The two counts of
events say that a hashlock is used once and handed back once.
-/

namespace NeutronX.CrossChain

open Evm Function

/-! ## Encodings -/

/-- What the callback writes reads back as what it restored. -/
theorem remaining_restored {restored orderAmount : Nat} (hpos : 0 < restored)
    (hle : restored ≤ orderAmount) (hw : orderAmount < wordSize) :
    RemainingLib.remaining (if restored = 0 then 0 else RemainingLib.pack restored) orderAmount
      = restored := by
  have hword : wordSize = maxUint 256 + 1 := by simp [wordSize, maxUint]
  rw [if_neg hpos.ne']
  by_cases hmax : restored = maxUint 256
  · -- the largest word reads as a new order, and that is what it is
    have hpack : RemainingLib.pack restored = 0 := by simp [RemainingLib.pack, hmax]
    rw [hpack, RemainingLib.remaining_zero]
    omega
  · have hzero : RemainingLib.pack restored ≠ 0 := by simp only [RemainingLib.pack]; omega
    have hfull : RemainingLib.pack restored ≠ maxUint 256 := by
      simp only [RemainingLib.pack]
      omega
    simp only [RemainingLib.remaining, hzero, hfull, if_false]
    simp only [RemainingLib.pack]
    omega

/-! ## What a clone reserves -/

namespace EscrowSrc

variable {κ A : Type}

/-- A `cancel` is under way: its callback has yet to be made. -/
def handingBack (c : EscrowSrc κ A) : Bool :=
  match c.mutex with
  | some .cancelling | some .refunded => true
  | _ => false

/-- The clone is cancelled, and its callback has been made. -/
def handedBack (c : EscrowSrc κ A) : Bool := c.cancelled && !c.handingBack

/-- The part of the order's input the clone was created with and has not
handed back. -/
def reserved (c : EscrowSrc κ A) : Nat :=
  match c.fill with
  | none => 0
  | some fill => if c.handedBack then 0 else fill.auth.fillAmount

/-- Only the end of `cancel` hands anything back. -/
theorem handedBack_step [DecidableEq A] {keccak : Bytes32 → Bytes32} {blk : Block}
    {c c' : EscrowSrc κ A} (h : CloneStep keccak blk c c')
    (hkept : c.mutex = some .refunded → c'.mutex = some .refunded) :
    c'.handedBack = c.handedBack := by
  cases h with
  | start | receive => rfl
  | withdrawStart t secret hfree hopen => simp [handedBack, withdrawing, hopen.cancelled]
  | cancelStart t hfree hopen =>
      simp [handedBack, handingBack, cancelling, hopen.cancelled]
  | pay _ t stage next payee accepted hstage hterms hpays h =>
      have hpaid := payDeposit_kept h
      cases hpays <;> simp [handedBack, handingBack, hpaid.cancelled, hstage, hpaid.mutex]
  | release stage hstage hends =>
      cases hends with
      | withdrawn => simp [handedBack, handingBack, release, hstage]
      | claimingEth => simp [handedBack, handingBack, release, hstage]
      | refunded => simp [release, hstage] at hkept
  | claimStart msgSender hfree => simp [handedBack, handingBack, claiming, hfree]

end EscrowSrc

/-! ## Counting events -/

namespace SourceEvent

variable {κ A : Type} [DecidableEq κ]

/-- The event reports a fill of `(orderHash, hashlock)`. -/
def isFilled (orderHash : κ) (hashlock : Bytes32) : SourceEvent κ A → Bool
  | .filled orderHash' hashlock' .. => decide (orderHash' = orderHash ∧ hashlock' = hashlock)
  | _ => false

/-- The event reports an amount handed back by the clone of
`(orderHash, hashlock)`. -/
def isRestored (orderHash : κ) (hashlock : Bytes32) : SourceEvent κ A → Bool
  | .remainingRestored orderHash' hashlock' .. =>
      decide (orderHash' = orderHash ∧ hashlock' = hashlock)
  | _ => false

end SourceEvent

namespace SourceChain

open EscrowSrc (CloneStep reserved handedBack)

variable {κ A W : Type} [DecidableEq κ]

def filledCount (s : SourceState κ A W) (k : κ) (h : Bytes32) : Nat :=
  s.events.countP fun e => e.2.isFilled k h

def restoredCount (s : SourceState κ A W) (k : κ) (h : Bytes32) : Nat :=
  s.events.countP fun e => e.2.isRestored k h

variable [Zero A] [DecidableEq A] {d : SourceChain κ A W}

/-- The remaining input of an order. -/
def remainingInput (d : SourceChain κ A W) (s : SourceState κ A W) (info : OrderInfo A) : Nat :=
  RemainingLib.remaining (s.remaining (d.hashOrder info)) info.inputAmount

structure Accounted (d : SourceChain κ A W) (s : SourceState κ A W) : Prop where
  /-- an order with a clone has its total on record -/
  orderAmount : ∀ info h, (s.escrows (d.hashOrder info) h).fill.isSome = true →
    s.orderAmount (d.hashOrder info) = info.inputAmount
  conserved : ∀ info : OrderInfo A,
    remainingInput d s info + total reserved (s.escrows (d.hashOrder info)) = info.inputAmount
  filled : ∀ k h, filledCount s k h =
    if (s.escrows k h).fill.isSome = true ∧ s.filling ≠ some (k, h) then 1 else 0
  restored : ∀ k h, restoredCount s k h = if (s.escrows k h).handedBack then 1 else 0

omit [DecidableEq A] in
theorem accounted_deployed (tokens : W) (block : Block) :
    Accounted d (deployed tokens block) where
  orderAmount := fun info h hsome => by simp [deployed, EscrowSrc.vacant] at hsome
  conserved := fun info => by
    have hzero : total reserved ((deployed tokens block : SourceState κ A W).escrows
        (d.hashOrder info)) = 0 := total_const_zero fun _ => rfl
    rw [hzero, remainingInput]
    simp [deployed]
  filled := fun k h => by simp [deployed, filledCount, EscrowSrc.vacant]
  restored := fun k h => by simp [deployed, restoredCount, EscrowSrc.vacant, handedBack]

/-! ## What each effect does to the accounts -/

/-- What the accounts of every order read off a state is the same. -/
structure SameAccounts (s s' : SourceState κ A W) : Prop where
  counters : Uncounted s s'
  fill : ∀ k h, (s'.escrows k h).fill = (s.escrows k h).fill
  handedBack : ∀ k h, (s'.escrows k h).handedBack = (s.escrows k h).handedBack
  restored : ∀ k h, restoredCount s' k h = restoredCount s k h

omit [Zero A] [DecidableEq A] in
theorem SameAccounts.total {s s' : SourceState κ A W} (h : SameAccounts s s') (k : κ) :
    total reserved (s'.escrows k) = total reserved (s.escrows k) := by
  have hsame : (fun hl => reserved (s'.escrows k hl)) = fun hl => reserved (s.escrows k hl) := by
    funext hl
    simp only [reserved, h.fill, h.handedBack]
  simp only [Evm.total, hsame]

omit [DecidableEq A] in
/-- Only the count of fills is left to check. -/
theorem SameAccounts.accounted {s s' : SourceState κ A W} (h : SameAccounts s s')
    (hacc : Accounted d s)
    (hfilled : ∀ k hl, filledCount s' k hl =
      if (s.escrows k hl).fill.isSome = true ∧ s'.filling ≠ some (k, hl) then 1 else 0) :
    Accounted d s' where
  orderAmount := fun info hl hsome => by
    rw [h.counters.orderAmount]
    exact hacc.orderAmount info hl (by rwa [h.fill] at hsome)
  conserved := fun info => by
    rw [remainingInput, h.counters.remaining, h.total]
    exact hacc.conserved info
  filled := fun k hl => by rw [hfilled, h.fill]
  restored := fun k hl => by rw [h.restored, h.handedBack, hacc.restored]

omit [Zero A] [DecidableEq A] in
/-- An event that reports neither a fill nor a restored amount. -/
theorem counts_cons {s s' : SourceState κ A W} {n : Nat} {e : SourceEvent κ A}
    (hevents : s'.events = (n, e) :: s.events) (hfilled : ∀ k h, e.isFilled k h = false)
    (hrestored : ∀ k h, e.isRestored k h = false) (k : κ) (h : Bytes32) :
    filledCount s' k h = filledCount s k h ∧ restoredCount s' k h = restoredCount s k h := by
  simp [filledCount, restoredCount, hevents, hfilled, hrestored]

/-- A step of one clone that is not the end of its cancellation. -/
theorem accounted_moved {s s' : SourceState κ A W} {k : κ} {h : Bytes32}
    (hacc : Accounted d s) (hmoved : Moved d s k h s') (hcounters : Uncounted s s')
    (hkept : (s.escrows k h).mutex = some .refunded → (s'.escrows k h).mutex = some .refunded)
    (hcounts : ∀ k h,
      filledCount s' k h = filledCount s k h ∧ restoredCount s' k h = restoredCount s k h) :
    Accounted d s' := by
  have hsame : SameAccounts s s' := by
    refine ⟨hcounters, fun k' h' => ?_, fun k' h' => ?_, fun k' h' => (hcounts k' h').2⟩ <;>
      rw [hmoved.escrows] <;> by_cases hown : k' = k ∧ h' = h
    · obtain ⟨rfl, rfl⟩ := hown
      rw [update₂_self, hmoved.step.fill]
    · rw [update₂_of_ne hown]
    · obtain ⟨rfl, rfl⟩ := hown
      rw [update₂_self, EscrowSrc.handedBack_step hmoved.step hkept]
    · rw [update₂_of_ne hown]
  refine hsame.accounted hacc fun k' h' => ?_
  rw [(hcounts k' h').1, hacc.filled, hmoved.filling]

omit [DecidableEq A] in
theorem accounted_idled {s s' : SourceState κ A W} (hacc : Accounted d s) (hi : Idled s s') :
    Accounted d s' := by
  have hsame : SameAccounts s s' :=
    ⟨hi.counters, fun k h => by rw [hi.escrows], fun k h => by rw [hi.escrows],
      fun k h => by rw [restoredCount, hi.events, restoredCount]⟩
  refine hsame.accounted hacc fun k h => ?_
  rw [filledCount, hi.events, hi.filling]
  exact hacc.filled k h

omit [DecidableEq A] in
theorem accounted_closed {s s' : SourceState κ A W} {fill : Fill κ A} (hacc : Accounted d s)
    (hfilling : s.filling = some (d.hashOrder fill.order, fill.auth.hashlock))
    (hc : Closed d s fill s') : Accounted d s' := by
  have hsame : SameAccounts s s' := by
    refine ⟨hc.counters, fun k h => ?_, fun k h => ?_, fun k h => ?_⟩
    · rw [hc.escrows, update₂_apply]
      split
      case isTrue hown => rw [hown.1, hown.2]; rfl
      case isFalse => rfl
    · rw [hc.escrows, update₂_apply]
      split
      case isTrue hown => rw [hown.1, hown.2]; rfl
      case isFalse => rfl
    · simp [restoredCount, hc.events, SourceEvent.isRestored]
  refine hsame.accounted hacc fun k h => ?_
  have hold := hacc.filled k h
  simp only [filledCount, hc.events, List.countP_cons, SourceEvent.isFilled, hc.filling] at hold ⊢
  rw [hold, hfilling]
  by_cases hown : d.hashOrder fill.order = k ∧ fill.auth.hashlock = h
  · obtain ⟨rfl, rfl⟩ := hown
    simp [hc.code]
  · simp [hown]

omit [Zero A] [DecidableEq A] in
/-- Writing one clone of an order moves what the order's clones reserve. -/
theorem total_reserved_update {s s' : SourceState κ A W} {k : κ} {h : Bytes32}
    {c' : EscrowSrc κ A} (hescrows : s'.escrows = update₂ s.escrows k h c') :
    total reserved (s'.escrows k) + (s.escrows k h).reserved
      = total reserved (s.escrows k) + c'.reserved := by
  have hrow : s'.escrows k = update (s.escrows k) h c' := by simp [hescrows, update₂]
  rw [hrow]
  exact total_update reserved (s.escrows k) h c'

omit [Zero A] [DecidableEq A] in
theorem escrows_other {s s' : SourceState κ A W} {k k' : κ} {h : Bytes32}
    {c' : EscrowSrc κ A} (hescrows : s'.escrows = update₂ s.escrows k h c') (hne : k' ≠ k) :
    s'.escrows k' = s.escrows k' := by
  funext hl
  rw [hescrows, update₂_of_ne fun heq => hne heq.1]

theorem accounted_opened {s s' : SourceState κ A W} {fill : Fill κ A} (hlaw : SourceLaw d s)
    (hacc : Accounted d s) (ho : Opened d s fill s') : Accounted d s' := by
  obtain ⟨-, huntouched⟩ := hlaw.untouched ho.vacant
  have hword : (fill.order.inputAmount : Nat) < wordSize := fill.order.inputAmount.isLt
  have hfresh : (s.escrows (d.hashOrder fill.order) fill.auth.hashlock).reserved = 0 := by
    simp [reserved, ho.vacant]
  have hback : ∀ k h, (s'.escrows k h).handedBack = (s.escrows k h).handedBack := by
    intro k h
    rw [ho.escrows, update₂_apply]
    split
    case isTrue hown => rw [hown.1, hown.2]; rfl
    case isFalse => rfl
  refine ⟨fun info h hsome => ?_, fun info => ?_, fun k h => ?_, fun k h => ?_⟩
  · by_cases hinfo : info = fill.order
    · subst hinfo
      rw [ho.orderAmount, update_self]
    · have hne : d.hashOrder info ≠ d.hashOrder fill.order := fun heq =>
        hinfo (d.hashOrder_injective heq)
      rw [ho.orderAmount, update_of_ne hne]
      rw [escrows_other ho.escrows hne] at hsome
      exact hacc.orderAmount info h hsome
  · by_cases hinfo : info = fill.order
    · subst hinfo
      have htotal := total_reserved_update ho.escrows
      have hopened : EscrowSrc.reserved
          { s.escrows (d.hashOrder fill.order) fill.auth.hashlock with fill := some fill }
          = fill.auth.fillAmount := by
        simp [reserved, handedBack, huntouched.cancelled]
      have hbefore := hacc.conserved fill.order
      have havailable := ho.available
      simp only [remainingInput] at hbefore ⊢
      rw [ho.remaining, update_self, RemainingLib.remaining_store_sub hword]
      omega
    · have hne : d.hashOrder info ≠ d.hashOrder fill.order := fun heq =>
        hinfo (d.hashOrder_injective heq)
      rw [remainingInput, ho.remaining, update_of_ne hne, escrows_other ho.escrows hne]
      exact hacc.conserved info
  · have hold := hacc.filled k h
    simp only [filledCount, ho.events] at hold ⊢
    rw [hold, ho.filling, ho.free, ho.escrows, update₂_apply]
    by_cases hown : k = d.hashOrder fill.order ∧ h = fill.auth.hashlock
    · obtain ⟨rfl, rfl⟩ := hown
      simp [ho.vacant]
    · have hne : some (d.hashOrder fill.order, fill.auth.hashlock) ≠ some (k, h) := fun heq =>
        hown ⟨(Prod.mk.inj (Option.some.inj heq)).1.symm,
          (Prod.mk.inj (Option.some.inj heq)).2.symm⟩
      simp [hown, hne]
  · rw [restoredCount, ho.events, hback]
    exact hacc.restored k h

/-! ## The callback -/

omit [DecidableEq κ] [DecidableEq A] in
/-- A clone at its callback is cancelled. -/
theorem SourceLaw.cancelled_of_refunded {s : SourceState κ A W} (hlaw : SourceLaw d s) {k : κ}
    {h : Bytes32} (hstage : (s.escrows k h).mutex = some .refunded) :
    (s.escrows k h).cancelled = true := by
  obtain ⟨t, hterms⟩ := (hlaw.clone k h).terms_of_mutex hstage
  cases (hlaw.clone k h).standing t hterms with
  | unsettled _ _ _ _ hidle => simp [EscrowSrc.Idle, hstage] at hidle
  | withdrawn _ _ _ _ _ _ _ hdeposit =>
      simp [EscrowSrc.DepositFollows, EscrowSrc.Idle, hstage] at hdeposit
  | cancelled _ _ hcancelled => exact hcancelled

/-- **Neither the clamp nor an overflow.** A clone that is about to call
back has its amount still reserved, so the callback succeeds and adds
exactly that amount, which fits the order. -/
theorem restore_exact {s : SourceState κ A W} {k : κ} {h : Bytes32} (hlaw : SourceLaw d s)
    (hacc : Accounted d s) (hstage : (s.escrows k h).mutex = some .refunded) :
    ∃ fill, (s.escrows k h).fill = some fill ∧
      (s.escrows k h).terms = some (termsOf d fill) ∧
      remainingInput d s fill.order + fill.auth.fillAmount ≤ fill.order.inputAmount ∧
      restoreRemaining d s (d.computeAddress k h) k h fill.auth.fillAmount
        = .ok (restored s k h fill.auth.fillAmount) ∧
      remainingInput d (restored s k h fill.auth.fillAmount) fill.order
        = remainingInput d s fill.order + fill.auth.fillAmount := by
  have hcancelled := hlaw.cancelled_of_refunded hstage
  obtain ⟨fill, hfill, hgenuine⟩ := hlaw.genuine_of_cancelled hcancelled
  obtain ⟨rfl, rfl, hauth⟩ := hlaw.fill k h fill hfill
  have hreserved : (s.escrows (d.hashOrder fill.order) fill.auth.hashlock).reserved
      = fill.auth.fillAmount := by
    simp [reserved, hfill, handedBack, EscrowSrc.handingBack, hstage]
  have hle := le_total reserved (s.escrows (d.hashOrder fill.order)) fill.auth.hashlock
  have hconserved := hacc.conserved fill.order
  have hamount := hacc.orderAmount fill.order fill.auth.hashlock (by simp [hfill])
  have hword : (fill.order.inputAmount : Nat) < wordSize := fill.order.inputAmount.isLt
  have hfits : remainingInput d s fill.order + fill.auth.fillAmount ≤ fill.order.inputAmount := by
    omega
  have hamounts : restoredAmount s (d.hashOrder fill.order) fill.auth.fillAmount
      = remainingInput d s fill.order + fill.auth.fillAmount := by
    simp only [restoredAmount, hamount, remainingInput] at hfits ⊢
    omega
  refine ⟨fill, hfill, hgenuine, hfits, restoreRemaining_eq_ok.mpr ⟨⟨rfl, ?_⟩, rfl⟩, ?_⟩
  · rw [hamount]
    exact Nat.lt_of_le_of_lt hfits hword
  · have hpos := hauth.fillAmount_pos
    simp only [restored, emit, remainingInput, update_self]
    rw [hamounts]
    exact remaining_restored (Nat.add_pos_right _ hpos) hfits hword

theorem accounted_handedBack {s s' : SourceState κ A W} {k : κ} {h : Bytes32}
    (hlaw : SourceLaw d s) (hacc : Accounted d s) (hback : HandedBack d s k h s') :
    Accounted d s' := by
  obtain ⟨fill, hfill, hgenuine, hfits, -, hsum⟩ := restore_exact hlaw hacc hback.stage
  obtain ⟨t, canceller, hterms, -, -, hremaining, hamount, hevents⟩ := hback.callback
  obtain rfl : t = termsOf d fill := Option.some.inj (hterms.symm.trans hgenuine)
  obtain ⟨rfl, rfl, -⟩ := hlaw.fill k h fill hfill
  have hcancelled := hlaw.cancelled_of_refunded hback.stage
  have hescrows : s'.escrows = update₂ s.escrows (d.hashOrder fill.order) fill.auth.hashlock
      (s.escrows (d.hashOrder fill.order) fill.auth.hashlock).release := by
    rw [hback.moved.escrows, hback.escrow]
  have hbefore : (s.escrows (d.hashOrder fill.order) fill.auth.hashlock).handedBack = false := by
    simp [handedBack, EscrowSrc.handingBack, hback.stage]
  have hafter : (s.escrows (d.hashOrder fill.order) fill.auth.hashlock).release.handedBack
      = true := by
    simp [handedBack, EscrowSrc.handingBack, EscrowSrc.release, hcancelled]
  have hfillsame : ∀ k h, (s'.escrows k h).fill = (s.escrows k h).fill := by
    intro k h
    rw [hescrows, update₂_apply]
    split
    case isTrue hown => rw [hown.1, hown.2]; rfl
    case isFalse => rfl
  refine ⟨fun info h hsome => ?_, fun info => ?_, fun k h => ?_, fun k h => ?_⟩
  · rw [hamount]
    exact hacc.orderAmount info h (by rwa [hfillsame] at hsome)
  · by_cases hinfo : info = fill.order
    · subst hinfo
      have htotal := total_reserved_update hescrows
      have hreserved : (s.escrows (d.hashOrder fill.order) fill.auth.hashlock).reserved
          = fill.auth.fillAmount := by
        simp [reserved, hfill, hbefore]
      have hnone : (s.escrows (d.hashOrder fill.order) fill.auth.hashlock).release.reserved
          = 0 := by
        unfold reserved
        split
        · rfl
        · rw [if_pos hafter]
      have hconserved := hacc.conserved fill.order
      have hread : remainingInput d s' fill.order
          = remainingInput d s fill.order + fill.auth.fillAmount := by
        rw [← hsum, remainingInput, hremaining]
        rfl
      omega
    · have hne : d.hashOrder info ≠ d.hashOrder fill.order := fun heq =>
        hinfo (d.hashOrder_injective heq)
      have hread : s'.remaining (d.hashOrder info) = s.remaining (d.hashOrder info) := by
        rw [hremaining]
        exact update_of_ne hne _ _
      rw [remainingInput, hread, escrows_other hescrows hne]
      exact hacc.conserved info
  · have hold := hacc.filled k h
    simp only [filledCount, hevents, restored, emit, List.countP_cons, SourceEvent.isFilled,
      hback.moved.filling, hfillsame] at hold ⊢
    simpa using hold
  · have hold := hacc.restored k h
    simp only [restoredCount, hevents, restored, emit, List.countP_cons,
      SourceEvent.isRestored] at hold ⊢
    rw [hold, hescrows, update₂_apply]
    by_cases hown : k = d.hashOrder fill.order ∧ h = fill.auth.hashlock
    · obtain ⟨rfl, rfl⟩ := hown
      simp [hbefore, hafter, termsOf, initArgs]
    · have hne : ¬(d.hashOrder fill.order = k ∧ fill.auth.hashlock = h) := fun heq =>
        hown ⟨heq.1.symm, heq.2.symm⟩
      simp [hown, hne, termsOf, initArgs]

/-- **Every segment keeps the accounts.** -/
theorem accounted_step {P : Fill κ A → Prop} {s s' : SourceState κ A W} (hlaw : SourceLaw d s)
    (hacc : Accounted d s) (h : Segment d P s s') : Accounted d s' := by
  cases h.effect with
  | opened fill hP ho => exact accounted_opened hlaw hacc ho
  | closed fill hfilling hfill hc => exact accounted_closed hacc hfilling hc
  | moved k h hmoved hcounters hevents hkept =>
      exact accounted_moved hacc hmoved hcounters hkept fun k h => by
        simp only [filledCount, restoredCount, hevents, and_self]
  | withdrawn k h secret t hmoved hcounters hstage hterms hescrow hevents =>
      exact accounted_moved hacc hmoved hcounters (by simp [hstage])
        (counts_cons hevents (fun _ _ => rfl) fun _ _ => rfl)
  | handedBack k h hback => exact accounted_handedBack hlaw hacc hback
  | idled hi => exact accounted_idled hacc hi

theorem Moment.accounted {s : SourceState κ A W} (h : Moment d s) : Accounted d s :=
  (h.invariant (I := fun s => SourceLaw d s ∧ Accounted d s)
    (fun tokens block => ⟨sourceLaw_deployed tokens block, accounted_deployed tokens block⟩)
    fun hs hseg => ⟨sourceLaw_step hs.1 hseg, accounted_step hs.1 hs.2 hseg⟩).2

/-! ## Overflow -/

omit [DecidableEq κ] [DecidableEq A] in
/-- The stake computation only overflows where the price source does. -/
theorem requiredStake_arithmetic {s : SourceState κ A W} {fillAmount feeTier t1 : Nat}
    {inputToken : A}
    (h : requiredStake d s fillAmount inputToken feeTier t1 = .error (.panic .arithmetic)) :
    notionalEth d s inputToken fillAmount feeTier = .error (.panic .arithmetic) := by
  have getAt_ne : ∀ (xs : List Nat) (i : Nat), getAt xs i ≠ .error (.panic .arithmetic) := by
    intro xs i
    unfold getAt
    split <;> simp
  have mulDiv_ne : ∀ a b c : Nat, mulDiv a b c ≠ .error (.panic .arithmetic) := by
    intro a b c
    unfold mulDiv
    split <;> simp
  simpa [requiredStake, DynamicStakeLib.requiredStakeByTimestamp, DynamicStakeLib.requiredStake,
    DynamicStakeLib.computeCollateral, bind_eq_error, getAt_ne, mulDiv_ne, pure, Except.pure]
    using h

/-- The subtraction of a fill never underflows: an arithmetic panic of
`fillSlot` comes out of the price source or of Permit2. -/
theorem fillOpen_arithmetic {s : SourceState κ A W} {fill : Fill κ A}
    {swapperSig perFillSig : Bytes}
    (h : fillOpen d s fill swapperSig perFillSig = .error (.panic .arithmetic)) :
    notionalEth d s fill.order.inputToken fill.auth.fillAmount fill.order.feeTier
        = .error (.panic .arithmetic) ∨
      d.permit2TransferFrom s.tokens d.factory fill.order.swapper
        (d.computeAddress (d.hashOrder fill.order) fill.auth.hashlock)
        (toUint 160 fill.auth.fillAmount) fill.order.inputToken = .error (.panic .arithmetic) := by
  have custom_ne : ∀ (c : Prop) [Decidable c] (name : String),
      requireCustom c name ≠ .error (.panic .arithmetic) := fun c _ name => by
    by_cases hc : c <;> simp [requireCustom, hc]
  have sig_ne : ∀ (k : κ) (sig : Bytes) (a : A),
      verifySig d k sig a ≠ .error (.panic .arithmetic) := fun k sig a => by
    unfold verifySig
    split
    · simp
    · exact require_ne_panic
  have guard_ne : ∀ entered : Bool, nonReentrant entered ≠ .error (.panic .arithmetic) :=
    fun entered => custom_ne _ _
  simp only [fillOpen, deployClone, bind_eq_error, require_ne_panic, custom_ne, sig_ne, guard_ne,
    false_or, require_eq_ok, pure, Except.pure, reduceCtorEq, and_false, exists_false,
    or_false] at h
  obtain ⟨_, -, _, -, _, -, _, -, _, -, _, -, _, -, _, -, _, -, _, -, _, havailable, h⟩ := h
  rcases h with hsub | ⟨_, -, hstake | ⟨_, -, _, -, h⟩⟩
  · simp [checkedSub, havailable] at hsub
  · exact .inl (requiredStake_arithmetic hstake)
  · obtain ⟨s₁, hdeploy, hpull⟩ := h
    simp only [bind_eq_ok, requireCustom_eq_ok, Except.ok.injEq] at hdeploy
    obtain ⟨_, -, rfl⟩ := hdeploy
    exact .inr hpull

/-! ## The accounts of an order -/

/-- The amount of a clone that has not been cancelled. -/
def uncancelled (c : EscrowSrc κ A) : Nat :=
  match c.terms with
  | none => 0
  | some t => if c.cancelled then 0 else t.amount

/-- What holds of an order at every moment, also inside a transaction. -/
structure OrderLaw (d : SourceChain κ A W) (s : SourceState κ A W) (info : OrderInfo A) :
    Prop where
  /-- a clone that calls back finds room for its amount: no clamp, no overflow -/
  callback : ∀ h, (s.escrows (d.hashOrder info) h).mutex = some .refunded →
    ∃ t, (s.escrows (d.hashOrder info) h).terms = some t ∧
      remainingInput d s info + t.amount ≤ info.inputAmount ∧
      ∃ s', callFactory d s (d.computeAddress (d.hashOrder info) h) t = .ok s' ∧
        remainingInput d s' info = remainingInput d s info + t.amount
  /-- nor does a fill overflow anything but what it calls -/
  fill : ∀ auth filler bond swapperSig perFillSig,
    fillOpen d s ⟨info, auth, filler, bond⟩ swapperSig perFillSig
        = .error (.panic .arithmetic) →
      notionalEth d s info.inputToken auth.fillAmount info.feeTier
          = .error (.panic .arithmetic) ∨
        d.permit2TransferFrom s.tokens d.factory info.swapper
          (d.computeAddress (d.hashOrder info) auth.hashlock) (toUint 160 auth.fillAmount)
          info.inputToken = .error (.panic .arithmetic)
  /-- only the clone of the hashlock restores, and no account that is not a clone -/
  clone : ∀ k h hashlock amount s',
    restoreRemaining d s (d.computeAddress k h) (d.hashOrder info) hashlock amount = .ok s' →
      k = d.hashOrder info ∧ h = hashlock
  outsider : ∀ (a : Outsider d) hashlock amount s',
    restoreRemaining d s a (d.hashOrder info) hashlock amount ≠ .ok s'
  /-- a hashlock with a clone is spent -/
  spent : ∀ auth, (s.escrows (d.hashOrder info) auth.hashlock).fill.isSome = true →
    ∀ filler bond swapperSig perFillSig s',
      fillOpen d s ⟨info, auth, filler, bond⟩ swapperSig perFillSig ≠ .ok s'
  filledOnce : ∀ h, filledCount s (d.hashOrder info) h ≤ 1
  restoredOnce : ∀ h, restoredCount s (d.hashOrder info) h ≤ 1
  /-- what was restored was restored for a cancelled clone of the order -/
  restoredFor : ∀ h, 0 < restoredCount s (d.hashOrder info) h →
    ∃ fill, (s.escrows (d.hashOrder info) h).fill = some fill ∧ fill.order = info ∧
      (s.escrows (d.hashOrder info) h).terms = some (termsOf d fill) ∧
      (s.escrows (d.hashOrder info) h).cancelled = true

theorem Moment.orderLaw {s : SourceState κ A W} (hmoment : Moment d s) (info : OrderInfo A) :
    OrderLaw d s info := by
  have hlaw := hmoment.law
  have hacc := hmoment.accounted
  refine ⟨fun h hstage => ?_, fun auth filler bond swapperSig perFillSig hpanic =>
    fillOpen_arithmetic hpanic, fun k h hashlock amount s' hok => ?_,
    fun a hashlock amount s' hok => ?_, fun auth hcode filler bond swapperSig perFillSig s' hok =>
      ?_, fun h => ?_, fun h => ?_, fun h hcount => ?_⟩
  · obtain ⟨fill, hfill, hterms, hfits, hok, hsum⟩ := restore_exact hlaw hacc hstage
    obtain ⟨horder, rfl, -⟩ := hlaw.fill _ h fill hfill
    obtain rfl := d.hashOrder_injective horder
    exact ⟨_, hterms, hfits, _, by simpa [callFactory, termsOf, initArgs] using hok, hsum⟩
  · obtain ⟨⟨hsender, -⟩, -⟩ := restoreRemaining_eq_ok.mp hok
    exact d.computeAddress_injective hsender
  · obtain ⟨⟨hsender, -⟩, -⟩ := restoreRemaining_eq_ok.mp hok
    exact a.2.2 _ _ hsender.symm
  · have hvacant := (fillOpen_spec hok).vacant
    simp [hvacant] at hcode
  · rw [hacc.filled]
    split <;> omega
  · rw [hacc.restored]
    split <;> omega
  · have hback : (s.escrows (d.hashOrder info) h).handedBack = true := by
      rw [hacc.restored] at hcount
      by_contra hfalse
      simp [hfalse] at hcount
    have hcancelled : (s.escrows (d.hashOrder info) h).cancelled = true := by
      simp only [handedBack, Bool.and_eq_true] at hback
      exact hback.1
    obtain ⟨fill, hfill, hterms⟩ := hlaw.genuine_of_cancelled hcancelled
    exact ⟨fill, hfill, d.hashOrder_injective (hlaw.fill _ h fill hfill).orderHash, hterms,
      hcancelled⟩

/-- **Cross-chain order accounting.** After every run the order's input is
what remains of it plus the amounts of its clones that were not cancelled;
and at every moment of every run the callback of a cancelled clone is
exact, no amount overflows, only the clone of a hashlock restores, once,
and a hashlock funds one clone. -/
theorem order_accounted {s : SourceState κ A W} (hs : Reachable d s) (info : OrderInfo A) :
    remainingInput d s info + total uncancelled (s.escrows (d.hashOrder info))
        = info.inputAmount ∧
      ∀ s₁, Moment d s₁ → OrderLaw d s₁ info := by
  refine ⟨?_, fun s₁ hs₁ => hs₁.orderLaw info⟩
  obtain ⟨hmoment, hbetween⟩ := hs.moment
  have hlaw := hmoment.law
  have hsame : ∀ h, uncancelled (s.escrows (d.hashOrder info) h)
      = reserved (s.escrows (d.hashOrder info) h) := by
    intro h
    have hidle : (s.escrows (d.hashOrder info) h).handingBack = false := by
      simp [EscrowSrc.handingBack, hbetween.free]
    cases hfill : (s.escrows (d.hashOrder info) h).fill with
    | none => simp [uncancelled, reserved, hfill, (hlaw.untouched hfill).1]
    | some fill =>
        have hterms := hlaw.genuine _ h fill (by simp [hbetween.filling]) hfill
        simp [uncancelled, reserved, hfill, hterms, handedBack, hidle, termsOf, initArgs]
  have hconserved := hmoment.accounted.conserved info
  rwa [show total uncancelled (s.escrows (d.hashOrder info))
    = total reserved (s.escrows (d.hashOrder info)) from
      Finset.sum_congr rfl fun h _ => hsame h]

/-- A clone of 40 is cancelled after its expiry and a clone of 100 takes all
of the order: 100 = 0 + (0 + 100). -/
theorem order_accounted_refilled :
    ∃ s, Reachable Ledger.sourceChain s ∧
      restoredCount s (⟨2, 4, 100, 6, 90, 1000, 0, 3000⟩ : OrderInfo Nat) 8 = 1 ∧
      remainingInput Ledger.sourceChain s ⟨2, 4, 100, 6, 90, 1000, 0, 3000⟩ = 0 ∧
      remainingInput Ledger.sourceChain s ⟨2, 4, 100, 6, 90, 1000, 0, 3000⟩ +
        total uncancelled (s.escrows ⟨2, 4, 100, 6, 90, 1000, 0, 3000⟩) = 100 := by
  let info : OrderInfo Nat := ⟨2, 4, 100, 6, 90, 1000, 0, 3000⟩
  let filler := Ledger.outsider 7 (by decide)
  let s := run Ledger.sourceChain
    [.call (.leaf (.fillSlot filler 8 info [1] ⟨info, 8, 40, 100, 200⟩ [1])),
     .tick ⟨10, 101⟩,
     .call (.leaf (.cancel filler info 8 true)),
     .call (.leaf (.fillSlot filler 20 info [1] ⟨info, 9, 100, 300, 400⟩ [1]))]
    (deployed (update₂ (fun _ _ => 0) 4 2 100) ⟨1, 0⟩)
  have hs : Reachable Ledger.sourceChain s := ⟨_, _, _, rfl⟩
  exact ⟨s, hs, by decide +kernel, by decide +kernel, (order_accounted hs info).1⟩

end SourceChain

end NeutronX.CrossChain
