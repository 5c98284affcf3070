import NeutronX.InputAccounting
import NeutronX.RefundLaw

/-!
# Chunks that were executed

A call of `executePartialChunk` that succeeds opened its chunk in the state
it was called in and closed it in the state it left, whatever was called in
between (`exec_chunkCall`). The amount in both is the one the call was
given: an order anyone registered for is narrower than 128 bits, so none of
the casts on the way cuts anything off, and the amount is at most the one
the filler registered. Closing the chunk ends the registration for good
(`consumedOnce_segment`).
-/

namespace NeutronX

open Evm Function

namespace System

open PartialFillReactor (OpenChunk)
open FillAuction (AuctionRun)

variable {κ W : Type} [DecidableEq κ] {d : Deployment κ W}

/-! ## A successful call -/

/-- The chunk a call asks for. -/
def chunkCall : Label κ W → Option (Account × SignedOrder × Nat)
  | .executePartialChunk msgSender order fillAmount => some (msgSender, order, fillAmount)
  | .executePartialChunkWithCallback msgSender order fillAmount _ =>
      some (msgSender, order, fillAmount)
  | _ => none

/-- A chunk that opened in `s`, left `s₁` and closed in `s₂`. -/
structure ChunkExecuted (d : Deployment κ W) (s : World κ W) (msgSender : Account)
    (order : SignedOrder) (fillAmount : Nat) (c : OpenChunk) (s₁ s₂ s' : World κ W) : Prop where
  opened : ChunkOpened d s msgSender order fillAmount s₁ c
  between : Segments d s₁ s₂
  closed : ∃ balBefore received,
    ChunkClosed d s₂ msgSender order.info fillAmount c balBefore s' received

theorem runCalls_segments (cs : List (Call (Label κ W))) (s : World κ W) :
    Segments d s (runCalls (body d) cs s) :=
  runCalls_sat (P := fun _ => True) (fun _ => .refl) (fun h h' => h.trans h')
    (fun l _ s => body_segments l s) (callsAll_true cs)

theorem executePartialChunk_ensures (s : World κ W) (msgSender : Account) (order : SignedOrder)
    (fillAmount : Nat) (data : Bytes) :
    (executePartialChunk d s msgSender order fillAmount data).Ensures (Segments d) fun s' =>
      ∃ c s₁ s₂, ChunkExecuted d s msgSender order fillAmount c s₁ s₂ s' := by
  refine Prog.ensures_attempt fun ⟨s₁, c⟩ hopen => ?_
  refine Prog.ensures_yieldIf (fun _ => .refl) fun s₂ h₂ => ?_
  refine Prog.ensures_yieldIf (fun _ => .refl) fun s₃ h₃ => ?_
  refine Prog.ensures_attempt fun ⟨s₄, balBefore⟩ hpay => ?_
  have h₄ : Segments d s₃ s₄ := .single (.chunkPay msgSender order.info c balBefore hpay)
  refine Prog.ensures_yieldIf (fun _ => .refl) fun s₅ h₅ => ?_
  refine Prog.ensures_attempt fun s₆ hclose => ?_
  obtain ⟨received, hclosed⟩ := chunkClose_spec hclose
  exact ⟨c, s₁, s₅, chunkOpen_spec hopen, h₂.trans (h₃.trans (h₄.trans h₅)), balBefore, received,
    hclosed⟩

/-- **A successful chunk call is a chunk that opened and closed.** -/
theorem exec_chunkCall {l : Label κ W} {turns : List (List (Call (Label κ W)))}
    {s s' : World κ W} {msgSender : Account} {order : SignedOrder} {fillAmount : Nat}
    (hl : chunkCall l = some (msgSender, order, fillAmount))
    (h : exec (body d) (.mk l turns) s = .ok s') :
    ∃ c s₁ s₂, ChunkExecuted d s msgSender order fillAmount c s₁ s₂ s' := by
  have hbody : (body d l s).Ensures (Segments d) fun s' =>
      ∃ c s₁ s₂, ChunkExecuted d s msgSender order fillAmount c s₁ s₂ s' := by
    cases l with
    | executePartialChunk msgSender' order' fillAmount' =>
        obtain ⟨rfl, rfl, rfl⟩ :
            msgSender' = msgSender ∧ order' = order ∧ fillAmount' = fillAmount := by
          simpa [chunkCall] using hl
        exact executePartialChunk_ensures s _ _ _ []
    | executePartialChunkWithCallback msgSender' order' fillAmount' data =>
        obtain ⟨rfl, rfl, rfl⟩ :
            msgSender' = msgSender ∧ order' = order ∧ fillAmount' = fillAmount := by
          simpa [chunkCall] using hl
        exact Prog.ensures_attempt fun _ _ => executePartialChunk_ensures s _ _ _ data
    | _ => cases hl
  rw [exec] at h
  exact resume_ensures (fun _ => .refl) runCalls_segments hbody h

/-! ## Registrations are consumed once -/

/-- The chunks that were executed for a registration, by the reactor's
events. -/
def executions (orderHash : κ) (filler : Address) : List (ReactorEvent κ) → Nat
  | [] => 0
  | .partialFillExecuted k f _ _ :: es =>
      (if k = orderHash ∧ f = filler then 1 else 0) + executions orderHash filler es
  | .orderCancelled _ _ :: es => executions orderHash filler es
  | .nonceInvalidated _ _ :: es => executions orderHash filler es

/-- At most one chunk was executed for a registration, and then the
registration has ended. -/
structure Consumed (s : World κ W) (orderHash : κ) (filler : Address) : Prop where
  once : executions orderHash filler s.reactor.events ≤ 1
  ended : 0 < executions orderHash filler s.reactor.events →
    (s.auction.registrations orderHash filler).filler ≠ 0 ∧
    (s.auction.registrations orderHash filler).resolved = true

/-- A segment that emits nothing about the registration. -/
theorem Consumed.keep {s s' : World κ W} {orderHash : κ} {filler : Address}
    (h : Consumed s orderHash filler)
    (hauction : AuctionRun (auctionParams d) s.auction s'.auction)
    (hevents : executions orderHash filler s'.reactor.events
      = executions orderHash filler s.reactor.events) : Consumed s' orderHash filler := by
  refine ⟨by rw [hevents]; exact h.once, fun hpos => ?_⟩
  rw [hevents] at hpos
  obtain ⟨hused, hended⟩ := h.ended hpos
  have hkept := FillAuction.slotKept_run hauction hused
  refine ⟨hkept.used, ?_⟩
  rw [(hkept.ended hended).1]
  exact hended

theorem consumed_segment {s s' : World κ W} {orderHash : κ} {filler : Address}
    (hreach : AuctionRun (auctionParams d) (FillAuction.deployed d.admin) s.auction)
    (hinv : Consumed s orderHash filler) (h : Segment d s s') : Consumed s' orderHash filler := by
  have hauction := segment_auction h
  cases segment_effect h with
  | quiet h => exact hinv.keep hauction (by rw [h.reactor])
  | register msgSender msgValue order fillAmount snap hok hlive hvalid hs' =>
      subst hs'
      exact hinv.keep hauction rfl
  | chunkOpen msgSender order fillAmount c h =>
      obtain ⟨cursor, -, hreactor⟩ := h.quoted
      exact hinv.keep hauction (by rw [hreactor]; rfl)
  | chunkClose msgSender info fillAmount c balBefore received h hterms =>
      have hevents : executions orderHash filler s'.reactor.events
          = (if d.hashOrder info = orderHash ∧ (msgSender : Address) = filler then 1 else 0)
            + executions orderHash filler s.reactor.events := by
        rw [h.reactor]
        rfl
      by_cases heq : d.hashOrder info = orderHash ∧ (msgSender : Address) = filler
      · obtain ⟨rfl, rfl⟩ := heq
        rw [if_pos ⟨rfl, rfl⟩] at hevents
        obtain ⟨hopen, hused, hended⟩ := FillAuction.onFillSuccess_ends hreach h.settled
        -- an open registration was not consumed before
        have hnone : executions (d.hashOrder info) msgSender s.reactor.events = 0 := by
          by_contra hne
          have hbefore := (hinv.ended (Nat.pos_of_ne_zero hne)).2
          rw [hopen] at hbefore
          cases hbefore
        exact ⟨by omega, fun _ => ⟨hused, hended⟩⟩
      · rw [if_neg heq, Nat.zero_add] at hevents
        exact hinv.keep hauction hevents
  | fallbackOpen order o h => exact hinv.keep hauction (by rw [h.reactor])
  | fallbackSettle info o balBefore amountOut leftover h =>
      exact hinv.keep hauction (by rw [h.reactor])
  | cancelOrder msgSender info hs' =>
      subst hs'
      exact hinv.keep hauction rfl
  | invalidateNonce msgSender nonce hs' =>
      subst hs'
      exact hinv.keep hauction rfl

theorem Visited.consumed {s : World κ W} (h : Visited d s) (orderHash : κ) (filler : Address) :
    Consumed s orderHash filler :=
  h.invariant (I := fun s => Consumed s orderHash filler)
    (fun _ _ => ⟨Nat.zero_le 1, fun hpos => absurd hpos (Nat.lt_irrefl 0)⟩)
    fun hvisited hinv hseg => consumed_segment hvisited.auction hinv hseg

/-! ## Amounts -/

/-- The filler of an opened chunk registered for at least its amount, and
the input leg moves exactly this amount. -/
theorem ChunkOpened.exact {s s' : World κ W} {msgSender : Account} {order : SignedOrder}
    {fillAmount : Nat} {c : OpenChunk} (hvisited : Visited d s)
    (h : ChunkOpened d s msgSender order fillAmount s' c) :
    fillAmount ≤ (s.auction.registrations (d.hashOrder order.info) msgSender).fillAmount ∧
    d.permit2TransferFrom s.tokens d.reactor order.info.swapper msgSender fillAmount
      order.info.inputToken = .ok s'.tokens := by
  have hvalid := h.registered
  simp only [FillAuction.hasValidRegistration, decide_eq_true_eq] at hvalid
  obtain ⟨-, -, -, -, hfill, -⟩ := hvalid
  have hle : fillAmount ≤ unfilled d s order.info := h.guards.fill_le
  have hunfilled := (hvisited.inputLaw order.info).unfilled_le
  have hnarrow := h.total_lt hvisited.registered
  rw [toUint_of_lt (by omega)] at hfill
  have hpull := h.inputLeg
  rw [toUint_of_lt h.guards.fits] at hpull
  exact ⟨hfill, hpull⟩

/-- What a registration staked for: its slot keeps the amount it was made
for, and the stake this amount required then. -/
theorem registered_amount {s s' t : World κ W} {msgSender : Account} {msgValue : Nat}
    {order : SignedOrder} {fillAmount : Nat}
    (h : register d s msgSender msgValue order fillAmount = .ok s') (ht : Segments d s' t) :
    (t.auction.registrations (d.hashOrder order.info) msgSender).fillAmount = fillAmount ∧
    ∃ notional snap,
      FillAuction.notionalEth (d.oracle.map fun quote => quote s.tokens) order.info.inputToken
        order.info.feeTier fillAmount = .ok notional ∧
      DynamicStakeLib.computeRegistration s.block s.auction.config notional order.info.deadline
        = .ok snap ∧
      (t.auction.registrations (d.hashOrder order.info) msgSender).stakeAmount
        = snap.required := by
  obtain ⟨auction, hauction, -, -, rfl⟩ := register_spec h
  obtain ⟨notional, snap, hnotional, hsnap, hstake, hslots⟩ :=
    FillAuction.register_snapshot hauction
  obtain ⟨_, hok, -⟩ := FillAuction.register_spec hauction
  have hwritten : auction.registrations (d.hashOrder order.info) msgSender
      = FillAuction.newRegistration s.block (registerArgs d msgSender order.info fillAmount)
          snap := by
    rw [hslots]
    exact update₂_self _ _ _ _
  have hused : (auction.registrations (d.hashOrder order.info) msgSender).filler ≠ 0 := by
    rw [hwritten]
    exact msgSender.2
  have hkept := FillAuction.slotKept_run (segments_auction ht) hused
  have hterms := hkept.terms_eq
  rw [hwritten] at hterms
  have hfill : (t.auction.registrations (d.hashOrder order.info) msgSender).fillAmount
      = toUint 128 fillAmount := congrArg Registration.fillAmount hterms
  have hstaked : (t.auction.registrations (d.hashOrder order.info) msgSender).stakeAmount
      = toUint 128 snap.required := congrArg Registration.stakeAmount hterms
  have hfits : fillAmount < 2 ^ 128 := Nat.lt_of_le_of_lt hok.fill_le hok.total_fits
  rw [toUint_of_lt hfits] at hfill
  rw [toUint_of_lt hstake] at hstaked
  exact ⟨hfill, notional, snap, hnotional, hsnap, hstaked⟩

/-- A chunk that executed for an open registration: before, none had, and
after it one has. -/
theorem ChunkExecuted.executions_eq {s s₁ s₂ s' : World κ W} {msgSender : Account}
    {order : SignedOrder} {fillAmount : Nat} {c : OpenChunk} (hvisited : Visited d s)
    (h : ChunkExecuted d s msgSender order fillAmount c s₁ s₂ s') (hafter : Visited d s') :
    executions (d.hashOrder order.info) msgSender s.reactor.events = 0 ∧
    executions (d.hashOrder order.info) msgSender s'.reactor.events = 1 := by
  constructor
  · by_contra hne
    have hended := ((hvisited.consumed (d.hashOrder order.info) msgSender).ended
      (Nat.pos_of_ne_zero hne)).2
    have hvalid := h.opened.registered
    simp only [FillAuction.hasValidRegistration, decide_eq_true_eq] at hvalid
    simp [Registration.resolved, hvalid] at hended
  · obtain ⟨balBefore, received, hclosed⟩ := h.closed
    have honce := (hafter.consumed (d.hashOrder order.info) msgSender).once
    have hevents : executions (d.hashOrder order.info) msgSender s'.reactor.events
        = (if d.hashOrder order.info = d.hashOrder order.info ∧ (msgSender : Address) = msgSender
            then 1 else 0)
          + executions (d.hashOrder order.info) msgSender s₂.reactor.events := by
      rw [hclosed.reactor]
      rfl
    rw [if_pos ⟨rfl, rfl⟩] at hevents
    omega

/-- **Chunk amounts are exact.** In every state a run passes through: a
registration has the amount it was made and staked for; a chunk call that
succeeds, for whatever amount, executes at most the amount its filler
registered, and this same integer is what Permit2 moves and what the
auction settles; it consumes the registration, and none is consumed twice. -/
theorem chunk_amounts_exact {s : World κ W} (h : Visited d s) :
    (∀ msgSender msgValue order fillAmount s',
      register d s msgSender msgValue order fillAmount = .ok s' → ∀ t, Segments d s' t →
      (t.auction.registrations (d.hashOrder order.info) msgSender).fillAmount = fillAmount ∧
      ∃ notional snap,
        FillAuction.notionalEth (d.oracle.map fun quote => quote s.tokens)
          order.info.inputToken order.info.feeTier fillAmount = .ok notional ∧
        DynamicStakeLib.computeRegistration s.block s.auction.config notional
          order.info.deadline = .ok snap ∧
        (t.auction.registrations (d.hashOrder order.info) msgSender).stakeAmount
          = snap.required) ∧
    (∀ l turns msgSender order fillAmount s',
      chunkCall l = some (msgSender, order, fillAmount) →
      exec (body d) (.mk l turns) s = .ok s' →
      ∃ c s₁ s₂, ChunkExecuted d s msgSender order fillAmount c s₁ s₂ s' ∧
        fillAmount ≤ (s.auction.registrations (d.hashOrder order.info) msgSender).fillAmount ∧
        d.permit2TransferFrom s.tokens d.reactor order.info.swapper msgSender fillAmount
          order.info.inputToken = .ok s₁.tokens ∧
        FillAuction.onFillSuccess (auctionParams d) s₂.block s₂.auction d.reactor
          (d.hashOrder order.info) msgSender fillAmount c.currentRemaining = .ok s'.auction ∧
        executions (d.hashOrder order.info) msgSender s.reactor.events = 0 ∧
        executions (d.hashOrder order.info) msgSender s'.reactor.events = 1) ∧
    ∀ orderHash filler, executions orderHash filler s.reactor.events ≤ 1 := by
  refine ⟨?_, ?_, fun orderHash filler => (h.consumed orderHash filler).once⟩
  · intro msgSender msgValue order fillAmount s' hreg t ht
    exact registered_amount hreg ht
  · intro l turns msgSender order fillAmount s' hl hexec
    have hsegments : Segments d s s' :=
      exec_sat (P := fun _ => True) (fun _ => .refl) (fun h h' => h.trans h')
        (fun l _ s => body_segments l s) (Call.all_true _) hexec
    obtain ⟨c, s₁, s₂, hexecuted⟩ := exec_chunkCall hl hexec
    obtain ⟨hle, hpull⟩ := hexecuted.opened.exact h
    obtain ⟨balBefore, received, hclosed⟩ := hexecuted.closed
    obtain ⟨hbefore, hafter⟩ := hexecuted.executions_eq h (h.segments hsegments)
    exact ⟨c, s₁, s₂, hexecuted, hle, hpull, hclosed.settled, hbefore, hafter⟩

/-- A filler registered for 400 of an order of 1000 fills 400 of it. -/
theorem chunk_amounts_exact_partial :
    ∃ s s' : World OrderInfo Ledger,
      exec (body Ledger.deployment) (.mk (.executePartialChunk ⟨7, by decide⟩
        ⟨⟨1, 2, 1000, 3, 900, 100, 0, 0, 10 ^ 18, 0, 3000⟩, [1]⟩ 400) []) s = .ok s' ∧
      executions ⟨1, 2, 1000, 3, 900, 100, 0, 0, 10 ^ 18, 0, 3000⟩ 7 s.reactor.events = 0 ∧
      executions ⟨1, 2, 1000, 3, 900, 100, 0, 0, 10 ^ 18, 0, 3000⟩ 7 s'.reactor.events = 1 := by
  let info : OrderInfo := ⟨1, 2, 1000, 3, 900, 100, 0, 0, 10 ^ 18, 0, 3000⟩
  let filler : Account := ⟨7, by decide⟩
  let ledger : Ledger := update₂ (update₂ (fun _ _ => 0) 2 1 1000) 3 7 400
  let s := run Ledger.deployment [.call (.leaf (.register filler 80 ⟨info, [1]⟩ 400))]
    (deployed Ledger.deployment ledger ⟨10, 0⟩)
  have hs : Reachable Ledger.deployment s := ⟨_, _, _, rfl⟩
  have hreturns : Returns
      (exec (body Ledger.deployment) (.mk (.executePartialChunk filler ⟨info, [1]⟩ 400) []) s)
      (fun s' => s'.reactor.entered = false) := by
    decide +kernel
  obtain ⟨s', hexec, -⟩ := hreturns
  obtain ⟨-, hexecuted, -⟩ := chunk_amounts_exact hs.visited
  obtain ⟨c, s₁, s₂, -, -, -, -, hbefore, hafter⟩ := hexecuted _ _ _ _ _ s' rfl hexec
  exact ⟨s, s', hexec, hbefore, hafter⟩

end System

end NeutronX
