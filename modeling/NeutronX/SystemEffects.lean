import NeutronX.AuctionSettlement
import NeutronX.SystemSteps

/-!
# The effects of a segment

The system's auction is the auction: it only moves by the steps of
`AuctionStep` (`segment_auction`), so solvency and the life of a
registration carry over.

About orders a segment has one of eight effects (`Effect`), and most
segments have none (`Quiet`). Every invariant about orders is a case
analysis on it.
-/

namespace NeutronX

open Evm Function

namespace System

open PartialFillReactor (OpenChunk Validated)
open FallbackExecutor (OpenFallback)
open FillAuction (AuctionStep AuctionRun terms terms_settled)

variable {κ W : Type} [DecidableEq κ] {d : Deployment κ W}

/-! ## The auction inside the system -/

omit [DecidableEq κ] in
/-- Roles, configuration and forced ETH leave registrations and the guard
alone. -/
theorem AuctionOp.frame {op : AuctionOp} {blk : Block} {a a' : AuctionState κ}
    (h : op.run blk a = .ok a') :
    a'.registrations = a.registrations ∧ a'.entered = a.entered := by
  cases op with
  | grantRole msgSender role account =>
      obtain rfl := FillAuction.grantRole_spec h
      exact ⟨rfl, rfl⟩
  | revokeRole msgSender role account =>
      obtain rfl := FillAuction.revokeRole_spec h
      exact ⟨rfl, rfl⟩
  | renounceRole msgSender role callerConfirmation =>
      obtain rfl := FillAuction.renounceRole_spec h
      exact ⟨rfl, rfl⟩
  | setStakeConfig msgSender c =>
      obtain ⟨-, hqueued | rfl⟩ := FillAuction.setStakeConfig_spec h
      · obtain ⟨effective, rfl⟩ := FillAuction.queueConfig_spec hqueued
        exact ⟨rfl, rfl⟩
      · exact ⟨rfl, rfl⟩
  | commitPending =>
      obtain rfl := FillAuction.commitPending_spec h
      exact ⟨rfl, rfl⟩
  | cancelPendingConfig msgSender =>
      obtain rfl := FillAuction.cancelPendingConfig_spec h
      exact ⟨rfl, rfl⟩
  | rollback msgSender =>
      obtain rfl := FillAuction.rollback_spec h
      exact ⟨rfl, rfl⟩
  | forceEth amount =>
      obtain ⟨-, rfl⟩ := FillAuction.forceEth_spec h
      exact ⟨rfl, rfl⟩

theorem AuctionOp.step (p : AuctionParams) {op : AuctionOp} {blk : Block}
    {a a' : AuctionState κ} (h : op.run blk a = .ok a') : AuctionStep p a a' := by
  cases op with
  | grantRole msgSender role account => exact .grantRole _ _ _ h
  | revokeRole msgSender role account => exact .revokeRole _ _ _ h
  | renounceRole msgSender role callerConfirmation => exact .renounceRole _ _ _ h
  | setStakeConfig msgSender c => exact .setStakeConfig _ _ _ h
  | commitPending => exact .commitPending _ h
  | cancelPendingConfig msgSender => exact .cancelPendingConfig _ _ h
  | rollback msgSender => exact .rollback _ _ h
  | forceEth amount => exact .forceEth _ h

/-- A segment is at most one step of the auction. -/
theorem segment_auction {s s' : World κ W} (h : Segment d s s') :
    AuctionRun (auctionParams d) s.auction s'.auction := by
  cases h with
  | register msgSender msgValue order fillAmount h =>
      obtain ⟨auction, hauction, -, -, rfl⟩ := register_spec h
      exact .single (.register _ _ _ _ _ msgSender.2 hauction)
  | chunkOpen msgSender order fillAmount c h =>
      rw [(chunkOpen_spec h).auction]
  | chunkPay msgSender info c balBefore h =>
      obtain ⟨-, -, hs'⟩ := chunkPay_spec h
      rw [hs']
  | chunkClose msgSender info fillAmount c balBefore h =>
      obtain ⟨received, hclosed⟩ := chunkClose_spec h
      exact .single (.onFillSuccess _ _ _ _ _ _ hclosed.settled)
  | fallbackOpen order router o inBalBefore h =>
      rw [(fallbackOpen_spec h).auction]
  | fallbackApprove info o balBefore h =>
      obtain ⟨-, -, hs'⟩ := fallbackApprove_spec h
      rw [hs']
  | fallbackSettle info o inBalBefore balBefore routeOk minAmountOut amountOut leftover h =>
      rw [(fallbackSettle_spec h).auction]
  | fallbackClose info o amountOut => exact .refl
  | cancelOrder msgSender info h => rw [cancelOrder_spec h]
  | invalidateNonce msgSender nonce => exact .refl
  | slash msgSender orderHash filler h =>
      obtain ⟨auction, hauction, rfl⟩ := onAuction_spec h
      exact .single (.slash _ _ _ _ _ hauction)
  | releaseRegistration orderHash filler h =>
      obtain ⟨auction, hauction, rfl⟩ := onAuction_spec h
      exact .single (.releaseRegistration _ _ _ _ hauction)
  | withdrawSend msgSender to_ h =>
      obtain ⟨auction, hauction, rfl⟩ := onAuction_spec h
      exact .single (.withdrawSend _ _ hauction)
  | withdrawReturn accepted h =>
      obtain ⟨auction, hauction, rfl⟩ := onAuction_spec h
      exact .single (.withdrawReturn _ hauction)
  | auctionOp op h =>
      obtain ⟨auction, hauction, rfl⟩ := onAuction_spec h
      exact .single (op.step _ hauction)
  | setRouterAllowed msgSender router approveTarget allowed h =>
      obtain ⟨fallback, -, -, rfl⟩ := setRouterAllowed_spec h
      exact .refl
  | tokens f => exact .refl
  | elapse t => exact .refl

theorem segments_auction {s s' : World κ W} (h : Segments d s s') :
    AuctionRun (auctionParams d) s.auction s'.auction := by
  induction h with
  | refl => exact .refl
  | tail _ hseg ih => exact ih.trans (segment_auction hseg)

theorem deployed_auction (tokens : W) (block : Block) :
    AuctionRun (auctionParams d) (FillAuction.deployed d.admin)
      (deployed d tokens block).auction := by
  refine .single (.setReactor block d.admin d.reactor ?_)
  simp [FillAuction.setReactor, FillAuction.onlyRole, FillAuction.deployed, requireCustom,
    require, d.reactor_ne_zero, FillAuction.emit, deployed, bind, Except.bind, pure, Except.pure]

/-! ## Effects on orders -/

/-- Nothing happened to orders or to the terms of registrations. -/
structure Quiet (s s' : World κ W) : Prop where
  reactor : s'.reactor = s.reactor
  trace : s'.trace = s.trace
  terms : ∀ k f, terms (s'.auction.registrations k f) = terms (s.auction.registrations k f)
  block : s.block.number ≤ s'.block.number

inductive Effect (d : Deployment κ W) (s s' : World κ W) : Prop
  | quiet (h : Quiet s s')
  | register (msgSender : Account) (msgValue : Nat) (order : SignedOrder) (fillAmount : Nat)
      (snap : DynamicStakeLib.Snapshot)
      (hok : FillAuction.RegisterOk s.block s.auction d.reactor msgValue
        (registerArgs d msgSender order.info fillAmount) snap)
      (hlive : s.reactor.cancelled (d.hashOrder order.info) = false)
      (hvalid : Validated d.toOrderAuth s.block s.reactor order)
      (hs' : s' = { s with
        auction := FillAuction.afterRegister s.block s.auction msgValue
          (registerArgs d msgSender order.info fillAmount) snap
        reactor := { s.reactor with
          orderSwapper :=
            update s.reactor.orderSwapper (d.hashOrder order.info) order.info.swapper
          orderNonce := update s.reactor.orderNonce (d.hashOrder order.info) order.info.nonce }
        trace := .orderVerified order.info order.sig :: s.trace })
  | chunkOpen (msgSender : Account) (order : SignedOrder) (fillAmount : Nat) (c : OpenChunk)
      (h : ChunkOpened d s msgSender order fillAmount s' c)
  | chunkClose (msgSender : Account) (info : OrderInfo) (fillAmount : Nat) (c : OpenChunk)
      (balBefore received : Nat)
      (h : ChunkClosed d s msgSender info fillAmount c balBefore s' received)
      (hterms : ∀ k f, terms (s'.auction.registrations k f) = terms (s.auction.registrations k f))
  | fallbackOpen (order : SignedOrder) (o : OpenFallback) (h : FallbackOpened d s order s' o)
  | fallbackSettle (info : OrderInfo) (o : OpenFallback) (balBefore amountOut leftover : Nat)
      (h : FallbackSettled d s info o balBefore s' amountOut leftover)
  | cancelOrder (msgSender : Account) (info : OrderInfo)
      (hs' : s' = { s with reactor := { s.reactor with
        cancelled := update s.reactor.cancelled (d.hashOrder info) true
        events := .orderCancelled (d.hashOrder info) msgSender :: s.reactor.events } })
  | invalidateNonce (msgSender : Account) (nonce : Uint 256)
      (hs' : s' = { s with
        reactor := PartialFillReactor.invalidateNonce s.reactor msgSender nonce })

omit [DecidableEq κ] in
/-- An auction call that leaves the registrations alone is quiet. -/
theorem Quiet.ofAuction {s : World κ W} {auction : AuctionState κ}
    (h : auction.registrations = s.auction.registrations) : Quiet s { s with auction } :=
  ⟨rfl, rfl, fun _ _ => by rw [h], Nat.le_refl _⟩

/-- **The effect of a segment.** -/
theorem segment_effect {s s' : World κ W} (h : Segment d s s') : Effect d s s' := by
  cases h with
  | register msgSender msgValue order fillAmount h =>
      obtain ⟨auction, hauction, hlive, hvalid, rfl⟩ := register_spec h
      obtain ⟨snap, hok, rfl⟩ := FillAuction.register_spec hauction
      exact .register msgSender msgValue order fillAmount snap hok hlive hvalid rfl
  | chunkOpen msgSender order fillAmount c h =>
      exact .chunkOpen msgSender order fillAmount c (chunkOpen_spec h)
  | chunkPay msgSender info c balBefore h =>
      obtain ⟨-, -, hs'⟩ := chunkPay_spec h
      rw [hs']
      exact .quiet ⟨rfl, rfl, fun _ _ => rfl, Nat.le_refl _⟩
  | chunkClose msgSender info fillAmount c balBefore h =>
      obtain ⟨received, hclosed⟩ := chunkClose_spec h
      refine .chunkClose msgSender info fillAmount c balBefore received hclosed fun k f => ?_
      obtain ⟨-, -, refund, forfeited, evs, -, -, hauction⟩ :=
        FillAuction.onFillSuccess_spec hclosed.settled
      rw [hauction]
      exact terms_settled (auctionParams d) ..
  | fallbackOpen order router o inBalBefore h =>
      exact .fallbackOpen order o (fallbackOpen_spec h)
  | fallbackApprove info o balBefore h =>
      obtain ⟨-, -, hs'⟩ := fallbackApprove_spec h
      rw [hs']
      exact .quiet ⟨rfl, rfl, fun _ _ => rfl, Nat.le_refl _⟩
  | fallbackSettle info o inBalBefore balBefore routeOk minAmountOut amountOut leftover h =>
      exact .fallbackSettle info o balBefore amountOut leftover (fallbackSettle_spec h)
  | fallbackClose info o amountOut =>
      exact .quiet ⟨rfl, rfl, fun _ _ => rfl, Nat.le_refl _⟩
  | cancelOrder msgSender info h => exact .cancelOrder msgSender info (cancelOrder_spec h)
  | invalidateNonce msgSender nonce => exact .invalidateNonce msgSender nonce rfl
  | slash msgSender orderHash filler h =>
      obtain ⟨auction, hauction, rfl⟩ := onAuction_spec h
      obtain ⟨-, -, -, rfl⟩ := FillAuction.slash_eq_ok.mp hauction
      exact .quiet ⟨rfl, rfl, terms_settled (auctionParams d) _ _ _ _, Nat.le_refl _⟩
  | releaseRegistration orderHash filler h =>
      obtain ⟨auction, hauction, rfl⟩ := onAuction_spec h
      obtain ⟨-, -, rfl⟩ :=
        (FillAuction.releaseRegistration_eq_ok (p := auctionParams d)).mp hauction
      exact .quiet ⟨rfl, rfl, terms_settled (auctionParams d) _ _ _ _, Nat.le_refl _⟩
  | withdrawSend msgSender to_ h =>
      obtain ⟨auction, hauction, rfl⟩ := onAuction_spec h
      obtain ⟨-, -, rfl⟩ := FillAuction.withdrawSend_spec hauction
      exact .quiet (.ofAuction rfl)
  | withdrawReturn accepted h =>
      obtain ⟨auction, hauction, rfl⟩ := onAuction_spec h
      obtain rfl := FillAuction.withdrawReturn_spec hauction
      exact .quiet (.ofAuction rfl)
  | auctionOp op h =>
      obtain ⟨auction, hauction, rfl⟩ := onAuction_spec h
      exact .quiet (.ofAuction (AuctionOp.frame hauction).1)
  | setRouterAllowed msgSender router approveTarget allowed h =>
      obtain ⟨fallback, -, -, rfl⟩ := setRouterAllowed_spec h
      exact .quiet ⟨rfl, rfl, fun _ _ => rfl, Nat.le_refl _⟩
  | tokens f => exact .quiet ⟨rfl, rfl, fun _ _ => rfl, Nat.le_refl _⟩
  | elapse t => exact .quiet ⟨rfl, rfl, fun _ _ => rfl, Nat.le_add_right _ _⟩

/-! ## Everything but chunks and fallbacks -/

/-- The progress of orders is left alone: at most a signature was verified. -/
structure Aside (s s' : World κ W) : Prop where
  remaining : s'.reactor.remaining = s.reactor.remaining
  cursors : s'.reactor.cursors = s.reactor.cursors
  paidOutput : s'.reactor.paidOutput = s.reactor.paidOutput
  fallbackInitiated : s'.reactor.fallbackInitiated = s.reactor.fallbackInitiated
  guarded : s'.fallback.entered = s.fallback.entered
  measuring : s'.measuring = s.measuring
  tokens : s'.tokens = s.tokens
  trace : s'.trace = s.trace ∨ ∃ info sig, s'.trace = .orderVerified info sig :: s.trace

omit [DecidableEq κ] in
theorem Aside.onAuction {s s' : World κ W}
    {f : AuctionState κ → Except Revert (AuctionState κ)}
    (h : System.onAuction s f = .ok s') : Aside s s' := by
  obtain ⟨auction, -, rfl⟩ := onAuction_spec h
  exact ⟨rfl, rfl, rfl, rfl, rfl, rfl, rfl, Or.inl rfl⟩

/-! ## What the logs say of an order -/

/-- The input and the output of a chunk of the order. -/
def chunkOf (k : κ) (e : ReactorEvent κ) : Option (Nat × Nat) :=
  match e with
  | .partialFillExecuted orderHash _ fillAmount outputAmount =>
      if orderHash = k then some (fillAmount, outputAmount) else none
  | .orderCancelled _ _ => none
  | .nonceInvalidated _ _ => none

/-- The input and the output of a fallback of the order. -/
def fallbackOf (k : κ) (e : FallbackEvent κ) : Option (Nat × Nat) :=
  match e with
  | .fallbackExecuted orderHash amountIn amountOut =>
      if orderHash = k then some (amountIn, amountOut) else none
  | .routerAllowed _ _ _ => none

/-- Newest first. -/
def chunksOf (k : κ) (s : World κ W) : List (Nat × Nat) :=
  s.reactor.events.filterMap (chunkOf k)

def fallbacksOf (k : κ) (s : World κ W) : List (Nat × Nat) :=
  s.fallback.events.filterMap (fallbackOf k)

/-- Aside, and no fill was logged. -/
structure Unlogged (s s' : World κ W) : Prop extends Aside s s' where
  chunks : ∀ k, chunksOf k s' = chunksOf k s
  fallbacks : ∀ k, fallbacksOf k s' = fallbacksOf k s

theorem Unlogged.onAuction {s s' : World κ W}
    {f : AuctionState κ → Except Revert (AuctionState κ)}
    (h : System.onAuction s f = .ok s') : Unlogged s s' := by
  refine ⟨.onAuction h, fun k => ?_, fun k => ?_⟩ <;> obtain ⟨auction, -, rfl⟩ := onAuction_spec h
  · rfl
  · rfl

/-- A relation that what happens aside without logging keeps is kept by a
body as soon as it is kept by the chunk, the fallback or the token
operation it may be. -/
theorem body_sat_of_unlogged {R : World κ W → World κ W → Prop}
    (htrans : ∀ {a b c : World κ W}, R a b → R b c → R a c)
    (haside : ∀ {s s' : World κ W}, Unlogged s s' → R s s') (l : Label κ W) (s : World κ W)
    (htokens : ∀ f, l = .tokens f → R s { s with tokens := f s.tokens })
    (hchunk : ∀ msgSender order fillAmount,
      (l = .executePartialChunk msgSender order fillAmount ∨
        ∃ data, l = .executePartialChunkWithCallback msgSender order fillAmount data) →
      ∀ data, (executePartialChunk d s msgSender order fillAmount data).Sat R s)
    (hfallback : ∀ order router routeOk minAmountOut,
      l = .executeFallback order router routeOk minAmountOut →
      (executeFallback d s order router routeOk minAmountOut).Sat R s) :
    (body d l s).Sat R s := by
  cases l with
  | register msgSender msgValue order fillAmount =>
      refine Prog.sat_attempt fun s' h => haside ?_
      obtain ⟨auction, -, -, -, rfl⟩ := register_spec h
      exact ⟨⟨rfl, rfl, rfl, rfl, rfl, rfl, rfl, Or.inr ⟨_, _, rfl⟩⟩, fun _ => rfl, fun _ => rfl⟩
  | executePartialChunk msgSender order fillAmount =>
      exact hchunk msgSender order fillAmount (Or.inl rfl) []
  | executePartialChunkWithCallback msgSender order fillAmount callbackData =>
      exact Prog.sat_attempt fun _ _ =>
        hchunk msgSender order fillAmount (Or.inr ⟨_, rfl⟩) callbackData
  | executeFallback order router routeOk minAmountOut =>
      exact hfallback order router routeOk minAmountOut rfl
  | cancelOrder msgSender info =>
      refine Prog.sat_attempt fun s' h => haside ?_
      rw [cancelOrder_spec h]
      exact ⟨⟨rfl, rfl, rfl, rfl, rfl, rfl, rfl, Or.inl rfl⟩, fun _ => rfl, fun _ => rfl⟩
  | invalidateNonce msgSender nonce =>
      exact haside
        ⟨⟨rfl, rfl, rfl, rfl, rfl, rfl, rfl, Or.inl rfl⟩, fun _ => rfl, fun _ => rfl⟩
  | slash msgSender orderHash filler =>
      exact Prog.sat_attempt fun s' h => haside (.onAuction h)
  | releaseRegistration orderHash filler =>
      exact Prog.sat_attempt fun s' h => haside (.onAuction h)
  | withdraw msgSender to_ accepted =>
      refine Prog.sat_attempt fun s₁ hsend => ?_
      intro s₂ h₂
      refine Prog.sat_attempt fun s₃ hreturn => ?_
      exact htrans (haside (.onAuction hsend)) (htrans h₂ (haside (.onAuction hreturn)))
  | auctionOp op => exact Prog.sat_attempt fun s' h => haside (.onAuction h)
  | setRouterAllowed msgSender router approveTarget allowed =>
      refine Prog.sat_attempt fun s' h => haside ?_
      obtain ⟨fallback, hentered, hevents, rfl⟩ := setRouterAllowed_spec h
      refine ⟨⟨rfl, rfl, rfl, rfl, hentered, rfl, rfl, Or.inl rfl⟩, fun _ => rfl, fun k => ?_⟩
      rw [fallbacksOf, fallbacksOf, hevents]
      rfl
  | tokens f => exact htokens f rfl

/-- A relation that what happens aside keeps is kept by a body as soon as
it is kept by the chunk, the fallback or the token operation it may be. -/
theorem body_sat_of_aside {R : World κ W → World κ W → Prop}
    (htrans : ∀ {a b c : World κ W}, R a b → R b c → R a c)
    (haside : ∀ {s s' : World κ W}, Aside s s' → R s s') (l : Label κ W) (s : World κ W)
    (htokens : ∀ f, l = .tokens f → R s { s with tokens := f s.tokens })
    (hchunk : ∀ msgSender order fillAmount,
      (l = .executePartialChunk msgSender order fillAmount ∨
        ∃ data, l = .executePartialChunkWithCallback msgSender order fillAmount data) →
      ∀ data, (executePartialChunk d s msgSender order fillAmount data).Sat R s)
    (hfallback : ∀ order router routeOk minAmountOut,
      l = .executeFallback order router routeOk minAmountOut →
      (executeFallback d s order router routeOk minAmountOut).Sat R s) :
    (body d l s).Sat R s :=
  body_sat_of_unlogged (R := R) htrans (fun h => haside h.toAside) l s htokens hchunk hfallback

end System

end NeutronX
