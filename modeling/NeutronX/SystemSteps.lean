import NeutronX.AuctionSteps
import NeutronX.ReactorSteps
import NeutronX.System

/-!
# What the system can do

The pieces of the bodies are the transitions of the system: `Segment`
lists them, each with the equation that it succeeded. Whatever a call
tree does is a sequence of segments (`run_segments`), so a fact about all
states of all runs, the middle of a transaction included, is an induction
over segments; facts that tie the pieces of one body together use the
rule for call trees directly.

Before the list, one lemma for each piece says what it did to the world.
-/

namespace NeutronX

open Evm Function

namespace System

open PartialFillReactor (OpenChunk ChunkGuards ChunkQuoted Validated)
open FallbackExecutor (OpenFallback FallbackGuards)

variable {κ W : Type} [DecidableEq κ] {d : Deployment κ W}

/-! ## One spec lemma for each piece -/

theorem register_spec {s s' : World κ W} {msgSender : Account} {msgValue : Nat}
    {order : SignedOrder} {fillAmount : Nat}
    (h : register d s msgSender msgValue order fillAmount = .ok s') :
    ∃ auction,
      FillAuction.register (d.oracle.map fun quote => quote s.tokens) s.block s.auction d.reactor
        msgValue (registerArgs d msgSender order.info fillAmount) = .ok auction ∧
      s.reactor.cancelled (d.hashOrder order.info) = false ∧
      Validated d.toOrderAuth s.block s.reactor order ∧
      s' = { s with
        auction
        reactor := { s.reactor with
          orderSwapper :=
            update s.reactor.orderSwapper (d.hashOrder order.info) order.info.swapper
          orderNonce := update s.reactor.orderNonce (d.hashOrder order.info) order.info.nonce }
        trace := .orderVerified order.info order.sig :: s.trace } := by
  simp only [register, bind_eq_ok, pure_eq_ok] at h
  obtain ⟨reactor, hreactor, auction, hauction, rfl⟩ := h
  obtain ⟨-, hlive, hvalid, rfl⟩ := PartialFillReactor.register_spec hreactor
  exact ⟨auction, hauction, hlive, hvalid, rfl⟩

/-- What `chunkOpen` did: the guards it passed, and every part of the
world it left. -/
structure ChunkOpened (d : Deployment κ W) (s : World κ W) (msgSender : Account)
    (order : SignedOrder) (fillAmount : Nat) (s' : World κ W) (c : OpenChunk) : Prop where
  registered : FillAuction.hasValidRegistration s.block s.auction (d.hashOrder order.info)
    msgSender fillAmount = true
  guards : ChunkGuards d.toOrderAuth s.block s.reactor order fillAmount
  quoted : ∃ cursor, ChunkQuoted d.toOrderAuth s.block s.reactor order.info fillAmount c cursor ∧
    s'.reactor = PartialFillReactor.opened d.toOrderAuth s.reactor order.info c.newRemaining cursor
  inputLeg : d.permit2TransferFrom s.tokens d.reactor order.info.swapper msgSender
    (toUint 160 fillAmount) order.info.inputToken = .ok s'.tokens
  auction : s'.auction = s.auction
  fallback : s'.fallback = s.fallback
  block : s'.block = s.block
  measuring : s'.measuring = s.measuring
  trace : s'.trace = .inputPulled order.info msgSender (toUint 160 fillAmount)
    (.chunk c.currentPrice s.block.number)
      :: ((if c.isFirstFill then [.orderVerified order.info order.sig] else []) ++ s.trace)

theorem chunkOpen_spec {s s' : World κ W} {msgSender : Account} {order : SignedOrder}
    {fillAmount : Nat} {c : OpenChunk}
    (h : chunkOpen d s msgSender order fillAmount = .ok (s', c)) :
    ChunkOpened d s msgSender order fillAmount s' c := by
  simp only [chunkOpen, bind_eq_ok, pure_eq_ok, Prod.mk.injEq] at h
  obtain ⟨⟨reactor, c'⟩, hopen, tokens, hpull, rfl, rfl⟩ := h
  obtain ⟨hvalid, hguards, cursor, hquoted, rfl⟩ :=
    PartialFillReactor.chunkOpen_eq_ok.mp hopen
  exact ⟨hvalid, hguards, ⟨cursor, hquoted, rfl⟩, hpull, rfl, rfl, rfl, rfl, rfl⟩

omit [DecidableEq κ] in
theorem chunkPay_spec {s s' : World κ W} {msgSender : Account} {info : OrderInfo}
    {c : OpenChunk} {balBefore : Nat} (h : chunkPay d s msgSender info c = .ok (s', balBefore)) :
    balBefore = d.balanceOf s.tokens info.outputToken info.swapper ∧
    d.safeTransferFrom s.tokens d.reactor info.outputToken msgSender info.swapper c.outputAmount
      = .ok s'.tokens ∧
    s' = { s with tokens := s'.tokens } := by
  simp only [chunkPay, bind_eq_ok, pure_eq_ok, Prod.mk.injEq] at h
  obtain ⟨tokens, hpay, rfl, rfl⟩ := h
  exact ⟨rfl, hpay, rfl⟩

/-- What `chunkClose` did with `received` units of output. -/
structure ChunkClosed (d : Deployment κ W) (s : World κ W) (msgSender : Account)
    (info : OrderInfo) (fillAmount : Nat) (c : OpenChunk) (balBefore : Nat) (s' : World κ W)
    (received : Nat) : Prop where
  measured : balBefore + received = d.balanceOf s.tokens info.outputToken info.swapper
  floor : c.minChunk ≤ received
  total : c.newRemaining = 0 →
    info.minOutputAmount ≤ s.reactor.paidOutput (d.hashOrder info) + received
  settled : FillAuction.onFillSuccess (auctionParams d) s.block s.auction d.reactor
    (d.hashOrder info) msgSender fillAmount c.currentRemaining = .ok s'.auction
  reactor : s'.reactor = { s.reactor with
    paidOutput := update s.reactor.paidOutput (d.hashOrder info)
      (s.reactor.paidOutput (d.hashOrder info) + received)
    events := .partialFillExecuted (d.hashOrder info) msgSender fillAmount received
      :: s.reactor.events
    entered := false }
  fallback : s'.fallback = s.fallback
  tokens : s'.tokens = s.tokens
  block : s'.block = s.block
  measuring : s'.measuring = s.measuring
  trace : s'.trace = .outputCredited info fillAmount received s.measuring :: s.trace

theorem chunkClose_spec {s s' : World κ W} {msgSender : Account} {info : OrderInfo}
    {fillAmount : Nat} {c : OpenChunk} {balBefore : Nat}
    (h : chunkClose d s msgSender info fillAmount c balBefore = .ok s') :
    ∃ received, ChunkClosed d s msgSender info fillAmount c balBefore s' received := by
  simp only [chunkClose, bind_eq_ok, checkedSub_eq_ok, pure_eq_ok] at h
  obtain ⟨_, ⟨hle, rfl⟩, reactor, hreactor, auction, hauction, rfl⟩ := h
  obtain ⟨hfloor, -, htotal, rfl⟩ := PartialFillReactor.chunkClose_eq_ok.mp hreactor
  exact ⟨_, by omega, hfloor, htotal, hauction, rfl, rfl, rfl, rfl, rfl, rfl⟩

/-- What `fallbackOpen` did. -/
structure FallbackOpened (d : Deployment κ W) (s : World κ W) (order : SignedOrder)
    (s' : World κ W) (o : OpenFallback) : Prop where
  guards : FallbackGuards d.toOrderAuth s.block s.reactor s.fallback order o
  live : s.reactor.cancelled (d.hashOrder order.info) = false
  reactor : s'.reactor = { s.reactor with
    fallbackInitiated := update s.reactor.fallbackInitiated (d.hashOrder order.info) true
    remaining := update s.reactor.remaining (d.hashOrder order.info) RemainingLib.fullyFilled }
  inputLeg : d.permit2TransferFrom s.tokens d.fallback order.info.swapper d.fallback
    (toUint 160 o.rem) order.info.inputToken = .ok s'.tokens
  auction : s'.auction = s.auction
  fallback : s'.fallback = { s.fallback with entered := true }
  block : s'.block = s.block
  measuring : s'.measuring = s.measuring
  trace : s'.trace = .inputPulled order.info d.fallback (toUint 160 o.rem) .fallback ::
    .orderVerified order.info order.sig :: s.trace

theorem fallbackOpen_spec {s s' : World κ W} {order : SignedOrder} {router : Address}
    {o : OpenFallback} {inBalBefore : Nat}
    (h : fallbackOpen d s order router = .ok (s', o, inBalBefore)) :
    FallbackOpened d s order s' o := by
  simp only [fallbackOpen, bind_eq_ok, pure_eq_ok, Prod.mk.injEq] at h
  obtain ⟨o', hchecks, reactor, hmark, tokens, hpull, rfl, rfl, -⟩ := h
  have hguards := FallbackExecutor.openChecks_spec hchecks
  obtain ⟨hlive, rfl⟩ := PartialFillReactor.markFallbackInitiated_spec hmark
  exact ⟨hguards, hlive, rfl, hpull, rfl, rfl, rfl, rfl, rfl⟩

omit [DecidableEq κ] in
theorem fallbackApprove_spec {s s' : World κ W} {info : OrderInfo} {o : OpenFallback}
    {balBefore : Nat} (h : fallbackApprove d s info o = .ok (s', balBefore)) :
    balBefore = d.balanceOf s'.tokens info.outputToken info.swapper ∧
    d.forceApprove s.tokens d.fallback info.inputToken o.approveTarget o.rem = .ok s'.tokens ∧
    s' = { s with tokens := s'.tokens, measuring := some (info.swapper, info.outputToken) } := by
  simp only [fallbackApprove, bind_eq_ok, pure_eq_ok, Prod.mk.injEq] at h
  obtain ⟨tokens, happrove, rfl, rfl⟩ := h
  exact ⟨rfl, happrove, rfl⟩

/-- What `fallbackSettle` did with `amountOut` units of output. -/
structure FallbackSettled (d : Deployment κ W) (s : World κ W) (info : OrderInfo)
    (o : OpenFallback) (balBefore : Nat) (s' : World κ W) (amountOut leftover : Nat) :
    Prop where
  measured : balBefore + amountOut = d.balanceOf s.tokens info.outputToken info.swapper
  floor : (info.inputAmount : Nat) ≠ 0 ∧
    info.minOutputAmount * o.rem / info.inputAmount ≤ amountOut
  total : info.minOutputAmount ≤ s.reactor.paidOutput (d.hashOrder info) + amountOut
  refunded : ∃ tokens,
    d.forceApprove s.tokens d.fallback info.inputToken o.approveTarget 0 = .ok tokens ∧
    refundLeftover d tokens info leftover = .ok s'.tokens
  reactor : s'.reactor = { s.reactor with
    paidOutput := update s.reactor.paidOutput (d.hashOrder info)
      (s.reactor.paidOutput (d.hashOrder info) + amountOut) }
  auction : s'.auction = s.auction
  fallback : s'.fallback = s.fallback
  block : s'.block = s.block
  measuring : s'.measuring = none
  trace : s'.trace = .outputCredited info o.rem amountOut none :: s.trace

theorem fallbackSettle_spec {s s' : World κ W} {info : OrderInfo} {o : OpenFallback}
    {inBalBefore balBefore minAmountOut amountOut leftover : Nat} {routeOk : Bool}
    (h : fallbackSettle d s info o inBalBefore balBefore routeOk minAmountOut
      = .ok (s', amountOut, leftover)) :
    FallbackSettled d s info o balBefore s' amountOut leftover := by
  simp only [fallbackSettle, bind_eq_ok, require_eq_ok, checkedSub_eq_ok, mulDiv_eq_ok,
    pure_eq_ok, Prod.mk.injEq] at h
  obtain ⟨_, -, _, ⟨hle, rfl⟩, _, ⟨⟨hpos, -⟩, rfl⟩, _, -, _, hfloor, reactor, hrecord, tokens,
    happrove, _, ⟨-, rfl⟩, tokens', hrefund, rfl, rfl, rfl⟩ := h
  obtain ⟨htotal, rfl⟩ := PartialFillReactor.recordFallbackOutput_spec hrecord
  exact ⟨by omega, ⟨hpos, hfloor⟩, htotal, ⟨tokens, happrove, hrefund⟩, rfl, rfl, rfl, rfl, rfl,
    rfl⟩

omit [DecidableEq κ] in
theorem onAuction_spec {s s' : World κ W}
    {f : AuctionState κ → Except Revert (AuctionState κ)} (h : onAuction s f = .ok s') :
    ∃ auction, f s.auction = .ok auction ∧ s' = { s with auction } := by
  simp only [onAuction, bind_eq_ok, pure_eq_ok] at h
  obtain ⟨auction, hf, rfl⟩ := h
  exact ⟨auction, hf, rfl⟩

theorem cancelOrder_spec {s s' : World κ W} {msgSender : Account} {info : OrderInfo}
    (h : cancelOrder d s msgSender info = .ok s') :
    s' = { s with reactor := { s.reactor with
      cancelled := update s.reactor.cancelled (d.hashOrder info) true
      events := .orderCancelled (d.hashOrder info) msgSender :: s.reactor.events } } := by
  simp only [cancelOrder, bind_eq_ok, pure_eq_ok] at h
  obtain ⟨reactor, hreactor, rfl⟩ := h
  obtain ⟨-, rfl⟩ := PartialFillReactor.cancelOrder_spec hreactor
  rfl

omit [DecidableEq κ] in
theorem setRouterAllowed_spec {s s' : World κ W} {msgSender : Account}
    {router approveTarget : Address} {allowed : Bool}
    (h : setRouterAllowed d s msgSender router approveTarget allowed = .ok s') :
    ∃ fallback, fallback.entered = s.fallback.entered ∧
      fallback.events = .routerAllowed router approveTarget allowed :: s.fallback.events ∧
      s' = { s with fallback } := by
  simp only [setRouterAllowed, FallbackExecutor.setRouterAllowed, bind_eq_ok, pure_eq_ok] at h
  obtain ⟨fallback, ⟨_, -, _, -, _, -, rfl⟩, rfl⟩ := h
  refine ⟨_, ?_, ?_, rfl⟩
  · rfl
  · rfl

/-! ## The transition relation -/

/-- A piece of a body that succeeded, or time that passed. What a piece
takes over from an earlier piece of its body is arbitrary here. -/
inductive Segment (d : Deployment κ W) : World κ W → World κ W → Prop
  | register {s s'} (msgSender : Account) (msgValue : Nat) (order : SignedOrder)
      (fillAmount : Nat) (h : register d s msgSender msgValue order fillAmount = .ok s') :
      Segment d s s'
  | chunkOpen {s s'} (msgSender : Account) (order : SignedOrder) (fillAmount : Nat)
      (c : OpenChunk) (h : chunkOpen d s msgSender order fillAmount = .ok (s', c)) :
      Segment d s s'
  | chunkPay {s s'} (msgSender : Account) (info : OrderInfo) (c : OpenChunk) (balBefore : Nat)
      (h : chunkPay d s msgSender info c = .ok (s', balBefore)) : Segment d s s'
  | chunkClose {s s'} (msgSender : Account) (info : OrderInfo) (fillAmount : Nat)
      (c : OpenChunk) (balBefore : Nat)
      (h : chunkClose d s msgSender info fillAmount c balBefore = .ok s') : Segment d s s'
  | fallbackOpen {s s'} (order : SignedOrder) (router : Address) (o : OpenFallback)
      (inBalBefore : Nat) (h : fallbackOpen d s order router = .ok (s', o, inBalBefore)) :
      Segment d s s'
  | fallbackApprove {s s'} (info : OrderInfo) (o : OpenFallback) (balBefore : Nat)
      (h : fallbackApprove d s info o = .ok (s', balBefore)) : Segment d s s'
  | fallbackSettle {s s'} (info : OrderInfo) (o : OpenFallback)
      (inBalBefore balBefore : Nat) (routeOk : Bool) (minAmountOut amountOut leftover : Nat)
      (h : fallbackSettle d s info o inBalBefore balBefore routeOk minAmountOut
        = .ok (s', amountOut, leftover)) : Segment d s s'
  | fallbackClose (s) (info : OrderInfo) (o : OpenFallback) (amountOut : Nat) :
      Segment d s (fallbackClose d s info o amountOut)
  | cancelOrder {s s'} (msgSender : Account) (info : OrderInfo)
      (h : cancelOrder d s msgSender info = .ok s') : Segment d s s'
  | invalidateNonce (s) (msgSender : Account) (nonce : Uint 256) :
      Segment d s { s with
        reactor := PartialFillReactor.invalidateNonce s.reactor msgSender nonce }
  | slash {s s'} (msgSender : Account) (orderHash : κ) (filler : Address)
      (h : slash d s msgSender orderHash filler = .ok s') : Segment d s s'
  | releaseRegistration {s s'} (orderHash : κ) (filler : Address)
      (h : releaseRegistration s orderHash filler = .ok s') : Segment d s s'
  | withdrawSend {s s'} (msgSender : Account) (to_ : Address)
      (h : (onAuction s fun a => FillAuction.withdrawSend (auctionParams d) a msgSender to_)
        = .ok s') : Segment d s s'
  | withdrawReturn {s s'} (accepted : Bool)
      (h : (onAuction s fun a => FillAuction.withdrawReturn a accepted) = .ok s') :
      Segment d s s'
  | auctionOp {s s'} (op : AuctionOp) (h : (onAuction s fun a => op.run s.block a) = .ok s') :
      Segment d s s'
  | setRouterAllowed {s s'} (msgSender : Account) (router approveTarget : Address)
      (allowed : Bool) (h : setRouterAllowed d s msgSender router approveTarget allowed = .ok s') :
      Segment d s s'
  | tokens (s) (f : W → W) : Segment d s { s with tokens := f s.tokens }
  | elapse (s) (t : Elapse) : Segment d s (elapse t s)

/-- Any number of segments. -/
abbrev Segments (d : Deployment κ W) : World κ W → World κ W → Prop :=
  Relation.ReflTransGen (Segment d)

theorem executePartialChunk_segments (s : World κ W) (msgSender : Account) (order : SignedOrder)
    (fillAmount : Nat) (data : Bytes) :
    (executePartialChunk d s msgSender order fillAmount data).Sat (Segments d) s := by
  refine Prog.sat_attempt fun ⟨s₁, c⟩ hopen => ?_
  have h₁ : Segments d s s₁ := .single (.chunkOpen msgSender order fillAmount c hopen)
  refine Prog.sat_yieldIf (fun _ => .refl) fun s₂ h₂ => ?_
  refine Prog.sat_yieldIf (fun _ => .refl) fun s₃ h₃ => ?_
  refine Prog.sat_attempt fun ⟨s₄, balBefore⟩ hpay => ?_
  have h₄ : Segments d s₃ s₄ := .single (.chunkPay msgSender order.info c balBefore hpay)
  refine Prog.sat_yieldIf (fun _ => .refl) fun s₅ h₅ => ?_
  refine Prog.sat_attempt fun s₆ hclose => ?_
  exact (h₁.trans (h₂.trans (h₃.trans (h₄.trans h₅)))).tail
    (.chunkClose msgSender order.info fillAmount c balBefore hclose)

theorem executeFallback_segments (s : World κ W) (order : SignedOrder) (router : Address)
    (routeOk : Bool) (minAmountOut : Nat) :
    (executeFallback d s order router routeOk minAmountOut).Sat (Segments d) s := by
  refine Prog.sat_attempt fun ⟨s₁, o, inBalBefore⟩ hopen => ?_
  have h₁ : Segments d s s₁ := .single (.fallbackOpen order router o inBalBefore hopen)
  refine Prog.sat_yieldIf (fun _ => .refl) fun s₂ h₂ => ?_
  refine Prog.sat_attempt fun ⟨s₃, balBefore⟩ happrove => ?_
  have h₃ : Segments d s₂ s₃ := .single (.fallbackApprove order.info o balBefore happrove)
  intro s₄ h₄
  refine Prog.sat_attempt fun ⟨s₅, amountOut, leftover⟩ hsettle => ?_
  have h₅ : Segments d s₄ s₅ := .single
    (.fallbackSettle order.info o inBalBefore balBefore routeOk minAmountOut amountOut
      leftover hsettle)
  refine Prog.sat_yieldIf (fun _ => .refl) fun s₆ h₆ => ?_
  exact (h₁.trans (h₂.trans (h₃.trans (h₄.trans (h₅.trans h₆))))).tail
    (.fallbackClose s₆ order.info o amountOut)

/-- Every body is a sequence of segments and of what the code it calls does. -/
theorem body_segments (l : Label κ W) (s : World κ W) : (body d l s).Sat (Segments d) s := by
  cases l with
  | register msgSender msgValue order fillAmount =>
      exact Prog.sat_attempt fun s' h => .single (.register msgSender msgValue order fillAmount h)
  | executePartialChunk msgSender order fillAmount =>
      exact executePartialChunk_segments s msgSender order fillAmount []
  | executePartialChunkWithCallback msgSender order fillAmount callbackData =>
      exact Prog.sat_attempt fun _ _ =>
        executePartialChunk_segments s msgSender order fillAmount callbackData
  | executeFallback order router routeOk minAmountOut =>
      exact executeFallback_segments s order router routeOk minAmountOut
  | cancelOrder msgSender info =>
      exact Prog.sat_attempt fun s' h => .single (.cancelOrder msgSender info h)
  | invalidateNonce msgSender nonce => exact .single (.invalidateNonce s msgSender nonce)
  | slash msgSender orderHash filler =>
      exact Prog.sat_attempt fun s' h => .single (.slash msgSender orderHash filler h)
  | releaseRegistration orderHash filler =>
      exact Prog.sat_attempt fun s' h => .single (.releaseRegistration orderHash filler h)
  | withdraw msgSender to_ accepted =>
      refine Prog.sat_attempt fun s₁ hsend => ?_
      have h₁ : Segments d s s₁ := .single (.withdrawSend msgSender to_ hsend)
      intro s₂ h₂
      refine Prog.sat_attempt fun s₃ hreturn => ?_
      exact (h₁.trans h₂).tail (.withdrawReturn accepted hreturn)
  | auctionOp op => exact Prog.sat_attempt fun s' h => .single (.auctionOp op h)
  | setRouterAllowed msgSender router approveTarget allowed =>
      exact Prog.sat_attempt fun s' h =>
        .single (.setRouterAllowed msgSender router approveTarget allowed h)
  | tokens f => exact .single (.tokens s f)

/-- **Every run is a sequence of segments.** -/
theorem run_segments (txs : List (Tx (Label κ W) Elapse)) (s : World κ W) :
    Segments d s (run d txs s) :=
  runTxs_sat (P := fun _ => True) (fun _ => .refl) (fun h h' => h.trans h')
    (fun l _ s => body_segments l s) (fun t s => .single (.elapse s t)) s
    fun tx _ => tx.all_true

theorem Reachable.run {s : World κ W} (h : Reachable d s) (txs : List (Tx (Label κ W) Elapse)) :
    Reachable d (run d txs s) := by
  obtain ⟨tokens, block, txs₀, rfl⟩ := h
  exact ⟨tokens, block, txs₀ ++ txs, (runTxs_append ..).symm⟩

/-- What every segment keeps, every sequence of segments keeps. -/
theorem Segments.keep {I : World κ W → Prop} {s s' : World κ W}
    (hstep : ∀ {s s' : World κ W}, I s → Segment d s s' → I s') (h : Segments d s s')
    (hs : I s) : I s' := by
  induction h with
  | refl => exact hs
  | tail _ hseg ih => exact hstep ih hseg

end System

end NeutronX
