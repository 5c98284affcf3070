import NeutronX.Evm.Reentrant
import NeutronX.Fallback

/-!
# The system

The auction, the reactor and the fallback executor over one world of
tokens, as they are wired by the deployment script. An entry point is a
body in the sense of `Evm.Reentrant`: its pieces are functions of the
world, and between them it hands control to code outside, which may call
any entry point again.

The tokens and Permit2 are not part of the repository. They are a
`TokenCode`: what a transfer does to a state `W` of which nothing is
known. Everything third parties do to tokens, routers included, is the
label `tokens`.

Entry points that only accept the reactor or the fallback executor as
`msg.sender` occur inside the bodies of these, and nowhere else.
-/

namespace NeutronX

open Evm Function

/-! ## The world -/

/-- The token contracts and Permit2, acting on their own state `W`. The
first address of an operation is its `msg.sender`. -/
structure TokenCode (W : Type) where
  /-- whether transfers of the token hand control to code outside, after they
  took effect; a hook that runs before (`tokensToSend`) is not covered -/
  hasHooks : Address → Bool
  balanceOf : W → (token account : Address) → Nat
  permit2TransferFrom : W → (spender from_ to_ : Address) → (amount : Nat) →
    (token : Address) → Except Revert W
  safeTransferFrom : W → (spender token from_ to_ : Address) → (amount : Nat) → Except Revert W
  safeTransfer : W → (sender token to_ : Address) → (amount : Nat) → Except Revert W
  forceApprove : W → (sender token spender : Address) → (amount : Nat) → Except Revert W

/-- The immutables of the three contracts and the code outside them. -/
structure Deployment (κ W : Type) extends OrderAuth κ, TokenCode W where
  auction : Address
  reactor : Address
  reactor_ne_zero : reactor ≠ 0
  fallback : Address
  treasury : Address
  admin : Address
  routerOwner : Address
  initialRouter : Address
  /-- the price source, whose quotes depend on the state of the pools -/
  oracle : Option (W → Quote)

/-- How an amount of input left the swapper. -/
inductive Leg where
  /-- a chunk at `price` in block `blockNumber` -/
  | chunk (price blockNumber : Nat)
  | fallback
deriving DecidableEq

/-- History of orders, newest first. -/
inductive TraceEvent where
  /-- the cosigner's signature was verified -/
  | orderVerified (info : OrderInfo) (sig : Bytes)
  /-- `amount` of input was pulled from the swapper to `to_` -/
  | inputPulled (info : OrderInfo) (to_ : Address) (amount : Nat) (leg : Leg)
  /-- `amount` of output was credited to the order for `fill` of its input,
  while a fallback was measuring the balance named by `during` -/
  | outputCredited (info : OrderInfo) (fill amount : Nat) (during : Option (Address × Address))
deriving DecidableEq

structure World (κ W : Type) where
  auction : AuctionState κ
  reactor : ReactorState κ
  fallback : FallbackState κ
  tokens : W
  block : Block
  /-- history: the account and token whose balance a fallback is measuring -/
  measuring : Option (Address × Address)
  /-- history -/
  trace : List TraceEvent

namespace System

variable {κ W : Type}

/-- The world after the deployment script. -/
def deployed (d : Deployment κ W) (tokens : W) (block : Block) : World κ W where
  auction :=
    { FillAuction.deployed d.admin with
      reactor := d.reactor
      events := [(block.number, .reactorSet d.reactor)] }
  reactor := PartialFillReactor.deployed d.fallback
  fallback := FallbackExecutor.deployed d.initialRouter
  tokens := tokens
  block := block
  measuring := none
  trace := []

variable [DecidableEq κ] (d : Deployment κ W)

def auctionParams : AuctionParams := ⟨d.auction, d.treasury⟩

/-! ## Registration -/

def registerArgs (msgSender : Address) (info : OrderInfo) (fillAmount : Nat) :
    FillAuction.RegisterArgs κ where
  filler := msgSender
  orderHash := d.hashOrder info
  fillAmount := fillAmount
  orderTotal := info.inputAmount
  deadline := info.deadline
  inputToken := info.inputToken
  feeTier := info.feeTier

def register (s : World κ W) (msgSender : Account) (msgValue : Nat) (order : SignedOrder)
    (fillAmount : Nat) : Except Revert (World κ W) := do
  let reactor ← PartialFillReactor.register d.toOrderAuth s.block s.reactor order
  let auction ← FillAuction.register (d.oracle.map fun quote => quote s.tokens) s.block s.auction
    d.reactor msgValue (registerArgs d msgSender order.info fillAmount)
  return { s with
    reactor, auction
    trace := .orderVerified order.info order.sig :: s.trace }

/-! ## Chunks -/

/-- `_executePartialChunk` up to and including the input leg. -/
def chunkOpen (s : World κ W) (msgSender : Account) (order : SignedOrder) (fillAmount : Nat) :
    Except Revert (World κ W × PartialFillReactor.OpenChunk) := do
  let info := order.info
  let valid := FillAuction.hasValidRegistration s.block s.auction (d.hashOrder info) msgSender
    fillAmount
  let (reactor, c) ← PartialFillReactor.chunkOpen d.toOrderAuth s.block s.reactor valid order
    fillAmount
  let tokens ← d.permit2TransferFrom s.tokens d.reactor info.swapper msgSender
    (toUint 160 fillAmount) info.inputToken
  let verified := if c.isFirstFill then [.orderVerified info order.sig] else []
  return ({ s with
    reactor, tokens
    trace := .inputPulled info msgSender (toUint 160 fillAmount)
      (.chunk c.currentPrice s.block.number) :: (verified ++ s.trace) }, c)

/-- The output leg; returns the swapper's balance before it. -/
def chunkPay (s : World κ W) (msgSender : Account) (info : OrderInfo)
    (c : PartialFillReactor.OpenChunk) : Except Revert (World κ W × Nat) := do
  let balBefore := d.balanceOf s.tokens info.outputToken info.swapper
  let tokens ← d.safeTransferFrom s.tokens d.reactor info.outputToken msgSender info.swapper
    c.outputAmount
  return ({ s with tokens }, balBefore)

/-- What follows the output leg: the floors, the settlement of the stake. -/
def chunkClose (s : World κ W) (msgSender : Account) (info : OrderInfo) (fillAmount : Nat)
    (c : PartialFillReactor.OpenChunk) (balBefore : Nat) : Except Revert (World κ W) := do
  let received ← checkedSub (d.balanceOf s.tokens info.outputToken info.swapper) balBefore
  let reactor ← PartialFillReactor.chunkClose d.toOrderAuth s.reactor msgSender info fillAmount c
    received
  let auction ← FillAuction.onFillSuccess (auctionParams d) s.block s.auction d.reactor
    (d.hashOrder info) msgSender fillAmount c.currentRemaining
  return { s with
    reactor, auction
    trace := .outputCredited info fillAmount received s.measuring :: s.trace }

/-- `_executePartialChunk`. The plain entry point passes no callback data,
and then the filler is not called back. -/
def executePartialChunk (s : World κ W) (msgSender : Account) (order : SignedOrder)
    (fillAmount : Nat) (callbackData : Bytes) : Prog (World κ W) Revert :=
  let info := order.info
  .attempt (chunkOpen d s msgSender order fillAmount) fun (s, c) =>
  .yieldIf (d.hasHooks info.inputToken) s fun s =>
  .yieldIf (decide (0 < callbackData.length)) s fun s =>
  .attempt (chunkPay d s msgSender info c) fun (s, balBefore) =>
  .yieldIf (d.hasHooks info.outputToken) s fun s =>
  .attempt (chunkClose d s msgSender info fillAmount c balBefore) .done

/-! ## The fallback -/

/-- `executeFallback` up to and including the pull of the input; returns
what is open and the executor's own balance before the pull. -/
def fallbackOpen (s : World κ W) (order : SignedOrder) (router : Address) :
    Except Revert (World κ W × FallbackExecutor.OpenFallback × Nat) := do
  let info := order.info
  let o ← FallbackExecutor.openChecks d.toOrderAuth s.block s.reactor s.fallback order router
  let reactor ← PartialFillReactor.markFallbackInitiated s.reactor d.fallback (d.hashOrder info)
  let inBalBefore := d.balanceOf s.tokens info.inputToken d.fallback
  let tokens ← d.permit2TransferFrom s.tokens d.fallback info.swapper d.fallback
    (toUint 160 o.rem) info.inputToken
  return ({ s with
    reactor, tokens
    fallback := { s.fallback with entered := true }
    trace := .inputPulled info d.fallback (toUint 160 o.rem) .fallback ::
      .orderVerified info order.sig :: s.trace }, o, inBalBefore)

/-- The approval of the router, and the swapper's balance before the swap. -/
def fallbackApprove (s : World κ W) (info : OrderInfo) (o : FallbackExecutor.OpenFallback) :
    Except Revert (World κ W × Nat) := do
  let tokens ← d.forceApprove s.tokens d.fallback info.inputToken o.approveTarget o.rem
  return ({ s with tokens, measuring := some (info.swapper, info.outputToken) },
    d.balanceOf tokens info.outputToken info.swapper)

/-- What the router did not spend goes back to the swapper. -/
def refundLeftover (tokens : W) (info : OrderInfo) (leftover : Nat) : Except Revert W :=
  if 0 < leftover then d.safeTransfer tokens d.fallback info.inputToken info.swapper leftover
  else .ok tokens

/-- What follows the swap: the floors, the books, the refund of what the
router did not spend. Returns the output and the refund. -/
def fallbackSettle (s : World κ W) (info : OrderInfo) (o : FallbackExecutor.OpenFallback)
    (inBalBefore balBefore : Nat) (routeOk : Bool) (minAmountOut : Nat) :
    Except Revert (World κ W × Nat × Nat) := do
  require (routeOk = true) "swap failed"
  let amountOut ← checkedSub (d.balanceOf s.tokens info.outputToken info.swapper) balBefore
  let signedFloor ← mulDiv info.minOutputAmount o.rem info.inputAmount
  require (minAmountOut ≤ amountOut) "insufficient output"
  require (signedFloor ≤ amountOut) "below signed min output"
  let reactor ← PartialFillReactor.recordFallbackOutput s.reactor d.fallback (d.hashOrder info)
    amountOut info.minOutputAmount
  let tokens ← d.forceApprove s.tokens d.fallback info.inputToken o.approveTarget 0
  let leftover ← checkedSub (d.balanceOf tokens info.inputToken d.fallback) inBalBefore
  let tokens ← refundLeftover d tokens info leftover
  return ({ s with
    reactor, tokens
    measuring := none
    trace := .outputCredited info o.rem amountOut none :: s.trace }, amountOut, leftover)

def fallbackClose (s : World κ W) (info : OrderInfo) (o : FallbackExecutor.OpenFallback)
    (amountOut : Nat) : World κ W :=
  { s with
    fallback := { s.fallback with
      entered := false
      events := .fallbackExecuted (d.hashOrder info) o.rem amountOut :: s.fallback.events } }

def executeFallback (s : World κ W) (order : SignedOrder) (router : Address) (routeOk : Bool)
    (minAmountOut : Nat) : Prog (World κ W) Revert :=
  let info := order.info
  .attempt (fallbackOpen d s order router) fun (s, o, inBalBefore) =>
  .yieldIf (d.hasHooks info.inputToken) s fun s =>
  .attempt (fallbackApprove d s info o) fun (s, balBefore) =>
  -- the router's call
  .yield s fun s =>
  .attempt (fallbackSettle d s info o inBalBefore balBefore routeOk minAmountOut)
    fun (s, amountOut, leftover) =>
  .yieldIf (d.hasHooks info.inputToken && decide (0 < leftover)) s fun s =>
  .done (fallbackClose d s info o amountOut)

/-! ## The auction's own entry points -/

/-- A call of the auction alone. -/
def onAuction (s : World κ W) (f : AuctionState κ → Except Revert (AuctionState κ)) :
    Except Revert (World κ W) := do
  let auction ← f s.auction
  return { s with auction }

def withdraw (s : World κ W) (msgSender : Account) (to_ : Address) (accepted : Bool) :
    Prog (World κ W) Revert :=
  .attempt (onAuction s fun a => FillAuction.withdrawSend (auctionParams d) a msgSender to_)
    fun s =>
  .yield s fun s =>
  .attempt (onAuction s fun a => FillAuction.withdrawReturn a accepted) .done

/-- The operations on roles and configuration, and ETH that is forced in. -/
inductive AuctionOp where
  | grantRole (msgSender : Account) (role : Role) (account : Address)
  | revokeRole (msgSender : Account) (role : Role) (account : Address)
  | renounceRole (msgSender : Account) (role : Role) (callerConfirmation : Address)
  | setStakeConfig (msgSender : Account) (c : StakeConfig)
  | commitPending
  | cancelPendingConfig (msgSender : Account)
  | rollback (msgSender : Account)
  | forceEth (amount : Nat)

omit [DecidableEq κ] in
def AuctionOp.run (op : AuctionOp) (blk : Block) (s : AuctionState κ) :
    Except Revert (AuctionState κ) :=
  match op with
  | .grantRole msgSender role account => FillAuction.grantRole s msgSender role account
  | .revokeRole msgSender role account => FillAuction.revokeRole s msgSender role account
  | .renounceRole msgSender role callerConfirmation =>
      FillAuction.renounceRole s msgSender role callerConfirmation
  | .setStakeConfig msgSender c => FillAuction.setStakeConfig blk s msgSender c
  | .commitPending => FillAuction.commitPending blk s
  | .cancelPendingConfig msgSender => FillAuction.cancelPendingConfig blk s msgSender
  | .rollback msgSender => FillAuction.rollback blk s msgSender
  | .forceEth amount => FillAuction.forceEth s amount

/-! ## Calls and runs -/

/-- The entry points. -/
inductive Label (κ W : Type) where
  | register (msgSender : Account) (msgValue : Nat) (order : SignedOrder) (fillAmount : Nat)
  | executePartialChunk (msgSender : Account) (order : SignedOrder) (fillAmount : Nat)
  | executePartialChunkWithCallback (msgSender : Account) (order : SignedOrder)
      (fillAmount : Nat) (callbackData : Bytes)
  | executeFallback (order : SignedOrder) (router : Address) (routeOk : Bool)
      (minAmountOut : Nat)
  | cancelOrder (msgSender : Account) (info : OrderInfo)
  | invalidateNonce (msgSender : Account) (nonce : Uint 256)
  | slash (msgSender : Account) (orderHash : κ) (filler : Address)
  | releaseRegistration (orderHash : κ) (filler : Address)
  | withdraw (msgSender : Account) (to_ : Address) (accepted : Bool)
  | auctionOp (op : AuctionOp)
  | setRouterAllowed (msgSender : Account) (router approveTarget : Address) (allowed : Bool)
  /-- anything anyone does to tokens -/
  | tokens (f : W → W)

def slash (s : World κ W) (msgSender : Account) (orderHash : κ) (filler : Address) :
    Except Revert (World κ W) :=
  onAuction s fun a => FillAuction.slash (auctionParams d) (PartialFillReactor.view s.reactor)
    s.block a msgSender orderHash filler

def releaseRegistration (s : World κ W) (orderHash : κ) (filler : Address) :
    Except Revert (World κ W) :=
  onAuction s fun a => FillAuction.releaseRegistration (PartialFillReactor.view s.reactor)
    s.block a orderHash filler

def cancelOrder (s : World κ W) (msgSender : Account) (info : OrderInfo) :
    Except Revert (World κ W) := do
  let reactor ← PartialFillReactor.cancelOrder d.toOrderAuth s.reactor msgSender info
  return { s with reactor }

def setRouterAllowed (s : World κ W) (msgSender : Account) (router approveTarget : Address)
    (allowed : Bool) : Except Revert (World κ W) := do
  let fallback ← FallbackExecutor.setRouterAllowed d.routerOwner s.fallback msgSender router
    approveTarget allowed
  return { s with fallback }

/-- The body of an entry point. -/
def body : Label κ W → World κ W → Prog (World κ W) Revert
  | .register msgSender msgValue order fillAmount, s =>
      .attempt (register d s msgSender msgValue order fillAmount) .done
  | .executePartialChunk msgSender order fillAmount, s =>
      executePartialChunk d s msgSender order fillAmount []
  | .executePartialChunkWithCallback msgSender order fillAmount callbackData, s =>
      .attempt (require (0 < callbackData.length) "empty callback data") fun _ =>
      executePartialChunk d s msgSender order fillAmount callbackData
  | .executeFallback order router routeOk minAmountOut, s =>
      executeFallback d s order router routeOk minAmountOut
  | .cancelOrder msgSender info, s => .attempt (cancelOrder d s msgSender info) .done
  | .invalidateNonce msgSender nonce, s =>
      .done { s with reactor := PartialFillReactor.invalidateNonce s.reactor msgSender nonce }
  | .slash msgSender orderHash filler, s =>
      .attempt (slash d s msgSender orderHash filler) .done
  | .releaseRegistration orderHash filler, s =>
      .attempt (releaseRegistration s orderHash filler) .done
  | .withdraw msgSender to_ accepted, s => withdraw d s msgSender to_ accepted
  | .auctionOp op, s => .attempt (onAuction s fun a => op.run s.block a) .done
  | .setRouterAllowed msgSender router approveTarget allowed, s =>
      .attempt (setRouterAllowed d s msgSender router approveTarget allowed) .done
  | .tokens f, s => .done { s with tokens := f s.tokens }

/-- The passing of blocks and seconds. -/
structure Elapse where
  blocks : Nat
  seconds : Nat

omit [DecidableEq κ] in
def elapse (t : Elapse) (s : World κ W) : World κ W :=
  { s with block := ⟨s.block.number + t.blocks, s.block.timestamp + t.seconds⟩ }

/-- Transactions, each with whatever the code outside calls back, and time
between them. -/
def run (txs : List (Tx (Label κ W) Elapse)) (s : World κ W) : World κ W :=
  runTxs (body d) elapse txs s

/-- A state between transactions. -/
def Reachable (s : World κ W) : Prop :=
  ∃ tokens block txs, s = run d txs (deployed d tokens block)

end System

end NeutronX
