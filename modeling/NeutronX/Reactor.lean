import Mathlib.Logic.Function.Basic
import NeutronX.Auction

/-!
# PartialFillReactor

The state of the reactor and its functions. Those that hand control to
code outside the system on their way (a filler's callback, a token with
hooks) are cut there: `chunkOpen` is `_executePartialChunk` up to its
interactions, `chunkClose` what follows the measured output leg. The
transfers in between act on the tokens, so they belong to the system.
-/

namespace NeutronX

open Evm Function

inductive ReactorEvent (κ : Type) where
  | partialFillExecuted (orderHash : κ) (filler : Address) (fillAmount outputAmount : Nat)
  | orderCancelled (orderHash : κ) (swapper : Address)
  | nonceInvalidated (swapper : Address) (nonce : Uint 256)

structure ReactorState (κ : Type) where
  /-- raw words, in the encoding of `RemainingLib` -/
  remaining : κ → Nat
  cursors : κ → DecayCursor
  paidOutput : κ → Nat
  fallbackInitiated : κ → Bool
  cancelled : κ → Bool
  nonceInvalidated : Address → Uint 256 → Bool
  orderSwapper : κ → Address
  orderNonce : κ → Uint 256
  fallbackExecutor : Address
  /-- the reentrancy guard -/
  entered : Bool
  events : List (ReactorEvent κ)

/-- How orders are authenticated: the hash of all eleven fields, the
recovery of a signer from the signature over a hash (`none` where ECDSA
rejects the signature), and the cosigner. -/
structure OrderAuth (κ : Type) where
  hashOrder : OrderInfo → κ
  hash_injective : Injective hashOrder
  recover : κ → Bytes → Option Address
  cosigner : Address

/-- Order `info` carries a valid cosigner signature `sig`. -/
def OrderAuth.Signs {κ : Type} (a : OrderAuth κ) (info : OrderInfo) (sig : Bytes) : Prop :=
  a.recover (a.hashOrder info) sig = some a.cosigner ∧ a.cosigner ≠ 0

namespace PartialFillReactor

variable {κ : Type}

/-- The state after the constructor and the one-time `setFallbackExecutor`. -/
def deployed (fallbackExecutor : Address) : ReactorState κ where
  remaining := fun _ => 0
  cursors := fun _ => ⟨0, 0, 0⟩
  paidOutput := fun _ => 0
  fallbackInitiated := fun _ => false
  cancelled := fun _ => false
  nonceInvalidated := fun _ _ => false
  orderSwapper := fun _ => 0
  orderNonce := fun _ => 0
  fallbackExecutor := fallbackExecutor
  entered := false
  events := []

/-! ## Views -/

def remainingInput (s : ReactorState κ) (orderHash : κ) (orderAmount : Nat) : Nat :=
  RemainingLib.remaining (s.remaining orderHash) orderAmount

def isCancelled (s : ReactorState κ) (orderHash : κ) : Bool := s.cancelled orderHash

/-- An order nobody registered for has no swapper on record, and counts as
not invalidated. -/
def isNonceInvalidatedForOrder (s : ReactorState κ) (orderHash : κ) : Bool :=
  let swapper := s.orderSwapper orderHash
  if swapper = 0 then false else s.nonceInvalidated swapper (s.orderNonce orderHash)

/-- What the auction sees of the reactor. -/
def view (s : ReactorState κ) : ReactorView κ where
  remainingInput := remainingInput s
  isCancelled := isCancelled s
  isNonceInvalidatedForOrder := isNonceInvalidatedForOrder s

/-! ## Authentication -/

/-- The signature part of `_validateOrder`. -/
def checkSigner (a : OrderAuth κ) (order : SignedOrder) : Except Revert Unit :=
  match a.recover (a.hashOrder order.info) order.sig with
  | none => .error (.custom "ECDSAInvalidSignature")
  | some signer => do
      require (signer ≠ 0) "invalid sig recovery"
      require (signer = a.cosigner) "invalid sig"

def validateOrder (a : OrderAuth κ) (blk : Block) (s : ReactorState κ) (order : SignedOrder) :
    Except Revert Unit := do
  require (blk.number ≤ order.info.deadline) "expired"
  require (s.nonceInvalidated order.info.swapper order.info.nonce = false) "nonce invalidated"
  let maxAchievable ← mulDiv order.info.inputAmount order.info.startPrice (10 ^ 18)
  require (order.info.minOutputAmount ≤ maxAchievable) "unreachable min output"
  checkSigner a order

variable [DecidableEq κ]

/-- `register` up to the call of the auction. -/
def register (a : OrderAuth κ) (blk : Block) (s : ReactorState κ) (order : SignedOrder) :
    Except Revert (ReactorState κ) := do
  nonReentrant s.entered
  let orderHash := a.hashOrder order.info
  require (s.cancelled orderHash = false) "cancelled"
  validateOrder a blk s order
  return { s with
    orderSwapper := update s.orderSwapper orderHash order.info.swapper
    orderNonce := update s.orderNonce orderHash order.info.nonce }

/-! ## Chunks -/

def minFill (info : OrderInfo) : Except Revert Nat := do
  let scaled ← checkedMul info.inputAmount info.minFillBps
  return scaled / 10000

def checkMinFill (info : OrderInfo) (fillAmount : Nat) : Except Revert Unit := do
  let floor ← minFill info
  require (floor ≤ fillAmount) "fill < minimum"

/-- The price of a chunk at this block, and the cursor it leaves: the first
fill starts the curve at the signed price, later ones read it. -/
def chunkPrice (blk : Block) (cursor : DecayCursor) (info : OrderInfo) (isFirstFill : Bool) :
    Except Revert (Nat × DecayCursor) := do
  if isFirstFill then
    let started := DecayCursorLib.init info.startPrice info.decayPerBlock (toUint 64 blk.number)
    return (info.startPrice, DecayCursorLib.reset started info.startPrice (toUint 64 blk.number))
  let price ← DecayCursorLib.getCurrentPrice blk cursor
  return (price, DecayCursorLib.reset cursor price (toUint 64 blk.number))

/-- What a chunk computed before its interactions. -/
structure OpenChunk where
  isFirstFill : Bool
  currentRemaining : Nat
  newRemaining : Nat
  currentPrice : Nat
  outputAmount : Nat
  minChunk : Nat
deriving DecidableEq

/-- The checks of `_executePartialChunk`, with the auction's answer about
the sender's registration; returns the amounts before and after. -/
def chunkChecks (a : OrderAuth κ) (blk : Block) (s : ReactorState κ) (validRegistration : Bool)
    (order : SignedOrder) (fillAmount : Nat) : Except Revert Nat := do
  let orderHash := a.hashOrder order.info
  nonReentrant s.entered
  require (s.cancelled orderHash = false) "cancelled"
  require (s.fallbackInitiated orderHash = false) "fallback initiated"
  require (s.nonceInvalidated order.info.swapper order.info.nonce = false) "nonce invalidated"
  require (validRegistration = true) "not registered"
  require (fillAmount ≤ maxUint 160) "fill overflow"
  onlyIf (RemainingLib.isNewOrder (s.remaining orderHash) = true) (validateOrder a blk s order)
  require (blk.number ≤ order.info.deadline) "expired"
  let currentRemaining := RemainingLib.remaining (s.remaining orderHash) order.info.inputAmount
  require (fillAmount ≤ currentRemaining) "fill > remaining"
  -- completing the order is exempt, and then the minimum is not computed
  onlyIf (fillAmount ≠ currentRemaining) (checkMinFill order.info fillAmount)
  return currentRemaining

/-- `_executePartialChunk` up to its interactions. -/
def chunkOpen (a : OrderAuth κ) (blk : Block) (s : ReactorState κ) (validRegistration : Bool)
    (order : SignedOrder) (fillAmount : Nat) : Except Revert (ReactorState κ × OpenChunk) := do
  let info := order.info
  let orderHash := a.hashOrder info
  let currentRemaining ← chunkChecks a blk s validRegistration order fillAmount
  let isFirstFill := RemainingLib.isNewOrder (s.remaining orderHash)
  let newRemaining := currentRemaining - fillAmount
  let (currentPrice, cursor) ← chunkPrice blk (s.cursors orderHash) info isFirstFill
  let outputAmount ← mulDiv fillAmount currentPrice (10 ^ 18)
  let minChunk ← mulDiv info.minOutputAmount fillAmount info.inputAmount
  return ({ s with
    entered := true
    remaining := update s.remaining orderHash (RemainingLib.store newRemaining)
    cursors := update s.cursors orderHash cursor },
    ⟨isFirstFill, currentRemaining, newRemaining, currentPrice, outputAmount, minChunk⟩)

/-- The floors of a chunk on what the swapper received, and the cumulative
output; the guard is released once the auction settled the registration. -/
def chunkClose (a : OrderAuth κ) (s : ReactorState κ) (msgSender : Address) (info : OrderInfo)
    (fillAmount : Nat) (c : OpenChunk) (received : Nat) : Except Revert (ReactorState κ) := do
  let orderHash := a.hashOrder info
  require (c.minChunk ≤ received) "min output"
  let paid ← checkedAdd (s.paidOutput orderHash) received
  onlyIf (c.newRemaining = 0) (require (info.minOutputAmount ≤ paid) "min output total")
  return { s with
    paidOutput := update s.paidOutput orderHash paid
    events := .partialFillExecuted orderHash msgSender fillAmount received :: s.events
    entered := false }

/-! ## The fallback's hooks -/

def markFallbackInitiated (s : ReactorState κ) (msgSender : Address) (orderHash : κ) :
    Except Revert (ReactorState κ) := do
  require (msgSender = s.fallbackExecutor) "not fallbackExecutor"
  require (s.cancelled orderHash = false) "cancelled"
  return { s with
    fallbackInitiated := update s.fallbackInitiated orderHash true
    remaining := update s.remaining orderHash RemainingLib.fullyFilled }

def recordFallbackOutput (s : ReactorState κ) (msgSender : Address) (orderHash : κ)
    (amountOut minOutputAmount : Nat) : Except Revert (ReactorState κ) := do
  require (msgSender = s.fallbackExecutor) "not fallbackExecutor"
  let paid ← checkedAdd (s.paidOutput orderHash) amountOut
  require (minOutputAmount ≤ paid) "min output total"
  return { s with paidOutput := update s.paidOutput orderHash paid }

/-! ## The swapper's controls -/

omit [DecidableEq κ] in
def invalidateNonce (s : ReactorState κ) (msgSender : Address) (nonce : Uint 256) :
    ReactorState κ :=
  { s with
    nonceInvalidated := update₂ s.nonceInvalidated msgSender nonce true
    events := .nonceInvalidated msgSender nonce :: s.events }

def cancelOrder (a : OrderAuth κ) (s : ReactorState κ) (msgSender : Address)
    (info : OrderInfo) : Except Revert (ReactorState κ) := do
  require (msgSender = info.swapper) "not swapper"
  let orderHash := a.hashOrder info
  require (s.cancelled orderHash = false) "already cancelled"
  return { s with
    cancelled := update s.cancelled orderHash true
    events := .orderCancelled orderHash msgSender :: s.events }

end PartialFillReactor

end NeutronX
