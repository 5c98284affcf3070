import NeutronX.Reactor

/-!
# FallbackExecutor

The router allowlist, and the checks `executeFallback` makes before it
takes an order over. The rest of `executeFallback` moves tokens around
calls to code outside the system, and is modelled with the system.
-/

namespace NeutronX

open Evm Function

inductive FallbackEvent (κ : Type) where
  | fallbackExecuted (orderHash : κ) (amountIn amountOut : Nat)
  | routerAllowed (router approveTarget : Address) (allowed : Bool)

structure FallbackState (κ : Type) where
  /-- the spender to approve for an allowlisted router, 0 for the others -/
  approveTargetOf : Address → Address
  /-- the reentrancy guard -/
  entered : Bool
  events : List (FallbackEvent κ)

namespace FallbackExecutor

variable {κ : Type}

def FALLBACK_WINDOW : Nat := 10

/-- The state after the constructor. -/
def deployed (initialRouter : Address) : FallbackState κ where
  approveTargetOf := update (fun _ => 0) initialRouter initialRouter
  entered := false
  events := [.routerAllowed initialRouter initialRouter true]

def setRouterAllowed (owner : Address) (s : FallbackState κ)
    (msgSender router approveTarget : Address) (allowed : Bool) :
    Except Revert (FallbackState κ) := do
  require (msgSender = owner) "not owner"
  require (router ≠ 0) "zero router"
  onlyIf (allowed = true) (require (approveTarget ≠ 0) "zero approve target")
  return { s with
    approveTargetOf := update s.approveTargetOf router (if allowed then approveTarget else 0)
    events := .routerAllowed router approveTarget allowed :: s.events }

/-- What `executeFallback` knows before it moves anything. -/
structure OpenFallback where
  approveTarget : Address
  rem : Nat
deriving DecidableEq

/-- The checks of `executeFallback`: an allowlisted router, an authentic
order near its deadline, something left to fill. -/
def openChecks (a : OrderAuth κ) (blk : Block) (reactor : ReactorState κ) (s : FallbackState κ)
    (order : SignedOrder) (router : Address) : Except Revert OpenFallback := do
  nonReentrant s.entered
  let approveTarget := s.approveTargetOf router
  require (approveTarget ≠ 0) "router not allowed"
  let orderHash := a.hashOrder order.info
  PartialFillReactor.validateOrder a blk reactor order
  require (blk.number ≤ order.info.deadline) "order expired"
  let blocksLeft ← checkedSub order.info.deadline blk.number
  require (blocksLeft ≤ FALLBACK_WINDOW) "too early"
  let rem := PartialFillReactor.remainingInput reactor orderHash order.info.inputAmount
  require (0 < rem) "already filled"
  return ⟨approveTarget, rem⟩

end FallbackExecutor

end NeutronX
