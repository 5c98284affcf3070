import Mathlib.Data.ZMod.Defs
import Mathlib.Logic.Function.Basic
import NeutronX.Order

/-!
# EscrowSrc

The escrow of the source chain, one clone a fill. A clone is an account at
a known address: it can hold ETH before there is code at the address, and
its storage starts at zero. `withdraw`, `cancel` and `claimEth` call out
(the token, the receiver of ETH, the factory), so each is cut there into
pieces; the pieces act on the storage of one clone, and what they do to
tokens and to the factory belongs to the source chain.

The mutex of the source is a flag. Here it also says which call holds it
and how far that call has come, so that the rest of a call that was
interrupted can be told from its state alone.
-/

namespace NeutronX.CrossChain

open Evm Function

abbrev Bytes32 := Uint 256

/-! ## What a fill is authorised by -/

/-- `EscrowSrcFactory.OrderInfo`: the intent, signed once. -/
structure OrderInfo (A : Type) where
  swapper : A
  inputToken : A
  inputAmount : Uint 256
  outputToken : A
  minOutput : Uint 256
  deadlineBase : Uint 256
  nonce : Uint 256
  feeTier : Uint 24
deriving DecidableEq

/-- `EscrowSrcFactory.FillAuth`: the terms of one fill, signed per fill. -/
structure FillAuth (κ : Type) where
  orderHash : κ
  hashlock : Bytes32
  fillAmount : Uint 256
  t1 : Uint 256
  t2 : Uint 256
deriving DecidableEq

/-- A call of `fillSlot`: the order, the authorisation, `msg.sender` and
`msg.value`. -/
structure Fill (κ A : Type) where
  order : OrderInfo A
  auth : FillAuth κ
  filler : A
  bond : Nat
deriving DecidableEq

/-! ## State -/

/-- The arguments of `initialize`. -/
structure InitArgs (κ A : Type) where
  hashlock : Bytes32
  filler : A
  swapper : A
  token : A
  amount : Nat
  expiry : Nat
  orderHash : κ
  factory : A
deriving DecidableEq

/-- What `initialize` stores. -/
structure Terms (κ A : Type) extends InitArgs κ A where
  safetyDeposit : Nat
deriving DecidableEq

/-- Who holds the mutex, and how far the call has come. -/
inductive Stage where
  /-- `withdraw` has sent the tokens -/
  | withdrawing (secret : Bytes32)
  /-- and paid the deposit -/
  | withdrawn (secret : Bytes32)
  /-- `cancel` has sent the tokens -/
  | cancelling
  /-- and paid the deposit -/
  | refunded
  | claimingEth
deriving DecidableEq

/-- One transfer of the escrowed tokens; a withdrawal has its secret. -/
structure Payout (A : Type) where
  to_ : A
  amount : Nat
  time : Nat
  secret : Option Bytes32
deriving DecidableEq

structure EscrowSrc (κ A : Type) where
  /-- history: the fill the clone was deployed for; there is no code at the
  address before that -/
  fill : Option (Fill κ A)
  /-- `none` while `_initialized` is false -/
  terms : Option (Terms κ A)
  claimed : Bool
  cancelled : Bool
  mutex : Option Stage
  pendingEth : A → Nat
  /-- the ETH balance of the address -/
  balance : Nat
  /-- history, newest first: the token amounts that were sent -/
  payouts : List (Payout A)
  /-- history, newest first: to whom a safety deposit was paid or credited -/
  deposits : List (A × Nat)

namespace EscrowSrc

variable {κ A : Type}

/-- An address nothing happened at. -/
def vacant : EscrowSrc κ A where
  fill := none
  terms := none
  claimed := false
  cancelled := false
  mutex := none
  pendingEth := fun _ => 0
  balance := 0
  payouts := []
  deposits := []

def nonReentrant (c : EscrowSrc κ A) : Except Revert Unit :=
  require (c.mutex.isNone = true) "reentrant"

/-- `_initialized`, for the functions that read the terms. -/
def initialized (c : EscrowSrc κ A) : Except Revert (Terms κ A) :=
  match c.terms with
  | some t => .ok t
  | none => .error (.require "not init")

/-- The value of a payable call, or ETH that arrives without one. -/
def receiveEth (c : EscrowSrc κ A) (value : Nat) : Except Revert (EscrowSrc κ A) := do
  let balance ← checkedAdd c.balance value
  return { c with balance }

/-- `initialize`; `held` is the clone's own balance of the token. -/
def initializeClone [Zero A] [DecidableEq A] (blk : Block) (c : EscrowSrc κ A) (msgValue held : Nat)
    (a : InitArgs κ A) : Except Revert (EscrowSrc κ A) := do
  let c ← receiveEth c msgValue
  require (c.terms.isNone = true) "already init"
  require (a.swapper ≠ 0) "zero swapper"
  require (a.filler ≠ 0) "zero filler"
  require (0 < a.amount) "zero amount"
  require (blk.timestamp < a.expiry) "expiry in past"
  require (a.hashlock ≠ 0) "zero hashlock"
  require (a.factory ≠ 0) "zero factory"
  require (0 < msgValue) "zero safety deposit"
  require (a.amount ≤ held) "underfunded"
  return { c with terms := some { a with safetyDeposit := msgValue } }

/-! ## Settlement -/

/-- `withdraw` up to and including the transfer of the tokens. -/
def withdrawStart (keccak : Bytes32 → Bytes32) (blk : Block) (c : EscrowSrc κ A)
    (secret : Bytes32) : Except Revert (EscrowSrc κ A × Terms κ A) := do
  nonReentrant c
  let t ← initialized c
  require (c.claimed = false ∧ c.cancelled = false) "settled"
  require (blk.timestamp ≤ t.expiry) "expired"
  require (keccak secret = t.hashlock) "wrong secret"
  return ({ c with
    mutex := some (.withdrawing secret)
    claimed := true
    payouts := ⟨t.filler, t.amount, blk.timestamp, some secret⟩ :: c.payouts }, t)

/-- `cancel` up to and including the transfer of the tokens. -/
def cancelStart (blk : Block) (c : EscrowSrc κ A) :
    Except Revert (EscrowSrc κ A × Terms κ A) := do
  nonReentrant c
  let t ← initialized c
  require (c.claimed = false ∧ c.cancelled = false) "settled"
  require (t.expiry < blk.timestamp) "not expired"
  return ({ c with
    mutex := some .cancelling
    cancelled := true
    payouts := ⟨t.swapper, t.amount, blk.timestamp, none⟩ :: c.payouts }, t)

/-- `_payEth`: a push that fails, for want of balance or because the
receiver does not accept it, is credited instead. -/
def payEth [DecidableEq A] (c : EscrowSrc κ A) (to_ : A) (amt : Nat) (accepted : Bool) :
    Except Revert (EscrowSrc κ A) := do
  if accepted = true ∧ amt ≤ c.balance then
    return { c with balance := c.balance - amt }
  let owed ← checkedAdd (c.pendingEth to_) amt
  return { c with pendingEth := update c.pendingEth to_ owed }

/-- The deposit of a settlement, after which the call stands at `next`. -/
def payDeposit [DecidableEq A] (c : EscrowSrc κ A) (next : Stage) (to_ : A) (deposit : Nat)
    (accepted : Bool) : Except Revert (EscrowSrc κ A) := do
  if deposit = 0 then
    return { c with mutex := some next }
  let c ← payEth c to_ deposit accepted
  return { c with mutex := some next, deposits := (to_, deposit) :: c.deposits }

/-- The end of a `nonReentrant` function. -/
def release (c : EscrowSrc κ A) : EscrowSrc κ A := { c with mutex := none }

/-! ## Credited ETH -/

/-- `claimEth` up to the push. -/
def claimStart [Zero A] [DecidableEq A] (c : EscrowSrc κ A) (msgSender to_ : A) :
    Except Revert (EscrowSrc κ A) := do
  nonReentrant c
  require (to_ ≠ 0) "zero to"
  let amt := c.pendingEth msgSender
  require (0 < amt) "nothing to claim"
  require (amt ≤ c.balance) "eth claim failed"
  return { c with
    mutex := some .claimingEth
    pendingEth := update c.pendingEth msgSender 0
    balance := c.balance - amt }

/-- `claimEth` after the push, which the receiver accepted or not. -/
def claimReturn (c : EscrowSrc κ A) (accepted : Bool) : Except Revert (EscrowSrc κ A) := do
  require (accepted = true) "eth claim failed"
  return release c

end EscrowSrc

end NeutronX.CrossChain
