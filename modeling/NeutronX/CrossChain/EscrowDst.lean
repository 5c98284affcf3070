import NeutronX.CrossChain.SourceChain

/-!
# The destination chain

`EscrowDst` and its factory. An escrow is deployed and initialised in one
call that hands control to nobody, so an address has code exactly when it
has terms, and the public `initialize` of a clone always finds it
initialised. Its address is derived from the hashlock and the account that
deployed it. `claim` and `refund` hand control to the token, and nothing
else does.
-/

namespace NeutronX.CrossChain

open Evm Function

/-! ## State of an escrow -/

structure DstTerms (A : Type) where
  hashlock : Bytes32
  filler : A
  recipient : A
  token : A
  amount : Nat
  expiry : Nat
deriving DecidableEq

structure EscrowDst (A : Type) where
  /-- `none` while there is no code at the address -/
  terms : Option (DstTerms A)
  claimed : Bool
  refunded : Bool
  mutex : Bool
  /-- history, newest first: the token amounts that were sent -/
  payouts : List (Payout A)

namespace EscrowDst

variable {A : Type}

def vacant : EscrowDst A := ⟨none, false, false, false, []⟩

def nonReentrant (e : EscrowDst A) : Except Revert Unit := require (e.mutex = false) "reentrant"

/-- `_initialized`, for the functions that read the terms. -/
def initialized (e : EscrowDst A) : Except Revert (DstTerms A) :=
  match e.terms with
  | some t => .ok t
  | none => .error (.require "not init")

/-- `initialize`; `held` is the clone's own balance of the token. -/
def initializeClone [Zero A] [DecidableEq A] (blk : Block) (e : EscrowDst A) (held : Nat)
    (t : DstTerms A) : Except Revert (EscrowDst A) := do
  require (e.terms.isNone = true) "already init"
  require (t.recipient ≠ 0) "zero recipient"
  require (t.filler ≠ 0) "zero filler"
  require (0 < t.amount) "zero amount"
  require (blk.timestamp < t.expiry) "expiry in past"
  require (t.hashlock ≠ 0) "zero hashlock"
  require (t.amount ≤ held) "underfunded"
  return { e with terms := some t }

/-- `claim` up to and including the transfer of the tokens. -/
def claimStart (keccak : Bytes32 → Bytes32) (blk : Block) (e : EscrowDst A) (secret : Bytes32) :
    Except Revert (EscrowDst A × DstTerms A) := do
  nonReentrant e
  let t ← initialized e
  require (e.claimed = false ∧ e.refunded = false) "settled"
  require (blk.timestamp ≤ t.expiry) "expired"
  require (keccak secret = t.hashlock) "wrong secret"
  return ({ e with
    mutex := true
    claimed := true
    payouts := ⟨t.recipient, t.amount, blk.timestamp, some secret⟩ :: e.payouts }, t)

/-- `refund` up to and including the transfer of the tokens. -/
def refundStart [DecidableEq A] (blk : Block) (e : EscrowDst A) (msgSender : A) :
    Except Revert (EscrowDst A × DstTerms A) := do
  nonReentrant e
  let t ← initialized e
  require (e.claimed = false ∧ e.refunded = false) "settled"
  require (t.expiry < blk.timestamp) "not expired"
  require (msgSender = t.filler) "not filler"
  return ({ e with
    mutex := true
    refunded := true
    payouts := ⟨t.filler, t.amount, blk.timestamp, none⟩ :: e.payouts }, t)

/-- The end of a `nonReentrant` function. -/
def release (e : EscrowDst A) : EscrowDst A := { e with mutex := false }

end EscrowDst

/-! ## The chain -/

/-- The primitives of the chain and the code outside; an address tells the
hashlock and the deployer it was derived from. -/
structure DestinationChain (A W : Type) [Zero A] extends TokenCode A W where
  keccak : Bytes32 → Bytes32
  computeAddress : Bytes32 → A → A
  computeAddress_injective : Injective2 computeAddress

inductive DestinationEvent (A : Type) where
  | escrowCreated (escrow filler : A) (hashlock : Bytes32) (recipient token : A)
      (amount expiry : Nat)
  /-- emitted by the clone at `escrow` -/
  | claimed (escrow claimer : A) (secret : Bytes32)
  /-- emitted by the clone at `escrow` -/
  | refunded (escrow filler : A) (amount : Nat)
deriving DecidableEq

structure DestinationState (A W : Type) where
  /-- by hashlock and deployer -/
  escrows : Bytes32 → A → EscrowDst A
  tokens : W
  block : Block
  /-- newest first, with the number of the block -/
  events : List (Nat × DestinationEvent A)

namespace DestinationChain

variable {A W : Type}

def deployed (tokens : W) (block : Block) : DestinationState A W where
  escrows := fun _ _ => .vacant
  tokens := tokens
  block := block
  events := []

def emit (s : DestinationState A W) (e : DestinationEvent A) : DestinationState A W :=
  { s with events := (s.block.number, e) :: s.events }

variable [DecidableEq A]

def setEscrow (s : DestinationState A W) (hashlock : Bytes32) (filler : A) (e : EscrowDst A) :
    DestinationState A W :=
  { s with escrows := update₂ s.escrows hashlock filler e }

variable [Zero A] (d : DestinationChain A W)

/-- `EscrowDstFactory.deploy`. -/
def deploy (s : DestinationState A W) (msgSender : A) (hashlock : Bytes32)
    (recipient token : A) (amount expiry : Nat) : Except Revert (DestinationState A W) := do
  let escrow := d.computeAddress hashlock msgSender
  let e := s.escrows hashlock msgSender
  requireCustom (e.terms.isNone = true) "FailedDeployment"
  let e ← EscrowDst.initializeClone s.block e (d.balanceOf s.tokens token escrow)
    ⟨hashlock, msgSender, recipient, token, amount, expiry⟩
  return emit (setEscrow s hashlock msgSender e)
    (.escrowCreated escrow msgSender hashlock recipient token amount expiry)

/-- The escrow of `(hashlock, filler)` sends what it holds. -/
def payOut (s : DestinationState A W) (hashlock : Bytes32) (filler : A) (t : DstTerms A)
    (to_ : A) (e : EscrowDst A) : Except Revert (DestinationState A W) := do
  let tokens ← d.safeTransfer s.tokens (d.computeAddress hashlock filler) t.token to_ t.amount
  return { setEscrow s hashlock filler e with tokens }

def claimStart (s : DestinationState A W) (hashlock : Bytes32) (filler : A) (secret : Bytes32) :
    Except Revert (DestinationState A W) := do
  let (e, t) ← EscrowDst.claimStart d.keccak s.block (s.escrows hashlock filler) secret
  payOut d s hashlock filler t t.recipient e

def claimEnd (s : DestinationState A W) (msgSender : A) (hashlock : Bytes32) (filler : A)
    (secret : Bytes32) : Except Revert (DestinationState A W) := do
  return emit (setEscrow s hashlock filler (EscrowDst.release (s.escrows hashlock filler)))
    (.claimed (d.computeAddress hashlock filler) msgSender secret)

def claim (s : DestinationState A W) (msgSender : A) (hashlock : Bytes32) (filler : A)
    (secret : Bytes32) : Prog (DestinationState A W) Revert :=
  .attempt (claimStart d s hashlock filler secret) fun s =>
  .yield s fun s =>
  .attempt (claimEnd d s msgSender hashlock filler secret) .done

def refundStart (s : DestinationState A W) (msgSender : A) (hashlock : Bytes32) (filler : A) :
    Except Revert (DestinationState A W) := do
  let (e, t) ← EscrowDst.refundStart s.block (s.escrows hashlock filler) msgSender
  payOut d s hashlock filler t t.filler e

def refundEnd (s : DestinationState A W) (hashlock : Bytes32) (filler : A) :
    Except Revert (DestinationState A W) := do
  let t ← EscrowDst.initialized (s.escrows hashlock filler)
  return emit (setEscrow s hashlock filler (EscrowDst.release (s.escrows hashlock filler)))
    (.refunded (d.computeAddress hashlock filler) t.filler t.amount)

def refund (s : DestinationState A W) (msgSender : A) (hashlock : Bytes32) (filler : A) :
    Prog (DestinationState A W) Revert :=
  .attempt (refundStart d s msgSender hashlock filler) fun s =>
  .yield s fun s =>
  .attempt (refundEnd d s hashlock filler) .done

/-! ## Calls and runs -/

omit [DecidableEq A] [Zero A] in
/-- The entry points. -/
inductive Label (A W : Type) where
  | deploy (msgSender : A) (hashlock : Bytes32) (recipient token : A) (amount expiry : Nat)
  | claim (msgSender : A) (hashlock : Bytes32) (filler : A) (secret : Bytes32)
  | refund (msgSender : A) (hashlock : Bytes32) (filler : A)
  /-- anything anyone does to tokens -/
  | tokens (f : W → W)

def body : Label A W → DestinationState A W → Prog (DestinationState A W) Revert
  | .deploy msgSender hashlock recipient token amount expiry, s =>
      .attempt (deploy d s msgSender hashlock recipient token amount expiry) .done
  | .claim msgSender hashlock filler secret, s => claim d s msgSender hashlock filler secret
  | .refund msgSender hashlock filler, s => refund d s msgSender hashlock filler
  | .tokens f, s => .done { s with tokens := f s.tokens }

omit [DecidableEq A] [Zero A] in
def elapse (t : SourceChain.Elapse) (s : DestinationState A W) : DestinationState A W :=
  { s with block := ⟨s.block.number + t.blocks, s.block.timestamp + t.seconds⟩ }

/-- Transactions, each with whatever the code outside calls back, and time
between them. -/
def run (txs : List (Tx (Label A W) SourceChain.Elapse)) (s : DestinationState A W) :
    DestinationState A W :=
  runTxs (body d) elapse txs s

/-- A state between transactions. -/
def Reachable (s : DestinationState A W) : Prop :=
  ∃ tokens block txs, s = run d txs (deployed tokens block)

end DestinationChain

end NeutronX.CrossChain
