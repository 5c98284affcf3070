import NeutronX.CrossChain.EscrowDst
import NeutronX.CrossChain.Filler
import NeutronX.Evm.Runs

/-!
# The process of one fill

Once a fill is quoted and its secret saved, `driveToCompletion` does the
rest; where the process stops, at any question, `crossChainResume` starts
it over. A transaction outlives the process that sent it: the node mines it
or drops it when it likes, and what the process waits for is the receipt.

Here the backend and both sides of both chains answer for themselves. One
process of the fill runs at a time. Whatever else the filler does, and
whatever anyone does, comes in between.
-/

namespace NeutronX.CrossChain

open Evm Function

/-- The chain whose orders have these legs. -/
def ChainLegs.chainAId : ChainLegs → Nat
  | .chainA => CoWFiller.chainAId
  | .chainB => CoWFiller.chainBId

namespace Ask

variable {κ A : Type}

def isTransaction : Ask κ A → Bool
  | .fillSlot .. | .withdraw .. | .dstTransfer .. | .dstDeploy .. => true
  | _ => false

/-- What `tx.wait()` returns to the program. -/
def confirmed (transactionHash : Nat) : (q : Ask κ A) → Option q.Answer
  | .fillSlot .. | .dstTransfer .. | .dstDeploy .. => some ()
  | .withdraw .. => some (toString transactionHash)
  | _ => none

end Ask

/-- The filler, the destination side of the orders with each legs, and the
backend. -/
structure FillNetwork (κ A W : Type) [Zero A] extends CoWFiller κ A W where
  destination : ChainLegs → DestinationChain A W
  service : Service κ A Bytes32

/-- A fill that the filler quoted. -/
structure QuotedFill (κ : Type) where
  legs : ChainLegs
  orderHash : κ
  fillId : Nat
  hashlock : Bytes32
  fillAmount : Nat

namespace FillProcess

open CoWFiller (driveToCompletion crossChainResume)

/-! ## States -/

/-- A transaction that is not mined yet. -/
structure Sent (κ A : Type) where
  transactionHash : Nat
  ask : Ask κ A

structure State (κ A W : Type) where
  service : ServiceState κ A Bytes32
  source : ChainLegs → SourceState κ A W
  destination : ChainLegs → DestinationState A W
  secrets : Nat → Option Bytes32
  /-- what is left of the program; it has ended where nothing is asked -/
  task : Task κ A String
  /-- the transaction whose receipt it waits for -/
  awaiting : Option Nat
  /-- hashes of transactions -/
  used : List Nat
  sent : List (Sent κ A)
  /-- whether a transaction that was mined went through -/
  receipts : Nat → Option Bool
  /-- history, newest first: the transactions that went through -/
  effects : List (Ask κ A)

variable {κ A W : Type}

/-- After the deployments, before the first program. -/
def init (tokens dstTokens : ChainLegs → W) (block : ChainLegs → Block) : State κ A W where
  service := .init
  source := fun legs => SourceChain.deployed (tokens legs) (block legs)
  destination := fun legs => DestinationChain.deployed (dstTokens legs) (block legs)
  secrets := fun _ => none
  task := .throw ""
  awaiting := none
  used := []
  sent := []
  receipts := fun _ => none
  effects := []

namespace State

def setSource (s : State κ A W) (legs : ChainLegs) (c : SourceState κ A W) : State κ A W :=
  { s with source := update s.source legs c }

def setDestination (s : State κ A W) (legs : ChainLegs) (c : DestinationState A W) :
    State κ A W :=
  { s with destination := update s.destination legs c }

/-- The process is killed, or a call of it throws. -/
def stop (s : State κ A W) : State κ A W := { s with task := .throw "", awaiting := none }

end State

variable [DecidableEq κ] [Zero A] [DecidableEq A] (n : FillNetwork κ A W) (F : QuotedFill κ)

/-- The address of the fill's destination clone. -/
def dstEscrow : A := (n.destination F.legs).computeAddress F.hashlock n.wallet

/-- There is code at it. -/
def dstDeployed (s : State κ A W) : Bool :=
  ((s.destination F.legs).escrows F.hashlock n.wallet).terms.isSome

omit [DecidableEq κ] [Zero A] [DecidableEq A] in
/-- The backend has the fill and its order. -/
def Recorded (s : State κ A W) : Prop :=
  ∃ r ∈ s.service.db.fills F.fillId, ∃ o ∈ s.service.db.orders F.orderHash,
    r.hashlock = F.hashlock ∧ (r.fillAmount : Nat) = F.fillAmount ∧ o.chainAId = F.legs.chainAId

omit [DecidableEq κ] [Zero A] [DecidableEq A] in
instance (s : State κ A W) : Decidable (Recorded F s) :=
  inferInstanceAs (Decidable (∃ r ∈ s.service.db.fills F.fillId, _))

/-! ## Answers -/

omit [DecidableEq κ] [Zero A] [DecidableEq A] in
def orderData (o : OrderRow A) : OrderData A := ⟨o.info, o.swapperSig, o.chainAId⟩

omit [DecidableEq κ] [Zero A] [DecidableEq A] in
def fillData (r : FillRow κ A Bytes32) : FillData :=
  ⟨r.hashlock, r.fillAmount, Fin.ofNat (2 ^ 256) r.t1, Fin.ofNat (2 ^ 256) r.t2, r.swapperSig,
    r.status⟩

/-- The answer to a question that is no transaction; `other` is whether there
is code at an address that is not the clone's. Where there is no answer the
call throws. -/
def reply (s : State κ A W) (now : Nat) (other : Bool) : (q : Ask κ A) → Option q.Answer
  | .dateNow => some now
  | .sleep _ => some ()
  | .getOrder orderHash => (s.service.db.orders orderHash).map orderData
  | .getFill fillId => (s.service.db.fills fillId).map fillData
  | .loadSecret fillId => some (s.secrets fillId)
  | .computeAddress legs orderHash hashlock =>
      some ((n.chain legs).computeAddress orderHash hashlock)
  | .isFilled legs orderHash hashlock =>
      some ((s.source legs).escrows orderHash hashlock).fill.isSome
  | .previewRequiredStake legs fillAmount inputToken feeTier t1 =>
      (SourceChain.requiredStake (n.chain legs) (s.source legs) fillAmount inputToken feeTier
        t1).toOption
  | .dstComputeAddress legs hashlock filler =>
      some ((n.destination legs).computeAddress hashlock filler)
  | .dstHasCode legs escrow =>
      some (if legs = F.legs ∧ escrow = dstEscrow n F then dstDeployed n F s else other)
  | .dstBalanceOf legs token account =>
      some ((n.destination legs).balanceOf (s.destination legs).tokens token account)
  -- the rest is asked before the fill is quoted
  | _ => none

/-! ## Transactions -/

omit [DecidableEq κ] in
/-- What the code outside calls while a transaction has handed control to it,
and whether a receiver takes its ETH. -/
structure Callbacks (n : FillNetwork κ A W) where
  source : (legs : ChainLegs) → List (List (Call (SourceChain.Label (n.chain legs))))
  destination : List (List (Call (DestinationChain.Label A W)))
  accepted : Bool

omit [DecidableEq κ] [DecidableEq A] in
/-- `transfer` of a token, which can call back. -/
def transfer (d : DestinationChain A W) (s : DestinationState A W) (msgSender token to_ : A)
    (amount : Nat) : Prog (DestinationState A W) Revert :=
  .attempt (d.safeTransfer s.tokens msgSender token to_ amount) fun tokens =>
  .yield { s with tokens } .done

/-- A call of the wallet's on the source side. -/
def callSource (s : State κ A W) (called : Callbacks n) (legs : ChainLegs)
    (label : SourceChain.Label (n.chain legs)) : Except Revert (State κ A W) := do
  let c ← exec (SourceChain.body (n.chain legs)) (.mk label (called.source legs)) (s.source legs)
  return s.setSource legs c

/-- A transaction of the wallet is executed. -/
def execute (s : State κ A W) (called : Callbacks n) : Ask κ A → Except Revert (State κ A W)
  | .fillSlot legs info swapperSig auth perFillSig value =>
      callSource n s called legs
        (.fillSlot (n.account legs) value info swapperSig auth perFillSig)
  | .withdraw legs escrow secret =>
      if escrow = (n.chain legs).computeAddress F.orderHash F.hashlock then
        callSource n s called legs (.withdraw F.orderHash F.hashlock secret called.accepted)
      -- no other escrow is withdrawn from
      else return s
  | .dstTransfer legs token to_ amount => do
      let d := n.destination legs
      let c ← Evm.resume (DestinationChain.body d) called.destination
        (transfer d (s.destination legs) n.wallet token to_ amount)
      return s.setDestination legs c
  | .dstDeploy legs hashlock swapper token amount t2 => do
      let label := .deploy n.wallet hashlock swapper token amount t2
      let c ← exec (DestinationChain.body (n.destination legs)) (.mk label called.destination)
        (s.destination legs)
      return s.setDestination legs c
  | _ => return s

/-- A transaction is mined; one that reverts changes nothing. -/
def mine (s : State κ A W) (transactionHash : Nat) (called : Callbacks n) : State κ A W :=
  match s.sent.find? fun t => t.transactionHash = transactionHash with
  | some t =>
      let sent := s.sent.filter fun t => t.transactionHash ≠ transactionHash
      match execute n F s called t.ask with
      | .ok s' => { s' with
          sent
          receipts := update s.receipts transactionHash (some true)
          effects := t.ask :: s.effects }
      | .error _ => { s with sent, receipts := update s.receipts transactionHash (some false) }
  | none => s

omit [DecidableEq κ] [Zero A] [DecidableEq A] in
/-- It never will be. -/
def discard (s : State κ A W) (transactionHash : Nat) : State κ A W :=
  { s with sent := s.sent.filter fun t => t.transactionHash ≠ transactionHash }

/-! ## The process -/

omit [DecidableEq κ] [Zero A] [DecidableEq A] in
/-- A program starts where none is under way. -/
def start (s : State κ A W) (task : Task κ A String) : State κ A W :=
  if s.task.pending = none ∧ Recorded F s then { s with task } else s

def answer (s : State κ A W) (now : Nat) (other : Bool) : State κ A W :=
  match s.task with
  | .ask q k =>
      if q.isTransaction then s
      else
        match reply n F s now other q with
        | some a => { s with task := k a }
        | none => s.stop
  | _ => s

omit [DecidableEq κ] [Zero A] [DecidableEq A] in
def send (s : State κ A W) (transactionHash : Nat) : State κ A W :=
  match s.task with
  | .ask q _ =>
      if q.isTransaction = true ∧ s.awaiting = none ∧ transactionHash ∉ s.used then
        { s with
          awaiting := some transactionHash
          used := transactionHash :: s.used
          sent := ⟨transactionHash, q⟩ :: s.sent }
      else s
  | _ => s

omit [DecidableEq κ] [Zero A] [DecidableEq A] in
/-- The receipt the program waits for. -/
def outcome (s : State κ A W) : Option (Nat × Bool) :=
  s.awaiting.bind fun transactionHash =>
    (s.receipts transactionHash).map fun succeeded => (transactionHash, succeeded)

omit [DecidableEq κ] [Zero A] [DecidableEq A] in
/-- `tx.wait()` returns, or throws because the transaction was reverted. -/
def receipt (s : State κ A W) : State κ A W :=
  match outcome s, s.task with
  | some (transactionHash, true), .ask q k =>
      match q.confirmed transactionHash with
      | some a => { s with task := k a, awaiting := none }
      | none => s
  | some (_, false), _ => s.stop
  | _, _ => s

/-! ## Runs -/

omit [DecidableEq κ] in
inductive Action (n : FillNetwork κ A W) where
  | source (legs : ChainLegs)
      (tx : Tx (SourceChain.Label (n.chain legs)) SourceChain.Elapse)
  | destination (legs : ChainLegs) (tx : Tx (DestinationChain.Label A W) SourceChain.Elapse)
  | service (m : Service.Move κ A Bytes32)
  /-- the file of secrets is lost -/
  | lost
  /-- what `crossChainFill` does after the quote; the order is the one it read
  before -/
  | drive (polls : Nat) (secret : Bytes32) (order : OrderData A) (t2 : Nat)
      (opts : CrossChainFillOptions)
  | resume (polls : Nat) (opts : CrossChainFillOptions)
  | answer (now : Nat) (other : Bool)
  | send (transactionHash : Nat)
  | mine (transactionHash : Nat) (called : Callbacks n)
  | discard (transactionHash : Nat)
  | receipt
  | stop

def step (s : State κ A W) : Action n → State κ A W
  | .source legs tx => s.setSource legs
      (stepTx (SourceChain.body (n.chain legs)) SourceChain.elapse tx (s.source legs))
  | .destination legs tx => s.setDestination legs
      (stepTx (DestinationChain.body (n.destination legs)) DestinationChain.elapse tx
        (s.destination legs))
  | .service m => { s with service := n.service.move s.service m }
  | .lost => { s with secrets := fun _ => none }
  | .drive polls secret order t2 opts =>
      start F { s with secrets := update s.secrets F.fillId (some secret) }
        (driveToCompletion n.toCoWFiller polls F.orderHash F.fillId F.hashlock secret order F.legs
          F.fillAmount t2 opts)
  | .resume polls opts =>
      start F s (crossChainResume n.toCoWFiller polls F.orderHash F.fillId opts)
  | .answer now other => answer n F s now other
  | .send transactionHash => send s transactionHash
  | .mine transactionHash called => mine n F s transactionHash called
  | .discard transactionHash => discard s transactionHash
  | .receipt => receipt s
  | .stop => s.stop

end FillProcess

end NeutronX.CrossChain
