import NeutronX.CrossChain.EscrowDst
import NeutronX.CrossChain.Service
import NeutronX.Evm.LogWatcher

/-!
# The backend beside its chains

Every chain of the registry can be the source and the destination of
orders, and has two watchers. `escrowDstWatcher` looks up the quote an
`EscrowCreated` belongs to, checks the escrow against it and records it;
`escrowSrcWatcher` records `Filled`, `Withdrawn` and `Cancelled`; the
relayer claims what is revealed. A handler reads, then writes, and
everything else goes on in between.

An instruction (`Move`) carries whatever the code does not decide: what is
requested, what anyone does on a chain, which statement comes next, and
which of several rows a query without an order returns first.
-/

namespace NeutronX.CrossChain

open Evm Sql Function
open OrderService (check)

/-- What the backend committed to at quote time. -/
structure Expected (A : Type) where
  recipient : A
  token : A
  minAmount : Nat
  expiry : Nat
deriving DecidableEq

/-- An `EscrowCreated` and the quote that was found for it. -/
structure Lookup (κ A : Type) where
  orderHash : κ
  hashlock : Bytes32
  filler : A
  escrow : A
  expected : Expected A
deriving DecidableEq

/-- What `handleEscrowCreated` has reached. -/
inductive DstWork (κ A H : Type) where
  | found (q : Lookup κ A)
  | writing (st : Statement κ A H)
deriving DecidableEq

/-- The service, the registry's chains, and the relayer. A clone's address is
derived by CREATE2 on every chain, so it tells what it was derived from. -/
structure Backend (κ A W H : Type) [Zero A] where
  service : Service κ A H
  source : Nat → SourceChain κ A W
  destination : Nat → DestinationChain A W
  srcAddress_injective : ∀ {c c' k k' h h'},
    (source c).computeAddress k h = (source c').computeAddress k' h' → k = k' ∧ h = h'
  dstAddress_injective : ∀ {c c' h h' f f'},
    (destination c).computeAddress h f = (destination c').computeAddress h' f' → h = h' ∧ f = f'
  /-- the text of a hashlock in a log -/
  hex : Bytes32 → H
  hex_injective : Injective hex
  relayer : A
  /-- the text of an address -/
  text : A → String

abbrev SrcWatcher (κ A H : Type) := Watcher (SourceEvent κ A) (Statement κ A H)

abbrev DstWatcher (κ A H : Type) := Watcher (DestinationEvent A) (DstWork κ A H)

/-- Everything by chain id. -/
structure BackendState (κ A W H : Type) where
  service : ServiceState κ A H
  source : Nat → SourceState κ A W
  destination : Nat → DestinationState A W
  srcWatcher : Nat → SrcWatcher κ A H
  dstWatcher : Nat → DstWatcher κ A H

namespace BackendState

variable {κ A W H : Type}

/-- At the first start, on chains of any age. -/
def init (source : Nat → SourceState κ A W) (destination : Nat → DestinationState A W) :
    BackendState κ A W H :=
  ⟨ServiceState.init, source, destination, fun _ => .init, fun _ => .init⟩

abbrev db (s : BackendState κ A W H) : Db κ A H := s.service.db

def setSource (s : BackendState κ A W H) (c : Nat) (x : SourceState κ A W) :
    BackendState κ A W H :=
  { s with source := update s.source c x }

def setDestination (s : BackendState κ A W H) (c : Nat) (x : DestinationState A W) :
    BackendState κ A W H :=
  { s with destination := update s.destination c x }

def setSrcWatcher (s : BackendState κ A W H) (c : Nat) (w : SrcWatcher κ A H) :
    BackendState κ A W H :=
  { s with srcWatcher := update s.srcWatcher c w }

def setDstWatcher (s : BackendState κ A W H) (c : Nat) (w : DstWatcher κ A H) :
    BackendState κ A W H :=
  { s with dstWatcher := update s.dstWatcher c w }

end BackendState

/-! ## Queries -/

namespace Db

variable {κ A H : Type}

/-- The ids of the rows with `p`. -/
def fillsWhere (db : Db κ A H) (p : FillRow κ A H → Bool) : List Nat :=
  (List.range db.nextFillId).filter fun id => (db.fills id).any p

/-- `rows[0]` of a query without an order, which `choice` stands for. -/
def anyRow (db : Db κ A H) (p : FillRow κ A H → Bool) (choice : Nat) : Option (FillRow κ A H) :=
  let ids := db.fillsWhere p
  ids[choice % ids.length]?.bind db.fills

end Db

namespace SourceEvent

variable {κ A : Type}

def isFilledLog : SourceEvent κ A → Bool
  | .filled .. => true
  | _ => false

def isRawLog : SourceEvent κ A → Bool
  | .withdrawn .. | .cancelled .. => true
  | _ => false

end SourceEvent

namespace Backend

variable {κ A W H : Type} [Zero A] (b : Backend κ A W H)

section Handlers

variable [DecidableEq κ] [DecidableEq A] [DecidableEq H]

/-! ## escrowDstWatcher -/

omit [DecidableEq κ] [DecidableEq H] in
/-- What is wrong with the escrow, if anything. -/
def assertGenuineDstClone (s : DestinationState A W) (c : Nat) (hashlock : Bytes32)
    (filler escrowAddr : A) (expected : Expected A) : Except String Unit := do
  let predicted := (b.destination c).computeAddress hashlock filler
  check (predicted = escrowAddr)
    (s!"escrow {b.text escrowAddr} != CREATE2-predicted {b.text predicted} " ++
      "for this (hashlock, filler)")
  let some t := (s.escrows hashlock filler).terms
    | .error "no contract code at the predicted escrow address yet"
  check (t.recipient = expected.recipient)
    s!"recipient {b.text t.recipient} != expected swapper {b.text expected.recipient}"
  check (t.token = expected.token)
    s!"token {b.text t.token} != expected output token {b.text expected.token}"
  check (expected.minAmount ≤ t.amount)
    s!"amount {t.amount} below required {expected.minAmount}"
  check (t.expiry = expected.expiry) s!"expiry {t.expiry} != committed t2 {expected.expiry}"

/-- `handleEscrowCreated` up to its check: the quote of the hashlock, if it
is to be settled on this chain. -/
def findQuote (db : Db κ A H) (c : Nat) (escrow filler : A) (hashlock : Bytes32)
    (choice : Nat) : Option (Lookup κ A) := do
  let r ← db.anyRow (fun r => r.hashlock == b.hex hashlock && r.status == .quoted) choice
  let o ← db.orders r.orderHash
  if o.dstChainId = c then
    some ⟨r.orderHash, hashlock, filler, escrow,
      ⟨o.info.swapper, o.info.outputToken, r.fillAmount, r.t2⟩⟩
  else
    none

omit [DecidableEq κ] [DecidableEq H] in
/-- And the check, which reads the chain. -/
def checkQuote (s : DestinationState A W) (c : Nat) (q : Lookup κ A) :
    Option (Statement κ A H) :=
  match b.assertGenuineDstClone s c q.hashlock q.filler q.escrow q.expected with
  | .ok _ => some (.recordDstFunded q.orderHash (b.hex q.hashlock) q.escrow)
  | .error _ => none

def handleDst (db : Db κ A H) (c choice : Nat) : DestinationEvent A → Option (DstWork κ A H)
  | .escrowCreated escrow filler hashlock .. =>
      (b.findQuote db c escrow filler hashlock choice).map .found
  | _ => none

/-! ## escrowSrcWatcher -/

omit [DecidableEq κ] [DecidableEq H] in
def assertGenuineSrcClone (s : SourceState κ A W) (c : Nat) (orderHash : κ) (hashlock : Bytes32)
    (escrowAddr : A) : Except String Unit := do
  let predicted := (b.source c).computeAddress orderHash hashlock
  check (predicted = escrowAddr)
    (s!"escrow {b.text escrowAddr} != CREATE2-predicted {b.text predicted} " ++
      "for this (orderHash, hashlock)")
  check ((s.escrows orderHash hashlock).fill.isSome = true)
    "no contract code at the predicted escrow address yet"

omit [DecidableEq κ] [DecidableEq H] in
def handleFilled (s : SourceState κ A W) (c : Nat) (orderHash : κ) (hashlock : Bytes32)
    (filler escrow : A) : Option (Statement κ A H) :=
  match b.assertGenuineSrcClone s c orderHash hashlock escrow with
  | .ok _ => some (.recordSrcLocked orderHash (b.hex hashlock) escrow filler)
  | .error _ => none

omit [DecidableEq κ] [DecidableEq H] [Zero A] in
/-- The fill a log of the clone at `address` belongs to, and the statement
for it. -/
def handleSrcEscrowLog (db : Db κ A H) (address : A) (choice : Nat)
    (statement : κ → H → Statement κ A H) : Option (Statement κ A H) :=
  (db.anyRow (fun r => r.escrowSrcAddr == some address) choice).map fun r =>
    statement r.orderHash r.hashlock

omit [DecidableEq κ] [DecidableEq H] in
def handleSrc (s : SourceState κ A W) (db : Db κ A H) (c choice : Nat) :
    SourceEvent κ A → Option (Statement κ A H)
  | .filled orderHash hashlock filler escrow .. =>
      b.handleFilled s c orderHash hashlock filler escrow
  | .withdrawn escrow _ secret =>
      handleSrcEscrowLog db escrow choice fun k h => .recordReveal k h secret
  | .cancelled escrow .. => handleSrcEscrowLog db escrow choice .recordSlashed
  | _ => none

end Handlers

/-! ## Log queries -/

omit [Zero A] in
/-- The `Filled` of the factory, and after them what the clones emitted. -/
def srcLogs (events : List (Nat × SourceEvent κ A)) (fromBlock toBlock : Nat) :
    List (SourceEvent κ A) :=
  let logs := logsBetween events fromBlock toBlock
  logs.filter SourceEvent.isFilledLog ++ logs.filter SourceEvent.isRawLog

omit [Zero A] in
def dstLogs (events : List (Nat × DestinationEvent A)) (fromBlock toBlock : Nat) :
    List (DestinationEvent A) :=
  (logsBetween events fromBlock toBlock).filter fun | .escrowCreated .. => true | _ => false

/-! ## Instructions -/

inductive WatcherMove where
  | connect (current : Nat) (discard : Bool)
  | see (blockNumber : Nat)
  | fetch
  | handle (choice : Nat)
  | check
  | write
  | fail
  | finish (stored : Bool)
deriving DecidableEq

inductive Move (b : Backend κ A W H) where
  | request (now : Nat) (req : Request κ A H)
  | execute (place : Nat)
  | source (c : Nat) (tx : Tx (SourceChain.Label (b.source c)) SourceChain.Elapse)
  | destination (c : Nat) (tx : Tx (DestinationChain.Label A W) SourceChain.Elapse)
  | srcWatcher (c : Nat) (m : WatcherMove)
  | dstWatcher (c : Nat) (m : WatcherMove)
  /-- `relayRevealedFills` on one row, whose escrow is `(hashlock, filler)` -/
  | relay (c now id : Nat) (hashlock : Bytes32) (filler : A)
      (turns : List (List (Call (DestinationChain.Label A W))))
  | restart

/-- What either watcher does beside handling logs, if it is `started`;
`number` is the block that is not complete yet. -/
def watch {E J : Type} (started : Bool) (number : Nat) (select : Nat → Nat → List E)
    (w : Watcher E J) : WatcherMove → Watcher E J
  | .connect current discard =>
      if started = true ∧ current < number then w.connect current discard else w
  | .see blockNumber => if blockNumber < number then w.see blockNumber else w
  | .fetch => w.fetch select
  | .fail => w.fail
  | .finish stored => w.finish stored
  | .handle _ | .check | .write => w

variable [DecidableEq κ] [DecidableEq A] [DecidableEq H]

omit [DecidableEq κ] [DecidableEq A] [DecidableEq H] in
/-- The chains of the registry are watched. -/
def started (c : Nat) : Bool := decide (c ∈ b.service.chainIds)

/-- The statement an instruction runs. -/
def runs (s : BackendState κ A W H) : b.Move → Option (Statement κ A H)
  | .execute place => s.service.pending[place]?
  | .srcWatcher c .write => (s.srcWatcher c).work
  | .dstWatcher c .write =>
      match (s.dstWatcher c).work with
      | some (.writing st) => some st
      | _ => none
  | _ => none

/-- What the instructions of a source watcher do to it. -/
def moveSrc (s : BackendState κ A W H) (c : Nat) (w : SrcWatcher κ A H) :
    WatcherMove → SrcWatcher κ A H
  | .handle choice =>
      match w.next with
      | some e => w.take (b.handleSrc (s.source c) s.db c choice e)
      | none => w
  | .write => w.goOn none
  | m => watch (b.started c) (s.source c).block.number (srcLogs (s.source c).events) w m

def moveDst (s : BackendState κ A W H) (c : Nat) (w : DstWatcher κ A H) :
    WatcherMove → DstWatcher κ A H
  | .handle choice =>
      match w.next with
      | some e => w.take (b.handleDst s.db c choice e)
      | none => w
  | .check =>
      match w.work with
      | some (.found q) => w.goOn ((b.checkQuote (s.destination c) c q).map .writing)
      | _ => w
  | .write =>
      match w.work with
      | some (.writing _) => w.goOn none
      | _ => w
  | m => watch (b.started c) (s.destination c).block.number (dstLogs (s.destination c).events) w m

/-- The row of a revealed fill whose escrow on this chain is `(hashlock,
filler)`, not settled, and in time. -/
def relayable (s : BackendState κ A W H) (c now id : Nat) (hashlock : Bytes32) (filler : A) :
    Option (FillRow κ A H × Bytes32) := do
  let r ← s.db.fills id
  let o ← s.db.orders r.orderHash
  let escrow ← r.escrowDstAddr
  let secret ← r.secret
  let e := (s.destination c).escrows hashlock filler
  if r.status = .revealed ∧ o.dstChainId = c ∧ now ≤ r.t2 ∧ e.claimed = false ∧
      e.refunded = false ∧ (b.destination c).computeAddress hashlock filler = escrow then
    some (r, secret)
  else
    none

/-- The claim, and the statement that records it. -/
def relay (s : BackendState κ A W H) (c now id : Nat) (hashlock : Bytes32) (filler : A)
    (turns : List (List (Call (DestinationChain.Label A W)))) : BackendState κ A W H :=
  match b.relayable s c now id hashlock filler with
  | none => s
  | some (r, secret) =>
      match exec (DestinationChain.body (b.destination c))
        (.mk (.claim b.relayer hashlock filler secret) turns) (s.destination c) with
      | .error _ => s
      | .ok x =>
          { s.setDestination c x with
            service := ⟨s.db, .recordClaimed r.orderHash r.hashlock :: s.service.pending⟩ }

/-- One instruction; what does not apply does nothing. -/
def step (s : BackendState κ A W H) : b.Move → BackendState κ A W H
  | .request now req => { s with service := b.service.move s.service (.request now req) }
  | .execute place => { s with service := b.service.move s.service (.execute place) }
  | .source c tx =>
      s.setSource c (stepTx (SourceChain.body (b.source c)) SourceChain.elapse tx (s.source c))
  | .destination c tx =>
      s.setDestination c
        (stepTx (DestinationChain.body (b.destination c)) DestinationChain.elapse tx
          (s.destination c))
  | .srcWatcher c m =>
      { s.setSrcWatcher c (b.moveSrc s c (s.srcWatcher c) m) with
        service := { s.service with
          db := ((b.runs s (.srcWatcher c m)).map s.db.execute).getD s.db } }
  | .dstWatcher c m =>
      { s.setDstWatcher c (b.moveDst s c (s.dstWatcher c) m) with
        service := { s.service with
          db := ((b.runs s (.dstWatcher c m)).map s.db.execute).getD s.db } }
  | .relay c now id hashlock filler turns => b.relay s c now id hashlock filler turns
  | .restart =>
      { s with
        service := { s.service with pending := [] }
        srcWatcher := fun c => (s.srcWatcher c).restart
        dstWatcher := fun c => (s.dstWatcher c).restart }

/-- A run whose instructions satisfy `Q` in the states they are carried out
in. -/
abbrev Steps (Q : BackendState κ A W H → b.Move → Prop) :
    BackendState κ A W H → BackendState κ A W H → Prop :=
  Relation.ReflTransGen fun s s' => ∃ m, Q s m ∧ s' = b.step s m

/-- A schedule of instructions. -/
def run (ms : List b.Move) (s : BackendState κ A W H) : BackendState κ A W H :=
  ms.foldl b.step s

/-- Every instruction of a schedule satisfies `Q`. -/
def Runs (Q : BackendState κ A W H → b.Move → Prop) :
    List b.Move → BackendState κ A W H → Prop
  | [], _ => True
  | m :: ms, s => Q s m ∧ Runs Q ms (b.step s m)

instance decidableRuns (Q : BackendState κ A W H → b.Move → Prop) [∀ s m, Decidable (Q s m)] :
    (ms : List b.Move) → (s : BackendState κ A W H) → Decidable (b.Runs Q ms s)
  | [], _ => .isTrue trivial
  | m :: ms, s =>
      have := decidableRuns Q ms (b.step s m)
      inferInstanceAs (Decidable (_ ∧ _))

/-- A state of such a run, on chains that were at rest when it began. -/
def ReachableBy (Q : BackendState κ A W H → b.Move → Prop) (s : BackendState κ A W H) : Prop :=
  ∃ source destination, (∀ c, SourceChain.Reachable (b.source c) (source c)) ∧
    (∀ c, DestinationChain.Reachable (b.destination c) (destination c)) ∧
    b.Steps Q (.init source destination) s

/-- A state of any run. -/
abbrev Reachable (s : BackendState κ A W H) : Prop := b.ReachableBy (fun _ _ => True) s

end Backend

end NeutronX.CrossChain
