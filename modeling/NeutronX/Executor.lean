import Mathlib.Data.List.AList
import NeutronX.ExecutorAmounts
import NeutronX.FallbackWatcher

/-!
# The executor

The CoW filler's background process. It watches orders, and on every block
it looks at each: near the deadline it registers for what the strategy
decides, later it executes the chunk it registered for, and where the order
is over it asks for the stake back. What it knows of a registration of its
own is one entry of the map `registered`, which a restart loses.

A handler of a block does not wait for the one before, and hands control
away at every request to the backend, to a node or to the strategy. So
`tryFill` is here what it is between two answers (`Stage`), any number of
them are under way, and the chain moves on in between. A transaction that
was sent can be mined whatever became of the process.

Others call any entry point of the system, and so does the account itself
beside the executor: the CLI of the same process has its wallet.
`RegistersHere` says of an action that the account does not register for an
order that way.
-/

namespace NeutronX

open Evm Function

namespace Executor

open CoWFiller (FillDecision registerAmount executeAmount)
open FallbackWatcher (afterCall)
open NeutronX.System (Label Elapse body elapse unfilled)

/-! ## States -/

/-- `INVENTORY` -/
def REGISTER_AT_BLOCKS_LEFT : Nat := 60

structure Registration where
  fillAmount : Nat
  registeredAt : Nat
deriving DecidableEq

/-- What a `tryFill` waits for. -/
inductive Stage where
  /-- the order, from the backend -/
  | fetching
  /-- what remains on chain -/
  | reading
  /-- whether the order is cancelled -/
  | checking (onChainRemaining : Nat)
  /-- the strategy, to register -/
  | deciding (onChainRemaining : Nat)
  /-- the collateral -/
  | previewing (fillAmount : Nat)
  | registering (fillAmount stake : Nat)
  | registerSent (transactionHash : Nat)
  /-- the strategy, to execute -/
  | choosing (fillAmount : Nat)
  | approving (fillAmount : Nat)
  | executing (fillAmount : Nat)
  | executeSent (transactionHash : Nat)
  | releasing
  | releaseSent (transactionHash : Nat)
  | ended
deriving DecidableEq

/-- A `tryFill` that was called. -/
structure TryFill where
  order : SignedOrder
  currentBlock : Nat
  stage : Stage

/-- A transaction of the executor. -/
inductive Request (κ : Type) where
  | register (order : SignedOrder) (fillAmount stake : Nat)
  | executePartialChunk (order : SignedOrder) (fillAmount : Nat)
  | releaseRegistration (orderHash : κ)

/-- One that is not mined yet. -/
structure Sent (κ : Type) where
  transactionHash : Nat
  request : Request κ

/-- A JavaScript `Map`. -/
abbrev Map (κ α : Type) := AList fun _ : κ => α

structure State (κ W : Type) where
  chain : World κ W
  watching : Map κ SignedOrder
  registered : Map κ Registration
  /-- all since the process started; those that ended stay, as `ended` -/
  calls : List TryFill
  /-- hashes of transactions -/
  used : List Nat
  sent : List (Sent κ)
  /-- whether a transaction of the executor that was mined went through -/
  receipts : Nat → Option Bool
  /-- history: for an order the account had registered for, a release of it
  was sent -/
  released : κ → Bool

variable {κ W : Type} [DecidableEq κ] (d : Deployment κ W) (wallet : Account)

/-- After the deployment, with a fresh process. -/
def init (tokens : W) (block : Block) : State κ W where
  chain := System.deployed d tokens block
  watching := ∅
  registered := ∅
  calls := []
  used := []
  sent := []
  receipts := fun _ => none
  released := fun _ => false

/-- The account's registration for an order. -/
def slot (s : State κ W) (orderHash : κ) : NeutronX.Registration :=
  s.chain.auction.registrations orderHash wallet

/-! ## Transactions -/

def Request.label : Request κ → Label κ W
  | .register order fillAmount stake => .register wallet stake order fillAmount
  | .executePartialChunk order fillAmount => .executePartialChunk wallet order fillAmount
  | .releaseRegistration orderHash => .releaseRegistration orderHash wallet

/-- Not a registration of the account. The executor's own are requests. -/
def NotRegistering : Label κ W → Prop
  | .register msgSender _ _ _ => msgSender ≠ wallet
  | _ => True

omit [DecidableEq κ] in
instance : DecidablePred (NotRegistering (κ := κ) (W := W) wallet) := fun l => by
  cases l <;> unfold NotRegistering <;> infer_instance

/-- A transaction of someone else, or one of the account's that the
executor has no part in. -/
def transaction (s : State κ W) (call : Call (Label κ W)) : State κ W :=
  { s with chain := afterCall d call s.chain }

/-- A transaction of the executor is mined; `turns` is what the tokens call
meanwhile. -/
def mine (s : State κ W) (transactionHash : Nat) (turns : List (List (Call (Label κ W)))) :
    State κ W :=
  match s.sent.find? fun t => t.transactionHash = transactionHash with
  | some t =>
      let call := .mk (t.request.label wallet) turns
      { s with
        chain := afterCall d call s.chain
        sent := s.sent.filter fun t => t.transactionHash ≠ transactionHash
        receipts := update s.receipts transactionHash (some (exec (body d) call s.chain).isOk) }
  | none => s

/-- It never will be. -/
def discard (s : State κ W) (transactionHash : Nat) : State κ W :=
  { s with sent := s.sent.filter fun t => t.transactionHash ≠ transactionHash }

/-! ## Blocks -/

def TryFill.hash (c : TryFill) : κ := d.hashOrder c.order.info

def watch (s : State κ W) (order : SignedOrder) : State κ W :=
  if d.hashOrder order.info ∈ s.watching then s
  else { s with watching := s.watching.insert (d.hashOrder order.info) order }

/-- The order forgotten. -/
def drop (s : State κ W) (hash : κ) : State κ W :=
  { s with watching := s.watching.erase hash, registered := s.registered.erase hash }

/-- `onBlock`, where it comes to an order. -/
def onBlock (s : State κ W) (hash : κ) (currentBlock : Nat) : State κ W :=
  match s.watching.lookup hash with
  | some order =>
      if s.chain.block.number < currentBlock then s
      else if order.info.deadline < currentBlock then drop s hash
      else if currentBlock + REGISTER_AT_BLOCKS_LEFT * 3 < order.info.deadline then s
      else { s with calls := s.calls ++ [⟨order, currentBlock, .fetching⟩] }
  | none => s

/-! ## `tryFill` -/

/-- The call at a place, which goes on by `f`. -/
def onCall (s : State κ W) (i : Nat) (f : TryFill → State κ W) : State κ W :=
  match s.calls[i]? with
  | some c => f c
  | none => s

def moved (s : State κ W) (i : Nat) (c : TryFill) (stage : Stage) : State κ W :=
  { s with calls := s.calls.set i { c with stage } }

/-- The backend answered with the order, or it did not. -/
def fetchOrder (s : State κ W) (i : Nat) (answered : Bool) : State κ W :=
  onCall s i fun c =>
    match c.stage with
    | .fetching =>
        if answered then
          { moved s i c .reading with watching := s.watching.insert (c.hash d) c.order }
        else moved s i c .reading
    | _ => s

/-- `reclaimStake`, and what follows it. -/
def reclaimStake (s : State κ W) (i : Nat) (c : TryFill) : State κ W :=
  if c.hash d ∈ s.registered then moved s i c .releasing
  else drop (moved s i c .ended) (c.hash d)

/-- The register phase and the execute phase, up to the strategy. -/
def phases (s : State κ W) (i : Nat) (c : TryFill) (onChainRemaining : Nat) : State κ W :=
  match s.registered.lookup (c.hash d) with
  | some r => moved s i c (.choosing (executeAmount r.fillAmount onChainRemaining))
  | none =>
      if c.order.info.deadline ≤ c.currentBlock + REGISTER_AT_BLOCKS_LEFT then
        moved s i c (.deciding onChainRemaining)
      else moved s i c .ended

def remainingInput (s : State κ W) (i : Nat) : State κ W :=
  onCall s i fun c =>
    match c.stage with
    | .reading =>
        let onChainRemaining := unfilled d s.chain c.order.info
        if onChainRemaining = 0 then reclaimStake d s i c
        else if c.hash d ∈ s.registered then moved s i c (.checking onChainRemaining)
        else phases d s i c onChainRemaining
    | _ => s

def isCancelled (s : State κ W) (i : Nat) : State κ W :=
  onCall s i fun c =>
    match c.stage with
    | .checking onChainRemaining =>
        if PartialFillReactor.isCancelled s.chain.reactor (c.hash d) = true then
          reclaimStake d s i c
        else phases d s i c onChainRemaining
    | _ => s

/-- The strategy answers. -/
def decided (s : State κ W) (i : Nat) (decision : FillDecision) : State κ W :=
  onCall s i fun c =>
    match c.stage with
    | .deciding onChainRemaining =>
        if decision.shouldFill then
          moved s i c (.previewing (registerAmount decision.fillAmount onChainRemaining))
        else moved s i c .ended
    | .choosing fillAmount =>
        if decision.shouldFill then moved s i c (.approving fillAmount) else moved s i c .ended
    | _ => s

/-- The collateral is known: the lock is set, and `register` called. -/
def requiredStake (s : State κ W) (i : Nat) (stake : Nat) : State κ W :=
  onCall s i fun c =>
    match c.stage with
    | .previewing fillAmount =>
        { moved s i c (.registering fillAmount stake) with
          registered := s.registered.insert (c.hash d) ⟨fillAmount, c.currentBlock⟩ }
    | _ => s

/-- The reactor may spend the output, and `executePartialChunk` is called. -/
def approved (s : State κ W) (i : Nat) : State κ W :=
  onCall s i fun c =>
    match c.stage with
    | .approving fillAmount => moved s i c (.executing fillAmount)
    | _ => s

/-- What a call that was made is sent as, and what it waits for then. -/
def TryFill.request (c : TryFill) (transactionHash : Nat) : Option (Request κ × Stage) :=
  match c.stage with
  | .registering fillAmount stake =>
      some (.register c.order fillAmount stake, .registerSent transactionHash)
  | .executing fillAmount =>
      some (.executePartialChunk c.order fillAmount, .executeSent transactionHash)
  | .releasing => some (.releaseRegistration (c.hash d), .releaseSent transactionHash)
  | _ => none

/-- A release is of a registration where there is one. -/
def releases (s : State κ W) (request : Request κ) (orderHash : κ) : Bool :=
  match request with
  | .releaseRegistration k => k = orderHash ∧ (slot wallet s orderHash).filler ≠ 0
  | .register _ _ _ => false
  | .executePartialChunk _ _ => false

def send (s : State κ W) (i transactionHash : Nat) : State κ W :=
  onCall s i fun c =>
    match c.request d transactionHash with
    | some (request, stage) =>
        if transactionHash ∈ s.used then s
        else
          { moved s i c stage with
            used := transactionHash :: s.used
            sent := ⟨transactionHash, request⟩ :: s.sent
            released := fun k => s.released k || releases wallet s request k }
    | none => s

/-- `tx.wait()` returns, or throws because the transaction was reverted. -/
def receipt (s : State κ W) (i : Nat) : State κ W :=
  onCall s i fun c =>
    match c.stage with
    | .registerSent transactionHash =>
        match s.receipts transactionHash with
        | some true => moved s i c .ended
        | some false =>
            { moved s i c .ended with registered := s.registered.erase (c.hash d) }
        | none => s
    | .executeSent transactionHash =>
        match s.receipts transactionHash with
        | some true => drop (moved s i c .ended) (c.hash d)
        | some false => moved s i c .ended
        | none => s
    | .releaseSent transactionHash =>
        match s.receipts transactionHash with
        | some _ => drop (moved s i c .ended) (c.hash d)
        | none => s
    | _ => s

/-- Anything else throws. `register` throws "already registered" where the
account is; a backend that throws is `fetchOrder`. -/
def fail (s : State κ W) (i : Nat) (alreadyRegistered : Bool) : State κ W :=
  onCall s i fun c =>
    match c.stage with
    | .fetching => s
    | .registering _ _ | .registerSent _ =>
        if alreadyRegistered = true ∧ (slot wallet s (c.hash d)).filler ≠ 0 then
          moved s i c .ended
        else { moved s i c .ended with registered := s.registered.erase (c.hash d) }
    | .releasing | .releaseSent _ => drop (moved s i c .ended) (c.hash d)
    | _ => moved s i c .ended

/-! ## Runs -/

inductive Action (κ W : Type) where
  | transaction (call : Call (Label κ W))
  | elapse (t : Elapse)
  | mine (transactionHash : Nat) (turns : List (List (Call (Label κ W))))
  | discard (transactionHash : Nat)
  | watch (order : SignedOrder)
  | onBlock (hash : κ) (currentBlock : Nat)
  | fetchOrder (i : Nat) (answered : Bool)
  | remainingInput (i : Nat)
  | isCancelled (i : Nat)
  | decided (i : Nat) (decision : FillDecision)
  | requiredStake (i stake : Nat)
  | approved (i : Nat)
  | send (i transactionHash : Nat)
  | receipt (i : Nat)
  | fail (i : Nat) (alreadyRegistered : Bool)
  | restart

def step (s : State κ W) : Action κ W → State κ W
  | .transaction call => transaction d s call
  | .elapse t => { s with chain := elapse t s.chain }
  | .mine transactionHash turns => mine d wallet s transactionHash turns
  | .discard transactionHash => discard s transactionHash
  | .watch order => watch d s order
  | .onBlock hash currentBlock => onBlock s hash currentBlock
  | .fetchOrder i answered => fetchOrder d s i answered
  | .remainingInput i => remainingInput d s i
  | .isCancelled i => isCancelled d s i
  | .decided i decision => decided s i decision
  | .requiredStake i stake => requiredStake d s i stake
  | .approved i => approved s i
  | .send i transactionHash => send d wallet s i transactionHash
  | .receipt i => receipt d s i
  | .fail i alreadyRegistered => fail d wallet s i alreadyRegistered
  | .restart => { s with watching := ∅, registered := ∅, calls := [] }

def run (s : State κ W) (as : List (Action κ W)) : State κ W := as.foldl (step d wallet) s

/-- The account registers for no order beside the executor. -/
def RegistersHere : Action κ W → Prop
  | .transaction call => call.All (NotRegistering wallet)
  | .mine _ turns => turnsAll (NotRegistering wallet) turns
  | _ => True

omit [DecidableEq κ] in
instance : DecidablePred (RegistersHere (κ := κ) (W := W) wallet) := fun a => by
  cases a <;> unfold RegistersHere <;> infer_instance

/-- All actions of a run, each in the state it is taken in. -/
def Along (Ok : State κ W → Action κ W → Prop) : State κ W → List (Action κ W) → Prop
  | _, [] => True
  | s, a :: as => Ok s a ∧ Along Ok (step d wallet s a) as

variable {d wallet}

instance decidableAlong {Ok : State κ W → Action κ W → Prop} [∀ s a, Decidable (Ok s a)] :
    ∀ s as, Decidable (Along d wallet Ok s as)
  | _, [] => isTrue trivial
  | s, a :: as => @instDecidableAnd _ _ _ (decidableAlong (step d wallet s a) as)

theorem run_append (s : State κ W) (as bs : List (Action κ W)) :
    run d wallet s (as ++ bs) = run d wallet (run d wallet s as) bs := List.foldl_append

theorem Along.append {Ok : State κ W → Action κ W → Prop} {bs : List (Action κ W)} :
    ∀ {as : List (Action κ W)} {s : State κ W}, Along d wallet Ok s (as ++ bs) →
      Along d wallet Ok s as ∧ Along d wallet Ok (run d wallet s as) bs
  | [], _, h => ⟨trivial, h⟩
  | _ :: _, _, ⟨hok, h⟩ => ⟨⟨hok, (Along.append h).1⟩, (Along.append h).2⟩

theorem run_invariant {Ok : State κ W → Action κ W → Prop} {I : State κ W → Prop}
    (hstep : ∀ s a, I s → Ok s a → I (step d wallet s a)) {as : List (Action κ W)}
    {s : State κ W} (hs : I s) (h : Along d wallet Ok s as) : I (run d wallet s as) := by
  induction as generalizing s with
  | nil => exact hs
  | cons a as ih => exact ih (hstep s a hs h.1) h.2

end Executor

end NeutronX
