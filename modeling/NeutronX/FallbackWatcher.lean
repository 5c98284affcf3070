import NeutronX.ChainLedger
import NeutronX.FillRows

/-!
# The fallback watcher

The backend process that executes fallbacks. On every tick it selects the
open orders near their deadline, and for each it has not tried yet it reads
what remains on chain, gets a quote, sends `executeFallback`, waits for the
receipt, marks the order, and inserts the row of the fill. Each of these is
a step of its own: the chain and the event indexer move on in between, any
of them can throw, and a crash ends them all. A transaction that was sent
can be mined whatever became of the watcher.

The watcher runs over the system and the event indexer: what a transaction
logs is what the indexer will find. Anyone can call the entry points of the
system, `executeFallback` included.
-/

namespace NeutronX

open Evm Function

namespace FallbackWatcher

open EventIndexer (eventIndexer Event FallbackRow)
open NeutronX.System (Label Elapse body elapse unfilled)

/-! ## States -/

/-- What the watcher is at with an order. -/
inductive Attempt (κ : Type) where
  | started
  | remaining (rem : Nat)
  | submitted (rem : Nat) (aggregator : String) (transactionHash : Nat)
  /-- the receipt is there, and this is the row for the fill -/
  | executed (row : FallbackRow κ)
  | marked (row : FallbackRow κ)
  /-- given up or recorded; the order stays in `attempting` -/
  | over
deriving DecidableEq

/-- A transaction of the watcher that is not mined yet. -/
structure Sent where
  transactionHash : Nat
  order : SignedOrder
  router : Address
  minAmountOut : Nat

structure State (κ W : Type) where
  chain : World κ W
  indexer : EventIndexer.State κ
  /-- hashes of transactions, mined or sent -/
  used : List Nat
  sent : List Sent
  /-- the rows the ticks selected -/
  selected : κ → Bool
  /-- the orders in `attempting` -/
  attempts : κ → Option (Attempt κ)

variable {κ W : Type} [DecidableEq κ] (d : Deployment κ W)

/-- After the deployment, with empty tables. -/
def init (tokens : W) (block : Block) : State κ W where
  chain := System.deployed d tokens block
  indexer := .init block.number ⟨fun _ => none, [], []⟩
  used := []
  sent := []
  selected := fun _ => false
  attempts := fun _ => none

/-! ## Transactions and their logs -/

/-- The logs the event indexer queries. -/
def reactorLog (e : ReactorEvent κ) : Option (Event κ) :=
  match e with
  | .partialFillExecuted orderHash filler fillAmount outputAmount =>
      some (.partialFillExecuted orderHash filler fillAmount outputAmount)
  | .orderCancelled _ _ => none
  | .nonceInvalidated swapper nonce => some (.nonceInvalidated swapper nonce)

def fallbackLog (e : FallbackEvent κ) : Option (Event κ) :=
  match e with
  | .fallbackExecuted orderHash amountIn amountOut =>
      some (.fallbackExecuted orderHash amountIn amountOut)
  | .routerAllowed _ _ _ => none

/-- What was added in front of a list. -/
def added {α : Type} (old new : List α) : List α := new.take (new.length - old.length)

/-- What happened in a transaction, newest first. -/
def newEvents (chain chain' : World κ W) : List (Event κ) :=
  (added chain.fallback.events chain'.fallback.events).filterMap fallbackLog
    ++ (added chain.reactor.events chain'.reactor.events).filterMap reactorLog

/-- Logs are numbered from the oldest. -/
def numbered (transactionHash : Nat) : List (Event κ) → List (LogId × Event κ)
  | [] => []
  | e :: es => (⟨transactionHash, es.length⟩, e) :: numbered transactionHash es

/-- A transaction takes the chain to `chain'`. -/
def mined (s : State κ W) (transactionHash : Nat) (chain' : World κ W) : State κ W :=
  { s with
    chain := chain'
    indexer := eventIndexer.step s.indexer
      (.emit (numbered transactionHash (newEvents s.chain chain'))) }

/-- The chain after a call; a call that reverts changes nothing. -/
def afterCall (call : Call (Label κ W)) (chain : World κ W) : World κ W :=
  stepTx (body d) elapse (.call call) chain

/-- A transaction of someone else. -/
def transaction (s : State κ W) (transactionHash : Nat) (call : Call (Label κ W)) :
    State κ W :=
  if transactionHash ∈ s.used then s
  else mined { s with used := transactionHash :: s.used } transactionHash
    (afterCall d call s.chain)

/-- The call of a transaction the watcher sent, with what the router does. -/
def Sent.call (t : Sent) (routeOk : Bool) (turns : List (List (Call (Label κ W)))) :
    Call (Label κ W) :=
  .mk (.executeFallback t.order t.router routeOk t.minAmountOut) turns

def mineSent (s : State κ W) (transactionHash : Nat) (routeOk : Bool)
    (turns : List (List (Call (Label κ W)))) : State κ W :=
  match s.sent.find? fun t => t.transactionHash = transactionHash with
  | some t =>
      mined { s with sent := s.sent.filter fun t => t.transactionHash ≠ transactionHash }
        transactionHash (afterCall d (t.call routeOk turns) s.chain)
  | none => s

/-! ## The watcher's steps -/

def FALLBACK_WINDOW : Nat := 10

/-- The rows of a tick. -/
def select (s : State κ W) (currentBlock : Nat) : State κ W :=
  if currentBlock < s.indexer.number then
    { s with
      selected := fun hash => s.selected hash || (s.indexer.db.orders hash).any fun r =>
        r.status.isOpen &&
        decide ((r.info.deadline : Nat) ≤ currentBlock + FALLBACK_WINDOW) &&
        decide (currentBlock ≤ r.info.deadline) && !r.fallbackInitiated }
  else s

def setAttempt (s : State κ W) (hash : κ) (attempt : Option (Attempt κ)) : State κ W :=
  { s with attempts := update s.attempts hash attempt }

def start (s : State κ W) (info : OrderInfo) : State κ W :=
  let hash := d.hashOrder info
  if s.selected hash = true ∧ s.attempts hash = none ∧
      ((s.indexer.db.orders hash).any fun r => r.info = info) = true then
    setAttempt s hash (some .started)
  else s

/-- A token without metadata. -/
def skip (s : State κ W) (info : OrderInfo) : State κ W :=
  match s.attempts (d.hashOrder info) with
  | some .started => setAttempt s (d.hashOrder info) (some .over)
  | _ => s

def read (s : State κ W) (info : OrderInfo) : State κ W :=
  match s.attempts (d.hashOrder info) with
  | some .started =>
      let rem := unfilled d s.chain info
      setAttempt s (d.hashOrder info) (some (if rem = 0 then .over else .remaining rem))
  | _ => s

/-- A quote came back, and the transaction is sent. -/
def submit (s : State κ W) (info : OrderInfo) (sig : Bytes) (aggregator : String)
    (router : Address) (minAmountOut transactionHash : Nat) : State κ W :=
  match s.attempts (d.hashOrder info) with
  | some (.remaining rem) =>
      if transactionHash ∈ s.used then s
      else
        { setAttempt s (d.hashOrder info) (some (.submitted rem aggregator transactionHash)) with
          used := transactionHash :: s.used
          sent := ⟨transactionHash, ⟨info, sig⟩, router, minAmountOut⟩ :: s.sent }
  | _ => s

/-- The fallback in a receipt, with its output. -/
def receiptOf (logs : List (Log (Event κ))) (transactionHash : Nat) :
    Option (Log (Event κ) × Nat) :=
  logs.findSome? fun l =>
    if l.id.transactionHash = transactionHash then
      match l.args with
      | .fallbackExecuted _ _ amountOut => some (l, amountOut)
      | .partialFillExecuted _ _ _ _ => none
      | .nonceInvalidated _ _ => none
    else none

/-- The receipt arrives. The output is taken from the first log of it that
parses as `FallbackExecuted`, and a log of another contract that does can
stand before the executor's (`shadow`). -/
def receipt (s : State κ W) (info : OrderInfo) (shadow : Option Nat) : State κ W :=
  match s.attempts (d.hashOrder info) with
  | some (.submitted rem aggregator transactionHash) =>
      match receiptOf s.indexer.logs transactionHash with
      | some (l, amountOut) =>
          setAttempt s (d.hashOrder info)
            (some (.executed ⟨l.id, d.hashOrder info, d.fallback, rem, shadow.getD amountOut,
              l.blockNumber, aggregator⟩))
      | none => s
  | _ => s

/-- The order is marked. -/
def mark (s : State κ W) (info : OrderInfo) (outcome : Indexer.Outcome) : State κ W :=
  match s.attempts (d.hashOrder info) with
  | some (.executed row) =>
      let s' := { s with
        indexer := eventIndexer.step s.indexer (.other (.setFallback (d.hashOrder info) row.id)) }
      match outcome with
      | .done => setAttempt s' (d.hashOrder info) (some (.marked row))
      | .lost => setAttempt s' (d.hashOrder info) none
      | .failed => setAttempt s (d.hashOrder info) none
  | _ => s

/-- The row of the fill is inserted. -/
def record (s : State κ W) (info : OrderInfo) (outcome : Indexer.Outcome) : State κ W :=
  match s.attempts (d.hashOrder info) with
  | some (.marked row) =>
      let s' := { s with indexer := eventIndexer.step s.indexer (.other (.insertFallback row)) }
      match outcome, s.indexer.db.insertFill row.row with
      | .done, some _ => setAttempt s' (d.hashOrder info) (some .over)
      | .lost, some _ => setAttempt s' (d.hashOrder info) none
      | _, _ => setAttempt s (d.hashOrder info) none
  | _ => s

/-- Something throws, and the order can be tried again. -/
def fail (s : State κ W) (info : OrderInfo) : State κ W :=
  match s.attempts (d.hashOrder info) with
  | some .over => s
  | _ => setAttempt s (d.hashOrder info) none

/-! ## Runs -/

inductive Action (κ W : Type) where
  | transaction (transactionHash : Nat) (call : Call (Label κ W))
  | mineSent (transactionHash : Nat) (routeOk : Bool) (turns : List (List (Call (Label κ W))))
  | elapse (t : Elapse)
  /-- a step of a handler of the event indexer -/
  | index (a : EventIndexer.Action κ)
  | createOrder (info : OrderInfo) (printed : Bool)
  | cancelOrder (info : OrderInfo)
  | expire (currentBlock : Nat)
  | select (currentBlock : Nat)
  | start (info : OrderInfo)
  | skip (info : OrderInfo)
  | read (info : OrderInfo)
  | submit (info : OrderInfo) (sig : Bytes) (aggregator : String) (router : Address)
      (minAmountOut transactionHash : Nat)
  | receipt (info : OrderInfo) (shadow : Option Nat)
  | mark (info : OrderInfo) (outcome : Indexer.Outcome)
  | record (info : OrderInfo) (outcome : Indexer.Outcome)
  | fail (info : OrderInfo)
  | crash

/-- The step is one of a handler. -/
def ofHandler : EventIndexer.Action κ → Bool
  | .emit _ => false
  | .mine => false
  | .other _ => false
  | .connect _ _ _ => true
  | .block _ _ _ => true
  | .query _ _ => true
  | .take _ => true
  | .exec _ _ => true
  | .advance _ => true
  | .store _ _ => true
  | .crash => true

def step (s : State κ W) : Action κ W → State κ W
  | .transaction transactionHash call => transaction d s transactionHash call
  | .mineSent transactionHash routeOk turns => mineSent d s transactionHash routeOk turns
  | .elapse t =>
      { s with
        chain := elapse t s.chain
        indexer := eventIndexer.run s.indexer (List.replicate t.blocks .mine) }
  | .index a =>
      if ofHandler a = true then { s with indexer := eventIndexer.step s.indexer a } else s
  | .createOrder info printed =>
      { s with
        indexer := eventIndexer.step s.indexer
          (.other (.createOrder (d.hashOrder info) info printed)) }
  | .cancelOrder info =>
      { s with
        indexer := eventIndexer.step s.indexer (.other (.cancelOrder (d.hashOrder info))) }
  | .expire currentBlock =>
      { s with indexer := eventIndexer.step s.indexer (.other (.expire currentBlock)) }
  | .select currentBlock => select s currentBlock
  | .start info => start d s info
  | .skip info => skip d s info
  | .read info => read d s info
  | .submit info sig aggregator router minAmountOut transactionHash =>
      submit d s info sig aggregator router minAmountOut transactionHash
  | .receipt info shadow => receipt d s info shadow
  | .mark info outcome => mark d s info outcome
  | .record info outcome => record d s info outcome
  | .fail info => fail d s info
  | .crash => { s with selected := fun _ => false, attempts := fun _ => none }

def run (s : State κ W) (as : List (Action κ W)) : State κ W := as.foldl (step d) s

/-- All actions of a run, each in the state it is taken in. -/
def Along (Ok : State κ W → Action κ W → Prop) : State κ W → List (Action κ W) → Prop
  | _, [] => True
  | s, a :: as => Ok s a ∧ Along Ok (step d s a) as

variable {d}

instance decidableAlong {Ok : State κ W → Action κ W → Prop} [∀ s a, Decidable (Ok s a)] :
    ∀ s as, Decidable (Along d Ok s as)
  | _, [] => isTrue trivial
  | s, a :: as => @instDecidableAnd _ _ _ (decidableAlong (step d s a) as)

theorem run_append (s : State κ W) (as bs : List (Action κ W)) :
    run d s (as ++ bs) = run d (run d s as) bs := List.foldl_append

theorem Along.append {Ok : State κ W → Action κ W → Prop} {bs : List (Action κ W)} :
    ∀ {as : List (Action κ W)} {s : State κ W}, Along d Ok s (as ++ bs) →
      Along d Ok s as ∧ Along d Ok (run d s as) bs
  | [], _, h => ⟨trivial, h⟩
  | _ :: _, _, ⟨hok, h⟩ => ⟨⟨hok, (Along.append h).1⟩, (Along.append h).2⟩

theorem run_invariant {Ok : State κ W → Action κ W → Prop} {I : State κ W → Prop}
    (hstep : ∀ s a, I s → Ok s a → I (step d s a)) {as : List (Action κ W)} {s : State κ W}
    (hs : I s) (h : Along d Ok s as) : I (run d s as) := by
  induction as generalizing s with
  | nil => exact hs
  | cons a as ih => exact ih (hstep s a hs h.1) h.2

end FallbackWatcher

end NeutronX
