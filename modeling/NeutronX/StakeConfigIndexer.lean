import NeutronX.Evm.Poller
import NeutronX.Evm.Runs
import NeutronX.Evm.Table
import NeutronX.SystemEffects
import NeutronX.WatcherLogs

/-!
# The stake configuration indexer

The backend keeps a history of the stake configuration: one row for each
event by which the auction announces a change. The events carry no
configuration. What was applied or rolled back to is read from the
contract, as of the end of the event's block; what was queued only stands
in the calldata of the transaction that queued it.

A failing read of the contract ends the handler, which keeps the checkpoint
where it was; a transaction that cannot be decoded leaves a row without
configuration; a failing insert is only logged.
-/

namespace NeutronX

open Evm Function

namespace StakeConfigIndexer

/-! ## Rows -/

inductive Event where
  | stakeConfigUpdated
  | pendingConfigQueued (effectiveAt : Nat)
  | pendingConfigCancelled
  | configRollback
deriving DecidableEq

inductive EventType where
  | applied
  | pendingQueued
  | pendingCancelled
  | rollback
deriving DecidableEq

/-- The rows of these types say what is live. -/
def EventType.isLive : EventType → Bool
  | .applied => true
  | .rollback => true
  | .pendingQueued => false
  | .pendingCancelled => false

def Event.eventType : Event → EventType
  | .stakeConfigUpdated => .applied
  | .pendingConfigQueued _ => .pendingQueued
  | .pendingConfigCancelled => .pendingCancelled
  | .configRollback => .rollback

structure HistoryRow where
  eventType : EventType
  blockNumber : Nat
  txHash : Nat
  effectiveAt : Option Nat
  configSnapshot : Option StakeConfig
deriving DecidableEq

/-- What the statements of a handler read and write. -/
structure Database where
  /-- `stake_config_history` -/
  history : Sql.Table LogId HistoryRow
  /-- the node's answers: `stakeConfig()` at the end of a block -/
  stakeConfig : Nat → StakeConfig
  /-- the argument of `setStakeConfig` in the calldata of a transaction -/
  calldata : Nat → Option StakeConfig
  /-- whether it knows transactions at the moment -/
  getsTransactions : Bool

def rowOf (log : Log Event) (effectiveAt : Option Nat) (configSnapshot : Option StakeConfig) :
    HistoryRow :=
  ⟨log.args.eventType, log.blockNumber, log.id.transactionHash, effectiveAt, configSnapshot⟩

/-- `INSERT INTO stake_config_history ... ON CONFLICT (id) DO NOTHING` -/
def Database.insertHistoryRow (db : Database) (log : Log Event) (effectiveAt : Option Nat)
    (configSnapshot : Option StakeConfig) : Database :=
  if (db.history log.id).isSome then db
  else { db with history := db.history.insert log.id (rowOf log effectiveAt configSnapshot) }

/-! ## Handlers -/

/-- What is next for a log. -/
inductive Work where
  | read (log : Log Event)
  | insert (log : Log Event) (effectiveAt : Option Nat) (configSnapshot : Option StakeConfig)

def start (log : Log Event) : Work :=
  match log.args with
  | .stakeConfigUpdated => .read log
  | .pendingConfigQueued _ => .read log
  | .pendingConfigCancelled => .insert log none none
  | .configRollback => .read log

/-- What is inserted after a read that was answered. -/
def answer (log : Log Event) (db : Database) : Work :=
  match log.args with
  | .stakeConfigUpdated => .insert log none (some (db.stakeConfig log.blockNumber))
  | .pendingConfigQueued effectiveAt =>
      .insert log (some effectiveAt)
        (if db.getsTransactions = true then db.calldata log.id.transactionHash else none)
  | .pendingConfigCancelled => .insert log none none
  | .configRollback => .insert log none (some (db.stakeConfig log.blockNumber))

def exec : Work → Database → Option (Database × Option Work)
  | .read log, db => some (db, some (answer log db))
  | .insert log effectiveAt configSnapshot, db =>
      some (db.insertHistoryRow log effectiveAt configSnapshot, none)

/-- What the node learns. -/
inductive Fact where
  | mined (stakeConfig : StakeConfig)
  | sent (transactionHash : Nat) (calldata : Option StakeConfig)
  | getsTransactions (b : Bool)

def learn (fact : Fact) (number : Nat) (db : Database) : Database :=
  match fact with
  | .mined stakeConfig => { db with stakeConfig := update db.stakeConfig number stakeConfig }
  | .sent transactionHash calldata =>
      { db with calldata := update db.calldata transactionHash calldata }
  | .getsTransactions b => { db with getsTransactions := b }

def isStakeConfigUpdated (e : Event) : Bool := decide (e = .stakeConfigUpdated)

def isPendingConfigQueued : Event → Bool
  | .pendingConfigQueued _ => true
  | _ => false

def isPendingConfigCancelled (e : Event) : Bool := decide (e = .pendingConfigCancelled)

def isConfigRollback (e : Event) : Bool := decide (e = .configRollback)

/-- `CHUNK_SIZE`, where `INDEXER_CHUNK` is not set. -/
def CHUNK_SIZE : Nat := 2000

theorem CHUNK_SIZE_pos : 0 < CHUNK_SIZE := by decide

/-- The indexer that `startStakeConfigIndexer` starts. Its only checkpoint is
`stake_config_events`. -/
def stakeConfigIndexer : Indexer Unit Event Work Fact Database where
  feeds := [()]
  filters _ :=
    [isStakeConfigUpdated, isPendingConfigQueued, isPendingConfigCancelled, isConfigRollback]
  chunk := CHUNK_SIZE
  chunk_pos := CHUNK_SIZE_pos
  start := start
  exec := exec
  other fact number _ db := learn fact number db

abbrev IndexerState := Indexer.State Unit Event Work Database

/-- `Number.MAX_SAFE_INTEGER`, beyond which `toNumber` throws. -/
def MAX_SAFE_INTEGER : Nat := 2 ^ 53 - 1

/-- A read that fails ends the handler, but for one of a transaction, whose
failure is caught. -/
def executeRead (s : IndexerState) (i : Nat) (log : Log Event) (outcome : Indexer.Outcome) :
    IndexerState :=
  match log.args with
  | .pendingConfigQueued effectiveAt =>
      if MAX_SAFE_INTEGER < effectiveAt then Indexer.abort s i
      else if outcome = .done then stakeConfigIndexer.step s (.exec i .done)
      else stakeConfigIndexer.run s
        [.other (.getsTransactions false), .exec i .done, .other (.getsTransactions true)]
  | _ => if outcome = .done then stakeConfigIndexer.step s (.exec i .done) else Indexer.abort s i

def execute (s : IndexerState) (i : Nat) (outcome : Indexer.Outcome) : IndexerState :=
  match s.inHand i with
  | some (log, .read _) => executeRead s i log outcome
  | _ => stakeConfigIndexer.step s (.exec i outcome)

/-- A step of a handler. -/
def handle (s : IndexerState) : Indexer.Action Unit Event Fact → IndexerState
  | .exec i outcome => execute s i outcome
  | .emit _ => s
  | .mine => s
  | .other _ => s
  | a => stakeConfigIndexer.step s a

/-! ## The chain -/

def configLog {κ : Type} (e : AuctionEvent κ) : Option Event :=
  match e with
  | .stakeConfigUpdated => some .stakeConfigUpdated
  | .pendingConfigQueued effectiveAt => some (.pendingConfigQueued effectiveAt)
  | .pendingConfigCancelled => some .pendingConfigCancelled
  | .configRollback => some .configRollback
  | .registered _ _ _ _ => none
  | .slashed _ _ _ _ _ => none
  | .stakeReturned _ _ _ => none
  | .stakeForfeited _ _ _ => none
  | .stakeReleased _ _ _ => none
  | .reactorSet _ => none

/-- Newest first. -/
def configLogs {κ : Type} (s : AuctionState κ) : List Event :=
  s.events.filterMap fun e => configLog e.2

/-- Logs are numbered from the oldest. -/
def numbered (transactionHash : Nat) : List Event → List (LogId × Event)
  | [] => []
  | e :: es => (⟨transactionHash, es.length⟩, e) :: numbered transactionHash es

open NeutronX.System (Label Elapse)

variable {κ W : Type} [DecidableEq κ] (d : Deployment κ W)

structure State (κ W : Type) where
  chain : World κ W
  indexer : IndexerState
  /-- hashes of transactions -/
  used : List Nat
  /-- history: the configuration that waits after each transaction -/
  waiting : Nat → StakeConfig

/-- After the deployment, with an empty table. -/
def init (tokens : W) (block : Block) : State κ W where
  chain := System.deployed d tokens block
  indexer := .init block.number
    ⟨fun _ => none, fun _ => DynamicStakeLib.defaultStakeConfig, fun _ => none, true⟩
  used := []
  waiting := fun _ => DynamicStakeLib.emptyConfig

omit [DecidableEq κ] in
/-- What the calldata of a transaction decode as. Calldata that reach the
auction through another contract are taken not to decode: a forwarder
with the selector of `setStakeConfig` is not covered. -/
def calldataOf (direct : Bool) : Call (Label κ W) → Option StakeConfig
  | .mk (.auctionOp (.setStakeConfig _ c)) _ => if direct = true then some c else none
  | _ => none

def newEvents (chain chain' : World κ W) : List Event :=
  FallbackWatcher.added (configLogs chain.auction) (configLogs chain'.auction)

def transaction (s : State κ W) (transactionHash : Nat) (call : Call (Label κ W))
    (direct : Bool) : State κ W :=
  if transactionHash ∈ s.used then s
  else
    let chain' := FallbackWatcher.afterCall d call s.chain
    { chain := chain'
      indexer := stakeConfigIndexer.run s.indexer
        [.other (.sent transactionHash (calldataOf direct call)),
         .emit (numbered transactionHash (newEvents s.chain chain'))]
      used := transactionHash :: s.used
      waiting := update s.waiting transactionHash chain'.auction.pending }

/-- Blocks become final, in each of which `stakeConfig` is live at the end. -/
def mine (stakeConfig : StakeConfig) : Nat → IndexerState → IndexerState
  | 0, s => s
  | n + 1, s =>
      mine stakeConfig n (stakeConfigIndexer.run s [.other (.mined stakeConfig), .mine])

inductive Action (κ W : Type) where
  | transaction (transactionHash : Nat) (call : Call (Label κ W)) (direct : Bool)
  | elapse (t : Elapse)
  /-- a step of a handler of the indexer -/
  | index (a : Indexer.Action Unit Event Fact)

def step (s : State κ W) : Action κ W → State κ W
  | .transaction transactionHash call direct => transaction d s transactionHash call direct
  | .elapse t =>
      { s with
        chain := System.elapse t s.chain
        indexer := mine s.chain.auction.config t.blocks s.indexer }
  | .index a => { s with indexer := handle s.indexer a }

def run (s : State κ W) (as : List (Action κ W)) : State κ W := runActions (step d) s as

/-- No insert fails. -/
def Inserts (s : State κ W) : Action κ W → Prop
  | .index (.exec i outcome) =>
      ∀ l log effectiveAt configSnapshot,
        s.indexer.inHand i = some (l, .insert log effectiveAt configSnapshot) → outcome = .done
  | _ => True

end StakeConfigIndexer

end NeutronX
