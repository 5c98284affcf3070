import NeutronX.Evm.LogWatcher
import NeutronX.Evm.Ranges
import NeutronX.Evm.Runs

/-!
# The drain of an escrow watcher

A watcher asks for the logs of the blocks since the last one it processed,
handles them and stores how far it is. The source watcher asks for the logs
of its factory in chunks and for those of the clones in one range; the
destination watcher asks for the first only. On a start it connects first,
and `resolveCheckpoint` says where it goes on.

Requests to the node and to the database are separate steps. Each can fail;
a statement can also be executed without the answer ever arriving. New
blocks are announced at any time, and at any time the process can be killed
and started again: what survives is the row of its checkpoint.

The node is the one of one chain: it has one genesis block, and its height
only grows. What a log says and what its handler does are left out here; so
is a request whose round was given up, since its answer is thrown away.
-/

namespace NeutronX.CrossChain

open Evm

namespace EscrowDrain

/-- The settings of the backend. -/
structure Env where
  /-- `INDEXER_CHUNK` -/
  chunk : Int
  /-- `INDEXER_DEV_REWIND_LAG` -/
  devRewindLag : Int
  /-- `INDEXER_BACKFILL` -/
  backfill : Bool

structure Config extends Env where
  /-- whether the logs of the clones are asked for as well -/
  rawLogs : Bool

def escrowSrcWatcher (env : Env) : Config := { env with rawLogs := true }

def escrowDstWatcher (env : Env) : Config := { env with rawLogs := false }

variable {H : Type} [DecidableEq H]

/-! ## The checkpoint -/

/-- The row of the watcher in `indexer_state`. -/
structure Row (H : Type) where
  last_block : Int
  fingerprint : Option H

inductive Statement (H : Type) where
  | insert (block : Int) (fingerprint : Option H)
  | update (block : Int) (fingerprint : H)
  | setFingerprint (fingerprint : H)
  | setCheckpoint (block : Int)

/-- What a statement leaves; `none` where the database refuses it. -/
def Statement.exec : Statement H → Option (Row H) → Option (Option (Row H))
  | .insert block fingerprint, none => some (some ⟨block, fingerprint⟩)
  | .insert _ _, some _ => none
  | .update block fingerprint, row => some (row.map fun _ => ⟨block, some fingerprint⟩)
  | .setFingerprint fingerprint, row =>
      some (row.map fun r => { r with fingerprint := some fingerprint })
  | .setCheckpoint block, row => some (some ⟨block, row.bind fun r => r.fingerprint⟩)

/-- Where to go on after a checkpoint of the same chain, and the statements
before that. -/
def rewind (c : Config) (last currentBlock : Int) : List (Statement H) × Int :=
  if currentBlock < last then
    ([.setCheckpoint currentBlock], currentBlock)
  else if c.devRewindLag < currentBlock - last ∧ c.backfill = false then
    ([.setCheckpoint currentBlock], currentBlock)
  else
    ([], last)

/-- The statements after the row was read, and what is returned then. -/
def resolveCheckpoint (c : Config) (row : Option (Row H)) (currentBlock : Int)
    (fingerprint : Option H) : List (Statement H) × Int :=
  match row, fingerprint with
  | none, _ => ([.insert currentBlock fingerprint], currentBlock)
  | some ⟨last, some stored⟩, some found =>
      if stored ≠ found then
        ([.update currentBlock found], currentBlock)
      else
        rewind c last currentBlock
  | some ⟨last, none⟩, some found =>
      let (statements, resolved) := rewind c last currentBlock
      (.setFingerprint found :: statements, resolved)
  | some ⟨last, _⟩, none => rewind c last currentBlock

section Coarse

variable (c : Config) (last current : Nat)

omit [DecidableEq H] in
theorem rewind_refines : ∃ discard, (rewind c last current : List (Statement H) × Int).2
    = (Watcher.resolveCheckpoint (some last) current discard : Nat) := by
  refine ⟨decide (c.devRewindLag < (current : Int) - last ∧ c.backfill = false), ?_⟩
  simp only [rewind, Watcher.resolveCheckpoint, decide_eq_true_eq]
  by_cases hahead : current < last
  · have hcast : (current : Int) < last := by exact_mod_cast hahead
    simp only [hahead, hcast, or_true, if_true]
  · have hcast : ¬(current : Int) < last := by exact_mod_cast hahead
    simp only [hahead, hcast, or_false, if_false]
    split <;> rfl

/-- The watcher of the coarser model resolves its checkpoint the same way. -/
theorem resolveCheckpoint_refines (row : Option (Row H)) (checkpoint : Option Nat)
    (fingerprint : Option H)
    (hrow : row.map (fun r => r.last_block) = checkpoint.map fun last => (last : Int)) :
    ∃ discard, (resolveCheckpoint c row current fingerprint).2
      = (Watcher.resolveCheckpoint checkpoint current discard : Nat) := by
  cases row with
  | none =>
      cases checkpoint with
      | none => exact ⟨false, rfl⟩
      | some last => exact nomatch hrow
  | some r =>
      cases checkpoint with
      | none => exact nomatch hrow
      | some last =>
          obtain ⟨_, stored⟩ := r
          obtain rfl := Option.some.inj hrow
          cases fingerprint with
          | none =>
              cases stored with
              | none => exact rewind_refines (H := H) c last current
              | some f => exact rewind_refines (H := H) c last current
          | some found =>
              cases stored with
              | none => exact rewind_refines (H := H) c last current
              | some f =>
                  simp only [resolveCheckpoint]
                  split
                  · -- the chain is another one
                    exact ⟨true, by simp [Watcher.resolveCheckpoint]⟩
                  · exact rewind_refines (H := H) c last current

end Coarse

/-! ## The process -/

/-- How far a watcher is with connecting; each is the request it waits for. -/
inductive Connection (H : Type) where
  | ensureTable
  | getBlockNumber
  | getGenesis (current : Int)
  | readRow (current : Int) (fingerprint : Option H)
  /-- the statements that are left, what they resolve to, and the tip -/
  | writeRow (statements : List (Statement H)) (resolved current : Int)
  | connected

inductive Phase where
  /-- the start of the next chunk, and whether the other logs are there -/
  | querying (start : Int) (raw : Bool)
  | handling
  | storing
deriving DecidableEq

/-- A round of the loop in `drain`. -/
structure Drain where
  fromBlock : Int
  toBlock : Int
  /-- the chunks that were answered, in order -/
  chunks : List BlockRange
  phase : Phase
deriving DecidableEq

structure Process (H : Type) where
  connection : Connection H
  lastBlock : Int
  latestSeen : Int
  floorBlock : Int
  /-- the round that is under way, while `draining` -/
  drain : Option Drain

def Process.init : Process H := ⟨.ensureTable, -1, -1, -1, none⟩

def rescanLag : Int := 30

/-- The condition of the loop, and the start of its next round. -/
def Process.loop (c : Config) (p : Process H) : Process H :=
  if 0 ≤ p.lastBlock ∧ p.lastBlock < p.latestSeen then
    let fromBlock := max 0 (max p.floorBlock (p.lastBlock + 1 - rescanLag))
    { p with drain := some ⟨fromBlock, p.latestSeen, [], .querying fromBlock (!c.rawLogs)⟩ }
  else
    { p with drain := none }

/-- The handler of a new block. -/
def Process.onBlock (c : Config) (p : Process H) (blockNumber : Int) : Process H :=
  let p := { p with latestSeen := max p.latestSeen blockNumber }
  if p.drain.isSome then p else p.loop c

/-! ## Steps -/

/-- What was asked for so far, kept for the statements about it. -/
structure History where
  /-- the first checkpoint -/
  startBlock : Option Int
  /-- the ranges of the answered requests: of the chunks, and of the others -/
  filtered : List BlockRange
  raw : List BlockRange
  /-- the rounds whose logs were handled -/
  drained : List Drain

structure State (H : Type) where
  tip : Nat
  row : Option (Row H)
  process : Process H
  history : History

def init (tip : Nat) : State H := ⟨tip, none, .init, ⟨none, [], [], []⟩⟩

/-- What became of a request. -/
inductive Outcome where
  | answered
  /-- it took effect, but the answer was lost -/
  | lost
  | failed
deriving DecidableEq

inductive Action where
  /-- the chain grows by a block -/
  | mine
  | block (blockNumber : Nat)
  | restart
  | connect (outcome : Outcome)
  | queryChunk (answered : Bool)
  | queryRaw (answered : Bool)
  /-- both queries of a round are answered -/
  | queried
  /-- the logs of a round are handled, or an error ends the round -/
  | handle (ok : Bool)
  | store (outcome : Outcome)
deriving DecidableEq

namespace State

variable (s : State H)

def setConnection (connection : Connection H) : State H :=
  { s with process := { s.process with connection := connection } }

def setDrain (drain : Option Drain) : State H :=
  { s with process := { s.process with drain := drain } }

/-- The state with another row; the first one has the start block. -/
def setRow (row : Option (Row H)) : State H :=
  { s with
    row := row
    history :=
      { s.history with
        startBlock := s.history.startBlock.or (row.map fun r => r.last_block) } }

/-- The next request of the connect loop, which starts over on an error. -/
def connect (c : Config) (genesis : H) (outcome : Outcome) : State H :=
  match s.process.connection with
  | .ensureTable =>
      if outcome = .answered then s.setConnection .getBlockNumber else s
  | .getBlockNumber =>
      if outcome = .answered then s.setConnection (.getGenesis s.tip)
      else s.setConnection .ensureTable
  | .getGenesis current =>
      s.setConnection (.readRow current (if outcome = .answered then some genesis else none))
  | .readRow current fingerprint =>
      if outcome = .answered then
        let (statements, resolved) := resolveCheckpoint c s.row current fingerprint
        s.setConnection (.writeRow statements resolved current)
      else s.setConnection .ensureTable
  | .writeRow (statement :: statements) resolved current =>
      match statement.exec s.row, outcome with
      | some row, .answered =>
          (s.setRow row).setConnection (.writeRow statements resolved current)
      | some row, .lost => (s.setRow row).setConnection .ensureTable
      | _, _ => s.setConnection .ensureTable
  | .writeRow [] resolved current =>
      { s with
        process :=
          { s.process with
            connection := .connected
            lastBlock := resolved
            floorBlock := min resolved current } }
  | .connected => s

/-- An answer to the next chunk. -/
def queryChunk (c : Config) (answered : Bool) : State H :=
  match s.process.drain with
  | some ⟨fromBlock, toBlock, chunks, .querying start raw⟩ =>
      if toBlock < start then s
      else if answered then
        let range : BlockRange := ⟨start, min (start + c.chunk - 1) toBlock⟩
        { s with
          process :=
            { s.process with
              drain := some
                ⟨fromBlock, toBlock, chunks ++ [range], .querying (start + c.chunk) raw⟩ }
          history := { s.history with filtered := range :: s.history.filtered } }
      else s.setDrain none
  | _ => s

/-- An answer to the query of the whole range. -/
def queryRaw (answered : Bool) : State H :=
  match s.process.drain with
  | some ⟨fromBlock, toBlock, chunks, .querying start false⟩ =>
      if answered then
        { s with
          process :=
            { s.process with
              drain := some ⟨fromBlock, toBlock, chunks, .querying start true⟩ }
          history := { s.history with raw := ⟨fromBlock, toBlock⟩ :: s.history.raw } }
      else s.setDrain none
  | _ => s

def queried : State H :=
  match s.process.drain with
  | some ⟨fromBlock, toBlock, chunks, .querying start true⟩ =>
      if toBlock < start then s.setDrain (some ⟨fromBlock, toBlock, chunks, .handling⟩) else s
  | _ => s

def handle (ok : Bool) : State H :=
  match s.process.drain with
  | some ⟨fromBlock, toBlock, chunks, .handling⟩ =>
      if ok then
        { s with
          process :=
            { s.process with
              lastBlock := toBlock
              drain := some ⟨fromBlock, toBlock, chunks, .storing⟩ }
          history :=
            { s.history with
              drained := ⟨fromBlock, toBlock, chunks, .handling⟩ :: s.history.drained } }
      else s.setDrain none
  | _ => s

/-- The end of a round. -/
def store (c : Config) (outcome : Outcome) : State H :=
  match s.process.drain with
  | some ⟨_, _, _, .storing⟩ =>
      match (Statement.setCheckpoint s.process.lastBlock).exec s.row, outcome with
      | some row, .answered => { s.setRow row with process := s.process.loop c }
      | some row, .lost => (s.setRow row).setDrain none
      | _, _ => s.setDrain none
  | _ => s

end State

def step (c : Config) (genesis : H) (s : State H) : Action → State H
  | .mine => { s with tip := s.tip + 1 }
  | .block blockNumber =>
      if blockNumber ≤ s.tip then { s with process := s.process.onBlock c blockNumber } else s
  | .restart => { s with process := .init }
  | .connect outcome => s.connect c genesis outcome
  | .queryChunk answered => s.queryChunk c answered
  | .queryRaw answered => s.queryRaw answered
  | .queried => s.queried
  | .handle ok => s.handle ok
  | .store outcome => s.store c outcome

abbrev run (c : Config) (genesis : H) : State H → List Action → State H :=
  runActions (step c genesis)

end EscrowDrain

end NeutronX.CrossChain
