import NeutronX.CrossChain.Backend
import NeutronX.Evm.SerialQueue

/-!
# The relayer

`relayRevealedFills` runs every few seconds for every chain and does not
wait for the round before. A round selects the revealed fills of its chain,
reads for each whether its escrow is settled, and hands a claim to the
queue of the relayer's account there (`withRelayerQueue`). The claim asks
for its nonce when its turn comes, is broadcast, waits for its receipt,
and only then the round records it and goes on.

The rounds, the queue and the account run beside the backend, whose own
`relay` does all of this at once; here it is left out. A restart ends the
rounds and empties the queue; what was broadcast stays broadcast.
-/

namespace NeutronX.CrossChain

open Evm Sql

/-! ## State -/

/-- A row of the query for revealed fills. -/
structure RevealedRow (κ A H : Type) where
  orderHash : κ
  hashlock : H
  secret : Option Bytes32
  escrowDstAddr : Option A
  t2 : Nat
deriving DecidableEq

/-- Where the loop over the rows is. -/
inductive RoundStage (κ A H : Type) where
  | next
  /-- the answers of `claimed()` and `refunded()` -/
  | asking (row : RevealedRow κ A H) (escrow : A) (claimed refunded : Option Bool)
  | queued (row : RevealedRow κ A H) (job : Nat)
  | recording (row : RevealedRow κ A H)
deriving DecidableEq

/-- A call of `relayRevealedFills`. -/
structure RelayRound (κ A H : Type) where
  dstChainId : Nat
  stage : RoundStage κ A H
  rows : List (RevealedRow κ A H)
deriving DecidableEq

/-- What a function in the queue sends. -/
structure ClaimCall (A : Type) where
  dstChainId : Nat
  escrow : A
  secret : Option Bytes32
deriving DecidableEq

/-- What it has reached. -/
inductive Sending where
  | called
  | counted (nonce : Nat)
  | sent (nonce : Nat)
deriving DecidableEq

/-- A transaction of the relayer's account. -/
structure ClaimTx (A : Type) where
  escrow : A
  secret : Bytes32
deriving DecidableEq

abbrev ClaimQueues (A : Type) := SerialQueue String (ClaimCall A) Sending Bool

structure RelayState (κ A W H : Type) where
  backend : BackendState κ A W H
  rounds : List (RelayRound κ A H)
  /-- a result says whether the claim was mined and did not revert -/
  claimQueues : ClaimQueues A
  /-- by chain and nonce -/
  sent : Nat → List (ClaimTx A)
  /-- the status of those that are mined -/
  mined : Nat → List Bool

namespace RelayState

def init {κ A W H : Type} (s : BackendState κ A W H) : RelayState κ A W H :=
  ⟨s, [], .init, fun _ => [], fun _ => []⟩

end RelayState

/-! ## Rounds -/

namespace RelayRound

variable {κ A H : Type}

/-- The head of the loop: a row without an escrow or past its T2 is left. -/
def consider (now : Nat) (rd : RelayRound κ A H) : RelayRound κ A H :=
  match rd.stage, rd.rows with
  | .next, row :: rows =>
      match row.escrowDstAddr with
      | none => { rd with rows }
      | some escrow =>
          if row.t2 < now then { rd with rows }
          else { rd with stage := .asking row escrow none none, rows }
  | _, _ => rd

def answerClaimed (v : Bool) (rd : RelayRound κ A H) : RelayRound κ A H :=
  match rd.stage with
  | .asking row escrow none refunded => { rd with stage := .asking row escrow (some v) refunded }
  | _ => rd

def answerRefunded (v : Bool) (rd : RelayRound κ A H) : RelayRound κ A H :=
  match rd.stage with
  | .asking row escrow claimed none => { rd with stage := .asking row escrow claimed (some v) }
  | _ => rd

/-- The escrow that is asked. -/
def asked (rd : RelayRound κ A H) : Option A :=
  match rd.stage with
  | .asking _ escrow .. => some escrow
  | _ => none

/-- A rejection is caught, and the loop goes on. -/
def rejected (rd : RelayRound κ A H) : RelayRound κ A H := { rd with stage := .next }

end RelayRound

namespace Backend

variable {κ A W H : Type} [Zero A] (b : Backend κ A W H)

/-- An instruction names the round, the job or the account it is for. -/
inductive RelayMove (b : Backend κ A W H) where
  | backend (m : b.Move)
  /-- a round starts with what was selected, in any order -/
  | poll (c : Nat) (ids : List Nat)
  | consider (round now : Nat)
  /-- an answer for the clone of `(hashlock, filler)` -/
  | readClaimed (round : Nat) (hashlock : Bytes32) (filler : A)
  | readRefunded (round : Nat) (hashlock : Bytes32) (filler : A)
  | resume (round : Nat)
  | record (round : Nat)
  | fail (round : Nat)
  | start (job : Nat)
  | work (job : Nat)
  | reject (job : Nat)
  /-- the next transaction of the account is mined -/
  | mine (c : Nat) (hashlock : Bytes32) (filler : A)
      (turns : List (List (Call (DestinationChain.Label A W))))
  | restart

/-- The backend's own `relay` and `restart` are modelled here. -/
def Move.besideRelayer {b : Backend κ A W H} : b.Move → Bool
  | .relay .. | .restart => false
  | _ => true

/-- `WHERE f.status = 'revealed' AND o.dst_chain_id = $1` -/
def selects (db : Db κ A H) (c : Nat) (r : FillRow κ A H) : Bool :=
  r.status == .revealed && (db.orders r.orderHash).any fun o => o.dstChainId == c

def selectRow (db : Db κ A H) (id : Nat) : Option (RevealedRow κ A H) :=
  (db.fills id).map fun r => ⟨r.orderHash, r.hashlock, r.secret, r.escrowDstAddr, r.t2⟩

/-- The key of the relayer's queue on a chain, by the label of its watcher. -/
def queueKey (label : Nat → String) (c : Nat) : String := s!"{label c}:{b.text b.relayer}"

/-- The clone at `escrow`, if it is the one of `(hashlock, filler)` and has
code. -/
def cloneAt [DecidableEq A] (s : BackendState κ A W H) (c : Nat) (escrow : A)
    (hashlock : Bytes32) (filler : A) : Option (EscrowDst A) :=
  let e := (s.destination c).escrows hashlock filler
  if (b.destination c).computeAddress hashlock filler = escrow ∧ e.terms.isSome = true then some e
  else none

end Backend

namespace RelayState

variable {κ A W H : Type}

def setRound (s : RelayState κ A W H) (i : Nat) (rd : RelayRound κ A H) : RelayState κ A W H :=
  { s with rounds := s.rounds.set i rd }

def setStage (s : RelayState κ A W H) (job : Nat) (st : JobStage Sending Bool) :
    RelayState κ A W H :=
  { s with claimQueues := s.claimQueues.put job st }

end RelayState

/-- What a node makes of a transaction: a new nonce is the next one, and a
nonce that is taken replaces what has it, unless that is mined. -/
def accepted {A : Type} (sent : List (ClaimTx A)) (mined nonce : Nat) (tx : ClaimTx A) :
    Option (List (ClaimTx A)) :=
  if nonce = sent.length then some (sent ++ [tx])
  else if mined ≤ nonce ∧ nonce < sent.length then some (sent.set nonce tx)
  else none

namespace Backend

variable {κ A W H : Type} [Zero A] [DecidableEq κ] [DecidableEq A] [DecidableEq H]
  (b : Backend κ A W H) (label : Nat → String)

/-! ## The queued function -/

omit [DecidableEq κ] [DecidableEq A] [DecidableEq H] [Zero A] in
/-- One step of the function of a job: `count` is `getTransactionCount` of
what is pending too, and a receipt with status 0 rejects. -/
def work (s : RelayState κ A W H) (id : Nat) (j : Job String (ClaimCall A) Sending Bool) :
    RelayState κ A W H :=
  let c := j.data.dstChainId
  match j.stage, j.data.secret with
  | .running .called, _ => s.setStage id (.running (.counted (s.sent c).length))
  | .running (.counted nonce), some secret =>
      match accepted (s.sent c) (s.mined c).length nonce ⟨j.data.escrow, secret⟩ with
      | some sent =>
          { s.setStage id (.running (.sent nonce)) with sent := Function.update s.sent c sent }
      | none => s
  | .running (.sent nonce), _ =>
      match (s.mined c)[nonce]? with
      | some status => s.setStage id (.settled status)
      | none => s
  | _, _ => s

/-! ## The loop -/

omit [DecidableEq κ] [DecidableEq H] in
/-- The clone that round `i` asks answers. -/
def answer (s : RelayState κ A W H) (i : Nat) (hashlock : Bytes32) (filler : A)
    (set : EscrowDst A → RelayRound κ A H → RelayRound κ A H) : RelayState κ A W H :=
  match s.rounds[i]? with
  | none => s
  | some rd =>
      match rd.asked.bind fun escrow =>
        b.cloneAt s.backend rd.dstChainId escrow hashlock filler with
      | some e => s.setRound i (set e rd)
      | none => s

omit [DecidableEq κ] [DecidableEq A] [DecidableEq H] in
/-- After the answers, and after the claim. -/
def resume (s : RelayState κ A W H) (i : Nat) (rd : RelayRound κ A H) : RelayState κ A W H :=
  match rd.stage with
  | .asking row escrow (some claimed) (some refunded) =>
      if claimed || refunded then
        s.setRound i rd.rejected
      else
        { s.setRound i { rd with stage := .queued row s.claimQueues.jobs.length } with
          claimQueues := s.claimQueues.enqueue (b.queueKey label rd.dstChainId)
            ⟨rd.dstChainId, escrow, row.secret⟩ }
  | .queued row job =>
      match s.claimQueues.jobs[job]?.map Job.stage with
      | some (.settled true) => s.setRound i { rd with stage := .recording row }
      | some (.settled false) => s.setRound i rd.rejected
      | _ => s
  | _ => s

/-- The round's statement. -/
def record (s : RelayState κ A W H) (i : Nat) (rd : RelayRound κ A H) : RelayState κ A W H :=
  match rd.stage with
  | .recording row =>
      { s.setRound i rd.rejected with
        backend := { s.backend with
          service := { s.backend.service with
            db := s.backend.db.execute (.recordClaimed row.orderHash row.hashlock) } } }
  | _ => s

omit [DecidableEq κ] [DecidableEq A] [DecidableEq H] [Zero A] in
/-- A read or a statement that fails. -/
def fail (s : RelayState κ A W H) (i : Nat) (rd : RelayRound κ A H) : RelayState κ A W H :=
  match rd.stage with
  | .asking .. | .recording _ => s.setRound i rd.rejected
  | _ => s

/-! ## Steps -/

/-- The next transaction of the account on `c` is carried out. -/
def mine (s : RelayState κ A W H) (c : Nat) (hashlock : Bytes32) (filler : A)
    (turns : List (List (Call (DestinationChain.Label A W)))) (tx : ClaimTx A) :
    RelayState κ A W H :=
  if (b.destination c).computeAddress hashlock filler = tx.escrow then
    let call := Call.mk (.claim b.relayer hashlock filler tx.secret) turns
    let status := (exec (DestinationChain.body (b.destination c)) call
      (s.backend.destination c)).isOk
    { s with
      backend := b.step s.backend (.destination c (.call call))
      mined := Function.update s.mined c (s.mined c ++ [status]) }
  else
    s

/-- One instruction; what does not apply does nothing. -/
def relayStep (s : RelayState κ A W H) : b.RelayMove → RelayState κ A W H
  | .backend m => if m.besideRelayer then { s with backend := b.step s.backend m } else s
  | .poll c ids =>
      if b.started c = true ∧ ids.Perm (s.backend.db.fillsWhere (selects s.backend.db c)) then
        { s with rounds := s.rounds ++ [⟨c, .next, ids.filterMap (selectRow s.backend.db)⟩] }
      else
        s
  | .consider i now => (s.rounds[i]?.map fun rd => s.setRound i (rd.consider now)).getD s
  | .readClaimed i hashlock filler =>
      b.answer s i hashlock filler fun e => RelayRound.answerClaimed e.claimed
  | .readRefunded i hashlock filler =>
      b.answer s i hashlock filler fun e => RelayRound.answerRefunded e.refunded
  | .resume i => (s.rounds[i]?.map (b.resume label s i)).getD s
  | .record i => (s.rounds[i]?.map (record s i)).getD s
  | .fail i => (s.rounds[i]?.map (fail s i)).getD s
  | .start id =>
      match s.claimQueues.jobs[id]? with
      | some j =>
          if j.stage = .waiting ∧ s.claimQueues.Ready j then s.setStage id (.running .called)
          else s
      | none => s
  | .work id => (s.claimQueues.jobs[id]?.map (work s id)).getD s
  | .reject id =>
      match s.claimQueues.jobs[id]?.map Job.stage with
      | some (.running _) => s.setStage id (.settled false)
      | _ => s
  | .mine c hashlock filler turns =>
      ((s.sent c)[(s.mined c).length]?.map (b.mine s c hashlock filler turns)).getD s
  | .restart => { s with backend := b.step s.backend .restart, rounds := [], claimQueues := .init }

/-- A run of the backend with its relayer. -/
abbrev RelaySteps : RelayState κ A W H → RelayState κ A W H → Prop :=
  Relation.ReflTransGen fun s s' => ∃ m, s' = b.relayStep label s m

/-- A state of a run, on chains that were at rest when it began. -/
def RelayReachable (s : RelayState κ A W H) : Prop :=
  ∃ source destination, (∀ c, SourceChain.Reachable (b.source c) (source c)) ∧
    (∀ c, DestinationChain.Reachable (b.destination c) (destination c)) ∧
    b.RelaySteps label (.init (.init source destination)) s

end Backend

end NeutronX.CrossChain
