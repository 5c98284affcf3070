import NeutronX.Evm.Poller
import NeutronX.Evm.Table
import NeutronX.Order

/-!
# The registration indexer

The backend's mirror of the stakes in the auction: one feed, queried for
five events, whose logs are handled event by event. A registration is
inserted once, under its order and filler; what becomes of its stake is
written over it.
-/

namespace NeutronX

open Evm

namespace RegistrationIndexer

inductive RegistrationStatus where
  | active
  | filled
  | slashed
  | released
deriving DecidableEq

structure RegistrationRow where
  fillAmount : Nat
  stakeAmount : Nat
  status : RegistrationStatus
  refundAmount : Option Nat
  forfeitedAmount : Option Nat
  slashedReward : Option Nat
  slashedBy : Option Address
  registeredBlock : Nat
  resolvedBlock : Option Nat
  resolvedTxHash : Option Nat
deriving DecidableEq

structure Database (κ : Type) where
  /-- the orders there are, which `order_hash` references -/
  orders : κ → Bool
  /-- by order and filler -/
  registrations : Sql.Table (κ × Address) RegistrationRow

variable {κ : Type} [DecidableEq κ]

namespace Database

/-- `INSERT INTO registrations ... ON CONFLICT (order_hash, filler) DO NOTHING` -/
def insertRegistration (db : Database κ) (orderHash : κ) (filler : Address)
    (fillAmount stake blockNumber : Nat) : Option (Database κ) :=
  if (db.registrations (orderHash, filler)).isSome then some db
  else if db.orders orderHash = true then
    some { db with
      registrations := db.registrations.insert (orderHash, filler)
        ⟨fillAmount, stake, .active, none, none, none, none, blockNumber, none, none⟩ }
  else none

def update (db : Database κ) (orderHash : κ) (filler : Address)
    (set : RegistrationRow → RegistrationRow) : Database κ :=
  { db with
    registrations := db.registrations.updateWhere (fun k _ => k = (orderHash, filler)) set }

end Database

inductive Event (κ : Type) where
  | registered (filler : Address) (orderHash : κ) (fillAmount stake : Nat)
  | slashed (filler : Address) (orderHash : κ) (stake : Nat) (caller : Address) (reward : Nat)
  | stakeReturned (filler : Address) (orderHash : κ) (refund : Nat)
  | stakeForfeited (filler : Address) (orderHash : κ) (amount : Nat)
  | stakeReleased (filler : Address) (orderHash : κ) (amount : Nat)
deriving DecidableEq

def isRegistered : Event κ → Bool
  | .registered .. => true
  | _ => false

def isStakeReturned : Event κ → Bool
  | .stakeReturned .. => true
  | _ => false

def isStakeForfeited : Event κ → Bool
  | .stakeForfeited .. => true
  | _ => false

def isSlashed : Event κ → Bool
  | .slashed .. => true
  | _ => false

def isStakeReleased : Event κ → Bool
  | .stakeReleased .. => true
  | _ => false

/-- The statement of a handler; each has one. -/
def exec (log : Log (Event κ)) (db : Database κ) : Option (Database κ × Option (Log (Event κ))) :=
  match log.args with
  | .registered filler orderHash fillAmount stake =>
      (db.insertRegistration orderHash filler fillAmount stake log.blockNumber).map fun db =>
        (db, none)
  | .stakeReturned filler orderHash refund =>
      some (db.update orderHash filler fun r =>
        { r with
          status := .filled
          refundAmount := some refund
          resolvedBlock := some log.blockNumber
          resolvedTxHash := some log.id.transactionHash }, none)
  | .stakeForfeited filler orderHash amount =>
      some (db.update orderHash filler fun r => { r with forfeitedAmount := some amount }, none)
  | .slashed filler orderHash _ caller reward =>
      some (db.update orderHash filler fun r =>
        { r with
          status := .slashed
          slashedReward := some reward
          slashedBy := some caller
          resolvedBlock := some log.blockNumber
          resolvedTxHash := some log.id.transactionHash }, none)
  | .stakeReleased filler orderHash _ =>
      some (db.update orderHash filler fun r =>
        { r with
          status := .released
          resolvedBlock := some log.blockNumber
          resolvedTxHash := some log.id.transactionHash }, none)

/-- The order service stores an order. -/
def createOrder (hash : κ) (db : Database κ) : Database κ :=
  { db with orders := Function.update db.orders hash true }

/-- `CHUNK_SIZE`, where `INDEXER_CHUNK` is not set. -/
def CHUNK_SIZE : Nat := 2000

theorem CHUNK_SIZE_pos : 0 < CHUNK_SIZE := by decide

/-- The indexer that `startRegistrationIndexer` starts. Its only checkpoint
is `fillauction_registrations`. -/
def registrationIndexer :
    Indexer Unit (Event κ) (Log (Event κ)) κ (Database κ) where
  feeds := [()]
  filters _ := [isRegistered, isStakeReturned, isStakeForfeited, isSlashed, isStakeReleased]
  chunk := CHUNK_SIZE
  chunk_pos := CHUNK_SIZE_pos
  start := id
  exec := exec
  other hash _ _ db := createOrder hash db

abbrev State (κ : Type) := Indexer.State Unit (Event κ) (Log (Event κ)) (Database κ)

end RegistrationIndexer

end NeutronX
