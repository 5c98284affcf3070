import NeutronX.CrossChain.EscrowSrc
import NeutronX.Evm.Table
import NeutronX.OrderService

/-!
# The cross-chain service

The backend's order and fill tables. A request first reads and checks
(`Request.select`) and then runs one writing statement, and the database
interleaves the statements of concurrent requests and of the watchers; a
checked request waits among the `pending` statements in between. The
watchers' statements name the status they start from in their `WHERE`.

A hashlock is whatever text the filler sent and is compared as such.
Columns nothing reads (the rate, transaction hashes, times) are left out.
-/

namespace NeutronX.CrossChain

open Evm Sql
open OrderService (check check_eq_ok)

/-! ## Tables -/

/-- `cc_fills.status` -/
inductive FillStatus where
  | quoted
  | dstFunded
  | authorized
  | srcLocked
  | revealed
  | claimed
  /-- a dead end that no statement writes -/
  | aborted
  | slashed
deriving DecidableEq

/-- A row of `cc_orders`, but for its hash. -/
structure OrderRow (A : Type) where
  info : OrderInfo A
  swapperSig : Option Bytes
  reactorAddr : A
  chainAId : Nat
  dstChainId : Nat
deriving DecidableEq

/-- A row of `cc_fills`, but for its id; `H` is the type of hashlock texts. -/
structure FillRow (κ A H : Type) where
  orderHash : κ
  filler : A
  fillAmount : Uint 256
  hashlock : H
  t1 : Nat
  t2 : Nat
  escrowSrcAddr : Option A
  escrowDstAddr : Option A
  swapperSig : Option Bytes
  secret : Option Bytes32
  status : FillStatus
deriving DecidableEq

structure Db (κ A H : Type) where
  orders : Table κ (OrderRow A)
  fills : Table Nat (FillRow κ A H)
  /-- the sequence of `fill_id` -/
  nextFillId : Nat

namespace Db

def init {κ A H : Type} : Db κ A H := ⟨Table.empty, Table.empty, 1⟩

end Db

/-! ## Statements -/

/-- The values of an `INSERT INTO cc_fills`. -/
structure Quote (κ A H : Type) where
  orderHash : κ
  filler : A
  fillAmount : Uint 256
  hashlock : H
  t1 : Nat
  t2 : Nat
deriving DecidableEq

def Quote.row {κ A H : Type} (q : Quote κ A H) : FillRow κ A H where
  orderHash := q.orderHash
  filler := q.filler
  fillAmount := q.fillAmount
  hashlock := q.hashlock
  t1 := q.t1
  t2 := q.t2
  escrowSrcAddr := none
  escrowDstAddr := none
  swapperSig := none
  secret := none
  status := .quoted

/-- A writing statement with its values. -/
inductive Statement (κ A H : Type) where
  | insertOrder (orderHash : κ) (row : OrderRow A)
  | setOrderSig (orderHash : κ) (swapperSig : Bytes)
  | insertFill (quote : Quote κ A H)
  | setFillSig (fillId : Nat) (swapperSig : Bytes) (t1 : Nat)
  | recordDstFunded (orderHash : κ) (hashlock : H) (escrowDstAddr : A)
  | recordSrcLocked (orderHash : κ) (hashlock : H) (escrowSrcAddr filler : A)
  | recordReveal (orderHash : κ) (hashlock : H) (secret : Bytes32)
  | recordClaimed (orderHash : κ) (hashlock : H)
  | recordSlashed (orderHash : κ) (hashlock : H)
deriving DecidableEq

namespace Db

variable {κ A H : Type} [DecidableEq κ] [DecidableEq A] [DecidableEq H]

/-- `UNIQUE (order_hash, hashlock)` and the reference to the order. -/
def admits (db : Db κ A H) (q : Quote κ A H) : Bool :=
  (db.orders q.orderHash).isSome &&
    (List.range db.nextFillId).all fun id =>
      (db.fills id).all fun r => !(r.orderHash == q.orderHash && r.hashlock == q.hashlock)

omit [DecidableEq A] in
/-- The update of one fill's row, for the statements the watchers run. -/
def record (db : Db κ A H) (orderHash : κ) (hashlock : H) (from_ : FillRow κ A H → Bool)
    (set : FillRow κ A H → FillRow κ A H) : Db κ A H :=
  { db with
    fills := db.fills.updateWhere
      (fun _ r => decide (r.orderHash = orderHash ∧ r.hashlock = hashlock) && from_ r) set }

omit [DecidableEq A] in
def recordDstFunded (db : Db κ A H) (orderHash : κ) (hashlock : H) (escrowDstAddr : A) :
    Db κ A H :=
  db.record orderHash hashlock (fun r => r.status == .quoted)
    fun r => { r with escrowDstAddr := some escrowDstAddr, status := .dstFunded }

def recordSrcLocked (db : Db κ A H) (orderHash : κ) (hashlock : H) (escrowSrcAddr filler : A) :
    Db κ A H :=
  db.record orderHash hashlock (fun r => r.status == .authorized && r.filler == filler)
    fun r => { r with escrowSrcAddr := some escrowSrcAddr, status := .srcLocked }

omit [DecidableEq A] in
def recordReveal (db : Db κ A H) (orderHash : κ) (hashlock : H) (secret : Bytes32) : Db κ A H :=
  db.record orderHash hashlock (fun r => r.status == .srcLocked)
    fun r => { r with secret := some secret, status := .revealed }

omit [DecidableEq A] in
def recordClaimed (db : Db κ A H) (orderHash : κ) (hashlock : H) : Db κ A H :=
  db.record orderHash hashlock (fun r => r.status == .revealed)
    fun r => { r with status := .claimed }

omit [DecidableEq A] in
def recordSlashed (db : Db κ A H) (orderHash : κ) (hashlock : H) : Db κ A H :=
  db.record orderHash hashlock (fun r => r.status == .authorized || r.status == .srcLocked)
    fun r => { r with status := .slashed }

/-- One statement. An insert that breaks a constraint leaves no row. -/
def execute (db : Db κ A H) : Statement κ A H → Db κ A H
  | .insertOrder orderHash row =>
      if (db.orders orderHash).isSome then db
      else { db with orders := db.orders.insert orderHash row }
  | .setOrderSig orderHash swapperSig =>
      { db with
        orders := db.orders.updateWhere (fun k _ => k == orderHash)
          fun o => { o with swapperSig := some swapperSig } }
  | .insertFill quote =>
      { db with
        fills := if db.admits quote then db.fills.insert db.nextFillId quote.row else db.fills
        nextFillId := db.nextFillId + 1 }
  | .setFillSig fillId swapperSig t1 =>
      { db with
        fills := db.fills.updateWhere (fun id _ => id == fillId)
          fun r => { r with swapperSig := some swapperSig, t1 := t1, status := .authorized } }
  | .recordDstFunded orderHash hashlock escrowDstAddr =>
      db.recordDstFunded orderHash hashlock escrowDstAddr
  | .recordSrcLocked orderHash hashlock escrowSrcAddr filler =>
      db.recordSrcLocked orderHash hashlock escrowSrcAddr filler
  | .recordReveal orderHash hashlock secret => db.recordReveal orderHash hashlock secret
  | .recordClaimed orderHash hashlock => db.recordClaimed orderHash hashlock
  | .recordSlashed orderHash hashlock => db.recordSlashed orderHash hashlock

end Db

/-! ## Requests -/

/-- The chain registry and what the service uses of the ethers library. -/
structure Service (κ A H : Type) where
  chainIds : List Nat
  /-- `getChain(chainId).escrowSrcFactory` -/
  escrowSrcFactory : Nat → A
  hashOrder : OrderInfo A → κ
  hashFill : (orderHash : κ) → (hashlock : H) → (fillAmount : Uint 256) → (t1 t2 : Nat) → κ
  /-- `recoverAddress(digestFor(computeDomainSeparator(chainId, reactorAddr), structHash), sig)`,
  `none` where it throws -/
  recoverAddress : (chainId : Nat) → (reactorAddr : A) → (structHash : κ) → Bytes → Option A

inductive Request (κ A H : Type) where
  | createIntent (info : OrderInfo A) (chainAId dstChainId : Nat)
  | setOrderSwapperSig (orderHash : κ) (swapperSig : Bytes)
  | createFillQuote (quote : Quote κ A H)
  | setFillSwapperSig (fillId : Nat) (swapperSig : Bytes) (newT1 : Option Nat)

namespace Service

variable {κ A H : Type} (svc : Service κ A H)

def createIntent (now : Nat) (info : OrderInfo A) (chainAId dstChainId : Nat) :
    Except String (Statement κ A H) := do
  check (chainAId ∈ svc.chainIds) s!"Unknown source chain {chainAId}"
  check (dstChainId ∈ svc.chainIds) s!"Unknown destination chain {dstChainId}"
  check (chainAId ≠ dstChainId) "Source and destination chains must differ"
  check (now < (info.deadlineBase : Nat)) "deadlineBase must be a future unix timestamp"
  return .insertOrder (svc.hashOrder info)
    ⟨info, none, svc.escrowSrcFactory chainAId, chainAId, dstChainId⟩

def foundOrder (db : Db κ A H) (orderHash : κ) : Except String (OrderRow A) :=
  match db.orders orderHash with
  | some o => .ok o
  | none => .error "Order not found"

variable [DecidableEq A]

/-- That `swapperSig` is the order's swapper's over `structHash`. -/
def verifySwapperSig (o : OrderRow A) (structHash : κ) (swapperSig : Bytes) :
    Except String Unit :=
  match svc.recoverAddress o.chainAId o.reactorAddr structHash swapperSig with
  | some recovered =>
      check (recovered = o.info.swapper) "swapperSig does not match order.swapper"
  | none => .error "invalid signature"

def setOrderSwapperSig (db : Db κ A H) (orderHash : κ) (swapperSig : Bytes) :
    Except String (Statement κ A H) := do
  let o ← foundOrder db orderHash
  verifySwapperSig svc o orderHash swapperSig
  return .setOrderSig orderHash swapperSig

omit [DecidableEq A] in
def createFillQuote (db : Db κ A H) (q : Quote κ A H) : Except String (Statement κ A H) := do
  let o ← foundOrder db q.orderHash
  check (o.swapperSig.isSome = true)
    "Order intent not yet signed by swapper — cannot quote a fill against it"
  check (q.t1 < q.t2) "t2 must exceed t1 (dest closes after source)"
  check (q.t1 ≤ (o.info.deadlineBase : Nat)) "t1 beyond the order\x27s deadlineBase"
  return .insertFill q

/-- The `t1` of an authorisation: the filler's, or an earlier one. -/
def shortened (now t1 : Nat) : Option Nat → Except String Nat
  | none => .ok t1
  | some newT1 => do
      if newT1 = t1 then
        return t1
      check (now < newT1) "t1 must be in the future"
      check (newT1 ≤ t1) "t1 can only be shortened, not extended past the filler\x27s proposed value"
      return newT1

def statusText : FillStatus → String
  | .quoted => "quoted"
  | .dstFunded => "dst_funded"
  | .authorized => "authorized"
  | .srcLocked => "src_locked"
  | .revealed => "revealed"
  | .claimed => "claimed"
  | .aborted => "aborted"
  | .slashed => "slashed"

/-- `setFillSwapperSig` up to its `UPDATE`. -/
def setFillSwapperSig (now : Nat) (db : Db κ A H) (fillId : Nat) (swapperSig : Bytes)
    (newT1 : Option Nat) : Except String (Statement κ A H) := do
  let some r := db.fills fillId | .error "Fill not found"
  let some o := db.orders r.orderHash | .error "Fill not found"
  check (r.status = .dstFunded)
    ("Fill is \x27" ++ statusText r.status ++ "\x27 — dest escrow must be verified " ++
      "(watcher-confirmed \x27dst_funded\x27) before signing")
  let t1 ← shortened now r.t1 newT1
  verifySwapperSig svc o (svc.hashFill r.orderHash r.hashlock r.fillAmount t1 r.t2) swapperSig
  return .setFillSig fillId swapperSig t1

/-- A request up to its writing statement. -/
def select (now : Nat) (db : Db κ A H) : Request κ A H → Except String (Statement κ A H)
  | .createIntent info chainAId dstChainId => createIntent svc now info chainAId dstChainId
  | .setOrderSwapperSig orderHash swapperSig => setOrderSwapperSig svc db orderHash swapperSig
  | .createFillQuote quote => createFillQuote db quote
  | .setFillSwapperSig fillId swapperSig newT1 =>
      setFillSwapperSig svc now db fillId swapperSig newT1

end Service

/-! ## Interleavings -/

structure ServiceState (κ A H : Type) where
  db : Db κ A H
  /-- the statements of requests that have been checked -/
  pending : List (Statement κ A H)

namespace ServiceState

def init {κ A H : Type} : ServiceState κ A H := ⟨Db.init, []⟩

end ServiceState

/-- A statement that only the watchers run. -/
def Statement.isRecord {κ A H : Type} : Statement κ A H → Bool
  | .recordDstFunded .. | .recordSrcLocked .. | .recordReveal .. | .recordClaimed ..
  | .recordSlashed .. => true
  | _ => false

/-- The fill whose authorisation a statement writes. -/
def Statement.authorises {κ A H : Type} : Statement κ A H → Option Nat
  | .setFillSig fillId _ _ => some fillId
  | _ => none

namespace Service

variable {κ A H : Type} [DecidableEq κ] [DecidableEq A] [DecidableEq H]

/-- One read or one statement; a checked request may wait for ever. `Q` is
asked of every statement, in the state it runs in. -/
inductive Step (svc : Service κ A H) (Q : ServiceState κ A H → Statement κ A H → Prop) :
    ServiceState κ A H → ServiceState κ A H → Prop
  | request (s) (now : Nat) (req : Request κ A H) (st : Statement κ A H)
      (h : svc.select now s.db req = .ok st) :
      Step svc Q s { s with pending := st :: s.pending }
  | execute (s) (st : Statement κ A H) (before after : List (Statement κ A H))
      (hpending : s.pending = before ++ st :: after) (hQ : Q s st) :
      Step svc Q s ⟨s.db.execute st, before ++ after⟩
  | record (s) (st : Statement κ A H) (hrecord : st.isRecord = true) (hQ : Q s st) :
      Step svc Q s { s with db := s.db.execute st }

abbrev Steps (svc : Service κ A H) (Q : ServiceState κ A H → Statement κ A H → Prop) :
    ServiceState κ A H → ServiceState κ A H → Prop :=
  Relation.ReflTransGen (Step svc Q)

omit [DecidableEq κ] [DecidableEq A] [DecidableEq H] in
/-- A step as an instruction: the request that comes in, the place of the
waiting statement that runs, or the statement a watcher runs. -/
inductive Move (κ A H : Type) where
  | request (now : Nat) (req : Request κ A H)
  | execute (place : Nat)
  | record (st : Statement κ A H)

/-- An instruction that does not apply does nothing. -/
def move (svc : Service κ A H) (s : ServiceState κ A H) : Move κ A H → ServiceState κ A H
  | .request now req =>
      match svc.select now s.db req with
      | .ok st => { s with pending := st :: s.pending }
      | .error _ => s
  | .execute place =>
      match s.pending[place]? with
      | some st => ⟨s.db.execute st, s.pending.eraseIdx place⟩
      | none => s
  | .record st => if st.isRecord then { s with db := s.db.execute st } else s

end Service

end NeutronX.CrossChain
