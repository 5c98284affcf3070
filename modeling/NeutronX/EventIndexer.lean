import NeutronX.Evm.Poller
import NeutronX.Evm.Table
import NeutronX.Order

/-!
# The event indexer

The backend's mirror of the reactor and the fallback executor: three feeds
of logs, polled one after the other, write the tables `orders` and `fills`.
A partial fill is inserted under the identity of its log, and the status of
its order computed from the sum of the order's fills; a fallback marks its
order filled; an invalidated nonce cancels the open orders that have it.

Other processes write the same tables: the order service, the timer that
marks orders expired, and the fallback watcher.
-/

namespace NeutronX

open Evm

namespace EventIndexer

/-! ## The tables -/

inductive OrderStatus where
  | pending
  | active
  | filled
  | cancelled
  | expired
deriving DecidableEq

/-- `status IN ('pending', 'active')` -/
def OrderStatus.isOpen : OrderStatus → Bool
  | .pending => true
  | .active => true
  | .filled => false
  | .cancelled => false
  | .expired => false

structure OrderRow where
  info : OrderInfo
  /-- The columns `swapper` and `nonce` are texts, as they were posted. Are
  they spelled as ethers prints an address, with its checksum, and a number? -/
  printed : Bool
  status : OrderStatus
  fallbackInitiated : Bool
deriving DecidableEq

inductive FillSource where
  | filler
  | fallback
deriving DecidableEq

structure FillRow (κ : Type) where
  /-- of the log; its transaction is the column `tx_hash` -/
  id : LogId
  orderHash : κ
  filler : Address
  fillAmount : Nat
  outputAmount : Nat
  blockNumber : Nat
  source : FillSource
  aggregator : Option String
deriving DecidableEq

structure Database (κ : Type) where
  orders : Sql.Table κ OrderRow
  /-- newest first -/
  fills : List (FillRow κ)
  /-- the blocks the expiry timer ran at, which no process reads -/
  ticks : List Nat

variable {κ : Type} [DecidableEq κ]

namespace Database

/-- `INSERT INTO fills ... ON CONFLICT (id) DO NOTHING`, where `order_hash`
references `orders`. -/
def insertFill (db : Database κ) (row : FillRow κ) : Option (Database κ) :=
  if ∃ r ∈ db.fills, r.id = row.id then some db
  else if (db.orders row.orderHash).isSome then some { db with fills := row :: db.fills }
  else none

def setStatus (db : Database κ) (hash : κ) (status : OrderStatus) : Database κ :=
  { db with orders := db.orders.updateWhere (fun k _ => k = hash) fun r => { r with status } }

/-- `WHERE swapper = $1 AND nonce = $2`, with the texts ethers prints: they
equal a row's texts where these are spelled so and the values are the same. -/
def cancelNonce (db : Database κ) (swapper : Address) (nonce : Uint 256) : Database κ :=
  { db with
    orders := db.orders.updateWhere
      (fun _ r => r.printed = true ∧ r.info.swapper = swapper ∧ r.info.nonce = nonce ∧
        r.status.isOpen = true)
      fun r => { r with status := .cancelled } }

def expire (db : Database κ) (currentBlock : Nat) : Database κ :=
  { db with
    orders := db.orders.updateWhere
      (fun _ r => r.status.isOpen = true ∧ (r.info.deadline : Nat) < currentBlock)
      fun r => { r with status := .expired }
    ticks := currentBlock :: db.ticks }

def setFallback (db : Database κ) (hash : κ) : Database κ :=
  { db with
    orders := db.orders.updateWhere (fun k _ => k = hash) fun r =>
      { r with status := .filled, fallbackInitiated := true } }

def createOrder (db : Database κ) (hash : κ) (info : OrderInfo) (printed : Bool) : Database κ :=
  if (db.orders hash).isSome then db
  else { db with orders := db.orders.insert hash ⟨info, printed, .pending, false⟩ }

/-- The fills of an order, newest first. -/
def fillsOf (db : Database κ) (hash : κ) : List (FillRow κ) :=
  db.fills.filter fun r => r.orderHash = hash

/-- `SUM(f.fill_amount)` -/
def totalFilled (db : Database κ) (hash : κ) : Nat :=
  ((db.fillsOf hash).map FillRow.fillAmount).sum

/-- `SUM(f.output_amount)` -/
def totalOutput (db : Database κ) (hash : κ) : Nat :=
  ((db.fillsOf hash).map FillRow.outputAmount).sum

/-- The status `handlePartialFill` computes from the sums. -/
def newStatus (db : Database κ) (hash : κ) : OrderStatus :=
  match db.orders hash with
  | some r => if (r.info.inputAmount : Nat) ≤ db.totalFilled hash then .filled else .active
  | none => .active

end Database

/-! ## The handlers -/

inductive Event (κ : Type) where
  | partialFillExecuted (orderHash : κ) (filler : Address) (fillAmount outputAmount : Nat)
  | fallbackExecuted (orderHash : κ) (amountIn amountOut : Nat)
  | nonceInvalidated (swapper : Address) (nonce : Uint 256)
deriving DecidableEq

/-- The checkpoints `reactor_partial_fill`, `fallback_executed` and
`reactor_nonce_invalidated`. -/
inductive Feed where
  | partialFill
  | fallback
  | cancel
deriving DecidableEq

def Feed.matches : Feed → Event κ → Bool
  | .partialFill, .partialFillExecuted .. => true
  | .fallback, .fallbackExecuted .. => true
  | .cancel, .nonceInvalidated .. => true
  | _, _ => false

/-- The statements of the handlers. -/
inductive Statement (κ : Type) where
  | insertFill (row : FillRow κ)
  /-- the sum of the fills against the input -/
  | selectFilled (orderHash : κ)
  | updateStatus (orderHash : κ) (status : OrderStatus)
  | cancelNonce (swapper : Address) (nonce : Uint 256)
deriving DecidableEq

def fillRow (log : Log (Event κ)) (orderHash : κ) (filler : Address)
    (fillAmount outputAmount : Nat) : FillRow κ :=
  ⟨log.id, orderHash, filler, fillAmount, outputAmount, log.blockNumber, .filler, none⟩

def handle (log : Log (Event κ)) : Statement κ :=
  match log.args with
  | .partialFillExecuted orderHash filler fillAmount outputAmount =>
      .insertFill (fillRow log orderHash filler fillAmount outputAmount)
  | .fallbackExecuted orderHash _ _ => .updateStatus orderHash .filled
  | .nonceInvalidated swapper nonce => .cancelNonce swapper nonce

def exec : Statement κ → Database κ → Option (Database κ × Option (Statement κ))
  | .insertFill row, db =>
      (db.insertFill row).map fun db => (db, some (.selectFilled row.orderHash))
  | .selectFilled hash, db => some (db, some (.updateStatus hash (db.newStatus hash)))
  | .updateStatus hash status, db => some (db.setStatus hash status, none)
  | .cancelNonce swapper nonce, db => some (db.cancelNonce swapper nonce, none)

/-! ## The other writers -/

/-- A fallback of the order was mined, and logged under this identity. -/
def fallbackLogged (logs : List (Log (Event κ))) (orderHash : κ) (id : LogId) : Bool :=
  logs.any fun log =>
    log.id = id &&
    match log.args with
    | .fallbackExecuted hash _ _ => decide (hash = orderHash)
    | .partialFillExecuted .. => false
    | .nonceInvalidated .. => false

/-- The columns the fallback watcher fills in. -/
structure FallbackRow (κ : Type) where
  id : LogId
  orderHash : κ
  executor : Address
  fillAmount : Nat
  outputAmount : Nat
  blockNumber : Nat
  aggregator : String
deriving DecidableEq

def FallbackRow.row (r : FallbackRow κ) : FillRow κ :=
  ⟨r.id, r.orderHash, r.executor, r.fillAmount, r.outputAmount, r.blockNumber, .fallback,
    some r.aggregator⟩

inductive Write (κ : Type) where
  | createOrder (hash : κ) (info : OrderInfo) (printed : Bool)
  /-- The `UPDATE` of `cancelOrder`, which does not look at the status. The
  `SELECT` before it did, at any earlier time, and every order was open when
  it was stored. -/
  | cancelOrder (hash : κ)
  /-- a tick of the expiry timer, which has read the number of a block -/
  | expire (currentBlock : Nat)
  /-- the fallback watcher, whose transaction logged `id` -/
  | setFallback (hash : κ) (id : LogId)
  | insertFallback (row : FallbackRow κ)

/-- No node answers with a block that is still to come, and the fallback
watcher writes after its transaction only. -/
def other (w : Write κ) (number : Nat) (logs : List (Log (Event κ))) (db : Database κ) :
    Database κ :=
  match w with
  | .createOrder hash info printed => db.createOrder hash info printed
  | .cancelOrder hash => db.setStatus hash .cancelled
  | .expire currentBlock => if currentBlock < number then db.expire currentBlock else db
  | .setFallback hash id => if fallbackLogged logs hash id then db.setFallback hash else db
  | .insertFallback row =>
      if fallbackLogged logs row.orderHash row.id then (db.insertFill row.row).getD db else db

/-- The indexer that `startIndexer` starts. -/
def eventIndexer : Indexer Feed (Event κ) (Statement κ) (Write κ) (Database κ) where
  feeds := [.partialFill, .fallback, .cancel]
  filters feed := [feed.matches]
  chunk := 2000
  chunk_pos := by decide
  start := handle
  exec := exec
  other := other

abbrev State (κ : Type) := Indexer.State Feed (Event κ) (Statement κ) (Database κ)

abbrev Action (κ : Type) := Indexer.Action Feed (Event κ) (Write κ)

/-! ## The statements, one by one -/

omit [DecidableEq κ] in
theorem insertFill_spec {db db' : Database κ} {row : FillRow κ}
    (h : db.insertFill row = some db') :
    (∃ r ∈ db.fills, r.id = row.id) ∧ db' = db ∨
    (∀ r ∈ db.fills, r.id ≠ row.id) ∧ (db.orders row.orderHash).isSome = true ∧
      db' = { db with fills := row :: db.fills } := by
  unfold Database.insertFill at h
  split at h
  · rename_i hthere
    exact Or.inl ⟨hthere, (Option.some.inj h).symm⟩
  · rename_i hfresh
    split at h
    · rename_i horder
      refine Or.inr ⟨fun r hr heq => hfresh ⟨r, hr, heq⟩, horder, (Option.some.inj h).symm⟩
    · cases h

/-- What a statement does, and what is next. -/
inductive Executes (db db' : Database κ) : Statement κ → Option (Statement κ) → Prop
  | insertFill (row : FillRow κ) (h : db.insertFill row = some db') :
      Executes db db' (.insertFill row) (some (.selectFilled row.orderHash))
  | selectFilled (hash : κ) (h : db' = db) :
      Executes db db' (.selectFilled hash) (some (.updateStatus hash (db.newStatus hash)))
  | updateStatus (hash : κ) (status : OrderStatus) (h : db' = db.setStatus hash status) :
      Executes db db' (.updateStatus hash status) none
  | cancelNonce (swapper : Address) (nonce : Uint 256) (h : db' = db.cancelNonce swapper nonce) :
      Executes db db' (.cancelNonce swapper nonce) none

theorem exec_spec {db db' : Database κ} {j : Statement κ} {next : Option (Statement κ)}
    (h : exec j db = some (db', next)) : Executes db db' j next := by
  cases j with
  | insertFill row =>
      obtain ⟨db₁, hdb₁, heq⟩ := Option.map_eq_some_iff.mp h
      cases heq
      exact .insertFill row hdb₁
  | selectFilled hash =>
      cases h
      exact .selectFilled hash rfl
  | updateStatus hash status =>
      cases h
      exact .updateStatus hash status rfl
  | cancelNonce swapper nonce =>
      cases h
      exact .cancelNonce swapper nonce rfl

/-! ## Fills stay -/

/-- Every fill of one database is in another. -/
def KeepsFills (db db' : Database κ) : Prop := ∀ r ∈ db.fills, r ∈ db'.fills

omit [DecidableEq κ] in
theorem keepsFills_insertFill {db db' : Database κ} {row : FillRow κ}
    (h : db.insertFill row = some db') : KeepsFills db db' := by
  rcases insertFill_spec h with ⟨-, rfl⟩ | ⟨-, -, rfl⟩
  · exact fun _ hr => hr
  · exact fun _ hr => List.mem_cons_of_mem _ hr

theorem Executes.keepsFills {db db' : Database κ} {j : Statement κ}
    {next : Option (Statement κ)} (h : Executes db db' j next) : KeepsFills db db' := by
  cases h with
  | insertFill row h => exact keepsFills_insertFill h
  | selectFilled hash h =>
      subst h
      exact fun _ hr => hr
  | updateStatus hash status h =>
      subst h
      exact fun _ hr => hr
  | cancelNonce swapper nonce h =>
      subst h
      exact fun _ hr => hr

theorem keepsFills_other (w : Write κ) (number : Nat) (logs : List (Log (Event κ)))
    (db : Database κ) : KeepsFills db (other w number logs db) := by
  cases w with
  | createOrder hash info printed =>
      simp only [other, Database.createOrder]
      split <;> exact fun _ hr => hr
  | cancelOrder hash => exact fun _ hr => hr
  | expire currentBlock =>
      simp only [other]
      split <;> exact fun _ hr => hr
  | setFallback hash id =>
      simp only [other]
      split <;> exact fun _ hr => hr
  | insertFallback row =>
      simp only [other]
      split
      · cases hinsert : db.insertFill row.row with
        | none => exact fun _ hr => hr
        | some db' => exact keepsFills_insertFill hinsert
      · exact fun _ hr => hr

/-- The log's row is in the table. -/
def Stored (db : Database κ) (l : Log (Event κ)) : Prop := ∃ r ∈ db.fills, r.id = l.id

omit [DecidableEq κ] in
theorem Stored.keep {db db' : Database κ} {l : Log (Event κ)} (h : Stored db l)
    (hkeeps : KeepsFills db db') : Stored db' l := by
  obtain ⟨r, hr, hid⟩ := h
  exact ⟨r, hkeeps r hr, hid⟩

/-- How far the handler of a log is. -/
inductive Stage (db : Database κ) (l : Log (Event κ)) : Statement κ → Prop
  | start : Stage db l (handle l)
  | select {hash : κ} {filler : Address} {fillAmount outputAmount : Nat}
      (args : l.args = .partialFillExecuted hash filler fillAmount outputAmount)
      (stored : Stored db l) : Stage db l (.selectFilled hash)
  | update {hash : κ} {filler : Address} {fillAmount outputAmount : Nat} (status : OrderStatus)
      (args : l.args = .partialFillExecuted hash filler fillAmount outputAmount)
      (stored : Stored db l) : Stage db l (.updateStatus hash status)

omit [DecidableEq κ] in
theorem Stage.keep {db db' : Database κ} {l : Log (Event κ)} {j : Statement κ}
    (h : Stage db l j) (hkeeps : KeepsFills db db') : Stage db' l j := by
  cases h with
  | start => exact .start
  | select args stored => exact .select args (stored.keep hkeeps)
  | update status args stored => exact .update status args (stored.keep hkeeps)

/-- The partial fills whose handler has got past its first statement have
their rows. -/
structure StoredLaw (s : State κ) : Prop where
  works : ∀ l j, Indexer.Works s l j → Stage s.db l j
  applied : ∀ l ∈ s.applied, ∀ hash filler fillAmount outputAmount,
    l.args = .partialFillExecuted hash filler fillAmount outputAmount → Stored s.db l

omit [DecidableEq κ] in
theorem StoredLaw.keep {s s' : State κ} (h : StoredLaw s) (hkeeps : KeepsFills s.db s'.db)
    (happlied : s'.applied = s.applied)
    (hworks : ∀ l j, Indexer.Works s' l j → Indexer.Works s l j ∨ l ∈ s.logs ∧ j = handle l) :
    StoredLaw s' := by
  refine ⟨fun l j hj => ?_, fun l hl hash filler fillAmount outputAmount hargs => ?_⟩
  · rcases hworks l j hj with hold | ⟨-, rfl⟩
    · exact (h.works l j hold).keep hkeeps
    · exact .start
  · rw [happlied] at hl
    exact (h.applied l hl hash filler fillAmount outputAmount hargs).keep hkeeps

/-- The stage after a statement. -/
theorem Stage.next {db db' : Database κ} {l : Log (Event κ)} {j : Statement κ}
    {next : Option (Statement κ)} (h : Stage db l j) (hexec : Executes db db' j next) :
    (∀ j', next = some j' → Stage db' l j') ∧
    (next = none → ∀ hash filler fillAmount outputAmount,
      l.args = .partialFillExecuted hash filler fillAmount outputAmount → Stored db' l) := by
  have hkeeps := hexec.keepsFills
  cases h with
  | select args stored =>
      cases hexec with
      | selectFilled hash hdb =>
          refine ⟨fun j' hj' => ?_, fun hnone => (by cases hnone)⟩
          cases hj'
          exact .update _ args (stored.keep hkeeps)
  | update status args stored =>
      cases hexec with
      | updateStatus hash status hdb =>
          exact ⟨fun j' hj' => (by cases hj'), fun _ _ _ _ _ _ => stored.keep hkeeps⟩
  | start =>
      cases hargs : l.args with
      | partialFillExecuted hash filler fillAmount outputAmount =>
          simp only [handle, hargs] at hexec
          cases hexec with
          | insertFill row hinsert =>
              refine ⟨fun j' hj' => ?_, fun hnone => (by cases hnone)⟩
              cases hj'
              refine .select hargs ?_
              rcases insertFill_spec hinsert with ⟨⟨r, hr, hid⟩, rfl⟩ | ⟨-, -, rfl⟩
              · exact ⟨r, hr, hid⟩
              · exact ⟨_, List.mem_cons_self .., rfl⟩
      | fallbackExecuted hash amountIn amountOut =>
          simp only [handle, hargs] at hexec
          cases hexec with
          | updateStatus hash status hdb =>
              exact ⟨fun j' hj' => (by cases hj'), fun _ _ _ _ _ h => (by cases h)⟩
      | nonceInvalidated swapper nonce =>
          simp only [handle, hargs] at hexec
          cases hexec with
          | cancelNonce swapper nonce hdb =>
              exact ⟨fun j' hj' => (by cases hj'), fun _ _ _ _ _ h => (by cases h)⟩

theorem storedLaw_change {s s' : State κ} {a : Action κ} (h : StoredLaw s)
    (hchange : Indexer.Change eventIndexer s a s') : StoredLaw s' := by
  cases hchange with
  | quiet number logs db applied works =>
      exact h.keep (by rw [db]; exact fun _ hr => hr) applied works
  | emitted events action ids fresh number logs db applied works =>
      exact h.keep (by rw [db]; exact fun _ hr => hr) applied fun l j hj => Or.inl (works l j hj)
  | other w action hs' =>
      subst hs'
      exact h.keep (keepsFills_other w _ _ _) rfl fun _ _ hj => Or.inl hj
  | executed i outcome action answered l j next hand number logs exec applied works =>
      have hexec := exec_spec exec
      obtain ⟨hnext, hlast⟩ := (h.works l j ⟨i, hand⟩).next hexec
      refine ⟨fun l' j' hj' => ?_, fun l' hl' hash filler fillAmount outputAmount hargs => ?_⟩
      · rcases works l' j' hj' with hold | ⟨rfl, hnew⟩
        · exact (h.works l' j' hold).keep hexec.keepsFills
        · exact hnext j' hnew
      · rcases applied with hsame | ⟨hnone, hadded⟩
        · rw [hsame] at hl'
          exact (h.applied l' hl' _ _ _ _ hargs).keep hexec.keepsFills
        · rw [hadded] at hl'
          rcases List.mem_cons.mp hl' with rfl | hl'
          · exact hlast hnone _ _ _ _ hargs
          · exact (h.applied l' hl' _ _ _ _ hargs).keep hexec.keepsFills

omit [DecidableEq κ] in
theorem storedLaw_init (number : Nat) (db : Database κ) :
    StoredLaw (Indexer.State.init number db : State κ) := by
  refine ⟨fun l j hj => ?_, fun _ hl => absurd hl List.not_mem_nil⟩
  obtain ⟨i, hi⟩ := hj
  cases hi

end EventIndexer

end NeutronX
