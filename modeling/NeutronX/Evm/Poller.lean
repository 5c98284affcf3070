import NeutronX.Evm.LogWatcher

/-!
# Polling the logs of a chain

An indexer follows several feeds of logs. On every new block a handler
takes up its feeds one after the other: it queries the logs since the last
block of the feed, runs the statements of each of them on a database,
remembers the block, and stores it as the feed's checkpoint. Handlers are
asynchronous: those of several blocks can be under way at once, and those
of a session that lost its connection next to those of its successor. A
crash ends them all; what is stored survives it.

Requests can fail at every point. A query that fails gives up the feed for
this block, a statement that fails gives up its log only. `Covered` is what
remains true of the checkpoints when no statement fails: the logs up to a
checkpoint were all applied.
-/

namespace Evm

open Function

/-- A transaction and a position in its receipt. -/
structure LogId where
  transactionHash : Nat
  logIndex : Nat
deriving DecidableEq

structure Log (A : Type) where
  id : LogId
  blockNumber : Nat
  args : A
deriving DecidableEq

/-! ## Queries -/

variable {F A J W D : Type}

/-- The logs of a range of blocks that pass a filter, oldest first, out of
all logs, newest first. -/
def queryFilter (logs : List (Log A)) (filter : A → Bool) (fromBlock toBlock : Nat) :
    List (Log A) :=
  logs.reverse.filter fun l =>
    decide (fromBlock ≤ l.blockNumber ∧ l.blockNumber ≤ toBlock) && filter l.args

@[simp] theorem mem_queryFilter {logs : List (Log A)} {filter : A → Bool}
    {fromBlock toBlock : Nat} {l : Log A} :
    l ∈ queryFilter logs filter fromBlock toBlock ↔
      l ∈ logs ∧ fromBlock ≤ l.blockNumber ∧ l.blockNumber ≤ toBlock ∧ filter l.args = true := by
  simp [queryFilter, and_assoc]

/-- The loop over the chunks of a range, of at most `fuel` of them. -/
def queryChunks (query : Nat → Nat → List (Log A)) (chunk toBlock : Nat) :
    (fuel start : Nat) → List (Log A)
  | 0, _ => []
  | fuel + 1, start =>
      if start ≤ toBlock then
        query start (min (start + chunk - 1) toBlock)
          ++ queryChunks query chunk toBlock fuel (start + chunk)
      else []

/-- A query of a range of any length, in chunks of a size a node accepts. -/
def queryFilterChunked (query : Nat → Nat → List (Log A)) (chunk fromBlock toBlock : Nat) :
    List (Log A) :=
  queryChunks query chunk toBlock (toBlock + 1 - fromBlock) fromBlock

theorem mem_queryChunks {logs : List (Log A)} {filter : A → Bool} {chunk toBlock : Nat}
    (hchunk : 0 < chunk) {l : Log A} :
    ∀ {fuel start : Nat}, toBlock + 1 - start ≤ fuel →
      (l ∈ queryChunks (queryFilter logs filter) chunk toBlock fuel start ↔
        l ∈ queryFilter logs filter start toBlock) := by
  intro fuel
  induction fuel with
  | zero =>
      intro start hfuel
      simp only [queryChunks, List.not_mem_nil, mem_queryFilter, false_iff]
      rintro ⟨-, hfrom, hto, -⟩
      omega
  | succ fuel ih =>
      intro start hfuel
      rw [queryChunks]
      split
      · rename_i hstart
        rw [List.mem_append, ih (by omega)]
        simp only [mem_queryFilter]
        constructor
        · rintro (⟨hl, hfrom, hto, hfilter⟩ | ⟨hl, hfrom, hto, hfilter⟩)
          · exact ⟨hl, hfrom, by omega, hfilter⟩
          · exact ⟨hl, by omega, hto, hfilter⟩
        · rintro ⟨hl, hfrom, hto, hfilter⟩
          by_cases hhere : l.blockNumber < start + chunk
          · exact Or.inl ⟨hl, hfrom, by omega, hfilter⟩
          · exact Or.inr ⟨hl, by omega, hto, hfilter⟩
      · simp only [List.not_mem_nil, mem_queryFilter, false_iff]
        rintro ⟨-, hfrom, hto, -⟩
        omega

/-- The chunks leave nothing out. -/
theorem mem_queryFilterChunked {logs : List (Log A)} {filter : A → Bool} {chunk : Nat}
    (hchunk : 0 < chunk) {fromBlock toBlock : Nat} {l : Log A} :
    l ∈ queryFilterChunked (queryFilter logs filter) chunk fromBlock toBlock ↔
      l ∈ logs ∧ fromBlock ≤ l.blockNumber ∧ l.blockNumber ≤ toBlock ∧ filter l.args = true := by
  rw [queryFilterChunked, mem_queryChunks hchunk (Nat.le_refl _), mem_queryFilter]

/-! ## Indexers -/

/-- What an indexer does with the logs of its feeds, and what others do to
its database. -/
structure Indexer (F A J W D : Type) where
  /-- in the order a handler takes them up -/
  feeds : List F
  /-- what a feed is queried for, in the order the answers are handled -/
  filters : F → List (A → Bool)
  chunk : Nat
  chunk_pos : 0 < chunk
  start : Log A → J
  /-- a statement, and what is left to do after it; `none` where the
  database refuses it -/
  exec : J → D → Option (D × Option J)
  /-- a statement of another process, at a height of the chain and after
  its logs -/
  other : W → (number : Nat) → List (Log A) → D → D

namespace Indexer

/-- What a handler is doing with its current feed. -/
inductive Phase (A J : Type) where
  | polling
  /-- the logs that are left, and the work on the one before them -/
  | handling (logs : List (Log A)) (work : Option (Log A × J))
  | storing

def Phase.work : Phase A J → Option (Log A × J)
  | .handling _ work => work
  | .polling => none
  | .storing => none

structure Handler (F A J : Type) where
  session : Nat
  blockNumber : Nat
  /-- the current one first -/
  feeds : List F
  phase : Phase A J

structure State (F A J D : Type) where
  /-- the block that is being built; those below it are final -/
  number : Nat
  /-- newest first -/
  logs : List (Log A)
  db : D
  /-- stored in the database -/
  checkpoint : F → Option Nat
  /-- the block a feed was first seen at, which no process reads -/
  startBlock : F → Option Nat
  /-- the variables of each session -/
  last : Nat → F → Option Nat
  handlers : Nat → Option (Handler F A J)
  /-- the logs whose statements were all executed, which no process reads -/
  applied : List (Log A)

/-- How a request to the database ends. A request that is `lost` was
executed, but its answer did not arrive. -/
inductive Outcome where
  | done
  | failed
  | lost
deriving DecidableEq

inductive Action (F A W : Type) where
  /-- a transaction logs, the newest event first -/
  | emit (events : List (LogId × A))
  /-- a block is final -/
  | mine
  | other (w : W)
  /-- a session resolves the checkpoint of a feed -/
  | connect (session : Nat) (feed : F) (currentBlock : Nat)
  | block (session handler blockNumber : Nat)
  | query (handler : Nat) (answered : Bool)
  | take (handler : Nat)
  | exec (handler : Nat) (outcome : Outcome)
  | advance (handler : Nat)
  | store (handler : Nat) (outcome : Outcome)
  | crash

variable (P : Indexer F A J W D)

/-- The answer to the query of a feed. -/
def select (logs : List (Log A)) (feed : F) (fromBlock toBlock : Nat) : List (Log A) :=
  (P.filters feed).flatMap fun filter =>
    queryFilterChunked (queryFilter logs filter) P.chunk fromBlock toBlock

/-- A feed is queried for the log. -/
def Watches (feed : F) (args : A) : Prop := ∃ filter ∈ P.filters feed, filter args = true

variable [DecidableEq F]

namespace State

/-- Before the first log, and before any session. -/
def init (number : Nat) (db : D) : State F A J D :=
  ⟨number, [], db, fun _ => none, fun _ => none, fun _ _ => none, fun _ => none, []⟩

def setHandler (s : State F A J D) (i : Nat) (h : Handler F A J) : State F A J D :=
  { s with handlers := update s.handlers i (some h) }

/-- The log a handler is working on, with the statement that is next. -/
def inHand (s : State F A J D) (i : Nat) : Option (Log A × J) :=
  (s.handlers i).bind fun h => h.phase.work

end State

def emit (s : State F A J D) (events : List (LogId × A)) : State F A J D :=
  if (events.map Prod.fst).Nodup ∧ ∀ e ∈ events, ∀ l ∈ s.logs, l.id ≠ e.1 then
    { s with logs := events.map (fun e => ⟨e.1, s.number, e.2⟩) ++ s.logs }
  else s

/-- The session goes on with the feed after `lastBlock`. -/
def resume (s : State F A J D) (session : Nat) (feed : F) (lastBlock : Nat) : State F A J D :=
  { s with
    checkpoint := update s.checkpoint feed (some lastBlock)
    startBlock :=
      if s.checkpoint feed = none then update s.startBlock feed (some lastBlock) else s.startBlock
    last := update s.last session (update (s.last session) feed (some lastBlock)) }

/-- A session comes to know where a feed is, with backfill on and on the chain
the checkpoint was stored for: `resolveCheckpoint` then drops no stored
checkpoint for another chain, and does not rewind to the tip. -/
def connect (s : State F A J D) (session : Nat) (feed : F) (currentBlock : Nat) :
    State F A J D :=
  if currentBlock < s.number ∧ s.last session feed = none then
    resume s session feed
      (Watcher.resolveCheckpoint (s.checkpoint feed) currentBlock false)
  else s

/-- The handler of a session that knows where its feeds are. -/
def block (s : State F A J D) (session i blockNumber : Nat) : State F A J D :=
  if blockNumber < s.number ∧ (s.handlers i).isNone ∧
      (P.feeds.all fun f => (s.last session f).isSome) = true then
    s.setHandler i ⟨session, blockNumber, P.feeds, .polling⟩
  else s

def query (s : State F A J D) (i : Nat) (answered : Bool) : State F A J D :=
  match s.handlers i with
  | some ⟨session, n, f :: fs, .polling⟩ =>
      match s.last session f with
      | some lastBlock =>
          if lastBlock < n ∧ answered = true then
            s.setHandler i ⟨session, n, f :: fs,
              .handling (P.select s.logs f (lastBlock + 1) n) none⟩
          else s.setHandler i ⟨session, n, fs, .polling⟩
      | none => s
  | _ => s

def take (s : State F A J D) (i : Nat) : State F A J D :=
  match s.handlers i with
  | some ⟨session, n, fs, .handling (l :: logs) none⟩ =>
      s.setHandler i ⟨session, n, fs, .handling logs (some (l, P.start l))⟩
  | _ => s

/-- The next statement of a handler. What is thrown is caught, and the log
is given up. -/
def execute (s : State F A J D) (i : Nat) (outcome : Outcome) : State F A J D :=
  match s.handlers i with
  | some ⟨session, n, fs, .handling logs (some (l, j))⟩ =>
      let s' := s.setHandler i ⟨session, n, fs, .handling logs none⟩
      match outcome, P.exec j s.db with
      | .failed, _ => s'
      | _, none => s'
      | .lost, some (db, _) => { s' with db }
      | .done, some (db, none) => { s' with db, applied := l :: s.applied }
      | .done, some (db, some j') =>
          { s.setHandler i ⟨session, n, fs, .handling logs (some (l, j'))⟩ with db }
  | _ => s

def advance (s : State F A J D) (i : Nat) : State F A J D :=
  match s.handlers i with
  | some ⟨session, n, f :: fs, .handling [] none⟩ =>
      { s.setHandler i ⟨session, n, f :: fs, .storing⟩ with
        last := update s.last session (update (s.last session) f (some n)) }
  | _ => s

def store (s : State F A J D) (i : Nat) (outcome : Outcome) : State F A J D :=
  match s.handlers i with
  | some ⟨session, n, f :: fs, .storing⟩ =>
      { s.setHandler i ⟨session, n, fs, .polling⟩ with
        checkpoint := if outcome = .failed then s.checkpoint
          else update s.checkpoint f (some n) }
  | _ => s

def step (s : State F A J D) : Action F A W → State F A J D
  | .emit events => emit s events
  | .mine => { s with number := s.number + 1 }
  | .other w => { s with db := P.other w s.number s.logs s.db }
  | .connect session feed currentBlock => connect s session feed currentBlock
  | .block session i blockNumber => P.block s session i blockNumber
  | .query i answered => P.query s i answered
  | .take i => P.take s i
  | .exec i outcome => P.execute s i outcome
  | .advance i => advance s i
  | .store i outcome => store s i outcome
  | .crash => { s with last := fun _ _ => none, handlers := fun _ => none }

def run (s : State F A J D) (as : List (Action F A W)) : State F A J D := as.foldl P.step s

/-- All actions of a run, each in the state it is taken in. -/
def Along (Ok : State F A J D → Action F A W → Prop) :
    State F A J D → List (Action F A W) → Prop
  | _, [] => True
  | s, a :: as => Ok s a ∧ Along Ok (P.step s a) as

variable {P}

instance decidableAlong {Ok : State F A J D → Action F A W → Prop}
    [∀ s a, Decidable (Ok s a)] : ∀ s as, Decidable (P.Along Ok s as)
  | _, [] => isTrue trivial
  | s, a :: as => @instDecidableAnd _ _ _ (decidableAlong (P.step s a) as)

theorem run_append (s : State F A J D) (as bs : List (Action F A W)) :
    P.run s (as ++ bs) = P.run (P.run s as) bs := List.foldl_append

theorem Along.append {Ok : State F A J D → Action F A W → Prop} {bs : List (Action F A W)} :
    ∀ {as : List (Action F A W)} {s : State F A J D}, P.Along Ok s (as ++ bs) →
      P.Along Ok s as ∧ P.Along Ok (P.run s as) bs
  | [], _, h => ⟨trivial, h⟩
  | _ :: _, _, ⟨hok, h⟩ => ⟨⟨hok, (Along.append h).1⟩, (Along.append h).2⟩

theorem along_true : ∀ (as : List (Action F A W)) (s : State F A J D),
    P.Along (fun _ _ => True) s as
  | [], _ => trivial
  | _ :: as, _ => ⟨trivial, along_true as _⟩

/-- An invariant of the steps that are all right. -/
theorem run_invariant {Ok : State F A J D → Action F A W → Prop} {I : State F A J D → Prop}
    (hstep : ∀ s a, I s → Ok s a → I (P.step s a)) {as : List (Action F A W)}
    {s : State F A J D} (hs : I s) (h : P.Along Ok s as) : I (P.run s as) := by
  induction as generalizing s with
  | nil => exact hs
  | cons a as ih => exact ih (hstep s a hs h.1) h.2

/-! ## What a step does -/

section Handlers

variable {s : State F A J D} {i : Nat} {h : Handler F A J}

omit [DecidableEq F] in
theorem setHandler_self (s : State F A J D) (i : Nat) (h : Handler F A J) :
    (s.setHandler i h).handlers i = some h := update_self ..

omit [DecidableEq F] in
theorem setHandler_of_ne {k : Nat} (hne : k ≠ i) (s : State F A J D) (h : Handler F A J) :
    (s.setHandler i h).handlers k = s.handlers k := update_of_ne hne ..

omit [DecidableEq F] in
/-- What holds of every handler, after one of them moved on. -/
theorem forall_setHandler {Q : Handler F A J → Prop}
    (hall : ∀ k h', s.handlers k = some h' → Q h') (hnew : Q h) (k : Nat) (h' : Handler F A J)
    (hk : (s.setHandler i h).handlers k = some h') : Q h' := by
  by_cases heq : k = i
  · subst heq
    rw [setHandler_self] at hk
    cases hk
    exact hnew
  · rw [setHandler_of_ne heq] at hk
    exact hall k h' hk

/-- Some handler is about to execute the statement for the log. -/
def Works (s : State F A J D) (l : Log A) (j : J) : Prop := ∃ i, s.inHand i = some (l, j)

omit [DecidableEq F] in
theorem Works.setHandler {l : Log A} {j : J} (hworks : Works (s.setHandler i h) l j) :
    Works s l j ∨ h.phase.work = some (l, j) := by
  obtain ⟨k, hk⟩ := hworks
  by_cases heq : k = i
  · subst heq
    rw [State.inHand, setHandler_self] at hk
    exact Or.inr hk
  · rw [State.inHand, setHandler_of_ne heq] at hk
    exact Or.inl ⟨k, hk⟩

end Handlers

/-- The logs a handler holds are logs of the chain. -/
def Phase.Sourced (logs : List (Log A)) : Phase A J → Prop
  | .handling left work => (∀ l ∈ left, l ∈ logs) ∧ ∀ l j, work = some (l, j) → l ∈ logs
  | .polling => True
  | .storing => True

structure Sourced (s : State F A J D) : Prop where
  handlers : ∀ i h, s.handlers i = some h → h.phase.Sourced s.logs
  applied : ∀ l ∈ s.applied, l ∈ s.logs
  number : ∀ l ∈ s.logs, l.blockNumber ≤ s.number

omit [DecidableEq F] in
theorem Sourced.works {s : State F A J D} (h : Sourced s) {l : Log A} {j : J}
    (hworks : Works s l j) : l ∈ s.logs := by
  obtain ⟨i, hi⟩ := hworks
  obtain ⟨hd, hhd, hwork⟩ := Option.bind_eq_some_iff.mp hi
  have hsourced := h.handlers i hd hhd
  cases hphase : hd.phase with
  | handling left work =>
      rw [hphase] at hsourced hwork
      exact hsourced.2 l j hwork
  | polling =>
      rw [hphase] at hwork
      cases hwork
  | storing =>
      rw [hphase] at hwork
      cases hwork

/-- What an action changes for the database and its readers. -/
inductive Change (P : Indexer F A J W D) (s : State F A J D) (a : Action F A W)
    (s' : State F A J D) : Prop
  | quiet (number : s.number ≤ s'.number) (logs : s'.logs = s.logs) (db : s'.db = s.db)
      (applied : s'.applied = s.applied)
      (works : ∀ l j, Works s' l j → Works s l j ∨ l ∈ s.logs ∧ j = P.start l)
  | emitted (events : List (LogId × A)) (action : a = .emit events)
      (ids : (events.map Prod.fst).Nodup)
      (fresh : ∀ e ∈ events, ∀ l ∈ s.logs, l.id ≠ e.1) (number : s'.number = s.number)
      (logs : s'.logs = events.map (fun e => ⟨e.1, s.number, e.2⟩) ++ s.logs)
      (db : s'.db = s.db) (applied : s'.applied = s.applied)
      (works : ∀ l j, Works s' l j → Works s l j)
  | other (w : W) (action : a = .other w)
      (hs' : s' = { s with db := P.other w s.number s.logs s.db })
  | executed (i : Nat) (outcome : Outcome) (action : a = .exec i outcome)
      (answered : outcome ≠ .failed) (l : Log A) (j : J) (next : Option J)
      (hand : s.inHand i = some (l, j)) (number : s'.number = s.number) (logs : s'.logs = s.logs)
      (exec : P.exec j s.db = some (s'.db, next))
      (applied : s'.applied = s.applied ∨ next = none ∧ s'.applied = l :: s.applied)
      (works : ∀ l' j', Works s' l' j' → Works s l' j' ∨ l' = l ∧ next = some j')

omit [DecidableEq F] in
theorem Change.refl (s : State F A J D) (a : Action F A W) : Change P s a s :=
  .quiet (Nat.le_refl _) rfl rfl rfl fun _ _ h => Or.inl h

omit [DecidableEq F] in
/-- A handler goes on without a new statement in hand. -/
theorem Change.ofHandler {s s' : State F A J D} {a : Action F A W} {i : Nat}
    {h : Handler F A J}
    (hhandlers : s'.handlers = (s.setHandler i h).handlers) (hwork : h.phase.work = none)
    (hnumber : s'.number = s.number) (hlogs : s'.logs = s.logs) (hdb : s'.db = s.db)
    (happlied : s'.applied = s.applied) : Change P s a s' := by
  refine .quiet (Nat.le_of_eq hnumber.symm) hlogs hdb happlied fun l j hworks => ?_
  obtain ⟨k, hk⟩ := hworks
  rw [State.inHand, hhandlers] at hk
  have hworks : Works (s.setHandler i h) l j := ⟨k, hk⟩
  rcases hworks.setHandler with hworks | hnew
  · exact Or.inl hworks
  · rw [hwork] at hnew
    cases hnew

omit [DecidableEq F] in
theorem change_emit (s : State F A J D) (events : List (LogId × A)) :
    Change P s (.emit events) (emit s events) := by
  unfold emit
  split
  · rename_i h
    exact .emitted events rfl h.1 h.2 rfl rfl rfl rfl fun _ _ h => h
  · exact .refl s _

omit [DecidableEq F] in
theorem change_execute (s : State F A J D) (i : Nat) (outcome : Outcome) :
    Change P s (.exec i outcome) (P.execute s i outcome) := by
  unfold execute
  split
  · rename_i session n fs logs l j hi
    have hhand : s.inHand i = some (l, j) := by
      rw [State.inHand, hi]
      rfl
    have hidle : ∀ l' j', Works (s.setHandler i ⟨session, n, fs, .handling logs none⟩) l' j' →
        Works s l' j' := by
      intro l' j' h
      rcases h.setHandler with h | h
      · exact h
      · cases h
    dsimp only
    split
    · exact .ofHandler rfl rfl rfl rfl rfl rfl
    · exact .ofHandler rfl rfl rfl rfl rfl rfl
    · rename_i db next hexec
      exact .executed i .lost rfl (by decide) l j next hhand rfl rfl hexec (Or.inl rfl)
        fun l' j' h => Or.inl (hidle l' j' h)
    · rename_i db hexec
      exact .executed i .done rfl (by decide) l j none hhand rfl rfl hexec (Or.inr ⟨rfl, rfl⟩)
        fun l' j' h => Or.inl (hidle l' j' h)
    · rename_i db j₁ hexec
      refine .executed i .done rfl (by decide) l j (some j₁) hhand rfl rfl hexec (Or.inl rfl)
        fun l' j' h => ?_
      rcases Works.setHandler h with h | h
      · exact Or.inl h
      · cases h
        exact Or.inr ⟨rfl, rfl⟩
  · exact .refl s _

/-- **The change of a step.** -/
theorem step_change {s : State F A J D} (hs : Sourced s) (a : Action F A W) :
    Change P s a (P.step s a) := by
  cases a with
  | emit events => exact change_emit s events
  | mine => exact .quiet (Nat.le_succ _) rfl rfl rfl fun _ _ h => Or.inl h
  | other w => exact .other w rfl rfl
  | connect session feed currentBlock =>
      simp only [step, connect]
      split
      · exact .quiet (Nat.le_refl _) rfl rfl rfl fun _ _ h => Or.inl h
      · exact .refl s _
  | block session i blockNumber =>
      simp only [step, block]
      split
      · exact .ofHandler rfl rfl rfl rfl rfl rfl
      · exact .refl s _
  | query i answered =>
      simp only [step, query]
      split
      · split
        · split
          · exact .ofHandler rfl rfl rfl rfl rfl rfl
          · exact .ofHandler rfl rfl rfl rfl rfl rfl
        · exact .refl s _
      · exact .refl s _
  | take i =>
      simp only [step, take]
      split
      · rename_i session n fs l logs hi
        refine .quiet (Nat.le_refl _) rfl rfl rfl fun l' j' hworks => ?_
        rcases hworks.setHandler with hworks | hnew
        · exact Or.inl hworks
        · cases hnew
          exact Or.inr ⟨(hs.handlers i _ hi).1 l (List.mem_cons_self ..), rfl⟩
      · exact .refl s _
  | exec i outcome => exact change_execute s i outcome
  | advance i =>
      simp only [step, advance]
      split
      · exact .ofHandler rfl rfl rfl rfl rfl rfl
      · exact .refl s _
  | store i outcome =>
      simp only [step, store]
      split
      · exact .ofHandler rfl rfl rfl rfl rfl rfl
      · exact .refl s _
  | crash =>
      refine .quiet (Nat.le_refl _) rfl rfl rfl fun l j hworks => ?_
      obtain ⟨i, hi⟩ := hworks
      cases hi

/-! ## One handler -/

section Hands

variable {s s' : State F A J D} {i k : Nat} {l : Log A} {j : J}

omit [DecidableEq F] in
/-- After a handler moved on without a statement in hand, the others have
theirs. -/
theorem inHand_idle {h : Handler F A J} (hhandlers : s'.handlers = (s.setHandler i h).handlers)
    (hwork : h.phase.work = none) (hk : s'.inHand k = some (l, j)) : s.inHand k = some (l, j) := by
  rw [State.inHand, hhandlers] at hk
  by_cases heq : k = i
  · subst heq
    rw [setHandler_self, Option.bind_some, hwork] at hk
    cases hk
  · rwa [setHandler_of_ne heq] at hk

omit [DecidableEq F] in
theorem execute_inHand {outcome : Outcome}
    (hk : (P.execute s i outcome).inHand k = some (l, j)) :
    s.inHand k = some (l, j) ∨ (i = k ∧ outcome = .done ∧ ∃ j₀ db,
      s.inHand k = some (l, j₀) ∧ P.exec j₀ s.db = some (db, some j)) := by
  unfold execute at hk
  split at hk
  case h_2 => exact Or.inl hk
  case h_1 session n fs logs l₀ j₀ hi =>
    dsimp only at hk
    split at hk
    case h_1 => exact Or.inl (inHand_idle rfl rfl hk)
    case h_2 => exact Or.inl (inHand_idle rfl rfl hk)
    case h_3 => exact Or.inl (inHand_idle rfl rfl hk)
    case h_4 => exact Or.inl (inHand_idle rfl rfl hk)
    case h_5 db j' hexec =>
      by_cases heq : k = i
      · subst heq
        rw [State.inHand, setHandler_self] at hk
        cases hk
        refine Or.inr ⟨rfl, rfl, j₀, db, ?_, hexec⟩
        rw [State.inHand, hi]
        rfl
      · rw [State.inHand, setHandler_of_ne heq] at hk
        exact Or.inl hk

/-- What a handler has in hand it had before, is the first statement of its
log, or follows on the one that was executed. -/
theorem step_inHand (a : Action F A W) (hk : (P.step s a).inHand k = some (l, j)) :
    s.inHand k = some (l, j) ∨ j = P.start l ∨ (a = .exec k .done ∧ ∃ j₀ db,
      s.inHand k = some (l, j₀) ∧ P.exec j₀ s.db = some (db, some j)) := by
  cases a with
  | emit events =>
      simp only [step, emit] at hk
      split at hk <;> exact Or.inl hk
  | mine => exact Or.inl hk
  | other w => exact Or.inl hk
  | connect session feed currentBlock =>
      simp only [step, connect] at hk
      split at hk <;> exact Or.inl hk
  | block session i blockNumber =>
      simp only [step, block] at hk
      split at hk
      · exact Or.inl (inHand_idle rfl rfl hk)
      · exact Or.inl hk
  | query i answered =>
      simp only [step, query] at hk
      split at hk
      · split at hk
        · split at hk <;> exact Or.inl (inHand_idle rfl rfl hk)
        · exact Or.inl hk
      · exact Or.inl hk
  | take i =>
      simp only [step, take] at hk
      split at hk
      · by_cases heq : k = i
        · subst heq
          rw [State.inHand, setHandler_self] at hk
          cases hk
          exact Or.inr (Or.inl rfl)
        · rw [State.inHand, setHandler_of_ne heq] at hk
          exact Or.inl hk
      · exact Or.inl hk
  | exec i outcome =>
      rcases execute_inHand hk with hold | ⟨rfl, rfl, hnew⟩
      · exact Or.inl hold
      · exact Or.inr (Or.inr ⟨rfl, hnew⟩)
  | advance i =>
      simp only [step, advance] at hk
      split at hk
      · exact Or.inl (inHand_idle rfl rfl hk)
      · exact Or.inl hk
  | store i outcome =>
      simp only [step, store] at hk
      split at hk
      · exact Or.inl (inHand_idle rfl rfl hk)
      · exact Or.inl hk
  | crash => cases hk

/-- Only handlers and others write to the database. -/
theorem step_db (a : Action F A W) : (P.step s a).db = s.db ∨ (∃ w, a = .other w) ∨
    ∃ i outcome, a = .exec i outcome := by
  cases a with
  | other w => exact Or.inr (Or.inl ⟨w, rfl⟩)
  | exec i outcome => exact Or.inr (Or.inr ⟨i, outcome, rfl⟩)
  | emit events =>
      simp only [step, emit]
      split <;> exact Or.inl rfl
  | connect session feed currentBlock =>
      simp only [step, connect]
      split <;> exact Or.inl rfl
  | block session i blockNumber =>
      simp only [step, block]
      split <;> exact Or.inl rfl
  | query i answered =>
      simp only [step, query]
      split
      · split
        · split <;> exact Or.inl rfl
        · exact Or.inl rfl
      · exact Or.inl rfl
  | take i =>
      simp only [step, take]
      split <;> exact Or.inl rfl
  | advance i =>
      simp only [step, advance]
      split <;> exact Or.inl rfl
  | store i outcome =>
      simp only [step, store]
      split <;> exact Or.inl rfl
  | mine | crash => exact Or.inl rfl

omit [DecidableEq F] in
/-- A handler's statement fails, or is executed. -/
theorem execute_db (s : State F A J D) (i : Nat) (outcome : Outcome) :
    (P.execute s i outcome).db = s.db ∧
      (outcome = .failed ∨ ∀ l j, s.inHand i = some (l, j) → P.exec j s.db = none) ∨
    outcome ≠ .failed ∧ ∃ l j next, s.inHand i = some (l, j) ∧
      P.exec j s.db = some ((P.execute s i outcome).db, next) := by
  unfold execute
  split
  case h_1 session n fs logs l j hi =>
    have hhand : s.inHand i = some (l, j) := by
      rw [State.inHand, hi]
      rfl
    dsimp only
    split
    case h_1 => exact Or.inl ⟨rfl, Or.inl rfl⟩
    case h_2 hexec =>
      refine Or.inl ⟨rfl, Or.inr fun l' j' hhand' => ?_⟩
      rw [hhand] at hhand'
      cases hhand'
      exact hexec
    case h_3 db next hexec => exact Or.inr ⟨by decide, l, j, next, hhand, hexec⟩
    case h_4 db hexec => exact Or.inr ⟨by decide, l, j, none, hhand, hexec⟩
    case h_5 db j' hexec => exact Or.inr ⟨by decide, l, j, some j', hhand, hexec⟩
  case h_2 hnot =>
    refine Or.inl ⟨rfl, Or.inr fun l j hhand => ?_⟩
    obtain ⟨⟨session, n, fs, phase⟩, hi, hwork⟩ := Option.bind_eq_some_iff.mp hhand
    cases phase with
    | handling logs work =>
        obtain rfl : work = some (l, j) := hwork
        exact absurd hi (hnot session n fs logs l j)
    | polling => cases hwork
    | storing => cases hwork

end Hands

omit [DecidableEq F] in
theorem Phase.Sourced.mono {logs logs' : List (Log A)} {phase : Phase A J}
    (h : phase.Sourced logs) (hlogs : ∀ l ∈ logs, l ∈ logs') : phase.Sourced logs' := by
  cases phase with
  | handling left work =>
      exact ⟨fun l hl => hlogs l (h.1 l hl), fun l j hwork => hlogs l (h.2 l j hwork)⟩
  | polling => trivial
  | storing => trivial

omit [DecidableEq F] in
theorem sourced_init (number : Nat) (db : D) :
    Sourced (State.init number db : State F A J D) :=
  ⟨fun _ _ hi => (by cases hi), fun _ hl => absurd hl List.not_mem_nil,
    fun _ hl => absurd hl List.not_mem_nil⟩

omit [DecidableEq F] in
theorem sourced_emit {s : State F A J D} (hs : Sourced s) (events : List (LogId × A)) :
    Sourced (emit s events) := by
  unfold emit
  split
  · refine ⟨fun i h hi => (hs.handlers i h hi).mono fun l hl => List.mem_append_right _ hl,
      fun l hl => List.mem_append_right _ (hs.applied l hl), fun l hl => ?_⟩
    rcases List.mem_append.mp hl with hl | hl
    · obtain ⟨e, -, rfl⟩ := List.mem_map.mp hl
      exact Nat.le_refl _
    · exact hs.number l hl
  · exact hs

omit [DecidableEq F] in
theorem sourced_execute {s : State F A J D} (hs : Sourced s) (i : Nat) (outcome : Outcome) :
    Sourced (P.execute s i outcome) := by
  unfold execute
  split
  · rename_i session n fs logs l j hi
    obtain ⟨hleft, hwork⟩ := hs.handlers i _ hi
    have hidle := forall_setHandler (i := i) (h := ⟨session, n, fs, .handling logs none⟩)
      hs.handlers ⟨hleft, fun _ _ h => by cases h⟩
    dsimp only
    split
    · exact ⟨hidle, hs.applied, hs.number⟩
    · exact ⟨hidle, hs.applied, hs.number⟩
    · exact ⟨hidle, hs.applied, hs.number⟩
    · refine ⟨hidle, fun l' hl' => ?_, hs.number⟩
      rcases List.mem_cons.mp hl' with rfl | hl'
      · exact hwork l' j rfl
      · exact hs.applied l' hl'
    · rename_i db j' hexec
      refine ⟨forall_setHandler hs.handlers ⟨hleft, fun l' _ h => ?_⟩, hs.applied, hs.number⟩
      cases h
      exact hwork l j rfl
  · exact hs

theorem sourced_step {s : State F A J D} (hs : Sourced s) (a : Action F A W) :
    Sourced (P.step s a) := by
  cases a with
  | emit events => exact sourced_emit hs events
  | mine => exact ⟨hs.handlers, hs.applied, fun l hl => Nat.le_succ_of_le (hs.number l hl)⟩
  | other w => exact ⟨hs.handlers, hs.applied, hs.number⟩
  | connect session feed currentBlock =>
      simp only [step, connect]
      split
      · exact ⟨hs.handlers, hs.applied, hs.number⟩
      · exact hs
  | block session i blockNumber =>
      simp only [step, block]
      split
      · exact ⟨forall_setHandler hs.handlers trivial, hs.applied, hs.number⟩
      · exact hs
  | query i answered =>
      simp only [step, query]
      split
      · split
        · split
          · refine ⟨forall_setHandler hs.handlers ⟨fun l hl => ?_, fun _ _ h => by cases h⟩,
              hs.applied, hs.number⟩
            obtain ⟨filter, -, hl⟩ := List.mem_flatMap.mp hl
            exact ((mem_queryFilterChunked P.chunk_pos).mp hl).1
          · exact ⟨forall_setHandler hs.handlers trivial, hs.applied, hs.number⟩
        · exact hs
      · exact hs
  | take i =>
      simp only [step, take]
      split
      · rename_i session n fs l logs hi
        obtain ⟨hleft, -⟩ := hs.handlers i _ hi
        refine ⟨forall_setHandler hs.handlers
          ⟨fun l' hl' => hleft l' (List.mem_cons_of_mem _ hl'), fun l' j h => ?_⟩,
          hs.applied, hs.number⟩
        cases h
        exact hleft l (List.mem_cons_self ..)
      · exact hs
  | exec i outcome => exact sourced_execute hs i outcome
  | advance i =>
      simp only [step, advance]
      split
      · exact ⟨forall_setHandler hs.handlers trivial, hs.applied, hs.number⟩
      · exact hs
  | store i outcome =>
      simp only [step, store]
      split
      · exact ⟨forall_setHandler hs.handlers trivial, hs.applied, hs.number⟩
      · exact hs
  | crash => exact ⟨fun _ _ hi => (by cases hi), hs.applied, hs.number⟩

/-- Logs stay, and new ones are in blocks that were not final. -/
structure Extends (s s' : State F A J D) : Prop where
  number : s.number ≤ s'.number
  kept : ∀ l ∈ s.logs, l ∈ s'.logs
  new : ∀ l ∈ s'.logs, l ∈ s.logs ∨ s.number ≤ l.blockNumber

omit [DecidableEq F] in
theorem Extends.trans {s s' s'' : State F A J D} (h : Extends s s') (h' : Extends s' s'') :
    Extends s s'' where
  number := Nat.le_trans h.number h'.number
  kept := fun l hl => h'.kept l (h.kept l hl)
  new := fun l hl => by
    rcases h'.new l hl with hl | hnew
    · exact h.new l hl
    · exact Or.inr (Nat.le_trans h.number hnew)

omit [DecidableEq F] in
theorem Change.extends {s s' : State F A J D} {a : Action F A W} (h : Change P s a s') :
    Extends s s' := by
  have hsame : s.number ≤ s'.number → s'.logs = s.logs → Extends s s' := fun hnumber hlogs =>
    ⟨hnumber, fun l hl => by rwa [hlogs], fun l hl => Or.inl (by rwa [hlogs] at hl)⟩
  cases h with
  | quiet number logs db applied works => exact hsame number logs
  | emitted events action ids fresh number logs db applied works =>
      refine ⟨Nat.le_of_eq number.symm, fun l hl => ?_, fun l hl => ?_⟩
      · rw [logs]
        exact List.mem_append_right _ hl
      · rw [logs] at hl
        rcases List.mem_append.mp hl with hl | hl
        · obtain ⟨e, -, rfl⟩ := List.mem_map.mp hl
          exact Or.inr (Nat.le_refl _)
        · exact Or.inl hl
  | other w action hs' =>
      subst hs'
      exact hsame (Nat.le_refl _) rfl
  | executed i outcome action answered l j next hand number logs exec applied works =>
      exact hsame (Nat.le_of_eq number.symm) logs

theorem run_extends {s : State F A J D} (hs : Sourced s) (as : List (Action F A W)) :
    Extends s (P.run s as) := by
  induction as generalizing s with
  | nil => exact ⟨Nat.le_refl _, fun _ hl => hl, fun _ hl => Or.inl hl⟩
  | cons a as ih => exact (step_change hs a).extends.trans (ih (sourced_step hs a))

/-! ## What a checkpoint says -/

section Covered

variable (P)

/-- The log is one the indexer owes to the feed: it was logged after the
block the feed started with. -/
def Owed (s : State F A J D) (f : F) (l : Log A) : Prop :=
  l ∈ s.logs ∧ P.Watches f l.args ∧ ∀ o, s.startBlock f = some o → o < l.blockNumber

/-- All logs of a feed up to a block are applied. -/
def Upto (s : State F A J D) (f : F) (n : Nat) : Prop :=
  ∀ l, P.Owed s f l → l.blockNumber ≤ n → l ∈ s.applied

/-- What the phase of a handler of block `n` says of its current feed. -/
def Reaches (s : State F A J D) (f : F) (n : Nat) : Phase A J → Prop
  | .handling left work => ∀ l, P.Owed s f l → l.blockNumber ≤ n →
      l ∈ s.applied ∨ l ∈ left ∨ ∃ j, work = some (l, j)
  | .storing => P.Upto s f n
  | .polling => True

structure Covered (s : State F A J D) : Prop where
  checkpoint : ∀ f n, s.checkpoint f = some n → n < s.number ∧ P.Upto s f n
  last : ∀ session f n, s.last session f = some n → n < s.number ∧ P.Upto s f n
  handlers : ∀ i h, s.handlers i = some h → h.blockNumber < s.number ∧
    ∀ f fs, h.feeds = f :: fs → P.Reaches s f h.blockNumber h.phase
  started : ∀ f, s.checkpoint f = none → s.startBlock f = none

/-- What is applied stays, and what is new is in blocks that are not final. -/
structure Grows (s s' : State F A J D) : Prop where
  number : s.number ≤ s'.number
  logs : ∀ l ∈ s'.logs, l ∈ s.logs ∨ s.number ≤ l.blockNumber
  applied : ∀ l ∈ s.applied, l ∈ s'.applied
  started : ∀ f o, s.startBlock f = some o → s'.startBlock f = some o

variable {P} {s s' : State F A J D} {f : F} {n : Nat}

omit [DecidableEq F] in
theorem Grows.ofSame (hnumber : s'.number = s.number) (hlogs : s'.logs = s.logs)
    (happlied : s'.applied = s.applied) (hstart : s'.startBlock = s.startBlock) : Grows s s' :=
  ⟨Nat.le_of_eq hnumber.symm, fun l hl => Or.inl (by rwa [hlogs] at hl),
    fun l hl => by rwa [happlied], fun f o ho => by rwa [hstart]⟩

omit [DecidableEq F] in
/-- A log of a final block was owed before. -/
theorem Grows.owed (hg : Grows s s') (hn : n < s.number) {l : Log A} (h : P.Owed s' f l)
    (hl : l.blockNumber ≤ n) : P.Owed s f l := by
  obtain ⟨hmem, hwatches, hafter⟩ := h
  refine ⟨?_, hwatches, fun o ho => hafter o (hg.started f o ho)⟩
  rcases hg.logs l hmem with hold | hnew
  · exact hold
  · omega

omit [DecidableEq F] in
theorem Upto.grow (h : P.Upto s f n) (hn : n < s.number) (hg : Grows s s') : P.Upto s' f n :=
  fun l howed hl => hg.applied l (h l (hg.owed hn howed hl) hl)

omit [DecidableEq F] in
theorem Upto.le (h : P.Upto s f n) {m : Nat} (hle : m ≤ n) : P.Upto s f m :=
  fun l howed hl => h l howed (Nat.le_trans hl hle)

omit [DecidableEq F] in
theorem Reaches.grow {phase : Phase A J} (h : P.Reaches s f n phase) (hn : n < s.number)
    (hg : Grows s s') : P.Reaches s' f n phase := by
  cases phase with
  | handling left work =>
      intro l howed hl
      exact (h l (hg.owed hn howed hl) hl).imp_left (hg.applied l)
  | storing => exact Upto.grow h hn hg
  | polling => trivial

omit [DecidableEq F] in
/-- Of each checkpoint, variable and handler after a step, either it was
there before, or the step has to account for it. -/
theorem Covered.grow (h : P.Covered s) (hg : Grows s s')
    (hcheckpoint : ∀ f n, s'.checkpoint f = some n →
      s.checkpoint f = some n ∨ n < s'.number ∧ P.Upto s' f n)
    (hlast : ∀ session f n, s'.last session f = some n →
      s.last session f = some n ∨ n < s'.number ∧ P.Upto s' f n)
    (hhandlers : ∀ i hd, s'.handlers i = some hd → s.handlers i = some hd ∨
      hd.blockNumber < s'.number ∧ ∀ f fs, hd.feeds = f :: fs →
        P.Reaches s' f hd.blockNumber hd.phase)
    (hstarted : ∀ f, s'.checkpoint f = none → s'.startBlock f = none) : P.Covered s' := by
  refine ⟨fun f n hn => ?_, fun session f n hn => ?_, fun i hd hi => ?_, hstarted⟩
  · rcases hcheckpoint f n hn with hold | hnew
    · obtain ⟨hlt, hupto⟩ := h.checkpoint f n hold
      exact ⟨Nat.lt_of_lt_of_le hlt hg.number, hupto.grow hlt hg⟩
    · exact hnew
  · rcases hlast session f n hn with hold | hnew
    · obtain ⟨hlt, hupto⟩ := h.last session f n hold
      exact ⟨Nat.lt_of_lt_of_le hlt hg.number, hupto.grow hlt hg⟩
    · exact hnew
  · rcases hhandlers i hd hi with hold | hnew
    · obtain ⟨hlt, hreaches⟩ := h.handlers i hd hold
      exact ⟨Nat.lt_of_lt_of_le hlt hg.number,
        fun f fs hfs => (hreaches f fs hfs).grow hlt hg⟩
    · exact hnew

omit [DecidableEq F] in
/-- One handler goes on, and nothing else changes. -/
theorem Covered.setHandler (h : P.Covered s) {i : Nat} {hd : Handler F A J}
    (hblock : hd.blockNumber < s.number)
    (hreaches : ∀ f fs, hd.feeds = f :: fs → P.Reaches s f hd.blockNumber hd.phase) :
    P.Covered (s.setHandler i hd) := by
  have hg : Grows s (s.setHandler i hd) := .ofSame rfl rfl rfl rfl
  refine h.grow hg (fun _ _ => Or.inl) (fun _ _ _ => Or.inl) (fun k hd' hk => ?_) h.started
  by_cases heq : k = i
  · subst heq
    rw [setHandler_self] at hk
    cases hk
    exact Or.inr ⟨hblock, fun f fs hfs => (hreaches f fs hfs).grow hblock hg⟩
  · rw [setHandler_of_ne heq] at hk
    exact Or.inl hk

omit [DecidableEq F] in
theorem covered_init (number : Nat) (db : D) : P.Covered (State.init number db) :=
  ⟨fun _ _ h => (by cases h), fun _ _ _ h => (by cases h), fun _ _ h => (by cases h),
    fun _ _ => rfl⟩

variable (P) in
/-- The statement in hand, if there is one, is executed and answered. -/
def Smooth (s : State F A J D) : Action F A W → Prop
  | .exec i outcome =>
      outcome = .done ∧ ((s.inHand i).all fun work => (P.exec work.2 s.db).isSome) = true
  | _ => True

instance : ∀ (s : State F A J D) (a : Action F A W), Decidable (P.Smooth s a)
  | _, .exec _ _ => inferInstanceAs (Decidable (_ ∧ _))
  | _, .emit _ => isTrue trivial
  | _, .mine => isTrue trivial
  | _, .other _ => isTrue trivial
  | _, .connect _ _ _ => isTrue trivial
  | _, .block _ _ _ => isTrue trivial
  | _, .query _ _ => isTrue trivial
  | _, .take _ => isTrue trivial
  | _, .advance _ => isTrue trivial
  | _, .store _ _ => isTrue trivial
  | _, .crash => isTrue trivial

omit [DecidableEq F] in
theorem covered_emit (h : P.Covered s) (events : List (LogId × A)) :
    P.Covered (emit s events) := by
  unfold emit
  split
  · refine h.grow ⟨Nat.le_refl _, fun l hl => ?_, fun _ hl => hl, fun _ _ ho => ho⟩
      (fun _ _ => Or.inl) (fun _ _ _ => Or.inl) (fun _ _ => Or.inl) h.started
    rcases List.mem_append.mp hl with hl | hl
    · obtain ⟨e, -, rfl⟩ := List.mem_map.mp hl
      exact Or.inr (Nat.le_refl _)
    · exact Or.inl hl
  · exact h

theorem grows_resume (h : P.Covered s) (session : Nat) (feed : F) (lastBlock : Nat) :
    Grows s (resume s session feed lastBlock) := by
  refine ⟨Nat.le_refl _, fun _ => Or.inl, fun _ hl => hl, fun f o ho => ?_⟩
  simp only [resume]
  split
  · rename_i hnone
    by_cases hf : f = feed
    · subst hf
      rw [h.started f hnone] at ho
      cases ho
    · rw [update_of_ne hf]
      exact ho
  · exact ho

/-- Where a feed that was seen before goes on is covered, and one that is
seen for the first time owes nothing yet. -/
theorem upto_resume (h : P.Covered s) {currentBlock : Nat} (hcurrent : currentBlock < s.number)
    (session : Nat) (feed : F) {lastBlock : Nat}
    (hlast : lastBlock
      = Watcher.resolveCheckpoint (s.checkpoint feed) currentBlock false) :
    lastBlock < s.number ∧ P.Upto (resume s session feed lastBlock) feed lastBlock := by
  have hg := grows_resume h session feed lastBlock
  cases hseen : s.checkpoint feed with
  | none =>
      rw [hseen] at hlast
      refine ⟨Nat.lt_of_le_of_lt (Nat.le_of_eq hlast) hcurrent, fun l howed hl => ?_⟩
      have hafter := howed.2.2 lastBlock (by simp [resume, hseen])
      omega
  | some last =>
      obtain ⟨hlt, hupto⟩ := h.checkpoint feed last hseen
      have hle : lastBlock ≤ last := by
        rw [hlast, hseen]
        simp only [Watcher.resolveCheckpoint, Bool.false_eq_true, false_or]
        split <;> omega
      exact ⟨Nat.lt_of_le_of_lt hle hlt, (hupto.grow hlt hg).le hle⟩

theorem covered_connect (h : P.Covered s) (session : Nat) (feed : F) (currentBlock : Nat) :
    P.Covered (connect s session feed currentBlock) := by
  unfold connect
  split
  case isFalse => exact h
  case isTrue hcurrent =>
  have hnew := upto_resume h hcurrent.1 session feed rfl
  refine h.grow (grows_resume h session feed _) (fun f n hn => ?_) (fun k f n hn => ?_)
    (fun _ _ => Or.inl) (fun f hf => ?_)
  · by_cases heq : f = feed
    · subst heq
      simp only [resume, update_self] at hn
      cases hn
      exact Or.inr hnew
    · simp only [resume, update_of_ne heq] at hn
      exact Or.inl hn
  · by_cases hk : k = session
    · subst hk
      simp only [resume, update_self] at hn
      by_cases heq : f = feed
      · subst heq
        rw [update_self] at hn
        cases hn
        exact Or.inr hnew
      · rw [update_of_ne heq] at hn
        exact Or.inl hn
    · simp only [resume, update_of_ne hk] at hn
      exact Or.inl hn
  · by_cases heq : f = feed
    · subst heq
      simp only [resume, update_self] at hf
      cases hf
    · simp only [resume, update_of_ne heq] at hf
      have hnone := h.started f hf
      simp only [resume]
      split
      · rw [update_of_ne heq]
        exact hnone
      · exact hnone

omit [DecidableEq F] in
/-- A query asks for the blocks after the last one. -/
theorem reaches_select {lastBlock : Nat} (hupto : P.Upto s f lastBlock) :
    P.Reaches s f n (.handling (P.select s.logs f (lastBlock + 1) n) none) := by
  intro l howed hl
  by_cases hbefore : l.blockNumber ≤ lastBlock
  · exact Or.inl (hupto l howed hbefore)
  · obtain ⟨filter, hfilter, hpass⟩ := howed.2.1
    refine Or.inr (Or.inl (List.mem_flatMap.mpr ⟨filter, hfilter, ?_⟩))
    exact (mem_queryFilterChunked P.chunk_pos).mpr ⟨howed.1, by omega, hl, hpass⟩

omit [DecidableEq F] in
theorem covered_query (h : P.Covered s) (i : Nat) (answered : Bool) :
    P.Covered (P.query s i answered) := by
  unfold query
  split
  · rename_i session n f fs hi
    obtain ⟨hlt, -⟩ := h.handlers i _ hi
    split
    · rename_i lastBlock hlast
      split
      · refine h.setHandler hlt fun f' fs' hfs => ?_
        cases hfs
        exact reaches_select (h.last session f lastBlock hlast).2
      · exact h.setHandler hlt fun _ _ _ => trivial
    · exact h
  · exact h

omit [DecidableEq F] in
theorem covered_take (h : P.Covered s) (i : Nat) : P.Covered (P.take s i) := by
  unfold take
  split
  · rename_i session n fs l logs hi
    obtain ⟨hlt, hreaches⟩ := h.handlers i _ hi
    refine h.setHandler hlt fun f fs' hfs l' howed hl => ?_
    rcases hreaches f fs' hfs l' howed hl with hdone | hleft | ⟨j, hj⟩
    · exact Or.inl hdone
    · rcases List.mem_cons.mp hleft with rfl | hleft
      · exact Or.inr (Or.inr ⟨_, rfl⟩)
      · exact Or.inr (Or.inl hleft)
    · cases hj
  · exact h

omit [DecidableEq F] in
/-- The statement of a log is executed: the log is applied, or still in
hand. -/
theorem covered_execute (h : P.Covered s) {i : Nat}
    (hsmooth : ((s.inHand i).all fun work => (P.exec work.2 s.db).isSome) = true) :
    P.Covered (P.execute s i .done) := by
  unfold execute
  split
  · rename_i session n fs logs l j hi
    obtain ⟨hlt, hreaches⟩ := h.handlers i _ hi
    have hhand : s.inHand i = some (l, j) := by
      rw [State.inHand, hi]
      rfl
    rw [hhand] at hsmooth
    obtain ⟨⟨db, next⟩, hexec⟩ := Option.isSome_iff_exists.mp hsmooth
    simp only [hexec]
    cases next with
    | none =>
      have hg : Grows s { s.setHandler i ⟨session, n, fs, .handling logs none⟩ with
          db, applied := l :: s.applied } :=
        ⟨Nat.le_refl _, fun _ => Or.inl, fun _ hl => List.mem_cons_of_mem _ hl, fun _ _ ho => ho⟩
      refine h.grow hg (fun _ _ => Or.inl) (fun _ _ _ => Or.inl) (fun k hd hk => ?_) h.started
      by_cases heq : k = i
      · subst heq
        obtain rfl : ⟨session, n, fs, .handling logs none⟩ = hd := by
          simpa [State.setHandler] using hk
        refine Or.inr ⟨hlt, fun f fs' hfs l' howed hl => ?_⟩
        rcases hreaches f fs' hfs l' (hg.owed hlt howed hl) hl with hdone | hleft | ⟨j', hj'⟩
        · exact Or.inl (List.mem_cons_of_mem _ hdone)
        · exact Or.inr (Or.inl hleft)
        · cases hj'
          exact Or.inl (List.mem_cons_self ..)
      · exact Or.inl (by simpa [State.setHandler, update_of_ne heq] using hk)
    | some j₁ =>
      have hg : Grows s { s.setHandler i ⟨session, n, fs, .handling logs (some (l, j₁))⟩ with
          db } := .ofSame rfl rfl rfl rfl
      refine h.grow hg (fun _ _ => Or.inl) (fun _ _ _ => Or.inl) (fun k hd hk => ?_) h.started
      by_cases heq : k = i
      · subst heq
        obtain rfl : ⟨session, n, fs, .handling logs (some (l, j₁))⟩ = hd := by
          simpa [State.setHandler] using hk
        refine Or.inr ⟨hlt, fun f fs' hfs l' howed hl => ?_⟩
        rcases hreaches f fs' hfs l' (hg.owed hlt howed hl) hl with hdone | hleft | ⟨j', hj'⟩
        · exact Or.inl hdone
        · exact Or.inr (Or.inl hleft)
        · cases hj'
          exact Or.inr (Or.inr ⟨j₁, rfl⟩)
      · exact Or.inl (by simpa [State.setHandler, update_of_ne heq] using hk)
  · exact h

theorem covered_advance (h : P.Covered s) (i : Nat) : P.Covered (advance s i) := by
  unfold advance
  split
  · rename_i session n f fs hi
    obtain ⟨hlt, hreaches⟩ := h.handlers i _ hi
    -- no log is left, and none in hand
    have hupto : P.Upto s f n := by
      intro l howed hl
      rcases hreaches f fs rfl l howed hl with hdone | hleft | ⟨j, hj⟩
      · exact hdone
      · exact absurd hleft List.not_mem_nil
      · cases hj
    have hstored : P.Covered (s.setHandler i ⟨session, n, f :: fs, .storing⟩) := by
      refine h.setHandler hlt fun f' fs' hfs => ?_
      cases hfs
      exact hupto
    refine hstored.grow (.ofSame rfl rfl rfl rfl) (fun _ _ => Or.inl) (fun k f' m hm => ?_)
      (fun _ _ => Or.inl) hstored.started
    by_cases hk : k = session
    · subst hk
      by_cases hf : f' = f
      · subst hf
        obtain rfl : n = m := by simpa using hm
        exact Or.inr ⟨hlt, hupto⟩
      · exact Or.inl (by simpa [State.setHandler, update_of_ne hf] using hm)
    · exact Or.inl (by simpa [State.setHandler, update_of_ne hk] using hm)
  · exact h

theorem covered_store (h : P.Covered s) (i : Nat) (outcome : Outcome) :
    P.Covered (store s i outcome) := by
  unfold store
  split
  · rename_i session n f fs hi
    obtain ⟨hlt, hreaches⟩ := h.handlers i _ hi
    have hupto : P.Upto s f n := hreaches f fs rfl
    have hmoved : P.Covered (s.setHandler i ⟨session, n, fs, .polling⟩) :=
      h.setHandler hlt fun _ _ _ => trivial
    refine hmoved.grow (.ofSame rfl rfl rfl rfl) (fun f' m hm => ?_) (fun _ _ _ => Or.inl)
      (fun _ _ => Or.inl) (fun f' hf' => ?_)
    · dsimp only at hm
      split at hm
      · exact Or.inl hm
      · by_cases hf : f' = f
        · subst hf
          obtain rfl : n = m := by simpa using hm
          exact Or.inr ⟨hlt, hupto⟩
        · exact Or.inl (by simpa [State.setHandler, update_of_ne hf] using hm)
    · dsimp only at hf'
      split at hf'
      · exact h.started f' hf'
      · by_cases hf : f' = f
        · subst hf
          rw [update_self] at hf'
          cases hf'
        · rw [update_of_ne hf] at hf'
          exact h.started f' hf'
  · exact h

/-- The step lemma of the checkpoints. -/
theorem covered_step (s : State F A J D) (a : Action F A W) (h : P.Covered s)
    (ha : P.Smooth s a) : P.Covered (P.step s a) := by
  cases a with
  | emit events => exact covered_emit h events
  | mine =>
      exact h.grow ⟨Nat.le_succ _, fun _ => Or.inl, fun _ hl => hl, fun _ _ ho => ho⟩
        (fun _ _ => Or.inl) (fun _ _ _ => Or.inl) (fun _ _ => Or.inl) h.started
  | other w =>
      exact h.grow (.ofSame rfl rfl rfl rfl) (fun _ _ => Or.inl) (fun _ _ _ => Or.inl)
        (fun _ _ => Or.inl) h.started
  | connect session feed currentBlock => exact covered_connect h session feed currentBlock
  | block session i blockNumber =>
      simp only [step, block]
      split
      · rename_i hblock
        exact h.setHandler hblock.1 fun _ _ _ => trivial
      · exact h
  | query i answered => exact covered_query h i answered
  | take i => exact covered_take h i
  | exec i outcome =>
      obtain ⟨rfl, hexec⟩ := ha
      exact covered_execute h hexec
  | advance i => exact covered_advance h i
  | store i outcome => exact covered_store h i outcome
  | crash =>
      exact h.grow (.ofSame rfl rfl rfl rfl) (fun _ _ => Or.inl) (fun _ _ _ hn => (by cases hn))
        (fun _ _ hi => (by cases hi)) h.started

/-- An invariant of the changes of the steps that are all right. -/
theorem run_invariant_of_change {Ok : State F A J D → Action F A W → Prop}
    {I : State F A J D → Prop}
    (hstep : ∀ {s a s'}, Sourced s → I s → Ok s a → Change P s a s' → I s')
    {s : State F A J D} {as : List (Action F A W)} (hs : Sourced s) (hI : I s)
    (h : P.Along Ok s as) : Sourced (P.run s as) ∧ I (P.run s as) := by
  refine run_invariant (I := fun s => Sourced s ∧ I s) (fun s a hs hok => ?_) ⟨hs, hI⟩ h
  exact ⟨sourced_step hs.1 a, hstep hs.1 hs.2 hok (step_change hs.1 a)⟩

/-- An invariant of the changes of a run, whatever fails. -/
theorem init_invariant_of_change {I : State F A J D → Prop} {number : Nat} {db : D}
    (hinit : I (State.init number db))
    (hstep : ∀ {s a s'}, Sourced s → I s → Change P s a s' → I s') (as : List (Action F A W)) :
    Sourced (P.run (State.init number db) as) ∧ I (P.run (State.init number db) as) :=
  run_invariant_of_change (fun hs hI _ hchange => hstep hs hI hchange)
    (sourced_init number db) hinit (along_true as _)

/-- **Nothing up to a checkpoint is lost**, in runs whose statements are
all executed and answered. -/
theorem run_covered {number : Nat} {db : D} {as : List (Action F A W)}
    (h : P.Along P.Smooth (State.init number db) as) :
    P.Covered (P.run (State.init number db) as) :=
  run_invariant covered_step (covered_init number db) h

end Covered

/-! ## Logs in hand are final -/

/-- The logs a handler has still to finish. -/
def Phase.held : Phase A J → List (Log A)
  | .handling left work => left ++ (work.map Prod.fst).toList
  | .polling => []
  | .storing => []

/-- Handlers are of final blocks, and hold logs of no later ones. -/
def Final (s : State F A J D) : Prop :=
  ∀ i h, s.handlers i = some h → h.blockNumber < s.number ∧
    ∀ l ∈ h.phase.held, l.blockNumber ≤ h.blockNumber

omit [DecidableEq F] in
theorem final_init (number : Nat) (db : D) : Final (State.init number db : State F A J D) :=
  fun _ _ hi => by cases hi

omit [DecidableEq F] in
theorem Final.works {s : State F A J D} (h : Final s) {l : Log A} {j : J} (hworks : Works s l j) :
    l.blockNumber < s.number := by
  obtain ⟨i, hi⟩ := hworks
  obtain ⟨hd, hhd, hwork⟩ := Option.bind_eq_some_iff.mp hi
  obtain ⟨hlt, hheld⟩ := h i hd hhd
  refine Nat.lt_of_le_of_lt (hheld l ?_) hlt
  cases hphase : hd.phase with
  | handling left work =>
      rw [hphase] at hwork
      obtain rfl : work = some (l, j) := hwork
      simp [Phase.held]
  | polling =>
      rw [hphase] at hwork
      cases hwork
  | storing =>
      rw [hphase] at hwork
      cases hwork

omit [DecidableEq F] in
/-- A handler of a final block goes on with logs it held. -/
theorem Final.setHandler {s : State F A J D} (h : Final s) {i : Nat} {hd : Handler F A J}
    (hblock : hd.blockNumber < s.number)
    (hheld : ∀ l ∈ hd.phase.held, l.blockNumber ≤ hd.blockNumber) : Final (s.setHandler i hd) :=
  forall_setHandler (Q := fun hd => hd.blockNumber < s.number ∧
    ∀ l ∈ hd.phase.held, l.blockNumber ≤ hd.blockNumber) h ⟨hblock, hheld⟩

omit [DecidableEq F] in
theorem final_execute {s : State F A J D} (h : Final s) (i : Nat) (outcome : Outcome) :
    Final (P.execute s i outcome) := by
  unfold execute
  split
  · rename_i session n fs logs l j hi
    obtain ⟨hlt, hheld⟩ := h i _ hi
    have hgiven : Final (s.setHandler i ⟨session, n, fs, .handling logs none⟩) :=
      h.setHandler hlt fun l' hl' => hheld l' (by
        simp only [Phase.held, Option.map_none, Option.toList_none, List.append_nil] at hl'
        exact List.mem_append_left _ hl')
    dsimp only
    split
    · exact hgiven
    · exact hgiven
    · exact hgiven
    · exact hgiven
    · rename_i j' _
      have hnext : Final (s.setHandler i ⟨session, n, fs, .handling logs (some (l, j'))⟩) :=
        h.setHandler hlt hheld
      exact hnext
  · exact h

/-- The step lemma. -/
theorem final_step {s : State F A J D} (h : Final s) (a : Action F A W) : Final (P.step s a) := by
  cases a with
  | emit events =>
      simp only [step, emit]
      split
      · exact h
      · exact h
  | mine => exact fun i hd hi => ⟨Nat.lt_succ_of_lt (h i hd hi).1, (h i hd hi).2⟩
  | other w => exact h
  | connect session feed currentBlock =>
      simp only [step, connect]
      split
      · exact h
      · exact h
  | block session i blockNumber =>
      simp only [step, block]
      split
      · rename_i hblock
        exact h.setHandler hblock.1 fun l hl => absurd hl List.not_mem_nil
      · exact h
  | query i answered =>
      simp only [step, query]
      split
      · rename_i session n f fs hi
        obtain ⟨hlt, -⟩ := h i _ hi
        split
        · split
          · refine h.setHandler hlt fun l hl => ?_
            simp only [Phase.held, Option.map_none, Option.toList_none, List.append_nil, select,
              List.mem_flatMap, mem_queryFilterChunked P.chunk_pos] at hl
            obtain ⟨filter, -, -, -, hle, -⟩ := hl
            exact hle
          · exact h.setHandler hlt fun l hl => absurd hl List.not_mem_nil
        · exact h
      · exact h
  | take i =>
      simp only [step, take]
      split
      · rename_i session n fs l logs hi
        obtain ⟨hlt, hheld⟩ := h i _ hi
        refine h.setHandler hlt fun l' hl' => hheld l' ?_
        simp only [Phase.held, Option.map_some, Option.toList_some, List.mem_append,
          List.mem_singleton] at hl'
        rcases hl' with hl' | rfl
        · exact List.mem_append_left _ (List.mem_cons_of_mem _ hl')
        · exact List.mem_append_left _ (List.mem_cons_self ..)
      · exact h
  | exec i outcome => exact final_execute h i outcome
  | advance i =>
      simp only [step, advance]
      split
      · rename_i session n f fs hi
        have hstored : Final (s.setHandler i ⟨session, n, f :: fs, .storing⟩) :=
          h.setHandler (h i _ hi).1 fun l hl => absurd hl List.not_mem_nil
        exact hstored
      · exact h
  | store i outcome =>
      simp only [step, store]
      split
      · rename_i session n f fs hi
        have hmoved : Final (s.setHandler i ⟨session, n, fs, .polling⟩) :=
          h.setHandler (h i _ hi).1 fun l hl => absurd hl List.not_mem_nil
        exact hmoved
      · exact h
  | crash => exact fun i hd hi => by cases hi

omit [DecidableEq F] in
/-- A handler with nothing in hand executes nothing. -/
theorem execute_idle {s : State F A J D} {i : Nat} {outcome : Outcome}
    (h : s.inHand i = none) : P.execute s i outcome = s := by
  unfold execute
  split
  · rename_i hi
    rw [State.inHand, hi] at h
    cases h
  · rfl

/-! ## Handlers that give up -/

/-- What a handler awaited failed, and that ends it. -/
def abort (s : State F A J D) (i : Nat) : State F A J D :=
  { s with handlers := update s.handlers i none }

omit [DecidableEq F] in
theorem abort_handlers {s : State F A J D} {i k : Nat} {h : Handler F A J}
    (hk : (abort s i).handlers k = some h) : s.handlers k = some h := by
  change update s.handlers i none k = some h at hk
  by_cases heq : k = i
  · subst heq
    rw [update_self] at hk
    cases hk
  · rw [update_of_ne heq] at hk
    exact hk

omit [DecidableEq F] in
theorem abort_works {s : State F A J D} {i : Nat} {l : Log A} {j : J}
    (h : Works (abort s i) l j) : Works s l j := by
  obtain ⟨k, hk⟩ := h
  obtain ⟨hd, hhd, hwork⟩ := Option.bind_eq_some_iff.mp hk
  exact ⟨k, Option.bind_eq_some_iff.mpr ⟨hd, abort_handlers hhd, hwork⟩⟩

omit [DecidableEq F] in
theorem sourced_abort {s : State F A J D} (h : Sourced s) (i : Nat) : Sourced (abort s i) :=
  ⟨fun k hd hk => h.handlers k hd (abort_handlers hk), h.applied, h.number⟩

omit [DecidableEq F] in
theorem final_abort {s : State F A J D} (h : Final s) (i : Nat) : Final (abort s i) :=
  fun k hd hk => h k hd (abort_handlers hk)

omit [DecidableEq F] in
theorem covered_abort {s : State F A J D} (h : P.Covered s) (i : Nat) : P.Covered (abort s i) :=
  h.grow (.ofSame rfl rfl rfl rfl) (fun _ _ => Or.inl) (fun _ _ _ => Or.inl)
    (fun _ _ hk => Or.inl (abort_handlers hk)) h.started

end Indexer

end Evm
