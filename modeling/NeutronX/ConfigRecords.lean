import NeutronX.StakeConfigIndexer

/-!
# Rows of the configuration history

What the table of the stake configuration indexer and the statements its
handlers have in hand say of the logs (`TableLaw`): each row is the record
of a log in a final block. Handlers keep it, also those that give up, and
where no insert fails they leave out no log (`covered_handle`).
-/

namespace NeutronX

open Evm Function

namespace StakeConfigIndexer

open Indexer (Works Sourced Final)

/-! ## What a row says -/

/-- What a row says of the event of the log. -/
def Content (db : Database) (waiting : Nat → StakeConfig) (l : Log Event)
    (effectiveAt : Option Nat) (configSnapshot : Option StakeConfig) : Prop :=
  match l.args with
  | .stakeConfigUpdated =>
      effectiveAt = none ∧ configSnapshot = some (db.stakeConfig l.blockNumber)
  | .pendingConfigQueued e =>
      effectiveAt = some e ∧ ∀ c, configSnapshot = some c → waiting l.id.transactionHash = c
  | .pendingConfigCancelled => effectiveAt = none ∧ configSnapshot = none
  | .configRollback =>
      effectiveAt = none ∧ configSnapshot = some (db.stakeConfig l.blockNumber)

/-- The row is the record of the log. -/
structure Records (db : Database) (waiting : Nat → StakeConfig) (l : Log Event)
    (row : HistoryRow) : Prop where
  eventType : row.eventType = l.args.eventType
  blockNumber : row.blockNumber = l.blockNumber
  txHash : row.txHash = l.id.transactionHash
  content : Content db waiting l row.effectiveAt row.configSnapshot

/-- What is live at the end of the block is in the record. -/
theorem Records.live {db : Database} {waiting : Nat → StakeConfig} {l : Log Event}
    {row : HistoryRow} (h : Records db waiting l row) (hlive : row.eventType.isLive = true) :
    row.configSnapshot = some (db.stakeConfig row.blockNumber) := by
  have hcontent := h.content
  rw [h.eventType] at hlive
  rw [h.blockNumber]
  rw [Content] at hcontent
  cases hargs : l.args with
  | stakeConfigUpdated =>
      rw [hargs] at hcontent
      exact hcontent.2
  | pendingConfigQueued e =>
      rw [hargs] at hlive
      cases hlive
  | pendingConfigCancelled =>
      rw [hargs] at hlive
      cases hlive
  | configRollback =>
      rw [hargs] at hcontent
      exact hcontent.2

/-- What a record says of a final block does not change. -/
theorem Records.mono {db db' : Database} {waiting waiting' : Nat → StakeConfig} {l : Log Event}
    {row : HistoryRow} (h : Records db waiting l row)
    (hconfig : db'.stakeConfig l.blockNumber = db.stakeConfig l.blockNumber)
    (hwaiting : waiting' l.id.transactionHash = waiting l.id.transactionHash) :
    Records db' waiting' l row := by
  refine ⟨h.eventType, h.blockNumber, h.txHash, ?_⟩
  rw [Content, hconfig, hwaiting]
  exact h.content

theorem records_answer {db : Database} {waiting : Nat → StakeConfig} {l : Log Event}
    (hqueued : ∀ e, l.args = .pendingConfigQueued e →
      ∀ c, db.calldata l.id.transactionHash = some c → waiting l.id.transactionHash = c)
    {log : Log Event} {effectiveAt : Option Nat} {configSnapshot : Option StakeConfig}
    (h : answer l db = .insert log effectiveAt configSnapshot) :
    log = l ∧ Records db waiting l (rowOf l effectiveAt configSnapshot) := by
  have hcontent : log = l ∧ Content db waiting l effectiveAt configSnapshot := by
    rw [answer] at h
    rw [Content]
    cases hargs : l.args with
    | stakeConfigUpdated =>
        rw [hargs] at h
        cases h
        exact ⟨rfl, rfl, rfl⟩
    | pendingConfigQueued e =>
        rw [hargs] at h
        cases h
        refine ⟨rfl, rfl, fun c hc => ?_⟩
        split at hc
        · exact hqueued e hargs c hc
        · cases hc
    | pendingConfigCancelled =>
        rw [hargs] at h
        cases h
        exact ⟨rfl, rfl, rfl⟩
    | configRollback =>
        rw [hargs] at h
        cases h
        exact ⟨rfl, rfl, rfl⟩
  exact ⟨hcontent.1, rfl, rfl, rfl, hcontent.2⟩

theorem records_start {db : Database} {waiting : Nat → StakeConfig} {l log : Log Event}
    {effectiveAt : Option Nat} {configSnapshot : Option StakeConfig}
    (h : start l = .insert log effectiveAt configSnapshot) :
    log = l ∧ Records db waiting l (rowOf l effectiveAt configSnapshot) := by
  rw [start] at h
  split at h
  · cases h
  · cases h
  · rename_i hargs
    cases h
    refine ⟨rfl, rfl, rfl, rfl, ?_⟩
    rw [Content, hargs]
    exact ⟨rfl, rfl⟩
  · cases h

theorem answer_insert (l : Log Event) (db : Database) :
    ∃ effectiveAt configSnapshot, answer l db = .insert l effectiveAt configSnapshot := by
  rw [answer]
  split <;> exact ⟨_, _, rfl⟩

theorem start_read {l log : Log Event} (h : start l = .read log) : log = l := by
  rw [start] at h
  split at h <;> cases h <;> rfl

/-! ## The table -/

/-- What the table and the statements in hand have to do with the logs. -/
structure TableLaw (waiting : Nat → StakeConfig) (s : IndexerState) : Prop where
  sourced : Sourced s
  final : Final s
  /-- what is in the calldata of a transaction that queued is what waits -/
  queued : ∀ l ∈ s.logs, ∀ e, l.args = .pendingConfigQueued e →
    ∀ c, s.db.calldata l.id.transactionHash = some c → waiting l.id.transactionHash = c
  rows : ∀ id row, s.db.history id = some row →
    ∃ l ∈ s.logs, l.id = id ∧ l.blockNumber < s.number ∧ Records s.db waiting l row
  applied : ∀ l ∈ s.applied, (s.db.history l.id).isSome = true
  reads : ∀ l log, Works s l (.read log) → log = l
  inserts : ∀ l log effectiveAt configSnapshot,
    Works s l (.insert log effectiveAt configSnapshot) →
      log = l ∧ Records s.db waiting l (rowOf l effectiveAt configSnapshot)

theorem tableLaw_init (number : Nat) (waiting : Nat → StakeConfig) {db : Database}
    (hdb : ∀ id, db.history id = none) : TableLaw waiting (.init number db) where
  sourced := Indexer.sourced_init number db
  final := Indexer.final_init number db
  queued := fun _ hl => absurd hl List.not_mem_nil
  rows := fun id row h => by
    rw [Indexer.State.init, hdb] at h
    cases h
  applied := fun _ hl => absurd hl List.not_mem_nil
  reads := fun _ _ h => by
    obtain ⟨i, hi⟩ := h
    cases hi
  inserts := fun _ _ _ _ h => by
    obtain ⟨i, hi⟩ := h
    cases hi

theorem insertHistoryRow_kept {db : Database} {log : Log Event} {effectiveAt : Option Nat}
    {configSnapshot : Option StakeConfig} {id : LogId} {row : HistoryRow}
    (h : db.history id = some row) :
    (db.insertHistoryRow log effectiveAt configSnapshot).history id = some row := by
  rw [Database.insertHistoryRow]
  split
  · exact h
  · rename_i hfree
    have hne : id ≠ log.id := by
      rintro rfl
      rw [h] at hfree
      exact hfree rfl
    exact (update_of_ne hne ..).trans h

theorem insertHistoryRow_isSome (db : Database) (log : Log Event) (effectiveAt : Option Nat)
    (configSnapshot : Option StakeConfig) :
    ((db.insertHistoryRow log effectiveAt configSnapshot).history log.id).isSome = true := by
  rw [Database.insertHistoryRow]
  split
  · assumption
  · change (update db.history log.id _ log.id).isSome = true
    rw [update_self]
    rfl

theorem insertHistoryRow_stakeConfig (db : Database) (log : Log Event)
    (effectiveAt : Option Nat) (configSnapshot : Option StakeConfig) :
    (db.insertHistoryRow log effectiveAt configSnapshot).stakeConfig = db.stakeConfig ∧
      (db.insertHistoryRow log effectiveAt configSnapshot).calldata = db.calldata := by
  rw [Database.insertHistoryRow]
  split <;> exact ⟨rfl, rfl⟩

/-- A row that is there now was there before, or is the new one. -/
theorem insertHistoryRow_cases {db : Database} {log : Log Event} {effectiveAt : Option Nat}
    {configSnapshot : Option StakeConfig} {id : LogId} {row : HistoryRow}
    (h : (db.insertHistoryRow log effectiveAt configSnapshot).history id = some row) :
    db.history id = some row ∨ id = log.id ∧ row = rowOf log effectiveAt configSnapshot := by
  rw [Database.insertHistoryRow] at h
  split at h
  · exact Or.inl h
  · by_cases hid : id = log.id
    · subst hid
      change update db.history log.id _ log.id = some row at h
      rw [update_self] at h
      exact Or.inr ⟨rfl, (Option.some.inj h).symm⟩
    · change update db.history log.id _ id = some row at h
      rw [update_of_ne hid] at h
      exact Or.inl h

variable {waiting : Nat → StakeConfig} {s : IndexerState}

/-- The step lemma, but for what the chain does. -/
theorem tableLaw_step (h : TableLaw waiting s) {a : Indexer.Action Unit Event Fact}
    (hemit : ∀ events, a ≠ .emit events)
    (hother : ∀ fact, a = .other fact → ∃ b, fact = .getsTransactions b) :
    TableLaw waiting (stakeConfigIndexer.step s a) := by
  have hsourced := Indexer.sourced_step (P := stakeConfigIndexer) h.sourced a
  have hfinal := Indexer.final_step (P := stakeConfigIndexer) h.final a
  have hchange := Indexer.step_change (P := stakeConfigIndexer) h.sourced a
  generalize stakeConfigIndexer.step s a = s' at *
  cases hchange with
  | quiet number logs db applied works =>
      refine ⟨hsourced, hfinal, by rw [logs, db]; exact h.queued, fun id row hrow => ?_,
        by rw [applied, db]; exact h.applied, fun l log hworks => ?_,
        fun l log e c hworks => ?_⟩
      · rw [db] at hrow
        obtain ⟨l, hl, hid, hlt, hrecords⟩ := h.rows id row hrow
        exact ⟨l, by rw [logs]; exact hl, hid, Nat.lt_of_lt_of_le hlt number,
          by rw [db]; exact hrecords⟩
      · rcases works l _ hworks with hbefore | ⟨-, hstart⟩
        · exact h.reads l log hbefore
        · exact start_read hstart.symm
      · rw [db]
        rcases works l _ hworks with hbefore | ⟨-, hstart⟩
        · exact h.inserts l log e c hbefore
        · exact records_start hstart.symm
  | emitted events action ids fresh number logs db applied works =>
      exact absurd action (hemit events)
  | other fact action hs' =>
      obtain ⟨b, rfl⟩ := hother fact action
      subst hs'
      have hmono : ∀ l row, Records s.db waiting l row →
          Records { s.db with getsTransactions := b } waiting l row :=
        fun l row hrow => hrow.mono rfl rfl
      refine ⟨hsourced, hfinal, h.queued, fun id row hrow => ?_, h.applied, h.reads,
        fun l log e c hworks => ?_⟩
      · obtain ⟨l, hl, hid, hlt, hrecords⟩ := h.rows id row hrow
        exact ⟨l, hl, hid, hlt, hmono l row hrecords⟩
      · obtain ⟨hlog, hrecords⟩ := h.inserts l log e c hworks
        exact ⟨hlog, hmono l _ hrecords⟩
  | executed i outcome action answered l j next hand number logs exec applied works =>
      have hworks : Works s l j := ⟨i, hand⟩
      cases j with
      | read log =>
          obtain rfl := (h.reads l log hworks).symm
          obtain ⟨hdb, hnext⟩ : s.db = s'.db ∧ some (answer l s.db) = next := by
            simpa [stakeConfigIndexer, StakeConfigIndexer.exec] using exec
          refine ⟨hsourced, hfinal, by rw [logs, ← hdb]; exact h.queued, fun id row hrow => ?_,
            fun l' hl' => ?_, fun l' log' hworks' => ?_, fun l' log' e c hworks' => ?_⟩
          · rw [← hdb] at hrow ⊢
            rw [logs, number]
            exact h.rows id row hrow
          · rw [← hdb]
            rcases applied with happlied | ⟨hnone, -⟩
            · exact h.applied l' (by rwa [happlied] at hl')
            · rw [← hnext] at hnone
              cases hnone
          · rcases works l' _ hworks' with hbefore | ⟨-, hnew⟩
            · exact h.reads l' log' hbefore
            · obtain ⟨e, c, hanswer⟩ := answer_insert l s.db
              rw [← hnext, hanswer] at hnew
              cases hnew
          · rw [← hdb]
            rcases works l' _ hworks' with hbefore | ⟨rfl, hnew⟩
            · exact h.inserts l' log' e c hbefore
            · rw [← hnext] at hnew
              exact records_answer (h.queued l' (h.sourced.works hworks)) (Option.some.inj hnew)
      | insert log e c =>
          obtain ⟨hlog, hrecords⟩ := h.inserts l log e c hworks
          obtain rfl := hlog.symm
          obtain ⟨hdb, hnext⟩ : s.db.insertHistoryRow l e c = s'.db ∧ none = next := by
            simpa [stakeConfigIndexer, StakeConfigIndexer.exec] using exec
          obtain ⟨hconfig, hcalldata⟩ := insertHistoryRow_stakeConfig s.db l e c
          have hmono : ∀ l' row, Records s.db waiting l' row → Records s'.db waiting l' row :=
            fun l' row hrow => hrow.mono (by rw [← hdb, hconfig]) rfl
          refine ⟨hsourced, hfinal, by rw [logs, ← hdb, hcalldata]; exact h.queued,
            fun id row hrow => ?_, fun l' hl' => ?_, fun l' log' hworks' => ?_,
            fun l' log' e' c' hworks' => ?_⟩
          · rw [logs, number]
            rw [← hdb] at hrow
            rcases insertHistoryRow_cases hrow with hrow | ⟨rfl, rfl⟩
            · obtain ⟨l', hl', hid, hlt, hrecords'⟩ := h.rows id row hrow
              exact ⟨l', hl', hid, hlt, hmono l' row hrecords'⟩
            · exact ⟨l, h.sourced.works hworks, rfl, h.final.works hworks, hmono l _ hrecords⟩
          · rw [← hdb]
            have hkept : ∀ l' ∈ s.applied,
                ((s.db.insertHistoryRow l e c).history l'.id).isSome = true := by
              intro l' hl'
              obtain ⟨row, hrow⟩ := Option.isSome_iff_exists.mp (h.applied l' hl')
              rw [insertHistoryRow_kept hrow]
              rfl
            rcases applied with happlied | ⟨-, happlied⟩
            · exact hkept l' (by rwa [happlied] at hl')
            · rw [happlied] at hl'
              rcases List.mem_cons.mp hl' with rfl | hl'
              · exact insertHistoryRow_isSome s.db l' e c
              · exact hkept l' hl'
          · rcases works l' _ hworks' with hbefore | ⟨-, hnew⟩
            · exact h.reads l' log' hbefore
            · rw [← hnext] at hnew
              cases hnew
          · rcases works l' _ hworks' with hbefore | ⟨-, hnew⟩
            · exact ⟨(h.inserts l' log' e' c' hbefore).1,
                hmono l' _ (h.inserts l' log' e' c' hbefore).2⟩
            · rw [← hnext] at hnew
              cases hnew

theorem tableLaw_abort (h : TableLaw waiting s) (i : Nat) :
    TableLaw waiting (Indexer.abort s i) where
  sourced := Indexer.sourced_abort h.sourced i
  final := Indexer.final_abort h.final i
  queued := h.queued
  rows := h.rows
  applied := h.applied
  reads := fun l log hworks => h.reads l log (Indexer.abort_works hworks)
  inserts := fun l log e c hworks => h.inserts l log e c (Indexer.abort_works hworks)

/-! ## Handlers -/

/-- A step of the indexer that is no one else's. -/
def Own : Indexer.Action Unit Event Fact → Prop
  | .emit _ => False
  | .mine => False
  | .other (.getsTransactions _) => True
  | .other (.mined _) => False
  | .other (.sent _ _) => False
  | .connect _ _ _ => True
  | .block _ _ _ => True
  | .query _ _ => True
  | .take _ => True
  | .exec _ _ => True
  | .advance _ => True
  | .store _ _ => True
  | .crash => True

/-- A statement that is not answered is one of `a`, and no read. -/
def Answered (s : IndexerState) (a : Indexer.Action Unit Event Fact) (s' : IndexerState)
    (a' : Indexer.Action Unit Event Fact) : Prop :=
  ∀ i outcome, a' = .exec i outcome → outcome = .done ∨
    a = a' ∧ s = s' ∧ ∀ l log, s.inHand i ≠ some (l, .read log)

/-- **The rule for handlers.** -/
theorem handle_rule {I : IndexerState → Prop} {s : IndexerState}
    {a : Indexer.Action Unit Event Fact} (hI : I s)
    (hstep : ∀ s' a', I s' → Own a' → Answered s a s' a' → I (stakeConfigIndexer.step s' a'))
    (habort : ∀ i, I (Indexer.abort s i)) : I (handle s a) := by
  have hquiet : ∀ s' a', I s' → Own a' → (∀ i outcome, a' ≠ .exec i outcome) →
      I (stakeConfigIndexer.step s' a') := fun s' a' hs' hown hno =>
    hstep s' a' hs' hown fun i outcome heq => absurd heq (hno i outcome)
  have hdone : ∀ s' i, I s' → I (stakeConfigIndexer.step s' (.exec i .done)) := by
    intro s' i hs'
    refine hstep s' _ hs' trivial fun i' outcome heq => Or.inl ?_
    cases heq
    rfl
  cases a with
  | emit events => exact hI
  | mine => exact hI
  | other fact => exact hI
  | connect session feed currentBlock =>
      exact hquiet s (.connect session feed currentBlock) hI trivial fun _ _ h => by cases h
  | block session i blockNumber =>
      exact hquiet s (.block session i blockNumber) hI trivial fun _ _ h => by cases h
  | query i answered =>
      exact hquiet s (.query i answered) hI trivial fun _ _ h => by cases h
  | take i =>
      exact hquiet s (.take i) hI trivial fun _ _ h => by cases h
  | advance i =>
      exact hquiet s (.advance i) hI trivial fun _ _ h => by cases h
  | store i outcome =>
      exact hquiet s (.store i outcome) hI trivial fun _ _ h => by cases h
  | crash => exact hquiet s .crash hI trivial fun _ _ h => by cases h
  | exec i outcome =>
      rw [handle, execute]
      split
      · rename_i log log' hhand
        rw [executeRead]
        split
        · split
          · exact habort i
          · split
            · exact hdone s i hI
            · -- the node is asked in vain
              have hsilent := hquiet s (.other (.getsTransactions false)) hI trivial
                fun _ _ h => by cases h
              exact hquiet _ (.other (.getsTransactions true)) (hdone _ i hsilent) trivial
                fun _ _ h => by cases h
        · split
          · exact hdone s i hI
          · exact habort i
      · rename_i hhand
        refine hstep s _ hI trivial fun i' outcome' heq => Or.inr ⟨rfl, rfl, ?_⟩
        cases heq
        exact fun l log => hhand l log

/-- What a handler leaves alone. -/
structure Kept (s s' : IndexerState) : Prop where
  logs : s'.logs = s.logs
  number : s'.number = s.number
  stakeConfig : s'.db.stakeConfig = s.db.stakeConfig
  rows : ∀ id row, s.db.history id = some row → s'.db.history id = some row

theorem Kept.ofSame {s s' : IndexerState} (hlogs : s'.logs = s.logs)
    (hnumber : s'.number = s.number) (hdb : s'.db = s.db) : Kept s s' :=
  ⟨hlogs, hnumber, by rw [hdb], fun id row hrow => by rwa [hdb]⟩

theorem Kept.trans {s s' s'' : IndexerState} (h : Kept s s') (h' : Kept s' s'') : Kept s s'' where
  logs := h'.logs.trans h.logs
  number := h'.number.trans h.number
  stakeConfig := h'.stakeConfig.trans h.stakeConfig
  rows := fun id row hrow => h'.rows id row (h.rows id row hrow)

theorem kept_execute (s : IndexerState) (i : Nat) (outcome : Indexer.Outcome) :
    Kept s (stakeConfigIndexer.execute s i outcome) := by
  have hdb : ∀ (j : Work) (db : Database) (next : Option Work),
      stakeConfigIndexer.exec j s.db = some (db, next) →
      db.stakeConfig = s.db.stakeConfig ∧
        ∀ id row, s.db.history id = some row → db.history id = some row := by
    intro j db next hexec
    cases j with
    | read log =>
        obtain ⟨rfl, -⟩ : s.db = db ∧ some (answer log s.db) = next := by
          simpa [stakeConfigIndexer, StakeConfigIndexer.exec] using hexec
        exact ⟨rfl, fun _ _ hrow => hrow⟩
    | insert log e c =>
        obtain ⟨rfl, -⟩ : s.db.insertHistoryRow log e c = db ∧ none = next := by
          simpa [stakeConfigIndexer, StakeConfigIndexer.exec] using hexec
        exact ⟨(insertHistoryRow_stakeConfig s.db log e c).1,
          fun _ _ hrow => insertHistoryRow_kept hrow⟩
  unfold Indexer.execute
  split
  · dsimp only
    split
    · exact .ofSame rfl rfl rfl
    · exact .ofSame rfl rfl rfl
    · rename_i db _ hexec
      exact ⟨rfl, rfl, (hdb _ db _ hexec).1, (hdb _ db _ hexec).2⟩
    · rename_i db hexec
      exact ⟨rfl, rfl, (hdb _ db _ hexec).1, (hdb _ db _ hexec).2⟩
    · rename_i db _ hexec
      exact ⟨rfl, rfl, (hdb _ db _ hexec).1, (hdb _ db _ hexec).2⟩
  · exact .ofSame rfl rfl rfl

theorem kept_step (s : IndexerState) {a : Indexer.Action Unit Event Fact} (ha : Own a) :
    Kept s (stakeConfigIndexer.step s a) := by
  cases a with
  | emit events => exact ha.elim
  | mine => exact ha.elim
  | other fact =>
      cases fact with
      | mined stakeConfig => exact ha.elim
      | sent transactionHash calldata => exact ha.elim
      | getsTransactions b => exact ⟨rfl, rfl, rfl, fun _ _ hrow => hrow⟩
  | connect session feed currentBlock =>
      simp only [Indexer.step, Indexer.connect]
      split <;> exact .ofSame rfl rfl rfl
  | block session i blockNumber =>
      simp only [Indexer.step, Indexer.block]
      split <;> exact .ofSame rfl rfl rfl
  | query i answered =>
      simp only [Indexer.step, Indexer.query]
      split
      · split
        · split <;> exact .ofSame rfl rfl rfl
        · exact .ofSame rfl rfl rfl
      · exact .ofSame rfl rfl rfl
  | take i =>
      simp only [Indexer.step, Indexer.take]
      split <;> exact .ofSame rfl rfl rfl
  | exec i outcome => exact kept_execute s i outcome
  | advance i =>
      simp only [Indexer.step, Indexer.advance]
      split <;> exact .ofSame rfl rfl rfl
  | store i outcome =>
      simp only [Indexer.step, Indexer.store]
      split <;> exact .ofSame rfl rfl rfl
  | crash => exact .ofSame rfl rfl rfl

theorem kept_handle (s : IndexerState) (a : Indexer.Action Unit Event Fact) :
    Kept s (handle s a) :=
  handle_rule (I := Kept s) (.ofSame rfl rfl rfl)
    (fun s' _ hs' hown _ => hs'.trans (kept_step s' hown)) fun _ => .ofSame rfl rfl rfl

theorem tableLaw_handle (h : TableLaw waiting s) (a : Indexer.Action Unit Event Fact) :
    TableLaw waiting (handle s a) := by
  refine handle_rule h (fun s' a' hs' hown _ => ?_) (tableLaw_abort h)
  refine tableLaw_step hs' ?_ ?_
  · rintro events rfl
    exact hown
  · rintro fact rfl
    cases fact with
    | mined stakeConfig => exact hown.elim
    | sent transactionHash calldata => exact hown.elim
    | getsTransactions b => exact ⟨b, rfl⟩

/-- Where no insert fails, nothing is lost. -/
theorem covered_handle (h : stakeConfigIndexer.Covered s) {a : Indexer.Action Unit Event Fact}
    (hinserts : ∀ i outcome, a = .exec i outcome → ∀ l log e c,
      s.inHand i = some (l, .insert log e c) → outcome = .done) :
    stakeConfigIndexer.Covered (handle s a) := by
  have hexec : ∀ (j : Work) (db : Database), (stakeConfigIndexer.exec j db).isSome = true := by
    intro j db
    cases j <;> rfl
  refine handle_rule h (fun s' a' hs' hown hanswered => ?_) fun i => Indexer.covered_abort h i
  by_cases hidle : ∃ i outcome, a' = .exec i outcome ∧ outcome ≠ .done
  · obtain ⟨i, outcome, rfl, hfailed⟩ := hidle
    obtain hdone | ⟨rfl, rfl, hread⟩ := hanswered i outcome rfl
    · exact absurd hdone hfailed
    · -- there is no insert in hand, so there is nothing
      have hnone : s.inHand i = none := by
        cases hhand : s.inHand i with
        | none => rfl
        | some work =>
            obtain ⟨l, j⟩ := work
            cases j with
            | read log => exact absurd hhand (hread l log)
            | insert log e c => exact absurd (hinserts i outcome rfl l log e c hhand) hfailed
      rw [Indexer.step, Indexer.execute_idle hnone]
      exact h
  · refine Indexer.covered_step s' a' hs' ?_
    cases a' with
    | exec i outcome =>
        have hdone : outcome = .done := by
          by_contra hne
          exact hidle ⟨i, outcome, rfl, hne⟩
        refine ⟨hdone, ?_⟩
        cases s'.inHand i with
        | none => rfl
        | some work => exact hexec work.2 s'.db
    | emit events => exact hown.elim
    | mine => exact hown.elim
    | other fact => trivial
    | connect session feed currentBlock => trivial
    | block session i blockNumber => trivial
    | query i answered => trivial
    | take i => trivial
    | advance i => trivial
    | store i outcome => trivial
    | crash => trivial

end StakeConfigIndexer

end NeutronX
