import NeutronX.FallbackWatcher

/-!
# The logs the watcher and the indexer see

What a transaction logs is what it adds to the events of the system, under
its own hash. So after a transaction the logs of an order are its chunks
and its fallbacks on chain, if they were before (`mined_spec`), and a
handler of the event indexer changes neither (`handler_frame`).

To the indexer any step is a run of its own, and an attempt is at an order
that was in the table when it started (`step_moves`). Logs and orders are
never deleted, so the order is still there (`orderLaw_step`).
-/

namespace NeutronX

open Evm Function

namespace FallbackWatcher

open EventIndexer (eventIndexer Event FallbackRow FillRow fillOf loggedFills FillsLaw)
open NeutronX.System (Label Elapse body elapse unfilled chunksOf fallbacksOf)

variable {κ W : Type} [DecidableEq κ] {d : Deployment κ W}

/-! ## What a transaction logs -/

/-- A fallback of the order, with the identity of its log. -/
def fallbackEntry (k : κ) (l : Log (Event κ)) : Option (LogId × Nat × Nat) :=
  match l.args with
  | .fallbackExecuted orderHash amountIn amountOut =>
      if orderHash = k then some (l.id, amountIn, amountOut) else none
  | .partialFillExecuted _ _ _ _ => none
  | .nonceInvalidated _ _ => none

/-- The input and output of a row. -/
def amounts (r : FillRow κ) : Nat × Nat := (r.fillAmount, r.outputAmount)

theorem fallbackEntry_eq_some {k : κ} {l : Log (Event κ)} {x : LogId × Nat × Nat} :
    fallbackEntry k l = some x ↔ x.1 = l.id ∧ l.args = .fallbackExecuted k x.2.1 x.2.2 := by
  obtain ⟨id, amountIn, amountOut⟩ := x
  unfold fallbackEntry
  split
  · rename_i orderHash amountIn' amountOut' hargs
    rw [hargs]
    split
    · rename_i heq
      subst heq
      simp only [Option.some.injEq, Prod.mk.injEq, Event.fallbackExecuted.injEq, true_and]
      constructor
      · rintro ⟨rfl, rfl, rfl⟩
        exact ⟨rfl, rfl, rfl⟩
      · rintro ⟨rfl, rfl, rfl⟩
        exact ⟨rfl, rfl, rfl⟩
    · rename_i hne
      refine ⟨fun h => (by cases h), ?_⟩
      rintro ⟨-, h⟩
      cases h
      exact absurd rfl hne
  all_goals
    rename_i hargs
    rw [hargs]
    refine ⟨fun h => (by cases h), ?_⟩
    rintro ⟨-, h⟩
    cases h

/-- The logs of a transaction in block `number`. -/
def newLogs (transactionHash number : Nat) (es : List (Event κ)) : List (Log (Event κ)) :=
  (numbered transactionHash es).map fun e => ⟨e.1, number, e.2⟩

omit [DecidableEq κ] in
theorem mem_numbered {transactionHash : Nat} {p : LogId × Event κ} :
    ∀ {es : List (Event κ)}, p ∈ numbered transactionHash es →
      p.1.transactionHash = transactionHash ∧ p.1.logIndex < es.length
  | [], h => absurd h List.not_mem_nil
  | e :: es, h => by
      rcases List.mem_cons.mp h with rfl | h
      · exact ⟨rfl, Nat.lt_succ_self _⟩
      · obtain ⟨hhash, hindex⟩ := mem_numbered h
        exact ⟨hhash, Nat.lt_succ_of_lt hindex⟩

omit [DecidableEq κ] in
theorem numbered_nodup (transactionHash : Nat) :
    ∀ es : List (Event κ), ((numbered transactionHash es).map Prod.fst).Nodup
  | [] => List.nodup_nil
  | e :: es => by
      rw [numbered, List.map_cons, List.nodup_cons]
      refine ⟨fun hmem => ?_, numbered_nodup transactionHash es⟩
      obtain ⟨p, hp, hid⟩ := List.mem_map.mp hmem
      have hindex := (mem_numbered hp).2
      rw [hid] at hindex
      exact Nat.lt_irrefl _ hindex

omit [DecidableEq κ] in
theorem newLogs_transactionHash {transactionHash number : Nat} {es : List (Event κ)}
    {l : Log (Event κ)} (h : l ∈ newLogs transactionHash number es) :
    l.id.transactionHash = transactionHash := by
  obtain ⟨p, hp, rfl⟩ := List.mem_map.mp h
  exact (mem_numbered hp).1

/-! ## The logs and the chain -/

def chunkArgs (k : κ) (e : Event κ) : Option (Nat × Nat) :=
  match e with
  | .partialFillExecuted orderHash _ fillAmount outputAmount =>
      if orderHash = k then some (fillAmount, outputAmount) else none
  | .fallbackExecuted _ _ _ => none
  | .nonceInvalidated _ _ => none

def fallbackArgs (k : κ) (e : Event κ) : Option (Nat × Nat) :=
  match e with
  | .fallbackExecuted orderHash amountIn amountOut =>
      if orderHash = k then some (amountIn, amountOut) else none
  | .partialFillExecuted _ _ _ _ => none
  | .nonceInvalidated _ _ => none

/-- The chunks of an order that were logged. -/
def loggedChunks (k : κ) (logs : List (Log (Event κ))) : List (Nat × Nat) :=
  (loggedFills logs k).map amounts

def loggedFallbacks (k : κ) (logs : List (Log (Event κ))) : List (Nat × Nat) :=
  (logs.filterMap (fallbackEntry k)).map Prod.snd

theorem fillOf_amounts (k : κ) (l : Log (Event κ)) :
    (fillOf k l).map amounts = chunkArgs k l.args := by
  obtain ⟨id, blockNumber, args⟩ := l
  cases args with
  | partialFillExecuted orderHash filler fillAmount outputAmount =>
      simp only [fillOf, chunkArgs]
      split <;> rfl
  | fallbackExecuted orderHash amountIn amountOut => rfl
  | nonceInvalidated swapper nonce => rfl

theorem fallbackEntry_amounts (k : κ) (l : Log (Event κ)) :
    (fallbackEntry k l).map Prod.snd = fallbackArgs k l.args := by
  obtain ⟨id, blockNumber, args⟩ := l
  cases args with
  | partialFillExecuted orderHash filler fillAmount outputAmount => rfl
  | fallbackExecuted orderHash amountIn amountOut =>
      simp only [fallbackEntry, fallbackArgs]
      split <;> rfl
  | nonceInvalidated swapper nonce => rfl

theorem loggedChunks_eq (k : κ) (logs : List (Log (Event κ))) :
    loggedChunks k logs = (logs.map Log.args).filterMap (chunkArgs k) := by
  simp only [loggedChunks, loggedFills, List.map_filterMap, fillOf_amounts, List.filterMap_map]
  rfl

theorem loggedFallbacks_eq (k : κ) (logs : List (Log (Event κ))) :
    loggedFallbacks k logs = (logs.map Log.args).filterMap (fallbackArgs k) := by
  simp only [loggedFallbacks, List.map_filterMap, fallbackEntry_amounts, List.filterMap_map]
  rfl

omit [DecidableEq κ] in
theorem newLogs_args (transactionHash number : Nat) :
    ∀ es : List (Event κ), (newLogs transactionHash number es).map Log.args = es
  | [] => rfl
  | e :: es => congrArg (e :: ·) (newLogs_args transactionHash number es)

theorem added_append {α : Type} {old new : List α} (h : old <:+ new) :
    added old new ++ old = new := by
  obtain ⟨front, rfl⟩ := h
  simp [added]

theorem chunkArgs_reactorLog (k : κ) (e : ReactorEvent κ) :
    (reactorLog e).bind (chunkArgs k) = System.chunkOf k e := by
  cases e <;> rfl

theorem fallbackArgs_fallbackLog (k : κ) (e : FallbackEvent κ) :
    (fallbackLog e).bind (fallbackArgs k) = System.fallbackOf k e := by
  cases e <;> rfl

theorem chunkArgs_fallbackLog (k : κ) (e : FallbackEvent κ) :
    (fallbackLog e).bind (chunkArgs k) = none := by
  cases e <;> rfl

theorem fallbackArgs_reactorLog (k : κ) (e : ReactorEvent κ) :
    (reactorLog e).bind (fallbackArgs k) = none := by
  cases e <;> rfl

section Transactions

variable {chain chain' : World κ W}

theorem chunksOf_newEvents (hgrow : System.LogsGrow chain chain') (k : κ) :
    (newEvents chain chain').filterMap (chunkArgs k) ++ chunksOf k chain = chunksOf k chain' := by
  conv_rhs => rw [chunksOf, ← added_append hgrow.1, List.filterMap_append]
  simp only [newEvents, List.filterMap_append, List.filterMap_filterMap, chunkArgs_fallbackLog,
    chunkArgs_reactorLog, List.filterMap_none, List.nil_append]
  rfl

theorem fallbacksOf_newEvents (hgrow : System.LogsGrow chain chain') (k : κ) :
    (newEvents chain chain').filterMap (fallbackArgs k) ++ fallbacksOf k chain
      = fallbacksOf k chain' := by
  conv_rhs => rw [fallbacksOf, ← added_append hgrow.2, List.filterMap_append]
  simp only [newEvents, List.filterMap_append, List.filterMap_filterMap, fallbackArgs_fallbackLog,
    fallbackArgs_reactorLog, List.filterMap_none, List.append_nil]
  rfl

/-- What a transaction makes of the logs. -/
structure Mined (s : State κ W) (transactionHash : Nat) (chain' : World κ W)
    (new : List (Log (Event κ))) : Prop where
  logs : (mined s transactionHash chain').indexer.logs = new ++ s.indexer.logs
  db : (mined s transactionHash chain').indexer.db = s.indexer.db
  hashes : ∀ l ∈ new, l.id.transactionHash = transactionHash
  chunks : ∀ k, loggedChunks k new ++ chunksOf k s.chain = chunksOf k chain'
  fallbacks : ∀ k, loggedFallbacks k new ++ fallbacksOf k s.chain = fallbacksOf k chain'

theorem mined_spec {s : State κ W} {transactionHash : Nat}
    (hgrow : System.LogsGrow s.chain chain')
    (hfresh : ∀ l ∈ s.indexer.logs, l.id.transactionHash ≠ transactionHash) :
    ∃ new, Mined s transactionHash chain' new := by
  have hunused : ∀ p ∈ numbered transactionHash (newEvents s.chain chain'),
      ∀ l ∈ s.indexer.logs, l.id ≠ p.1 := by
    intro p hp l hl heq
    refine hfresh l hl ?_
    rw [heq]
    exact (mem_numbered hp).1
  have hindexer : (mined s transactionHash chain').indexer = { s.indexer with
      logs := newLogs transactionHash s.indexer.number (newEvents s.chain chain')
        ++ s.indexer.logs } := by
    rw [mined, Indexer.step, Indexer.emit, if_pos ⟨numbered_nodup _ _, hunused⟩]
    rfl
  refine ⟨newLogs transactionHash s.indexer.number (newEvents s.chain chain'), ?_, ?_,
    fun l hl => newLogs_transactionHash hl, fun k => ?_, fun k => ?_⟩
  · rw [hindexer]
  · rw [hindexer]
  · rw [loggedChunks_eq, newLogs_args]
    exact chunksOf_newEvents hgrow k
  · rw [loggedFallbacks_eq, newLogs_args]
    exact fallbacksOf_newEvents hgrow k

end Transactions

theorem afterCall_logsGrow (call : Call (Label κ W)) (chain : World κ W) :
    System.LogsGrow chain (afterCall d call chain) :=
  System.segments_logsGrow (System.run_segments [.call call] chain)

theorem afterCall_reachable {chain : World κ W} (h : System.Reachable d chain)
    (call : Call (Label κ W)) : System.Reachable d (afterCall d call chain) :=
  h.run [.call call]

theorem afterCall_unfilled (call : Call (Label κ W)) (chain : World κ W) (info : OrderInfo) :
    unfilled d (afterCall d call chain) info ≤ unfilled d chain info :=
  (System.segments_progress (d := d) (System.run_segments [.call call] chain)).unfilled info

/-! ## The steps of the indexer -/

/-- Nothing is logged, no row is lost, and no fallback's row of the order is
inserted. -/
structure Frame (k : κ) (x x' : EventIndexer.State κ) : Prop where
  reachable : EventIndexer.Reachable x'
  logs : x'.logs = x.logs
  rows : ∀ r ∈ x'.db.fills, r.orderHash = k → r.source = .fallback → r ∈ x.db.fills
  keeps : EventIndexer.KeepsFills x.db x'.db

theorem reachable_step {x : EventIndexer.State κ} (h : EventIndexer.Reachable x)
    (a : EventIndexer.Action κ) : EventIndexer.Reachable (eventIndexer.step x a) := by
  obtain ⟨number, as, rfl⟩ := h
  refine ⟨number, as ++ [a], ?_⟩
  rw [Indexer.run_append]
  rfl

omit [DecidableEq κ] in
theorem stage_insertFill {db : EventIndexer.Database κ} {l : Log (Event κ)} {row : FillRow κ}
    (h : EventIndexer.Stage db l (.insertFill row)) : row.source = .filler := by
  generalize hj : EventIndexer.Statement.insertFill row = j at h
  cases h with
  | select args stored => cases hj
  | update status args stored => cases hj
  | start =>
      unfold EventIndexer.handle at hj
      split at hj <;> cases hj
      rfl

theorem handler_frame {k : κ} {x : EventIndexer.State κ} (h : EventIndexer.Reachable x)
    {a : EventIndexer.Action κ} (ha : ofHandler a = true) :
    Frame k x (eventIndexer.step x a) := by
  obtain ⟨hsourced, hlaw⟩ := h.laws
  have hreachable := reachable_step h a
  cases Indexer.step_change (P := eventIndexer) hsourced a with
  | quiet number logs db applied works =>
      exact ⟨hreachable, logs, by rw [db]; exact fun _ hr _ _ => hr,
        by rw [db]; exact fun _ hr => hr⟩
  | emitted events action ids fresh number logs db applied works =>
      subst action
      cases ha
  | other w action hs' =>
      subst action
      cases ha
  | executed i outcome action answered l j next hand number logs exec applied works =>
      have hexec := EventIndexer.exec_spec exec
      refine ⟨hreachable, logs, fun r hr _ hsource => ?_, hexec.keepsFills⟩
      generalize (eventIndexer.step x a).db = db' at hexec hr
      cases hexec with
      | insertFill row hinsert =>
          rcases EventIndexer.insertFill_spec hinsert with ⟨-, rfl⟩ | ⟨-, -, rfl⟩
          · exact hr
          · rcases List.mem_cons.mp hr with rfl | hr
            · -- the indexer inserts rows of fillers
              rw [stage_insertFill (hlaw.stored.works l _ ⟨i, hand⟩)] at hsource
              cases hsource
            · exact hr
      | selectFilled hash hdb =>
          subst hdb
          exact hr
      | updateStatus hash status hdb =>
          subst hdb
          exact hr
      | cancelNonce swapper nonce hdb =>
          subst hdb
          exact hr

/-- Statements that leave the fills alone. -/
theorem other_frame {k : κ} {x : EventIndexer.State κ} (h : EventIndexer.Reachable x)
    {w : EventIndexer.Write κ} (hw : (EventIndexer.other w x.number x.logs x.db).fills
      = x.db.fills) : Frame k x (eventIndexer.step x (.other w)) := by
  refine ⟨reachable_step h _, rfl, fun r hr _ _ => ?_, fun r hr => ?_⟩
  · exact hw ▸ hr
  · exact hw.symm ▸ hr

theorem frame_refl {k : κ} {x : EventIndexer.State κ} (h : EventIndexer.Reachable x) :
    Frame k x x :=
  ⟨h, rfl, fun _ hr _ _ => hr, fun _ hr => hr⟩

theorem mine_frame {k : κ} {x : EventIndexer.State κ} (h : EventIndexer.Reachable x) (n : Nat) :
    Frame k x (eventIndexer.run x (List.replicate n .mine)) := by
  induction n generalizing x with
  | zero => exact frame_refl h
  | succ n ih =>
      obtain ⟨hreachable, hlogs, hrows, hkeeps⟩ := ih (reachable_step h .mine)
      exact ⟨hreachable, hlogs, hrows, hkeeps⟩

/-! ## What stays -/

/-- Every order of one database is in another. -/
def KeepsOrders (db db' : EventIndexer.Database κ) : Prop :=
  ∀ k, (db.orders k).isSome = true → (db'.orders k).isSome = true

omit [DecidableEq κ] in
theorem keepsOrders_of_eq {db db' : EventIndexer.Database κ} (h : db'.orders = db.orders) :
    KeepsOrders db db' := by
  intro k hk
  rw [h]
  exact hk

omit [DecidableEq κ] in
/-- An update leaves every order in the table. -/
theorem keepsOrders_updateWhere {db db' : EventIndexer.Database κ}
    {p : κ → EventIndexer.OrderRow → Bool} {f : EventIndexer.OrderRow → EventIndexer.OrderRow}
    (h : db'.orders = db.orders.updateWhere p f) : KeepsOrders db db' := by
  intro k hk
  rw [h, Sql.Table.updateWhere, Option.isSome_map]
  exact hk

omit [DecidableEq κ] in
theorem keepsOrders_insertFill {db db' : EventIndexer.Database κ} {row : FillRow κ}
    (h : db.insertFill row = some db') : KeepsOrders db db' := by
  rcases EventIndexer.insertFill_spec h with ⟨-, rfl⟩ | ⟨-, -, rfl⟩
  · exact keepsOrders_of_eq rfl
  · exact keepsOrders_of_eq rfl

theorem keepsOrders_other (w : EventIndexer.Write κ) (number : Nat)
    (logs : List (Log (Event κ))) (db : EventIndexer.Database κ) :
    KeepsOrders db (EventIndexer.other w number logs db) := by
  cases w with
  | createOrder hash info printed =>
      simp only [EventIndexer.other, EventIndexer.Database.createOrder]
      split
      · exact keepsOrders_of_eq rfl
      · intro k hk
        by_cases heq : k = hash
        · subst heq
          simp [Sql.Table.insert]
        · exact (congrArg Option.isSome (update_of_ne heq ..)).trans hk
  | cancelOrder hash => exact keepsOrders_updateWhere rfl
  | expire currentBlock =>
      simp only [EventIndexer.other]
      split
      · exact keepsOrders_updateWhere rfl
      · exact keepsOrders_of_eq rfl
  | setFallback hash id =>
      simp only [EventIndexer.other]
      split
      · exact keepsOrders_updateWhere rfl
      · exact keepsOrders_of_eq rfl
  | insertFallback row =>
      simp only [EventIndexer.other]
      split
      · cases hinsert : db.insertFill row.row with
        | none => exact keepsOrders_of_eq rfl
        | some db' => exact keepsOrders_insertFill hinsert
      · exact keepsOrders_of_eq rfl

theorem keepsOrders_executes {db db' : EventIndexer.Database κ} {j : EventIndexer.Statement κ}
    {next : Option (EventIndexer.Statement κ)} (h : EventIndexer.Executes db db' j next) :
    KeepsOrders db db' := by
  cases h with
  | insertFill row h => exact keepsOrders_insertFill h
  | selectFilled hash h => exact keepsOrders_of_eq (by rw [h])
  | updateStatus hash status h => exact keepsOrders_updateWhere (by rw [h]; rfl)
  | cancelNonce swapper nonce h => exact keepsOrders_updateWhere (by rw [h]; rfl)

/-- Logs and orders are never deleted. -/
structure Keeps (x x' : EventIndexer.State κ) : Prop where
  logs : ∀ l ∈ x.logs, l ∈ x'.logs
  orders : KeepsOrders x.db x'.db

theorem keeps_step {x : EventIndexer.State κ} (h : EventIndexer.Reachable x)
    (a : EventIndexer.Action κ) : Keeps x (eventIndexer.step x a) := by
  cases Indexer.step_change (P := eventIndexer) h.laws.1 a with
  | quiet number logs db applied works =>
      exact ⟨by rw [logs]; exact fun _ hl => hl, keepsOrders_of_eq (by rw [db])⟩
  | emitted events action ids fresh number logs db applied works =>
      refine ⟨fun l hl => ?_, keepsOrders_of_eq (by rw [db])⟩
      rw [logs]
      exact List.mem_append_right _ hl
  | other w action hs' =>
      rw [hs']
      exact ⟨fun _ hl => hl, keepsOrders_other w _ _ _⟩
  | executed i outcome action answered l' j next hand number logs exec applied works =>
      exact ⟨by rw [logs]; exact fun _ hl => hl,
        keepsOrders_executes (EventIndexer.exec_spec exec)⟩

theorem keeps_run {x : EventIndexer.State κ} (h : EventIndexer.Reachable x)
    (as : List (EventIndexer.Action κ)) : Keeps x (eventIndexer.run x as) := by
  induction as generalizing x with
  | nil => exact ⟨fun _ hl => hl, fun _ hk => hk⟩
  | cons a as ih =>
      have hfirst := keeps_step h a
      have hrest := ih (reachable_step h a)
      exact ⟨fun l hl => hrest.logs l (hfirst.logs l hl),
        fun k hk => hrest.orders k (hfirst.orders k hk)⟩

/-! ## What a step does -/

/-- The indexer runs, and an attempt is at an order that had one or that is
in the table. -/
structure Moves (s s' : State κ W) : Prop where
  indexer : ∃ as, s'.indexer = eventIndexer.run s.indexer as
  attempts : ∀ k, s'.attempts k ≠ none →
    s.attempts k ≠ none ∨ (s.indexer.db.orders k).isSome = true

theorem Moves.refl (s : State κ W) : Moves s s := ⟨⟨[], rfl⟩, fun _ h => Or.inl h⟩

theorem Moves.ofIndexer {s s' : State κ W} (as : List (EventIndexer.Action κ))
    (hindexer : s'.indexer = eventIndexer.run s.indexer as) (hattempts : s'.attempts = s.attempts) :
    Moves s s' :=
  ⟨⟨as, hindexer⟩, fun k h => Or.inl (by rwa [hattempts] at h)⟩

/-- The watcher writes to the tables. -/
theorem Moves.write (s : State κ W) (w : EventIndexer.Write κ) :
    Moves s { s with indexer := eventIndexer.step s.indexer (.other w) } :=
  .ofIndexer [.other w] rfl rfl

theorem setAttempt_of_ne {k k₀ : κ} (hk : k ≠ k₀) (s : State κ W)
    (attempt : Option (Attempt κ)) : (setAttempt s k₀ attempt).attempts k = s.attempts k :=
  update_of_ne hk ..

/-- The attempt at one order moves. -/
theorem Moves.setAttempt {s s' : State κ W} (h : Moves s s') {k₀ : κ}
    {attempt : Option (Attempt κ)} (h₀ : attempt ≠ none →
      s.attempts k₀ ≠ none ∨ (s.indexer.db.orders k₀).isSome = true) :
    Moves s (setAttempt s' k₀ attempt) := by
  refine ⟨h.indexer, fun k hk => ?_⟩
  by_cases heq : k = k₀
  · subst heq
    exact h₀ (by simpa only [FallbackWatcher.setAttempt, update_self] using hk)
  · rw [setAttempt_of_ne heq] at hk
    exact h.attempts k hk

/-- The attempt at an order the watcher tries moves on. -/
theorem Moves.proceed {s s' : State κ W} (h : Moves s s') {k₀ : κ} {attempt₀ : Attempt κ}
    (h₀ : s.attempts k₀ = some attempt₀) (attempt : Option (Attempt κ)) :
    Moves s (FallbackWatcher.setAttempt s' k₀ attempt) :=
  h.setAttempt fun _ => Or.inl (by rw [h₀]; exact Option.some_ne_none _)

theorem step_moves (s : State κ W) (a : Action κ W) : Moves s (step d s a) := by
  cases a with
  | transaction transactionHash call =>
      simp only [step, transaction]
      split
      · exact .refl s
      · exact .ofIndexer
          [.emit (numbered transactionHash (newEvents s.chain (afterCall d call s.chain)))] rfl rfl
  | mineSent transactionHash routeOk turns =>
      simp only [step, mineSent]
      split
      · rename_i t _
        exact .ofIndexer [.emit (numbered transactionHash
          (newEvents s.chain (afterCall d (t.call routeOk turns) s.chain)))] rfl rfl
      · exact .refl s
  | elapse t => exact .ofIndexer (List.replicate t.blocks .mine) rfl rfl
  | index a =>
      simp only [step]
      split
      · exact .ofIndexer [a] rfl rfl
      · exact .refl s
  | createOrder info printed =>
      exact .ofIndexer [.other (.createOrder (d.hashOrder info) info printed)] rfl rfl
  | cancelOrder info => exact .ofIndexer [.other (.cancelOrder (d.hashOrder info))] rfl rfl
  | expire currentBlock => exact .ofIndexer [.other (.expire currentBlock)] rfl rfl
  | select currentBlock =>
      simp only [step, select]
      split <;> exact .ofIndexer [] rfl rfl
  | start info =>
      simp only [step, start]
      split
      · rename_i hstart
        refine (Moves.refl s).setAttempt fun _ => Or.inr ?_
        cases horder : s.indexer.db.orders (d.hashOrder info) with
        | some row => rfl
        | none =>
            rw [horder] at hstart
            cases hstart.2.2
      · exact .refl s
  | skip info =>
      simp only [step, skip]
      split
      · exact (Moves.refl s).proceed ‹_› _
      · exact .refl s
  | read info =>
      simp only [step, read]
      split
      · exact (Moves.refl s).proceed ‹_› _
      · exact .refl s
  | submit info sig aggregator router minAmountOut transactionHash =>
      simp only [step, submit]
      split
      · rename_i rem hattempt
        split
        · exact .refl s
        · obtain ⟨hindexer, hattempts⟩ := (Moves.refl s).proceed hattempt
            (some (.submitted rem aggregator transactionHash))
          exact ⟨hindexer, hattempts⟩
      · exact .refl s
  | receipt info shadow =>
      simp only [step, receipt]
      split
      · rename_i hattempt
        split
        · exact (Moves.refl s).proceed hattempt _
        · exact .refl s
      · exact .refl s
  | mark info outcome =>
      simp only [step, mark]
      split
      · rename_i row hattempt
        have hmarked := Moves.write s (.setFallback (d.hashOrder info) row.id)
        cases outcome with
        | done => exact hmarked.proceed hattempt _
        | lost => exact hmarked.proceed hattempt _
        | failed => exact (Moves.refl s).proceed hattempt _
      · exact .refl s
  | record info outcome =>
      simp only [step, record]
      split
      · rename_i row hattempt
        have hrecorded := Moves.write s (.insertFallback row)
        split
        · exact hrecorded.proceed hattempt _
        · exact hrecorded.proceed hattempt _
        · exact (Moves.refl s).proceed hattempt _
      · exact .refl s
  | fail info =>
      simp only [step, fail]
      split
      · exact .refl s
      · exact (Moves.refl s).setAttempt fun h => absurd rfl h
  | crash => exact ⟨⟨[], rfl⟩, fun _ h => absurd rfl h⟩

/-- What every step of the whole keeps of the indexer. -/
theorem indexer_step {s : State κ W} (h : EventIndexer.Reachable s.indexer) (a : Action κ W) :
    EventIndexer.Reachable (step d s a).indexer ∧ Keeps s.indexer (step d s a).indexer := by
  obtain ⟨as, has⟩ := (step_moves (d := d) s a).indexer
  rw [has]
  refine ⟨?_, keeps_run h as⟩
  obtain ⟨number, as₀, hs⟩ := h
  exact ⟨number, as₀ ++ as, by rw [hs, Indexer.run_append]⟩

theorem keepsLogs {s : State κ W} (h : EventIndexer.Reachable s.indexer)
    (as : List (Action κ W)) : ∀ l ∈ s.indexer.logs, l ∈ (run d s as).indexer.logs := by
  induction as generalizing s with
  | nil => exact fun _ hl => hl
  | cons a as ih =>
      obtain ⟨hreachable, hkeeps⟩ := indexer_step (d := d) h a
      exact fun l hl => ih hreachable l (hkeeps.logs l hl)

/-! ## Orders with an attempt -/

/-- The watcher tries orders of the table only. -/
structure OrderLaw (s : State κ W) : Prop where
  indexer : EventIndexer.Reachable s.indexer
  stored : ∀ k, s.attempts k ≠ none → (s.indexer.db.orders k).isSome = true

theorem orderLaw_step (s : State κ W) (a : Action κ W) (h : OrderLaw s) :
    OrderLaw (step d s a) := by
  obtain ⟨hreachable, hkeeps⟩ := indexer_step (d := d) h.indexer a
  refine ⟨hreachable, fun k hk => hkeeps.orders k ?_⟩
  rcases (step_moves s a).attempts k hk with hbefore | horder
  · exact h.stored k hbefore
  · exact horder

end FallbackWatcher

end NeutronX
