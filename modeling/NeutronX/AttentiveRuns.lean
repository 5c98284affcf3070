import NeutronX.WatcherLogs

/-!
# Runs that are attentive to an order

The row of a fallback is inserted by the fallback watcher, and only of one
it executed itself and lived to record. A run is `Attentive` to an order if
every fallback of it is one of these. What such a run keeps has two parts.
`ChainLaw` is about the chain and its logs: an order has one fallback at
most, and nothing is left after it. `AttemptLaw` is about the watcher's
attempt at the order: the fallback is in the table, or the watcher is still
at it.
-/

namespace NeutronX

open Evm Function

namespace FallbackWatcher

open EventIndexer (eventIndexer Event FallbackRow FillRow fillOf loggedFills FillsLaw)
open NeutronX.System (Label Elapse body elapse unfilled chunksOf fallbacksOf)

variable {κ W : Type} [DecidableEq κ] {d : Deployment κ W}

/-! ## Attentive runs -/

/-- The watcher waits for no receipt that is there, and holds no row. -/
def idle (s : State κ W) (k : κ) : Bool :=
  match s.attempts k with
  | some (.submitted _ _ transactionHash) => (receiptOf s.indexer.logs transactionHash).isNone
  | some (.executed _) => false
  | some (.marked _) => false
  | some .started => true
  | some (.remaining _) => true
  | some .over => true
  | none => true

/-- The watcher sent this transaction after it read `rem`, and waits for it. -/
def awaits (s : State κ W) (k : κ) (transactionHash rem : Nat) : Bool :=
  match s.attempts k with
  | some (.submitted rem' _ hash) => decide (hash = transactionHash ∧ rem' = rem)
  | _ => false

/-- Nobody but the watcher executes a fallback of the order, what remains is
then what the watcher read, and from there on nothing fails until the row is
inserted. -/
def Attentive (d : Deployment κ W) (info : OrderInfo) (s : State κ W) : Action κ W → Prop
  | .transaction _ call =>
      fallbacksOf (d.hashOrder info) (afterCall d call s.chain)
        = fallbacksOf (d.hashOrder info) s.chain
  | .mineSent transactionHash routeOk turns =>
      fallbacksOf (d.hashOrder info) (mineSent d s transactionHash routeOk turns).chain
          = fallbacksOf (d.hashOrder info) s.chain ∨
        awaits s (d.hashOrder info) transactionHash (unfilled d s.chain info) = true
  | .receipt info' shadow => info' = info → shadow = none
  | .mark info' outcome => info' = info → outcome = .done
  | .record info' outcome => info' = info → outcome ≠ .failed
  | .fail info' => info' = info → idle s (d.hashOrder info) = true
  | .crash => idle s (d.hashOrder info) = true
  | _ => True

instance (info : OrderInfo) (s : State κ W) : ∀ a, Decidable (Attentive d info s a)
  | .transaction _ _ => inferInstanceAs (Decidable (_ = _))
  | .mineSent _ _ _ => inferInstanceAs (Decidable (_ ∨ _))
  | .receipt _ _ => inferInstanceAs (Decidable (_ → _))
  | .mark _ _ => inferInstanceAs (Decidable (_ → _))
  | .record _ _ => inferInstanceAs (Decidable (_ → _))
  | .fail _ => inferInstanceAs (Decidable (_ → _))
  | .crash => inferInstanceAs (Decidable (_ = _))
  | .elapse _ => isTrue trivial
  | .index _ => isTrue trivial
  | .createOrder _ _ => isTrue trivial
  | .cancelOrder _ => isTrue trivial
  | .expire _ => isTrue trivial
  | .select _ => isTrue trivial
  | .start _ => isTrue trivial
  | .skip _ => isTrue trivial
  | .read _ => isTrue trivial
  | .submit _ _ _ _ _ _ => isTrue trivial

/-! ## The law of the chain and its logs -/

/-- The fallbacks of an order that were logged. -/
def entries (k : κ) (logs : List (Log (Event κ))) : List (LogId × Nat × Nat) :=
  logs.filterMap (fallbackEntry k)

theorem mem_entries {k : κ} {logs : List (Log (Event κ))} {x : LogId × Nat × Nat} :
    x ∈ entries k logs ↔
      ∃ l ∈ logs, x.1 = l.id ∧ l.args = .fallbackExecuted k x.2.1 x.2.2 := by
  simp only [entries, List.mem_filterMap, fallbackEntry_eq_some]

structure ChainLaw (d : Deployment κ W) (info : OrderInfo) (s : State κ W) : Prop where
  chain : System.Reachable d s.chain
  indexer : EventIndexer.Reachable s.indexer
  used : ∀ l ∈ s.indexer.logs, l.id.transactionHash ∈ s.used
  sent : ∀ t ∈ s.sent, t.transactionHash ∈ s.used ∧
    ∀ l ∈ s.indexer.logs, l.id.transactionHash ≠ t.transactionHash
  chunks : loggedChunks (d.hashOrder info) s.indexer.logs = chunksOf (d.hashOrder info) s.chain
  fallbacks : loggedFallbacks (d.hashOrder info) s.indexer.logs
    = fallbacksOf (d.hashOrder info) s.chain
  once : fallbacksOf (d.hashOrder info) s.chain = [] ∨
    (fallbacksOf (d.hashOrder info) s.chain).length = 1 ∧ unfilled d s.chain info = 0

section Law

variable {info : OrderInfo} {s s' : State κ W}

/-- Nothing happens on chain. -/
theorem ChainLaw.frame (h : ChainLaw d info s) (hchain : s'.chain = s.chain)
    (hindexer : Frame (d.hashOrder info) s.indexer s'.indexer) (hused : s'.used = s.used)
    (hsent : s'.sent = s.sent) : ChainLaw d info s' := by
  refine ⟨by rw [hchain]; exact h.chain, hindexer.reachable, ?_, ?_, ?_, ?_, ?_⟩
  · rw [hindexer.logs, hused]
    exact h.used
  · rw [hindexer.logs, hused, hsent]
    exact h.sent
  · rw [hindexer.logs, hchain]
    exact h.chunks
  · rw [hindexer.logs, hchain]
    exact h.fallbacks
  · rw [hchain]
    exact h.once

/-- An order has one fallback at most. -/
theorem ChainLaw.entry_unique (h : ChainLaw d info s) {x y : LogId × Nat × Nat}
    (hx : x ∈ entries (d.hashOrder info) s.indexer.logs)
    (hy : y ∈ entries (d.hashOrder info) s.indexer.logs) : x = y := by
  have hlength : (entries (d.hashOrder info) s.indexer.logs).length ≤ 1 := by
    have heq : (entries (d.hashOrder info) s.indexer.logs).length
        = (fallbacksOf (d.hashOrder info) s.chain).length := by
      rw [← h.fallbacks, loggedFallbacks, List.length_map, entries]
    rcases h.once with hnone | ⟨hone, -⟩
    · rw [heq, hnone]
      exact Nat.zero_le 1
    · exact Nat.le_of_eq (heq.trans hone)
  generalize entries (d.hashOrder info) s.indexer.logs = xs at hx hy hlength
  rcases xs with _ | ⟨z, _ | ⟨z', zs⟩⟩
  · exact absurd hx List.not_mem_nil
  · rw [List.mem_singleton.mp hx, List.mem_singleton.mp hy]
  · simp only [List.length_cons] at hlength
    omega

/-- What the fallback of an order leaves. -/
theorem unfilled_of_fallback {chain chain' : World κ W} (hchain : System.Reachable d chain)
    (hchain' : System.Reachable d chain') (hgrow : System.LogsGrow chain chain')
    {amountOut : Nat} (hfallbacks : fallbacksOf (d.hashOrder info) chain'
      = (unfilled d chain info, amountOut) :: fallbacksOf (d.hashOrder info) chain) :
    unfilled d chain' info = 0 := by
  have hbefore := (hchain.ledgered info).1
  have hafter := (hchain'.ledgered info).1
  have hchunks := chunksOf_newEvents hgrow (d.hashOrder info)
  simp only [System.loggedInput, hfallbacks, ← hchunks, List.map_append, List.sum_append,
    List.map_cons, List.sum_cons] at hbefore hafter
  omega

/-- What the order's fallbacks are after a transaction of an attentive run. -/
inductive Logs (d : Deployment κ W) (info : OrderInfo) (chain chain' : World κ W) : Prop
  | none (h : fallbacksOf (d.hashOrder info) chain' = fallbacksOf (d.hashOrder info) chain)
  | fallback (amountOut : Nat) (pos : 0 < unfilled d chain info)
      (h : ∀ k, fallbacksOf k chain' = if d.hashOrder info = k
        then (unfilled d chain info, amountOut) :: fallbacksOf k chain
        else fallbacksOf k chain)

/-- A transaction is mined. -/
theorem ChainLaw.mined (h : ChainLaw d info s) {transactionHash : Nat} {used : List Nat}
    {sent : List Sent} {chain' : World κ W} {new : List (Log (Event κ))}
    (hchain' : System.Reachable d chain') (hgrow : System.LogsGrow s.chain chain')
    (hunfilled : unfilled d chain' info ≤ unfilled d s.chain info)
    (hmined : Mined { s with used, sent } transactionHash chain' new)
    (hused : ∀ hash, hash ∈ s.used → hash ∈ used) (hnew : transactionHash ∈ used)
    (hsent : ∀ t ∈ sent, t ∈ s.sent ∧ t.transactionHash ≠ transactionHash)
    (hlogs : Logs d info s.chain chain') :
    ChainLaw d info (FallbackWatcher.mined { s with used, sent } transactionHash chain') := by
  have hindexer : EventIndexer.Reachable
      (FallbackWatcher.mined { s with used, sent } transactionHash chain').indexer := by
    exact reachable_step h.indexer
      (.emit (numbered transactionHash (newEvents s.chain chain')))
  refine ⟨hchain', hindexer, fun l hl => ?_, fun t ht => ?_, ?_, ?_, ?_⟩
  · rw [hmined.logs] at hl
    rcases List.mem_append.mp hl with hl | hl
    · rw [hmined.hashes l hl]
      exact hnew
    · exact hused _ (h.used l hl)
  · obtain ⟨hold, hne⟩ := hsent t ht
    obtain ⟨hin, hfresh⟩ := h.sent t hold
    refine ⟨hused _ hin, fun l hl => ?_⟩
    rw [hmined.logs] at hl
    rcases List.mem_append.mp hl with hl | hl
    · rw [hmined.hashes l hl]
      exact hne.symm
    · exact hfresh l hl
  · have hchunks := hmined.chunks (d.hashOrder info)
    rw [hmined.logs]
    simp only [loggedChunks_eq, List.map_append, List.filterMap_append] at hchunks ⊢
    rw [← loggedChunks_eq (d.hashOrder info) s.indexer.logs, h.chunks]
    exact hchunks
  · have hfallbacks := hmined.fallbacks (d.hashOrder info)
    rw [hmined.logs]
    simp only [loggedFallbacks_eq, List.map_append, List.filterMap_append] at hfallbacks ⊢
    rw [← loggedFallbacks_eq (d.hashOrder info) s.indexer.logs, h.fallbacks]
    exact hfallbacks
  · cases hlogs with
    | none hsame =>
        show fallbacksOf (d.hashOrder info) chain' = [] ∨
          (fallbacksOf (d.hashOrder info) chain').length = 1 ∧ unfilled d chain' info = 0
        rw [hsame]
        refine h.once.imp_right fun hone => ⟨hone.1, ?_⟩
        omega
    | fallback amountOut pos hadded =>
        have hadded := hadded (d.hashOrder info)
        rw [if_pos rfl] at hadded
        refine Or.inr ⟨?_, unfilled_of_fallback h.chain hchain' hgrow hadded⟩
        show (fallbacksOf (d.hashOrder info) chain').length = 1
        rcases h.once with hempty | ⟨-, hzero⟩
        · rw [hadded, hempty]
          rfl
        · omega

/-! ## The law of the watcher's attempts -/

/-- The fallback with this log is still to be recorded. -/
def holds (attempt : Option (Attempt κ)) (id : LogId) : Prop :=
  match attempt with
  | some (.submitted _ _ transactionHash) => transactionHash = id.transactionHash
  | some (.executed row) => row.id = id
  | some (.marked row) => row.id = id
  | _ => False

/-- The row the attempt holds. -/
def held (attempt : Option (Attempt κ)) : Option (FallbackRow κ) :=
  match attempt with
  | some (.executed row) => some row
  | some (.marked row) => some row
  | _ => none

structure AttemptLaw (d : Deployment κ W) (info : OrderInfo) (s : State κ W) : Prop where
  keys : ∀ k row, held (s.attempts k) = some row → row.orderHash = k
  submitted : ∀ rem aggregator transactionHash,
    s.attempts (d.hashOrder info) = some (.submitted rem aggregator transactionHash) →
      transactionHash ∈ s.used ∧
      (∀ t ∈ s.sent, t.transactionHash = transactionHash → t.order.info = info) ∧
      ∀ l ∈ s.indexer.logs, l.id.transactionHash = transactionHash →
        ∀ k amountIn amountOut, l.args = .fallbackExecuted k amountIn amountOut →
          k = d.hashOrder info ∧ amountIn = rem
  holding : ∀ row, held (s.attempts (d.hashOrder info)) = some row →
    (row.id, row.fillAmount, row.outputAmount) ∈ entries (d.hashOrder info) s.indexer.logs
  exact : ∀ r ∈ s.indexer.db.fillsOf (d.hashOrder info), r.source = .fallback →
    (r.id, amounts r) ∈ entries (d.hashOrder info) s.indexer.logs
  recorded : ∀ x ∈ entries (d.hashOrder info) s.indexer.logs,
    (∃ r ∈ s.indexer.db.fills, r.id = x.1) ∨ holds (s.attempts (d.hashOrder info)) x.1

/-- The attempt at this order stays what it is. -/
theorem AttemptLaw.frame (h : AttemptLaw d info s)
    (hindexer : Frame (d.hashOrder info) s.indexer s'.indexer)
    (hused : ∀ hash ∈ s.used, hash ∈ s'.used)
    (hsent : ∀ t ∈ s'.sent, t ∈ s.sent ∨ t.transactionHash ∉ s.used)
    (hattempt : s'.attempts (d.hashOrder info) = s.attempts (d.hashOrder info))
    (hkeys : ∀ k row, held (s'.attempts k) = some row → row.orderHash = k) :
    AttemptLaw d info s' := by
  refine ⟨hkeys, ?_, ?_, fun r hr hsource => ?_, ?_⟩
  · rw [hattempt, hindexer.logs]
    intro rem aggregator transactionHash hsubmitted
    obtain ⟨hin, hours, hlogs⟩ := h.submitted rem aggregator transactionHash hsubmitted
    refine ⟨hused _ hin, fun t ht hhash => ?_, hlogs⟩
    rcases hsent t ht with hold | hnew
    · exact hours t hold hhash
    · rw [hhash] at hnew
      exact absurd hin hnew
  · rw [hattempt, hindexer.logs]
    exact h.holding
  · rw [hindexer.logs]
    obtain ⟨hmem, hhash⟩ := EventIndexer.Database.mem_fillsOf.mp hr
    have hold := hindexer.rows r hmem hhash hsource
    exact h.exact r (EventIndexer.Database.mem_fillsOf.mpr ⟨hold, hhash⟩) hsource
  · rw [hindexer.logs, hattempt]
    intro x hx
    refine (h.recorded x hx).imp_left ?_
    rintro ⟨r, hr, hid⟩
    exact ⟨r, hindexer.keeps r hr, hid⟩

/-- An attempt that holds nothing, after one that did not either. -/
theorem AttemptLaw.reset (h : AttemptLaw d info s) (hindexer : s'.indexer = s.indexer)
    (hfree : ∀ id, ¬holds (s'.attempts (d.hashOrder info)) id)
    (hbefore : ∀ x ∈ entries (d.hashOrder info) s.indexer.logs,
      ¬holds (s.attempts (d.hashOrder info)) x.1)
    (hkeys : ∀ k row, held (s'.attempts k) = some row → row.orderHash = k) :
    AttemptLaw d info s' := by
  refine ⟨hkeys, fun rem aggregator transactionHash hsubmitted => ?_, fun row hrow => ?_, ?_,
    fun x hx => ?_⟩
  · refine absurd ?_ (hfree ⟨transactionHash, 0⟩)
    rw [hsubmitted, holds]
  · refine absurd ?_ (hfree row.id)
    generalize s'.attempts (d.hashOrder info) = attempt at hrow
    unfold held at hrow
    split at hrow
    · cases hrow
      rw [holds]
    · cases hrow
      rw [holds]
    · cases hrow
  · rw [hindexer]
    exact h.exact
  · rw [hindexer] at hx ⊢
    exact Or.inl ((h.recorded x hx).resolve_right (hbefore x hx))

omit [DecidableEq κ] in
theorem receiptOf_eq_some {logs : List (Log (Event κ))} {transactionHash amountOut : Nat}
    {l : Log (Event κ)} (h : receiptOf logs transactionHash = some (l, amountOut)) :
    l ∈ logs ∧ l.id.transactionHash = transactionHash ∧
      ∃ k amountIn, l.args = .fallbackExecuted k amountIn amountOut := by
  obtain ⟨l', hl', hfound⟩ := List.exists_of_findSome?_eq_some h
  split at hfound
  · rename_i hhash
    split at hfound
    · rename_i hargs
      cases hfound
      exact ⟨hl', hhash, _, _, hargs⟩
    · cases hfound
    · cases hfound
  · cases hfound

omit [DecidableEq κ] in
theorem receiptOf_eq_none {logs : List (Log (Event κ))} {transactionHash : Nat}
    (h : receiptOf logs transactionHash = none) {l : Log (Event κ)} (hl : l ∈ logs)
    (hhash : l.id.transactionHash = transactionHash) (k : κ) (amountIn amountOut : Nat) :
    l.args ≠ .fallbackExecuted k amountIn amountOut := by
  intro hargs
  have hnone := List.findSome?_eq_none_iff.mp h l hl
  rw [if_pos hhash, hargs] at hnone
  cases hnone

/-- An idle watcher holds no fallback of the order. -/
theorem not_holds_of_idle (hidle : idle s (d.hashOrder info) = true) :
    ∀ x ∈ entries (d.hashOrder info) s.indexer.logs,
      ¬holds (s.attempts (d.hashOrder info)) x.1 := by
  intro x hx hholds
  obtain ⟨l, hl, hid, hargs⟩ := mem_entries.mp hx
  unfold idle at hidle
  split at hidle
  · rename_i transactionHash hsubmitted
    rw [hsubmitted, holds, hid] at hholds
    exact receiptOf_eq_none (Option.isNone_iff_eq_none.mp hidle) hl hholds.symm _ _ _ hargs
  · cases hidle
  · cases hidle
  all_goals
    rename_i hattempt
    rw [hattempt] at hholds
    exact hholds

end Law

end FallbackWatcher

end NeutronX
