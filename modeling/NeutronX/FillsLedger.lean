import NeutronX.AttentiveSteps
import NeutronX.Ledger

/-!
# The fills table against the chain

The event indexer inserts the rows of chunks, the fallback watcher the row
of its fallback. In a run that is attentive to an order the rows of the
order are its fills on chain, once all of these are processed
(`rows_perm`): their inputs add up to what the chain has taken off the
order, and their outputs to what the reactor recorded as paid.

The chain does not stand still while its logs are processed: the rows of a
later state are compared with the chain of an earlier one.
-/

namespace NeutronX

open Evm Function

namespace FallbackWatcher

open EventIndexer (eventIndexer Event FillRow fillOf loggedFills)
open NeutronX.System (unfilled paid chunksOf fallbacksOf)

variable {κ W : Type} [DecidableEq κ] {d : Deployment κ W}

/-! ## Rows and fills -/

/-- In `s'` the fills of the order that were logged in `s` have been
processed, and no later ones: the handlers are done with its chunks, and the
watcher has no fallback of it left to record. -/
structure Processed (info : OrderInfo) (d : Deployment κ W) (s s' : State κ W) : Prop where
  applied : ∀ l ∈ s.indexer.logs, (fillOf (d.hashOrder info) l).isSome = true →
    l ∈ s'.indexer.applied
  recorded : idle s' (d.hashOrder info) = true
  upto : ∀ r ∈ s'.indexer.db.fillsOf (d.hashOrder info), ∃ l ∈ s.indexer.logs, l.id = r.id

section Rows

variable {info : OrderInfo} {s s' : State κ W}

theorem entries_nodup {k : κ} {logs : List (Log (Event κ))} (h : (logs.map Log.id).Nodup) :
    (entries k logs).Nodup := by
  refine List.Pairwise.filterMap _ (fun l l' hne x hx x' hx' => ?_) (List.pairwise_map.mp h)
  rintro rfl
  exact hne ((fallbackEntry_eq_some.mp hx).1.symm.trans (fallbackEntry_eq_some.mp hx').1)

/-- The chunks' rows are the chunks. -/
theorem chunkRows_perm (hs : LedgerLaw d info s) (hs' : LedgerLaw d info s')
    (hlogs : ∀ l ∈ s.indexer.logs, l ∈ s'.indexer.logs) (h : Processed info d s s') :
    (((s'.indexer.db.fillsOf (d.hashOrder info)).filter fun r => r.source = .filler).map
      amounts).Perm (chunksOf (d.hashOrder info) s.chain) := by
  obtain ⟨-, hlaw⟩ := hs'.onChain.indexer.laws
  have hperm := hlaw.fills_perm hlogs hs.onChain.indexer.laws.2.logIds
    (fun l hl hfill => ?_) fun r hr _ => h.upto r hr
  · rw [← hs.onChain.chunks]
    exact hperm.map amounts
  · obtain ⟨r, hr⟩ := Option.isSome_iff_exists.mp hfill
    obtain ⟨filler, fillAmount, outputAmount, hargs, -⟩ := EventIndexer.fillOf_eq_some.mp hr
    exact hlaw.stored.applied l (h.applied l hl hfill) _ _ _ _ hargs

/-- The row of a fallback that was logged, whoever's order it is of. -/
theorem row_of_entry (hs' : LedgerLaw d info s') (hidle : idle s' (d.hashOrder info) = true)
    {x : LogId × Nat × Nat} (hx : x ∈ entries (d.hashOrder info) s'.indexer.logs) :
    ∃ r ∈ s'.indexer.db.fillsOf (d.hashOrder info), r.source = .fallback ∧
      (r.id, amounts r) = x := by
  obtain ⟨-, hlaw⟩ := hs'.onChain.indexer.laws
  obtain ⟨r, hr, hid⟩ := (hs'.attempts.recorded x hx).resolve_right
    (not_holds_of_idle hidle x hx)
  obtain ⟨l, hl, hxid, hargs⟩ := mem_entries.mp hx
  have hsame : ∀ l' ∈ s'.indexer.logs, l'.id = r.id → l' = l := by
    intro l' hl' hid'
    exact List.inj_on_of_nodup_map hlaw.logIds hl' hl (hid'.trans (hid.trans hxid))
  cases hlaw.rows r hr with
  | filler l' hash filler fillAmount outputAmount mem args row =>
      -- a chunk's log is no fallback's
      subst row
      obtain rfl := hsame l' mem rfl
      rw [hargs] at args
      cases args
  | fallback logged source =>
      obtain ⟨l', hl', hid', amountIn, amountOut, hargs'⟩ :=
        EventIndexer.fallbackLogged_iff.mp logged
      obtain rfl := hsame l' hl' hid'
      rw [hargs] at hargs'
      have hhash : r.orderHash = d.hashOrder info := (Event.fallbackExecuted.inj hargs').1.symm
      have hrow := EventIndexer.Database.mem_fillsOf.mpr ⟨hr, hhash⟩
      exact ⟨r, hrow, source,
        hs'.onChain.entry_unique (hs'.attempts.exact r hrow source) hx⟩

theorem fallbackRows_perm (hs : LedgerLaw d info s) (hs' : LedgerLaw d info s')
    (hlogs : ∀ l ∈ s.indexer.logs, l ∈ s'.indexer.logs) (h : Processed info d s s') :
    (((s'.indexer.db.fillsOf (d.hashOrder info)).filter fun r => !decide (r.source = .filler)).map
      amounts).Perm (fallbacksOf (d.hashOrder info) s.chain) := by
  obtain ⟨-, hlaw⟩ := hs'.onChain.indexer.laws
  have hrows : (((s'.indexer.db.fillsOf (d.hashOrder info)).filter
      fun r => !decide (r.source = .filler)).map fun r => (r.id, amounts r)).Perm
        (entries (d.hashOrder info) s.indexer.logs) := by
    have hnodup : ((s'.indexer.db.fillsOf (d.hashOrder info)).map FillRow.id).Nodup :=
      hlaw.rowIds.sublist (List.filter_sublist.map _)
    refine (List.perm_ext_iff_of_nodup ?_ (entries_nodup hs.onChain.indexer.laws.2.logIds)).mpr
      fun x => ?_
    · refine List.Nodup.of_map Prod.fst ?_
      rw [List.map_map]
      exact hnodup.sublist (List.filter_sublist.map _)
    · simp only [List.mem_map, List.mem_filter, Bool.not_eq_true', decide_eq_false_iff_not]
      constructor
      · rintro ⟨r, ⟨hr, hsource⟩, rfl⟩
        have hfallback : r.source = .fallback := by
          cases hcase : r.source with
          | filler => exact absurd hcase hsource
          | fallback => rfl
        obtain ⟨l', hl', hid', hargs'⟩ := mem_entries.mp (hs'.attempts.exact r hr hfallback)
        obtain ⟨l, hl, hid⟩ := h.upto r hr
        obtain rfl : l' = l :=
          List.inj_on_of_nodup_map hlaw.logIds hl' (hlogs l hl) (hid'.symm.trans hid.symm)
        exact mem_entries.mpr ⟨l', hl, hid', hargs'⟩
      · intro hx
        obtain ⟨l, hl, hid, hargs⟩ := mem_entries.mp hx
        obtain ⟨r, hr, hsource, heq⟩ := row_of_entry hs' h.recorded
          (mem_entries.mpr ⟨l, hlogs l hl, hid, hargs⟩)
        refine ⟨r, ⟨hr, ?_⟩, heq⟩
        rw [hsource]
        exact fun hfiller => by cases hfiller
  rw [← hs.onChain.fallbacks]
  have hamounts := hrows.map Prod.snd
  rw [List.map_map] at hamounts
  exact hamounts

/-- **The rows of an order are its fills on chain.** -/
theorem rows_perm (hs : LedgerLaw d info s) (hs' : LedgerLaw d info s')
    (hlogs : ∀ l ∈ s.indexer.logs, l ∈ s'.indexer.logs) (h : Processed info d s s') :
    ((s'.indexer.db.fillsOf (d.hashOrder info)).map amounts).Perm
      (chunksOf (d.hashOrder info) s.chain ++ fallbacksOf (d.hashOrder info) s.chain) := by
  have hsplit := (List.filter_append_perm (fun r => decide (r.source = .filler))
    (s'.indexer.db.fillsOf (d.hashOrder info))).map amounts
  rw [List.map_append] at hsplit
  exact hsplit.symm.trans
    ((chunkRows_perm hs hs' hlogs h).append (fallbackRows_perm hs hs' hlogs h))

end Rows

/-- **The fills of an order add up to what the chain says**, in runs that
are attentive to it: after `as` the chain has left some of the order and
paid some output, and once the fills so far are processed, after `bs`, the
rows say the same. -/
theorem fills_ledger (info : OrderInfo) (tokens : W) (block : Block) (as bs : List (Action κ W))
    (hattentive : Along d (Attentive d info) (init d tokens block) (as ++ bs))
    (hprocessed : Processed info d (run d (init d tokens block) as)
      (run d (init d tokens block) (as ++ bs))) :
    (run d (init d tokens block) (as ++ bs)).indexer.db.totalFilled (d.hashOrder info)
        + unfilled d (run d (init d tokens block) as).chain info = info.inputAmount ∧
      (run d (init d tokens block) (as ++ bs)).indexer.db.totalOutput (d.hashOrder info)
        = paid d (run d (init d tokens block) as).chain info := by
  obtain ⟨has, hbs⟩ := hattentive.append
  rw [run_append] at hprocessed ⊢
  obtain ⟨hs, horders⟩ :=
    ledgerLaw_run (ledgerLaw_init d info tokens block) (orderLaw_init d tokens block) has
  obtain ⟨hs', -⟩ := ledgerLaw_run hs horders hbs
  generalize run d (init d tokens block) as = s at *
  have hperm := rows_perm hs hs' (keepsLogs hs.onChain.indexer bs) hprocessed
  obtain ⟨hinput, houtput⟩ := hs.onChain.chain.ledgered info
  have hfilled := (hperm.map Prod.fst).sum_eq
  have hpaid := (hperm.map Prod.snd).sum_eq
  simp only [List.map_map, List.map_append, List.sum_append] at hfilled hpaid
  refine ⟨?_, ?_⟩
  · rw [← hinput]
    exact congrArg (· + unfilled d s.chain info) hfilled
  · rw [← houtput]
    exact hpaid

section Runs

/-- An order of 1000 up to block 100, of which the filler 7 takes 400. -/
def orderOf1000 : OrderInfo := ⟨1, 2, 1000, 3, 900, 100, 0, 0, 10 ^ 18, 0, 3000⟩

def filler7 : Account := ⟨7, by decide⟩

def balances : Ledger := update₂ (update₂ (fun _ _ => 0) 2 1 1000) 3 7 400

def chunk : List (Action OrderInfo Ledger) :=
  [.createOrder orderOf1000 true,
   .index (.connect 0 .partialFill 9), .index (.connect 0 .fallback 9),
   .index (.connect 0 .cancel 9),
   .transaction 1 (.leaf (.register filler7 80 ⟨orderOf1000, [1]⟩ 400)),
   .transaction 2 (.leaf (.executePartialChunk filler7 ⟨orderOf1000, [1]⟩ 400)),
   .elapse ⟨85, 0⟩]

/-- The router pays 600 for what remains. -/
def swap600 : List (List (Call (System.Label OrderInfo Ledger))) :=
  [[.leaf (.tokens fun w => update₂ (update₂ w 2 102 0) 3 1 (w 3 1 + 600))]]

/-- The watcher executes the fallback. -/
def ownFallback : List (Action OrderInfo Ledger) :=
  [.select 94, .start orderOf1000, .read orderOf1000,
   .submit orderOf1000 [1] "uniswap" 106 0 3, .mineSent 3 true swap600]

/-- Someone else does. -/
def othersFallback : List (Action OrderInfo Ledger) :=
  [.transaction 3 (.mk (.executeFallback ⟨orderOf1000, [1]⟩ 106 true 0) swap600), .elapse ⟨1, 0⟩]

def recorded : List (Action OrderInfo Ledger) :=
  [.receipt orderOf1000 none, .mark orderOf1000 .done, .record orderOf1000 .done, .elapse ⟨1, 0⟩]

/-- The handlers of block 95, all answered. -/
def processed : List (Action OrderInfo Ledger) :=
  [.index (.block 0 0 95),
   .index (.query 0 true), .index (.take 0), .index (.exec 0 .done), .index (.exec 0 .done),
   .index (.exec 0 .done), .index (.advance 0), .index (.store 0 .done),
   .index (.query 0 true), .index (.take 0), .index (.exec 0 .done), .index (.advance 0),
   .index (.store 0 .done)]

/-- The state after a run from block 10 on. -/
def after (as : List (Action OrderInfo Ledger)) : State OrderInfo Ledger :=
  run Ledger.deployment (init Ledger.deployment balances ⟨10, 0⟩) as

/-- Nothing of the order is left on chain, and it was paid 1000. -/
theorem fills_ledger_mixed :
    (after ((chunk ++ ownFallback) ++ (recorded ++ processed))).indexer.db.totalFilled
        (Ledger.deployment.hashOrder orderOf1000) + 0 = orderOf1000.inputAmount ∧
      (after ((chunk ++ ownFallback) ++ (recorded ++ processed))).indexer.db.totalOutput
        (Ledger.deployment.hashOrder orderOf1000) = 1000 := by
  have hattentive : Along Ledger.deployment (Attentive Ledger.deployment orderOf1000)
      (init Ledger.deployment balances ⟨10, 0⟩)
      ((chunk ++ ownFallback) ++ (recorded ++ processed)) := by
    decide +kernel
  have hprocessed : Processed orderOf1000 Ledger.deployment (after (chunk ++ ownFallback))
      (after ((chunk ++ ownFallback) ++ (recorded ++ processed))) :=
    ⟨by decide +kernel, by decide +kernel, by decide +kernel⟩
  have hunfilled : unfilled Ledger.deployment (after (chunk ++ ownFallback)).chain orderOf1000
      = 0 := by
    decide +kernel
  have hpaid : paid Ledger.deployment (after (chunk ++ ownFallback)).chain orderOf1000
      = 1000 := by
    decide +kernel
  have hledger := fills_ledger orderOf1000 _ _ _ _ hattentive hprocessed
  unfold after at hunfilled hpaid
  rw [hunfilled, hpaid] at hledger
  exact hledger

/-- When someone else executes the fallback, all its events are processed
too, but its 600 are in no row. -/
theorem fallback_of_others_missing :
    Processed orderOf1000 Ledger.deployment (after (chunk ++ othersFallback))
      (after ((chunk ++ othersFallback) ++ processed)) ∧
    (∀ l ∈ (after (chunk ++ othersFallback)).indexer.logs,
      l ∈ (after ((chunk ++ othersFallback) ++ processed)).indexer.applied) ∧
    unfilled Ledger.deployment (after (chunk ++ othersFallback)).chain orderOf1000 = 0 ∧
    paid Ledger.deployment (after (chunk ++ othersFallback)).chain orderOf1000 = 1000 ∧
    (after ((chunk ++ othersFallback) ++ processed)).indexer.db.totalFilled orderOf1000 = 400 ∧
    (after ((chunk ++ othersFallback) ++ processed)).indexer.db.totalOutput orderOf1000 = 400 := by
  refine ⟨⟨by decide +kernel, by decide +kernel, by decide +kernel⟩, by decide +kernel, ?_⟩
  decide +kernel

end Runs

end FallbackWatcher

end NeutronX
