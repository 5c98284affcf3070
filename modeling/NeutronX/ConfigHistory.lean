import NeutronX.ConfigRecords
import NeutronX.Ledger

/-!
# The history of the stake configuration

What the rows of `stake_config_history` say of the chain, whatever is sent
to it, however the handlers of the sessions of the indexer interleave and
whichever of their requests fail.

A row is about an event, and the configuration in it is the one that was
live at the end of the event's block, or that the event's transaction
queued (`history_mirrored`). Where no insert fails, the rows up to the
checkpoint are complete, and they determine the configuration that was live
at the end of every block in between (`history_complete`).
-/

namespace NeutronX

open Evm Function

namespace StakeConfigIndexer

open Indexer (Works Sourced Final)

variable {waiting : Nat → StakeConfig} {s : IndexerState}

/-! ## The chain -/

theorem tableLaw_mined (h : TableLaw waiting s) (stakeConfig : StakeConfig) :
    TableLaw waiting (stakeConfigIndexer.run s [.other (.mined stakeConfig), .mine]) := by
  -- only the block that becomes final gets its configuration
  have hmono : ∀ l : Log Event, l.blockNumber < s.number → ∀ row, Records s.db waiting l row →
      Records (learn (.mined stakeConfig) s.number s.db) waiting l row :=
    fun l hlt row hrow => hrow.mono (update_of_ne (Nat.ne_of_lt hlt) ..) rfl
  have hsourced := Indexer.sourced_step (P := stakeConfigIndexer) h.sourced
    (.other (.mined stakeConfig))
  have hfinal := Indexer.final_step (P := stakeConfigIndexer) h.final (.other (.mined stakeConfig))
  refine ⟨Indexer.sourced_step (P := stakeConfigIndexer) hsourced .mine,
    Indexer.final_step (P := stakeConfigIndexer) hfinal .mine, h.queued, fun id row hrow => ?_,
    h.applied, h.reads, fun l log e c hworks => ?_⟩
  · obtain ⟨l, hl, hid, hlt, hrecords⟩ := h.rows id row hrow
    exact ⟨l, hl, hid, Nat.lt_succ_of_lt hlt, hmono l hlt row hrecords⟩
  · obtain ⟨hlog, hrecords⟩ := h.inserts l log e c hworks
    exact ⟨hlog, hmono l (h.final.works hworks) _ hrecords⟩

/-- The rule for blocks. -/
theorem mine_rule {I : IndexerState → Prop} {stakeConfig : StakeConfig}
    (hmined : ∀ s, I s → I (stakeConfigIndexer.run s [.other (.mined stakeConfig), .mine]))
    {s : IndexerState} (h : I s) (n : Nat) : I (mine stakeConfig n s) := by
  induction n generalizing s with
  | zero => exact h
  | succ n ih => exact ih (hmined s h)

theorem mem_numbered {transactionHash : Nat} {p : LogId × Event} :
    ∀ {es : List Event}, p ∈ numbered transactionHash es →
      p.1.transactionHash = transactionHash ∧ p.1.logIndex < es.length ∧ p.2 ∈ es
  | [], h => absurd h List.not_mem_nil
  | e :: es, h => by
      rcases List.mem_cons.mp h with rfl | h
      · exact ⟨rfl, Nat.lt_succ_self _, List.mem_cons_self ..⟩
      · obtain ⟨hhash, hindex, hmem⟩ := mem_numbered h
        exact ⟨hhash, Nat.lt_succ_of_lt hindex, List.mem_cons_of_mem _ hmem⟩

theorem numbered_nodup (transactionHash : Nat) :
    ∀ es : List Event, ((numbered transactionHash es).map Prod.fst).Nodup
  | [] => List.nodup_nil
  | e :: es => by
      rw [numbered, List.map_cons, List.nodup_cons]
      refine ⟨fun hmem => ?_, numbered_nodup transactionHash es⟩
      obtain ⟨p, hp, hid⟩ := List.mem_map.mp hmem
      have hindex := (mem_numbered hp).2.1
      rw [hid] at hindex
      exact Nat.lt_irrefl _ hindex

theorem numbered_args (transactionHash number : Nat) :
    ∀ es : List Event, ((numbered transactionHash es).map fun e =>
      (⟨e.1, number, e.2⟩ : Log Event)).map Log.args = es
  | [] => rfl
  | e :: es => congrArg (e :: ·) (numbered_args transactionHash number es)

section Auction

open FillAuction (AuctionStep AuctionRun)

variable {κ : Type}

/-- What is logged of the configuration, newest first: a change of what is
live is announced. -/
def Announced (a a' : AuctionState κ) : Prop :=
  ∃ new, configLogs a' = new ++ configLogs a ∧
    (a'.config = a.config ∨ ∃ e ∈ new, e.eventType.isLive = true)

theorem Announced.quiet {a a' : AuctionState κ} (hlogs : configLogs a' = configLogs a)
    (hconfig : a'.config = a.config) : Announced a a' := ⟨[], hlogs, Or.inl hconfig⟩

theorem Announced.trans {a a' a'' : AuctionState κ} (h : Announced a a')
    (h' : Announced a' a'') : Announced a a'' := by
  obtain ⟨new, hnew, hlive⟩ := h
  obtain ⟨new', hnew', hlive'⟩ := h'
  refine ⟨new' ++ new, by rw [hnew', hnew, List.append_assoc], ?_⟩
  rcases hlive' with hsame' | ⟨e, he, hlive'⟩
  · rcases hlive with hsame | ⟨e, he, hlive⟩
    · exact Or.inl (hsame'.trans hsame)
    · exact Or.inr ⟨e, List.mem_append_right _ he, hlive⟩
  · exact Or.inr ⟨e, List.mem_append_left _ he, hlive'⟩

variable [DecidableEq κ]

/-- A settlement is logged otherwise. -/
theorem onFillSuccess_announced {p : AuctionParams} {blk : Block} {a a' : AuctionState κ}
    {msgSender : Address} {orderHash : κ} {filler : Address} {actual remainingAtFill : Nat}
    (h : FillAuction.onFillSuccess p blk a msgSender orderHash filler actual remainingAtFill
      = .ok a') : Announced a a' := by
  simp only [FillAuction.onFillSuccess, bind_eq_ok, require_eq_ok, checkedSub_eq_ok,
    FillAuction.credit_eq_ok] at h
  obtain ⟨_, -, _, -, refund, -, _, ⟨-, rfl⟩, _, ⟨-, rfl⟩, h⟩ := h
  split at h
  · simp only [bind_eq_ok, FillAuction.credit_eq_ok, pure_eq_ok] at h
    obtain ⟨_, ⟨-, rfl⟩, rfl⟩ := h
    exact .quiet rfl rfl
  · obtain rfl := pure_eq_ok.mp h
    exact .quiet rfl rfl

theorem step_announced {p : AuctionParams} {a a' : AuctionState κ} (h : AuctionStep p a a') :
    Announced a a' := by
  cases h with
  | setReactor blk msgSender reactor_ h =>
      obtain ⟨-, rfl⟩ := FillAuction.setReactor_spec h
      exact .quiet rfl rfl
  | register oracle blk msgSender msgValue args hfiller h =>
      obtain ⟨snap, -, rfl⟩ := FillAuction.register_spec h
      exact .quiet rfl rfl
  | onFillSuccess blk msgSender orderHash filler actual remainingAtFill h =>
      exact onFillSuccess_announced h
  | slash view blk msgSender orderHash filler h =>
      obtain ⟨-, -, -, rfl⟩ := FillAuction.slash_eq_ok.mp h
      exact .quiet rfl rfl
  | releaseRegistration view blk orderHash filler h =>
      obtain ⟨-, -, rfl⟩ := (FillAuction.releaseRegistration_eq_ok (p := p)).mp h
      exact .quiet rfl rfl
  | withdrawSend msgSender to_ h =>
      obtain ⟨-, -, rfl⟩ := FillAuction.withdrawSend_spec h
      exact .quiet rfl rfl
  | withdrawReturn accepted h =>
      obtain rfl := FillAuction.withdrawReturn_spec h
      exact .quiet rfl rfl
  | grantRole msgSender role account h =>
      obtain rfl := FillAuction.grantRole_spec h
      exact .quiet rfl rfl
  | revokeRole msgSender role account h =>
      obtain rfl := FillAuction.revokeRole_spec h
      exact .quiet rfl rfl
  | renounceRole msgSender role callerConfirmation h =>
      obtain rfl := FillAuction.renounceRole_spec h
      exact .quiet rfl rfl
  | setStakeConfig blk msgSender c h =>
      obtain ⟨-, hqueued | rfl⟩ := FillAuction.setStakeConfig_spec h
      · obtain ⟨effective, rfl⟩ := FillAuction.queueConfig_spec hqueued
        exact ⟨[.pendingConfigQueued effective], rfl, Or.inl rfl⟩
      · exact ⟨[.stakeConfigUpdated], rfl, Or.inr ⟨_, List.mem_singleton_self _, rfl⟩⟩
  | commitPending blk h =>
      obtain rfl := FillAuction.commitPending_spec h
      exact ⟨[.stakeConfigUpdated], rfl, Or.inr ⟨_, List.mem_singleton_self _, rfl⟩⟩
  | cancelPendingConfig blk msgSender h =>
      obtain rfl := FillAuction.cancelPendingConfig_spec h
      exact ⟨[.pendingConfigCancelled], rfl, Or.inl rfl⟩
  | rollback blk msgSender h =>
      obtain rfl := FillAuction.rollback_spec h
      exact ⟨[.configRollback], rfl, Or.inr ⟨_, List.mem_singleton_self _, rfl⟩⟩
  | forceEth amount h =>
      obtain ⟨-, rfl⟩ := FillAuction.forceEth_spec h
      exact .quiet rfl rfl

theorem run_announced {p : AuctionParams} {a a' : AuctionState κ} (h : AuctionRun p a a') :
    Announced a a' := by
  induction h with
  | refl => exact .quiet rfl rfl
  | tail _ hstep ih => exact ih.trans (step_announced hstep)

end Auction

section Transactions

open FallbackWatcher (added added_append afterCall)
open NeutronX.System (Label)

variable {κ W : Type} [DecidableEq κ] {d : Deployment κ W}

theorem afterCall_announced (call : Call (Label κ W)) (chain : World κ W) :
    Announced chain.auction (afterCall d call chain).auction :=
  run_announced (System.segments_auction (System.run_segments (d := d) [.call call] chain))

/-- What a transaction logs stands before what was logged. -/
theorem newEvents_append (call : Call (Label κ W)) (chain : World κ W) :
    newEvents chain (afterCall d call chain) ++ configLogs chain.auction
      = configLogs (afterCall d call chain).auction := by
  obtain ⟨new, hnew, -⟩ := afterCall_announced (d := d) call chain
  exact added_append ⟨new, hnew.symm⟩

omit [DecidableEq κ] in
theorem newEvents_eq {chain chain' : World κ W} {new : List Event}
    (h : configLogs chain'.auction = new ++ configLogs chain.auction) :
    newEvents chain chain' = new := by
  rw [newEvents, h, added]
  simp

/-- The configuration in the calldata is the one that the transaction
queued. -/
theorem queued_calldata {chain : World κ W} {call : Call (Label κ W)} {direct : Bool}
    {c : StakeConfig} (hc : calldataOf direct call = some c) {e : Nat}
    (he : .pendingConfigQueued e ∈ newEvents chain (afterCall d call chain)) :
    (afterCall d call chain).auction.pending = c := by
  unfold calldataOf at hc
  split at hc
  · rename_i msgSender c' turns
    split at hc
    · obtain rfl := Option.some.inj hc
      have hsame : newEvents chain chain = [] := newEvents_eq rfl
      rw [afterCall, stepTx, Evm.exec, System.body] at he ⊢
      cases hset : System.onAuction chain fun a =>
          System.AuctionOp.run (.setStakeConfig msgSender c') chain.block a with
      | error err =>
          rw [hset, Prog.attempt_error, resume_revert, hsame] at he
          exact absurd he List.not_mem_nil
      | ok chain' =>
          rw [hset, Prog.attempt_ok, resume_done] at he
          rw [Prog.attempt_ok, resume_done]
          obtain ⟨auction, hauction, rfl⟩ := System.onAuction_spec hset
          obtain ⟨-, hqueued | rfl⟩ := FillAuction.setStakeConfig_spec hauction
          · obtain ⟨effective, rfl⟩ := FillAuction.queueConfig_spec hqueued
            rfl
          · let applied := FillAuction.applyConfig chain.block chain.auction c'
            have hevents : newEvents chain { chain with auction := applied }
                = [.stakeConfigUpdated] := newEvents_eq rfl
            rw [hevents] at he
            cases List.mem_singleton.mp he
    · cases hc
  · cases hc

/-! ## What holds of every run -/

/-- What is live changes with an event that says so. -/
structure Timeline (config : StakeConfig) (s : IndexerState) : Prop where
  live : ∀ b, b < s.number → s.db.stakeConfig b = config ∨
    ∃ l ∈ s.logs, b < l.blockNumber ∧ l.args.eventType.isLive = true
  between : ∀ b b', b ≤ b' → b' < s.number → s.db.stakeConfig b' = s.db.stakeConfig b ∨
    ∃ l ∈ s.logs, b < l.blockNumber ∧ l.blockNumber ≤ b' ∧ l.args.eventType.isLive = true

structure HistoryLaw (s : State κ W) : Prop where
  table : TableLaw s.waiting s.indexer
  logs : s.indexer.logs.map Log.args = configLogs s.chain.auction
  hashes : ∀ l ∈ s.indexer.logs, l.id.transactionHash ∈ s.used
  ids : (s.indexer.logs.map Log.id).Nodup
  timeline : Timeline s.chain.auction.config s.indexer

omit [DecidableEq κ] in
theorem historyLaw_init (tokens : W) (block : Block) : HistoryLaw (init d tokens block) where
  table := tableLaw_init block.number _ fun _ => rfl
  logs := rfl
  hashes := fun _ hl => absurd hl List.not_mem_nil
  ids := List.nodup_nil
  timeline := ⟨fun _ _ => Or.inl rfl, fun _ _ _ _ => Or.inl rfl⟩

/-- The logs of a transaction are new. -/
theorem transaction_eq {s : State κ W} (h : HistoryLaw s) {transactionHash : Nat}
    (hunused : transactionHash ∉ s.used) (call : Call (Label κ W)) (direct : Bool) :
    (transaction d s transactionHash call direct).indexer
      = { s.indexer with
          db := learn (.sent transactionHash (calldataOf direct call)) s.indexer.number s.indexer.db
          logs := (numbered transactionHash (newEvents s.chain (afterCall d call s.chain))).map
            (fun e => ⟨e.1, s.indexer.number, e.2⟩) ++ s.indexer.logs } := by
  have hfresh : ∀ p ∈ numbered transactionHash (newEvents s.chain (afterCall d call s.chain)),
      ∀ l ∈ s.indexer.logs, l.id ≠ p.1 := by
    intro p hp l hl heq
    have hused := h.hashes l hl
    rw [heq, (mem_numbered hp).1] at hused
    exact hunused hused
  rw [transaction, if_neg hunused]
  exact if_pos ⟨numbered_nodup _ _, hfresh⟩

theorem tableLaw_transaction {s : State κ W} (h : HistoryLaw s) {transactionHash : Nat}
    (hunused : transactionHash ∉ s.used) (call : Call (Label κ W)) (direct : Bool) :
    TableLaw (update s.waiting transactionHash (afterCall d call s.chain).auction.pending)
      (transaction d s transactionHash call direct).indexer := by
  have hold : ∀ l ∈ s.indexer.logs, l.id.transactionHash ≠ transactionHash := by
    intro l hl heq
    have hused := h.hashes l hl
    rw [heq] at hused
    exact hunused hused
  have hmono : ∀ l ∈ s.indexer.logs, ∀ row, Records s.indexer.db s.waiting l row →
      Records (learn (.sent transactionHash (calldataOf direct call)) s.indexer.number s.indexer.db)
        (update s.waiting transactionHash (afterCall d call s.chain).auction.pending) l row :=
    fun l hl row hrow => hrow.mono rfl (update_of_ne (hold l hl) ..)
  have hsourced : Sourced (transaction d s transactionHash call direct).indexer := by
    rw [transaction, if_neg hunused]
    exact Indexer.sourced_step (P := stakeConfigIndexer)
      (Indexer.sourced_step (P := stakeConfigIndexer) h.table.sourced (.other _)) (.emit _)
  have hfinal : Final (transaction d s transactionHash call direct).indexer := by
    rw [transaction, if_neg hunused]
    exact Indexer.final_step (P := stakeConfigIndexer)
      (Indexer.final_step (P := stakeConfigIndexer) h.table.final (.other _)) (.emit _)
  rw [transaction_eq h hunused] at hsourced hfinal ⊢
  refine ⟨hsourced, hfinal, fun l hl e hargs c hc => ?_, fun id row hrow => ?_, h.table.applied,
    h.table.reads, fun l log e c hworks => ?_⟩
  · rcases List.mem_append.mp hl with hl | hl
    · obtain ⟨p, hp, rfl⟩ := List.mem_map.mp hl
      obtain ⟨hhash, -, hmem⟩ := mem_numbered hp
      change update s.indexer.db.calldata transactionHash _ p.1.transactionHash = some c at hc
      change update s.waiting transactionHash _ p.1.transactionHash = c
      rw [hhash, update_self] at hc ⊢
      change p.2 = _ at hargs
      rw [hargs] at hmem
      exact queued_calldata hc hmem
    · change update s.indexer.db.calldata transactionHash _ l.id.transactionHash = some c at hc
      rw [update_of_ne (hold l hl)] at hc ⊢
      exact h.table.queued l hl e hargs c hc
  · obtain ⟨l, hl, hid, hlt, hrecords⟩ := h.table.rows id row hrow
    exact ⟨l, List.mem_append_right _ hl, hid, hlt, hmono l hl row hrecords⟩
  · have hworks : Works s.indexer l (.insert log e c) := hworks
    obtain ⟨hlog, hrecords⟩ := h.table.inserts l log e c hworks
    exact ⟨hlog, hmono l (h.table.sourced.works hworks) _ hrecords⟩

theorem historyLaw_transaction {s : State κ W} (h : HistoryLaw s) (transactionHash : Nat)
    (call : Call (Label κ W)) (direct : Bool) :
    HistoryLaw (transaction d s transactionHash call direct) := by
  by_cases hunused : transactionHash ∈ s.used
  · rw [transaction, if_pos hunused]
    exact h
  have htable := tableLaw_transaction (d := d) h hunused call direct
  have heq := transaction_eq (d := d) h hunused call direct
  obtain ⟨new, hnew, hlive⟩ := afterCall_announced (d := d) call s.chain
  have hevents := newEvents_eq hnew
  have hchain : (transaction d s transactionHash call direct).chain = afterCall d call s.chain := by
    rw [transaction, if_neg hunused]
  have hused : (transaction d s transactionHash call direct).used = transactionHash :: s.used := by
    rw [transaction, if_neg hunused]
  have hwaiting : (transaction d s transactionHash call direct).waiting
      = update s.waiting transactionHash (afterCall d call s.chain).auction.pending := by
    rw [transaction, if_neg hunused]
  refine ⟨by rw [hwaiting]; exact htable, ?_, fun l hl => ?_, ?_, ?_⟩
  · rw [heq, hchain, List.map_append, numbered_args, h.logs]
    exact newEvents_append call s.chain
  · rw [hused]
    rw [heq] at hl
    rcases List.mem_append.mp hl with hl | hl
    · obtain ⟨p, hp, rfl⟩ := List.mem_map.mp hl
      rw [(mem_numbered hp).1]
      exact List.mem_cons_self ..
    · exact List.mem_cons_of_mem _ (h.hashes l hl)
  · rw [heq, List.map_append, List.map_map]
    refine List.Nodup.append (numbered_nodup _ _) h.ids fun id hid hold => ?_
    obtain ⟨p, hp, rfl⟩ := List.mem_map.mp hid
    obtain ⟨l, hl, hlid⟩ := List.mem_map.mp hold
    have hlused := h.hashes l hl
    rw [hlid] at hlused
    exact hunused ((mem_numbered hp).1 ▸ hlused)
  · rw [heq, hchain]
    refine ⟨fun b hb => ?_, fun b b' hle hb' => ?_⟩
    · rcases hlive with hsame | ⟨e, he, hisLive⟩
      · rw [hsame]
        exact (h.timeline.live b hb).imp_right fun ⟨l, hl, hrest⟩ =>
          ⟨l, List.mem_append_right _ hl, hrest⟩
      · rw [← hevents] at he
        obtain ⟨p, hp, rfl⟩ : ∃ p ∈ numbered transactionHash
            (newEvents s.chain (afterCall d call s.chain)), p.2 = e := by
          have hargs := numbered_args transactionHash s.indexer.number
            (newEvents s.chain (afterCall d call s.chain))
          rw [← hargs, List.map_map] at he
          obtain ⟨p, hp, hpe⟩ := List.mem_map.mp he
          exact ⟨p, hp, hpe⟩
        exact Or.inr ⟨⟨p.1, s.indexer.number, p.2⟩,
          List.mem_append_left _ (List.mem_map.mpr ⟨p, hp, rfl⟩), hb, hisLive⟩
    · exact (h.timeline.between b b' hle hb').imp_right fun ⟨l, hl, hrest⟩ =>
        ⟨l, List.mem_append_right _ hl, hrest⟩

/-- The block that becomes final is after all that were. -/
theorem timeline_mined {config : StakeConfig} {s : IndexerState} (h : Timeline config s)
    (hsourced : Sourced s) :
    Timeline config (stakeConfigIndexer.run s [.other (.mined config), .mine]) := by
  have hnow : ∀ b, update s.db.stakeConfig s.number config b
      = if b = s.number then config else s.db.stakeConfig b := fun b => update_apply ..
  refine ⟨fun b hb => ?_, fun b b' hle hb' => ?_⟩
  · change update s.db.stakeConfig s.number config b = config ∨ _
    rw [hnow]
    split
    · exact Or.inl rfl
    · rename_i hne
      exact h.live b (Nat.lt_of_le_of_ne (Nat.le_of_lt_succ hb) hne)
  · change update s.db.stakeConfig s.number config b'
      = update s.db.stakeConfig s.number config b ∨ _
    rw [hnow, hnow]
    by_cases hlast : b' = s.number
    · rw [if_pos hlast]
      split
      · exact Or.inl rfl
      · rename_i hne
        have hlt : b < s.number := Nat.lt_of_le_of_ne (hlast ▸ hle) hne
        rcases h.live b hlt with hsame | ⟨l, hl, hafter, hlive⟩
        · exact Or.inl hsame.symm
        · exact Or.inr ⟨l, hl, hafter, hlast ▸ hsourced.number l hl, hlive⟩
    · have hlt : b' < s.number := Nat.lt_of_le_of_ne (Nat.le_of_lt_succ hb') hlast
      rw [if_neg hlast, if_neg (Nat.ne_of_lt (Nat.lt_of_le_of_lt hle hlt))]
      exact h.between b b' hle hlt

/-- The step lemma. -/
theorem historyLaw_step (s : State κ W) (a : Action κ W) (h : HistoryLaw s) :
    HistoryLaw (step d s a) := by
  cases a with
  | transaction transactionHash call direct =>
      exact historyLaw_transaction h transactionHash call direct
  | elapse t =>
      let config := s.chain.auction.config
      have hmined : TableLaw s.waiting (mine config t.blocks s.indexer) ∧
          (mine config t.blocks s.indexer).logs = s.indexer.logs ∧
          Timeline config (mine config t.blocks s.indexer) :=
        mine_rule (I := fun s' => TableLaw s.waiting s' ∧ s'.logs = s.indexer.logs ∧
            Timeline config s')
          (fun s' ⟨htable, hlogs, htimeline⟩ => ⟨tableLaw_mined htable config, hlogs,
            timeline_mined htimeline htable.sourced⟩)
          ⟨h.table, rfl, h.timeline⟩ t.blocks
      obtain ⟨htable, hlogs, htimeline⟩ := hmined
      refine ⟨htable, ?_, fun l hl => ?_, ?_, htimeline⟩
      · change List.map Log.args (mine _ t.blocks s.indexer).logs = _
        rw [hlogs]
        exact h.logs
      · change l ∈ (mine _ t.blocks s.indexer).logs at hl
        rw [hlogs] at hl
        exact h.hashes l hl
      · change (List.map Log.id (mine _ t.blocks s.indexer).logs).Nodup
        rw [hlogs]
        exact h.ids
  | index a =>
      have hkept := kept_handle s.indexer a
      refine ⟨tableLaw_handle h.table a, ?_, fun l hl => ?_, ?_, ?_⟩
      · change List.map Log.args (handle s.indexer a).logs = _
        rw [hkept.logs]
        exact h.logs
      · change l ∈ (handle s.indexer a).logs at hl
        rw [hkept.logs] at hl
        exact h.hashes l hl
      · change (List.map Log.id (handle s.indexer a).logs).Nodup
        rw [hkept.logs]
        exact h.ids
      · change Timeline _ (handle s.indexer a)
        refine ⟨?_, ?_⟩
        · rw [hkept.number, hkept.stakeConfig, hkept.logs]
          exact h.timeline.live
        · rw [hkept.number, hkept.stakeConfig, hkept.logs]
          exact h.timeline.between

theorem historyLaw_run (tokens : W) (block : Block) (as : List (Action κ W)) :
    HistoryLaw (run d (init d tokens block) as) :=
  Along.invariant (fun s a hs _ => historyLaw_step s a hs) (historyLaw_init tokens block)
    (along_true as _)

theorem rows_step (s : State κ W) (a : Action κ W) {id : LogId} {row : HistoryRow}
    (h : s.indexer.db.history id = some row) : (step d s a).indexer.db.history id = some row := by
  cases a with
  | transaction transactionHash call direct =>
      rw [step, transaction]
      split
      · exact h
      · change (Indexer.emit (stakeConfigIndexer.step s.indexer _) _).db.history id = some row
        rw [Indexer.emit]
        split <;> exact h
  | elapse t =>
      exact mine_rule (I := fun s' : IndexerState => s'.db.history id = some row)
        (fun _ hs' => hs') h t.blocks
  | index a => exact (kept_handle s.indexer a).rows id row h

/-- **The rows are true.** Whatever is sent to the chain, however handlers,
sessions and crashes interleave and whatever fails: the indexer has the logs
of the auction, every row is the record of one of them in a final block, and
no row changes. -/
theorem history_mirrored (tokens : W) (block : Block) (as as' : List (Action κ W)) :
    let s := run d (init d tokens block) as
    s.indexer.logs.map Log.args = configLogs s.chain.auction ∧
      (∀ id row, s.indexer.db.history id = some row → ∃ l ∈ s.indexer.logs, l.id = id ∧
        l.blockNumber < s.indexer.number ∧ Records s.indexer.db s.waiting l row) ∧
      ∀ id row, s.indexer.db.history id = some row →
        (run d s as').indexer.db.history id = some row := by
  intro s
  have hlaw : HistoryLaw s := historyLaw_run tokens block as
  refine ⟨hlaw.logs, hlaw.table.rows, fun id row hrow => ?_⟩
  exact Along.invariant (I := fun s' : State κ W => s'.indexer.db.history id = some row)
    (fun s' a hs' _ => rows_step s' a hs') hrow (along_true as' s)

theorem covered_step {s : State κ W} {a : Action κ W}
    (h : stakeConfigIndexer.Covered s.indexer) (ha : Inserts s a) :
    stakeConfigIndexer.Covered (step d s a).indexer := by
  cases a with
  | transaction transactionHash call direct =>
      rw [step, transaction]
      split
      · exact h
      · exact Indexer.covered_step _ (.emit _) (Indexer.covered_step _ (.other _) h trivial) trivial
  | elapse t =>
      exact mine_rule (fun s' hs' => Indexer.covered_step _ .mine
        (Indexer.covered_step s' (.other _) hs' trivial) trivial) h t.blocks
  | index a =>
      refine covered_handle h fun i outcome heq l log e c hhand => ?_
      subst heq
      exact ha l log e c hhand

/-- No row says that what is live changed after `b` and up to `b'`. -/
def Unchanged (db : Database) (b b' : Nat) : Prop :=
  ∀ id row, db.history id = some row → row.eventType.isLive = true → b < row.blockNumber →
    b' < row.blockNumber

/-- **The rows are complete.** Where no insert fails, every event between
the block the indexer started with and its checkpoint has its row, and what
was live at the end of a block there was live before unless a row says
otherwise. -/
theorem history_complete {tokens : W} {block : Block} {as : List (Action κ W)}
    (h : Along (step d) Inserts (init d tokens block) as) {first last : Nat}
    (hfirst : (run d (init d tokens block) as).indexer.startBlock () = some first)
    (hlast : (run d (init d tokens block) as).indexer.checkpoint () = some last) :
    let s := run d (init d tokens block) as
    (∀ l ∈ s.indexer.logs, first < l.blockNumber → l.blockNumber ≤ last →
      ∃ row, s.indexer.db.history l.id = some row) ∧
    ∀ b b', first ≤ b → b ≤ b' → b' ≤ last → Unchanged s.indexer.db b b' →
      s.indexer.db.stakeConfig b' = s.indexer.db.stakeConfig b := by
  intro s
  have hlaw : HistoryLaw s := historyLaw_run tokens block as
  have hcovered : stakeConfigIndexer.Covered s.indexer :=
    Along.invariant (I := fun s' : State κ W => stakeConfigIndexer.Covered s'.indexer)
      (fun _ _ hs' ha => covered_step hs' ha) (Indexer.covered_init _ _) h
  obtain ⟨hfinal, hupto⟩ := hcovered.checkpoint () last hlast
  have hrows : ∀ l ∈ s.indexer.logs, first < l.blockNumber → l.blockNumber ≤ last →
      ∃ row, s.indexer.db.history l.id = some row := by
    intro l hl hafter hle
    refine Option.isSome_iff_exists.mp (hlaw.table.applied l (hupto l ⟨hl, ?_, ?_⟩ hle))
    · cases hargs : l.args with
      | stakeConfigUpdated => exact ⟨isStakeConfigUpdated, by simp [stakeConfigIndexer], rfl⟩
      | pendingConfigQueued e => exact ⟨isPendingConfigQueued, by simp [stakeConfigIndexer], rfl⟩
      | pendingConfigCancelled =>
          exact ⟨isPendingConfigCancelled, by simp [stakeConfigIndexer], rfl⟩
      | configRollback => exact ⟨isConfigRollback, by simp [stakeConfigIndexer], rfl⟩
    · intro o ho
      rw [hfirst] at ho
      cases ho
      exact hafter
  refine ⟨hrows, fun b b' hb hle hb' hunchanged => ?_⟩
  rcases hlaw.timeline.between b b' hle (Nat.lt_of_le_of_lt hb' hfinal) with
    hsame | ⟨l, hl, hafter, hupto', hlive⟩
  · exact hsame
  · -- the event has its row
    obtain ⟨row, hrow⟩ := hrows l hl (Nat.lt_of_le_of_lt hb hafter) (Nat.le_trans hupto' hb')
    obtain ⟨l', hl', hid, -, hrecords⟩ := hlaw.table.rows l.id row hrow
    obtain rfl : l' = l := List.inj_on_of_nodup_map hlaw.ids hl' hl hid
    have hlater := hunchanged l'.id row hrow (by rw [hrecords.eventType]; exact hlive)
      (by rw [hrecords.blockNumber]; exact hafter)
    rw [hrecords.blockNumber] at hlater
    omega

/-- A floor of 1 wei goes live in block 11 and is rolled back in block 12. -/
def floorRolledBack : List (Action OrderInfo Ledger) :=
  let admin : Account := ⟨104, by decide⟩
  let floored : StakeConfig := { DynamicStakeLib.defaultStakeConfig with minCollateral := 1 }
  [.transaction 1 (.leaf (.auctionOp (.grantRole admin .guardian 8))) true,
   .transaction 2 (.leaf (.auctionOp (.grantRole admin .paramAdmin 9))) true,
   .elapse ⟨1, 12⟩,
   .index (.connect 0 () 10),
   .transaction 3 (.leaf (.auctionOp (.setStakeConfig ⟨9, by decide⟩ floored))) true,
   .elapse ⟨1, 12⟩,
   .transaction 4 (.leaf (.auctionOp (.rollback ⟨8, by decide⟩))) true,
   .elapse ⟨1, 12⟩,
   .index (.block 0 0 12),
   .index (.query 0 true),
   .index (.take 0), .index (.exec 0 .done), .index (.exec 0 .done),
   .index (.take 0), .index (.exec 0 .done), .index (.exec 0 .done),
   .index (.advance 0), .index (.store 0 .done)]

theorem inserts_floorRolledBack :
    Along (step Ledger.deployment) Inserts (init Ledger.deployment (fun _ _ => 0) ⟨10, 100⟩)
      floorRolledBack :=
  ⟨trivial, trivial, trivial, trivial, trivial, trivial, trivial, trivial, trivial, trivial,
    trivial, fun _ _ _ _ _ => rfl, fun _ _ _ _ _ => rfl, trivial, fun _ _ _ _ _ => rfl,
    fun _ _ _ _ _ => rfl, trivial, trivial, trivial⟩

theorem history_complete_rolledBack :
    ∃ s : IndexerState, (s.db.history ⟨3, 0⟩).isSome = true ∧
      (s.db.stakeConfig 11).minCollateral = 1 ∧
      ∀ b b', 10 ≤ b → b ≤ b' → b' ≤ 12 → Unchanged s.db b b' →
        s.db.stakeConfig b' = s.db.stakeConfig b := by
  have hfirst : (run Ledger.deployment (init Ledger.deployment (fun _ _ => 0) ⟨10, 100⟩)
      floorRolledBack).indexer.startBlock () = some 10 := by decide +kernel
  have hlast : (run Ledger.deployment (init Ledger.deployment (fun _ _ => 0) ⟨10, 100⟩)
      floorRolledBack).indexer.checkpoint () = some 12 := by decide +kernel
  obtain ⟨-, hquiet⟩ := history_complete inserts_floorRolledBack hfirst hlast
  exact ⟨_, by decide +kernel, by decide +kernel, hquiet⟩

end Transactions

end StakeConfigIndexer

end NeutronX
