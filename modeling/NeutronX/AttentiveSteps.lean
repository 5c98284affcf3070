import NeutronX.AttentiveRuns

/-!
# The steps of an attentive run

Every step of an attentive run keeps both laws (`ledgerLaw_step`). Most
steps move one attempt, or none; the two that matter are a transaction of
anyone (`ledgerLaw_transaction`) and a transaction of the watcher
(`ledgerLaw_mineSent`), which logs the fallback the attempt waits for.
-/

namespace NeutronX

open Evm Function

namespace FallbackWatcher

open EventIndexer (eventIndexer Event FallbackRow)
open NeutronX.System (Label Elapse body elapse unfilled fallbacksOf)

variable {κ W : Type} [DecidableEq κ] {d : Deployment κ W}

section Law

variable {info : OrderInfo} {s s' : State κ W}

/-! ## Steps of an attempt -/

/-- Both laws. -/
structure LedgerLaw (d : Deployment κ W) (info : OrderInfo) (s : State κ W) : Prop where
  onChain : ChainLaw d info s
  attempts : AttemptLaw d info s

/-- Steps in which no attempt moves and nothing happens on chain. -/
theorem LedgerLaw.frame (h : LedgerLaw d info s) (hchain : s'.chain = s.chain)
    (hindexer : Frame (d.hashOrder info) s.indexer s'.indexer) (hused : s'.used = s.used)
    (hsent : s'.sent = s.sent)
    (hattempts : s'.attempts = s.attempts) : LedgerLaw d info s' := by
  refine ⟨h.onChain.frame hchain hindexer hused hsent,
    h.attempts.frame hindexer (by rw [hused]; exact fun _ hin => hin)
      (by rw [hsent]; exact fun _ => Or.inl) (by rw [hattempts]) ?_⟩
  rw [hattempts]
  exact h.attempts.keys

omit [DecidableEq κ] in
theorem holds_of_held {attempt : Option (Attempt κ)} {row : FallbackRow κ}
    (h : held attempt = some row) : holds attempt row.id := by
  unfold held at h
  split at h
  · cases h
    rw [holds]
  · cases h
    rw [holds]
  · cases h

/-- The rows of the attempts, after one of them moved. -/
theorem keys_update (h : AttemptLaw d info s) {k₀ : κ} {attempt : Option (Attempt κ)}
    (hattempt : ∀ row, held attempt = some row → row.orderHash = k₀) (k : κ)
    (row : FallbackRow κ) (hrow : held (update s.attempts k₀ attempt k) = some row) :
    row.orderHash = k := by
  by_cases hk : k = k₀
  · subst hk
    rw [update_self] at hrow
    exact hattempt row hrow
  · rw [update_of_ne hk] at hrow
    exact h.keys k row hrow

/-- The attempt at another order moves. -/
theorem LedgerLaw.setOther (h : LedgerLaw d info s) {k₀ : κ} (attempt : Option (Attempt κ))
    (hother : d.hashOrder info ≠ k₀)
    (hattempt : ∀ row, held attempt = some row → row.orderHash = k₀)
    (hchain : s'.chain = s.chain) (hindexer : Frame (d.hashOrder info) s.indexer s'.indexer)
    (hused : s'.used = s.used) (hsent : s'.sent = s.sent)
    (hattempts : s'.attempts = update s.attempts k₀ attempt) : LedgerLaw d info s' := by
  refine ⟨h.onChain.frame hchain hindexer hused hsent,
    h.attempts.frame hindexer (by rw [hused]; exact fun _ hin => hin)
      (by rw [hsent]; exact fun _ => Or.inl) ?_ ?_⟩
  · rw [hattempts, update_of_ne hother]
  · rw [hattempts]
    exact keys_update h.attempts hattempt

/-- An attempt that holds nothing, where an idle one was. -/
theorem LedgerLaw.setFree (h : LedgerLaw d info s) {k₀ : κ} {attempt : Option (Attempt κ)}
    (hfree : ∀ id, ¬holds attempt id)
    (hidle : k₀ = d.hashOrder info → idle s (d.hashOrder info) = true) :
    LedgerLaw d info (setAttempt s k₀ attempt) := by
  have hframe := frame_refl (k := d.hashOrder info) h.onChain.indexer
  have hattempt : ∀ row, held attempt = some row → row.orderHash = k₀ :=
    fun row hrow => absurd (holds_of_held hrow) (hfree row.id)
  by_cases hk : k₀ = d.hashOrder info
  · refine ⟨h.onChain.frame rfl hframe rfl rfl, h.attempts.reset rfl (fun id => ?_)
      (not_holds_of_idle (hidle hk)) (keys_update h.attempts hattempt)⟩
    subst hk
    simpa only [setAttempt, update_self] using hfree id
  · exact h.setOther attempt (Ne.symm hk) hattempt rfl hframe rfl rfl rfl

theorem ledgerLaw_submit (h : LedgerLaw d info s) (info' : OrderInfo) (sig : Bytes)
    (aggregator : String) (router : Address) (minAmountOut transactionHash : Nat) :
    LedgerLaw d info (submit d s info' sig aggregator router minAmountOut transactionHash) := by
  unfold submit
  split
  case h_2 => exact h
  rename_i rem hremaining
  split
  · exact h
  rename_i hfresh
  have hnolog : ∀ l ∈ s.indexer.logs, l.id.transactionHash ≠ transactionHash := by
    intro l hl heq
    exact hfresh (heq ▸ h.onChain.used l hl)
  have hframe := frame_refl (k := d.hashOrder info) h.onChain.indexer
  have hkeys : ∀ k row, held (update s.attempts (d.hashOrder info')
      (some (.submitted rem aggregator transactionHash)) k) = some row → row.orderHash = k :=
    keys_update h.attempts fun row hrow => (by cases hrow)
  refine ⟨⟨h.onChain.chain, h.onChain.indexer, fun l hl => ?_, fun t ht => ?_, h.onChain.chunks,
    h.onChain.fallbacks, h.onChain.once⟩, ?_⟩
  · exact List.mem_cons_of_mem _ (h.onChain.used l hl)
  · rcases List.mem_cons.mp ht with rfl | ht
    · exact ⟨List.mem_cons_self .., hnolog⟩
    · obtain ⟨hin, hlogs⟩ := h.onChain.sent t ht
      exact ⟨List.mem_cons_of_mem _ hin, hlogs⟩
  by_cases heq : info' = info
  · subst heq
    refine ⟨hkeys, fun rem' aggregator' hash' hsubmitted => ?_, fun row hrow => ?_,
      h.attempts.exact, fun x hx => ?_⟩
    · simp only [setAttempt, update_self] at hsubmitted
      cases hsubmitted
      refine ⟨List.mem_cons_self .., fun t ht hhash => ?_, fun l hl hhash => ?_⟩
      · rcases List.mem_cons.mp ht with rfl | ht
        · rfl
        · exact absurd (hhash ▸ (h.onChain.sent t ht).1) hfresh
      · exact absurd hhash (hnolog l hl)
    · simp only [setAttempt, update_self] at hrow
      cases hrow
    · refine Or.inl ((h.attempts.recorded x hx).resolve_right ?_)
      rw [hremaining]
      exact id
  · refine h.attempts.frame hframe (fun _ hin => List.mem_cons_of_mem _ hin) (fun t ht => ?_) ?_
      hkeys
    · rcases List.mem_cons.mp ht with rfl | ht
      · exact Or.inr hfresh
      · exact Or.inl ht
    · exact update_of_ne (d.hash_injective.ne (Ne.symm heq)) ..

theorem ledgerLaw_receipt (h : LedgerLaw d info s) {info' : OrderInfo} {shadow : Option Nat}
    (hok : info' = info → shadow = none) : LedgerLaw d info (receipt d s info' shadow) := by
  unfold receipt
  split
  case h_2 => exact h
  rename_i rem aggregator transactionHash hsubmitted
  split
  case h_2 => exact h
  rename_i l amountOut hreceipt
  have hframe := frame_refl (k := d.hashOrder info) h.onChain.indexer
  have hattempt : ∀ row, held (some (Attempt.executed ⟨l.id, d.hashOrder info', d.fallback, rem,
      shadow.getD amountOut, l.blockNumber, aggregator⟩)) = some row →
      row.orderHash = d.hashOrder info' := by
    intro row hrow
    cases hrow
    rfl
  by_cases heq : info' = info
  · subst heq
    obtain rfl := hok rfl
    obtain ⟨hl, hhash, k, amountIn, hargs⟩ := receiptOf_eq_some hreceipt
    obtain ⟨-, -, hours⟩ := h.attempts.submitted _ _ _ hsubmitted
    obtain ⟨rfl, rfl⟩ := hours l hl hhash k amountIn amountOut hargs
    have hentry : (l.id, amountIn, amountOut) ∈ entries (d.hashOrder info') s.indexer.logs :=
      mem_entries.mpr ⟨l, hl, rfl, hargs⟩
    refine ⟨h.onChain.frame rfl hframe rfl rfl, keys_update h.attempts hattempt, ?_, ?_,
      h.attempts.exact, fun x hx => ?_⟩
    · intro rem' aggregator' hash' hsubmitted'
      simp only [setAttempt, update_self] at hsubmitted'
      cases hsubmitted'
    · intro row hrow
      simp only [setAttempt, update_self] at hrow
      cases hrow
      exact hentry
    · refine (h.attempts.recorded x hx).imp_right fun _ => ?_
      simp only [setAttempt, update_self, holds]
      exact congrArg Prod.fst (h.onChain.entry_unique hentry hx)
  · exact h.setOther _ (d.hash_injective.ne (Ne.symm heq)) hattempt rfl hframe rfl rfl rfl

/-- A row the attempt at this order holds, held by the next attempt too. -/
theorem LedgerLaw.setHeld (h : LedgerLaw d info s) {row : FallbackRow κ}
    (attempt : Option (Attempt κ)) (hrow : held (s.attempts (d.hashOrder info)) = some row)
    (hattempt : held attempt = some row) (hchain : s'.chain = s.chain)
    (hindexer : Frame (d.hashOrder info) s.indexer s'.indexer) (hused : s'.used = s.used)
    (hsent : s'.sent = s.sent)
    (hattempts : s'.attempts = update s.attempts (d.hashOrder info) attempt) :
    LedgerLaw d info s' := by
  have hunsubmitted : ∀ rem aggregator transactionHash,
      attempt ≠ some (.submitted rem aggregator transactionHash) := by
    rintro rem aggregator transactionHash rfl
    cases hattempt
  have hsame : AttemptLaw d info { s' with attempts := s.attempts } :=
    h.attempts.frame hindexer (by rw [hused]; exact fun _ hin => hin)
      (by rw [hsent]; exact fun _ => Or.inl) rfl h.attempts.keys
  refine ⟨h.onChain.frame hchain hindexer hused hsent, ?_, ?_, ?_, hsame.exact, ?_⟩
  · rw [hattempts]
    refine keys_update h.attempts fun row' hrow' => ?_
    obtain rfl : row = row' := Option.some.inj (hattempt.symm.trans hrow')
    exact h.attempts.keys _ row hrow
  · rw [hattempts, update_self]
    exact fun rem aggregator transactionHash hsubmitted => absurd hsubmitted (hunsubmitted rem _ _)
  · rw [hattempts, update_self, hattempt, ← hrow]
    exact hsame.holding
  · intro x hx
    refine (hsame.recorded x hx).imp_right fun hholds => ?_
    have hid : row.id = x.1 := by
      refine congrArg Prod.fst (h.onChain.entry_unique (h.attempts.holding row hrow) ?_)
      rw [← hindexer.logs]
      exact hx
    rw [hattempts, update_self, ← hid]
    exact holds_of_held hattempt

theorem setFallback_frame (h : LedgerLaw d info s) (k : κ) (id : LogId) :
    Frame (d.hashOrder info) s.indexer
      (eventIndexer.step s.indexer (.other (.setFallback k id))) := by
  refine other_frame h.onChain.indexer ?_
  simp only [EventIndexer.other]
  split <;> rfl

theorem ledgerLaw_mark (h : LedgerLaw d info s) {info' : OrderInfo} {outcome : Indexer.Outcome}
    (hok : info' = info → outcome = .done) : LedgerLaw d info (mark d s info' outcome) := by
  unfold mark
  split
  case h_2 => exact h
  rename_i row hexecuted
  have hframe := setFallback_frame h (d.hashOrder info') row.id
  have hheld : held (s.attempts (d.hashOrder info')) = some row := by
    rw [hexecuted]
    rfl
  by_cases heq : info' = info
  · subst heq
    obtain rfl := hok rfl
    exact h.setHeld (some (.marked row)) hheld rfl rfl hframe rfl rfl rfl
  · have hother := d.hash_injective.ne (Ne.symm heq)
    cases outcome with
    | done =>
        refine h.setOther (some (.marked row)) hother (fun row' hrow' => ?_) rfl hframe
          rfl rfl rfl
        cases hrow'
        exact h.attempts.keys _ row hheld
    | lost =>
        exact h.setOther none hother (fun _ hrow' => by cases hrow') rfl hframe rfl
          rfl rfl
    | failed =>
        exact h.setOther none hother (fun _ hrow' => by cases hrow') rfl
          (frame_refl h.onChain.indexer) rfl rfl rfl

/-- What the insert of a fallback's row does, if it can be inserted. -/
theorem insertFallback_spec {row : FallbackRow κ} {db : EventIndexer.Database κ}
    (hinsert : s.indexer.db.insertFill row.row = some db) (w : EventIndexer.State κ)
    (hw : w = eventIndexer.step s.indexer (.other (.insertFallback row))) :
    w.logs = s.indexer.logs ∧ EventIndexer.KeepsFills s.indexer.db w.db ∧
    (∀ r ∈ w.db.fills, r ∈ s.indexer.db.fills ∨ r = row.row) ∧
    (EventIndexer.fallbackLogged s.indexer.logs row.orderHash row.id = true →
      ∃ r ∈ w.db.fills, r.id = row.id) := by
  have hdb : w.db = if EventIndexer.fallbackLogged s.indexer.logs row.orderHash row.id
      then db else s.indexer.db := by
    have hother : w.db = EventIndexer.other (.insertFallback row) s.indexer.number s.indexer.logs
        s.indexer.db := by
      rw [hw]
      rfl
    rw [hother]
    simp only [EventIndexer.other, hinsert, Option.getD_some]
  refine ⟨by rw [hw]; rfl, ?_, ?_, fun hlogged => ?_⟩
  · rw [hdb]
    split
    · exact EventIndexer.keepsFills_insertFill hinsert
    · exact fun _ hr => hr
  · rw [hdb]
    split
    · intro r hr
      rcases EventIndexer.insertFill_spec hinsert with ⟨-, rfl⟩ | ⟨-, -, rfl⟩
      · exact Or.inl hr
      · exact (List.mem_cons.mp hr).symm
    · exact fun _ => Or.inl
  · rw [hdb, if_pos hlogged]
    rcases EventIndexer.insertFill_spec hinsert with ⟨⟨r, hr, hid⟩, rfl⟩ | ⟨-, -, rfl⟩
    · exact ⟨r, hr, hid⟩
    · exact ⟨row.row, List.mem_cons_self .., rfl⟩

/-- The row of a fallback of this order is inserted. -/
theorem ledgerLaw_insert (h : LedgerLaw d info s) {row : FallbackRow κ}
    {db : EventIndexer.Database κ} {attempt : Option (Attempt κ)}
    (hrow : s.attempts (d.hashOrder info) = some (.marked row))
    (hinsert : s.indexer.db.insertFill row.row = some db) (hfree : ∀ id, ¬holds attempt id) :
    LedgerLaw d info (setAttempt { s with
      indexer := eventIndexer.step s.indexer (.other (.insertFallback row)) }
      (d.hashOrder info) attempt) := by
  have hheld : held (s.attempts (d.hashOrder info)) = some row := by
    rw [hrow]
    rfl
  have hentry := h.attempts.holding row hheld
  have hkey := h.attempts.keys _ row hheld
  have hlogged : EventIndexer.fallbackLogged s.indexer.logs row.orderHash row.id = true := by
    obtain ⟨l, hl, hid, hargs⟩ := mem_entries.mp hentry
    rw [hkey]
    exact EventIndexer.fallbackLogged_iff.mpr ⟨l, hl, hid.symm, _, _, hargs⟩
  obtain ⟨hlogs, hkeeps, hrows, hthere⟩ := insertFallback_spec hinsert _ rfl
  have hnone : ∀ row', held attempt = some row' → False :=
    fun row' hrow' => hfree row'.id (holds_of_held hrow')
  refine ⟨⟨h.onChain.chain, reachable_step h.onChain.indexer (.other (.insertFallback row)), ?_, ?_,
      ?_, ?_, h.onChain.once⟩,
    keys_update h.attempts fun row' hrow' => (hnone row' hrow').elim, ?_, ?_,
    fun r hr hsource => ?_, fun x hx => ?_⟩
  · exact h.onChain.used
  · exact h.onChain.sent
  · exact h.onChain.chunks
  · exact h.onChain.fallbacks
  · intro rem aggregator transactionHash hsubmitted
    simp only [setAttempt, update_self] at hsubmitted
    subst hsubmitted
    exact absurd rfl (hfree ⟨transactionHash, 0⟩)
  · intro row' hrow'
    simp only [setAttempt, update_self] at hrow'
    exact (hnone row' hrow').elim
  · obtain ⟨hmem, hhash⟩ := EventIndexer.Database.mem_fillsOf.mp hr
    rcases hrows r hmem with hold | rfl
    · exact h.attempts.exact r (EventIndexer.Database.mem_fillsOf.mpr ⟨hold, hhash⟩) hsource
    · exact hentry
  · refine Or.inl ?_
    rcases h.attempts.recorded x hx with ⟨r, hr, hid⟩ | hholds
    · exact ⟨r, hkeeps r hr, hid⟩
    · rw [hrow, holds] at hholds
      obtain ⟨r, hr, hid⟩ := hthere hlogged
      exact ⟨r, hr, hid.trans hholds⟩

/-- The order of a row the watcher holds is in the table, so the row can be
inserted. -/
theorem insertFill_of_marked (h : AttemptLaw d info s) (horders : OrderLaw s) {k : κ}
    {row : FallbackRow κ} (hmarked : s.attempts k = some (.marked row)) :
    ∃ db, s.indexer.db.insertFill row.row = some db := by
  have hkey := h.keys k row (by rw [hmarked]; rfl)
  have horder : (s.indexer.db.orders row.row.orderHash).isSome = true := by
    show (s.indexer.db.orders row.orderHash).isSome = true
    rw [hkey]
    exact horders.stored k (by rw [hmarked]; exact Option.some_ne_none _)
  by_cases hthere : ∃ r ∈ s.indexer.db.fills, r.id = row.row.id
  · exact ⟨_, if_pos hthere⟩
  · exact ⟨_, (if_neg hthere).trans (if_pos horder)⟩

theorem ledgerLaw_record (h : LedgerLaw d info s) (horders : OrderLaw s) {info' : OrderInfo}
    {outcome : Indexer.Outcome} (hok : info' = info → outcome ≠ .failed) :
    LedgerLaw d info (record d s info' outcome) := by
  unfold record
  split
  case h_2 => exact h
  rename_i row hmarked
  dsimp only
  by_cases heq : info' = info
  · subst heq
    have hanswered := hok rfl
    obtain ⟨db, hinsert⟩ := insertFill_of_marked h.attempts horders hmarked
    cases outcome with
    | done => simpa only [hinsert] using ledgerLaw_insert h hmarked hinsert fun _ => id
    | lost => simpa only [hinsert] using ledgerLaw_insert h hmarked hinsert fun _ => id
    | failed => exact absurd rfl hanswered
  · have hother := d.hash_injective.ne (Ne.symm heq)
    have hkey := h.attempts.keys (d.hashOrder info') row (by rw [hmarked]; rfl)
    have hframe : ∀ {db}, s.indexer.db.insertFill row.row = some db →
        Frame (d.hashOrder info) s.indexer
          (eventIndexer.step s.indexer (.other (.insertFallback row))) := by
      intro db hinsert
      obtain ⟨hlogs, hkeeps, hrows, -⟩ := insertFallback_spec hinsert _ rfl
      refine ⟨reachable_step h.onChain.indexer _, hlogs, fun r hr hhash _ => ?_, hkeeps⟩
      rcases hrows r hr with hold | rfl
      · exact hold
      · exact absurd (hhash.symm.trans hkey) hother
    split
    · rename_i db hinsert
      exact h.setOther (some .over) hother (fun _ hrow => by cases hrow) rfl
        (hframe hinsert) rfl rfl rfl
    · rename_i db hinsert
      exact h.setOther none hother (fun _ hrow => by cases hrow) rfl
        (hframe hinsert) rfl rfl rfl
    · exact h.setOther none hother (fun _ hrow => by cases hrow) rfl
        (frame_refl h.onChain.indexer) rfl rfl rfl

/-! ## Transactions -/

/-- A transaction is mined, and the watcher's attempt at this order stays
what it is. -/
theorem AttemptLaw.mined (h : AttemptLaw d info s) {transactionHash : Nat} {used : List Nat}
    {sent : List Sent} {chain' : World κ W} {new : List (Log (Event κ))}
    (hmined : Mined { s with used, sent } transactionHash chain' new)
    (hused : ∀ hash, hash ∈ s.used → hash ∈ used) (hsent : ∀ t ∈ sent, t ∈ s.sent)
    (hours : ∀ rem aggregator,
      s.attempts (d.hashOrder info) = some (.submitted rem aggregator transactionHash) →
      ∀ l ∈ new, ∀ k amountIn amountOut, l.args = .fallbackExecuted k amountIn amountOut →
        k = d.hashOrder info ∧ amountIn = rem)
    (hawaited : ∀ x ∈ entries (d.hashOrder info) new, ∃ rem aggregator,
      s.attempts (d.hashOrder info) = some (.submitted rem aggregator transactionHash)) :
    AttemptLaw d info (FallbackWatcher.mined { s with used, sent } transactionHash chain') := by
  have hentries : entries (d.hashOrder info)
      (FallbackWatcher.mined { s with used, sent } transactionHash chain').indexer.logs
        = entries (d.hashOrder info) new ++ entries (d.hashOrder info) s.indexer.logs := by
    rw [hmined.logs, entries, List.filterMap_append]
    rfl
  refine ⟨h.keys, fun rem aggregator hash hsubmitted => ?_, fun row hrow => ?_, ?_,
    fun x hx => ?_⟩
  · obtain ⟨hin, hourSent, hlogs⟩ := h.submitted rem aggregator hash hsubmitted
    refine ⟨hused _ hin, fun t ht => hourSent t (hsent t ht), fun l hl hhash => ?_⟩
    rw [hmined.logs] at hl
    rcases List.mem_append.mp hl with hl | hl
    · rw [hmined.hashes l hl] at hhash
      subst hhash
      exact hours rem aggregator hsubmitted l hl
    · exact hlogs l hl hhash
  · rw [hentries]
    exact List.mem_append_right _ (h.holding row hrow)
  · rw [hmined.db, hentries]
    exact fun r hr hsource => List.mem_append_right _ (h.exact r hr hsource)
  · rw [hentries] at hx
    rw [hmined.db]
    rcases List.mem_append.mp hx with hx | hx
    · obtain ⟨rem, aggregator, hsubmitted⟩ := hawaited x hx
      obtain ⟨l, hl, hid, -⟩ := mem_entries.mp hx
      refine Or.inr ?_
      show holds (s.attempts (d.hashOrder info)) x.1
      rw [hsubmitted, holds, hid, hmined.hashes l hl]
    · exact h.recorded x hx

/-- Which fallbacks a transaction logged, by what it did on chain. -/
theorem entries_eq_nil {transactionHash : Nat} {chain' : World κ W} {new : List (Log (Event κ))}
    (hmined : Mined s transactionHash chain' new) {k : κ}
    (h : fallbacksOf k chain' = fallbacksOf k s.chain) : entries k new = [] := by
  have hfallbacks := hmined.fallbacks k
  rw [h] at hfallbacks
  have hnil : loggedFallbacks k new = [] :=
    List.append_left_eq_self.mp hfallbacks
  exact List.map_eq_nil_iff.mp hnil

theorem mem_entries_of_args {new : List (Log (Event κ))} {l : Log (Event κ)} (hl : l ∈ new)
    {k : κ} {amountIn amountOut : Nat} (hargs : l.args = .fallbackExecuted k amountIn amountOut) :
    (l.id, amountIn, amountOut) ∈ entries k new :=
  mem_entries.mpr ⟨l, hl, rfl, hargs⟩

/-- A transaction that logged one fallback has no other in its logs. -/
theorem args_of_single {transactionHash : Nat} {chain' : World κ W} {new : List (Log (Event κ))}
    (hmined : Mined s transactionHash chain' new) {k₀ : κ} {amount : Nat × Nat}
    (h : ∀ k, fallbacksOf k chain' = if k₀ = k then amount :: fallbacksOf k s.chain
      else fallbacksOf k s.chain) {l : Log (Event κ)} (hl : l ∈ new) {k : κ}
    {amountIn amountOut : Nat} (hargs : l.args = .fallbackExecuted k amountIn amountOut) :
    k = k₀ ∧ (amountIn, amountOut) = amount := by
  have hentry := mem_entries_of_args hl hargs
  have hfallbacks := hmined.fallbacks k
  by_cases hk : k₀ = k
  · subst hk
    rw [h k₀, if_pos rfl] at hfallbacks
    have hnew : loggedFallbacks k₀ new = [amount] :=
      List.append_cancel_right (hfallbacks.trans (List.singleton_append).symm)
    have hpair : (amountIn, amountOut) ∈ loggedFallbacks k₀ new :=
      List.mem_map.mpr ⟨_, hentry, rfl⟩
    rw [hnew] at hpair
    exact ⟨rfl, List.mem_singleton.mp hpair⟩
  · have hsame := h k
    rw [if_neg hk] at hsame
    rw [entries_eq_nil hmined hsame] at hentry
    exact absurd hentry List.not_mem_nil

/-- A transaction without a fallback of the order. -/
theorem LedgerLaw.minedNone (h : LedgerLaw d info s) {transactionHash : Nat} {used : List Nat}
    {sent : List Sent} {chain' : World κ W} {new : List (Log (Event κ))}
    (hchain' : System.Reachable d chain') (hgrow : System.LogsGrow s.chain chain')
    (hunfilled : unfilled d chain' info ≤ unfilled d s.chain info)
    (hmined : Mined { s with used, sent } transactionHash chain' new)
    (hused : ∀ hash, hash ∈ s.used → hash ∈ used) (hnew : transactionHash ∈ used)
    (hsent : ∀ t ∈ sent, t ∈ s.sent ∧ t.transactionHash ≠ transactionHash)
    (hsame : fallbacksOf (d.hashOrder info) chain' = fallbacksOf (d.hashOrder info) s.chain)
    (hours : ∀ rem aggregator,
      s.attempts (d.hashOrder info) = some (.submitted rem aggregator transactionHash) →
      ∀ l ∈ new, ∀ k amountIn amountOut, l.args ≠ .fallbackExecuted k amountIn amountOut) :
    LedgerLaw d info (FallbackWatcher.mined { s with used, sent } transactionHash chain') := by
  refine ⟨h.onChain.mined hchain' hgrow hunfilled hmined hused hnew hsent (.none hsame),
    h.attempts.mined hmined hused (fun t ht => (hsent t ht).1) ?_ fun x hx => ?_⟩
  · intro rem aggregator hsubmitted l hl k amountIn amountOut hargs
    exact absurd hargs (hours rem aggregator hsubmitted l hl k amountIn amountOut)
  · rw [entries_eq_nil hmined hsame] at hx
    exact absurd hx List.not_mem_nil

theorem ledgerLaw_transaction (h : LedgerLaw d info s) (transactionHash : Nat)
    (call : Call (Label κ W))
    (hok : fallbacksOf (d.hashOrder info) (afterCall d call s.chain)
      = fallbacksOf (d.hashOrder info) s.chain) :
    LedgerLaw d info (transaction d s transactionHash call) := by
  unfold transaction
  split
  · exact h
  rename_i hfresh
  have hgrow := afterCall_logsGrow (d := d) call s.chain
  have hunmined : ∀ l ∈ s.indexer.logs, l.id.transactionHash ≠ transactionHash := by
    rintro l hl rfl
    exact hfresh (h.onChain.used l hl)
  obtain ⟨new, hmined⟩ := mined_spec
    (s := { s with used := transactionHash :: s.used }) hgrow hunmined
  refine h.minedNone (afterCall_reachable h.onChain.chain call) hgrow
    (afterCall_unfilled call s.chain info) hmined (fun _ => List.mem_cons_of_mem _)
    (List.mem_cons_self ..) (fun t ht => ⟨ht, ?_⟩) hok fun rem aggregator hsubmitted => ?_
  · rintro rfl
    exact hfresh (h.onChain.sent t ht).1
  · exact absurd (h.attempts.submitted _ _ _ hsubmitted).1 hfresh

/-- A transaction of the watcher: its call reverts, or it is a fallback of
what was left. -/
theorem afterCall_sent (t : Sent) (routeOk : Bool) (turns : List (List (Call (Label κ W))))
    (chain : World κ W) :
    afterCall d (t.call routeOk turns) chain = chain ∨
    0 < unfilled d chain t.order.info ∧ ∃ amountOut, ∀ k,
      fallbacksOf k (afterCall d (t.call routeOk turns) chain)
        = if d.hashOrder t.order.info = k
          then (unfilled d chain t.order.info, amountOut) :: fallbacksOf k chain
          else fallbacksOf k chain := by
  rw [afterCall, stepTx]
  cases hexec : exec (body d) (t.call routeOk turns) chain with
  | ok chain' => exact Or.inr (System.exec_executeFallback hexec)
  | error e => exact Or.inl rfl

omit [DecidableEq κ] in
theorem submitted_of_awaits {k : κ} {transactionHash rem : Nat}
    (h : awaits s k transactionHash rem = true) :
    ∃ aggregator, s.attempts k = some (.submitted rem aggregator transactionHash) := by
  unfold awaits at h
  split at h
  · rename_i hattempt
    obtain ⟨rfl, rfl⟩ := of_decide_eq_true h
    exact ⟨_, hattempt⟩
  · cases h

theorem ledgerLaw_mineSent (h : LedgerLaw d info s) (transactionHash : Nat) (routeOk : Bool)
    (turns : List (List (Call (Label κ W))))
    (hok : fallbacksOf (d.hashOrder info) (mineSent d s transactionHash routeOk turns).chain
        = fallbacksOf (d.hashOrder info) s.chain ∨
      awaits s (d.hashOrder info) transactionHash (unfilled d s.chain info) = true) :
    LedgerLaw d info (mineSent d s transactionHash routeOk turns) := by
  unfold mineSent at hok ⊢
  split
  case h_2 => exact h
  rename_i t hfind
  rw [hfind] at hok
  have hmem : t ∈ s.sent := List.mem_of_find?_eq_some hfind
  obtain rfl : t.transactionHash = transactionHash := by
    simpa using List.find?_some hfind
  obtain ⟨hin, hunmined⟩ := h.onChain.sent t hmem
  have hgrow := afterCall_logsGrow (d := d) (t.call routeOk turns) s.chain
  have hreachable := afterCall_reachable h.onChain.chain (t.call routeOk turns)
  have hunfilled := afterCall_unfilled (d := d) (t.call routeOk turns) s.chain info
  have hlogged := afterCall_sent (d := d) t routeOk turns s.chain
  obtain ⟨new, hmined⟩ := mined_spec
    (s := { s with sent := s.sent.filter fun t' => t'.transactionHash ≠ t.transactionHash })
    hgrow hunmined
  have hkept : ∀ t' ∈ s.sent.filter fun t' => t'.transactionHash ≠ t.transactionHash,
      t' ∈ s.sent ∧ t'.transactionHash ≠ t.transactionHash := by
    intro t' ht'
    simpa using List.mem_filter.mp ht'
  -- the attempt at this order, if it sent this transaction, sent it for this order
  have hsubmitted : ∀ rem aggregator, s.attempts (d.hashOrder info)
      = some (.submitted rem aggregator t.transactionHash) → t.order.info = info :=
    fun rem aggregator hattempt => (h.attempts.submitted _ _ _ hattempt).2.1 t hmem rfl
  dsimp only at hok ⊢
  generalize hchain' : afterCall d (t.call routeOk turns) s.chain = chain' at *
  rcases hlogged with rfl | ⟨hpos, amountOut, hadded⟩
  · -- the call reverts, and nothing is logged
    refine h.minedNone hreachable hgrow hunfilled hmined (fun _ => id) hin hkept rfl
      fun _ _ _ l hl k amountIn amountOut hargs => ?_
    have hentry := mem_entries_of_args hl hargs
    rw [entries_eq_nil hmined rfl] at hentry
    exact absurd hentry List.not_mem_nil
  by_cases heq : t.order.info = info
  · subst heq
    have hown := hadded (d.hashOrder t.order.info)
    rw [if_pos rfl] at hown
    -- it logs a fallback, so the watcher waits for it
    have hawaits := hok.resolve_left fun hsame =>
      List.cons_ne_self _ _ (hown.symm.trans hsame)
    obtain ⟨aggregator, hattempt⟩ := submitted_of_awaits hawaits
    refine ⟨h.onChain.mined hreachable hgrow hunfilled hmined (fun _ => id) hin hkept
        (.fallback amountOut hpos hadded),
      h.attempts.mined hmined (fun _ => id) (fun t' ht' => (hkept t' ht').1) ?_
        fun x hx => ⟨_, aggregator, hattempt⟩⟩
    intro rem aggregator' hsub l hl k amountIn amountOut' hargs
    rw [hattempt] at hsub
    cases hsub
    obtain ⟨hk, hamount⟩ := args_of_single hmined hadded hl hargs
    exact ⟨hk, congrArg Prod.fst hamount⟩
  · -- a fallback of another order
    have hsame := hadded (d.hashOrder info)
    rw [if_neg (d.hash_injective.ne heq)] at hsame
    exact h.minedNone hreachable hgrow hunfilled hmined (fun _ => id) hin hkept hsame
      fun rem aggregator hsub => absurd (hsubmitted _ _ hsub) heq

/-! ## Any step -/

theorem ledgerLaw_elapse (h : LedgerLaw d info s) (t : Elapse) :
    LedgerLaw d info (step d s (.elapse t)) := by
  have hframe := mine_frame (k := d.hashOrder info) h.onChain.indexer t.blocks
  refine ⟨⟨h.onChain.chain.run [.tick t], hframe.reachable, ?_, ?_, ?_, ?_, h.onChain.once⟩,
    h.attempts.frame hframe (fun _ => id) (fun _ => Or.inl) rfl h.attempts.keys⟩
  · simp only [step, hframe.logs]
    exact h.onChain.used
  · simp only [step, hframe.logs]
    exact h.onChain.sent
  · simp only [step, hframe.logs]
    exact h.onChain.chunks
  · simp only [step, hframe.logs]
    exact h.onChain.fallbacks

omit [DecidableEq κ] in
/-- An attempt without a transaction is idle. -/
theorem idle_of_started {k : κ} (h : s.attempts k = some .started) : idle s k = true := by
  rw [idle, h]

theorem ledgerLaw_start (h : LedgerLaw d info s) (info' : OrderInfo) :
    LedgerLaw d info (start d s info') := by
  simp only [start]
  split
  · rename_i hstart
    refine h.setFree (fun _ => id) fun hk => ?_
    rw [idle, ← hk, hstart.2.1]
  · exact h

theorem ledgerLaw_skip (h : LedgerLaw d info s) (info' : OrderInfo) :
    LedgerLaw d info (skip d s info') := by
  unfold skip
  split
  · rename_i hstarted
    exact h.setFree (fun _ => id) fun hk => idle_of_started (hk ▸ hstarted)
  · exact h

theorem ledgerLaw_read (h : LedgerLaw d info s) (info' : OrderInfo) :
    LedgerLaw d info (read d s info') := by
  unfold read
  split
  · rename_i hstarted
    refine h.setFree (fun id => ?_) fun hk => idle_of_started (hk ▸ hstarted)
    split <;> exact not_false
  · exact h

theorem ledgerLaw_fail (h : LedgerLaw d info s) {info' : OrderInfo}
    (hok : info' = info → idle s (d.hashOrder info) = true) :
    LedgerLaw d info (fail d s info') := by
  unfold fail
  split
  · exact h
  · exact h.setFree (fun _ => id) fun hk => hok (d.hash_injective hk)

theorem ledgerLaw_crash (h : LedgerLaw d info s) (hok : idle s (d.hashOrder info) = true) :
    LedgerLaw d info (step d s .crash) :=
  ⟨h.onChain.frame rfl (frame_refl h.onChain.indexer) rfl rfl,
    h.attempts.reset rfl (fun _ => id) (not_holds_of_idle hok) fun _ _ hrow => (by cases hrow)⟩

/-- The step lemma. -/
theorem ledgerLaw_step (s : State κ W) (a : Action κ W) (h : LedgerLaw d info s)
    (horders : OrderLaw s) (hok : Attentive d info s a) : LedgerLaw d info (step d s a) := by
  cases a with
  | transaction transactionHash call => exact ledgerLaw_transaction h transactionHash call hok
  | mineSent transactionHash routeOk turns =>
      exact ledgerLaw_mineSent h transactionHash routeOk turns hok
  | elapse t => exact ledgerLaw_elapse h t
  | index a =>
      simp only [step]
      split
      · rename_i ha
        exact h.frame rfl (handler_frame h.onChain.indexer ha) rfl rfl rfl
      · exact h
  | createOrder info' printed =>
      refine h.frame rfl (other_frame h.onChain.indexer ?_) rfl rfl rfl
      simp only [EventIndexer.other, EventIndexer.Database.createOrder]
      split <;> rfl
  | cancelOrder info' => exact h.frame rfl (other_frame h.onChain.indexer rfl) rfl rfl rfl
  | expire currentBlock =>
      refine h.frame rfl (other_frame h.onChain.indexer ?_) rfl rfl rfl
      simp only [EventIndexer.other]
      split <;> rfl
  | select currentBlock =>
      simp only [step, select]
      split
      · exact h.frame rfl (frame_refl h.onChain.indexer) rfl rfl rfl
      · exact h
  | start info' => exact ledgerLaw_start h info'
  | skip info' => exact ledgerLaw_skip h info'
  | read info' => exact ledgerLaw_read h info'
  | submit info' sig aggregator router minAmountOut transactionHash =>
      exact ledgerLaw_submit h info' sig aggregator router minAmountOut transactionHash
  | receipt info' shadow => exact ledgerLaw_receipt h hok
  | mark info' outcome => exact ledgerLaw_mark h hok
  | record info' outcome => exact ledgerLaw_record h horders hok
  | fail info' => exact ledgerLaw_fail h hok
  | crash => exact ledgerLaw_crash h hok

theorem ledgerLaw_init (d : Deployment κ W) (info : OrderInfo) (tokens : W) (block : Block) :
    LedgerLaw d info (init d tokens block) := by
  have hnothing : ∀ l, l ∉ (init d tokens block).indexer.logs := fun _ => List.not_mem_nil
  refine ⟨⟨⟨tokens, block, [], rfl⟩, ⟨block.number, [], rfl⟩, fun l hl => absurd hl (hnothing l),
    fun t ht => absurd ht List.not_mem_nil, rfl, rfl, Or.inl rfl⟩,
    fun _ _ hrow => (by cases hrow), fun _ _ _ hsubmitted => (by cases hsubmitted),
    fun _ hrow => (by cases hrow), fun r hr => absurd hr List.not_mem_nil,
    fun x hx => absurd hx List.not_mem_nil⟩

theorem orderLaw_init (d : Deployment κ W) (tokens : W) (block : Block) :
    OrderLaw (init d tokens block) :=
  ⟨⟨block.number, [], rfl⟩, fun _ h => absurd rfl h⟩

/-- The run lemma. -/
theorem ledgerLaw_run {as : List (Action κ W)} (h : LedgerLaw d info s) (horders : OrderLaw s)
    (hok : Along d (Attentive d info) s as) :
    LedgerLaw d info (run d s as) ∧ OrderLaw (run d s as) :=
  run_invariant (I := fun s => LedgerLaw d info s ∧ OrderLaw s)
    (fun s a hs hok => ⟨ledgerLaw_step s a hs.1 hs.2 hok, orderLaw_step s a hs.2⟩)
    ⟨h, horders⟩ hok

end Law

end FallbackWatcher

end NeutronX
