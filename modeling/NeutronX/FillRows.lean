import NeutronX.EventIndexer

/-!
# The rows of the fills table

Where the rows of `fills` come from: each is the row of a partial fill that
was logged, or of a fallback that was. Logs have identities of their own,
and so have rows, so a partial fill whose handler has passed its insert has
exactly its row in the table.
-/

namespace NeutronX

open Evm

namespace EventIndexer

variable {κ : Type} [DecidableEq κ]

theorem Database.mem_fillsOf {db : Database κ} {hash : κ} {r : FillRow κ} :
    r ∈ db.fillsOf hash ↔ r ∈ db.fills ∧ r.orderHash = hash := by
  simp [Database.fillsOf]

theorem fallbackLogged_iff {logs : List (Log (Event κ))} {orderHash : κ} {id : LogId} :
    fallbackLogged logs orderHash id = true ↔
      ∃ l ∈ logs, l.id = id ∧ ∃ amountIn amountOut,
        l.args = .fallbackExecuted orderHash amountIn amountOut := by
  simp only [fallbackLogged, List.any_eq_true, Bool.and_eq_true, decide_eq_true_eq]
  constructor
  · rintro ⟨l, hl, hid, hargs⟩
    refine ⟨l, hl, hid, ?_⟩
    split at hargs
    · rename_i hash amountIn amountOut heq
      rw [heq, of_decide_eq_true hargs]
      exact ⟨amountIn, amountOut, rfl⟩
    · cases hargs
    · cases hargs
  · rintro ⟨l, hl, hid, amountIn, amountOut, hargs⟩
    refine ⟨l, hl, hid, ?_⟩
    rw [hargs]
    exact decide_eq_true rfl

/-- What a row of the table is about. -/
inductive Genuine (logs : List (Log (Event κ))) (r : FillRow κ) : Prop
  | filler (l : Log (Event κ)) (hash : κ) (filler : Address) (fillAmount outputAmount : Nat)
      (mem : l ∈ logs)
      (args : l.args = .partialFillExecuted hash filler fillAmount outputAmount)
      (row : r = fillRow l hash filler fillAmount outputAmount)
  | fallback (logged : fallbackLogged logs r.orderHash r.id = true) (source : r.source = .fallback)

theorem Genuine.mono {logs logs' : List (Log (Event κ))} {r : FillRow κ} (h : Genuine logs r)
    (hlogs : ∀ l ∈ logs, l ∈ logs') : Genuine logs' r := by
  cases h with
  | filler l hash filler fillAmount outputAmount mem args row =>
      exact .filler l hash filler fillAmount outputAmount (hlogs l mem) args row
  | fallback logged source =>
      obtain ⟨l, hl, hargs⟩ := fallbackLogged_iff.mp logged
      exact .fallback (fallbackLogged_iff.mpr ⟨l, hlogs l hl, hargs⟩) source

/-- The log a row is about has its identity. -/
theorem Genuine.logged {logs : List (Log (Event κ))} {r : FillRow κ} (h : Genuine logs r) :
    ∃ l ∈ logs, l.id = r.id := by
  cases h with
  | filler l hash filler fillAmount outputAmount mem args row =>
      subst row
      exact ⟨l, mem, rfl⟩
  | fallback logged source =>
      obtain ⟨l, hl, hid, -⟩ := fallbackLogged_iff.mp logged
      exact ⟨l, hl, hid⟩

structure FillsLaw (s : State κ) : Prop where
  logIds : (s.logs.map Log.id).Nodup
  rowIds : (s.db.fills.map FillRow.id).Nodup
  rows : ∀ r ∈ s.db.fills, Genuine s.logs r
  stored : StoredLaw s

/-- A table that has not changed, or got one row it did not have. -/
inductive FillsGrow (logs : List (Log (Event κ))) (db db' : Database κ) : Prop
  | same (h : db'.fills = db.fills)
  | added (r : FillRow κ) (fresh : ∀ r' ∈ db.fills, r'.id ≠ r.id) (genuine : Genuine logs r)
      (h : db'.fills = r :: db.fills)

theorem fillsGrow_insertFill {logs : List (Log (Event κ))} {db db' : Database κ}
    {row : FillRow κ} (h : db.insertFill row = some db') (hrow : Genuine logs row) :
    FillsGrow logs db db' := by
  rcases insertFill_spec h with ⟨-, rfl⟩ | ⟨hfresh, -, rfl⟩
  · exact .same rfl
  · exact .added row hfresh hrow rfl

theorem fillsGrow_other (w : Write κ) (number : Nat) (logs : List (Log (Event κ)))
    (db : Database κ) : FillsGrow logs db (other w number logs db) := by
  cases w with
  | createOrder hash info printed =>
      simp only [other, Database.createOrder]
      split <;> exact .same rfl
  | cancelOrder hash => exact .same rfl
  | expire currentBlock =>
      simp only [other]
      split <;> exact .same rfl
  | setFallback hash id =>
      simp only [other]
      split <;> exact .same rfl
  | insertFallback row =>
      simp only [other]
      split
      · rename_i hlogged
        cases hinsert : db.insertFill row.row with
        | none => exact .same rfl
        | some db' => exact fillsGrow_insertFill hinsert (.fallback hlogged rfl)
      · exact .same rfl

/-- The only statement of a handler that inserts is its first. -/
theorem fillsGrow_executes {logs : List (Log (Event κ))} {db db' : Database κ}
    {l : Log (Event κ)} {j : Statement κ} {next : Option (Statement κ)} (hl : l ∈ logs)
    (hstage : Stage db l j) (h : Executes db db' j next) : FillsGrow logs db db' := by
  cases h with
  | selectFilled hash h => exact .same (by rw [h])
  | updateStatus hash status h =>
      subst h
      exact .same rfl
  | cancelNonce swapper nonce h =>
      subst h
      exact .same rfl
  | insertFill row h =>
      refine fillsGrow_insertFill h ?_
      generalize hj : Statement.insertFill row = j at hstage
      cases hstage with
      | select args stored => cases hj
      | update status args stored => cases hj
      | start =>
          unfold handle at hj
          split at hj
          · rename_i hash filler fillAmount outputAmount hargs
            exact .filler l hash filler fillAmount outputAmount hl hargs
              (Statement.insertFill.inj hj)
          · cases hj
          · cases hj

theorem FillsLaw.grow {s s' : State κ} (h : FillsLaw s) (hlogs : s'.logs = s.logs)
    (hgrow : FillsGrow s.logs s.db s'.db) (hstored : StoredLaw s') : FillsLaw s' := by
  cases hgrow with
  | same hfills =>
      refine ⟨by rw [hlogs]; exact h.logIds, by rw [hfills]; exact h.rowIds, ?_, hstored⟩
      rw [hfills, hlogs]
      exact h.rows
  | added r fresh genuine hfills =>
      refine ⟨by rw [hlogs]; exact h.logIds, ?_, ?_, hstored⟩
      · rw [hfills, List.map_cons, List.nodup_cons]
        refine ⟨fun hmem => ?_, h.rowIds⟩
        obtain ⟨r', hr', hid⟩ := List.mem_map.mp hmem
        exact fresh r' hr' hid
      · rw [hfills, hlogs]
        intro r' hr'
        rcases List.mem_cons.mp hr' with rfl | hr'
        · exact genuine
        · exact h.rows r' hr'

theorem fillsLaw_change {s s' : State κ} {a : Action κ} (hs : Indexer.Sourced s)
    (h : FillsLaw s) (hchange : Indexer.Change eventIndexer s a s') : FillsLaw s' := by
  have hstored := storedLaw_change h.stored hchange
  cases hchange with
  | quiet number logs db applied works => exact h.grow logs (.same (by rw [db])) hstored
  | emitted events action ids fresh number logs db applied works =>
      refine ⟨?_, by rw [db]; exact h.rowIds, ?_, hstored⟩
      · rw [logs, List.map_append, List.map_map]
        refine List.nodup_append.mpr ⟨ids, h.logIds, fun id hid id' hid' => ?_⟩
        obtain ⟨e, he, rfl⟩ := List.mem_map.mp hid
        obtain ⟨l, hl, rfl⟩ := List.mem_map.mp hid'
        exact Ne.symm (fresh e he l hl)
      · rw [db, logs]
        exact fun r hr => (h.rows r hr).mono fun l hl => List.mem_append_right _ hl
  | other w action hs' =>
      subst hs'
      exact h.grow rfl (fillsGrow_other w _ _ _) hstored
  | executed i outcome action answered l j next hand number logs exec applied works =>
      exact h.grow logs (fillsGrow_executes (hs.works ⟨i, hand⟩)
        (h.stored.works l j ⟨i, hand⟩) (exec_spec exec)) hstored

theorem fillsLaw_init (number : Nat) {db : Database κ} (h : db.fills = []) :
    FillsLaw (Indexer.State.init number db : State κ) := by
  refine ⟨List.nodup_nil, by rw [Indexer.State.init, h]; exact List.nodup_nil, ?_,
    storedLaw_init number db⟩
  rw [Indexer.State.init, h]
  exact fun _ hr => absurd hr List.not_mem_nil

/-- A partial fill that is stored has its own row. -/
theorem FillsLaw.row_mem {s : State κ} (h : FillsLaw s) {l : Log (Event κ)} (hl : l ∈ s.logs)
    {hash : κ} {filler : Address} {fillAmount outputAmount : Nat}
    (hargs : l.args = .partialFillExecuted hash filler fillAmount outputAmount)
    (hstored : Stored s.db l) : fillRow l hash filler fillAmount outputAmount ∈ s.db.fills := by
  obtain ⟨r, hr, hid⟩ := hstored
  have hsame : ∀ {l'}, l' ∈ s.logs → l'.id = l.id → l' = l := fun hl' hid' =>
    List.inj_on_of_nodup_map h.logIds hl' hl hid'
  cases h.rows r hr with
  | filler l' hash' filler' fillAmount' outputAmount' mem args row =>
      subst row
      obtain rfl := hsame mem hid
      rw [hargs] at args
      cases args
      exact hr
  | fallback logged source =>
      obtain ⟨l', hl', hid', amountIn, amountOut, hfallback⟩ := fallbackLogged_iff.mp logged
      obtain rfl := hsame hl' (hid'.trans hid)
      rw [hargs] at hfallback
      cases hfallback

/-! ## Rows and logs of one order -/

/-- The row a log becomes in the fills of an order. -/
def fillOf (hash : κ) (l : Log (Event κ)) : Option (FillRow κ) :=
  match l.args with
  | .partialFillExecuted orderHash filler fillAmount outputAmount =>
      if orderHash = hash then some (fillRow l orderHash filler fillAmount outputAmount) else none
  | .fallbackExecuted _ _ _ => none
  | .nonceInvalidated _ _ => none

theorem fillOf_eq_some {hash : κ} {l : Log (Event κ)} {r : FillRow κ} :
    fillOf hash l = some r ↔ ∃ filler fillAmount outputAmount,
      l.args = .partialFillExecuted hash filler fillAmount outputAmount ∧
      r = fillRow l hash filler fillAmount outputAmount := by
  unfold fillOf
  split
  · rename_i orderHash filler fillAmount outputAmount hargs
    split
    · rename_i heq
      subst heq
      constructor
      · intro h
        exact ⟨filler, fillAmount, outputAmount, hargs, (Option.some.inj h).symm⟩
      · rintro ⟨_, _, _, h, rfl⟩
        rw [hargs] at h
        cases h
        rfl
    · rename_i hne
      refine ⟨fun h => (by cases h), ?_⟩
      rintro ⟨_, _, _, h, -⟩
      rw [hargs] at h
      cases h
      exact absurd rfl hne
  all_goals
    rename_i hargs
    refine ⟨fun h => (by cases h), ?_⟩
    rintro ⟨_, _, _, h, -⟩
    rw [hargs] at h
    cases h

/-- The log can be read off its row. -/
theorem fillOf_injective {hash : κ} {l l' : Log (Event κ)} {r : FillRow κ}
    (h : fillOf hash l = some r) (h' : fillOf hash l' = some r) : l = l' := by
  obtain ⟨filler, fillAmount, outputAmount, hargs, rfl⟩ := fillOf_eq_some.mp h
  obtain ⟨filler', fillAmount', outputAmount', hargs', hrow⟩ := fillOf_eq_some.mp h'
  obtain ⟨id, blockNumber, args⟩ := l
  obtain ⟨id', blockNumber', args'⟩ := l'
  simp only [fillRow, FillRow.mk.injEq] at hrow
  obtain ⟨rfl, -, rfl, rfl, rfl, rfl, -⟩ := hrow
  subst hargs hargs'
  rfl

/-- The rows of an order's partial fills, newest first. -/
def loggedFills (logs : List (Log (Event κ))) (hash : κ) : List (FillRow κ) :=
  logs.filterMap (fillOf hash)

/-- The fillers' rows of an order are those of its partial fills among
`logs`, if these are all stored and no row is about another log. -/
theorem FillsLaw.fills_perm {s : State κ} (h : FillsLaw s) {hash : κ}
    {logs : List (Log (Event κ))} (hsub : ∀ l ∈ logs, l ∈ s.logs)
    (hids : (logs.map Log.id).Nodup)
    (hstored : ∀ l ∈ logs, (fillOf hash l).isSome = true → Stored s.db l)
    (hrows : ∀ r ∈ s.db.fillsOf hash, r.source = .filler → ∃ l ∈ logs, l.id = r.id) :
    ((s.db.fillsOf hash).filter fun r => r.source = .filler).Perm (loggedFills logs hash) := by
  have hrowsNodup : s.db.fills.Nodup := h.rowIds.of_map _
  have hlogsNodup : (loggedFills logs hash).Nodup :=
    (hids.of_map _).filterMap fun l l' r hr hr' => fillOf_injective hr hr'
  refine (List.perm_ext_iff_of_nodup ((hrowsNodup.filter _).filter _) hlogsNodup).mpr fun r => ?_
  simp only [loggedFills, List.mem_filterMap, List.mem_filter, decide_eq_true_eq]
  constructor
  · rintro ⟨⟨hfill, hhash⟩, hsource⟩
    obtain ⟨l', hl', hid⟩ := hrows r (Database.mem_fillsOf.mpr ⟨hfill, hhash⟩) hsource
    cases h.rows r hfill with
    | filler l orderHash filler fillAmount outputAmount mem args row =>
        subst row
        obtain rfl : l' = l :=
          List.inj_on_of_nodup_map h.logIds (hsub l' hl') mem hid
        obtain rfl : orderHash = hash := hhash
        exact ⟨l', hl', fillOf_eq_some.mpr ⟨filler, fillAmount, outputAmount, args, rfl⟩⟩
    | fallback logged source =>
        rw [source] at hsource
        cases hsource
  · rintro ⟨l, hl, hrow⟩
    have hstored := hstored l hl (by rw [hrow]; rfl)
    obtain ⟨filler, fillAmount, outputAmount, hargs, rfl⟩ := fillOf_eq_some.mp hrow
    exact ⟨⟨h.row_mem (hsub l hl) hargs hstored, rfl⟩, rfl⟩

/-! ## States of the indexer -/

/-- A state the indexer comes to from empty tables, whatever fails. -/
def Reachable (s : State κ) : Prop :=
  ∃ number as, s = eventIndexer.run (.init number ⟨fun _ => none, [], []⟩) as

theorem Reachable.laws {s : State κ} (h : Reachable s) : Indexer.Sourced s ∧ FillsLaw s := by
  obtain ⟨number, as, rfl⟩ := h
  exact Indexer.init_invariant_of_change (fillsLaw_init number rfl) fillsLaw_change as

end EventIndexer

end NeutronX
