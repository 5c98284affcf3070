import NeutronX.ConfigHistory

/-!
# The history page

The page shows the rows of the feed, newest first, and with each what
changed against the configuration that was live before. The feed does not
say what that was: the page takes the snapshot of the next row that is not
of a proposal (`findPrevSnapshot`). That is right as far as the rows are
complete, and as long as no two changes share a block
(`prev_snapshot_live`).
-/

namespace NeutronX

open Evm Function

namespace StakeConfigIndexer

variable {κ W : Type} [DecidableEq κ] {d : Deployment κ W}

/-- What `GET /stake-config/history` may answer: rows of the table, those of
later blocks first, and none left out before the limit. -/
structure Served (db : Database) (rows : List (LogId × HistoryRow)) : Prop where
  stored : ∀ r ∈ rows, db.history r.1 = some r.2
  sorted : rows.Pairwise fun r r' => r'.2.blockNumber ≤ r.2.blockNumber
  limit : ∀ id row, db.history id = some row →
    (id, row) ∈ rows ∨ ∀ r ∈ rows, row.blockNumber ≤ r.2.blockNumber

/-- The base of the diff that the page shows for a row. -/
def findPrevSnapshot (rows : List HistoryRow) (index : Nat) : Option StakeConfig :=
  (rows.drop (index + 1)).findSome? fun row =>
    if row.eventType.isLive = true then row.configSnapshot else none

/-- The rows before the one that is found are of proposals. -/
theorem findPrevSnapshot_eq_some {db : Database}
    (hlive : ∀ id row, db.history id = some row → row.eventType.isLive = true →
      row.configSnapshot = some (db.stakeConfig row.blockNumber))
    {before after : List (LogId × HistoryRow)} {row : LogId × HistoryRow}
    (hserved : Served db (before ++ row :: after)) {c : StakeConfig}
    (h : findPrevSnapshot ((before ++ row :: after).map Prod.snd) before.length = some c) :
    ∃ between r older, after = between ++ r :: older ∧ r.2.eventType.isLive = true ∧
      r.2.configSnapshot = some c ∧ ∀ x ∈ between, x.2.eventType.isLive = false := by
  have hafter : ((before ++ row :: after).map Prod.snd).drop (before.length + 1)
      = after.map Prod.snd := by
    simp [List.map_append, List.drop_append]
  rw [findPrevSnapshot, hafter, List.findSome?_map, List.findSome?_eq_some_iff] at h
  obtain ⟨between, r, older, rfl, hr, hbetween⟩ := h
  dsimp only [Function.comp] at hr hbetween
  split at hr
  · rename_i hrlive
    refine ⟨between, r, older, rfl, hrlive, hr, fun x hx => ?_⟩
    by_contra hxlive
    have hxlive : x.2.eventType.isLive = true := by simpa using hxlive
    have hnone := hbetween x hx
    rw [if_pos hxlive, hlive x.1 x.2 (hserved.stored x (by simp [hx])) hxlive] at hnone
    cases hnone
  · cases hr

/-- **The base of a diff was live.** Where no insert fails, the snapshot that
the page compares a row of the feed with is the configuration that was live
just before the block of the row, unless the row it is taken from is of the
same block: then it is what is live after it. -/
theorem prev_snapshot_live {tokens : W} {block : Block} {as : List (Action κ W)}
    (h : Along (step d) Inserts (init d tokens block) as) {first last : Nat}
    (hfirst : (run d (init d tokens block) as).indexer.startBlock () = some first)
    (hlast : (run d (init d tokens block) as).indexer.checkpoint () = some last)
    {before after : List (LogId × HistoryRow)} {row : LogId × HistoryRow}
    (hserved : Served (run d (init d tokens block) as).indexer.db (before ++ row :: after))
    {c : StakeConfig}
    (hc : findPrevSnapshot ((before ++ row :: after).map Prod.snd) before.length = some c) :
    let db := (run d (init d tokens block) as).indexer.db
    ∃ r ∈ after, r.2.configSnapshot = some c ∧
      (r.2.blockNumber = row.2.blockNumber ∧ c = db.stakeConfig row.2.blockNumber ∨
        r.2.blockNumber < row.2.blockNumber ∧
          (first ≤ r.2.blockNumber → row.2.blockNumber ≤ last + 1 →
            c = db.stakeConfig (row.2.blockNumber - 1))) := by
  intro db
  have hlaw : HistoryLaw (run d (init d tokens block) as) := historyLaw_run tokens block as
  have hlive : ∀ id row, db.history id = some row → row.eventType.isLive = true →
      row.configSnapshot = some (db.stakeConfig row.blockNumber) := by
    intro id row hrow hlive
    obtain ⟨l, -, -, -, hrecords⟩ := hlaw.table.rows id row hrow
    exact hrecords.live hlive
  obtain ⟨between, r, older, rfl, hrlive, hsnapshot, hbetween⟩ :=
    findPrevSnapshot_eq_some hlive hserved hc
  have hr := hlive r.1 r.2 (hserved.stored r (by simp)) hrlive
  rw [hsnapshot] at hr
  have hsorted := hserved.sorted
  rw [List.pairwise_append, List.pairwise_cons, List.pairwise_append, List.pairwise_cons] at hsorted
  obtain ⟨-, ⟨hrow, -, ⟨holder, -⟩, hcross⟩, hbefore⟩ := hsorted
  refine ⟨r, by simp, hsnapshot, ?_⟩
  rcases Nat.lt_or_eq_of_le (hrow r (by simp)) with hlt | heq
  · refine Or.inr ⟨hlt, fun hstart hend => ?_⟩
    obtain ⟨-, hquiet⟩ := history_complete h hfirst hlast
    rw [Option.some.inj hr]
    refine (hquiet r.2.blockNumber (row.2.blockNumber - 1) hstart (by omega) (by omega) ?_).symm
    -- a row of a block in between would stand between the two
    intro id x hx hxlive hafter
    by_contra hupto
    rcases hserved.limit id x hx with hmem | hlimit
    · rcases List.mem_append.mp hmem with hmem | hmem
      · have := hbefore _ hmem row (List.mem_cons_self ..)
        dsimp only at this
        omega
      · rcases List.mem_cons.mp hmem with rfl | hmem
        · dsimp only at hupto hlt
          omega
        · rcases List.mem_append.mp hmem with hmem | hmem
          · have hfalse := hbetween _ hmem
            dsimp only at hfalse
            rw [hxlive] at hfalse
            cases hfalse
          · rcases List.mem_cons.mp hmem with rfl | hmem
            · exact Nat.lt_irrefl _ hafter
            · have := holder _ hmem
              dsimp only at this
              omega
    · have := hlimit r (by simp)
      omega
  · exact Or.inl ⟨heq, by rw [Option.some.inj hr, heq]⟩

/-- The row of the rollback is compared with the floor of 1 wei. -/
theorem prev_snapshot_live_rolledBack :
    ∃ (db : Database) (r : LogId × HistoryRow) (c : StakeConfig), c.minCollateral = 1 ∧
      r.2.configSnapshot = some c ∧ c = db.stakeConfig (12 - 1) := by
  let floored : StakeConfig := { DynamicStakeLib.defaultStakeConfig with minCollateral := 1 }
  let applied : LogId × HistoryRow := (⟨3, 0⟩, ⟨.applied, 11, 3, none, some floored⟩)
  let rolledBack : LogId × HistoryRow :=
    (⟨4, 0⟩, ⟨.rollback, 12, 4, none, some DynamicStakeLib.defaultStakeConfig⟩)
  have hfirst : (run Ledger.deployment (init Ledger.deployment (fun _ _ => 0) ⟨10, 100⟩)
      floorRolledBack).indexer.startBlock () = some 10 := by decide +kernel
  have hlast : (run Ledger.deployment (init Ledger.deployment (fun _ _ => 0) ⟨10, 100⟩)
      floorRolledBack).indexer.checkpoint () = some 12 := by decide +kernel
  have hids : (run Ledger.deployment (init Ledger.deployment (fun _ _ => 0) ⟨10, 100⟩)
      floorRolledBack).indexer.logs.map Log.id = [⟨4, 0⟩, ⟨3, 0⟩] := by decide +kernel
  have happlied : (run Ledger.deployment (init Ledger.deployment (fun _ _ => 0) ⟨10, 100⟩)
      floorRolledBack).indexer.db.history ⟨3, 0⟩ = some applied.2 := by decide +kernel
  have hrolledBack : (run Ledger.deployment (init Ledger.deployment (fun _ _ => 0) ⟨10, 100⟩)
      floorRolledBack).indexer.db.history ⟨4, 0⟩ = some rolledBack.2 := by decide +kernel
  have hserved : Served (run Ledger.deployment (init Ledger.deployment (fun _ _ => 0) ⟨10, 100⟩)
      floorRolledBack).indexer.db ([] ++ rolledBack :: [applied]) := by
    refine ⟨fun r hr => ?_, by simp [applied, rolledBack], fun id row hrow => Or.inl ?_⟩
    · simp only [List.nil_append, List.mem_cons, List.not_mem_nil, or_false] at hr
      rcases hr with rfl | rfl
      · exact hrolledBack
      · exact happlied
    · obtain ⟨l, hl, rfl, -⟩ := (historyLaw_run _ _ floorRolledBack).table.rows id row hrow
      have hid := List.mem_map_of_mem (f := Log.id) hl
      rw [hids] at hid
      simp only [List.mem_cons, List.not_mem_nil, or_false] at hid
      rcases hid with hid | hid
      · rw [hid, hrolledBack] at hrow
        rw [hid, ← Option.some.inj hrow]
        exact List.mem_cons_self ..
      · rw [hid, happlied] at hrow
        rw [hid, ← Option.some.inj hrow]
        exact List.mem_cons_of_mem _ (List.mem_cons_self ..)
  obtain ⟨r, hr, hsnapshot, hcases⟩ :=
    prev_snapshot_live inserts_floorRolledBack hfirst hlast hserved (c := floored) rfl
  obtain rfl := List.mem_singleton.mp hr
  rcases hcases with ⟨hsame, -⟩ | ⟨-, hbase⟩
  · cases hsame
  · exact ⟨_, applied, floored, rfl, hsnapshot, hbase (by decide) (by decide)⟩

end StakeConfigIndexer

end NeutronX
