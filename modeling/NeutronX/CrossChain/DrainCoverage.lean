import NeutronX.CrossChain.EscrowDrain

/-!
# No block is left out

Whatever fails, a watcher only moves past a block once every query of it
was answered for a range with that block. A round of the loop starts no
later than the block after the last one processed, its chunks tile its
range, and the last block moves to the end of the range only when both
queries were answered (`Round`). With the backfill enabled and on one chain,
connecting goes on at the stored checkpoint (`Resolves`), which the last
block is never behind: so the checkpoint never decreases either.
-/

namespace NeutronX.CrossChain

open Evm

namespace EscrowDrain

variable {H : Type} {c : Config} {genesis : H}

/-! ## What was answered -/

namespace History

/-- The block was in an answered range of every query of the watcher. -/
def Answered (h : History) (c : Config) (n : Int) : Prop :=
  (∃ r ∈ h.filtered, r.Covers n) ∧ (c.rawLogs = true → ∃ r ∈ h.raw, r.Covers n)

/-- So was every block after the start block up to `N`. -/
def Covered (h : History) (c : Config) (N : Int) : Prop :=
  ∀ b ∈ h.startBlock, ∀ n, b < n → n ≤ N → h.Answered c n

/-- Nothing is forgotten, and the start block stays. -/
structure Extends (h h' : History) : Prop where
  startBlock : ∀ b ∈ h'.startBlock, b ∈ h.startBlock
  filtered : ∀ r ∈ h.filtered, r ∈ h'.filtered
  raw : ∀ r ∈ h.raw, r ∈ h'.raw

variable {h h' : History} {n N : Int}

theorem Extends.refl (h : History) : h.Extends h :=
  ⟨fun _ hb => hb, fun _ hr => hr, fun _ hr => hr⟩

theorem Extends.answered (hext : h.Extends h') (hn : h.Answered c n) : h'.Answered c n := by
  obtain ⟨⟨r, hr, hcovers⟩, hraw⟩ := hn
  refine ⟨⟨r, hext.filtered r hr, hcovers⟩, ?_⟩
  intro hboth
  obtain ⟨q, hq, hqcovers⟩ := hraw hboth
  exact ⟨q, hext.raw q hq, hqcovers⟩

theorem Extends.covered (hext : h.Extends h') (hN : h.Covered c N) : h'.Covered c N :=
  fun b hb n hlt hle => hext.answered (hN b (hext.startBlock b hb) n hlt hle)

/-- A range that starts no later than the next block covers up to its end. -/
theorem Covered.extend {fromBlock toBlock : Int} (hN : h.Covered c N)
    (hfrom : fromBlock ≤ N + 1)
    (hrange : ∀ n, fromBlock ≤ n → n ≤ toBlock → h.Answered c n) : h.Covered c toBlock := by
  intro b hb n hlt hle
  by_cases hold : n ≤ N
  · exact hN b hb n hlt hold
  · exact hrange n (by omega) hle

end History

/-! ## A round of the loop -/

/-- A range that leaves no block out after the last one processed, up to one
that was announced. -/
structure Follows (p : Process H) (fromBlock toBlock : Int) : Prop where
  fromBlock : fromBlock ≤ p.lastBlock + 1
  lastBlock : p.lastBlock < toBlock
  latestSeen : toBlock ≤ p.latestSeen

/-- What a round has asked for, in each of its phases. -/
inductive Round (c : Config) (h : History) (p : Process H) : Drain → Prop where
  | querying {fromBlock toBlock start : Int} {chunks : List BlockRange} {raw : Bool} :
      Follows p fromBlock toBlock →
      (0 ≤ c.chunk → Tiling fromBlock chunks (min start (toBlock + 1))) →
      -- the loop never ends with a negative size
      (c.chunk < 0 → start ≤ fromBlock) →
      (∀ r ∈ chunks, r ∈ h.filtered) →
      (raw = true → c.rawLogs = true → ⟨fromBlock, toBlock⟩ ∈ h.raw) →
      Round c h p ⟨fromBlock, toBlock, chunks, .querying start raw⟩
  | handling {fromBlock toBlock : Int} {chunks : List BlockRange} :
      Follows p fromBlock toBlock →
      Tiling fromBlock chunks (toBlock + 1) →
      (∀ r ∈ chunks, r ∈ h.filtered) →
      (c.rawLogs = true → ⟨fromBlock, toBlock⟩ ∈ h.raw) →
      Round c h p ⟨fromBlock, toBlock, chunks, .handling⟩
  | storing {fromBlock toBlock : Int} {chunks : List BlockRange} :
      p.lastBlock = toBlock → Round c h p ⟨fromBlock, toBlock, chunks, .storing⟩

namespace Round

variable {h h' : History} {p p' : Process H} {d : Drain}

/-- A round stays what it is while blocks are announced and more is asked for. -/
theorem mono (hround : Round c h p d) (hext : h.Extends h') (hlast : p'.lastBlock = p.lastBlock)
    (hseen : p.latestSeen ≤ p'.latestSeen) : Round c h' p' d := by
  have hfollows : ∀ {fromBlock toBlock}, Follows p fromBlock toBlock →
      Follows p' fromBlock toBlock := by
    intro fromBlock toBlock hd
    refine ⟨?_, ?_, Int.le_trans hd.latestSeen hseen⟩
    · rw [hlast]
      exact hd.fromBlock
    · rw [hlast]
      exact hd.lastBlock
  cases hround with
  | querying hd htiling hneg hchunks hraw =>
      exact .querying (hfollows hd) htiling hneg (fun r hr => hext.filtered r (hchunks r hr))
        fun hdone hboth => hext.raw _ (hraw hdone hboth)
  | handling hd htiling hchunks hraw =>
      exact .handling (hfollows hd) htiling (fun r hr => hext.filtered r (hchunks r hr))
        fun hboth => hext.raw _ (hraw hboth)
  | storing hto => exact .storing (hlast.trans hto)

/-- The blocks of a round that is being handled were all asked for. -/
theorem answered {fromBlock toBlock : Int} {chunks : List BlockRange}
    (hround : Round c h p ⟨fromBlock, toBlock, chunks, .handling⟩) {n : Int}
    (hfrom : fromBlock ≤ n) (hto : n ≤ toBlock) : h.Answered c n := by
  cases hround with
  | handling _ htiling hchunks hraw =>
      obtain ⟨r, hr, hcovers⟩ := htiling.exists_covers hfrom (by omega)
      exact ⟨⟨r, hchunks r hr, hcovers⟩, fun hboth => ⟨_, hraw hboth, hfrom, hto⟩⟩

end Round

/-! ## Connecting -/

/-- A row of this chain, with a checkpoint up to `N`. -/
structure Row.Below (genesis : H) (N : Int) (r : Row H) : Prop where
  last_block : r.last_block ≤ N
  fingerprint : ∀ f ∈ r.fingerprint, f = genesis

/-- The statements that are left, with the row they are executed on and what
they resolve to: the checkpoint that is stored in the end. -/
inductive Resolves (genesis : H) (current : Int) :
    Option (Row H) → List (Statement H) → Int → Prop where
  | first {fingerprint : Option H} :
      (∀ f ∈ fingerprint, f = genesis) →
      Resolves genesis current none [.insert current fingerprint] current
  | upgrade {r : Row H} :
      Resolves genesis current (some r) [.setFingerprint genesis] r.last_block
  | done {r : Row H} : Resolves genesis current (some r) [] r.last_block

theorem Resolves.stored {current resolved : Int} {row : Option (Row H)}
    (h : Resolves genesis current row [] resolved) :
    ∃ r, row = some r ∧ r.last_block = resolved := by
  cases h with
  | done => exact ⟨_, rfl, rfl⟩

theorem rewind_eq (hbackfill : c.backfill = true) {last current : Int} (hle : last ≤ current) :
    rewind c last current = (([] : List (Statement H)), last) := by
  have hahead : ¬current < last := Int.not_lt.mpr hle
  simp [rewind, hahead, hbackfill]

/-- With the backfill, a checkpoint of this chain is where to go on. -/
theorem resolveCheckpoint_resolves [DecidableEq H] (hbackfill : c.backfill = true)
    {row : Option (Row H)} {current : Int} {fingerprint : Option H}
    (hrow : ∀ r ∈ row, r.Below genesis current) (hfingerprint : ∀ f ∈ fingerprint, f = genesis) :
    Resolves genesis current row (resolveCheckpoint c row current fingerprint).1
      (resolveCheckpoint c row current fingerprint).2 := by
  cases row with
  | none => exact .first hfingerprint
  | some r =>
      obtain ⟨hlast, hstored⟩ := hrow r rfl
      obtain ⟨last, stored⟩ := r
      have hrewind : rewind c last current = (([] : List (Statement H)), last) :=
        rewind_eq hbackfill hlast
      cases fingerprint with
      | none =>
          simp only [resolveCheckpoint, hrewind]
          exact .done
      | some found =>
          obtain rfl := hfingerprint found rfl
          cases stored with
          | none =>
              simp only [resolveCheckpoint, hrewind]
              exact .upgrade
          | some f =>
              obtain rfl := hstored f rfl
              simp only [resolveCheckpoint, ne_eq, not_true_eq_false, if_false, hrewind]
              exact .done

/-- No block was processed yet. -/
structure Process.Idle (p : Process H) : Prop where
  lastBlock : p.lastBlock = -1
  drain : p.drain = none

/-- What is known at each request of the connect loop, and from then on. -/
inductive Connects (c : Config) (genesis : H) (tip : Nat) (row : Option (Row H)) (h : History)
    (p : Process H) : Connection H → Prop where
  | ensureTable : p.Idle → Connects c genesis tip row h p .ensureTable
  | getBlockNumber : p.Idle → Connects c genesis tip row h p .getBlockNumber
  | getGenesis {current : Int} :
      p.Idle → current ≤ tip → (∀ r ∈ row, r.last_block ≤ current) →
      Connects c genesis tip row h p (.getGenesis current)
  | readRow {current : Int} {fingerprint : Option H} :
      p.Idle → current ≤ tip → (∀ r ∈ row, r.last_block ≤ current) →
      (∀ f ∈ fingerprint, f = genesis) →
      Connects c genesis tip row h p (.readRow current fingerprint)
  | writeRow {current resolved : Int} {statements : List (Statement H)} :
      p.Idle → current ≤ tip → Resolves genesis current row statements resolved →
      Connects c genesis tip row h p (.writeRow statements resolved current)
  | connected {r : Row H} :
      row = some r → r.last_block ≤ p.lastBlock → p.lastBlock ≤ tip →
      p.floorBlock ≤ p.lastBlock → h.Covered c p.lastBlock →
      Connects c genesis tip row h p .connected

namespace Connects

variable {tip tip' : Nat} {row : Option (Row H)} {h h' : History} {p p' : Process H}
  {connection : Connection H}

/-- A process that does not move its last block is as connected as before. -/
theorem mono (hconnects : Connects c genesis tip row h p connection) (htip : tip ≤ tip')
    (hext : h.Extends h') (hlast : p'.lastBlock = p.lastBlock)
    (hfloor : p'.floorBlock = p.floorBlock) (hdrain : p.drain = none → p'.drain = none) :
    Connects c genesis tip' row h' p' connection := by
  have hcast : (tip : Int) ≤ tip' := by exact_mod_cast htip
  have hidle : p.Idle → p'.Idle := fun hp => ⟨hlast.trans hp.lastBlock, hdrain hp.drain⟩
  cases hconnects with
  | ensureTable hp => exact .ensureTable (hidle hp)
  | getBlockNumber hp => exact .getBlockNumber (hidle hp)
  | getGenesis hp hcurrent hrow =>
      exact .getGenesis (hidle hp) (Int.le_trans hcurrent hcast) hrow
  | readRow hp hcurrent hrow hfingerprint =>
      exact .readRow (hidle hp) (Int.le_trans hcurrent hcast) hrow hfingerprint
  | writeRow hp hcurrent hresolves =>
      exact .writeRow (hidle hp) (Int.le_trans hcurrent hcast) hresolves
  | connected hrow hcheckpoint hle hp hcovered =>
      rw [← hlast] at hcheckpoint hle hp hcovered
      exact .connected hrow hcheckpoint (Int.le_trans hle hcast) (hfloor ▸ hp)
        (hext.covered hcovered)

/-- Blocks are processed after connecting only. -/
theorem connected_of_lastBlock (hconnects : Connects c genesis tip row h p connection)
    (hlast : 0 ≤ p.lastBlock) : connection = .connected := by
  cases hconnects with
  | connected => rfl
  | ensureTable hp | getBlockNumber hp | getGenesis hp | readRow hp | writeRow hp =>
      have hidle := hp.lastBlock
      omega

theorem connected_of_drain (hconnects : Connects c genesis tip row h p connection)
    {d : Drain} (hdrain : p.drain = some d) : connection = .connected := by
  cases hconnects with
  | connected => rfl
  | ensureTable hp | getBlockNumber hp | getGenesis hp | readRow hp | writeRow hp =>
      exact nomatch hdrain.symm.trans hp.drain

end Connects

/-! ## Every state that is reached -/

structure Inv (c : Config) (genesis : H) (s : State H) : Prop where
  latestSeen : s.process.latestSeen ≤ s.tip
  row : ∀ r ∈ s.row, r.Below genesis s.tip
  started : s.history.startBlock.isSome = s.row.isSome
  checkpoint : ∀ r ∈ s.row, s.history.Covered c r.last_block
  connects : Connects c genesis s.tip s.row s.history s.process s.process.connection
  round : ∀ d ∈ s.process.drain, Round c s.history s.process d
  drained : ∀ d ∈ s.history.drained, Tiling d.fromBlock d.chunks (d.toBlock + 1)

theorem inv_init (c : Config) (genesis : H) (tip : Nat) : Inv c genesis (init tip) where
  latestSeen := by simp [init, Process.init]
  row := by simp [init]
  started := rfl
  checkpoint := by simp [init]
  connects := .ensureTable ⟨rfl, rfl⟩
  round := by simp [init, Process.init]
  drained := by simp [init]

namespace Inv

variable {s : State H}

/-- The process connects again, or is on its way to. -/
theorem idle (h : Inv c genesis s) {p : Process H} (hp : p.Idle) (hseen : p.latestSeen ≤ s.tip)
    (hconnects : Connects c genesis s.tip s.row s.history p p.connection) :
    Inv c genesis { s with process := p } :=
  { h with
    latestSeen := hseen
    connects := hconnects
    round := by simp [hp.drain] }

/-- A round goes on, or is given up. -/
theorem goOn (h : Inv c genesis s) {d : Drain} (hdrain : s.process.drain = some d)
    {h' : History} (hext : s.history.Extends h')
    (hstart : h'.startBlock = s.history.startBlock) (hdrained : h'.drained = s.history.drained)
    {next : Option Drain} (hnext : ∀ d' ∈ next, Round c h' s.process d') :
    Inv c genesis { s with process := { s.process with drain := next }, history := h' } where
  latestSeen := h.latestSeen
  row := h.row
  started := hstart ▸ h.started
  checkpoint := fun r hr => hext.covered (h.checkpoint r hr)
  connects :=
    h.connects.mono (Nat.le_refl _) hext rfl rfl fun hnone => nomatch hdrain.symm.trans hnone
  round := fun d' hd' => (hnext d' hd').mono (.refl _) rfl (Int.le_refl _)
  drained := hdrained ▸ h.drained

theorem giveUp (h : Inv c genesis s) {d : Drain} (hdrain : s.process.drain = some d) :
    Inv c genesis (s.setDrain none) :=
  h.goOn hdrain (.refl _) rfl rfl nofun

/-- The first round of a drain, or the next one, starts in time. -/
theorem loop (h : Inv c genesis s) : Inv c genesis { s with process := s.process.loop c } := by
  unfold Process.loop
  split
  case isFalse =>
      refine { h with
        connects := h.connects.mono (Nat.le_refl _) (.refl _) rfl rfl fun _ => rfl
        round := nofun }
  case isTrue hgo =>
      have hconnected := h.connects.connected_of_lastBlock hgo.1
      have hconnects := h.connects
      rw [hconnected] at hconnects
      cases hconnects with
      | connected hrow hcheckpoint hle hfloor hcovered =>
          have hfrom : max 0 (max s.process.floorBlock (s.process.lastBlock + 1 - rescanLag))
              ≤ s.process.lastBlock + 1 := by
            unfold rescanLag
            omega
          have hto : max 0 (max s.process.floorBlock (s.process.lastBlock + 1 - rescanLag))
              ≤ s.process.latestSeen + 1 := by omega
          refine { h with connects := ?_, round := ?_ }
          · rw [hconnected]
            exact .connected hrow hcheckpoint hle hfloor hcovered
          · rintro d ⟨⟩
            refine .querying ⟨hfrom, hgo.2, Int.le_refl _⟩ ?_ (fun _ => Int.le_refl _) nofun ?_
            · intro _
              rw [Int.min_eq_left hto]
              exact .nil _
            · intro hdone hboth
              rw [hboth] at hdone
              exact nomatch hdone

theorem mine (h : Inv c genesis s) : Inv c genesis { s with tip := s.tip + 1 } := by
  have hseen := h.latestSeen
  refine { h with latestSeen := ?_, row := ?_, connects := ?_ }
  · show s.process.latestSeen ≤ ((s.tip + 1 : Nat) : Int)
    omega
  · intro r hr
    obtain ⟨hlast, hfingerprint⟩ := h.row r hr
    refine ⟨?_, hfingerprint⟩
    show r.last_block ≤ ((s.tip + 1 : Nat) : Int)
    omega
  · exact h.connects.mono (Nat.le_succ _) (.refl _) rfl rfl id

theorem onBlock (h : Inv c genesis s) {blockNumber : Nat} (hle : blockNumber ≤ s.tip) :
    Inv c genesis { s with process := s.process.onBlock c blockNumber } := by
  have hseen := h.latestSeen
  have hannounced : Inv c genesis
      { s with
        process := { s.process with latestSeen := max s.process.latestSeen blockNumber } } := by
    refine { h with latestSeen := ?_, connects := ?_, round := ?_ }
    · show max s.process.latestSeen (blockNumber : Int) ≤ s.tip
      omega
    · exact h.connects.mono (Nat.le_refl _) (.refl _) rfl rfl id
    · exact fun d hd => (h.round d hd).mono (.refl _) rfl (Int.le_max_left _ _)
  unfold Process.onBlock
  dsimp only
  split
  case isTrue => exact hannounced
  case isFalse => exact hannounced.loop

theorem restart (h : Inv c genesis s) : Inv c genesis { s with process := .init } :=
  h.idle ⟨rfl, rfl⟩ (by simp only [Process.init]; omega) (.ensureTable ⟨rfl, rfl⟩)

theorem queryChunk (h : Inv c genesis s) (answered : Bool) :
    Inv c genesis (s.queryChunk c answered) := by
  unfold State.queryChunk
  split
  case h_2 => exact h
  case h_1 fromBlock toBlock chunks start raw hdrain =>
      cases h.round _ hdrain with
      | querying hfollows htiling hneg hchunks hraw =>
          split
          case isTrue => exact h
          case isFalse hmore =>
          split
          case isFalse => exact h.giveUp hdrain
          case isTrue =>
              have hext : s.history.Extends
                  { s.history with
                    filtered := ⟨start, min (start + c.chunk - 1) toBlock⟩ ::
                      s.history.filtered } :=
                ⟨fun _ hb => hb, fun _ hr => List.mem_cons_of_mem _ hr, fun _ hr => hr⟩
              refine h.goOn hdrain hext rfl rfl ?_
              rintro d ⟨⟩
              refine .querying hfollows ?_ ?_ ?_ hraw
              · intro hsize
                -- the chunk starts where the ones before it end
                have hbefore := htiling hsize
                rw [Int.min_eq_left (by omega)] at hbefore
                have hnext := hbefore.snoc
                  (r := ⟨start, min (start + c.chunk - 1) toBlock⟩) rfl (by dsimp only; omega)
                have hend : min (start + c.chunk - 1) toBlock + 1
                    = min (start + c.chunk) (toBlock + 1) := by omega
                exact hend ▸ hnext
              · intro hsize
                have hstart := hneg hsize
                omega
              · intro r hr
                rcases List.mem_append.mp hr with hold | hnew
                · exact List.mem_cons_of_mem _ (hchunks r hold)
                · rw [List.mem_singleton.mp hnew]
                  exact List.mem_cons_self

theorem queryRaw (h : Inv c genesis s) (answered : Bool) :
    Inv c genesis (s.queryRaw answered) := by
  unfold State.queryRaw
  split
  case h_2 => exact h
  case h_1 fromBlock toBlock chunks start hdrain =>
      cases h.round _ hdrain with
      | querying hfollows htiling hneg hchunks _ =>
          split
          case isFalse => exact h.giveUp hdrain
          case isTrue =>
              have hext : s.history.Extends
                  { s.history with raw := ⟨fromBlock, toBlock⟩ :: s.history.raw } :=
                ⟨fun _ hb => hb, fun _ hr => hr, fun _ hr => List.mem_cons_of_mem _ hr⟩
              refine h.goOn hdrain hext rfl rfl ?_
              rintro d ⟨⟩
              exact .querying hfollows htiling hneg hchunks
                fun _ _ => List.mem_cons_self

theorem queried (h : Inv c genesis s) : Inv c genesis s.queried := by
  unfold State.queried
  split
  case h_2 => exact h
  case h_1 fromBlock toBlock chunks start hdrain =>
      cases h.round _ hdrain with
      | querying hfollows htiling hneg hchunks hraw =>
          split
          case isFalse => exact h
          case isTrue hend =>
              refine h.goOn hdrain (.refl _) rfl rfl ?_
              rintro d ⟨⟩
              obtain ⟨hfrom, hlast, hseen⟩ := hfollows
              have hsize : 0 ≤ c.chunk := by
                by_contra hnegative
                have hstart := hneg (by omega)
                omega
              have hall := htiling hsize
              rw [Int.min_eq_right (by omega)] at hall
              exact .handling ⟨hfrom, hlast, hseen⟩ hall hchunks (hraw rfl)

/-- What a connected watcher knows. -/
theorem connected (h : Inv c genesis s) {d : Drain} (hdrain : s.process.drain = some d) :
    s.process.connection = .connected ∧
      Connects c genesis s.tip s.row s.history s.process .connected := by
  have hconnected := h.connects.connected_of_drain hdrain
  exact ⟨hconnected, hconnected ▸ h.connects⟩

/-- The last block moves to the end of a range that was asked for. -/
theorem handle (h : Inv c genesis s) (ok : Bool) : Inv c genesis (s.handle ok) := by
  unfold State.handle
  split
  case h_2 => exact h
  case h_1 fromBlock toBlock chunks hdrain =>
      split
      case isFalse => exact h.giveUp hdrain
      case isTrue =>
          have hround := h.round _ hdrain
          have hanswered := fun n (hfrom : fromBlock ≤ n) (hto : n ≤ toBlock) =>
            hround.answered hfrom hto
          obtain ⟨hconnection, hconnects⟩ := h.connected hdrain
          cases hconnects with
          | connected hrow hcheckpoint hle hfloor hcovered =>
              cases hround with
              | handling hfollows htiling hchunks hraw =>
                  obtain ⟨hfrom, hlast, hseen⟩ := hfollows
                  have htip := h.latestSeen
                  have hext : s.history.Extends
                      { s.history with
                        drained := ⟨fromBlock, toBlock, chunks, .handling⟩ ::
                          s.history.drained } :=
                    ⟨fun _ hb => hb, fun _ hr => hr, fun _ hr => hr⟩
                  refine
                    { latestSeen := h.latestSeen
                      row := h.row
                      started := h.started
                      checkpoint := fun r hr => hext.covered (h.checkpoint r hr)
                      connects := ?_
                      round := ?_
                      drained := ?_ }
                  · show Connects _ _ _ _ _ _ s.process.connection
                    rw [hconnection]
                    refine .connected hrow ?_ ?_ ?_
                      (hext.covered (hcovered.extend hfrom hanswered)) <;> dsimp only <;> omega
                  · rintro d ⟨⟩
                    exact .storing rfl
                  · intro d hd
                    rcases List.mem_cons.mp hd with rfl | hold
                    · exact htiling
                    · exact h.drained d hold

/-- A row that is there is replaced by one of the same chain. -/
theorem setRow (h : Inv c genesis s) {r : Row H} (hrow : s.row = some r) (r' : Row H)
    (connection : Connection H) (hbelow : r'.Below genesis s.tip)
    (hcovered : s.history.Covered c r'.last_block)
    (hconnects : Connects c genesis s.tip (some r') s.history
      { s.process with connection := connection } connection) :
    Inv c genesis ((s.setRow (some r')).setConnection connection) := by
  have hstarted := h.started
  rw [hrow, Option.isSome_some] at hstarted
  obtain ⟨b, hb⟩ := Option.isSome_iff_exists.mp hstarted
  have hstart : s.history.startBlock.or ((some r').map fun r => r.last_block)
      = s.history.startBlock := by
    rw [hb]
    rfl
  unfold State.setRow State.setConnection
  rw [hstart]
  refine
    { h with
      row := ?_
      started := hstarted
      checkpoint := ?_
      connects := hconnects
      round := fun d hd => (h.round d hd).mono (.refl _) rfl (Int.le_refl _) }
  · rintro q ⟨⟩
    exact hbelow
  · rintro q ⟨⟩
    exact hcovered

theorem store (h : Inv c genesis s) (outcome : Outcome) :
    Inv c genesis (s.store c outcome) := by
  unfold State.store
  split
  case h_2 => exact h
  case h_1 fromBlock toBlock chunks hdrain =>
      obtain ⟨hconnection, hconnects⟩ := h.connected hdrain
      cases hconnects with
      | @connected r hrow hcheckpoint hle hfloor hcovered =>
          have hexec : (Statement.setCheckpoint s.process.lastBlock).exec s.row
              = some (some ⟨s.process.lastBlock, r.fingerprint⟩) := by
            rw [hrow]
            rfl
          have hstored : Inv c genesis
              (s.setRow (some ⟨s.process.lastBlock, r.fingerprint⟩)) := by
            refine h.setRow hrow ⟨s.process.lastBlock, r.fingerprint⟩ s.process.connection
              ⟨hle, (h.row r hrow).fingerprint⟩ hcovered ?_
            rw [hconnection]
            exact .connected rfl (Int.le_refl _) hle hfloor hcovered
          rw [hexec]
          cases outcome with
          | answered => exact hstored.loop
          | lost => exact hstored.giveUp hdrain
          | failed => exact h.giveUp hdrain

/-- Another request of the connect loop. -/
theorem setConnection (h : Inv c genesis s) (hp : s.process.Idle) {connection : Connection H}
    (hconnects : ∀ p : Process H, p.Idle →
      Connects c genesis s.tip s.row s.history p connection) :
    Inv c genesis (s.setConnection connection) :=
  h.idle (p := { s.process with connection := connection }) ⟨hp.lastBlock, hp.drain⟩ h.latestSeen
    (hconnects _ ⟨hp.lastBlock, hp.drain⟩)

/-- A statement of the connect loop is executed. -/
theorem write (h : Inv c genesis s) {statement : Statement H} {statements : List (Statement H)}
    {resolved current : Int} (hp : s.process.Idle) (hcurrent : current ≤ s.tip)
    (hresolves : Resolves genesis current s.row (statement :: statements) resolved) :
    ∃ r', statement.exec s.row = some (some r') ∧
      Inv c genesis
        ((s.setRow (some r')).setConnection (.writeRow statements resolved current)) := by
  generalize hrow : s.row = row at hresolves
  cases hresolves with
  | @first fingerprint hfingerprint =>
      have hstarted := h.started
      rw [hrow, Option.isSome_none, Option.isSome_eq_false_iff,
        Option.isNone_iff_eq_none] at hstarted
      have hstart : s.history.startBlock.or ((some (Row.mk resolved fingerprint)).map
          fun r => r.last_block) = some resolved := by
        rw [hstarted]
        rfl
      refine ⟨⟨resolved, fingerprint⟩, rfl, ?_⟩
      unfold State.setRow State.setConnection
      rw [hstart]
      refine { h with row := ?_, started := rfl, checkpoint := ?_, connects := ?_, round := ?_ }
      · rintro q ⟨⟩
        exact ⟨hcurrent, hfingerprint⟩
      · rintro q ⟨⟩ b hb n hlt hle
        obtain rfl : resolved = b := Option.some.inj hb
        exact absurd hlt (Int.not_lt.mpr hle)
      · exact .writeRow ⟨hp.lastBlock, hp.drain⟩ hcurrent .done
      · intro d hd
        exact nomatch hp.drain.symm.trans hd
  | @upgrade r =>
      refine ⟨{ r with fingerprint := some genesis }, rfl, ?_⟩
      have hbelow : ({ r with fingerprint := some genesis } : Row H).Below genesis s.tip := by
        refine ⟨(h.row r hrow).last_block, ?_⟩
        rintro f ⟨⟩
        rfl
      exact h.setRow hrow _ _ hbelow (h.checkpoint r hrow)
        (.writeRow ⟨hp.lastBlock, hp.drain⟩ hcurrent .done)

theorem connect [DecidableEq H] (hbackfill : c.backfill = true) (h : Inv c genesis s)
    (outcome : Outcome) : Inv c genesis (s.connect c genesis outcome) := by
  have hconnects := h.connects
  unfold State.connect
  cases hconnection : s.process.connection with
  | connected => exact h
  | ensureTable =>
      rw [hconnection] at hconnects
      cases hconnects with
      | ensureTable hp =>
          dsimp only
          split
          · exact h.setConnection hp fun p hidle => .getBlockNumber hidle
          · exact h
  | getBlockNumber =>
      rw [hconnection] at hconnects
      cases hconnects with
      | getBlockNumber hp =>
          dsimp only
          split
          · exact h.setConnection hp fun p hidle =>
              .getGenesis hidle (Int.le_refl _) fun r hr => (h.row r hr).last_block
          · exact h.setConnection hp fun p hidle => .ensureTable hidle
  | getGenesis current =>
      rw [hconnection] at hconnects
      cases hconnects with
      | getGenesis hp hcurrent hrow =>
          refine h.setConnection hp fun p hidle => .readRow hidle hcurrent hrow ?_
          intro f hf
          split at hf
          · exact (Option.some.inj hf).symm
          · exact nomatch hf
  | readRow current fingerprint =>
      rw [hconnection] at hconnects
      cases hconnects with
      | readRow hp hcurrent hrow hfingerprint =>
          dsimp only
          split
          · refine h.setConnection hp fun p hidle => .writeRow hidle hcurrent ?_
            exact resolveCheckpoint_resolves hbackfill
              (fun r hr => ⟨hrow r hr, (h.row r hr).fingerprint⟩) hfingerprint
          · exact h.setConnection hp fun p hidle => .ensureTable hidle
  | writeRow statements resolved current =>
      rw [hconnection] at hconnects
      cases hconnects with
      | writeRow hp hcurrent hresolves =>
          cases statements with
          | cons statement statements =>
              obtain ⟨r', hexec, hwritten⟩ := h.write hp hcurrent hresolves
              dsimp only
              rw [hexec]
              cases outcome with
              | answered => exact hwritten
              | lost =>
                  exact hwritten.setConnection ⟨hp.lastBlock, hp.drain⟩
                    fun p hidle => .ensureTable hidle
              | failed => exact h.setConnection hp fun p hidle => .ensureTable hidle
          | nil =>
              obtain ⟨r, hrow, rfl⟩ := hresolves.stored
              refine { h with connects := ?_, round := ?_ }
              · exact .connected hrow (Int.le_refl _) (h.row r hrow).last_block
                  (Int.min_le_left _ _) (h.checkpoint r hrow)
              · intro d hd
                exact nomatch hp.drain.symm.trans hd

end Inv

theorem inv_step [DecidableEq H] (hbackfill : c.backfill = true) (s : State H) (a : Action)
    (h : Inv c genesis s) : Inv c genesis (step c genesis s a) := by
  cases a with
  | mine => exact h.mine
  | block blockNumber =>
      simp only [step]
      split
      case isTrue hle => exact h.onBlock hle
      case isFalse => exact h
  | restart => exact h.restart
  | connect outcome => exact h.connect hbackfill outcome
  | queryChunk answered => exact h.queryChunk answered
  | queryRaw answered => exact h.queryRaw answered
  | queried => exact h.queried
  | handle ok => exact h.handle ok
  | store outcome => exact h.store outcome

theorem inv_run [DecidableEq H] (hbackfill : c.backfill = true) {s : State H}
    (h : Inv c genesis s) (as : List Action) : Inv c genesis (run c genesis s as) :=
  (along_true as s).invariant (fun s a hs _ => inv_step hbackfill s a hs) h

/-! ## The checkpoint only advances -/

/-- The checkpoint did not decrease, and the start block is the same. -/
structure Advances (s s' : State H) : Prop where
  row : ∀ r ∈ s.row, ∃ r' ∈ s'.row, r.last_block ≤ r'.last_block
  startBlock : ∀ b ∈ s.history.startBlock, b ∈ s'.history.startBlock

namespace Advances

variable {s s' s'' : State H}

theorem of_eq (hrow : s'.row = s.row) (hstart : s'.history.startBlock = s.history.startBlock) :
    Advances s s' :=
  ⟨fun r hr => ⟨r, hrow ▸ hr, Int.le_refl _⟩, fun _ hb => hstart ▸ hb⟩

theorem refl (s : State H) : Advances s s := .of_eq rfl rfl

theorem trans (h : Advances s s') (h' : Advances s' s'') : Advances s s'' := by
  refine ⟨?_, fun b hb => h'.startBlock b (h.startBlock b hb)⟩
  intro r hr
  obtain ⟨r', hr', hle⟩ := h.row r hr
  obtain ⟨r'', hr'', hle'⟩ := h'.row r' hr'
  exact ⟨r'', hr'', Int.le_trans hle hle'⟩

/-- Another row is written, with a checkpoint at least as high. -/
theorem setRow (s : State H) (r' : Row H) (hle : ∀ r ∈ s.row, r.last_block ≤ r'.last_block)
    (p : Process H) : Advances s { s.setRow (some r') with process := p } := by
  refine ⟨fun r hr => ⟨r', rfl, hle r hr⟩, ?_⟩
  intro b hb
  obtain hb : s.history.startBlock = some b := hb
  simp [State.setRow, hb]

end Advances

/-- A statement of the connect loop keeps the checkpoint. -/
theorem Resolves.le_of_exec {current resolved : Int} {row : Option (Row H)}
    {statement : Statement H} {statements : List (Statement H)} {r' : Row H}
    (h : Resolves genesis current row (statement :: statements) resolved)
    (hexec : statement.exec row = some (some r')) : ∀ r ∈ row, r.last_block ≤ r'.last_block := by
  cases h with
  | first => exact nofun
  | @upgrade q =>
      rintro r ⟨⟩
      obtain rfl : { q with fingerprint := some genesis } = r' :=
        Option.some.inj (Option.some.inj hexec)
      exact Int.le_refl _

theorem Inv.connect_advances [DecidableEq H] {s : State H} (h : Inv c genesis s)
    (outcome : Outcome) : Advances s (s.connect c genesis outcome) := by
  have hconnects := h.connects
  unfold State.connect
  cases hconnection : s.process.connection with
  | connected => exact .refl s
  | ensureTable => dsimp only; split <;> exact .of_eq rfl rfl
  | getBlockNumber => dsimp only; split <;> exact .of_eq rfl rfl
  | getGenesis current => exact .of_eq rfl rfl
  | readRow current fingerprint => dsimp only; split <;> exact .of_eq rfl rfl
  | writeRow statements resolved current =>
      rw [hconnection] at hconnects
      cases hconnects with
      | writeRow hp hcurrent hresolves =>
          cases statements with
          | nil => exact .of_eq rfl rfl
          | cons statement statements =>
              obtain ⟨r', hexec, -⟩ := h.write hp hcurrent hresolves
              have hle := hresolves.le_of_exec hexec
              dsimp only
              rw [hexec]
              cases outcome with
              | answered => exact .setRow s r' hle _
              | lost => exact .setRow s r' hle _
              | failed => exact .of_eq rfl rfl

theorem Inv.store_advances {s : State H} (h : Inv c genesis s) (outcome : Outcome) :
    Advances s (s.store c outcome) := by
  unfold State.store
  split
  case h_2 => exact .refl s
  case h_1 hdrain =>
      obtain ⟨-, hconnects⟩ := h.connected hdrain
      cases hconnects with
      | @connected r hrow hcheckpoint =>
          have hexec : (Statement.setCheckpoint s.process.lastBlock).exec s.row
              = some (some ⟨s.process.lastBlock, r.fingerprint⟩) := by
            rw [hrow]
            rfl
          have hle : ∀ q ∈ s.row, q.last_block ≤ s.process.lastBlock := by
            intro q hq
            obtain rfl := Option.some.inj (hrow.symm.trans hq)
            exact hcheckpoint
          rw [hexec]
          cases outcome with
          | answered => exact .setRow s _ hle _
          | lost => exact .setRow s _ hle _
          | failed => exact .of_eq rfl rfl

theorem advances_step [DecidableEq H] {s : State H} (h : Inv c genesis s) (a : Action) :
    Advances s (step c genesis s a) := by
  cases a with
  | mine => exact .of_eq rfl rfl
  | block blockNumber => simp only [step]; split <;> exact .of_eq rfl rfl
  | restart => exact .of_eq rfl rfl
  | connect outcome => exact h.connect_advances outcome
  | queryChunk answered =>
      simp only [step, State.queryChunk]
      repeat' split
      all_goals exact .of_eq rfl rfl
  | queryRaw answered =>
      simp only [step, State.queryRaw]
      repeat' split
      all_goals exact .of_eq rfl rfl
  | queried =>
      simp only [step, State.queried]
      repeat' split
      all_goals exact .of_eq rfl rfl
  | handle ok =>
      simp only [step, State.handle]
      repeat' split
      all_goals exact .of_eq rfl rfl
  | store outcome => exact h.store_advances outcome

theorem advances_run [DecidableEq H] (hbackfill : c.backfill = true) {s : State H}
    (h : Inv c genesis s) (as : List Action) : Advances s (run c genesis s as) := by
  induction as generalizing s with
  | nil => exact .refl s
  | cons a as ih => exact (advances_step h a).trans (ih (inv_step hbackfill s a h))

/-! ## Coverage -/

/-- A drained range is partitioned by its chunks. -/
theorem Inv.chunks_partition {s : State H} (h : Inv c genesis s) {d : Drain}
    (hd : d ∈ s.history.drained) (n : Int) :
    d.chunks.countP (fun r => decide (r.Covers n))
      = if d.fromBlock ≤ n ∧ n ≤ d.toBlock then 1 else 0 := by
  rw [(h.drained d hd).countP_covers n]
  simp only [Int.lt_add_one_iff]

/-- A round starts no later than the block after the last one processed. -/
theorem Inv.follows {s : State H} (h : Inv c genesis s) {d : Drain}
    (hd : d ∈ s.process.drain) (hphase : d.phase ≠ .storing) :
    Follows s.process d.fromBlock d.toBlock := by
  cases h.round d hd with
  | querying hfollows => exact hfollows
  | handling hfollows => exact hfollows
  | storing => exact absurd rfl hphase

/-- A block that was processed, or is behind a checkpoint, was asked for. -/
theorem Inv.covered {s : State H} (h : Inv c genesis s) {N : Int}
    (hN : (0 ≤ N ∧ s.process.lastBlock = N) ∨ ∃ r ∈ s.row, r.last_block = N) :
    ∃ b ∈ s.history.startBlock, ∀ n, b < n → n ≤ N → s.history.Answered c n := by
  have hboth : s.row.isSome = true ∧ s.history.Covered c N := by
    rcases hN with ⟨hpos, rfl⟩ | ⟨r, hr, rfl⟩
    · have hconnects := h.connects
      rw [hconnects.connected_of_lastBlock hpos] at hconnects
      cases hconnects with
      | connected hrow _ _ _ hcovered => exact ⟨hrow ▸ rfl, hcovered⟩
    · exact ⟨Option.isSome_iff_exists.mpr ⟨r, hr⟩, h.checkpoint r hr⟩
  obtain ⟨hrow, hcovered⟩ := hboth
  obtain ⟨b, hb⟩ := Option.isSome_iff_exists.mp (h.started.trans hrow)
  exact ⟨b, hb, hcovered b hb⟩

/-- With the backfill enabled, in every run on one chain: every block after
the start block, up to the last one processed and up to the checkpoint, was
in an answered range of each query; the chunks of a drained range partition
it; a round leaves no block out before its range; and from there on the
start block stays and the checkpoint never decreases. -/
theorem drain_covers [DecidableEq H] (hbackfill : c.backfill = true) (genesis : H) (tip : Nat)
    (as : List Action) :
    (∀ N, ((0 ≤ N ∧ (run c genesis (init tip) as).process.lastBlock = N) ∨
        ∃ r ∈ (run c genesis (init tip) as).row, r.last_block = N) →
      ∃ b ∈ (run c genesis (init tip) as).history.startBlock,
        ∀ n, b < n → n ≤ N → (run c genesis (init tip) as).history.Answered c n) ∧
    (∀ d ∈ (run c genesis (init tip) as).history.drained, ∀ n,
      d.chunks.countP (fun r => decide (r.Covers n))
        = if d.fromBlock ≤ n ∧ n ≤ d.toBlock then 1 else 0) ∧
    (∀ d ∈ (run c genesis (init tip) as).process.drain, d.phase ≠ .storing →
      Follows (run c genesis (init tip) as).process d.fromBlock d.toBlock) ∧
    ∀ bs, Advances (run c genesis (init tip) as) (run c genesis (init tip) (as ++ bs)) := by
  have h : Inv c genesis (run c genesis (init tip) as) :=
    inv_run hbackfill (inv_init c genesis tip) as
  refine ⟨fun N hN => h.covered hN, fun d hd => h.chunks_partition hd,
    fun d hd => h.follows hd, ?_⟩
  intro bs
  simp only [run, runActions_append]
  exact advances_run hbackfill h bs

/-! ## A run with failures -/

namespace Restarted

def connecting : List Action := List.replicate 6 (.connect .answered)

/-- The clones' logs fail once, the checkpoint is stored without an answer,
and the process is started again. -/
def actions : List Action :=
  connecting ++ List.replicate 5 .mine ++
    [.block 15, .queryChunk true, .queryRaw false, .block 15, .queryRaw true, .queryChunk true,
      .queryChunk true, .queried, .handle true, .store .lost, .restart] ++ connecting

/-- A source watcher with a small chunk. -/
def watcher : Config := escrowSrcWatcher ⟨4, 5000, true⟩

/-- It goes on at block 15, and every block after 10 was asked for. -/
theorem drain_covers_restarted :
    (run watcher 7 (init 10) actions).process.lastBlock = 15 ∧
    ∃ b ∈ (run watcher 7 (init 10) actions).history.startBlock,
      ∀ n, b < n → n ≤ 15 → (run watcher 7 (init 10) actions).history.Answered watcher n := by
  have hlast : (run watcher 7 (init 10) actions).process.lastBlock = 15 := by decide
  exact ⟨hlast, (drain_covers (c := watcher) rfl 7 10 actions).1 15 (.inl ⟨by decide, hlast⟩)⟩

end Restarted

end EscrowDrain

end NeutronX.CrossChain
