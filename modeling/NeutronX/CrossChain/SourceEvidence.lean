import NeutronX.CrossChain.BackendSteps
import NeutronX.CrossChain.FillProgress

/-!
# What the source watchers go by

A source watcher holds logs of its chain, the `Filled` before the others,
and of blocks that are complete. So a statement of it has its clone and its
log (`Witnessed`), and a fill at `src_locked` or later has the clone that
its filler locked (`LockedAt`).
-/

namespace NeutronX.CrossChain

open Evm Sql Function
open OrderService (check_eq_ok)

namespace Backend

variable {κ A W H : Type} [Zero A] {b : Backend κ A W H} {s s' : BackendState κ A W H}

/-! ## Evidence -/

/-- The fill's own account locked the clone at `a` for it. -/
def LockedAt (b : Backend κ A W H) (s : BackendState κ A W H) (r : FillRow κ A H) (a : A) : Prop :=
  ∃ c h fill, r.hashlock = b.hex h ∧ a = (b.source c).computeAddress r.orderHash h ∧
    ((s.source c).escrows r.orderHash h).fill = some fill ∧ fill.filler = r.filler

/-- A row of the pair, and a log of the clone locked for it. -/
def Logged (b : Backend κ A W H) (s : BackendState κ A W H) (k : κ) (h : H)
    (log : A → SourceEvent κ A → Prop) : Prop :=
  ∃ id r a c n e, s.db.fills id = some r ∧ r.orderHash = k ∧ r.hashlock = h ∧ LockedAt b s r a ∧
    (n, e) ∈ (s.source c).events ∧ log a e

/-- What the statements of the source watchers go by. -/
def Witnessed (b : Backend κ A W H) (s : BackendState κ A W H) : Statement κ A H → Prop
  | .recordSrcLocked k h a f => ∃ c hl fill, h = b.hex hl ∧
      a = (b.source c).computeAddress k hl ∧
      ((s.source c).escrows k hl).fill = some fill ∧ fill.filler = f
  | .recordReveal k h secret => Logged b s k h fun a e => ∃ f, e = .withdrawn a f secret
  | .recordSlashed k h => Logged b s k h fun a e => ∃ to_ amount f deposit,
      e = .cancelled a to_ amount f deposit
  | _ => True

theorem LockedAt.later {r r' : FillRow κ A H} {a : A} (h : LockedAt b s r a)
    (hlast : Lasting s s') (hkey : SameKey r r') : LockedAt b s' r' a := by
  obtain ⟨c, hl, fill, hhash, ha, hfill, hfiller⟩ := h
  refine ⟨c, hl, fill, by rw [hkey.hashlock, hhash], by rw [hkey.orderHash, ha], ?_,
    by rw [hkey.filler, hfiller]⟩
  rw [hkey.orderHash]
  exact hlast.fills c _ hl fill hfill

theorem Logged.later {k : κ} {h : H} {log : A → SourceEvent κ A → Prop}
    (hlogged : Logged b s k h log) (hlast : Lasting s s') : Logged b s' k h log := by
  obtain ⟨id, r, a, c, n, e, hr, hk, hh, hlocked, he, hlog⟩ := hlogged
  obtain ⟨r', hr', hkey, -⟩ := hlast.rows id r hr
  exact ⟨id, r', a, c, n, e, hr', by rw [hkey.orderHash, hk], by rw [hkey.hashlock, hh],
    hlocked.later hlast hkey, (hlast.events c).subset he, hlog⟩

theorem Witnessed.later {st : Statement κ A H} (hst : Witnessed b s st) (hlast : Lasting s s') :
    Witnessed b s' st := by
  unfold Witnessed at hst ⊢
  split
  case h_1 k h a f =>
      obtain ⟨c, hl, fill, hhash, ha, hfill, hfiller⟩ := hst
      exact ⟨c, hl, fill, hhash, ha, hlast.fills c k hl fill hfill, hfiller⟩
  case h_2 => exact Logged.later hst hlast
  case h_3 => exact Logged.later hst hlast
  case h_4 => trivial

/-! ## The logs in hand -/

/-- Logs as `srcLogs` reads them. -/
structure FromLogs (events : List (Nat × SourceEvent κ A)) (toBlock : Nat)
    (logs : List (SourceEvent κ A)) : Prop where
  emitted : ∀ e ∈ logs, ∃ n, (n, e) ∈ events ∧ n ≤ toBlock
  /-- no `Filled` comes after another log -/
  filledFirst : logs.Pairwise fun e e' => e'.isFilledLog = true → e.isFilledLog = true

omit [Zero A] in
theorem fromLogs_srcLogs (events : List (Nat × SourceEvent κ A)) (fromBlock toBlock : Nat) :
    FromLogs events toBlock (srcLogs events fromBlock toBlock) where
  emitted := fun e he => by
    have hin : e ∈ logsBetween events fromBlock toBlock := by
      rcases List.mem_append.mp he with h | h <;> exact (List.mem_filter.mp h).1
    obtain ⟨n, hn, -, hto⟩ := mem_logsBetween.mp hin
    exact ⟨n, hn, hto⟩
  filledFirst := by
    refine List.pairwise_append.mpr ⟨?_, ?_, ?_⟩
    · exact List.pairwise_iff_forall_sublist.mpr fun hsub _ =>
        (List.mem_filter.mp (hsub.subset (List.mem_cons_self ..))).2
    · refine List.pairwise_iff_forall_sublist.mpr fun {e e'} hsub hfilled => ?_
      have hraw : e'.isRawLog = true := (List.mem_filter.mp (hsub.subset (by simp))).2
      cases e' <;> simp [SourceEvent.isRawLog, SourceEvent.isFilledLog] at hraw hfilled
    · exact fun e he _ _ _ => (List.mem_filter.mp he).2

omit [Zero A] in
theorem FromLogs.tail {events : List (Nat × SourceEvent κ A)} {toBlock : Nat}
    {e : SourceEvent κ A} {logs : List (SourceEvent κ A)}
    (h : FromLogs events toBlock (e :: logs)) : FromLogs events toBlock logs :=
  ⟨fun e' he => h.emitted e' (List.mem_cons_of_mem _ he), (List.pairwise_cons.mp h.filledFirst).2⟩

omit [Zero A] in
theorem FromLogs.mono {events events' : List (Nat × SourceEvent κ A)} {toBlock : Nat}
    {logs : List (SourceEvent κ A)} (h : FromLogs events toBlock logs)
    (hsub : events <:+ events') : FromLogs events' toBlock logs :=
  ⟨fun e he => (h.emitted e he).imp fun _ hn => ⟨hsub.subset hn.1, hn.2⟩, h.filledFirst⟩

/-! ## The moves of a source watcher -/

section Moves

variable {E J : Type} {started : Bool} {number : Nat} {select : Nat → Nat → List E}
  {w : Watcher E J}

omit [Zero A] in
theorem watch_behind (h : w.Behind number) (m : WatcherMove) :
    (watch started number select w m).Behind number := by
  cases m with
  | connect current discard =>
      simp only [watch]
      split
      case isTrue hcurrent => exact h.connect hcurrent.2 discard
      case isFalse => exact h
  | see n =>
      simp only [watch]
      split
      case isTrue hn => exact h.see hn
      case isFalse => exact h
  | fetch => exact h.fetch select
  | fail => exact (h.take none).goOn none
  | finish stored => exact h.finish stored
  | handle | check | write => exact h

omit [Zero A] in
theorem watch_left {P : Nat → List E → Prop}
    (hselect : ∀ fromBlock toBlock, P toBlock (select fromBlock toBlock))
    (htail : ∀ toBlock e logs, P toBlock (e :: logs) → P toBlock logs) (h : w.Left P)
    (m : WatcherMove) :
    (watch started number select w m).Left P := by
  cases m with
  | connect current discard =>
      simp only [watch]
      split
      · exact h.connect current discard
      · exact h
  | see n =>
      simp only [watch]
      split
      · exact h.see n
      · exact h
  | fetch => exact h.fetch hselect
  | fail => exact (h.take htail none).goOn none
  | finish stored => exact h.finish stored
  | handle | check | write => exact h

end Moves

section Source

variable [DecidableEq A] [DecidableEq H] {c : Nat} {w : SrcWatcher κ A H}

omit [DecidableEq H] in
theorem moveSrc_behind (h : w.Behind (s.source c).block.number) (m : WatcherMove) :
    (b.moveSrc s c w m).Behind (s.source c).block.number := by
  cases m with
  | handle choice =>
      simp only [moveSrc]
      split
      · exact h.take _
      · exact h
  | write => exact h.goOn none
  | connect | see | fetch | check | fail | finish =>
      simp only [moveSrc]
      exact watch_behind h _

omit [DecidableEq H] in
theorem moveSrc_left (h : w.Left (FromLogs (s.source c).events)) (m : WatcherMove) :
    (b.moveSrc s c w m).Left (FromLogs (s.source c).events) := by
  cases m with
  | handle choice =>
      simp only [moveSrc]
      split
      · exact h.take (fun _ _ _ => FromLogs.tail) _
      · exact h
  | write => exact h.goOn none
  | connect | see | fetch | check | fail | finish =>
      exact watch_left (fromLogs_srcLogs _) (fun _ _ _ => FromLogs.tail) h _

end Source

/-! ## Every state -/

/-- What the source watchers and the table have evidence of. -/
structure SrcBacked (b : Backend κ A W H) (s : BackendState κ A W H) : Prop where
  pending : ∀ st ∈ s.service.pending, Witnessed b s st
  work : ∀ c st, (s.srcWatcher c).work = some st → Witnessed b s st
  writing : ∀ c st, (s.dstWatcher c).work = some (.writing st) → Witnessed b s st
  logs : ∀ c, (s.srcWatcher c).Left (FromLogs (s.source c).events)
  behind : ∀ c, (s.srcWatcher c).Behind (s.source c).block.number
  address : ∀ id r a, s.db.fills id = some r → r.escrowSrcAddr = some a → LockedAt b s r a
  locked : ∀ id r, s.db.fills id = some r → FillStatus.srcLocked.rank ≤ r.status.rank →
    ∃ a, LockedAt b s r a

theorem SrcBacked.runs (hs : SrcBacked b s) {m : b.Move} {st : Statement κ A H}
    (h : b.runs s m = some st) : Witnessed b s st := by
  rcases runs_cases h with hpending | ⟨c, hwork⟩ | ⟨c, hwork⟩
  · exact hs.pending st hpending
  · exact hs.work c st hwork
  · exact hs.writing c st hwork

variable [DecidableEq κ] [DecidableEq A] [DecidableEq H]

omit [DecidableEq κ] [DecidableEq A] [DecidableEq H] in
/-- A log that is handled is one of the chain. -/
theorem SrcBacked.emitted (hs : SrcBacked b s) {c : Nat} {e : SourceEvent κ A}
    (hnext : (s.srcWatcher c).next = some e) : ∃ n, (n, e) ∈ (s.source c).events := by
  obtain ⟨toBlock, logs, hdrain⟩ := Watcher.next_eq_some hnext
  exact ((hs.logs c _ hdrain).emitted e (List.mem_cons_self ..)).imp fun n hn => hn.1

omit [Zero A] [DecidableEq κ] [DecidableEq H] in
theorem handleSrcEscrowLog_spec {a : A} {choice : Nat} {statement : κ → H → Statement κ A H}
    {st : Statement κ A H} (h : handleSrcEscrowLog s.db a choice statement = some st) :
    ∃ id r, s.db.fills id = some r ∧ r.escrowSrcAddr = some a ∧
      st = statement r.orderHash r.hashlock := by
  obtain ⟨r, hrow, rfl⟩ := Option.map_eq_some_iff.mp h
  obtain ⟨id, hr, ha⟩ := Db.anyRow_eq_some hrow
  exact ⟨id, r, hr, by simpa using ha, rfl⟩

omit [DecidableEq H] in
theorem handleSrc_witnessed (hreg : Regular b s) (hs : SrcBacked b s) {c choice : Nat}
    {e : SourceEvent κ A} {st : Statement κ A H} (hnext : (s.srcWatcher c).next = some e)
    (h : b.handleSrc (s.source c) s.db c choice e = some st) : Witnessed b s st := by
  obtain ⟨n, he⟩ := hs.emitted hnext
  unfold handleSrc at h
  split at h
  case h_1 k hl f a amount bond t1 t2 =>
      obtain ⟨ha, fill, hfill, hfiller⟩ := (hreg.source c).1.log.filled n k hl f a _ _ _ _ he
      unfold handleFilled at h
      split at h
      case h_2 => cases h
      case h_1 =>
          obtain rfl := Option.some.inj h
          exact ⟨c, hl, fill, rfl, ha, hfill, hfiller⟩
  case h_2 a f secret =>
      obtain ⟨id, r, hr, ha, rfl⟩ := handleSrcEscrowLog_spec h
      exact ⟨id, r, a, c, n, _, hr, rfl, rfl, hs.address id r a hr ha, he, f, rfl⟩
  case h_3 a to_ amount f deposit =>
      obtain ⟨id, r, hr, ha, rfl⟩ := handleSrcEscrowLog_spec h
      exact ⟨id, r, a, c, n, _, hr, rfl, rfl, hs.address id r a hr ha, he, _, _, _, _, rfl⟩
  case h_4 => cases h

omit [DecidableEq κ] [DecidableEq H] in
theorem select_witnessed {now : Nat} {req : Request κ A H} {st : Statement κ A H}
    (h : b.service.select now s.db req = .ok st) : Witnessed b s st := by
  cases Service.select_checked h <;> trivial

omit [DecidableEq κ] [DecidableEq H] in
theorem checkQuote_witnessed {c : Nat} {q : Lookup κ A} {st : Statement κ A H}
    (h : b.checkQuote (s.destination c) c q = some st) : Witnessed b s st := by
  unfold checkQuote at h
  split at h
  · obtain rfl := Option.some.inj h
    trivial
  · cases h

omit [DecidableEq H] in
/-- The evidence of one row, over one statement. -/
theorem SrcBacked.row (hs : SrcBacked b s) (hreg : Regular b s) {id : Nat} {r r' : FillRow κ A H}
    {st : Statement κ A H} (hst : Witnessed b s st) (hr : s.db.fills id = some r)
    (hstep : RowStep id r st r') :
    (∀ a, r'.escrowSrcAddr = some a → LockedAt b s r a) ∧
      (FillStatus.srcLocked.rank ≤ r'.status.rank → ∃ a, LockedAt b s r a) := by
  have haddress := fun a ha => hs.address id r a hr ha
  have hlocked := hs.locked id r hr
  cases hstep with
  | same => exact ⟨haddress, hlocked⟩
  | signed sig t1 => exact ⟨haddress, fun h => by simp [FillStatus.rank] at h⟩
  | dstFunded escrow hstatus => exact ⟨haddress, fun h => by simp [FillStatus.rank] at h⟩
  | srcLocked escrow hstatus =>
      obtain ⟨c, hl, fill, hhash, ha, hfill, hfiller⟩ := hst
      have hlock : LockedAt b s r escrow := ⟨c, hl, fill, hhash, ha, hfill, hfiller⟩
      exact ⟨fun a ha => Option.some.inj ha ▸ hlock, fun _ => ⟨escrow, hlock⟩⟩
  | revealed secret hstatus => exact ⟨haddress, fun _ => hlocked (by simp [hstatus])⟩
  | claimed hstatus =>
      exact ⟨haddress, fun _ => hlocked (by simp [hstatus, FillStatus.rank])⟩
  | slashed hstatus =>
      obtain ⟨id₀, r₀, a, c, n, e, hr₀, hk, hh, hlock, -⟩ := hst
      obtain rfl := hreg.unique id₀ id r₀ r hr₀ hr hk hh
      obtain rfl := Option.some.inj (hr.symm.trans hr₀)
      exact ⟨haddress, fun _ => ⟨a, hlock⟩⟩

/-- A watcher is behind the block that was not complete before its move. -/
theorem SrcBacked.step_behind (hs : SrcBacked b s) (m : b.Move) (c : Nat) :
    ((b.step s m).srcWatcher c).Behind (s.source c).block.number := by
  rcases step_srcWatcher (s := s) m c with hsame | ⟨m', -, hmove⟩ | ⟨-, hrestart⟩
  · rw [hsame]
    exact hs.behind c
  · rw [hmove]
    exact moveSrc_behind (hs.behind c) m'
  · rw [hrestart]
    exact (hs.behind c).restart

theorem srcBacked_step (hreg : Regular b s) (hs : SrcBacked b s) (m : b.Move) :
    SrcBacked b (b.step s m) := by
  have hlast := lasting_step hreg m
  have hrow : ∀ id r', (b.step s m).db.fills id = some r' →
      (∀ a, r'.escrowSrcAddr = some a → LockedAt b (b.step s m) r' a) ∧
        (FillStatus.srcLocked.rank ≤ r'.status.rank → ∃ a, LockedAt b (b.step s m) r' a) := by
    intro id r' hr'
    rcases step_back hreg m hr' with ⟨r, hr, rfl | ⟨st, hst, hstep⟩⟩ | ⟨-, q, -, -, rfl⟩
    · exact ⟨fun a ha => (hs.address id r' a hr ha).later hlast (.refl r'), fun h =>
        (hs.locked id r' hr h).imp fun a ha => ha.later hlast (.refl r')⟩
    · obtain ⟨haddress, hlocked⟩ := hs.row hreg (hs.runs hst) hr hstep
      exact ⟨fun a ha => (haddress a ha).later hlast hstep.sameKey,
        fun h => (hlocked h).imp fun a ha => ha.later hlast hstep.sameKey⟩
    · exact ⟨fun a ha => by simp [Quote.row] at ha,
        fun h => by simp [Quote.row, FillStatus.rank] at h⟩
  constructor
  case pending =>
      intro st hst
      rcases step_pending m hst with hold | ⟨now, req, hselect⟩ | ⟨k, h, rfl⟩
      · exact (hs.pending st hold).later hlast
      · exact (select_witnessed hselect).later hlast
      · trivial
  case work =>
      intro c st hwork
      rcases step_srcWork hwork with hold | ⟨choice, e, hnext, hread⟩
      · exact (hs.work c st hold).later hlast
      · exact (handleSrc_witnessed hreg hs hnext hread).later hlast
  case writing =>
      intro c st hwork
      rcases step_dstWork hwork with hold | ⟨choice, e, -, hread⟩ | ⟨q, st', -, hcheck, heq⟩
      · exact (hs.writing c st hold).later hlast
      · obtain ⟨l, hl⟩ := handleDst_found hread
        cases hl
      · obtain rfl : st = st' := by simpa using heq
        exact (checkQuote_witnessed hcheck).later hlast
  case logs =>
      intro c
      have hold : ((b.step s m).srcWatcher c).Left (FromLogs (s.source c).events) := by
        rcases step_srcWatcher m c with hsame | ⟨m', -, hmove⟩ | ⟨-, hrestart⟩
        · rw [hsame]
          exact hs.logs c
        · rw [hmove]
          exact moveSrc_left (hs.logs c) m'
        · rw [hrestart]
          exact Watcher.left_restart _
      exact hold.mono fun toBlock logs h => h.mono (hlast.events c)
  case behind =>
      exact fun c => (hs.step_behind m c).mono (hreg.step_source m c).segments.number
  case address => exact fun id r' a hr' ha => (hrow id r' hr').1 a ha
  case locked => exact fun id r' hr' h => (hrow id r' hr').2 h

omit [DecidableEq κ] [DecidableEq A] [DecidableEq H] in
theorem srcBacked_init {source : Nat → SourceState κ A W}
    {destination : Nat → DestinationState A W} : SrcBacked b (.init source destination) where
  pending := nofun
  work := nofun
  writing := nofun
  logs := fun _ => Watcher.left_init
  behind := fun _ => Watcher.behind_init _
  address := fun _ _ _ hr => nomatch hr
  locked := fun _ _ hr => nomatch hr

theorem ReachableBy.srcBacked {Q : BackendState κ A W H → b.Move → Prop} (hs : b.ReachableBy Q s) :
    Regular b s ∧ SrcBacked b s :=
  hs.keep (fun _ _ => srcBacked_init) fun hreg hs _ => srcBacked_step hreg hs _

end Backend

end NeutronX.CrossChain
