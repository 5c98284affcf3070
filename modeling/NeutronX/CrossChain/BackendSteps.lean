import NeutronX.CrossChain.Backend
import NeutronX.CrossChain.DestinationSteps
import NeutronX.CrossChain.ServiceSteps
import NeutronX.CrossChain.SourceLog

/-!
# What an instruction does

An instruction runs at most one statement, and makes at most one chain
take a transaction. `runs_cases` and the `step_` lemmas say where a
statement and the work of a watcher come from; `Lasting` is what no
instruction takes back.
-/

namespace NeutronX.CrossChain

open Evm Sql Function
open OrderService (check_eq_ok)

/-! ## Queries -/

namespace Db

variable {κ A H : Type} {db : Db κ A H} {p : FillRow κ A H → Bool} {choice : Nat}

theorem mem_fillsWhere (hfresh : db.Fresh) {id : Nat} :
    id ∈ db.fillsWhere p ↔ ∃ r, db.fills id = some r ∧ p r = true := by
  simp only [fillsWhere, List.mem_filter, List.mem_range, Option.any_eq_true]
  refine ⟨fun h => h.2, fun ⟨r, hr, hp⟩ => ⟨?_, r, hr, hp⟩⟩
  by_contra hid
  simp [hfresh id (Nat.le_of_not_lt hid)] at hr

/-- A query finds a row that there is. -/
theorem anyRow_eq_some {r : FillRow κ A H} (h : db.anyRow p choice = some r) :
    ∃ id, db.fills id = some r ∧ p r = true := by
  obtain ⟨id, hid, hr⟩ := Option.bind_eq_some_iff.mp h
  have hin : id ∈ db.fillsWhere p := List.mem_of_getElem? hid
  simp only [fillsWhere, List.mem_filter, hr, Option.any_some] at hin
  exact ⟨id, hr, hin.2⟩

/-- And finds one if there is any. -/
theorem anyRow_isSome (hfresh : db.Fresh) {id : Nat} {r : FillRow κ A H}
    (hr : db.fills id = some r) (hp : p r = true) : ∃ r', db.anyRow p choice = some r' := by
  have hin : id ∈ db.fillsWhere p := (mem_fillsWhere hfresh).mpr ⟨r, hr, hp⟩
  have hlt : choice % (db.fillsWhere p).length < (db.fillsWhere p).length :=
    Nat.mod_lt _ (List.length_pos_of_mem hin)
  obtain ⟨r', hr', -⟩ := (mem_fillsWhere hfresh).mp (List.getElem_mem hlt)
  refine ⟨r', ?_⟩
  simp only [anyRow, List.getElem?_eq_getElem hlt, Option.bind_some, hr']

/-- `UNIQUE (order_hash, hashlock)` -/
def Unique (db : Db κ A H) : Prop :=
  ∀ id id' r r', db.fills id = some r → db.fills id' = some r' →
    r.orderHash = r'.orderHash → r.hashlock = r'.hashlock → id = id'

/-- The order of a row is there. -/
def Referenced (db : Db κ A H) : Prop :=
  ∀ id r, db.fills id = some r → ∃ o, db.orders r.orderHash = some o

theorem unique_init : (init : Db κ A H).Unique := fun _ _ _ _ hr => nomatch hr

variable [DecidableEq κ] [DecidableEq A] [DecidableEq H]

omit [DecidableEq A] in
theorem admits_eq_true (hfresh : db.Fresh) {q : Quote κ A H} :
    db.admits q = true ↔ (∃ o, db.orders q.orderHash = some o) ∧
      ∀ id r, db.fills id = some r → r.orderHash = q.orderHash → r.hashlock ≠ q.hashlock := by
  simp only [admits, Bool.and_eq_true, Option.isSome_iff_exists, List.all_eq_true, List.mem_range,
    Option.all_eq_true, Bool.not_eq_true', Bool.and_eq_false_iff, beq_eq_false_iff_ne]
  refine and_congr_right fun _ => ⟨fun h id r hr horder => ?_, fun h id _ r hr => ?_⟩
  · have hlt : id < db.nextFillId := by
      by_contra hid
      simp [hfresh id (Nat.le_of_not_lt hid)] at hr
    exact (h id hlt r hr).resolve_left (not_not_intro horder)
  · exact or_iff_not_imp_left.mpr fun horder => h id r hr (not_not.mp horder)

theorem execute_referenced (hfresh : db.Fresh) (href : db.Referenced) (st : Statement κ A H) :
    (db.execute st).Referenced := by
  intro id r' hr'
  have hbefore : ∃ o, db.orders r'.orderHash = some o := by
    rcases execute_back hfresh hr' with ⟨r, hr, hstep⟩ | ⟨-, q, -, hadmits, rfl⟩
    · exact hstep.sameKey.orderHash ▸ href id r hr
    · exact ((admits_eq_true hfresh).mp hadmits).1
  obtain ⟨o, ho⟩ := hbefore
  obtain ⟨o', ho', -⟩ := execute_orders st _ o ho
  exact ⟨o', ho'⟩

theorem execute_unique (hfresh : db.Fresh) (hunique : db.Unique) (st : Statement κ A H) :
    (db.execute st).Unique := by
  intro id id' r₁ r₂ hr₁ hr₂ horder hhash
  rcases execute_back hfresh hr₁ with ⟨r, hr, hstep⟩ | ⟨hnone, q, rfl, hadmits, rfl⟩ <;>
    rcases execute_back hfresh hr₂ with ⟨r', hr', hstep'⟩ | ⟨hnone', q', hq', hadmits', hrow'⟩
  · have hkey := hstep.sameKey
    have hkey' := hstep'.sameKey
    exact hunique id id' r r' hr hr' (by rw [← hkey.orderHash, horder, hkey'.orderHash])
      (by rw [← hkey.hashlock, hhash, hkey'.hashlock])
  · obtain rfl := hrow'
    have hkey := hstep.sameKey
    exact absurd (by rw [← hkey.hashlock, hhash]; rfl)
      (((admits_eq_true hfresh).mp hadmits').2 id r hr (by rw [← hkey.orderHash, horder]; rfl))
  · have hkey' := hstep'.sameKey
    exact absurd (by rw [← hkey'.hashlock, ← hhash]; rfl)
      (((admits_eq_true hfresh).mp hadmits).2 id' r' hr' (by rw [← hkey'.orderHash, ← horder]; rfl))
  · obtain ⟨-, -, -, hid, -⟩ := execute_new hnone hr₁
    obtain ⟨-, -, -, hid', -⟩ := execute_new hnone' hr₂
    exact hid.trans hid'.symm

end Db

namespace Backend

variable {κ A W H : Type} [Zero A] [DecidableEq κ] [DecidableEq A] [DecidableEq H]
  {b : Backend κ A W H} {s : BackendState κ A W H}

/-! ## The database and what waits for it -/

omit [DecidableEq κ] [DecidableEq H] in
/-- A relay leaves the tables alone. -/
theorem relay_service (c now id : Nat) (hashlock : Bytes32) (filler : A)
    (turns : List (List (Call (DestinationChain.Label A W)))) :
    (b.relay s c now id hashlock filler turns).db = s.db ∧
      ∀ st ∈ (b.relay s c now id hashlock filler turns).service.pending,
        st ∈ s.service.pending ∨ ∃ k h, st = .recordClaimed k h := by
  unfold relay
  split
  case h_1 => exact ⟨rfl, fun st hst => .inl hst⟩
  case h_2 r secret _ =>
      split
      case h_1 => exact ⟨rfl, fun st hst => .inl hst⟩
      case h_2 x _ =>
          refine ⟨rfl, fun st hst => ?_⟩
          rcases List.mem_cons.mp hst with rfl | hst
          · exact .inr ⟨_, _, rfl⟩
          · exact .inl hst

/-- **One statement an instruction.** -/
theorem step_db (m : b.Move) : (b.step s m).db = ((b.runs s m).map s.db.execute).getD s.db := by
  cases m with
  | request now req =>
      simp only [step, Service.move, runs, BackendState.db]
      split <;> rfl
  | execute place =>
      simp only [step, Service.move, runs, BackendState.db]
      cases s.service.pending[place]? <;> rfl
  | source | destination | restart | srcWatcher | dstWatcher => rfl
  | relay c now id hashlock filler turns => exact (relay_service c now id hashlock filler turns).1

theorem step_pending (m : b.Move) {st : Statement κ A H}
    (h : st ∈ (b.step s m).service.pending) :
    st ∈ s.service.pending ∨ (∃ now req, b.service.select now s.db req = .ok st) ∨
      ∃ k h, st = .recordClaimed k h := by
  cases m with
  | request now req =>
      simp only [step, Service.move] at h
      split at h
      case h_2 => exact .inl h
      case h_1 st' hselect =>
          rcases List.mem_cons.mp h with rfl | h
          · exact .inr (.inl ⟨now, req, hselect⟩)
          · exact .inl h
  | execute place =>
      simp only [step, Service.move] at h
      split at h
      case h_2 => exact .inl h
      case h_1 => exact .inl (List.mem_of_mem_eraseIdx h)
  | source | destination | srcWatcher | dstWatcher => exact .inl h
  | relay c now id hashlock filler turns =>
      exact ((relay_service c now id hashlock filler turns).2 st h).imp_right .inr
  | restart => simp [step] at h

/-! ## Watchers -/

omit [DecidableEq κ] [DecidableEq A] [DecidableEq H] in
theorem watch_work {E J : Type} {started : Bool} {number : Nat} {select : Nat → Nat → List E}
    {w : Watcher E J} {j : J} (m : WatcherMove)
    (h : (watch started number select w m).work = some j) : w.work = some j := by
  cases m with
  | connect current discard =>
      simp only [watch] at h
      split at h
      · simpa using h
      · exact h
  | see n =>
      simp only [watch] at h
      split at h
      · simpa using h
      · exact h
  | fetch | finish => simpa [watch] using h
  | fail => simp [watch, Watcher.work_fail] at h
  | handle | check | write => exact h

omit [DecidableEq κ] [DecidableEq H] in
theorem moveSrc_work {c : Nat} {w : SrcWatcher κ A H} {st : Statement κ A H} (m : WatcherMove)
    (h : (b.moveSrc s c w m).work = some st) :
    w.work = some st ∨ ∃ choice e, w.next = some e ∧
      b.handleSrc (s.source c) s.db c choice e = some st := by
  cases m with
  | handle choice =>
      simp only [moveSrc] at h
      split at h
      case h_2 => exact .inl h
      case h_1 e hnext =>
          exact (Watcher.work_take h).imp_right fun hwork => ⟨choice, e, hnext, hwork⟩
  | write => exact nomatch Watcher.work_goOn h
  | connect | see | fetch | check | fail | finish => exact .inl (watch_work _ h)

omit [DecidableEq κ] in
theorem moveDst_work {c : Nat} {w : DstWatcher κ A H} {j : DstWork κ A H} (m : WatcherMove)
    (h : (b.moveDst s c w m).work = some j) :
    w.work = some j ∨
      (∃ choice e, w.next = some e ∧ b.handleDst s.db c choice e = some j) ∨
      ∃ q st, w.work = some (.found q) ∧ b.checkQuote (s.destination c) c q = some st ∧
        j = .writing st := by
  cases m with
  | handle choice =>
      simp only [moveDst] at h
      split at h
      case h_2 => exact .inl h
      case h_1 e hnext =>
          exact (Watcher.work_take h).imp_right fun hwork => .inl ⟨choice, e, hnext, hwork⟩
  | check =>
      simp only [moveDst] at h
      split at h
      case h_2 => exact .inl h
      case h_1 q hwork =>
          obtain ⟨st, hst, rfl⟩ := Option.map_eq_some_iff.mp (Watcher.work_goOn h)
          exact .inr (.inr ⟨q, st, hwork, hst, rfl⟩)
  | write =>
      simp only [moveDst] at h
      split at h
      case h_2 => exact .inl h
      case h_1 => exact nomatch Watcher.work_goOn h
  | connect | see | fetch | fail | finish => exact .inl (watch_work _ h)

omit [DecidableEq κ] [DecidableEq A] in
theorem handleDst_found {c choice : Nat} {e : DestinationEvent A} {j : DstWork κ A H}
    (h : b.handleDst s.db c choice e = some j) : ∃ q, j = .found q := by
  unfold handleDst at h
  split at h
  case h_1 => exact (Option.map_eq_some_iff.mp h).imp fun q hq => hq.2.symm
  case h_2 => cases h

/-- What an instruction does to a source watcher. -/
theorem step_srcWatcher (m : b.Move) (c : Nat) :
    (b.step s m).srcWatcher c = s.srcWatcher c ∨
      (∃ m', m = .srcWatcher c m' ∧
        (b.step s m).srcWatcher c = b.moveSrc s c (s.srcWatcher c) m') ∨
      (m = .restart ∧ (b.step s m).srcWatcher c = (s.srcWatcher c).restart) := by
  cases m with
  | srcWatcher c' m =>
      by_cases hc : c = c'
      · subst hc
        exact .inr (.inl ⟨m, rfl, by simp [step, BackendState.setSrcWatcher]⟩)
      · exact .inl (by simp [step, BackendState.setSrcWatcher, hc])
  | relay c' now id hashlock filler turns =>
      refine .inl ?_
      simp only [step, relay]
      split
      case h_1 => rfl
      case h_2 => split <;> rfl
  | restart => exact .inr (.inr ⟨rfl, rfl⟩)
  | request | execute | source | destination | dstWatcher => exact .inl rfl

/-- What a source watcher has in hand it had before, or has just read. -/
theorem step_srcWork {m : b.Move} {c : Nat} {st : Statement κ A H}
    (h : ((b.step s m).srcWatcher c).work = some st) :
    (s.srcWatcher c).work = some st ∨ ∃ choice e, (s.srcWatcher c).next = some e ∧
      b.handleSrc (s.source c) s.db c choice e = some st := by
  rcases step_srcWatcher m c with hsame | ⟨m', -, hmove⟩ | ⟨-, hrestart⟩
  · exact .inl (hsame ▸ h)
  · exact moveSrc_work m' (hmove ▸ h)
  · simp [hrestart] at h

theorem step_dstWork {m : b.Move} {c : Nat} {j : DstWork κ A H}
    (h : ((b.step s m).dstWatcher c).work = some j) :
    (s.dstWatcher c).work = some j ∨
      (∃ choice e, (s.dstWatcher c).next = some e ∧ b.handleDst s.db c choice e = some j) ∨
      ∃ q st, (s.dstWatcher c).work = some (.found q) ∧
        b.checkQuote (s.destination c) c q = some st ∧ j = .writing st := by
  cases m with
  | dstWatcher c' m =>
      by_cases hc : c = c'
      · subst hc
        exact moveDst_work m (by simpa [step, BackendState.setDstWatcher] using h)
      · exact .inl (by simpa [step, BackendState.setDstWatcher, hc] using h)
  | relay c' now id hashlock filler turns =>
      refine .inl ?_
      simp only [step, relay] at h
      split at h
      case h_1 => exact h
      case h_2 => split at h <;> exact h
  | restart => simp [step] at h
  | request | execute | source | destination | srcWatcher => exact .inl h

omit [DecidableEq κ] [DecidableEq A] [DecidableEq H] in
/-- Where a statement that runs comes from. -/
theorem runs_cases {m : b.Move} {st : Statement κ A H} (h : b.runs s m = some st) :
    st ∈ s.service.pending ∨ (∃ c, (s.srcWatcher c).work = some st) ∨
      ∃ c, (s.dstWatcher c).work = some (.writing st) := by
  unfold runs at h
  split at h
  case h_1 => exact .inl (List.mem_of_getElem? h)
  case h_2 c => exact .inr (.inl ⟨c, h⟩)
  case h_3 c =>
      split at h
      case h_1 st' hwork =>
          obtain rfl := Option.some.inj h
          exact .inr (.inr ⟨c, hwork⟩)
      case h_2 => cases h
  case h_4 => cases h

/-! ## Chains -/

/-- The source chain an instruction is for. -/
def Move.sourceChain : b.Move → Option Nat
  | .source c _ => some c
  | _ => none

theorem step_source (m : b.Move) (c : Nat) :
    (b.step s m).source c = s.source c ∨ (m.sourceChain = some c ∧ ∃ tx, (b.step s m).source c =
      stepTx (SourceChain.body (b.source c)) SourceChain.elapse tx (s.source c)) := by
  cases m with
  | source c' tx =>
      by_cases hc : c = c'
      · subst hc
        exact .inr ⟨rfl, tx, by simp [step, BackendState.setSource]⟩
      · exact .inl (by simp [step, BackendState.setSource, hc])
  | relay c' now id hashlock filler turns =>
      refine .inl ?_
      simp only [step, relay]
      split
      case h_1 => rfl
      case h_2 => split <;> rfl
  | request | execute | destination | srcWatcher | dstWatcher | restart => exact .inl rfl

/-- A schedule for other chains leaves a chain alone. -/
theorem run_source {c : Nat} :
    ∀ {ms : List b.Move} {s : BackendState κ A W H}, (∀ m ∈ ms, m.sourceChain ≠ some c) →
      (b.run ms s).source c = s.source c
  | [], _, _ => rfl
  | m :: ms, s, hms => by
      have hrest : (b.run ms (b.step s m)).source c = (b.step s m).source c :=
        run_source fun m hm => hms m (List.mem_cons_of_mem _ hm)
      rcases step_source (s := s) m c with hsame | ⟨hm, -⟩
      · exact hrest.trans hsame
      · exact absurd hm (hms m (List.mem_cons_self ..))

theorem step_destination (m : b.Move) (c : Nat) :
    (b.step s m).destination c = s.destination c ∨
      (∃ tx, (b.step s m).destination c = stepTx (DestinationChain.body (b.destination c))
        DestinationChain.elapse tx (s.destination c)) ∨
      ∃ call, exec (DestinationChain.body (b.destination c)) call (s.destination c) =
        .ok ((b.step s m).destination c) := by
  cases m with
  | destination c' tx =>
      by_cases hc : c = c'
      · subst hc
        exact .inr (.inl ⟨tx, by simp [step, BackendState.setDestination]⟩)
      · exact .inl (by simp [step, BackendState.setDestination, hc])
  | relay c' now id hashlock filler turns =>
      simp only [step, relay]
      split
      case h_1 => exact .inl rfl
      case h_2 =>
          split
          case h_1 => exact .inl rfl
          case h_2 x hexec =>
              by_cases hc : c = c'
              · subst hc
                exact .inr (.inr ⟨_, by simpa [BackendState.setDestination] using hexec⟩)
              · exact .inl (by simp [BackendState.setDestination, hc])
  | request | execute | source | srcWatcher | dstWatcher | restart => exact .inl rfl

/-! ## What lasts -/

/-- What no instruction takes back. -/
structure Lasting (s s' : BackendState κ A W H) : Prop where
  rows : ∀ id r, s.db.fills id = some r → ∃ r', s'.db.fills id = some r' ∧ SameKey r r' ∧
    (r'.status = .quoted → r.status = .quoted)
  orders : Table.Evolves (fun _ o o' => SameOrder o o') s.db.orders s'.db.orders
  terms : ∀ c hl f t, ((s.destination c).escrows hl f).terms = some t →
    ((s'.destination c).escrows hl f).terms = some t
  fills : ∀ c k h fill, ((s.source c).escrows k h).fill = some fill →
    ((s'.source c).escrows k h).fill = some fill
  cancelled : ∀ c k h, ((s.source c).escrows k h).cancelled = true →
    ((s'.source c).escrows k h).cancelled = true
  events : ∀ c, (s.source c).events <:+ (s'.source c).events

/-- What holds of every state, whatever happens. -/
structure Regular (b : Backend κ A W H) (s : BackendState κ A W H) : Prop where
  fresh : s.db.Fresh
  unique : s.db.Unique
  referenced : s.db.Referenced
  source : ∀ c, SourceChain.Moment (b.source c) (s.source c) ∧ SourceChain.Between (s.source c)
  destination : ∀ c, DestinationChain.Moment (b.destination c) (fun _ => True) (s.destination c) ∧
    DestinationChain.Between (s.destination c)

theorem Regular.step_source (hs : Regular b s) (m : b.Move) (c : Nat) :
    SourceChain.Passed (b.source c) (s.source c) ((b.step s m).source c) := by
  obtain ⟨-, hfree⟩ := hs.source c
  rcases Backend.step_source m c with hsame | ⟨-, tx, hstep⟩
  · rw [hsame]
    exact ⟨.refl, hfree, fun _ _ _ h => h⟩
  · rw [hstep]
    exact SourceChain.stepTx_passed tx hfree

theorem Regular.step_destination (hs : Regular b s) (m : b.Move) (c : Nat) :
    DestinationChain.Passed (b.destination c) (s.destination c)
      ((b.step s m).destination c) := by
  obtain ⟨-, hfree⟩ := hs.destination c
  rcases Backend.step_destination m c with hsame | ⟨tx, hstep⟩ | ⟨call, hexec⟩
  · rw [hsame]
    exact ⟨.refl, hfree⟩
  · rw [hstep]
    exact DestinationChain.stepTx_passed tx hfree
  · exact DestinationChain.exec_passed hfree hexec

/-- A property of the tables that every statement keeps. -/
theorem step_db_keep {I : Db κ A H → Prop} (hexecute : ∀ st, I s.db → I (s.db.execute st))
    (m : b.Move) (h : I s.db) : I (b.step s m).db := by
  rw [step_db]
  cases b.runs s m with
  | none => exact h
  | some st => exact hexecute st h

theorem regular_step (hs : Regular b s) (m : b.Move) : Regular b (b.step s m) where
  fresh := step_db_keep (I := Db.Fresh) (fun st h => Db.execute_fresh h st) m hs.fresh
  unique := step_db_keep (I := Db.Unique) (fun st h => Db.execute_unique hs.fresh h st) m hs.unique
  referenced := step_db_keep (I := Db.Referenced)
    (fun st h => Db.execute_referenced hs.fresh h st) m hs.referenced
  source := fun c =>
    have h := hs.step_source m c
    ⟨(hs.source c).1.segments h.segments, h.between⟩
  destination := fun c =>
    have h := hs.step_destination m c
    ⟨(hs.destination c).1.segments h.segments, h.between⟩

theorem lasting_step (hs : Regular b s) (m : b.Move) : Lasting s (b.step s m) where
  rows := fun id r hr => step_db_keep
    (I := fun db => ∃ r', db.fills id = some r' ∧ SameKey r r' ∧
      (r'.status = .quoted → r.status = .quoted))
    (fun st _ => by
      obtain ⟨r', hr', hstep⟩ := Db.execute_evolves hs.fresh st id r hr
      exact ⟨r', hr', hstep.sameKey, hstep.quoted⟩) m ⟨r, hr, .refl r, fun h => h⟩
  orders := step_db_keep (I := fun db => Table.Evolves (fun _ o o' => SameOrder o o') s.db.orders
    db.orders) (fun st _ => Db.execute_orders st) m fun _ o ho => ⟨o, ho, .refl o⟩
  terms := fun c _ _ _ hterms => (hs.step_destination m c).segments.terms hterms
  fills := fun c k h fill hfill => (hs.step_source m c).fills k h fill hfill
  cancelled := fun c k h hcancelled => (hs.step_source m c).segments.keep
    (I := fun x => (x.escrows k h).cancelled = true)
    (fun hcancelled hseg => (hseg.effect.stays k h).cancelled hcancelled) hcancelled
  events := fun c => (hs.step_source m c).segments.keep
    (I := fun x => (s.source c).events <:+ x.events)
    (fun hsuffix hseg => hsuffix.trans hseg.effect.events) (List.suffix_refl _)

/-- What becomes of a row. -/
theorem step_row (hs : Regular b s) (m : b.Move) {id : Nat} {r : FillRow κ A H}
    (hr : s.db.fills id = some r) :
    ∃ r', (b.step s m).db.fills id = some r' ∧ (r' = r ∨
      ∃ st, b.runs s m = some st ∧ RowStep id r st r') := by
  rw [step_db]
  cases hst : b.runs s m with
  | none => exact ⟨r, hr, .inl rfl⟩
  | some st =>
      obtain ⟨r', hr', hstep⟩ := Db.execute_evolves hs.fresh st id r hr
      exact ⟨r', hr', .inr ⟨st, rfl, hstep⟩⟩

/-- Where a row comes from: a row before it, or a quote. -/
theorem step_back (hs : Regular b s) (m : b.Move) {id : Nat} {r' : FillRow κ A H}
    (hr' : (b.step s m).db.fills id = some r') :
    (∃ r, s.db.fills id = some r ∧ (r' = r ∨
      ∃ st, b.runs s m = some st ∧ RowStep id r st r')) ∨
    (s.db.fills id = none ∧ ∃ q, b.runs s m = some (.insertFill q) ∧ s.db.admits q = true ∧
      r' = q.row) := by
  rw [step_db] at hr'
  cases hst : b.runs s m with
  | none =>
      rw [hst] at hr'
      exact .inl ⟨r', hr', .inl rfl⟩
  | some st =>
      rw [hst] at hr'
      rcases Db.execute_back hs.fresh hr' with ⟨r, hr, hstep⟩ | ⟨hnone, q, rfl, hadmits, rfl⟩
      · exact .inl ⟨r, hr, .inr ⟨st, rfl, hstep⟩⟩
      · exact .inr ⟨hnone, q, rfl, hadmits, rfl⟩

/-- A schedule is a run, of instructions that satisfy what theirs implies. -/
theorem run_steps {P Q : BackendState κ A W H → b.Move → Prop}
    (hPQ : ∀ s m, Regular b s → P s m → Q s m) :
    ∀ {ms : List b.Move} {s : BackendState κ A W H}, Regular b s → b.Runs P ms s →
      b.Steps Q s (b.run ms s)
  | [], _, _, _ => .refl
  | m :: _, s, hs, ⟨hm, hms⟩ =>
      .head ⟨m, hPQ s m hs hm, rfl⟩ (run_steps hPQ (regular_step hs m) hms)

omit [DecidableEq H] in
theorem regular_init {source : Nat → SourceState κ A W} {destination : Nat → DestinationState A W}
    (hsource : ∀ c, SourceChain.Reachable (b.source c) (source c))
    (hdestination : ∀ c, DestinationChain.Reachable (b.destination c) (destination c)) :
    Regular b (.init source destination) where
  fresh := Db.fresh_init
  unique := Db.unique_init
  referenced := nofun
  source := fun c => (hsource c).moment
  destination := fun c => (hdestination c).moment

theorem steps_mono {Q Q' : BackendState κ A W H → b.Move → Prop} (hQ : ∀ s m, Q s m → Q' s m)
    {s s' : BackendState κ A W H} (h : b.Steps Q s s') : b.Steps Q' s s' := by
  induction h with
  | refl => exact .refl
  | tail _ hstep ih =>
      obtain ⟨m, hm, rfl⟩ := hstep
      exact ih.tail ⟨m, hQ _ m hm, rfl⟩

/-- What every instruction keeps, every run keeps. -/
theorem steps_keep {Q : BackendState κ A W H → b.Move → Prop} {I : BackendState κ A W H → Prop}
    (hstep : ∀ {s m}, Regular b s → I s → Q s m → I (b.step s m)) {s s' : BackendState κ A W H}
    (hreg : Regular b s) (hs : I s) (hsteps : b.Steps Q s s') : Regular b s' ∧ I s' := by
  induction hsteps with
  | refl => exact ⟨hreg, hs⟩
  | tail _ hmove ih =>
      obtain ⟨m, hQ, rfl⟩ := hmove
      exact ⟨regular_step ih.1 m, hstep ih.1 ih.2 hQ⟩

/-- And holds of every state, if it does at the start. -/
theorem ReachableBy.keep {Q : BackendState κ A W H → b.Move → Prop}
    {I : BackendState κ A W H → Prop} (hs : b.ReachableBy Q s)
    (hinit : ∀ source destination, I (.init source destination))
    (hstep : ∀ {s m}, Regular b s → I s → Q s m → I (b.step s m)) : Regular b s ∧ I s := by
  obtain ⟨source, destination, hsource, hdestination, hsteps⟩ := hs
  exact steps_keep hstep (regular_init hsource hdestination) (hinit source destination) hsteps

theorem run_reachableBy {P Q : BackendState κ A W H → b.Move → Prop} {ms : List b.Move}
    {source : Nat → SourceState κ A W} {destination : Nat → DestinationState A W}
    (hsource : ∀ c, SourceChain.Reachable (b.source c) (source c))
    (hdestination : ∀ c, DestinationChain.Reachable (b.destination c) (destination c))
    (hPQ : ∀ s m, Regular b s → P s m → Q s m) (hms : b.Runs P ms (.init source destination)) :
    b.ReachableBy Q (b.run ms (.init source destination)) :=
  ⟨source, destination, hsource, hdestination,
    run_steps hPQ (regular_init hsource hdestination) hms⟩

end Backend

end NeutronX.CrossChain
