import NeutronX.CrossChain.SourceEvidence

/-!
# Reveals on their way to the table

A secret is read from the `Withdrawn` of a clone, and the row is found by
the address that the handler of `Filled` wrote into it. That handler
writes it only while the fill is `authorized` and only for the account
that quoted it, so a clone that another account filled with the same
authorisation is never matched. `Leg.Relays` is what holds of the others:
the row keeps up with the watcher.
-/

namespace NeutronX.CrossChain

open Evm Sql Function
open OrderService (check_eq_ok)

/-- The source leg of a fill: its row, the pair of its clone, the account
that quoted it and the chain of its order. -/
structure Leg (κ A : Type) where
  id : Nat
  orderHash : κ
  hashlock : Bytes32
  filler : A
  chain : Nat

namespace Leg

open Backend

variable {κ A W H : Type} [Zero A] {b : Backend κ A W H} {s s' : BackendState κ A W H}
  {p : Leg κ A}

def escrow (b : Backend κ A W H) (p : Leg κ A) : A :=
  (b.source p.chain).computeAddress p.orderHash p.hashlock

def clone (s : BackendState κ A W H) (p : Leg κ A) : EscrowSrc κ A :=
  (s.source p.chain).escrows p.orderHash p.hashlock

/-- The row is the one of the leg. -/
structure Of (b : Backend κ A W H) (p : Leg κ A) (r : FillRow κ A H) : Prop where
  orderHash : r.orderHash = p.orderHash
  hashlock : r.hashlock = b.hex p.hashlock
  filler : r.filler = p.filler

/-- The clone of the pair is the filler's own, and one of the pair on another
chain is neither his nor at its address. -/
def OwnClone (b : Backend κ A W H) (s : BackendState κ A W H) (p : Leg κ A) : Prop :=
  ∀ c fill, ((s.source c).escrows p.orderHash p.hashlock).fill = some fill →
    (c = p.chain ∧ fill.filler = p.filler) ∨
    (fill.filler ≠ p.filler ∧
      (b.source c).computeAddress p.orderHash p.hashlock ≠ p.escrow b)

/-- The row has the secret, for the relayer. -/
def Shows (r : FillRow κ A H) (secret : Bytes32) : Prop :=
  (r.status = .revealed ∨ r.status = .claimed) ∧ r.secret = some secret

/-- How far the row of an authorised fill is. -/
inductive Stage (b : Backend κ A W H) (s : BackendState κ A W H) (p : Leg κ A)
    (r : FillRow κ A H) : Prop
  | waiting (hstatus : r.status = .authorized)
  | locked (hstatus : r.status = .srcLocked) (ha : r.escrowSrcAddr = some (p.escrow b))
  | revealed (n : Nat) (f : A) (secret : Bytes32) (hshows : Shows r secret)
      (he : (n, .withdrawn (p.escrow b) f secret) ∈ (s.source p.chain).events)
  | slashed (hstatus : r.status = .slashed) (hcancelled : (p.clone s).cancelled = true)

theorem Of.later {r r' : FillRow κ A H} (h : p.Of b r) (hkey : SameKey r r') : p.Of b r' :=
  ⟨by rw [hkey.orderHash, h.orderHash], by rw [hkey.hashlock, h.hashlock],
    by rw [hkey.filler, h.filler]⟩

theorem Stage.later {r : FillRow κ A H} (h : Stage b s p r) (hlast : Lasting s s') :
    Stage b s' p r := by
  cases h with
  | waiting hstatus => exact .waiting hstatus
  | locked hstatus ha => exact .locked hstatus ha
  | revealed n f secret hshows he =>
      exact .revealed n f secret hshows ((hlast.events p.chain).subset he)
  | slashed hstatus hcancelled => exact .slashed hstatus (hlast.cancelled _ _ _ hcancelled)

theorem OwnClone.earlier (h : OwnClone b s' p) (hlast : Lasting s s') : OwnClone b s p :=
  fun c fill hfill => h c fill (hlast.fills c _ _ fill hfill)

/-- The address of a leg's row is the one of its clone. -/
theorem OwnClone.lockedAt (hown : OwnClone b s p) {r : FillRow κ A H} (hof : p.Of b r) {a : A}
    (h : LockedAt b s r a) :
    a = p.escrow b ∧ ∃ fill, (p.clone s).fill = some fill ∧ fill.filler = p.filler := by
  obtain ⟨c, hl, fill, hhash, rfl, hfill, hfiller⟩ := h
  obtain rfl := b.hex_injective (hof.hashlock.symm.trans hhash)
  rw [hof.orderHash] at hfill ⊢
  rcases hown c fill hfill with ⟨rfl, hsame⟩ | ⟨hother, -⟩
  · exact ⟨rfl, fill, hfill, hsame⟩
  · exact absurd (hfiller.trans hof.filler) hother

variable [DecidableEq κ] [DecidableEq A]

/-- Its logs are those of its chain. -/
theorem OwnClone.emitted (hown : OwnClone b s p) (hreg : Regular b s) {c n : Nat}
    {e : SourceEvent κ A} (he : (n, e) ∈ (s.source c).events)
    (ha : e.emitter = some (p.escrow b)) : c = p.chain := by
  obtain ⟨k, hl, fill, haddress, hfill⟩ := (hreg.source c).1.emitter_filled he ha
  obtain ⟨rfl, rfl⟩ := b.srcAddress_injective haddress
  rcases hown c fill hfill with ⟨hc, -⟩ | ⟨-, hother⟩
  · exact hc
  · exact absurd haddress.symm hother

/-! ## The row -/

/-- A log that a statement goes by is one of the leg's clone. -/
theorem OwnClone.logged (hown : OwnClone b s p) (hreg : Regular b s) {r : FillRow κ A H}
    (hof : p.Of b r) (hr : s.db.fills p.id = some r) {log : A → SourceEvent κ A → Prop}
    (hemitter : ∀ a e, log a e → e.emitter = some a)
    (h : Logged b s r.orderHash r.hashlock log) :
    ∃ n e, (n, e) ∈ (s.source p.chain).events ∧ log (p.escrow b) e := by
  obtain ⟨id, r', a, c, n, e, hr', hk, hh, hlocked, he, hlog⟩ := h
  obtain rfl := hreg.unique id p.id r' r hr' hr hk hh
  obtain rfl := Option.some.inj (hr.symm.trans hr')
  obtain ⟨rfl, -⟩ := hown.lockedAt hof hlocked
  obtain rfl := hown.emitted hreg he (hemitter _ e hlog)
  exact ⟨n, e, he, hlog⟩

omit [DecidableEq κ] [DecidableEq A] in
theorem Stage.rank {r : FillRow κ A H} (h : Stage b s p r) :
    FillStatus.authorized.rank ≤ r.status.rank := by
  cases h with
  | waiting hstatus | locked hstatus | slashed hstatus => simp [hstatus, FillStatus.rank]
  | revealed n f secret hshows => rcases hshows.1 with h | h <;> simp [h, FillStatus.rank]

/-- What a statement does to the row of the leg, if an authorisation does not
come late. -/
theorem Stage.step (hown : OwnClone b s p) (hreg : Regular b s) {r r' : FillRow κ A H}
    {st : Statement κ A H} (hof : p.Of b r) (hr : s.db.fills p.id = some r)
    (hstage : Stage b s p r) (hst : Witnessed b s st)
    (hauthorised : ∀ sig t1, st = .setFillSig p.id sig t1 → r.status = .authorized)
    (hstep : RowStep p.id r st r') :
    Stage b s p r' ∧ r.status.rank ≤ r'.status.rank ∧
      ∀ secret, Shows r secret → Shows r' secret := by
  have hrank := hstage.rank
  cases hstep with
  | same => exact ⟨hstage, Nat.le_refl _, fun _ h => h⟩
  | signed sig t1 =>
      have hstatus := hauthorised sig t1 rfl
      exact ⟨.waiting rfl, by simp [hstatus], fun _ h => by simp [Shows, hstatus] at h⟩
  | dstFunded escrow hstatus => simp [hstatus, FillStatus.rank] at hrank
  | srcLocked escrow hstatus =>
      obtain ⟨c, hl, fill, hhash, ha, hfill, hfiller⟩ := hst
      obtain ⟨rfl, -⟩ := hown.lockedAt hof ⟨c, hl, fill, hhash, ha, hfill, hfiller⟩
      exact ⟨.locked rfl rfl, by simp [hstatus, FillStatus.rank],
        fun _ h => by simp [Shows, hstatus] at h⟩
  | revealed secret hstatus =>
      obtain ⟨n, e, he, f, rfl⟩ := hown.logged hreg hof hr
        (by rintro a e ⟨f, rfl⟩; rfl) hst
      exact ⟨.revealed n f secret ⟨.inl rfl, rfl⟩ he, by simp [hstatus, FillStatus.rank],
        fun _ h => by simp [Shows, hstatus] at h⟩
  | claimed hstatus =>
      cases hstage with
      | waiting hother | locked hother | slashed hother => simp [hstatus] at hother
      | revealed n f secret hshows he =>
          exact ⟨.revealed n f secret ⟨.inr rfl, hshows.2⟩ he,
            by simp [hstatus, FillStatus.rank], fun _ h => ⟨.inr rfl, h.2⟩⟩
  | slashed hstatus =>
      obtain ⟨n, e, he, to_, amount, f, deposit, rfl⟩ := hown.logged hreg hof hr
        (by rintro a e ⟨_, _, _, _, rfl⟩; rfl) hst
      obtain ⟨k, hl, ha, hcancelled⟩ :=
        (hreg.source p.chain).1.log.cancelled n _ to_ amount f deposit he
      obtain ⟨rfl, rfl⟩ := (b.source p.chain).computeAddress_injective ha
      exact ⟨.slashed rfl hcancelled, by rcases hstatus with h | h <;> simp [h, FillStatus.rank],
        fun _ h => by rcases hstatus with h' | h' <;> simp [Shows, h'] at h⟩

/-! ## The watcher -/

/-- The row is locked, or further. -/
def Locked (s : BackendState κ A W H) (p : Leg κ A) : Prop :=
  ∃ r, s.db.fills p.id = some r ∧ FillStatus.srcLocked.rank ≤ r.status.rank

def Revealed (s : BackendState κ A W H) (p : Leg κ A) (secret : Bytes32) : Prop :=
  ∃ r, s.db.fills p.id = some r ∧ Shows r secret

/-- The row shows what the log says. -/
def Done (b : Backend κ A W H) (s : BackendState κ A W H) (p : Leg κ A) (e : SourceEvent κ A) :
    Prop :=
  (e.isFilled p.orderHash p.hashlock = true → Locked s p) ∧
    ∀ f secret, e = .withdrawn (p.escrow b) f secret → Revealed s p secret

/-- The statement is about to make it so. -/
def Doing (b : Backend κ A W H) (s : BackendState κ A W H) (p : Leg κ A) (st : Statement κ A H)
    (e : SourceEvent κ A) : Prop :=
  (e.isFilled p.orderHash p.hashlock = true ∧
    st = .recordSrcLocked p.orderHash (b.hex p.hashlock) (p.escrow b) p.filler) ∨
  ∃ n f secret, e = .withdrawn (p.escrow b) f secret ∧ (n, e) ∈ (s.source p.chain).events ∧
    Locked s p ∧ st = .recordReveal p.orderHash (b.hex p.hashlock) secret

/-- The row keeps up with the watcher of its chain. -/
structure Relays (b : Backend κ A W H) (s : BackendState κ A W H) (p : Leg κ A) : Prop where
  row : ∃ r, s.db.fills p.id = some r ∧ p.Of b r ∧ Stage b s p r
  checkpoint : (s.srcWatcher p.chain).checkpoint.isSome = true
  covers : (s.srcWatcher p.chain).Covers (s.source p.chain).events (Done b s p) (Doing b s p)

/-- No authorisation of the fill is written after the fill has moved on. -/
def InTime (b : Backend κ A W H) (p : Leg κ A) (s : BackendState κ A W H) (m : b.Move) : Prop :=
  ∀ sig t1, b.runs s m = some (.setFillSig p.id sig t1) →
    ∀ r, s.db.fills p.id = some r → r.status = .authorized

/-- A row that is locked when its clone has withdrawn waits for the secret, or
has it. -/
theorem Stage.withdrawn {r : FillRow κ A H} (h : Stage b s p r) (hreg : Regular b s)
    {n : Nat} {f : A} {secret : Bytes32}
    (he : (n, .withdrawn (p.escrow b) f secret) ∈ (s.source p.chain).events)
    (hlocked : FillStatus.srcLocked.rank ≤ r.status.rank) :
    (r.status = .srcLocked ∧ r.escrowSrcAddr = some (p.escrow b)) ∨
      Shows r secret := by
  have hmoment := (hreg.source p.chain).1
  obtain ⟨hopen, hpaid⟩ := hmoment.withdrawn_once he
  cases h with
  | waiting hstatus => simp [hstatus, FillStatus.rank] at hlocked
  | locked hstatus ha => exact .inl ⟨hstatus, ha⟩
  | revealed n' f' secret' hshows he' =>
      obtain ⟨k, hl, ha, q, hq, hq'⟩ := hmoment.log.withdrawn n' _ f' secret' he'
      obtain ⟨rfl, rfl⟩ := (b.source p.chain).computeAddress_injective ha
      exact .inr ⟨hshows.1, by rw [hshows.2, ← hq', hpaid q hq]⟩
  | slashed hstatus hcancelled => simp [clone, hopen] at hcancelled

section Instruction

variable [DecidableEq H] {m : b.Move}

/-- The row, over one instruction. -/
theorem Relays.step_row (hs : Relays b s p) (hreg : Regular b s) (hsrc : SrcBacked b s)
    (hown : OwnClone b s p) (hm : InTime b p s m) :
    ∃ r r', s.db.fills p.id = some r ∧ (b.step s m).db.fills p.id = some r' ∧ p.Of b r' ∧
      Stage b (b.step s m) p r' ∧ r.status.rank ≤ r'.status.rank ∧
      ∀ secret, Shows r secret → Shows r' secret := by
  obtain ⟨r, hr, hof, hstage⟩ := hs.row
  have hlast := lasting_step hreg m
  obtain ⟨r', hr', rfl | ⟨st, hst, hstep⟩⟩ := Backend.step_row hreg m hr
  · exact ⟨r', r', hr, hr', hof, hstage.later hlast, Nat.le_refl _, fun _ h => h⟩
  · obtain ⟨hstage', hrank, hsecret⟩ := hstage.step hown hreg hof hr (hsrc.runs hst)
      (fun sig t1 heq => hm sig t1 (heq ▸ hst) r hr) hstep
    exact ⟨r, r', hr, hr', hof.later hstep.sameKey, hstage'.later hlast, hrank, hsecret⟩

theorem Relays.locked_step (hs : Relays b s p) (hreg : Regular b s) (hsrc : SrcBacked b s)
    (hown : OwnClone b s p) (hm : InTime b p s m) (h : Locked s p) : Locked (b.step s m) p := by
  obtain ⟨r, r', hr, hr', -, -, hrank, -⟩ := hs.step_row hreg hsrc hown hm
  obtain ⟨r₀, hr₀, hlocked⟩ := h
  obtain rfl := Option.some.inj (hr.symm.trans hr₀)
  exact ⟨r', hr', Nat.le_trans hlocked hrank⟩

theorem Relays.revealed_step (hs : Relays b s p) (hreg : Regular b s) (hsrc : SrcBacked b s)
    (hown : OwnClone b s p) (hm : InTime b p s m) {secret : Bytes32} (h : Revealed s p secret) :
    Revealed (b.step s m) p secret := by
  obtain ⟨r, r', hr, hr', -, -, -, hkept⟩ := hs.step_row hreg hsrc hown hm
  obtain ⟨r₀, hr₀, hshows⟩ := h
  obtain rfl := Option.some.inj (hr.symm.trans hr₀)
  exact ⟨r', hr', hkept secret hshows⟩

/-- What is done stays done, and what is under way stays under way. -/
theorem Relays.mono (hs : Relays b s p) (hreg : Regular b s) (hsrc : SrcBacked b s)
    (hown : OwnClone b s p) (hm : InTime b p s m) :
    (∀ e, Done b s p e → Done b (b.step s m) p e) ∧
      ∀ st e, Doing b s p st e → Doing b (b.step s m) p st e := by
  have hlast := lasting_step hreg m
  refine ⟨fun e he => ⟨fun hfilled => hs.locked_step hreg hsrc hown hm (he.1 hfilled),
    fun f secret heq => hs.revealed_step hreg hsrc hown hm (he.2 f secret heq)⟩, fun st e he => ?_⟩
  rcases he with hfilled | ⟨n, f, secret, heq, hin, hlocked, hst⟩
  · exact .inl hfilled
  · exact .inr ⟨n, f, secret, heq, (hlast.events p.chain).subset hin,
      hs.locked_step hreg hsrc hown hm hlocked, hst⟩

omit [DecidableEq A] [DecidableEq H] in
/-- A log that is neither of the two. -/
theorem done_other {e : SourceEvent κ A} (hfilled : e.isFilled p.orderHash p.hashlock = false)
    (hwithdrawn : ∀ f secret, e ≠ .withdrawn (p.escrow b) f secret) : Done b s p e :=
  ⟨fun h => by simp [hfilled] at h, fun f secret h => absurd h (hwithdrawn f secret)⟩

omit [DecidableEq H] in
/-- The clone was filled in a block drained before its withdrawal or with it,
and its `Filled` has been handled when the withdrawal is. -/
theorem Relays.locked_of_next (hs : Relays b s p) (hreg : Regular b s) (hsrc : SrcBacked b s)
    {f : A} {secret : Bytes32}
    (hnext : (s.srcWatcher p.chain).next = some (.withdrawn (p.escrow b) f secret)) :
    Locked s p := by
  obtain ⟨toBlock, logs, hdrain⟩ := Watcher.next_eq_some hnext
  have hlogs := hsrc.logs p.chain _ hdrain
  obtain ⟨n, hin, hn⟩ := hlogs.emitted _ (List.mem_cons_self ..)
  obtain ⟨hmoment, hfree⟩ := hreg.source p.chain
  obtain ⟨m, e, he, hm, hfilled⟩ := hmoment.log.after n _ _ f secret hin (by simp [hfree.filling])
  rcases hs.covers.drain _ hdrain m e he (Nat.le_trans hm hn) with hdone | hleft | ⟨j, hj, -⟩
  · exact hdone.1 hfilled
  · -- no `Filled` is left behind another log
    have hlog : e.isFilledLog = true := by
      cases e with
      | filled => rfl
      | remainingRestored | withdrawn | cancelled => cases hfilled
    rcases List.mem_cons.mp hleft with rfl | hleft
    · cases hfilled
    · exact nomatch (List.pairwise_cons.mp hlogs.filledFirst).1 e hleft hlog
  · cases hj

omit [DecidableEq H] in
/-- What the handler makes of a log. -/
theorem Relays.handle (hs : Relays b s p) (hreg : Regular b s) (hsrc : SrcBacked b s)
    (hown : OwnClone b s p) {e : SourceEvent κ A} {n choice : Nat}
    (hnext : (s.srcWatcher p.chain).next = some e) (he : (n, e) ∈ (s.source p.chain).events) :
    Done b s p e ∨
      ∃ st ∈ b.handleSrc (s.source p.chain) s.db p.chain choice e, Doing b s p st e := by
  have hmoment := (hreg.source p.chain).1
  cases e with
  | remainingRestored | cancelled => exact .inl (done_other rfl (by simp))
  | filled k hl f a amount bond t1 t2 =>
      by_cases hpair : k = p.orderHash ∧ hl = p.hashlock
      · obtain ⟨rfl, rfl⟩ := hpair
        obtain ⟨rfl, fill, hfill, rfl⟩ := hmoment.log.filled n _ _ _ _ _ _ _ _ he
        rcases hown p.chain fill hfill with ⟨-, hsame⟩ | ⟨-, hother⟩
        · refine .inr ⟨.recordSrcLocked p.orderHash (b.hex p.hashlock) (p.escrow b) p.filler, ?_,
            .inl ⟨by simp [SourceEvent.isFilled], rfl⟩⟩
          simp only [handleSrc, handleFilled, assertGenuineSrcClone, OrderService.check, hfill,
            hsame, escrow, Option.isSome_some, if_true]
          rfl
        · exact absurd rfl hother
      · exact .inl (done_other (by simpa [SourceEvent.isFilled] using hpair) (by simp))
  | withdrawn a f secret =>
      by_cases ha : a = p.escrow b
      · subst ha
        have hlocked := hs.locked_of_next hreg hsrc hnext
        obtain ⟨r, hr, hof, hstage⟩ := hs.row
        have hrank : FillStatus.srcLocked.rank ≤ r.status.rank := by
          obtain ⟨r₀, hr₀, hrank⟩ := hlocked
          exact Option.some.inj (hr₀.symm.trans hr) ▸ hrank
        rcases hstage.withdrawn hreg he hrank with ⟨hstatus, haddress⟩ | hshows
        · obtain ⟨r', hrow⟩ : ∃ r', s.db.anyRow
              (fun r => r.escrowSrcAddr == some (p.escrow b)) choice = some r' :=
            Db.anyRow_isSome hreg.fresh hr (by simp [haddress])
          obtain ⟨id', hr', ha'⟩ := Db.anyRow_eq_some hrow
          -- the address tells the pair, and the pair the row
          obtain ⟨c, hl, fill, hhash, ha'', -⟩ := hsrc.address id' r' _ hr' (by simpa using ha')
          obtain ⟨horder, rfl⟩ := b.srcAddress_injective ha''
          refine .inr ⟨.recordReveal p.orderHash (b.hex p.hashlock) secret, ?_,
            .inr ⟨n, f, secret, rfl, he, hlocked, rfl⟩⟩
          simp only [handleSrc, handleSrcEscrowLog, hrow, Option.map_some, hhash, ← horder]
          rfl
        · refine .inl ⟨fun hfilled => by simp [SourceEvent.isFilled] at hfilled,
            fun f' secret' heq => ?_⟩
          obtain ⟨-, -, rfl⟩ := SourceEvent.withdrawn.injEq .. |>.mp heq
          exact ⟨r, hr, hshows⟩
      · exact .inl (done_other rfl fun f' secret' heq => ha (SourceEvent.withdrawn.inj heq).1)

/-- A statement that is run makes it so. -/
theorem Relays.write (hs : Relays b s p) (hreg : Regular b s) (hsrc : SrcBacked b s)
    (hown : OwnClone b s p) (hm : InTime b p s m) {st : Statement κ A H} {e : SourceEvent κ A}
    (hrun : b.runs s m = some st) (hdoing : Doing b s p st e) : Done b (b.step s m) p e := by
  obtain ⟨r, hr, hof, hstage⟩ := hs.row
  have hdb : (b.step s m).db = s.db.execute st := by simp [step_db, hrun]
  rcases hdoing with ⟨hfilled, rfl⟩ | ⟨n, f, secret, rfl, he, hlocked, rfl⟩
  · refine ⟨fun _ => ?_, fun f secret heq => by rw [heq] at hfilled; cases hfilled⟩
    by_cases hwaiting : r.status = .authorized
    · refine
        ⟨{ r with escrowSrcAddr := some (p.escrow b), status := .srcLocked }, ?_, Nat.le_refl _⟩
      simp only [hdb, Db.execute, Db.recordSrcLocked, ← hof.orderHash, ← hof.hashlock, ← hof.filler]
      exact Db.record_fills hr (by simp [hwaiting])
    · refine hs.locked_step hreg hsrc hown hm ⟨r, hr, ?_⟩
      cases hstage with
      | waiting hstatus => exact absurd hstatus hwaiting
      | locked hstatus | slashed hstatus => simp [hstatus, FillStatus.rank]
      | revealed n f secret hshows => rcases hshows.1 with h | h <;> simp [h, FillStatus.rank]
  · have hrank : FillStatus.srcLocked.rank ≤ r.status.rank := by
      obtain ⟨r₀, hr₀, hrank⟩ := hlocked
      exact Option.some.inj (hr₀.symm.trans hr) ▸ hrank
    refine ⟨fun hfilled => by simp [SourceEvent.isFilled] at hfilled,
      fun f' secret' heq => ?_⟩
    obtain ⟨-, -, rfl⟩ := SourceEvent.withdrawn.injEq .. |>.mp heq
    rcases hstage.withdrawn hreg he hrank with ⟨hstatus, -⟩ | hshows
    · refine ⟨{ r with secret := some secret, status := .revealed }, ?_, .inl rfl, rfl⟩
      simp only [hdb, Db.execute, Db.recordReveal, ← hof.orderHash, ← hof.hashlock]
      exact Db.record_fills hr (by simp [hstatus])
    · exact hs.revealed_step hreg hsrc hown hm ⟨r, hr, hshows⟩

omit [DecidableEq κ] [DecidableEq A] [DecidableEq H] in
/-- No RPC or database call of the watcher of chain `c` fails, and it does not
drop its checkpoint. -/
def Healthy (b : Backend κ A W H) (c : Nat) (m : b.Move) : Prop :=
  m ≠ .srcWatcher c .fail ∧ ∀ current, m ≠ .srcWatcher c (.connect current true)

/-- The watcher of the leg's chain, over one of its own instructions. -/
theorem Relays.move (hs : Relays b s p) (hreg : Regular b s) (hsrc : SrcBacked b s)
    (hown : OwnClone b s p) {m' : WatcherMove} (hm : InTime b p s (.srcWatcher p.chain m'))
    (hhealthy : Healthy b p.chain (.srcWatcher p.chain m')) :
    (b.moveSrc s p.chain (s.srcWatcher p.chain) m').checkpoint.isSome = true ∧
      (b.moveSrc s p.chain (s.srcWatcher p.chain) m').Covers (s.source p.chain).events
        (Done b (b.step s (.srcWatcher p.chain m')) p)
        (Doing b (b.step s (.srcWatcher p.chain m')) p) := by
  obtain ⟨hdone, hdoing⟩ := hs.mono hreg hsrc hown hm
  have hcovers := hs.covers.mono hdone hdoing
  cases m' with
  | handle choice =>
      simp only [moveSrc]
      split
      case h_2 => exact ⟨hs.checkpoint, hcovers⟩
      case h_1 e hnext =>
          refine ⟨by simpa using hs.checkpoint, hcovers.take hnext fun hin => ?_⟩
          obtain ⟨n, he⟩ := hin
          rcases hs.handle hreg hsrc hown hnext he with h | ⟨st, hst, hdo⟩
          · exact .inl (hdone e h)
          · exact .inr ⟨st, hst, hdoing st e hdo⟩
  | write =>
      refine ⟨by simpa [moveSrc] using hs.checkpoint, ?_⟩
      have hwritten : ∀ st ∈ (s.srcWatcher p.chain).work, ∀ e, Doing b s p st e →
          Done b (b.step s (.srcWatcher p.chain .write)) p e ∨
            ∃ j ∈ (none : Option (Statement κ A H)), Doing b s p j e :=
        fun st hst e hdo => .inl (hs.write hreg hsrc hown hm hst hdo)
      exact ((hs.covers.mono hdone fun _ _ h => h).goOn hwritten).mono (fun _ h => h) hdoing
  | connect current discard =>
      simp only [moveSrc, watch]
      split
      case isFalse => exact ⟨hs.checkpoint, hcovers⟩
      case isTrue =>
          cases discard with
          | true => exact absurd rfl (hhealthy.2 current)
          | false =>
              exact ⟨Watcher.checkpoint_connect hs.checkpoint _ _,
                hcovers.connect hs.checkpoint current⟩
  | see n =>
      simp only [moveSrc, watch]
      split
      · exact ⟨hs.checkpoint, hcovers.see n⟩
      · exact ⟨hs.checkpoint, hcovers⟩
  | fetch =>
      refine ⟨by simpa [moveSrc, watch] using hs.checkpoint,
        hcovers.fetch (hsrc.behind p.chain) fun n e fromBlock toBlock he hfrom hto => ?_⟩
      have hin : e ∈ logsBetween (s.source p.chain).events fromBlock toBlock :=
        mem_logsBetween.mpr ⟨n, he, hfrom, hto⟩
      cases e with
      | filled | withdrawn | cancelled =>
          exact .inr (by simp [srcLogs, hin, SourceEvent.isFilledLog, SourceEvent.isRawLog])
      | remainingRestored => exact .inl (done_other rfl (by simp))
  | fail => exact absurd rfl hhealthy.1
  | finish stored =>
      exact ⟨Watcher.checkpoint_finish hs.checkpoint stored, hcovers.finish stored⟩
  | check => exact ⟨hs.checkpoint, hcovers⟩

/-- **The row keeps up**, over any instruction. -/
theorem relays_step (hreg : Regular b s) (hsrc : SrcBacked b s) (hs : Relays b s p)
    (hown : OwnClone b s p) (hm : InTime b p s m) (hhealthy : Healthy b p.chain m) :
    Relays b (b.step s m) p := by
  have hlast := lasting_step hreg m
  obtain ⟨hdone, hdoing⟩ := hs.mono hreg hsrc hown hm
  have hwatcher : ((b.step s m).srcWatcher p.chain).checkpoint.isSome = true ∧
      ((b.step s m).srcWatcher p.chain).Covers (s.source p.chain).events
        (Done b (b.step s m) p) (Doing b (b.step s m) p) := by
    rcases step_srcWatcher (s := s) m p.chain with hsame | ⟨m', rfl, hmove⟩ | ⟨-, hrestart⟩
    · rw [hsame]
      exact ⟨hs.checkpoint, hs.covers.mono hdone hdoing⟩
    · rw [hmove]
      exact hs.move hreg hsrc hown hm hhealthy
    · rw [hrestart]
      exact ⟨hs.checkpoint, (hs.covers.mono hdone hdoing).restart⟩
  obtain ⟨-, r', -, hr', hof, hstage, -⟩ := hs.step_row hreg hsrc hown hm
  exact ⟨⟨r', hr', hof, hstage⟩, hwatcher.1, hwatcher.2.grow (hsrc.step_behind m p.chain)
    fun n e he => (hreg.step_source m p.chain).segments.late he⟩

end Instruction

/-! ## Runs -/

/-- An authorised fill whose clone is not there yet, on a watched chain. -/
structure Waits (b : Backend κ A W H) (s : BackendState κ A W H) (p : Leg κ A) : Prop where
  row : ∃ r, s.db.fills p.id = some r ∧ p.Of b r ∧ FillStatus.authorized.rank ≤ r.status.rank
  vacant : (p.clone s).fill = none
  watched : (s.srcWatcher p.chain).checkpoint.isSome = true

/-- Once a block is processed, the secrets that the leg's clone revealed up to
it are in the row. -/
def NoneLost (b : Backend κ A W H) (s : BackendState κ A W H) (p : Leg κ A) : Prop :=
  ∀ n blockNumber f secret, (n, .withdrawn (p.escrow b) f secret) ∈ (s.source p.chain).events →
    n ≤ blockNumber → (∃ last ∈ (s.srcWatcher p.chain).lastBlock, blockNumber ≤ last) →
    Revealed s p secret

theorem relays_of_waits (hreg : Regular b s) (hsrc : SrcBacked b s) (hown : OwnClone b s p)
    (h : Waits b s p) : Relays b s p := by
  obtain ⟨r, hr, hof, hauthorized⟩ := h.row
  have hmoment := (hreg.source p.chain).1
  have hvacant : ∀ fill, (p.clone s).fill ≠ some fill := by simp [h.vacant]
  have hdone : ∀ n e, (n, e) ∈ (s.source p.chain).events → Done b s p e := by
    intro n e he
    refine ⟨fun hfilled => ?_, fun f secret heq => ?_⟩
    · cases e with
      | remainingRestored | withdrawn | cancelled => cases hfilled
      | filled k hl f a amount bond t1 t2 =>
          obtain ⟨rfl, rfl⟩ : k = p.orderHash ∧ hl = p.hashlock := by
            simpa [SourceEvent.isFilled] using hfilled
          obtain ⟨-, fill, hfill, -⟩ := hmoment.log.filled n _ _ _ _ _ _ _ _ he
          exact absurd hfill (hvacant fill)
    · subst heq
      obtain ⟨k, hl, fill, ha, hfill⟩ := hmoment.emitter_filled he rfl
      obtain ⟨rfl, rfl⟩ := (b.source p.chain).computeAddress_injective ha
      exact absurd hfill (hvacant fill)
  refine ⟨⟨r, hr, hof, .waiting ?_⟩, h.watched, fun _ _ n e he _ => hdone n e he,
    fun _ _ n e he _ => hdone n e he, fun _ _ n e he _ => .inl (hdone n e he)⟩
  have hnot : ¬FillStatus.srcLocked.rank ≤ r.status.rank := fun hlocked => by
    obtain ⟨a, ha⟩ := hsrc.locked p.id r hr hlocked
    obtain ⟨-, fill, hfill, -⟩ := hown.lockedAt hof ha
    exact hvacant fill hfill
  cases hstatus : r.status <;> simp [hstatus, FillStatus.rank] at hauthorized hnot ⊢

/-- **No reveal is lost**, where the clone is the filler's own and no
authorisation of the fill comes late. -/
theorem reveals_relayed [DecidableEq H] {s₁ s₂ : BackendState κ A W H} (hs₁ : b.Reachable s₁)
    (hwaits : Waits b s₁ p)
    (hsteps : b.Steps (fun s m => Healthy b p.chain m ∧ InTime b p s m) s₁ s₂)
    (hown : OwnClone b s₂ p) : NoneLost b s₂ p := by
  obtain ⟨hreg, hsrc⟩ := hs₁.srcBacked
  have hall : Regular b s₂ ∧ SrcBacked b s₂ ∧ (OwnClone b s₂ p → Relays b s₂ p) :=
    steps_keep (I := fun s => SrcBacked b s ∧ (OwnClone b s p → Relays b s p))
      (fun {s m} hreg ⟨hsrc, hrelays⟩ ⟨hhealthy, hm⟩ => ⟨srcBacked_step hreg hsrc m, fun hown' =>
        have hown := hown'.earlier (lasting_step hreg m)
        relays_step hreg hsrc (hrelays hown) hown hm hhealthy⟩)
      hreg ⟨hsrc, fun hown => relays_of_waits hreg hsrc hown hwaits⟩ hsteps
  intro n blockNumber f secret he hn ⟨last, hlast, hle⟩
  have hdone := (hall.2.2 hown).covers.lastBlock last hlast n _ he (Nat.le_trans hn hle)
  exact hdone.2 f secret rfl

/-! ## Whose clone it is -/

/-- The account `filler` locks the authorised fill of filler 14 and reveals
the secret 7, and the watcher drains the block. -/
def lockedBy (filler : Outsider Ledger.sourceChain) : List Ledger.backend.Move :=
  let info : OrderInfo Nat := ⟨2, 4, 100, 6, 90, 1000, 0, 3000⟩
  [.source 1 (.call (.leaf (.fillSlot filler 8 info [1] ⟨info, 8, 40, 100, 200⟩ [1]))),
    .source 1 (.call (.leaf (.withdraw info 8 7 true))), .source 1 (.tick ⟨1, 1⟩)] ++
  [.see 10, .fetch, .handle 0, .write, .handle 0, .write, .finish true].map (.srcWatcher 1)

/-- The fill the swapper has authorised, with its source watcher connected. -/
def authorisedState : BackendState (OrderInfo Nat) Nat (Ledger Nat) Bytes32 :=
  Ledger.backend.run (Ledger.authorisedFill 90 ++ [.srcWatcher 1 (.connect 9 false)])
    (Ledger.launched (update₂ (fun _ _ => 0) 6 (Ledger.destinationChain.computeAddress 8 14) 40))

def authorisedLeg : Leg (OrderInfo Nat) Nat :=
  ⟨1, ⟨2, 4, 100, 6, 90, 1000, 0, 3000⟩, 8, 14, 1⟩

theorem authorisedState_reachable : Ledger.backend.Reachable authorisedState :=
  run_reachableBy (P := fun _ _ => True) (fun _ => ⟨_, _, [], rfl⟩) (fun _ => ⟨_, _, [], rfl⟩)
    (fun _ _ _ h => h) (by decide +kernel)

theorem authorisedState_waits : Waits Ledger.backend authorisedState authorisedLeg := by
  obtain ⟨r, hr, hrow⟩ : ∃ r, authorisedState.db.fills 1 = some r ∧
      (r.orderHash, r.hashlock, r.filler, r.status) =
        (authorisedLeg.orderHash, authorisedLeg.hashlock, authorisedLeg.filler, .authorized) :=
    Option.map_eq_some_iff.mp (by decide +kernel)
  simp only [Prod.mk.injEq] at hrow
  obtain ⟨horder, hhash, hfiller, hstatus⟩ := hrow
  exact ⟨⟨r, hr, ⟨horder, hhash, hfiller⟩, by simp [hstatus]⟩, by decide +kernel, by decide +kernel⟩

/-- What `lockedBy` consists of is healthy and authorises nothing. -/
def calm (s : BackendState (OrderInfo Nat) Nat (Ledger Nat) Bytes32) (m : Ledger.backend.Move) :
    Bool :=
  (match m with
    | .srcWatcher _ .fail | .srcWatcher _ (.connect ..) => false
    | _ => true) &&
  (Ledger.backend.runs s m).all fun st => st.authorises.isNone

theorem calm_spec {s : BackendState (OrderInfo Nat) Nat (Ledger Nat) Bytes32}
    {m : Ledger.backend.Move} (h : calm s m = true) (p : Leg (OrderInfo Nat) Nat) :
    Healthy Ledger.backend p.chain m ∧ InTime Ledger.backend p s m := by
  simp only [calm, Bool.and_eq_true] at h
  refine ⟨⟨fun heq => ?_, fun current heq => ?_⟩, fun sig t1 hrun => ?_⟩
  · simp [heq] at h
  · simp [heq] at h
  · simp [hrun, Statement.authorises] at h

theorem lockedBy_steps (filler : Outsider Ledger.sourceChain)
    (h : Ledger.backend.Runs (fun s m => calm s m = true) (lockedBy filler) authorisedState) :
    Ledger.backend.Steps
      (fun s m => Healthy Ledger.backend 1 m ∧ InTime Ledger.backend authorisedLeg s m)
      authorisedState (Ledger.backend.run (lockedBy filler) authorisedState) :=
  run_steps (fun _ _ _ hm => calm_spec hm authorisedLeg) authorisedState_reachable.srcBacked.1 h

/-- Account 16 submits the fill, and the secret stays unnoticed. -/
theorem reveal_lost :
    ¬∀ (p : Leg (OrderInfo Nat) Nat) (s₁ s₂ : BackendState (OrderInfo Nat) Nat (Ledger Nat) Bytes32),
      Ledger.backend.Reachable s₁ → Waits Ledger.backend s₁ p →
      Ledger.backend.Steps (fun _ m => Healthy Ledger.backend p.chain m) s₁ s₂ →
      NoneLost Ledger.backend s₂ p := by
  intro hall
  let filler := Ledger.outsider 8 (by decide)
  let s := Ledger.backend.run (lockedBy filler) authorisedState
  have hsteps : Ledger.backend.Steps
      (fun s m => Healthy Ledger.backend 1 m ∧ InTime Ledger.backend authorisedLeg s m)
      authorisedState s := lockedBy_steps filler (by decide +kernel)
  have hlost : NoneLost Ledger.backend s authorisedLeg :=
    hall _ _ s authorisedState_reachable authorisedState_waits
      (steps_mono (fun _ _ hm => hm.1) hsteps)
  obtain ⟨r, hr, hstatus, -⟩ := hlost 10 10 16 7 (by decide +kernel) (Nat.le_refl _)
    ⟨10, by decide +kernel, Nat.le_refl _⟩
  have hauthorized : (s.db.fills 1).map (fun r => r.status) = some .authorized := by
    decide +kernel
  rw [show s.db.fills 1 = some r from hr] at hauthorized
  rcases hstatus with h | h <;> simp [h] at hauthorized

/-- Filler 14 submits it himself. -/
theorem reveals_relayed_own :
    ∃ s, NoneLost Ledger.backend s authorisedLeg ∧ Revealed s authorisedLeg 7 := by
  let filler := Ledger.outsider 7 (by decide)
  let s := Ledger.backend.run (lockedBy filler) authorisedState
  have hsteps : Ledger.backend.Steps
      (fun s m => Healthy Ledger.backend 1 m ∧ InTime Ledger.backend authorisedLeg s m)
      authorisedState s := lockedBy_steps filler (by decide +kernel)
  have hclone : ((s.source 1).escrows authorisedLeg.orderHash 8).fill.map
      (fun fill => fill.filler) = some 14 := by decide +kernel
  have hown : OwnClone Ledger.backend s authorisedLeg := by
    intro c fill hfill
    by_cases hc : c = 1
    · subst hc
      have hfill' : ((s.source 1).escrows authorisedLeg.orderHash 8).fill = some fill := hfill
      rw [hfill'] at hclone
      exact .inl ⟨rfl, Option.some.inj hclone⟩
    · -- nothing happens on the other chains
      have hquiet : ∀ ms : List Ledger.backend.Move,
          ms.all (fun m => m.sourceChain.all (· == 1)) = true →
            ∀ m ∈ ms, m.sourceChain ≠ some c := fun ms hms m hm heq => hc (by
        simpa [heq] using List.all_eq_true.mp hms m hm)
      rw [run_source (hquiet _ (by decide +kernel)), authorisedState,
        run_source (hquiet _ (by decide +kernel))] at hfill
      cases hfill
  have hlost : NoneLost Ledger.backend s authorisedLeg :=
    reveals_relayed authorisedState_reachable authorisedState_waits hsteps hown
  exact ⟨s, hlost, hlost 10 10 14 7 (by decide +kernel) (Nat.le_refl _)
    ⟨10, by decide +kernel, Nat.le_refl _⟩⟩

end Leg

end NeutronX.CrossChain
