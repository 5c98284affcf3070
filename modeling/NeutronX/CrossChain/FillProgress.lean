import NeutronX.CrossChain.ServiceSteps
import NeutronX.CrossChain.Ledger

/-!
# The status of a fill

`FillStatus.Next` is the state machine of a fill. The statements of the
watchers follow it, because each is guarded by the status it starts from.
The authorisation is checked against the status and then written without a
guard, so it follows the machine if the row has not moved on in between
(`Timely`). Besides the service there is the source chain, where anyone
can lock the source escrow with an authorisation that the table shows.
-/

namespace NeutronX.CrossChain

open Evm Sql Function

/-! ## The machine -/

namespace FillStatus

inductive Next : FillStatus → FillStatus → Prop
  | dstFunded : Next quoted dstFunded
  | authorized : Next dstFunded authorized
  | srcLocked : Next authorized srcLocked
  | revealed : Next srcLocked revealed
  | claimed : Next revealed claimed
  | slashed : Next authorized slashed
  | slashedLocked : Next srcLocked slashed

def rank : FillStatus → Nat
  | quoted => 0
  | dstFunded => 1
  | authorized => 2
  | srcLocked => 3
  | revealed => 4
  | claimed => 5
  | aborted | slashed => 6

theorem Next.rank_lt {a b : FillStatus} (h : Next a b) : a.rank < b.rank := by
  cases h <;> decide

/-- Any number of moves. -/
abbrev Path : FillStatus → FillStatus → Prop := Relation.ReflTransGen Next

theorem Path.rank_le {a b : FillStatus} (h : Path a b) : a.rank ≤ b.rank := by
  induction h with
  | refl => exact Nat.le_refl _
  | tail _ hnext ih => exact Nat.le_of_lt (Nat.lt_of_le_of_lt ih hnext.rank_lt)

/-- There is no way back. -/
theorem Path.eq_or_lt {a b : FillStatus} (h : Path a b) : a = b ∨ a.rank < b.rank := by
  cases h.cases_head with
  | inl heq => exact .inl heq
  | inr hmove =>
      obtain ⟨c, hnext, hpath⟩ := hmove
      exact .inr (Nat.lt_of_lt_of_le hnext.rank_lt (Path.rank_le hpath))

end FillStatus

/-! ## The service beside the source chain -/

structure LockState (κ A H : Type) where
  service : ServiceState κ A H
  /-- history: the `t1` and signature of the table that the source escrow of a
  fill was locked with -/
  locked : Nat → Option (Nat × Bytes)

namespace LockState

variable {κ A H : Type}

def init : LockState κ A H := ⟨ServiceState.init, fun _ => none⟩

abbrev fills (s : LockState κ A H) : Table Nat (FillRow κ A H) := s.service.db.fills

variable [DecidableEq κ] [DecidableEq A] [DecidableEq H]

inductive Step (svc : Service κ A H) (Q : LockState κ A H → Statement κ A H → Prop) :
    LockState κ A H → LockState κ A H → Prop
  | service (s) (x : ServiceState κ A H)
      (h : Service.Step svc (fun y st => Q ⟨y, s.locked⟩ st) s.service x) :
      Step svc Q s { s with service := x }
  | lock (s) (id : Nat) (r : FillRow κ A H) (sig : Bytes) (hrow : s.fills id = some r)
      (hsig : r.swapperSig = some sig) (hfirst : s.locked id = none) :
      Step svc Q s { s with locked := update s.locked id (some (r.t1, sig)) }

abbrev Steps (svc : Service κ A H) (Q : LockState κ A H → Statement κ A H → Prop) :
    LockState κ A H → LockState κ A H → Prop :=
  Relation.ReflTransGen (Step svc Q)

omit [DecidableEq κ] [DecidableEq A] [DecidableEq H] in
/-- An authorisation lands on a row that still waits for it, or on one
authorised before whose escrow is not locked. -/
def Timely (s : LockState κ A H) (st : Statement κ A H) : Prop :=
  ∀ id ∈ st.authorises, ∀ r ∈ s.fills id,
    r.status = .dstFunded ∨ (r.status = .authorized ∧ s.locked id = none)

instance (s : LockState κ A H) (st : Statement κ A H) : Decidable (Timely s st) :=
  inferInstanceAs (Decidable (∀ id ∈ st.authorises, ∀ r ∈ s.fills id, _))

omit [DecidableEq κ] [DecidableEq H] in
/-- What is claimed of an earlier and a later state of a run. -/
structure Forward (svc : Service κ A H) (s s' : LockState κ A H) : Prop where
  /-- the status follows the machine and does not come back -/
  status : ∀ id r, s.fills id = some r → ∃ r', s'.fills id = some r' ∧
    FillStatus.Path r.status r'.status ∧ (r.status = r'.status ∨ r.status.rank < r'.status.rank)
  /-- the signature is one for the `t1` beside it -/
  paired : ∀ id r sig, s'.fills id = some r → r.swapperSig = some sig →
    svc.Signs s'.service.db r sig r.t1
  /-- the pair a source escrow is locked with stays -/
  kept : ∀ id r r', s.fills id = some r → s'.fills id = some r' →
    (FillStatus.srcLocked.rank ≤ r.status.rank ∨
      ∃ sig, r.swapperSig = some sig ∧ s.locked id = some (r.t1, sig)) →
      r'.t1 = r.t1 ∧ r'.swapperSig = r.swapperSig

/-! ## What every run keeps -/

/-- What holds between the statements of a run. -/
structure Sound (svc : Service κ A H) (s : LockState κ A H) : Prop where
  fresh : s.service.db.Fresh
  /-- an authorisation that waits was checked against its row -/
  pending : ∀ id sig t1, .setFillSig id sig t1 ∈ s.service.pending →
    ∃ r, s.fills id = some r ∧ svc.Signs s.service.db r sig t1
  signed : ∀ id r sig, s.fills id = some r → r.swapperSig = some sig →
    svc.Signs s.service.db r sig r.t1
  unsigned : ∀ id r, s.fills id = some r → r.status = .quoted ∨ r.status = .dstFunded →
    r.swapperSig = none
  locked : ∀ id p, s.locked id = some p →
    ∃ r, s.fills id = some r ∧ r.t1 = p.1 ∧ r.swapperSig = some p.2

variable {svc : Service κ A H} {s s' : LockState κ A H}

omit [DecidableEq κ] [DecidableEq A] [DecidableEq H] in
theorem sound_init : Sound svc (init : LockState κ A H) where
  fresh := Db.fresh_init
  pending := nofun
  signed := nofun
  unsigned := nofun
  locked := nofun

omit [DecidableEq κ] [DecidableEq A] [DecidableEq H] in
/-- The source escrow of an authorised row is locked, or was seen locked. -/
def Fixed (s : LockState κ A H) (id : Nat) (r : FillRow κ A H) : Prop :=
  FillStatus.srcLocked.rank ≤ r.status.rank ∨
    ((s.locked id).isSome = true ∧ FillStatus.authorized.rank ≤ r.status.rank)

omit [DecidableEq κ] [DecidableEq A] [DecidableEq H] in
/-- A timely statement moves the status of a row as the machine does, and
leaves the pair of a fixed one alone. -/
theorem rowStep_timely {id : Nat} {r r' : FillRow κ A H} {st : Statement κ A H}
    (hrow : s.fills id = some r) (htimely : Timely s st) (h : RowStep id r st r') :
    FillStatus.Path r.status r'.status ∧
      (Fixed s id r → r'.t1 = r.t1 ∧ r'.swapperSig = r.swapperSig) := by
  cases h with
  | same => exact ⟨.refl, fun _ => ⟨rfl, rfl⟩⟩
  | dstFunded escrow hstatus => exact ⟨.single (hstatus ▸ .dstFunded), fun _ => ⟨rfl, rfl⟩⟩
  | srcLocked escrow hstatus => exact ⟨.single (hstatus ▸ .srcLocked), fun _ => ⟨rfl, rfl⟩⟩
  | revealed secret hstatus => exact ⟨.single (hstatus ▸ .revealed), fun _ => ⟨rfl, rfl⟩⟩
  | claimed hstatus => exact ⟨.single (hstatus ▸ .claimed), fun _ => ⟨rfl, rfl⟩⟩
  | slashed hstatus =>
      rcases hstatus with hstatus | hstatus
      · exact ⟨.single (hstatus ▸ .slashed), fun _ => ⟨rfl, rfl⟩⟩
      · exact ⟨.single (hstatus ▸ .slashedLocked), fun _ => ⟨rfl, rfl⟩⟩
  | signed sig t1 =>
      rcases htimely id rfl r hrow with hstatus | ⟨hstatus, hopen⟩
      · refine ⟨.single (hstatus ▸ .authorized), fun hfixed => ?_⟩
        simp [Fixed, hstatus, FillStatus.rank] at hfixed
      · refine ⟨hstatus ▸ .refl, fun hfixed => ?_⟩
        simp [Fixed, hstatus, hopen, FillStatus.rank] at hfixed

omit [DecidableEq κ] [DecidableEq A] [DecidableEq H] in
/-- A row whose escrow is locked with its signature is fixed. -/
theorem Sound.fixed (hs : Sound svc s) {id : Nat} {r : FillRow κ A H} {sig : Bytes}
    {p : Nat × Bytes} (hrow : s.fills id = some r) (hsig : r.swapperSig = some sig)
    (hlocked : s.locked id = some p) : Fixed s id r := by
  refine .inr ⟨by simp [hlocked], ?_⟩
  have hunsigned := hs.unsigned id r hrow
  cases hstatus : r.status with
  | quoted | dstFunded => simp [hstatus, hsig] at hunsigned
  | authorized | srcLocked | revealed | claimed | aborted | slashed => decide

theorem sound_execute (hs : Sound svc s) {st : Statement κ A H} (htimely : Timely s st)
    (hst : ∀ id sig t1, st = .setFillSig id sig t1 →
      ∃ r, s.fills id = some r ∧ svc.Signs s.service.db r sig t1)
    {pending : List (Statement κ A H)} (hpending : ∀ st ∈ pending, st ∈ s.service.pending) :
    Sound svc { s with service := ⟨s.service.db.execute st, pending⟩ } := by
  have horders : Table.Evolves (fun _ o o' => SameOrder o o') s.service.db.orders
      (s.service.db.execute st).orders := Db.execute_orders st
  have hrows := Db.execute_evolves hs.fresh st
  refine ⟨Db.execute_fresh hs.fresh st, fun id sig t1 hin => ?_, fun id r' sig hrow hsig => ?_,
    fun id r' hrow hstatus => ?_, fun id p hp => ?_⟩
  · obtain ⟨r, hrow, hsigns⟩ := hs.pending id sig t1 (hpending _ hin)
    obtain ⟨r', hrow', hstep⟩ := hrows id r hrow
    exact ⟨r', hrow', hsigns.later hstep.sameKey horders⟩
  · rcases Db.execute_back hs.fresh hrow with ⟨r, hbefore, hstep⟩ | ⟨-, q, -, -, rfl⟩
    · have hkey := hstep.sameKey
      cases hstep with
      | signed sig' t1 =>
          obtain ⟨r₀, hrow₀, hsigns⟩ := hst id sig' t1 rfl
          obtain rfl := Option.some.inj (hrow₀.symm.trans hbefore)
          obtain rfl := Option.some.inj hsig
          exact hsigns.later hkey horders
      | same => exact (hs.signed id r' sig hbefore hsig).later hkey horders
      | dstFunded | srcLocked | revealed | claimed | slashed =>
          exact (hs.signed id r sig hbefore hsig).later hkey horders
    · simp [Quote.row] at hsig
  · rcases Db.execute_back hs.fresh hrow with ⟨r, hbefore, hstep⟩ | ⟨-, q, -, -, rfl⟩
    · cases hstep with
      | same => exact hs.unsigned id r' hbefore hstatus
      | dstFunded escrow hquoted => exact hs.unsigned id r hbefore (.inl hquoted)
      | signed | srcLocked | revealed | claimed | slashed => simp at hstatus
    · rfl
  · obtain ⟨r, hrow, ht1, hsig⟩ := hs.locked id p hp
    obtain ⟨r', hrow', hstep⟩ := hrows id r hrow
    obtain ⟨ht1', hsig'⟩ := (rowStep_timely hrow htimely hstep).2 (hs.fixed hrow hsig hp)
    exact ⟨r', hrow', ht1'.trans ht1, hsig'.trans hsig⟩

theorem sound_step (hs : Sound svc s) (h : Step svc Timely s s') : Sound svc s' := by
  cases h with
  | service x h =>
      cases h with
      | request now req st hselect =>
          refine ⟨hs.fresh, fun id sig t1 hin => ?_, hs.signed, hs.unsigned, hs.locked⟩
          rcases List.mem_cons.mp hin with rfl | hin
          · cases Service.select_checked hselect with
            | fillSig _ r _ _ hrow _ hsig => exact ⟨r, hrow, hsig⟩
          · exact hs.pending id sig t1 hin
      | execute st before after hpending htimely =>
          refine sound_execute hs htimely (fun id sig t1 hst => ?_) fun st' hin => ?_
          · exact hs.pending id sig t1 (by simp [hpending, hst])
          · rw [hpending]
            rcases List.mem_append.mp hin with hin | hin
            · exact List.mem_append_left _ hin
            · exact List.mem_append_right _ (List.mem_cons_of_mem _ hin)
      | record st hrecord htimely =>
          refine sound_execute hs htimely (fun id sig t1 hst => ?_) fun _ hin => hin
          simp [hst, Statement.isRecord] at hrecord
  | lock id r sig hrow hsig hfirst =>
      refine ⟨hs.fresh, hs.pending, hs.signed, hs.unsigned, fun j p hp => ?_⟩
      by_cases hj : j = id
      · subst hj
        obtain rfl : (r.t1, sig) = p := by simpa using hp
        exact ⟨r, hrow, rfl, hsig⟩
      · exact hs.locked j p (by simpa [hj] using hp)

/-- One step, seen from one row. -/
theorem step_row (hs : Sound svc s) (h : Step svc Timely s s') {id : Nat} {r : FillRow κ A H}
    (hrow : s.fills id = some r) : ∃ r', s'.fills id = some r' ∧
      FillStatus.Path r.status r'.status ∧
      (Fixed s id r → r'.t1 = r.t1 ∧ r'.swapperSig = r.swapperSig) := by
  have executed : ∀ {st : Statement κ A H}, Timely s st → ∃ r',
      (s.service.db.execute st).fills id = some r' ∧ FillStatus.Path r.status r'.status ∧
      (Fixed s id r → r'.t1 = r.t1 ∧ r'.swapperSig = r.swapperSig) := fun {st} htimely => by
    obtain ⟨r', hrow', hstep⟩ := Db.execute_evolves hs.fresh st id r hrow
    exact ⟨r', hrow', rowStep_timely hrow htimely hstep⟩
  cases h with
  | service x h =>
      cases h with
      | request => exact ⟨r, hrow, .refl, fun _ => ⟨rfl, rfl⟩⟩
      | execute st before after hpending htimely => exact executed htimely
      | record st hrecord htimely => exact executed htimely
  | lock => exact ⟨r, hrow, .refl, fun _ => ⟨rfl, rfl⟩⟩

theorem Step.locked (h : Step svc Timely s s') {id : Nat} (hlocked : (s.locked id).isSome = true) :
    (s'.locked id).isSome = true := by
  cases h with
  | service => exact hlocked
  | lock j r sig hrow hsig hfirst =>
      by_cases hj : id = j
      · simp [hj]
      · simpa [hj] using hlocked

theorem Steps.sound (hs : Sound svc s) (h : Steps svc Timely s s') : Sound svc s' := by
  induction h with
  | refl => exact hs
  | tail _ hstep ih => exact sound_step ih hstep

/-- A run, seen from one row: once fixed, the pair stays. -/
theorem steps_row (hs : Sound svc s) (h : Steps svc Timely s s') {id : Nat} {r : FillRow κ A H}
    (hrow : s.fills id = some r) : ∃ r', s'.fills id = some r' ∧
      FillStatus.Path r.status r'.status ∧
      (Fixed s id r → Fixed s' id r' ∧ r'.t1 = r.t1 ∧ r'.swapperSig = r.swapperSig) := by
  induction h with
  | refl => exact ⟨r, hrow, .refl, fun hfixed => ⟨hfixed, rfl, rfl⟩⟩
  | tail hsteps hstep ih =>
      obtain ⟨r₁, hrow₁, hpath₁, hkept₁⟩ := ih
      obtain ⟨r₂, hrow₂, hpath₂, hkept₂⟩ := step_row (Steps.sound hs hsteps) hstep hrow₁
      refine ⟨r₂, hrow₂, hpath₁.trans hpath₂, fun hfixed => ?_⟩
      obtain ⟨hfixed₁, ht1₁, hsig₁⟩ := hkept₁ hfixed
      obtain ⟨ht1₂, hsig₂⟩ := hkept₂ hfixed₁
      have hrank := FillStatus.Path.rank_le hpath₂
      exact ⟨hfixed₁.imp (Nat.le_trans · hrank) (.imp hstep.locked (Nat.le_trans · hrank)),
        ht1₂.trans ht1₁, hsig₂.trans hsig₁⟩

/-- **The status of a fill only moves forward**, in every run whose
authorisations are written in time. -/
theorem status_forward (hs : Steps svc Timely init s) (h : Steps svc Timely s s') :
    Forward svc s s' := by
  have hsound : Sound svc s := Steps.sound sound_init hs
  refine ⟨fun id r hrow => ?_, (Steps.sound hsound h).signed, fun id r r' hrow hrow' hlock => ?_⟩
  · obtain ⟨r', hrow', hpath, -⟩ := steps_row hsound h hrow
    exact ⟨r', hrow', hpath, FillStatus.Path.eq_or_lt hpath⟩
  · have hfixed : Fixed s id r := hlock.elim .inl fun ⟨sig, hsig, hlocked⟩ =>
      hsound.fixed hrow hsig hlocked
    obtain ⟨r'', hrow'', -, hkept⟩ := steps_row hsound h hrow
    obtain rfl := Option.some.inj (hrow''.symm.trans hrow')
    exact (hkept hfixed).2

/-! ## Schedules -/

omit [DecidableEq κ] [DecidableEq A] [DecidableEq H] in
inductive Move (κ A H : Type) where
  | service (m : Service.Move κ A H)
  | lock (id : Nat)

/-- A step as an instruction, which does nothing where it does not apply. -/
def move (svc : Service κ A H) (s : LockState κ A H) : Move κ A H → LockState κ A H
  | .service m => { s with service := svc.move s.service m }
  | .lock id =>
      match s.fills id, s.locked id with
      | some r, none =>
          match r.swapperSig with
          | some sig => { s with locked := update s.locked id (some (r.t1, sig)) }
          | none => s
      | _, _ => s

def run (svc : Service κ A H) : List (Move κ A H) → LockState κ A H → LockState κ A H
  | [], s => s
  | m :: ms, s => run svc ms (move svc s m)

/-- Every statement of a schedule satisfies `Q`. -/
def Runs (svc : Service κ A H) (Q : LockState κ A H → Statement κ A H → Prop) :
    List (Move κ A H) → LockState κ A H → Prop
  | [], _ => True
  | .service m :: ms, s =>
      m.Runs (fun y st => Q ⟨y, s.locked⟩ st) s.service ∧ Runs svc Q ms (move svc s (.service m))
  | .lock id :: ms, s => Runs svc Q ms (move svc s (.lock id))

instance decidableRuns (svc : Service κ A H)
    (Q : LockState κ A H → Statement κ A H → Prop) [∀ s st, Decidable (Q s st)] :
    (ms : List (Move κ A H)) → (s : LockState κ A H) → Decidable (Runs svc Q ms s)
  | [], _ => .isTrue trivial
  | .service m :: ms, s =>
      have := decidableRuns svc Q ms (move svc s (.service m))
      inferInstanceAs (Decidable (_ ∧ _))
  | .lock id :: ms, s => decidableRuns svc Q ms (move svc s (.lock id))

theorem run_steps {Q : LockState κ A H → Statement κ A H → Prop} :
    ∀ {ms : List (Move κ A H)} {s : LockState κ A H}, Runs svc Q ms s →
      Steps svc Q s (run svc ms s)
  | [], s, _ => .refl
  | .service m :: ms, s, ⟨hm, hms⟩ => by
      have hrest : Steps svc Q (move svc s (.service m)) (run svc (.service m :: ms) s) :=
        run_steps hms
      have hmove : svc.move s.service m = s.service ∨ Service.Step svc
          (fun y st => Q ⟨y, s.locked⟩ st) s.service (svc.move s.service m) :=
        Service.move_step hm
      rcases hmove with hsame | hstep
      · simp only [move, hsame] at hrest
        exact hrest
      · exact hrest.head (.service s _ hstep)
  | .lock id :: ms, s, hms => by
      have hrest : Steps svc Q (move svc s (.lock id)) (run svc (.lock id :: ms) s) :=
        run_steps hms
      have hmove : move svc s (.lock id) = s ∨ Step svc Q s (move svc s (.lock id)) := by
        simp only [move]
        split
        case h_2 => exact .inl rfl
        case h_1 r hrow hfirst =>
            split
            case h_2 => exact .inl rfl
            case h_1 sig hsig => exact .inr (.lock s id r sig hrow hsig hfirst)
      rcases hmove with hsame | hstep
      · rwa [hsame] at hrest
      · exact hrest.head hstep

/-- A fill that the swapper authorises twice at once, with `t1` at 100 and at
90: the first authorisation is written, the source escrow locked with it and
seen locked, and the second still waits. -/
def authorisedTwice : List (Move (List Nat) Nat Nat) :=
  let order := Ledger.service.hashOrder ⟨2, 4, 100, 6, 90, 1000, 0, 3000⟩
  [.service (.request 0 (.createIntent ⟨2, 4, 100, 6, 90, 1000, 0, 3000⟩ 1 2)),
    .service (.execute 0),
    .service (.request 0 (.setOrderSwapperSig order (Ledger.sign 2 order))),
    .service (.execute 0),
    .service (.request 0 (.createFillQuote ⟨order, 14, 40, 8, 100, 200⟩)),
    .service (.execute 0),
    .service (.record (.recordDstFunded order 8 31)),
    .service (.request 0 (.setFillSwapperSig 1
      (Ledger.sign 2 (order ++ [8, 40, 100, 200])) none)),
    .service (.request 0 (.setFillSwapperSig 1
      (Ledger.sign 2 (order ++ [8, 40, 90, 200])) (some 90))),
    .service (.execute 1), .lock 1,
    .service (.record (.recordSrcLocked order 8 33 14))]

/-- The second authorisation of `authorisedTwice` is written over the locked
fill: its status falls back and its pair changes. -/
theorem status_falls_back :
    ¬∀ s s' : LockState (List Nat) Nat Nat,
      Steps Ledger.service (fun _ _ => True) init s →
        Steps Ledger.service (fun _ _ => True) s s' → Forward Ledger.service s s' := by
  intro hall
  let s := run Ledger.service authorisedTwice init
  let s' := run Ledger.service [.service (.execute 0)] s
  have hforward : Forward Ledger.service s s' :=
    hall s s' (run_steps (by decide +kernel)) (run_steps (by decide +kernel))
  obtain ⟨r, hrow, hstatus⟩ : ∃ r, s.fills 1 = some r ∧ r.status = .srcLocked :=
    Option.map_eq_some_iff.mp (by decide +kernel)
  obtain ⟨r', hrow', hstatus'⟩ : ∃ r, s'.fills 1 = some r ∧ r.status = .authorized :=
    Option.map_eq_some_iff.mp (by decide +kernel)
  obtain ⟨r'', hrow'', -, hmoved⟩ := hforward.status 1 r hrow
  obtain rfl := Option.some.inj (hrow''.symm.trans hrow')
  simp [hstatus, hstatus', FillStatus.rank] at hmoved

/-- Up to its last authorisation the same schedule is timely. -/
theorem status_forward_locked :
    ∃ s r, s.fills 1 = some r ∧ r.status = .srcLocked ∧
      Forward Ledger.service (init : LockState (List Nat) Nat Nat) s := by
  have hsteps : Steps Ledger.service Timely init (run Ledger.service authorisedTwice init) :=
    run_steps (by decide +kernel)
  obtain ⟨r, hrow, hstatus⟩ : ∃ r, (run Ledger.service authorisedTwice init).fills 1 = some r ∧
      r.status = .srcLocked := Option.map_eq_some_iff.mp (by decide +kernel)
  exact ⟨_, r, hrow, hstatus, status_forward .refl hsteps⟩

end LockState

end NeutronX.CrossChain
