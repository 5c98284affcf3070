import NeutronX.CrossChain.OrderAccounting

/-!
# What the logs of the source chain say

A `Filled` names the clone of its pair and the account that filled it, a
`Withdrawn` comes after it from a clone that paid against the secret, and
a `Cancelled` from one that was cancelled, which is never the same.
-/

namespace NeutronX.CrossChain

open Evm Function

/-- The clone that emitted the event. -/
def SourceEvent.emitter {κ A : Type} : SourceEvent κ A → Option A
  | .withdrawn escrow .. | .cancelled escrow .. => some escrow
  | _ => none

namespace EscrowSrc

variable {κ A : Type} [DecidableEq A] {keccak : Bytes32 → Bytes32} {blk : Block}
  {c c' : EscrowSrc κ A}

/-- A payout stays on record. -/
theorem CloneStep.payouts (h : CloneStep keccak blk c c') {p : Payout A} (hp : p ∈ c.payouts) :
    p ∈ c'.payouts := by
  cases h with
  | withdrawStart | cancelStart => exact List.mem_cons_of_mem _ hp
  | pay stage next t payee deposit accepted hstage hterms hpays hpay =>
      rw [(payDeposit_kept hpay).payouts]
      exact hp
  | _ => exact hp

theorem CloneStep.cancelled (h : CloneStep keccak blk c c') (hcancelled : c.cancelled = true) :
    c'.cancelled = true := by
  cases h with
  | cancelStart => rfl
  | pay stage next t payee deposit accepted hstage hterms hpays hpay =>
      rw [(payDeposit_kept hpay).cancelled]
      exact hcancelled
  | _ => exact hcancelled

end EscrowSrc

namespace SourceChain

open EscrowSrc (CloneLaw)

variable {κ A W : Type} [DecidableEq κ] [Zero A] [DecidableEq A] {d : SourceChain κ A W}
  {P : Fill κ A → Prop} {s s' : SourceState κ A W}

/-! ## What stays -/

/-- What no segment takes back of the clone at one address. -/
structure Stays (c c' : EscrowSrc κ A) : Prop where
  fill : ∀ fill, c.fill = some fill → c'.fill = some fill
  payouts : ∀ p ∈ c.payouts, p ∈ c'.payouts
  cancelled : c.cancelled = true → c'.cancelled = true

theorem Effect.stays (h : Effect d P s s') (k : κ) (hl : Bytes32) :
    Stays (s.escrows k hl) (s'.escrows k hl) := by
  rcases h.clone k hl with hsame | ⟨fill, hvacant, hdeploy⟩ | hstep
  · rw [hsame]
    exact ⟨fun _ h => h, fun _ h => h, id⟩
  · rw [hdeploy]
    exact ⟨fun _ hfill => by simp [hvacant] at hfill, fun _ h => h, id⟩
  · exact ⟨fun _ hfill => hstep.fill.trans hfill, fun _ hp => hstep.payouts hp, hstep.cancelled⟩

/-- The logs only grow. -/
theorem Effect.events (h : Effect d P s s') : s.events <:+ s'.events := by
  cases h with
  | opened fill hP h => rw [h.events]
  | closed fill hfilling hfill h =>
      rw [h.events]
      exact List.suffix_cons ..
  | moved k hl hmoved hcounters hevents => rw [hevents]
  | withdrawn k hl secret t hmoved hcounters hstage hterms hescrow hevents =>
      rw [hevents]
      exact List.suffix_cons ..
  | handedBack k hl hback =>
      obtain ⟨t, canceller, -, -, -, -, -, hevents⟩ := hback.callback
      rw [hevents]
      exact (List.suffix_cons ..).trans (List.suffix_cons ..)
  | idled h => rw [h.events]

theorem Effect.number (h : Effect d P s s') : s.block.number ≤ s'.block.number := by
  cases h with
  | opened fill hP h => rw [h.block]
  | closed fill hfilling hfill h => rw [h.block]
  | moved k hl hmoved => rw [hmoved.block]
  | withdrawn k hl secret t hmoved => rw [hmoved.block]
  | handedBack k hl hback => rw [hback.moved.block]
  | idled h => exact h.number

theorem Segments.number (h : Segments d P s s') : s.block.number ≤ s'.block.number :=
  h.keep (I := fun x => s.block.number ≤ x.block.number)
    (fun hle hseg => Nat.le_trans hle hseg.effect.number) (Nat.le_refl _)

/-! ## The law of the logs -/

structure LogLaw (d : SourceChain κ A W) (s : SourceState κ A W) : Prop where
  number : ∀ n e, (n, e) ∈ s.events → n ≤ s.block.number
  filled : ∀ n k h f a amount bond t1 t2, (n, .filled k h f a amount bond t1 t2) ∈ s.events →
    a = d.computeAddress k h ∧ ∃ fill, (s.escrows k h).fill = some fill ∧ fill.filler = f
  withdrawn : ∀ n a f secret, (n, .withdrawn a f secret) ∈ s.events →
    ∃ k h, a = d.computeAddress k h ∧ ∃ p ∈ (s.escrows k h).payouts, p.secret = some secret
  cancelled : ∀ n a to_ amount f deposit, (n, .cancelled a to_ amount f deposit) ∈ s.events →
    ∃ k h, a = d.computeAddress k h ∧ (s.escrows k h).cancelled = true
  /-- what a clone emits comes after its `Filled` -/
  after : ∀ n k h f secret, (n, .withdrawn (d.computeAddress k h) f secret) ∈ s.events →
    s.filling ≠ some (k, h) → ∃ m e, (m, e) ∈ s.events ∧ m ≤ n ∧ e.isFilled k h = true

omit [DecidableEq A] in
theorem logLaw_deployed (tokens : W) (block : Block) : LogLaw d (deployed tokens block) :=
  ⟨nofun, nofun, nofun, nofun, nofun⟩

omit [DecidableEq κ] [DecidableEq A] in
/-- The clone of a `Withdrawn` paid against its secret, when it stood at that
stage. -/
theorem payout_of_stage (hlaw : SourceLaw d s) {k : κ} {h secret : Bytes32}
    (hstage : (s.escrows k h).mutex = some (.withdrawn secret)) :
    ∃ p ∈ (s.escrows k h).payouts, p.secret = some secret := by
  obtain ⟨t, hterms⟩ := (hlaw.clone k h).terms_of_mutex hstage
  cases (hlaw.clone k h).standing t hterms with
  | unsettled _ _ _ _ hidle => simp [EscrowSrc.Idle, hstage] at hidle
  | withdrawn time secret' _ _ _ _ hpayouts hdeposit =>
      obtain rfl : secret = secret' := by
        simpa [EscrowSrc.DepositFollows, EscrowSrc.Idle, hstage] using hdeposit.imp_right And.left
      exact ⟨_, by rw [hpayouts]; exact List.mem_singleton.mpr rfl, rfl⟩
  | cancelled time _ _ _ _ hdeposit =>
      simp [EscrowSrc.DepositFollows, EscrowSrc.Idle, hstage] at hdeposit

/-- What a segment adds to the logs. -/
inductive Emits (d : SourceChain κ A W) (s s' : SourceState κ A W) : SourceEvent κ A → Prop
  | filled (fill : Fill κ A)
      (hfill : (s.escrows (d.hashOrder fill.order) fill.auth.hashlock).fill = some fill)
      (h : Closed d s fill s') :
      Emits d s s' (.filled (d.hashOrder fill.order) fill.auth.hashlock fill.filler
        (d.computeAddress (d.hashOrder fill.order) fill.auth.hashlock) fill.auth.fillAmount
        fill.bond fill.auth.t1 fill.auth.t2)
  | withdrawn (k : κ) (h secret : Bytes32) (t : Terms κ A)
      (hstage : (s.escrows k h).mutex = some (.withdrawn secret))
      (hterms : (s.escrows k h).terms = some t) (hfilling : s'.filling = s.filling) :
      Emits d s s' (.withdrawn (d.computeAddress k h) t.filler secret)
  | restored (k : κ) (h : Bytes32) (amount newRemaining : Nat) :
      Emits d s s' (.remainingRestored k h amount newRemaining)
  | cancelled (k : κ) (h : Bytes32) (to_ : A) (amount : Nat) (canceller : A) (deposit : Nat)
      (hstage : (s.escrows k h).mutex = some .refunded) :
      Emits d s s' (.cancelled (d.computeAddress k h) to_ amount canceller deposit)

theorem Effect.emits (h : Effect d P s s') {n : Nat} {e : SourceEvent κ A}
    (he : (n, e) ∈ s'.events) : (n, e) ∈ s.events ∨ (n = s.block.number ∧ Emits d s s' e) := by
  cases h with
  | opened fill hP h => exact .inl (h.events ▸ he)
  | closed fill hfilling hfill h =>
      rw [h.events] at he
      rcases List.mem_cons.mp he with heq | hold
      · obtain ⟨rfl, rfl⟩ := Prod.mk.injEq .. |>.mp heq
        exact .inr ⟨rfl, .filled fill hfill h⟩
      · exact .inl hold
  | moved k hl hmoved hcounters hevents => exact .inl (hevents ▸ he)
  | withdrawn k hl secret t hmoved hcounters hstage hterms hescrow hevents =>
      rw [hevents] at he
      rcases List.mem_cons.mp he with heq | hold
      · obtain ⟨rfl, rfl⟩ := Prod.mk.injEq .. |>.mp heq
        exact .inr ⟨rfl, .withdrawn k hl secret t hstage hterms hmoved.filling⟩
      · exact .inl hold
  | handedBack k hl hback =>
      obtain ⟨t, canceller, -, -, -, -, -, hevents⟩ := hback.callback
      rw [hevents] at he
      rcases List.mem_cons.mp he with heq | hrest
      · obtain ⟨rfl, rfl⟩ := Prod.mk.injEq .. |>.mp heq
        exact .inr ⟨rfl, .cancelled k hl _ _ _ _ hback.stage⟩
      · rcases List.mem_cons.mp hrest with heq | hold
        · obtain ⟨rfl, rfl⟩ := Prod.mk.injEq .. |>.mp heq
          exact .inr ⟨rfl, .restored _ _ _ _⟩
        · exact .inl hold
  | idled h => exact .inl (h.events ▸ he)

/-- A log that was not there is one of the blocks from then on. -/
theorem Segments.late (h : Segments d P s s') {n : Nat} {e : SourceEvent κ A}
    (he : (n, e) ∈ s'.events) : (n, e) ∈ s.events ∨ s.block.number ≤ n := by
  have hall : s.block.number ≤ s'.block.number ∧
      ∀ n e, (n, e) ∈ s'.events → (n, e) ∈ s.events ∨ s.block.number ≤ n := by
    refine h.keep (I := fun x => s.block.number ≤ x.block.number ∧
      ∀ n e, (n, e) ∈ x.events → (n, e) ∈ s.events ∨ s.block.number ≤ n) ?_
      ⟨Nat.le_refl _, fun _ _ he => .inl he⟩
    intro x x' ⟨hnumber, hold⟩ hseg
    refine ⟨Nat.le_trans hnumber hseg.effect.number, fun n e he => ?_⟩
    rcases hseg.effect.emits he with hin | ⟨rfl, -⟩
    · exact hold n e hin
    · exact .inr hnumber
  exact hall.2 n e he

/-- A pair that is being filled goes on to be, or its clone had no terms. -/
theorem Effect.filling (h : Effect d P s s') {k : κ} {hl : Bytes32}
    (hfilling : s.filling = some (k, hl)) :
    s'.filling = some (k, hl) ∨ (s.escrows k hl).terms = none := by
  cases h with
  | opened fill hP h => simp [h.free] at hfilling
  | closed fill hfilling' hfill h =>
      obtain ⟨rfl, rfl⟩ := Prod.mk.injEq .. |>.mp (Option.some.inj (hfilling'.symm.trans hfilling))
      obtain ⟨held, hguards⟩ := h.guards
      exact .inr hguards.fresh
  | moved k' hl' hmoved => exact .inl (hmoved.filling.trans hfilling)
  | withdrawn k' hl' secret t hmoved => exact .inl (hmoved.filling.trans hfilling)
  | handedBack k' hl' hback => exact .inl (hback.moved.filling.trans hfilling)
  | idled h => exact .inl (h.filling.trans hfilling)

omit [DecidableEq A] in
/-- A clone that has emitted `Withdrawn` has terms. -/
theorem LogLaw.hasTerms (hs : LogLaw d s) (hlaw : SourceLaw d s) {n : Nat} {k : κ}
    {h secret : Bytes32} {f : A}
    (he : (n, .withdrawn (d.computeAddress k h) f secret) ∈ s.events) :
    ∃ t, (s.escrows k h).terms = some t := by
  obtain ⟨k', h', ha, p, hp, -⟩ := hs.withdrawn n _ f secret he
  obtain ⟨rfl, rfl⟩ := d.computeAddress_injective ha
  cases hterms : (s.escrows k h).terms with
  | none => simp [((hlaw.clone k h).untouched hterms).payouts] at hp
  | some t => exact ⟨t, rfl⟩

theorem logLaw_step (hlaw : SourceLaw d s) (hacc : Accounted d s) (hs : LogLaw d s)
    (h : Effect d P s s') : LogLaw d s' where
  number := fun n e he => by
    rcases h.emits he with hold | ⟨rfl, -⟩
    · exact Nat.le_trans (hs.number n e hold) h.number
    · exact h.number
  filled := fun n k hl f a amount bond t1 t2 he => by
    rcases h.emits he with hold | ⟨-, hnew⟩
    · obtain ⟨ha, fill, hfill, hf⟩ := hs.filled n k hl f a amount bond t1 t2 hold
      exact ⟨ha, fill, (h.stays k hl).fill fill hfill, hf⟩
    · cases hnew with
      | filled fill hfill => exact ⟨rfl, fill, (h.stays _ _).fill fill hfill, rfl⟩
  withdrawn := fun n a f secret he => by
    rcases h.emits he with hold | ⟨-, hnew⟩
    · obtain ⟨k, hl, ha, p, hp, hsecret⟩ := hs.withdrawn n a f secret hold
      exact ⟨k, hl, ha, p, (h.stays k hl).payouts p hp, hsecret⟩
    · cases hnew with
      | withdrawn k hl secret t hstage =>
          obtain ⟨p, hp, hsecret⟩ := payout_of_stage hlaw hstage
          exact ⟨k, hl, rfl, p, (h.stays k hl).payouts p hp, hsecret⟩
  cancelled := fun n a to_ amount f deposit he => by
    rcases h.emits he with hold | ⟨-, hnew⟩
    · obtain ⟨k, hl, ha, hcancelled⟩ := hs.cancelled n a to_ amount f deposit hold
      exact ⟨k, hl, ha, (h.stays k hl).cancelled hcancelled⟩
    · cases hnew with
      | cancelled k hl to_ amount canceller deposit hstage =>
          exact ⟨k, hl, rfl, (h.stays k hl).cancelled (hlaw.cancelled_of_refunded hstage)⟩
  after := fun n k hl f secret he hfilling' => by
    have hsource : ((n, .withdrawn (d.computeAddress k hl) f secret) ∈ s.events ∨
        n = s.block.number) ∧ ∃ t, (s.escrows k hl).terms = some t := by
      rcases h.emits he with hold | ⟨hn, hnew⟩
      · exact ⟨.inl hold, hs.hasTerms hlaw hold⟩
      · generalize ha : d.computeAddress k hl = a at hnew
        cases hnew with
        | withdrawn k' hl' secret t hstage hterms =>
            obtain ⟨rfl, rfl⟩ := d.computeAddress_injective ha
            exact ⟨.inr hn, t, hterms⟩
    obtain ⟨hfound, t, hterms⟩ := hsource
    have hfilling : s.filling ≠ some (k, hl) := fun hfilling => by
      rcases h.filling hfilling with hstill | hnone
      · exact hfilling' hstill
      · simp [hterms] at hnone
    have hgrow : ∀ {m e}, (m, e) ∈ s.events → (m, e) ∈ s'.events := fun hin =>
      h.events.subset hin
    rcases hfound with hold | rfl
    · obtain ⟨m, e, hin, hle, he⟩ := hs.after n k hl f secret hold hfilling
      exact ⟨m, e, hgrow hin, hle, he⟩
    · -- the clone was filled before it could withdraw
      have hcount := hacc.filled k hl
      simp only [(hlaw.clone k hl).code t hterms, hfilling, ne_eq, not_false_eq_true, and_self,
        if_true, filledCount] at hcount
      have hpos : 0 < s.events.countP fun e => e.2.isFilled k hl := by omega
      obtain ⟨⟨m, e⟩, hin, he⟩ := List.countP_pos_iff.mp hpos
      exact ⟨m, e, hgrow hin, hs.number m e hin, he⟩

theorem Moment.log (h : Moment d s) : LogLaw d s := by
  have hall : SourceLaw d s ∧ Accounted d s ∧ LogLaw d s :=
    h.invariant (I := fun s => SourceLaw d s ∧ Accounted d s ∧ LogLaw d s)
      (fun tokens block =>
        ⟨sourceLaw_deployed tokens block, accounted_deployed tokens block,
          logLaw_deployed tokens block⟩)
      fun ⟨hlaw, hacc, hlog⟩ hseg => ⟨sourceLaw_step hlaw hseg, accounted_step hlaw hacc hseg,
        logLaw_step hlaw hacc hlog hseg.effect⟩
  exact hall.2.2

/-- What a clone emits, it emits after it was filled. -/
theorem Moment.emitter_filled (h : Moment d s) {n : Nat} {e : SourceEvent κ A} {a : A}
    (he : (n, e) ∈ s.events) (ha : e.emitter = some a) :
    ∃ k hl fill, a = d.computeAddress k hl ∧ (s.escrows k hl).fill = some fill := by
  cases e with
  | filled | remainingRestored => cases ha
  | withdrawn escrow f secret =>
      obtain rfl : escrow = a := Option.some.inj ha
      obtain ⟨k, hl, rfl, p, hp, -⟩ := h.log.withdrawn n _ f secret he
      cases hfill : (s.escrows k hl).fill with
      | none => simp [(h.law.untouched hfill).2.payouts] at hp
      | some fill => exact ⟨k, hl, fill, rfl, hfill⟩
  | cancelled escrow to_ amount f deposit =>
      obtain rfl : escrow = a := Option.some.inj ha
      obtain ⟨k, hl, rfl, hcancelled⟩ := h.log.cancelled n _ to_ amount f deposit he
      obtain ⟨fill, hfill, -⟩ := h.law.genuine_of_cancelled hcancelled
      exact ⟨k, hl, fill, rfl, hfill⟩

/-- A clone that has emitted `Withdrawn` was not cancelled, and paid against
this one secret. -/
theorem Moment.withdrawn_once (h : Moment d s) {n : Nat} {k : κ} {hl secret : Bytes32} {f : A}
    (he : (n, .withdrawn (d.computeAddress k hl) f secret) ∈ s.events) :
    (s.escrows k hl).cancelled = false ∧
      ∀ p ∈ (s.escrows k hl).payouts, p.secret = some secret := by
  obtain ⟨t, hterms⟩ := h.log.hasTerms h.law he
  obtain ⟨k', hl', ha, p, hp, hsecret⟩ := h.log.withdrawn n _ f secret he
  obtain ⟨rfl, rfl⟩ := d.computeAddress_injective ha
  cases (h.law.clone k hl).standing t hterms with
  | unsettled _ _ hpayouts => simp [hpayouts] at hp
  | withdrawn time secret' _ hcancelled _ _ hpayouts =>
      refine ⟨hcancelled, fun q hq => ?_⟩
      rw [hpayouts] at hp hq
      rw [List.mem_singleton.mp hq, ← List.mem_singleton.mp hp, hsecret]
  | cancelled time _ _ _ hpayouts =>
      obtain rfl : p = _ := by simpa [hpayouts] using hp
      simp at hsecret

end SourceChain

end NeutronX.CrossChain
