import NeutronX.CrossChain.SourceRuns

/-!
# The law of the source chain

What every moment of every run satisfies. Each clone keeps its own law; it
belongs to the fill it was deployed for, and that fill was authorised; and
it carries the terms of that fill, except while the fill is still in
flight. In flight the code is already there and `initialize` is open to
everyone, so the clone may carry anybody's terms; then `fillSlot` is
bound to revert, and until it does the clone cannot have been cancelled,
because the terms expire in the future and the clock stands still.
-/

namespace NeutronX.CrossChain

open Evm Function

namespace SourceChain

open EscrowSrc (CloneStep CloneLaw cloneLaw_vacant cloneLaw_step cloneLaw_deploy)

variable {κ A W : Type} [DecidableEq κ] [Zero A] [DecidableEq A] {d : SourceChain κ A W}

/-- What `fillSlot` checked about the fill itself. -/
structure Authorised (d : SourceChain κ A W) (fill : Fill κ A) : Prop where
  orderHash : fill.auth.orderHash = d.hashOrder fill.order
  t1_le : fill.auth.t1 ≤ fill.order.deadlineBase
  t1_lt_t2 : fill.auth.t1 < fill.auth.t2
  fillAmount_pos : 0 < (fill.auth.fillAmount : Nat)
  swapperSig : ∃ sig, d.recover (d.hashOrder fill.order) sig = some fill.order.swapper
  perFillSig : ∃ sig, d.recover (d.hashFill fill.auth) sig = some fill.order.swapper

omit [DecidableEq A] in
theorem Opened.authorised {s s' : SourceState κ A W} {fill : Fill κ A}
    (h : Opened d s fill s') : Authorised d fill :=
  ⟨h.orderHash, h.t1_le, h.t1_lt_t2, h.fillAmount_pos, h.swapperSig, h.perFillSig⟩

/-- The clone sits at the address of its fill. -/
structure BelongsTo (d : SourceChain κ A W) (k : κ) (h : Bytes32) (fill : Fill κ A) : Prop where
  orderHash : d.hashOrder fill.order = k
  hashlock : fill.auth.hashlock = h
  authorised : Authorised d fill

/-- A clone whose fill is in flight, whoever wrote its terms. -/
structure InFlight (s : SourceState κ A W) (c : EscrowSrc κ A) : Prop where
  code : c.fill.isSome = true
  cancelled : c.cancelled = false
  expiry : ∀ t, c.terms = some t → s.block.timestamp < t.expiry

structure SourceLaw (d : SourceChain κ A W) (s : SourceState κ A W) : Prop where
  clone : ∀ k h, CloneLaw d.keccak (s.escrows k h)
  fill : ∀ k h fill, (s.escrows k h).fill = some fill → BelongsTo d k h fill
  genuine : ∀ k h fill, s.filling ≠ some (k, h) → (s.escrows k h).fill = some fill →
    (s.escrows k h).terms = some (termsOf d fill)
  inFlight : ∀ k h, s.filling = some (k, h) → InFlight s (s.escrows k h)

omit [DecidableEq κ] [DecidableEq A] in
theorem sourceLaw_deployed (tokens : W) (block : Block) :
    SourceLaw d (deployed tokens block) where
  clone := fun _ _ => cloneLaw_vacant _
  fill := fun _ _ _ hfill => nomatch hfill
  genuine := fun _ _ _ _ hfill => nomatch hfill
  inFlight := fun _ _ hfilling => nomatch hfilling

omit [DecidableEq κ] [DecidableEq A] in
/-- A clone without code is as `initialize` finds it. -/
theorem SourceLaw.untouched {s : SourceState κ A W} (hlaw : SourceLaw d s) {k : κ} {h : Bytes32}
    (hvacant : (s.escrows k h).fill = none) :
    (s.escrows k h).terms = none ∧ (s.escrows k h).Untouched := by
  have hnone : (s.escrows k h).terms = none := by
    cases hterms : (s.escrows k h).terms with
    | none => rfl
    | some t => exact absurd ((hlaw.clone k h).code t hterms) (by simp [hvacant])
  exact ⟨hnone, (hlaw.clone k h).untouched hnone⟩

omit [DecidableEq κ] in
/-- A clone in flight stays one through its own steps: to be cancelled it
would have to be past an expiry that lies ahead. -/
theorem inFlight_step {s s' : SourceState κ A W} {c c' : EscrowSrc κ A}
    (hstep : CloneStep d.keccak s.block c c') (hblock : s'.block = s.block)
    (h : InFlight s c) : InFlight s' c' := by
  refine ⟨hstep.fill ▸ h.code, ?_, fun t ht => ?_⟩
  · cases hstep with
    | cancelStart t _ hopen htime =>
        exact absurd htime (Nat.not_lt.mpr (Nat.le_of_lt (h.expiry t hopen.terms)))
    | pay _ t stage next payee accepted hstage hterms hpays hpay =>
        exact (EscrowSrc.payDeposit_kept hpay).cancelled.trans h.cancelled
    | start | withdrawStart | release | claimStart | receive => exact h.cancelled
  · rw [hblock]
    cases hc : c.terms with
    | some t' =>
        obtain rfl := Option.some.inj ((hstep.terms hc).symm.trans ht)
        exact h.expiry t' hc
    | none =>
        cases hstep with
        | start t' _ _ _ _ _ hexpiry =>
            obtain rfl : t' = t := by simpa [EscrowSrc.opened] using ht
            exact hexpiry
        | pay _ t' _ _ _ _ _ hterms => exact absurd (hterms.symm.trans hc) (by simp)
        | withdrawStart | cancelStart | release | claimStart | receive =>
            exact absurd (ht.symm.trans hc) (by simp)

/-- A step of one clone keeps the law. -/
theorem sourceLaw_moved {s s' : SourceState κ A W} {k : κ} {h : Bytes32}
    (hlaw : SourceLaw d s) (hmoved : Moved d s k h s') : SourceLaw d s' := by
  have other : ∀ {k' h'}, ¬(k' = k ∧ h' = h) → s'.escrows k' h' = s.escrows k' h' :=
    fun hne => by rw [hmoved.escrows, update₂_of_ne hne]
  refine ⟨fun k' h' => ?_, fun k' h' fill hfill => ?_, fun k' h' fill hidle hfill => ?_,
    fun k' h' hfilling => ?_⟩ <;> by_cases hsame : k' = k ∧ h' = h
  · obtain ⟨rfl, rfl⟩ := hsame
    exact cloneLaw_step (hlaw.clone k' h') hmoved.step
  · rw [other hsame]
    exact hlaw.clone k' h'
  · obtain ⟨rfl, rfl⟩ := hsame
    exact hlaw.fill k' h' fill (hmoved.step.fill.symm.trans hfill)
  · exact hlaw.fill k' h' fill (by rwa [other hsame] at hfill)
  · obtain ⟨rfl, rfl⟩ := hsame
    rw [hmoved.filling] at hidle
    exact hmoved.step.terms
      (hlaw.genuine k' h' fill hidle (hmoved.step.fill.symm.trans hfill))
  · rw [other hsame] at hfill ⊢
    exact hlaw.genuine k' h' fill (hmoved.filling ▸ hidle) hfill
  · obtain ⟨rfl, rfl⟩ := hsame
    exact inFlight_step hmoved.step hmoved.block
      (hlaw.inFlight k' h' (hmoved.filling.symm.trans hfilling))
  · have hold := hlaw.inFlight k' h' (hmoved.filling.symm.trans hfilling)
    rw [other hsame]
    exact ⟨hold.code, hold.cancelled, by rw [hmoved.block]; exact hold.expiry⟩

omit [DecidableEq A] in
theorem sourceLaw_opened {s s' : SourceState κ A W} {fill : Fill κ A} (hlaw : SourceLaw d s)
    (ho : Opened d s fill s') : SourceLaw d s' := by
  have other : ∀ {k' h'}, ¬(k' = d.hashOrder fill.order ∧ h' = fill.auth.hashlock) →
      s'.escrows k' h' = s.escrows k' h' := fun hne => by rw [ho.escrows, update₂_of_ne hne]
  have own : s'.escrows (d.hashOrder fill.order) fill.auth.hashlock =
      { s.escrows (d.hashOrder fill.order) fill.auth.hashlock with fill := some fill } := by
    rw [ho.escrows, update₂_self]
  obtain ⟨hterms, huntouched⟩ := hlaw.untouched ho.vacant
  refine ⟨fun k' h' => ?_, fun k' h' fill' hfill => ?_, fun k' h' fill' hidle hfill => ?_,
    fun k' h' hfilling => ?_⟩ <;>
    by_cases hsame : k' = d.hashOrder fill.order ∧ h' = fill.auth.hashlock
  · obtain ⟨rfl, rfl⟩ := hsame
    rw [own]
    exact cloneLaw_deploy (hlaw.clone _ _) ho.vacant fill
  · rw [other hsame]
    exact hlaw.clone k' h'
  · obtain ⟨rfl, rfl⟩ := hsame
    rw [own] at hfill
    obtain rfl := Option.some.inj hfill
    exact ⟨rfl, rfl, ho.authorised⟩
  · exact hlaw.fill k' h' fill' (by rwa [other hsame] at hfill)
  · obtain ⟨rfl, rfl⟩ := hsame
    exact absurd ho.filling hidle
  · rw [other hsame] at hfill ⊢
    exact hlaw.genuine k' h' fill' (by simp [ho.free]) hfill
  · obtain ⟨rfl, rfl⟩ := hsame
    rw [own]
    exact ⟨rfl, huntouched.cancelled, fun t ht => absurd (hterms.symm.trans ht) (by simp)⟩
  · rw [ho.filling] at hfilling
    obtain ⟨rfl, rfl⟩ := Prod.mk.inj (Option.some.inj hfilling)
    exact absurd ⟨rfl, rfl⟩ hsame

theorem sourceLaw_closed {s s' : SourceState κ A W} {fill : Fill κ A} (hlaw : SourceLaw d s)
    (hfilling : s.filling = some (d.hashOrder fill.order, fill.auth.hashlock))
    (hfill : (s.escrows (d.hashOrder fill.order) fill.auth.hashlock).fill = some fill)
    (hc : Closed d s fill s') : SourceLaw d s' := by
  have other : ∀ {k' h'}, ¬(k' = d.hashOrder fill.order ∧ h' = fill.auth.hashlock) →
      s'.escrows k' h' = s.escrows k' h' := fun hne => by rw [hc.escrows, update₂_of_ne hne]
  have own : s'.escrows (d.hashOrder fill.order) fill.auth.hashlock =
      (s.escrows (d.hashOrder fill.order) fill.auth.hashlock).opened (termsOf d fill) := by
    rw [hc.escrows, update₂_self]
  refine ⟨fun k' h' => ?_, fun k' h' fill' hfill' => ?_, fun k' h' fill' hidle hfill' => ?_,
    fun k' h' hfilling' => absurd (hc.filling.symm.trans hfilling') (by simp)⟩ <;>
    by_cases hsame : k' = d.hashOrder fill.order ∧ h' = fill.auth.hashlock
  · obtain ⟨rfl, rfl⟩ := hsame
    obtain ⟨held, hguards⟩ := hc.guards
    rw [own]
    exact cloneLaw_step (hlaw.clone _ _) (start_step (d := d) hc.code hguards)
  · rw [other hsame]
    exact hlaw.clone k' h'
  · obtain ⟨rfl, rfl⟩ := hsame
    rw [own] at hfill'
    exact hlaw.fill _ _ fill' hfill'
  · exact hlaw.fill k' h' fill' (by rwa [other hsame] at hfill')
  · obtain ⟨rfl, rfl⟩ := hsame
    rw [own] at hfill' ⊢
    obtain rfl := Option.some.inj (hfill.symm.trans hfill')
    rfl
  · rw [other hsame] at hfill' ⊢
    refine hlaw.genuine k' h' fill' (fun heq => hsame ?_) hfill'
    rw [hfilling] at heq
    obtain ⟨hk, hh⟩ := Prod.mk.inj (Option.some.inj heq)
    exact ⟨hk.symm, hh.symm⟩

omit [DecidableEq κ] [DecidableEq A] in
theorem sourceLaw_idled {s s' : SourceState κ A W} (hlaw : SourceLaw d s) (hi : Idled s s') :
    SourceLaw d s' := by
  refine ⟨?_, ?_, ?_, fun k h hfilling => ?_⟩
  · rw [hi.escrows]
    exact hlaw.clone
  · rw [hi.escrows]
    exact hlaw.fill
  · rw [hi.escrows, hi.filling]
    exact hlaw.genuine
  · rw [hi.filling] at hfilling
    have hold := hlaw.inFlight k h hfilling
    rw [hi.escrows]
    refine ⟨hold.code, hold.cancelled, fun t ht => ?_⟩
    -- in flight the clock stands still
    rcases hi.between with hnone | hblock
    · exact absurd (hnone.symm.trans hfilling) (by simp)
    · rw [hblock]
      exact hold.expiry t ht

/-- **Every segment keeps the law.** -/
theorem sourceLaw_step {P : Fill κ A → Prop} {s s' : SourceState κ A W} (hlaw : SourceLaw d s)
    (h : Segment d P s s') : SourceLaw d s' := by
  cases h.effect with
  | opened fill hP ho => exact sourceLaw_opened hlaw ho
  | closed fill hfilling hfill hc => exact sourceLaw_closed hlaw hfilling hfill hc
  | moved k h hmoved => exact sourceLaw_moved hlaw hmoved
  | withdrawn k h secret t hmoved => exact sourceLaw_moved hlaw hmoved
  | handedBack k h hback => exact sourceLaw_moved hlaw hback.moved
  | idled hi => exact sourceLaw_idled hlaw hi

theorem Moment.law {s : SourceState κ A W} (h : Moment d s) : SourceLaw d s :=
  h.invariant sourceLaw_deployed sourceLaw_step

omit [DecidableEq κ] [DecidableEq A] in
/-- A clone that was cancelled, or is being cancelled, is a genuine one. -/
theorem SourceLaw.genuine_of_cancelled {s : SourceState κ A W} (hlaw : SourceLaw d s) {k : κ}
    {h : Bytes32} (hcancelled : (s.escrows k h).cancelled = true) :
    ∃ fill, (s.escrows k h).fill = some fill ∧
      (s.escrows k h).terms = some (termsOf d fill) := by
  have hidle : s.filling ≠ some (k, h) := fun hfilling => by
    simp [(hlaw.inFlight k h hfilling).cancelled] at hcancelled
  cases hfill : (s.escrows k h).fill with
  | none => simp [(hlaw.untouched hfill).2.cancelled] at hcancelled
  | some fill => exact ⟨fill, rfl, hlaw.genuine k h fill hidle hfill⟩

end SourceChain

end NeutronX.CrossChain
