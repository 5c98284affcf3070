import NeutronX.ConfigGovernance

/-!
# How fast the configuration can change

A single change moves the sampled collateral by at most `MAX_DELTA_BPS`.
Two applications are `CHANGE_COOLDOWN` apart, whatever is queued, cancelled,
committed or rolled back between them: an application restarts the clock,
setting waits for the clock, and what waits becomes effective a longer
delay after it was set (`Cooling`). So within a time `D` there are at most
`1 + D / CHANGE_COOLDOWN` of them, and a rollback only goes back to a value
that was there before. The drift over any window follows (`anti_salami`).
-/

namespace NeutronX

open Evm Function

namespace FillAuction

open DynamicStakeLib

variable {κ : Type} [DecidableEq κ]

/-! ## The auction under a clock -/

/-- The auction in a block: time passes, the configuration is governed in
the current block, or any other call leaves the governance as it is. -/
inductive TimedStep (p : AuctionParams) : Block × AuctionState κ → Block × AuctionState κ → Prop
  | elapse {blk blk' s} (hnumber : blk.number ≤ blk'.number)
      (htime : blk.timestamp ≤ blk'.timestamp) : TimedStep p (blk, s) (blk', s)
  | setStakeConfig {blk s s'} (msgSender : Address) (c : StakeConfig)
      (h : setStakeConfig blk s msgSender c = .ok s') : TimedStep p (blk, s) (blk, s')
  | commitPending {blk s s'} (h : commitPending blk s = .ok s') : TimedStep p (blk, s) (blk, s')
  | cancelPendingConfig {blk s s'} (msgSender : Address)
      (h : cancelPendingConfig blk s msgSender = .ok s') : TimedStep p (blk, s) (blk, s')
  | rollback {blk s s'} (msgSender : Address)
      (h : rollback blk s msgSender = .ok s') : TimedStep p (blk, s) (blk, s')
  | other {blk s s'} (h : AuctionStep p s s') (hsame : governance s' = governance s) :
      TimedStep p (blk, s) (blk, s')

abbrev TimedRun (p : AuctionParams) : Block × AuctionState κ → Block × AuctionState κ → Prop :=
  Relation.ReflTransGen (TimedStep p)

/-- What a step does: time passes, a configuration is applied in the current
block, or one of the other effects happens in it. -/
inductive TimedEffect (a b : Block × AuctionState κ) : Prop
  | elapsed (htime : a.1.timestamp ≤ b.1.timestamp) (hsame : b.2 = a.2)
  | applied (hblk : b.1 = a.1) (cfg : StakeConfig)
      (h : Applied a.1 (governance a.2) cfg (governance b.2))
  | effect (hblk : b.1 = a.1) (h : ConfigEffect a.1 (governance a.2) (governance b.2))

theorem step_timed {p : AuctionParams} {a b : Block × AuctionState κ} (h : TimedStep p a b) :
    TimedEffect a b := by
  cases h with
  | elapse hnumber htime => exact .elapsed htime rfl
  | setStakeConfig msgSender c h =>
      obtain happ | heffect := setStakeConfig_effect h
      · obtain ⟨cfg, happlied⟩ := happ.applied
        exact .applied rfl cfg happlied
      · exact .effect rfl heffect
  | commitPending h =>
      obtain ⟨cfg, happlied⟩ := (Application.committed h).applied
      exact .applied rfl cfg happlied
  | cancelPendingConfig msgSender h =>
      obtain rfl := cancelPendingConfig_spec h
      exact .effect rfl .cancelled
  | rollback msgSender h =>
      obtain ⟨hprevious, heq⟩ := rollback_effect h
      refine .effect rfl ?_
      rw [heq]
      exact .rolledBack hprevious
  | other h hsame =>
      refine .effect rfl ?_
      rw [hsame]
      exact .same

theorem timestamp_run {p : AuctionParams} {a b : Block × AuctionState κ} (h : TimedRun p a b) :
    a.1.timestamp ≤ b.1.timestamp := by
  induction h with
  | refl => exact Nat.le_refl _
  | tail _ hstep ih =>
      cases step_timed hstep with
      | elapsed htime hsame => exact Nat.le_trans ih htime
      | applied hblk cfg h => rwa [hblk]
      | effect hblk h => rwa [hblk]

/-! ## The cooldown between applications -/

/-- Nothing can be applied before `t + CHANGE_COOLDOWN`. -/
structure Cooling (t : Nat) (g : Governance) : Prop where
  started : t ≤ g.lastChange
  waiting : isEmptyConfig g.pending = false → t + CHANGE_COOLDOWN ≤ g.pendingEffective

omit [DecidableEq κ] in
theorem Applied.cooling {blk : Block} {g g' : Governance} {cfg : StakeConfig} {t : Nat}
    (h : Applied blk g cfg g') (ht : t ≤ blk.timestamp) : Cooling t g' where
  started := by rw [h.lastChange]; exact ht
  waiting := fun hpending => by rw [h.free] at hpending; exact nomatch hpending

omit [DecidableEq κ] in
theorem Cooling.ready {blk : Block} {g : Governance} {cfg : StakeConfig} {t : Nat} (hpos : 0 < t)
    (hcool : Cooling t g) (h : Ready blk g cfg) : t + CHANGE_COOLDOWN ≤ blk.timestamp := by
  have hstarted := hcool.started
  cases h with
  | tightened c hcooled hfree hvalid hguard =>
      have hready := hcooled (by omega)
      omega
  | waited hpending hready => exact Nat.le_trans (hcool.waiting hpending) hready

omit [DecidableEq κ] in
theorem Cooling.effect {blk : Block} {g g' : Governance} {t : Nat} (hpos : 0 < t)
    (hcool : Cooling t g) (h : ConfigEffect blk g g') : Cooling t g' := by
  have hstarted := hcool.started
  cases h with
  | same => exact hcool
  | queued c hcooled hfree hvalid hguard =>
      -- it was set after the cooldown, and waits for longer than another one
      have hready := hcooled (by omega)
      have hdelay : CHANGE_COOLDOWN ≤ LOOSEN_DELAY := by decide
      exact ⟨by dsimp only; omega, fun _ => by dsimp only; omega⟩
  | cancelled => exact ⟨hcool.started, fun hpending => nomatch hpending⟩
  | rolledBack hprevious => exact ⟨hcool.started, fun hpending => nomatch hpending⟩

theorem cooling_run {p : AuctionParams} {a b : Block × AuctionState κ} {t : Nat} (hpos : 0 < t)
    (hcool : Cooling t (governance a.2)) (h : TimedRun p a b) : Cooling t (governance b.2) := by
  induction h with
  | refl => exact hcool
  | @tail b c hrun hstep ih =>
      cases step_timed hstep with
      | elapsed htime hsame => rwa [hsame]
      | applied hblk cfg h =>
          have hready := ih.ready hpos h.ready
          exact h.cooling (by omega)
      | effect hblk h => exact ih.effect hpos h

/-! ## The drift over a window -/

/-- The largest relative move of a single change. -/
def maxDelta : ℚ := (MAX_DELTA_BPS : ℚ) / 10000

theorem maxDelta_nonneg : 0 ≤ maxDelta := by norm_num [maxDelta, MAX_DELTA_BPS]

theorem maxDelta_le_one : maxDelta ≤ 1 := by norm_num [maxDelta, MAX_DELTA_BPS]

/-- At each notional of the grid the sampled collateral of `cfg` lies within
`k` changes of the given bounds. -/
def Drifted (lo hi : Nat → Nat) (k : Nat) (cfg : StakeConfig) : Prop :=
  ∀ notional ∈ sampleNotionals, ∃ coll, sampledCollateral cfg notional = .ok coll ∧
    Drift maxDelta k (lo notional : ℚ) (hi notional : ℚ) (coll : ℚ)

theorem Drifted.mono {lo hi : Nat → Nat} {k m : Nat} {cfg : StakeConfig} (hkm : k ≤ m)
    (h : Drifted lo hi k cfg) : Drifted lo hi m cfg := fun notional hmem => by
  obtain ⟨coll, hcoll, hdrift⟩ := h notional hmem
  exact ⟨coll, hcoll, hdrift.mono maxDelta_nonneg maxDelta_le_one (Nat.cast_nonneg _)
    (Nat.cast_nonneg _) hkm⟩

theorem Drifted.change {lo hi : Nat → Nat} {k : Nat} {blk : Block} {oldCfg newCfg : StakeConfig}
    {loosening : Bool} (h : Drifted lo hi k oldCfg)
    (hguard : guardCheck blk oldCfg newCfg guardBounds = .ok loosening) :
    Drifted lo hi (k + 1) newCfg := fun notional hmem => by
  obtain ⟨coll, hcoll, hdrift⟩ := h notional hmem
  obtain ⟨collOld, collNew, hold, hnew, hmove⟩ := guardCheck_drift hguard notional hmem
  obtain rfl : collOld = coll := Except.ok.inj (hold.symm.trans hcoll)
  exact ⟨collNew, hnew, hdrift.step maxDelta_nonneg maxDelta_le_one hmove⟩

/-- The state of a window that started at `t₀`, after `k` applications. -/
structure Window (t₀ : Nat) (lo hi : Nat → Nat) (k : Nat) (c : Block × AuctionState κ) :
    Prop where
  law : GovernanceLaw (governance c.2)
  began : t₀ ≤ c.1.timestamp
  config : Drifted lo hi k c.2.config
  previousConfig : isEmptyConfig c.2.previousConfig = false → Drifted lo hi k c.2.previousConfig
  /-- the last of the `k` applications was not before `t₀ + (k - 1) * CHANGE_COOLDOWN` -/
  spaced : k = 0 ∨ t₀ + (k - 1) * CHANGE_COOLDOWN ≤ c.1.timestamp ∧
    Cooling (t₀ + (k - 1) * CHANGE_COOLDOWN) (governance c.2)

omit [DecidableEq κ] in
theorem Window.count_le {t₀ D : Nat} {lo hi : Nat → Nat} {k : Nat} {c : Block × AuctionState κ}
    (h : Window t₀ lo hi k c) (hD : c.1.timestamp ≤ t₀ + D) : k ≤ 1 + D / CHANGE_COOLDOWN := by
  obtain rfl | ⟨hspaced, -⟩ := h.spaced
  · exact Nat.zero_le _
  · have hle : (k - 1) * CHANGE_COOLDOWN ≤ D := by omega
    have hdiv : k - 1 ≤ D / CHANGE_COOLDOWN := (Nat.le_div_iff_mul_le (by decide)).mpr hle
    omega

omit [DecidableEq κ] in
/-- One more application is at least one more cooldown into the window. -/
theorem Window.next_spaced {t₀ : Nat} (hpos : 0 < t₀) {lo hi : Nat → Nat} {k : Nat}
    {c : Block × AuctionState κ} {cfg : StakeConfig} (h : Window t₀ lo hi k c)
    (hready : Ready c.1 (governance c.2) cfg) : t₀ + k * CHANGE_COOLDOWN ≤ c.1.timestamp := by
  have hbegan := h.began
  cases k with
  | zero => omega
  | succ j =>
      obtain hzero | ⟨-, hcool⟩ := h.spaced
      · exact absurd hzero (Nat.succ_ne_zero j)
      · rw [Nat.add_sub_cancel] at hcool
        have hnext := hcool.ready (by omega) hready
        rw [Nat.succ_mul]
        omega

/-- The step lemma of a window: an application is one more, and everything
else adds none. -/
theorem window_step {p : AuctionParams} {t₀ : Nat} (hpos : 0 < t₀) {lo hi : Nat → Nat} {k : Nat}
    {a b : Block × AuctionState κ} (h : Window t₀ lo hi k a) (hstep : TimedStep p a b) :
    ∃ k', Window t₀ lo hi k' b := by
  cases step_timed hstep with
  | elapsed htime hsame =>
      refine ⟨k, ?_⟩
      have hspaced := h.spaced
      exact ⟨by rw [hsame]; exact h.law, Nat.le_trans h.began htime,
        by rw [hsame]; exact h.config, by rw [hsame]; exact h.previousConfig,
        by rw [hsame]; exact hspaced.imp id fun hs => ⟨Nat.le_trans hs.1 htime, hs.2⟩⟩
  | applied hblk cfg happlied =>
      refine ⟨k + 1, ?_⟩
      obtain ⟨-, _, _, hguard⟩ := happlied.ready.guarded h.law
      have hconfig : b.2.config = cfg := happlied.config
      have hprevious : b.2.previousConfig = a.2.config := happlied.previousConfig
      have hspaced : t₀ + k * CHANGE_COOLDOWN ≤ a.1.timestamp := h.next_spaced hpos happlied.ready
      refine ⟨h.law.applied happlied, by rw [hblk]; exact h.began, ?_, fun _ => ?_, Or.inr ?_⟩
      · rw [hconfig]
        exact h.config.change hguard
      · rw [hprevious]
        exact h.config.mono (Nat.le_succ k)
      · rw [hblk]
        exact ⟨hspaced, happlied.cooling hspaced⟩
  | effect hblk heffect =>
      have hprevious : b.2.previousConfig = a.2.previousConfig := heffect.previousConfig
      refine ⟨k, h.law.effect heffect, by rw [hblk]; exact h.began, ?_, ?_, ?_⟩
      · obtain hsame | ⟨hne, hback⟩ := heffect.config
        · rw [show b.2.config = a.2.config from hsame]
          exact h.config
        · rw [show b.2.config = a.2.previousConfig from hback]
          exact h.previousConfig hne
      · rw [hprevious]
        exact h.previousConfig
      · obtain hzero | ⟨htime, hcool⟩ := h.spaced
        · exact Or.inl hzero
        · rw [hblk]
          exact Or.inr ⟨htime, hcool.effect (by omega) heffect⟩

theorem window_run {p : AuctionParams} {t₀ : Nat} (hpos : 0 < t₀) {lo hi : Nat → Nat}
    {a b : Block × AuctionState κ} (h : Window t₀ lo hi 0 a) (hrun : TimedRun p a b) :
    ∃ k, Window t₀ lo hi k b := by
  induction hrun with
  | refl => exact ⟨0, h⟩
  | tail _ hstep ih =>
      obtain ⟨k, hk⟩ := ih
      exact window_step hpos hk hstep

theorem governanceLaw_timed {p : AuctionParams} {a b : Block × AuctionState κ}
    (hlaw : GovernanceLaw (governance a.2)) (h : TimedRun p a b) :
    GovernanceLaw (governance b.2) := by
  induction h with
  | refl => exact hlaw
  | tail _ hstep ih =>
      cases step_timed hstep with
      | elapsed htime hsame => rwa [hsame]
      | applied hblk cfg h => exact ih.applied h
      | effect hblk h => exact ih.effect h

/-- The configuration that was replaced, or the live one if none was. -/
def previousOrLive (s : AuctionState κ) : StakeConfig :=
  if isEmptyConfig s.previousConfig = true then s.config else s.previousConfig

/-- The sampled collateral as a number. -/
def collateralAt (cfg : StakeConfig) (notional : Nat) : Nat :=
  match sampledCollateral cfg notional with
  | .ok coll => coll
  | .error _ => 0

theorem collateralAt_eq {cfg : StakeConfig} (h : Sampled cfg) {notional : Nat}
    (hmem : notional ∈ sampleNotionals) :
    sampledCollateral cfg notional = .ok (collateralAt cfg notional) := by
  obtain ⟨coll, hcoll⟩ := h notional hmem
  rw [collateralAt, hcoll]

theorem drifted_start {lo hi : Nat → Nat} {cfg : StakeConfig} (h : Sampled cfg)
    (hlo : ∀ notional, lo notional ≤ collateralAt cfg notional)
    (hhi : ∀ notional, collateralAt cfg notional ≤ hi notional) : Drifted lo hi 0 cfg :=
  fun notional hmem => ⟨collateralAt cfg notional, collateralAt_eq h hmem,
    .start (by exact_mod_cast hlo notional) (by exact_mod_cast hhi notional)⟩

omit [DecidableEq κ] in
theorem GovernanceLaw.sampled_previousOrLive {s : AuctionState κ}
    (h : GovernanceLaw (governance s)) : Sampled (previousOrLive s) := by
  unfold previousOrLive
  split
  · exact h.config.2
  · rename_i hne
    exact (h.previousConfig (Bool.eq_false_of_not_eq_true hne)).2

omit [DecidableEq κ] in
/-- A window begins between the live and the replaced configuration. -/
theorem window_start {c : Block × AuctionState κ} (h : GovernanceLaw (governance c.2)) :
    Window c.1.timestamp
      (fun n => min (collateralAt c.2.config n) (collateralAt (previousOrLive c.2) n))
      (fun n => max (collateralAt c.2.config n) (collateralAt (previousOrLive c.2) n)) 0 c where
  law := h
  began := Nat.le_refl _
  config := drifted_start h.config.2 (fun _ => Nat.min_le_left ..) (fun _ => Nat.le_max_left ..)
  previousConfig := fun hne => by
    have heq : previousOrLive c.2 = c.2.previousConfig := by
      rw [previousOrLive, hne]
      rfl
    rw [heq]
    exact drifted_start (h.previousConfig hne).2 (fun _ => Nat.min_le_right ..)
      (fun _ => Nat.le_max_right ..)
  spaced := Or.inl rfl

/-- **The anti-salami bound.** In every run of the auction under a clock
that starts after 0, two applications are `CHANGE_COOLDOWN` apart; and
whatever is live in a window of length `D` requires, at each notional of
the grid, a collateral within `k` changes of those of the live and the
replaced configuration at its start, for a `k` of at most
`1 + D / CHANGE_COOLDOWN`. -/
theorem anti_salami {p : AuctionParams} {admin : Address} {start : Block}
    (hclock : 0 < start.timestamp) {c₀ : Block × AuctionState κ}
    (hreach : TimedRun p (start, deployed admin) c₀) :
    (∀ {s₁ : AuctionState κ} {c₂ : Block × AuctionState κ} {s₂ : AuctionState κ},
      Application c₀.1 c₀.2 s₁ → TimedRun p (c₀.1, s₁) c₂ → Application c₂.1 c₂.2 s₂ →
      c₀.1.timestamp + CHANGE_COOLDOWN ≤ c₂.1.timestamp) ∧
    ∀ {c : Block × AuctionState κ} (D : Nat), TimedRun p c₀ c →
      c.1.timestamp ≤ c₀.1.timestamp + D →
      ∃ k ≤ 1 + D / CHANGE_COOLDOWN, ∀ notional ∈ sampleNotionals, ∃ live previous coll : Nat,
        sampledCollateral c₀.2.config notional = .ok live ∧
        sampledCollateral (previousOrLive c₀.2) notional = .ok previous ∧
        sampledCollateral c.2.config notional = .ok coll ∧
        (1 - (MAX_DELTA_BPS : ℚ) / 10000) ^ k * (min live previous : Nat) ≤ coll ∧
        (coll : ℚ) ≤ (1 + (MAX_DELTA_BPS : ℚ) / 10000) ^ k * (max live previous : Nat) := by
  have hpos : 0 < c₀.1.timestamp := Nat.lt_of_lt_of_le hclock (timestamp_run hreach)
  have hlaw : GovernanceLaw (governance c₀.2) :=
    governanceLaw_timed (governanceLaw_deployed admin) hreach
  refine ⟨fun happ hrun hagain => ?_, fun {c} D hrun hD => ?_⟩
  · obtain ⟨_, happlied⟩ := happ.applied
    obtain ⟨_, happlied'⟩ := hagain.applied
    exact (cooling_run hpos (happlied.cooling (Nat.le_refl _)) hrun).ready hpos happlied'.ready
  · obtain ⟨k, hwindow⟩ := window_run hpos (window_start hlaw) hrun
    refine ⟨k, hwindow.count_le hD, fun notional hmem => ?_⟩
    obtain ⟨coll, hcoll, hdrift⟩ := hwindow.config notional hmem
    exact ⟨_, _, coll, collateralAt_eq hlaw.config.2 hmem,
      collateralAt_eq hlaw.sampled_previousOrLive hmem, hcoll, hdrift.above, hdrift.below⟩

/-- Two floors of 1 and 2 wei set a day apart, the second as early as it can
be: at most two changes in that day. -/
theorem anti_salami_day :
    ∃ s₀ s₂ : AuctionState Unit, s₂.config.minCollateral = 2 ∧
      (⟨1, 100⟩ : Block).timestamp + CHANGE_COOLDOWN ≤ (⟨7201, 86500⟩ : Block).timestamp ∧
      ∃ k ≤ 2, ∀ notional ∈ sampleNotionals, ∃ live previous coll : Nat,
        sampledCollateral s₀.config notional = .ok live ∧
        sampledCollateral (previousOrLive s₀) notional = .ok previous ∧
        sampledCollateral s₂.config notional = .ok coll ∧
        (1 - (MAX_DELTA_BPS : ℚ) / 10000) ^ k * (min live previous : Nat) ≤ coll ∧
        (coll : ℚ) ≤ (1 + (MAX_DELTA_BPS : ℚ) / 10000) ^ k * (max live previous : Nat) := by
  let floored (n : Nat) : StakeConfig := { defaultStakeConfig with minCollateral := n }
  have hreturns : Returns (do
      let s₀ ← grantRole (deployed (κ := Unit) 1) 1 .paramAdmin 2
      let l₁ ← guardCheck ⟨1, 100⟩ s₀.config (floored 1) guardBounds
      let s₁ ← setStakeConfig ⟨1, 100⟩ s₀ 2 (floored 1)
      let l₂ ← guardCheck ⟨7201, 86500⟩ s₁.config (floored 2) guardBounds
      let s₂ ← setStakeConfig ⟨7201, 86500⟩ s₁ 2 (floored 2)
      pure (l₁, l₂, s₂))
      (fun t => t.1 = false ∧ t.2.1 = false ∧ t.2.2.config.minCollateral = 2) := by
    decide +kernel
  obtain ⟨⟨l₁, l₂, s₂⟩, hok, rfl, rfl, hfloor⟩ := hreturns
  simp only [bind_eq_ok, pure_eq_ok, Prod.mk.injEq] at hok
  obtain ⟨s₀, hgrant, _, hguard₁, s₁, hset₁, _, hguard₂, s₃, hset₂, rfl, rfl, rfl⟩ := hok
  have hreach : TimedRun ⟨100, 101⟩ (⟨1, 100⟩, deployed (κ := Unit) 1) (⟨1, 100⟩, s₀) :=
    .single (.other (.grantRole _ _ _ hgrant) (by obtain rfl := grantRole_spec hgrant; rfl))
  have hday : TimedStep ⟨100, 101⟩ (⟨1, 100⟩, s₁) (⟨7201, 86500⟩, s₁) :=
    .elapse (by decide) (by decide)
  have hrun : TimedRun ⟨100, 101⟩ (⟨1, 100⟩, s₀) (⟨7201, 86500⟩, s₃) :=
    ((Relation.ReflTransGen.single (.setStakeConfig _ _ hset₁)).tail hday).tail
      (.setStakeConfig _ _ hset₂)
  obtain ⟨hspaced, hwindow⟩ := anti_salami (by decide) hreach
  exact ⟨s₀, s₃, hfloor,
    hspaced (.tightened _ _ hset₁ hguard₁) (.single hday) (.tightened _ _ hset₂ hguard₂),
    hwindow 86400 hrun (show (86500 : Nat) ≤ 100 + 86400 by decide)⟩

end FillAuction

end NeutronX
