import NeutronX.ConfigGovernance
import NeutronX.StakeTables

/-!
# What the sampled fill ratios cover

A penalty is a step function of the fill ratio, with its steps at the
ratio thresholds. The guard samples it below each threshold of either
configuration, at one less: no threshold lies between a ratio and the one
before the next threshold, so the two are in the same buckets of both
(`exists_edge`).

One step is out of reach. A threshold above 10000 bps has its edge at a
full fill, which is refunded in full whatever the buckets. So the ratios
above the last threshold of at most 10000 are not sampled, and what the
guard promises there is what holds at 9999 bps.
-/

namespace NeutronX

open Evm

namespace DynamicStakeLib

/-! ## Refunds by ratio -/

/-- Of a ratio below a full fill the bucket is looked up. -/
theorem getFillRatioBucket_bps {p : Nat} {thresholds : List Nat} (h : p < 10000) :
    getFillRatioBucket p 10000 thresholds = .ok (toUint 8 (thresholds.findIdx fun t => p < t)) := by
  have hfits : p * 10000 < wordSize := Nat.lt_of_le_of_lt (by omega) (by decide : 10 ^ 8 < wordSize)
  have hmul : checkedMul p 10000 = .ok (p * 10000) := checkedMul_eq_ok.mpr ⟨hfits, rfl⟩
  rw [getFillRatioBucket, if_neg (by omega), hmul]
  show Except.ok (toUint 8 (thresholds.findIdx fun t => p * 10000 / 10000 < t)) = _
  rw [Nat.mul_div_cancel _ (by decide)]

/-- Two ratios no threshold separates are refunded alike. -/
theorem refundFracBpsAt_congr {cfg : StakeConfig} {notionalEth p q : Nat} (hp : p < 10000)
    (hq : q < 10000) (h : ∀ t ∈ cfg.ratioThresholds, p < t ↔ q < t) :
    refundFracBpsAt cfg notionalEth p = refundFracBpsAt cfg notionalEth q := by
  simp only [refundFracBpsAt, getFillRatioBucket_bps hp, getFillRatioBucket_bps hq,
    findIdx_lt_congr h]

/-- Past the last threshold everything is refunded. -/
theorem refundFracBpsAt_full {cfg : StakeConfig} {maxRefundBps maxBuckets : Nat}
    (h : Tabled cfg maxRefundBps maxBuckets) (hmax : maxBuckets ≤ 2 ^ 8) {notionalEth p : Nat}
    (hp : 10000 ≤ p ∨ ∀ t ∈ cfg.ratioThresholds, t ≤ p) :
    refundFracBpsAt cfg notionalEth p = .ok maxRefundBps := by
  have hshort : cfg.ratioThresholds.length < 2 ^ 8 := by
    have := h.ratioBuckets
    omega
  have hbucket : getFillRatioBucket p 10000 cfg.ratioThresholds
      = .ok cfg.ratioThresholds.length := by
    by_cases hfull : 10000 ≤ p
    · rw [getFillRatioBucket, if_pos hfull, toUint_of_lt hshort]
      rfl
    · have hlast : (cfg.ratioThresholds.findIdx fun t => p < t) = cfg.ratioThresholds.length :=
        List.findIdx_eq_length_of_false fun t ht => by
          have hle := hp.resolve_left hfull t ht
          simpa using hle
      rw [getFillRatioBucket_bps (by omega), hlast, toUint_of_lt hshort]
  obtain ⟨row, -, hlength, hrow, hcells⟩ := h.row (h.sizeBucket_lt notionalEth)
  have hlast := hrow.last
  rw [hlength, Nat.add_sub_cancel, hcells _ (Nat.lt_succ_self _)] at hlast
  rw [refundFracBpsAt, hbucket]
  exact getAt_eq_ok.mpr hlast

/-! ## Edges -/

/-- The ratio the guard samples below a threshold. -/
def edge (t : Nat) : Nat := if 0 < t then t - 1 else 0

theorem edge_mem {oldCfg newCfg : StakeConfig} {t : Nat}
    (h : t ∈ oldCfg.ratioThresholds ++ newCfg.ratioThresholds) :
    (edge t, false) ∈ guardPoints oldCfg newCfg :=
  List.mem_append_right _ (List.mem_map_of_mem (List.mem_map_of_mem h))

/-- Between a ratio and the edge of the next threshold lies no threshold. -/
theorem exists_edge {thresholds : List Nat} {p : Nat} (h : ∃ t ∈ thresholds, p < t) :
    ∃ t ∈ thresholds, p ≤ edge t ∧ (∀ t' ∈ thresholds, p < t' → t ≤ t') ∧
      ∀ t' ∈ thresholds, p < t' ↔ edge t < t' := by
  classical
  have hex : ∃ t, t ∈ thresholds ∧ p < t := h
  obtain ⟨hmem, hlt⟩ := Nat.find_spec hex
  have hleast : ∀ t' ∈ thresholds, p < t' → Nat.find hex ≤ t' := fun t' ht' hp =>
    Nat.find_min' hex ⟨ht', hp⟩
  have hedge : edge (Nat.find hex) = Nat.find hex - 1 := if_pos (by omega)
  refine ⟨Nat.find hex, hmem, by omega, hleast, fun t' ht' => ⟨fun hp => ?_, fun hp => by omega⟩⟩
  have hle := hleast t' ht' hp
  omega

end DynamicStakeLib

namespace FillAuction

open DynamicStakeLib

/-! ## What the guard promises at a ratio -/

/-- What is left of a stake that is refunded `refundBps` of it. -/
def penalty (coll refundBps : Nat) : Nat := coll * (MAX_REFUND_BPS - refundBps) / MAX_REFUND_BPS

/-- The bounds on a change of the penalty. -/
structure PenaltyKept (loosening : Bool) (collOld collNew refundOld refundNew : Nat) : Prop where
  raised : penalty collNew refundNew * 10000
    ≤ penalty collOld refundOld * (10000 + MAX_DELTA_BPS)
  lowered : penalty collOld refundOld * (10000 - MAX_DELTA_BPS)
    ≤ penalty collNew refundNew * 10000
  floor : refundNew = MAX_REFUND_BPS ∨ refundNew ≤ MAX_REFUND_BPS - MIN_PENALTY_BPS
  tighter : loosening = false → penalty collOld refundOld ≤ penalty collNew refundNew

/-- The bounds hold for a fill of `fillBps` at a notional of the grid. -/
def RatioKept (oldCfg newCfg : StakeConfig) (loosening : Bool) (notional fillBps : Nat) : Prop :=
  ∃ collOld collNew refundOld refundNew,
    sampledCollateral oldCfg notional = .ok collOld ∧
    sampledCollateral newCfg notional = .ok collNew ∧
    refundFracBpsAt oldCfg notional fillBps = .ok refundOld ∧
    refundFracBpsAt newCfg notional fillBps = .ok refundNew ∧
    PenaltyKept loosening collOld collNew refundOld refundNew

theorem withinMaxDelta_bounds {newV oldV : Nat}
    (h : withinMaxDelta newV oldV MAX_DELTA_BPS = .ok true) :
    newV * 10000 ≤ oldV * (10000 + MAX_DELTA_BPS) ∧
      oldV * (10000 - MAX_DELTA_BPS) ≤ newV * 10000 := by
  unfold withinMaxDelta at h
  split at h
  · rename_i hzero
    have hnew : newV = 0 := by simpa [pure, Except.pure] using h
    simp [hzero, hnew]
  · simp only [bind_eq_ok, checkedMul_eq_ok, pure_eq_ok, decide_eq_true_eq] at h
    obtain ⟨_, ⟨-, rfl⟩, _, ⟨-, rfl⟩, hle⟩ := h
    simp only [MAX_DELTA_BPS] at hle ⊢
    split at hle <;> omega

/-- A point the guard checked keeps the bounds. -/
theorem checkFillPoint_kept {oldCfg newCfg : StakeConfig} {notional fillBps collOld collNew : Nat}
    {loosening looser : Bool}
    (h : checkFillPoint oldCfg newCfg notional fillBps collOld collNew guardBounds false
      = .ok looser) (hlooser : loosening = false → looser = false) :
    ∃ refundOld refundNew,
      refundFracBpsAt oldCfg notional fillBps = .ok refundOld ∧
      refundFracBpsAt newCfg notional fillBps = .ok refundNew ∧
      PenaltyKept loosening collOld collNew refundOld refundNew := by
  simp only [checkFillPoint, bind_eq_ok, checkedSub_eq_ok, checkedMul_eq_ok, require_eq_ok] at h
  obtain ⟨refundOld, hold, refundNew, hnew, _, ⟨-, rfl⟩, _, ⟨-, rfl⟩, _, ⟨hle, rfl⟩, _, ⟨-, rfl⟩,
    _, hwithin, _, rfl, h⟩ := h
  obtain ⟨hraised, hlowered⟩ := withinMaxDelta_bounds hwithin
  have hrest : (refundNew < MAX_REFUND_BPS → refundNew ≤ MAX_REFUND_BPS - MIN_PENALTY_BPS) ∧
      decide (penalty collNew refundNew < penalty collOld refundOld) = looser := by
    split at h
    · simp only [bind_eq_ok, checkedSub_eq_ok, require_eq_ok, pure_eq_ok] at h
      obtain ⟨_, ⟨-, rfl⟩, _, hfloor, hflag⟩ := h
      exact ⟨fun _ => hfloor, hflag⟩
    · rename_i hfull
      exact ⟨fun hlt => absurd (Or.inr hlt) hfull, pure_eq_ok.mp h⟩
  refine ⟨refundOld, refundNew, hold, hnew, hraised, hlowered, ?_, fun hfalse => ?_⟩
  · rcases Nat.eq_or_lt_of_le hle with heq | hlt
    · exact Or.inl heq
    · exact Or.inr (hrest.1 hlt)
  · have hflag := hrest.2
    rw [hlooser hfalse, decide_eq_false_iff_not] at hflag
    exact Nat.le_of_not_lt hflag

variable {oldCfg newCfg : StakeConfig} {loosening : Bool} {notional p q : Nat}

/-- The bounds at one ratio are those at another in the same buckets. -/
theorem RatioKept.congr (h : RatioKept oldCfg newCfg loosening notional q) (hp : p < 10000)
    (hq : q < 10000)
    (hsame : ∀ t ∈ oldCfg.ratioThresholds ++ newCfg.ratioThresholds, p < t ↔ q < t) :
    RatioKept oldCfg newCfg loosening notional p := by
  obtain ⟨collOld, collNew, refundOld, refundNew, hcollOld, hcollNew, hold, hnew, hkept⟩ := h
  refine ⟨collOld, collNew, refundOld, refundNew, hcollOld, hcollNew, ?_, ?_, hkept⟩
  · rw [refundFracBpsAt_congr hp hq fun t ht => hsame t (List.mem_append_left _ ht), hold]
  · rw [refundFracBpsAt_congr hp hq fun t ht => hsame t (List.mem_append_right _ ht), hnew]

section Guarded

variable {blk : Block} (hold : validateConfig oldCfg = .ok ())
  (hnew : validateConfig newCfg = .ok ())
  (hguard : guardCheck blk oldCfg newCfg guardBounds = .ok loosening)
  (hmem : notional ∈ sampleNotionals)

include hold hnew hguard hmem

/-- Past every threshold nothing is kept of a stake. -/
theorem ratioKept_full
    (hp : 10000 ≤ p ∨ ∀ t ∈ oldCfg.ratioThresholds ++ newCfg.ratioThresholds, t ≤ p) :
    RatioKept oldCfg newCfg loosening notional p := by
  obtain ⟨collOld, collNew, hcompared⟩ := guardCheck_spec hguard notional hmem
  have hrefundOld : refundFracBpsAt oldCfg notional p = .ok MAX_REFUND_BPS :=
    refundFracBpsAt_full (validate_tabled hold) (by decide)
      (hp.imp_right fun h t ht => h t (List.mem_append_left _ ht))
  have hrefundNew : refundFracBpsAt newCfg notional p = .ok MAX_REFUND_BPS :=
    refundFracBpsAt_full (validate_tabled hnew) (by decide)
      (hp.imp_right fun h t ht => h t (List.mem_append_right _ ht))
  refine ⟨collOld, collNew, _, _, hcompared.old, hcompared.new, hrefundOld, hrefundNew, ?_⟩
  constructor <;> simp [penalty]

omit hold hnew in
/-- The ratios below a threshold of at most 10000 bps are sampled. -/
theorem ratioKept_sampled
    (hp : ∃ t ∈ oldCfg.ratioThresholds ++ newCfg.ratioThresholds, p < t ∧ t ≤ 10000) :
    RatioKept oldCfg newCfg loosening notional p := by
  obtain ⟨t₀, ht₀, hlt₀, hle₀⟩ := hp
  obtain ⟨t, ht, hle, hleast, hsame⟩ := exists_edge ⟨t₀, ht₀, hlt₀⟩
  have htle := hleast t₀ ht₀ hlt₀
  have hedge : edge t < 10000 := by
    unfold edge
    split <;> omega
  obtain ⟨collOld, collNew, hcompared⟩ := guardCheck_spec hguard notional hmem
  obtain ⟨looser, hpoint, hlooser⟩ := hcompared.points _ (edge_mem ht)
  obtain ⟨refundOld, refundNew, hrefundOld, hrefundNew, hkept⟩ := checkFillPoint_kept hpoint hlooser
  have hkeptEdge : RatioKept oldCfg newCfg loosening notional (edge t) :=
    ⟨collOld, collNew, refundOld, refundNew, hcompared.old, hcompared.new, hrefundOld, hrefundNew,
      hkept⟩
  exact hkeptEdge.congr (by omega) hedge hsame

end Guarded

/-- **The sampled ratios are exhaustive** exactly when no ratio threshold of
either configuration exceeds 10000 bps, or else the bounds hold at 9999 bps
too. -/
theorem ratios_kept_iff {blk : Block} (hold : validateConfig oldCfg = .ok ())
    (hnew : validateConfig newCfg = .ok ())
    (hguard : guardCheck blk oldCfg newCfg guardBounds = .ok loosening) :
    (∀ notional ∈ sampleNotionals, ∀ fillBps, fillBps ≤ 10000 →
      RatioKept oldCfg newCfg loosening notional fillBps) ↔
    (∀ t ∈ oldCfg.ratioThresholds ++ newCfg.ratioThresholds, t ≤ 10000) ∨
      ∀ notional ∈ sampleNotionals, RatioKept oldCfg newCfg loosening notional 9999 := by
  constructor
  · exact fun h => Or.inr fun notional hmem => h notional hmem 9999 (by decide)
  · intro h notional hmem p hp
    by_cases hsampled : ∃ t ∈ oldCfg.ratioThresholds ++ newCfg.ratioThresholds, p < t ∧ t ≤ 10000
    · exact ratioKept_sampled hguard hmem hsampled
    · have habove : ∀ t ∈ oldCfg.ratioThresholds ++ newCfg.ratioThresholds, p < t → 10000 < t :=
        fun t ht hlt => Nat.lt_of_not_le fun hle => hsampled ⟨t, ht, hlt, hle⟩
      rcases Nat.eq_or_lt_of_le hp with rfl | hlt
      · exact ratioKept_full hold hnew hguard hmem (Or.inl (Nat.le_refl _))
      · rcases h with hnarrow | hedge
        · refine ratioKept_full hold hnew hguard hmem (Or.inr fun t ht => ?_)
          by_contra hgt
          exact absurd (habove t ht (Nat.lt_of_not_le hgt)) (Nat.not_lt.mpr (hnarrow t ht))
        · -- no threshold separates the ratio from 9999
          refine (hedge notional hmem).congr hlt (by decide)
            fun t ht => ⟨fun hpt => ?_, fun h => ?_⟩
          · exact Nat.lt_trans (by decide) (habove t ht hpt)
          · omega

/-- A floor of 1 wei keeps the bounds one basis point below a full fill. -/
theorem ratios_kept_floored :
    RatioKept defaultStakeConfig { defaultStakeConfig with minCollateral := 1 } false
      (5 * 10 ^ 17) 9999 := by
  have hguard : guardCheck ⟨1000, 86400⟩ defaultStakeConfig
      { defaultStakeConfig with minCollateral := 1 } guardBounds = .ok false := by
    decide +kernel
  have hkept := (ratios_kept_iff validateConfig_default (by decide +kernel) hguard).mpr
    (Or.inl (by decide))
  exact hkept _ (by decide +kernel) _ (by decide)

/-- A configuration that refunds in full only what is delivered in full: its
last threshold is above 10000 bps. -/
def wideRatios : StakeConfig :=
  { defaultStakeConfig with
    collateralRate := [2400, 5000, 10000, 30000]
    ratioThresholds := [200, 1000, 3000, 7000, 10001]
    refundTable :=
      [500, 1000, 2500, 5000, 5000, 10000,
       333, 1000, 2000, 5000, 5000, 10000,
       100, 333, 1000, 3333, 3333, 10000,
       100, 200, 667, 2000, 2000, 10000] }

/-- Back to a full refund from 7000 bps on: the guard sees no change, and at
9999 bps a penalty of half the stake is gone. -/
theorem ratios_not_kept_wide :
    validateConfig wideRatios = .ok () ∧
    validateConfig { defaultStakeConfig with collateralRate := [2400, 5000, 10000, 30000] }
      = .ok () ∧
    guardCheck ⟨1000, 86400⟩ wideRatios
      { defaultStakeConfig with collateralRate := [2400, 5000, 10000, 30000] } guardBounds
      = .ok false ∧
    ¬RatioKept wideRatios
      { defaultStakeConfig with collateralRate := [2400, 5000, 10000, 30000] } false
      (5 * 10 ^ 17) 9999 := by
  refine ⟨by decide +kernel, by decide +kernel, by decide +kernel, ?_⟩
  rintro ⟨collOld, collNew, refundOld, refundNew, hcollOld, -, hold, hnew, hkept⟩
  have hcoll : sampledCollateral wideRatios (5 * 10 ^ 17) = .ok (12 * 10 ^ 16) := by decide +kernel
  have hhalf : refundFracBpsAt wideRatios (5 * 10 ^ 17) 9999 = .ok 5000 := by decide +kernel
  have hfull : refundFracBpsAt
      { defaultStakeConfig with collateralRate := [2400, 5000, 10000, 30000] } (5 * 10 ^ 17) 9999
      = .ok 10000 := by decide +kernel
  obtain rfl : 12 * 10 ^ 16 = collOld := Except.ok.inj (hcoll.symm.trans hcollOld)
  obtain rfl : 5000 = refundOld := Except.ok.inj (hhalf.symm.trans hold)
  obtain rfl : 10000 = refundNew := Except.ok.inj (hfull.symm.trans hnew)
  have htighter := hkept.tighter rfl
  simp [penalty, MAX_REFUND_BPS] at htighter

end FillAuction

end NeutronX
