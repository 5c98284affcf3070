import NeutronX.ConfigGovernance
import NeutronX.StakeTables

/-!
# What applies at once

A proposal the guard does not find loosening goes live in the transaction
that makes it. The guard compares required stakes for one deadline, so far
away that it is in the first time bucket of either configuration, as long
as no time threshold is that far out. The stake of a later bucket is the
product of a rate and another multiplier, and no comparison reads it.

A required stake depends on the deadline through the time bucket alone
(`requiredStake_cell`), and a bucket of a validated configuration is a
range of blocks left. So the proposal asks for no less at any deadline
exactly when it asks for no less in each pair of buckets whose ranges
meet, the sampled pair aside.
-/

namespace NeutronX

open Evm

namespace DynamicStakeLib

/-! ## Time buckets are ranges -/

/-- The bucket of a deadline `left` blocks away. -/
def timeBucket (thresholds : List Nat) (left : Nat) : Nat :=
  thresholds.findIdx fun t => t < left

theorem getTimeBucket_eq {blk : Block} {deadline : Nat} {thresholds : List Nat}
    (h : thresholds.length < 2 ^ 8) :
    getTimeBucket blk deadline thresholds = timeBucket thresholds (deadline - blk.number) := by
  have hcast : toUint 8 (timeBucket thresholds (deadline - blk.number))
      = timeBucket thresholds (deadline - blk.number) :=
    toUint_of_lt (Nat.lt_of_le_of_lt List.findIdx_le_length h)
  by_cases hpassed : deadline ≤ blk.number
  · have hlast : timeBucket thresholds (deadline - blk.number) = thresholds.length := by
      rw [timeBucket, Nat.sub_eq_zero_of_le hpassed]
      exact List.findIdx_eq_length_of_false fun t _ => by simp
    rw [getTimeBucket, if_pos hpassed, hlast, toUint_of_lt h]
  · rw [getTimeBucket, if_neg hpassed]
    exact hcast

/-- The fewest blocks left of bucket `i`. -/
def firstLeft (thresholds : List Nat) (i : Nat) : Nat :=
  match thresholds[i]? with
  | some t => t + 1
  | none => 0

/-- The most blocks left of bucket `i`, of no more than `cap`. -/
def lastLeft (cap : Nat) (thresholds : List Nat) : Nat → Nat
  | 0 => cap
  | i + 1 => min cap (thresholds.getD i 0)

theorem lastLeft_le (cap : Nat) (thresholds : List Nat) : ∀ i, lastLeft cap thresholds i ≤ cap
  | 0 => Nat.le_refl _
  | _ + 1 => Nat.min_le_left _ _

/-- The thresholds before bucket `i` are at least the one next to it. -/
theorem le_lastLeft_iff {cap : Nat} {thresholds : List Nat} (hdec : thresholds.Pairwise (· > ·))
    {left i : Nat} (hleft : left ≤ cap) (hi : i ≤ thresholds.length) :
    left ≤ lastLeft cap thresholds i ↔
      ∀ j (hj : j < thresholds.length), j < i → left ≤ thresholds[j] := by
  cases i with
  | zero => simpa [lastLeft] using hleft
  | succ i =>
      have hget : thresholds.getD i 0 = thresholds[i] := by
        simp [List.getD_eq_getElem?_getD, List.getElem?_eq_getElem (show i < _ from hi)]
      rw [lastLeft, hget, Nat.le_min]
      constructor
      · rintro ⟨-, hle⟩ j hj hlt
        rcases Nat.eq_or_lt_of_le (Nat.le_of_lt_succ hlt) with rfl | hlt
        · exact hle
        · have hgt := List.pairwise_iff_getElem.mp hdec j i hj hi hlt
          exact Nat.le_trans hle (Nat.le_of_lt hgt)
      · exact fun h => ⟨hleft, h i hi (Nat.lt_succ_self i)⟩

theorem timeBucket_eq_iff {cap : Nat} {thresholds : List Nat}
    (hdec : thresholds.Pairwise (· > ·)) {left i : Nat} (hleft : left ≤ cap)
    (hi : i ≤ thresholds.length) :
    timeBucket thresholds left = i ↔
      firstLeft thresholds i ≤ left ∧ left ≤ lastLeft cap thresholds i := by
  rw [le_lastLeft_iff hdec hleft hi]
  rcases Nat.eq_or_lt_of_le hi with rfl | hlt
  · have hnone : firstLeft thresholds thresholds.length = 0 := by simp [firstLeft]
    rw [timeBucket, List.findIdx_eq_length, hnone]
    constructor
    · exact fun h => ⟨Nat.zero_le _, fun j hj _ => by
        simpa using h thresholds[j] (List.getElem_mem hj)⟩
    · rintro ⟨-, h⟩ t ht
      obtain ⟨j, hj, rfl⟩ := List.getElem_of_mem ht
      simpa using h j hj hj
  · have hsome : firstLeft thresholds i = thresholds[i] + 1 := by
      simp [firstLeft, List.getElem?_eq_getElem hlt]
    rw [timeBucket, List.findIdx_eq hlt, hsome]
    simp only [decide_eq_true_eq, decide_eq_false_iff_not, Nat.not_lt]
    constructor
    · exact fun ⟨h, h'⟩ => ⟨h, fun j _ hji => h' j hji⟩
    · exact fun ⟨h, h'⟩ => ⟨h, fun j hji => h' j (by omega) hji⟩

/-- Two buckets have a number of blocks left in common, of no more than
`cap`. -/
def RangesMeet (cap : Nat) (oldThresholds newThresholds : List Nat) (i j : Nat) : Prop :=
  max (firstLeft oldThresholds i) (firstLeft newThresholds j)
    ≤ min (lastLeft cap oldThresholds i) (lastLeft cap newThresholds j)

instance (cap : Nat) (oldThresholds newThresholds : List Nat) (i j : Nat) :
    Decidable (RangesMeet cap oldThresholds newThresholds i j) :=
  inferInstanceAs (Decidable (_ ≤ _))

theorem rangesMeet_iff {cap : Nat} {oldThresholds newThresholds : List Nat}
    (hold : oldThresholds.Pairwise (· > ·)) (hnew : newThresholds.Pairwise (· > ·)) {i j : Nat}
    (hi : i ≤ oldThresholds.length) (hj : j ≤ newThresholds.length) :
    RangesMeet cap oldThresholds newThresholds i j ↔ ∃ left, left ≤ cap ∧
      timeBucket oldThresholds left = i ∧ timeBucket newThresholds left = j := by
  constructor
  · intro h
    have hle := Nat.le_min.mp h
    have hcap : max (firstLeft oldThresholds i) (firstLeft newThresholds j) ≤ cap :=
      Nat.le_trans hle.1 (lastLeft_le cap oldThresholds i)
    refine ⟨_, hcap, ?_, ?_⟩
    · exact (timeBucket_eq_iff hold hcap hi).mpr ⟨Nat.le_max_left _ _, hle.1⟩
    · exact (timeBucket_eq_iff hnew hcap hj).mpr ⟨Nat.le_max_right _ _, hle.2⟩
  · rintro ⟨left, hleft, hi', hj'⟩
    obtain ⟨hi₁, hi₂⟩ := (timeBucket_eq_iff hold hleft hi).mp hi'
    obtain ⟨hj₁, hj₂⟩ := (timeBucket_eq_iff hnew hleft hj).mp hj'
    exact Nat.le_trans (Nat.max_le.mpr ⟨hi₁, hj₁⟩) (Nat.le_min.mpr ⟨hi₂, hj₂⟩)

/-! ## The stake of a cell -/

/-- The stake of a notional in time bucket `t`. -/
def cellStake (cfg : StakeConfig) (notionalEth t : Nat) : Except Revert Nat := do
  let rateBps ← getAt cfg.collateralRate (getOrderSizeBucketETH notionalEth cfg.sizeThresholds)
  let timeMult ← getAt cfg.timeMult t
  let base ← mulDiv notionalEth rateBps 10000
  let required ← mulDiv base timeMult 10000
  return if required < cfg.minCollateral then cfg.minCollateral else required

theorem requiredStake_cell {blk : Block} {cfg : StakeConfig} {notionalEth deadline : Nat}
    (h : cfg.timeThresholds.length < 2 ^ 8) :
    requiredStake blk cfg notionalEth deadline
      = cellStake cfg notionalEth (timeBucket cfg.timeThresholds (deadline - blk.number)) := by
  simp only [requiredStake, computeCollateral, cellStake, getTimeBucket_eq h, bind_assoc]

/-- Where both are computed, the second is no less. -/
def NoLess (x y : Except Revert Nat) : Prop := ∀ a b, x = .ok a → y = .ok b → a ≤ b

instance NoLess.decidable : (x y : Except Revert Nat) → Decidable (NoLess x y)
  | .ok a, .ok b => decidable_of_iff (a ≤ b)
      ⟨fun h _ _ ha hb => Except.ok.inj ha ▸ Except.ok.inj hb ▸ h, fun h => h a b rfl rfl⟩
  | .error _, _ => isTrue fun _ _ ha _ => nomatch ha
  | .ok _, .error _ => isTrue fun _ _ _ hb => nomatch hb

end DynamicStakeLib

namespace FillAuction

open DynamicStakeLib

/-- The tables of a validated configuration are shorter than a byte counts. -/
theorem tabled_of_valid {c : StakeConfig} (h : validateConfig c = .ok ()) :
    Tabled c MAX_REFUND_BPS MAX_BUCKETS :=
  validate_tabled h

theorem timeThresholds_short {c : StakeConfig} (h : Tabled c MAX_REFUND_BPS MAX_BUCKETS) :
    c.timeThresholds.length < 2 ^ 8 := by
  have hbuckets : c.timeMult.length ≤ 16 := h.timeBuckets
  have htimes := h.times
  omega

variable {κ : Type} {blk : Block} {s : AuctionState κ} {msgSender : Address} {c : StakeConfig}

/-- A proposal that is applied in its own transaction was validated, and the
guard did not find it loosening. -/
theorem applied_spec (h : setStakeConfig blk s msgSender c = .ok (applyConfig blk s c)) :
    validateConfig c = .ok () ∧ guardCheck blk s.config c guardBounds = .ok false := by
  simp only [setStakeConfig, bind_eq_ok, requireCustom_eq_ok] at h
  obtain ⟨_, -, _, -, _, hfree, _, hvalid, loosening, hguard, h⟩ := h
  refine ⟨hvalid, ?_⟩
  cases loosening with
  | false => exact hguard
  | true =>
      simp only [if_true, queueConfig, bind_eq_ok, pure_eq_ok] at h
      obtain ⟨effective, -, heq⟩ := h
      -- queueing emits one event, applying another
      have hevents := congrArg AuctionState.events heq
      simp [applyConfig, emit] at hevents

/-- The time buckets the guard samples. -/
def sampledBuckets (oldCfg newCfg : StakeConfig) : Nat × Nat :=
  (timeBucket oldCfg.timeThresholds refBlocks, timeBucket newCfg.timeThresholds refBlocks)

/-- The most blocks that can be left of a deadline in block `blk`. -/
def maxLeft (blk : Block) : Nat := maxUint 256 - blk.number

/-- **What applies at once tightens** exactly when no time bucket the guard
leaves out asks for less: from the change on the stake for a notional of
the grid is at no deadline less than it was, if and only if it is not in
any pair of an old and a new time bucket whose ranges meet, other than the
pair sampled. -/
theorem applied_tightens_iff (hlive : validateConfig s.config = .ok ())
    (happlied : setStakeConfig blk s msgSender c = .ok (applyConfig blk s c)) :
    (∀ notional ∈ sampleNotionals, ∀ blk' : Block, blk.number ≤ blk'.number →
      ∀ deadline, deadline ≤ maxUint 256 →
        NoLess (requiredStake blk' s.config notional deadline)
          (requiredStake blk' c notional deadline)) ↔
    ∀ notional ∈ sampleNotionals, ∀ i, i ≤ s.config.timeThresholds.length →
      ∀ j, j ≤ c.timeThresholds.length →
        RangesMeet (maxLeft blk) s.config.timeThresholds c.timeThresholds i j →
        (i, j) ≠ sampledBuckets s.config c →
          NoLess (cellStake s.config notional i) (cellStake c notional j) := by
  obtain ⟨hvalid, hguard⟩ := applied_spec happlied
  have hold := tabled_of_valid hlive
  have hnew := tabled_of_valid hvalid
  have hcell : ∀ (blk' : Block) (notional deadline : Nat),
      requiredStake blk' s.config notional deadline = cellStake s.config notional
        (timeBucket s.config.timeThresholds (deadline - blk'.number)) ∧
      requiredStake blk' c notional deadline = cellStake c notional
        (timeBucket c.timeThresholds (deadline - blk'.number)) := fun blk' notional deadline =>
    ⟨requiredStake_cell (timeThresholds_short hold), requiredStake_cell (timeThresholds_short hnew)⟩
  constructor
  · intro h notional hmem i hi j hj hmeet _
    obtain ⟨left, hleft, rfl, rfl⟩ :=
      (rangesMeet_iff hold.timeDecreasing hnew.timeDecreasing hi hj).mp hmeet
    have hword : blk.number + left ≤ maxUint 256 := by
      have hblk : blk.number + refBlocks ≤ maxUint 256 :=
        le_maxUint.mpr (guardCheck_block hguard)
      rw [maxLeft] at hleft
      omega
    have hstake := h notional hmem blk (Nat.le_refl _) (blk.number + left) hword
    rwa [(hcell _ _ _).1, (hcell _ _ _).2, Nat.add_sub_cancel_left] at hstake
  · intro h notional hmem blk' hblk deadline hdeadline
    rw [(hcell _ _ _).1, (hcell _ _ _).2]
    generalize hleft : deadline - blk'.number = left
    by_cases hsampled : (timeBucket s.config.timeThresholds left, timeBucket c.timeThresholds left)
        = sampledBuckets s.config c
    · -- the pair the guard compared
      obtain ⟨collOld, collNew, hcompared⟩ := guardCheck_spec hguard notional hmem
      have hstakeOld := hcompared.old
      have hstakeNew := hcompared.new
      rw [(hcell _ _ _).1, Nat.sub_zero, ← (Prod.mk.inj hsampled).1] at hstakeOld
      rw [(hcell _ _ _).2, Nat.sub_zero, ← (Prod.mk.inj hsampled).2] at hstakeNew
      intro a b ha hb
      obtain rfl : collOld = a := Except.ok.inj (hstakeOld.symm.trans ha)
      obtain rfl : collNew = b := Except.ok.inj (hstakeNew.symm.trans hb)
      exact hcompared.tighter rfl
    · have hcap : left ≤ maxLeft blk := by
        rw [maxLeft]
        omega
      have hmeet : RangesMeet (maxLeft blk) s.config.timeThresholds c.timeThresholds
          (timeBucket s.config.timeThresholds left) (timeBucket c.timeThresholds left) :=
        (rangesMeet_iff hold.timeDecreasing hnew.timeDecreasing List.findIdx_le_length
          List.findIdx_le_length).mpr ⟨left, hcap, rfl, rfl⟩
      exact h notional hmem _ List.findIdx_le_length _ List.findIdx_le_length hmeet hsampled

section Runs

/-- The auction whose parameters account 2 administers. -/
def administered : AuctionState Unit :=
  { deployed 1 with roles := update₂ (deployed (κ := Unit) 1).roles .paramAdmin 2 true }

/-- How a proposal is seen to apply at once. -/
theorem applied_of_guard (hrole : s.roles .paramAdmin msgSender = true)
    (hfirst : s.lastChange = 0) (hfree : isEmptyConfig s.pending = true)
    (hvalid : validateConfig c = .ok ())
    (hguard : guardCheck blk s.config c guardBounds = .ok false) :
    setStakeConfig blk s msgSender c = .ok (applyConfig blk s c) := by
  simp only [setStakeConfig, bind_eq_ok]
  refine ⟨(), by simp [onlyRole, hrole], (), by simp [checkCooldown, hfirst]; rfl, (), ?_, (),
    hvalid, false, hguard, rfl⟩
  simp [hfree]

/-- A higher floor of the stake is applied at once, and asks for no less
one block before a deadline. -/
theorem floored_applied :
    setStakeConfig ⟨1000, 86400⟩ administered 2 { defaultStakeConfig with minCollateral := 1 }
      = .ok (applyConfig ⟨1000, 86400⟩ administered
          { defaultStakeConfig with minCollateral := 1 }) ∧
    NoLess (requiredStake ⟨1000, 86400⟩ defaultStakeConfig (5 * 10 ^ 17) 1001)
      (requiredStake ⟨1000, 86400⟩ { defaultStakeConfig with minCollateral := 1 } (5 * 10 ^ 17)
        1001) := by
  have happlied : setStakeConfig ⟨1000, 86400⟩ administered 2
      { defaultStakeConfig with minCollateral := 1 }
      = .ok (applyConfig ⟨1000, 86400⟩ administered
          { defaultStakeConfig with minCollateral := 1 }) :=
    applied_of_guard rfl rfl rfl (by decide +kernel) (by decide +kernel)
  have htightens := (applied_tightens_iff validateConfig_default happlied).mpr (by decide +kernel)
  exact ⟨happlied, htightens _ (by decide +kernel) _ (Nat.le_refl _) _ (by decide)⟩

/-- The default configuration with the multiplier of every time bucket
lowered to that of the first. -/
def flatTimes : StakeConfig :=
  { defaultStakeConfig with timeMult := [10000, 10000, 10000, 10000] }

/-- From 5 times the notional's rate one block before the deadline down to
the rate itself, in the transaction of the proposal. -/
theorem flatTimes_applied :
    (validateConfig administered.config = .ok () ∧
      setStakeConfig ⟨1000, 86400⟩ administered 2 flatTimes
        = .ok (applyConfig ⟨1000, 86400⟩ administered flatTimes)) ∧
    requiredStake ⟨1000, 86400⟩ administered.config (5 * 10 ^ 17) 1001 = .ok (5 * 10 ^ 17) ∧
    requiredStake ⟨1000, 86400⟩ flatTimes (5 * 10 ^ 17) 1001 = .ok (10 ^ 17) :=
  ⟨⟨validateConfig_default,
    applied_of_guard rfl rfl rfl (by decide +kernel) (by decide +kernel)⟩,
    by decide +kernel, by decide +kernel⟩

end Runs

end FillAuction

end NeutronX
