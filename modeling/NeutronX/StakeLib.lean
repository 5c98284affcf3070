import NeutronX.Evm.Checked

/-!
# DynamicStakeLib

The economics of a filler's stake: which bucket a notional, a deadline or
a fill ratio falls in, the collateral a registration needs, the share of
it a settlement returns, and the checks a new configuration must pass
before `FillAuction` installs it.

A `StakeConfig` is a record of arrays whose lengths are data. Reads are
the checked reads of the source, so a table of the wrong shape panics
here where it panics there; `uint8` casts of bucket indices are kept.
-/

namespace NeutronX

open Evm

/-- The block a transaction runs in. -/
structure Block where
  number : Nat
  timestamp : Nat
deriving DecidableEq, Repr

structure StakeConfig where
  /-- ETH wei, strictly increasing; `S - 1` entries for `S` size buckets -/
  sizeThresholds : List Nat
  /-- bps of notional, one per size bucket -/
  collateralRate : List Nat
  /-- blocks left, strictly decreasing; `T - 1` entries for `T` time buckets -/
  timeThresholds : List Nat
  /-- bps, one per time bucket -/
  timeMult : List Nat
  /-- bps of fill ratio, strictly increasing; `R - 1` entries for `R` ratio buckets -/
  ratioThresholds : List Nat
  /-- bps of stake, row-major: `refundTable[s * R + r]` -/
  refundTable : List Nat
  minCollateral : Nat
deriving DecidableEq, Repr

namespace DynamicStakeLib

/-- The zero value of the struct, which the auction uses for "none". -/
def emptyConfig : StakeConfig := ⟨[], [], [], [], [], [], 0⟩

def defaultStakeConfig : StakeConfig where
  sizeThresholds := [1 * 10 ^ 18, 10 * 10 ^ 18, 100 * 10 ^ 18]
  collateralRate := [2000, 5000, 10000, 30000]
  timeThresholds := [50, 20, 5]
  timeMult := [10000, 15000, 30000, 50000]
  ratioThresholds := [200, 1000, 3000, 7000]
  refundTable :=
    [500, 1000, 2500, 5000, 10000,
     333, 1000, 2000, 5000, 10000,
     100, 333, 1000, 3333, 10000,
     100, 200, 667, 2000, 10000]
  minCollateral := 0

/-! ## Buckets

Each loop of the source returns the index of the first threshold that
passes its test, or the number of thresholds: `List.findIdx`. -/

def getOrderSizeBucketETH (notionalEth : Nat) (sizeThresholds : List Nat) : Nat :=
  toUint 8 (sizeThresholds.findIdx fun t => notionalEth < t)

def getFillRatioBucket (fill total : Nat) (ratioThresholds : List Nat) :
    Except Revert Nat := do
  if total ≤ fill then
    return toUint 8 ratioThresholds.length
  let scaled ← checkedMul fill 10000
  let pctBps := scaled / total
  return toUint 8 (ratioThresholds.findIdx fun t => pctBps < t)

def getTimeBucket (blk : Block) (deadline : Nat) (timeThresholds : List Nat) : Nat :=
  if deadline ≤ blk.number then
    toUint 8 timeThresholds.length
  else
    let left := deadline - blk.number
    toUint 8 (timeThresholds.findIdx fun t => t < left)

theorem toUint8_findIdx_le (xs : List Nat) (p : Nat → Bool) :
    toUint 8 (xs.findIdx p) ≤ xs.length :=
  Nat.le_trans (toUint_le _ _) List.findIdx_le_length

theorem getFillRatioBucket_le {fill total : Nat} {thresholds : List Nat} {b : Nat}
    (h : getFillRatioBucket fill total thresholds = .ok b) : b ≤ thresholds.length := by
  unfold getFillRatioBucket at h
  split at h
  · obtain rfl := pure_eq_ok.mp h
    exact toUint_le _ _
  · simp only [bind_eq_ok, pure_eq_ok] at h
    obtain ⟨_, -, rfl⟩ := h
    exact toUint8_findIdx_le _ _

/-! ## Registration and settlement -/

/-- `computeCollateral` and its memory twin `computeCollateralMemory`,
which differ in the location of `cfg` only. -/
def computeCollateral (blk : Block) (notionalEth deadline : Nat) (cfg : StakeConfig) :
    Except Revert Nat := do
  let sBucket := getOrderSizeBucketETH notionalEth cfg.sizeThresholds
  let tBucket := getTimeBucket blk deadline cfg.timeThresholds
  let rateBps ← getAt cfg.collateralRate sBucket
  let timeMult ← getAt cfg.timeMult tBucket
  let base ← mulDiv notionalEth rateBps 10000
  mulDiv base timeMult 10000

/-- The collateral with the absolute floor applied. -/
def requiredStake (blk : Block) (cfg : StakeConfig) (notionalEth deadline : Nat) :
    Except Revert Nat := do
  let required ← computeCollateral blk notionalEth deadline cfg
  return if required < cfg.minCollateral then cfg.minCollateral else required

/-- What a registration takes from the live config. -/
structure Snapshot where
  required : Nat
  refundRow : List Nat
  ratioSnapshot : List Nat
deriving DecidableEq, Repr

def computeRegistration (blk : Block) (cfg : StakeConfig) (notionalEth deadline : Nat) :
    Except Revert Snapshot := do
  let required ← requiredStake blk cfg notionalEth deadline
  let sBucket := getOrderSizeBucketETH notionalEth cfg.sizeThresholds
  let R := cfg.ratioThresholds.length + 1
  let refundRow ← copyRange cfg.refundTable (sBucket * R) R
  return ⟨required, refundRow, cfg.ratioThresholds⟩

/-- The refunds of a snapshot are refunds of the config it is taken from. -/
theorem computeRegistration_row {blk : Block} {cfg : StakeConfig} {notionalEth deadline : Nat}
    {snap : Snapshot} (h : computeRegistration blk cfg notionalEth deadline = .ok snap) :
    ∀ v ∈ snap.refundRow, v ∈ cfg.refundTable := by
  simp only [computeRegistration, bind_eq_ok, pure_eq_ok] at h
  obtain ⟨_, -, row, hrow, rfl⟩ := h
  exact mem_of_copyRange hrow

/-- A snapshot has one refund more than it has thresholds: its own shape,
whatever the shape of the live config becomes later. -/
theorem computeRegistration_shape {blk : Block} {cfg : StakeConfig} {notionalEth deadline : Nat}
    {snap : Snapshot} (h : computeRegistration blk cfg notionalEth deadline = .ok snap) :
    snap.refundRow.length = snap.ratioSnapshot.length + 1 := by
  simp only [computeRegistration, bind_eq_ok, pure_eq_ok] at h
  obtain ⟨_, -, row, hrow, rfl⟩ := h
  exact copyRange_length hrow

def computeRefund (stakeAmount actualFillAmount committedFill : Nat)
    (refundRow ratioThresholds : List Nat) : Except Revert Nat := do
  let rBucket ← getFillRatioBucket actualFillAmount committedFill ratioThresholds
  let refundBps ← getAt refundRow rBucket
  mulDiv stakeAmount refundBps 10000

/-- On a row of the right shape the bucket read of a settlement is in bounds. -/
theorem computeRefund_ne_outOfBounds {stake actual committed : Nat} {row thresholds : List Nat}
    (hshape : row.length = thresholds.length + 1) :
    computeRefund stake actual committed row thresholds ≠ .error (.panic .outOfBounds) := by
  unfold computeRefund
  cases hb : getFillRatioBucket actual committed thresholds with
  | error e =>
      -- the only revert of the bucket function is the overflow of `fill * 10000`
      have hmul : e = .panic .arithmetic := by
        unfold getFillRatioBucket at hb
        split at hb
        · cases hb
        · unfold checkedMul at hb
          split at hb <;> cases hb
          rfl
      subst hmul
      simp [bind, Except.bind]
  | ok b =>
      have hlt : b < row.length := by
        have := getFillRatioBucket_le hb
        omega
      simp only [bind, Except.bind, getAt_of_lt hlt, mulDiv]
      split <;> simp

/-- The bucket function only fails on the product of the fill. -/
theorem getFillRatioBucket_eq_ok {fill total : Nat} {thresholds : List Nat}
    (h : fill * 10000 < wordSize) : ∃ b, getFillRatioBucket fill total thresholds = .ok b := by
  unfold getFillRatioBucket
  split
  · exact ⟨_, rfl⟩
  · have hscaled : checkedMul fill 10000 = .ok (fill * 10000) :=
      checkedMul_eq_ok.mpr ⟨h, rfl⟩
    rw [hscaled]
    exact ⟨_, rfl⟩

/-- A refund against a row of the right shape that refunds at most 100% is
computed, and is at most the stake. -/
theorem computeRefund_succeeds {stake actual committed : Nat} {row thresholds : List Nat}
    (hshape : row.length = thresholds.length + 1) (hrow : ∀ v ∈ row, v ≤ 10000)
    (hactual : actual * 10000 < wordSize) (hstake : stake < wordSize) :
    ∃ refund, computeRefund stake actual committed row thresholds = .ok refund ∧
      refund ≤ stake := by
  obtain ⟨b, hb⟩ : ∃ b, getFillRatioBucket actual committed thresholds = .ok b :=
    getFillRatioBucket_eq_ok hactual
  have hlt : b < row.length := by
    have hle := getFillRatioBucket_le hb
    omega
  have hle : stake * row[b] / 10000 ≤ stake := mul_div_le_left (hrow _ (List.getElem_mem hlt))
  refine ⟨stake * row[b] / 10000, ?_, hle⟩
  simp only [computeRefund, bind_eq_ok]
  exact ⟨b, hb, row[b], getAt_of_lt hlt,
    mulDiv_eq_ok.mpr ⟨⟨by decide, Nat.lt_of_le_of_lt hle hstake⟩, rfl⟩⟩

/-! ## The worst-case kappa floor -/

/-- The last of the first `k` entries of row `s` that refunds less than
100%, searched downwards. -/
def lastNonHonest (cfg : StakeConfig) (s R : Nat) : Nat → Except Revert (Option Nat)
  | 0 => return none
  | k + 1 => do
      let refund ← getAt cfg.refundTable (s * R + k)
      if refund < 10000 then
        return some k
      lastNonHonest cfg s R k

/-- The inner loop over the time buckets `t, t + 1, …` of a row. -/
def kappaOverTimes (rate penalty x worst : Nat) : List Nat → Except Revert Nat
  | [] => return worst
  | mult :: mults => do
      let combined ← mulDiv rate mult 10000
      let kappaBps ← mulDiv combined penalty x
      kappaOverTimes rate penalty x (if kappaBps < worst then kappaBps else worst) mults

/-- The outer loop over the size buckets; `s` is the index of the first
rate of the list. A row without a bucket to protect ends the loop with 0. -/
def kappaOverRows (cfg : StakeConfig) (R : Nat) (s worst : Nat) : List Nat → Except Revert Nat
  | [] => return worst
  | rate :: rates => do
      match ← lastNonHonest cfg s R (R - 1) with
      | none => return 0
      | some i =>
          let x ← getAt cfg.ratioThresholds i
          if x = 0 then
            return 0
          let refund ← getAt cfg.refundTable (s * R + i)
          let penalty ← checkedSub 10000 refund
          let worst ← kappaOverTimes rate penalty x worst cfg.timeMult
          kappaOverRows cfg R (s + 1) worst rates

def worstCaseKappaBps (cfg : StakeConfig) : Except Revert Nat := do
  let R := cfg.ratioThresholds.length + 1
  if R < 2 then
    return 0
  kappaOverRows cfg R 0 (maxUint 256) cfg.collateralRate

/-! ## Validation -/

/-- One refund row: bounded, non-decreasing, ending at `maxRefundBps`. -/
def checkRefundRow (table : List Nat) (maxRefundBps : Nat) :
    (n pos prev : Nat) → Except Revert Unit
  | 0, _, prev => require (prev = maxRefundBps) "refund row must end at 100%"
  | n + 1, pos, prev => do
      let v ← getAt table pos
      require (v ≤ maxRefundBps) "refund > 100%"
      require (prev ≤ v) "refund row not monotonic"
      checkRefundRow table maxRefundBps n (pos + 1) v

def checkIncreasing (xs : List Nat) (msg : String) : Except Revert Unit :=
  forRange 1 (xs.length - 1) fun i => do
    let cur ← getAt xs i
    let prev ← getAt xs (i - 1)
    require (prev < cur) msg

def checkDecreasing (xs : List Nat) (msg : String) : Except Revert Unit :=
  forRange 1 (xs.length - 1) fun i => do
    let cur ← getAt xs i
    let prev ← getAt xs (i - 1)
    require (cur < prev) msg

def validate (c : StakeConfig) (minCollateralRate maxCollateralRate maxRefundBps maxBuckets
    minWorstCaseKappaBps : Nat) : Except Revert Unit := do
  let S := c.collateralRate.length
  let T := c.timeMult.length
  let R := c.ratioThresholds.length + 1
  require (S = c.sizeThresholds.length + 1) "bad size shape"
  require (T = c.timeThresholds.length + 1) "bad time shape"
  require (c.refundTable.length = S * R) "bad refund shape"
  require (1 ≤ S ∧ S ≤ maxBuckets) "bad size bucket count"
  require (1 ≤ T ∧ T ≤ maxBuckets) "bad time bucket count"
  require (1 ≤ R ∧ R ≤ maxBuckets) "bad ratio bucket count"
  checkIncreasing c.sizeThresholds "size thresholds not increasing"
  checkIncreasing c.ratioThresholds "ratio thresholds not increasing"
  checkDecreasing c.timeThresholds "time thresholds not decreasing"
  forRange 0 S fun i => do
    let rate ← getAt c.collateralRate i
    require (minCollateralRate ≤ rate ∧ rate ≤ maxCollateralRate) "rate out of bounds"
  forRange 0 S fun s => checkRefundRow c.refundTable maxRefundBps R (s * R) 0
  let kappa ← worstCaseKappaBps c
  require (minWorstCaseKappaBps ≤ kappa) "kappa floor breached"

/-- A row that was checked refunds at most `maxRefundBps` in each bucket. -/
theorem checkRefundRow_le {table : List Nat} {maxRefundBps : Nat} :
    ∀ {n pos prev : Nat} {u : Unit}, checkRefundRow table maxRefundBps n pos prev = .ok u →
      ∀ j, j < n → ∀ v, table[pos + j]? = some v → v ≤ maxRefundBps
  | 0, _, _, _, _, j, hj, _, _ => absurd hj (Nat.not_lt_zero j)
  | n + 1, pos, prev, u, h, j, hj, v, hv => by
      simp only [checkRefundRow, bind_eq_ok, require_eq_ok, getAt_eq_ok] at h
      obtain ⟨first, hfirst, _, hle, _, -, hrest⟩ := h
      cases j with
      | zero =>
          obtain rfl : first = v := Option.some.inj (hfirst.symm.trans hv)
          exact hle
      | succ j =>
          refine checkRefundRow_le hrest j (Nat.lt_of_succ_lt_succ hj) v ?_
          rw [← hv]
          congr 1
          omega

/-- A config that was validated refunds at most `maxRefundBps` anywhere. -/
theorem validate_refunds_le {c : StakeConfig}
    {minRate maxRate maxRefundBps maxBuckets minKappa : Nat} {u : Unit}
    (h : validate c minRate maxRate maxRefundBps maxBuckets minKappa = .ok u) :
    ∀ v ∈ c.refundTable, v ≤ maxRefundBps := by
  simp only [validate, bind_eq_ok, require_eq_ok] at h
  obtain ⟨_, -, _, -, _, hlength, _, -, _, -, _, -, _, -, _, -, _, -, _, -, _, hrows, -⟩ := h
  intro v hv
  obtain ⟨i, hi, rfl⟩ := List.getElem_of_mem hv
  have hR : 0 < c.ratioThresholds.length + 1 := Nat.succ_pos _
  -- entry `i` is entry `i % R` of row `i / R`
  have hrow : i / (c.ratioThresholds.length + 1) < c.collateralRate.length := by
    rw [Nat.div_lt_iff_lt_mul hR, ← hlength]
    exact hi
  have hchecked := forRange_eq_ok.mp hrows _ (Nat.zero_le _) (by rw [Nat.zero_add]; exact hrow)
  refine checkRefundRow_le hchecked _ (Nat.mod_lt i hR) _ ?_
  rw [Nat.mul_comm, Nat.div_add_mod]
  exact List.getElem?_eq_getElem hi

/-! ## The change guard -/

def withinMaxDelta (newV oldV maxDeltaBps : Nat) : Except Revert Bool := do
  if oldV = 0 then
    return decide (newV = 0)
  let diff := if oldV < newV then newV - oldV else oldV - newV
  let lhs ← checkedMul diff 10000
  let rhs ← checkedMul oldV maxDeltaBps
  return decide (lhs ≤ rhs)

def refundFracBpsAt (cfg : StakeConfig) (notionalEth fillBps : Nat) : Except Revert Nat := do
  let sBucket := getOrderSizeBucketETH notionalEth cfg.sizeThresholds
  let rBucket ← getFillRatioBucket fillBps 10000 cfg.ratioThresholds
  let R := cfg.ratioThresholds.length + 1
  getAt cfg.refundTable (sBucket * R + rBucket)

/-- The bounds of a `guardCheck`. -/
structure GuardBounds where
  maxDeltaBps : Nat
  minPenaltyBps : Nat
  maxRefundBps : Nat

def checkFillPoint (oldCfg newCfg : StakeConfig) (notional fillBps collOld collNew : Nat)
    (g : GuardBounds) (floorAlways : Bool) : Except Revert Bool := do
  let refundOldBps ← refundFracBpsAt oldCfg notional fillBps
  let refundNewBps ← refundFracBpsAt newCfg notional fillBps
  let scaledOld ← checkedMul collOld (← checkedSub g.maxRefundBps refundOldBps)
  let scaledNew ← checkedMul collNew (← checkedSub g.maxRefundBps refundNewBps)
  let penaltyOld := scaledOld / g.maxRefundBps
  let penaltyNew := scaledNew / g.maxRefundBps
  let within ← withinMaxDelta penaltyNew penaltyOld g.maxDeltaBps
  require (within = true) "penalty delta too large"
  if floorAlways ∨ refundNewBps < g.maxRefundBps then
    let cap ← checkedSub g.maxRefundBps g.minPenaltyBps
    require (refundNewBps ≤ cap) "penalty floor breached"
  return decide (penaltyNew < penaltyOld)

def bucketEdgePoints (oldThresholds newThresholds : List Nat) : List Nat :=
  (oldThresholds ++ newThresholds).map fun t => if 0 < t then t - 1 else 0

/-- The fill points sampled at one notional, in the order of the source:
the three fixed ones with an unconditional floor, then the bucket edges. -/
def fillPoints (edgePts : List Nat) : List (Nat × Bool) :=
  [(100, true), (500, true), (2000, true)] ++ edgePts.map fun p => (p, false)

def checkFillPoints (oldCfg newCfg : StakeConfig) (notional collOld collNew : Nat)
    (g : GuardBounds) : List (Nat × Bool) → Bool → Except Revert Bool
  | [], loosening => return loosening
  | (fillBps, floorAlways) :: rest, loosening => do
      let looser ← checkFillPoint oldCfg newCfg notional fillBps collOld collNew g floorAlways
      checkFillPoints oldCfg newCfg notional collOld collNew g rest (loosening || looser)

def sampleNotionals : List Nat := [5 * 10 ^ 17, 5 * 10 ^ 18, 50 * 10 ^ 18, 500 * 10 ^ 18]

def checkNotionals (blk : Block) (refDeadline : Nat) (oldCfg newCfg : StakeConfig)
    (g : GuardBounds) (points : List (Nat × Bool)) : List Nat → Bool → Except Revert Bool
  | [], loosening => return loosening
  | notional :: rest, loosening => do
      let collOld ← requiredStake blk oldCfg notional refDeadline
      let collNew ← requiredStake blk newCfg notional refDeadline
      let within ← withinMaxDelta collNew collOld g.maxDeltaBps
      require (within = true) "collateral delta too large"
      let loosening ← checkFillPoints oldCfg newCfg notional collOld collNew g points
        (loosening || decide (collNew < collOld))
      checkNotionals blk refDeadline oldCfg newCfg g points rest loosening

/-- Whether `newCfg` is weaker than `oldCfg` for a filler at some sampled
point; reverts where the change is too large or the penalty too small. -/
def guardCheck (blk : Block) (oldCfg newCfg : StakeConfig) (g : GuardBounds) :
    Except Revert Bool := do
  let refDeadline ← checkedAdd blk.number 10000000
  let points := fillPoints (bucketEdgePoints oldCfg.ratioThresholds newCfg.ratioThresholds)
  checkNotionals blk refDeadline oldCfg newCfg g points sampleNotionals false

/-! ## Deadlines in seconds

The timestamp twins count the time left in seconds where the others count
blocks, and are the same code otherwise: they are the others in a block
that is numbered by its timestamp. -/

def byTimestamp (blk : Block) : Block := { blk with number := blk.timestamp }

def getTimeBucketByTimestamp (blk : Block) (deadline : Nat) (timeThresholds : List Nat) : Nat :=
  getTimeBucket (byTimestamp blk) deadline timeThresholds

def computeCollateralByTimestamp (blk : Block) (notionalEth deadline : Nat) (cfg : StakeConfig) :
    Except Revert Nat :=
  computeCollateral (byTimestamp blk) notionalEth deadline cfg

def requiredStakeByTimestamp (blk : Block) (cfg : StakeConfig) (notionalEth deadline : Nat) :
    Except Revert Nat :=
  requiredStake (byTimestamp blk) cfg notionalEth deadline

end DynamicStakeLib

end NeutronX
