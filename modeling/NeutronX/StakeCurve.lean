import Mathlib.Tactic.Linarith
import NeutronX.TimeGuard

/-!
# The stake over notionals and deadlines

A larger ceiling is never to be cheaper, and neither is a later
registration. `validate` bounds each collateral rate and orders neither
the rates nor the time multipliers, so both depend on the tables.

Within a size bucket the stake is linear in the notional, up to floors.
So it can only fall where a notional crosses a size threshold, and where a
block crosses a time threshold (`stake_monotone_iff`). A stake that is not
computed, because a product outgrows a word, counts as more than any.
-/

namespace NeutronX

open Evm

namespace DynamicStakeLib

/-! ## Stakes compared -/

/-- `x` asks for no more than `y`, where a stake that is not computed is
more than any. -/
def Below (x y : Except Revert Nat) : Prop := ∀ b, y = .ok b → ∃ a, x = .ok a ∧ a ≤ b

theorem Below.refl (x : Except Revert Nat) : Below x x := fun b hb => ⟨b, hb, Nat.le_refl b⟩

theorem Below.trans {x y z : Except Revert Nat} (hxy : Below x y) (hyz : Below y z) :
    Below x z := by
  intro c hc
  obtain ⟨b, hb, hbc⟩ := hyz c hc
  obtain ⟨a, ha, hab⟩ := hxy b hb
  exact ⟨a, ha, Nat.le_trans hab hbc⟩

/-- The collateral of a notional at a rate and a multiplier. -/
def cellCollateral (notionalEth rate mult : Nat) : Nat := notionalEth * rate / 10000 * mult / 10000

/-- Neither of the two products outgrows a word. -/
def Fits (notionalEth rate mult : Nat) : Prop :=
  notionalEth * rate / 10000 < wordSize ∧ cellCollateral notionalEth rate mult < wordSize

/-- The values of a config's fields fit their types. -/
structure Widths (c : StakeConfig) : Prop where
  timeMult : ∀ mult ∈ c.timeMult, mult < 2 ^ 32
  sizeThresholds : ∀ t ∈ c.sizeThresholds, t < wordSize
  minCollateral : c.minCollateral < wordSize

section Cells

variable {c : StakeConfig} {N N' i j rate rate' mult mult' : Nat}

theorem cellStake_eq_ok {b : Nat} (hrate :
    c.collateralRate[getOrderSizeBucketETH N c.sizeThresholds]? = some rate)
    (hmult : c.timeMult[j]? = some mult) :
    cellStake c N j = .ok b ↔
      Fits N rate mult ∧ max c.minCollateral (cellCollateral N rate mult) = b := by
  have hmax : ∀ x : Nat, (if x < c.minCollateral then c.minCollateral else x)
      = max c.minCollateral x := by
    intro x
    split <;> omega
  simp only [cellStake, bind_eq_ok, getAt_eq_ok, mulDiv_eq_ok, pure_eq_ok, hrate, hmult, hmax,
    Option.some.injEq, exists_eq_left']
  constructor
  · rintro ⟨_, ⟨⟨-, hbase⟩, rfl⟩, _, ⟨⟨-, hrequired⟩, rfl⟩, hb⟩
    exact ⟨⟨hbase, hrequired⟩, hb⟩
  · rintro ⟨⟨hbase, hrequired⟩, hb⟩
    exact ⟨_, ⟨⟨by decide, hbase⟩, rfl⟩, _, ⟨⟨by decide, hrequired⟩, rfl⟩, hb⟩

/-- One cell asks for no more than another. -/
theorem below_iff
    (hrate : c.collateralRate[getOrderSizeBucketETH N c.sizeThresholds]? = some rate)
    (hmult : c.timeMult[i]? = some mult)
    (hrate' : c.collateralRate[getOrderSizeBucketETH N' c.sizeThresholds]? = some rate')
    (hmult' : c.timeMult[j]? = some mult') :
    Below (cellStake c N i) (cellStake c N' j) ↔ (Fits N' rate' mult' → Fits N rate mult ∧
      cellCollateral N rate mult ≤ max c.minCollateral (cellCollateral N' rate' mult')) := by
  constructor
  · intro h hfits
    obtain ⟨a, ha, hle⟩ := h _ ((cellStake_eq_ok hrate' hmult').mpr ⟨hfits, rfl⟩)
    obtain ⟨hfits', rfl⟩ := (cellStake_eq_ok hrate hmult).mp ha
    exact ⟨hfits', by omega⟩
  · intro h b hb
    obtain ⟨hfits, rfl⟩ := (cellStake_eq_ok hrate' hmult').mp hb
    obtain ⟨hfits', hle⟩ := h hfits
    exact ⟨_, (cellStake_eq_ok hrate hmult).mpr ⟨hfits', rfl⟩, by omega⟩

theorem cellCollateral_mono (hN : N ≤ N') (hmult : mult ≤ mult') :
    cellCollateral N rate mult ≤ cellCollateral N' rate mult' := by
  have hbase : N * rate / 10000 ≤ N' * rate / 10000 :=
    Nat.div_le_div_right (Nat.mul_le_mul_right rate hN)
  exact Nat.div_le_div_right (Nat.mul_le_mul hbase hmult)

theorem Fits.mono (h : Fits N' rate mult') (hN : N ≤ N') (hmult : mult ≤ mult') :
    Fits N rate mult :=
  ⟨Nat.lt_of_le_of_lt (Nat.div_le_div_right (Nat.mul_le_mul_right rate hN)) h.1,
    Nat.lt_of_le_of_lt (cellCollateral_mono hN hmult) h.2⟩

/-- In one size bucket a larger notional asks for no less. -/
theorem below_of_bucket
    (hbucket : getOrderSizeBucketETH N c.sizeThresholds
      = getOrderSizeBucketETH N' c.sizeThresholds)
    (hrate : c.collateralRate[getOrderSizeBucketETH N' c.sizeThresholds]? = some rate)
    (hmult : c.timeMult[i]? = some mult) (hmult' : c.timeMult[j]? = some mult')
    (hN : N ≤ N') (hle : mult ≤ mult') :
    Below (cellStake c N i) (cellStake c N' j) := by
  rw [below_iff (by rw [hbucket]; exact hrate) hmult hrate hmult']
  intro hfits
  exact ⟨hfits.mono hN hle, Nat.le_trans (cellCollateral_mono hN hle) (Nat.le_max_right _ _)⟩

end Cells

/-! ## What orders a table -/

/-- Time bucket `j` is that of some number of blocks left. -/
def Opens (c : StakeConfig) (j : Nat) : Prop := firstLeft c.timeThresholds j ≤ maxUint 256

/-- At each size threshold above 0, in each time bucket there is, the
threshold asks for no less than one wei less does. -/
def SizesOrdered (c : StakeConfig) : Prop :=
  ∀ s t rate rate' j mult : Nat, c.sizeThresholds[s]? = some t → 0 < t →
    c.collateralRate[s]? = some rate → c.collateralRate[s + 1]? = some rate' →
    Opens c j → c.timeMult[j]? = some mult → Fits t rate' mult →
      Fits (t - 1) rate mult ∧
      cellCollateral (t - 1) rate mult ≤ max c.minCollateral (cellCollateral t rate' mult)

/-- The multiplier does not decrease from a time bucket to the next, except
where the minimum is what is asked for in both, whatever the notional. -/
def TimesOrdered (c : StakeConfig) : Prop :=
  ∀ j mult mult' : Nat, Opens c j → c.timeMult[j]? = some mult → c.timeMult[j + 1]? = some mult' →
    mult ≤ mult' ∨
    ∀ N, N ≤ maxUint 256 → ∀ rate,
      c.collateralRate[getOrderSizeBucketETH N c.sizeThresholds]? = some rate →
      Fits N rate mult' → cellCollateral N rate mult ≤ c.minCollateral

section Validated

variable {c : StakeConfig} {minRate maxRate maxRefundBps maxBuckets minKappa : Nat}

/-- Size thresholds increase, and every rate is within the bounds. -/
theorem validate_rates {u : Unit}
    (h : validate c minRate maxRate maxRefundBps maxBuckets minKappa = .ok u) :
    c.sizeThresholds.Pairwise (· < ·) ∧
    ∀ s rate : Nat, c.collateralRate[s]? = some rate → minRate ≤ rate ∧ rate ≤ maxRate := by
  simp only [validate, bind_eq_ok, require_eq_ok] at h
  obtain ⟨_, -, _, -, _, -, _, -, _, -, _, -, _, hsizes, _, -, _, -, _, hrates, -⟩ := h
  refine ⟨checkIncreasing_pairwise hsizes, fun s rate hrate => ?_⟩
  have hs : s < c.collateralRate.length := (List.getElem?_eq_some_iff.mp hrate).1
  have hround := forRange_eq_ok.mp hrates s (Nat.zero_le s) (by omega)
  simp only [bind_eq_ok, getAt_eq_ok, require_eq_ok, hrate, Option.some.injEq,
    exists_eq_left'] at hround
  exact hround

end Validated

/-- The bucket below a size threshold and the one it opens. -/
theorem sizeBucket_threshold {sizes : List Nat} (hsizes : sizes.Pairwise (· < ·))
    (hshort : sizes.length < 2 ^ 8) {s t : Nat} (ht : sizes[s]? = some t) (hpos : 0 < t) :
    getOrderSizeBucketETH (t - 1) sizes = s ∧ getOrderSizeBucketETH t sizes = s + 1 := by
  obtain ⟨hs, rfl⟩ := List.getElem?_eq_some_iff.mp ht
  have hcast : ∀ N, getOrderSizeBucketETH N sizes = sizes.findIdx fun t => N < t := fun N =>
    toUint_of_lt (Nat.lt_of_le_of_lt List.findIdx_le_length hshort)
  have hbefore : ∀ i (hi : i < sizes.length), i < s → sizes[i] < sizes[s] := fun i hi his =>
    List.pairwise_iff_getElem.mp hsizes i s hi hs his
  rw [hcast, hcast]
  constructor
  · rw [List.findIdx_eq hs]
    refine ⟨by simp only [decide_eq_true_eq]; omega, fun i his => ?_⟩
    have hlt := hbefore i (by omega) his
    simp only [decide_eq_false_iff_not]
    omega
  · have hupto : ∀ i (hi : i < sizes.length), i ≤ s → ¬ sizes[s] < sizes[i] := by
      intro i hi his
      rcases Nat.eq_or_lt_of_le his with rfl | hlt
      · exact Nat.lt_irrefl _
      · exact Nat.not_lt.mpr (Nat.le_of_lt (hbefore i hi hlt))
    rcases Nat.eq_or_lt_of_le (Nat.succ_le_of_lt hs) with hlast | hnext
    · rw [Nat.succ_eq_add_one] at hlast
      rw [hlast]
      refine List.findIdx_eq_length_of_false fun x hx => ?_
      obtain ⟨i, hi, rfl⟩ := List.getElem_of_mem hx
      simpa using hupto i hi (by omega)
    · rw [List.findIdx_eq hnext]
      refine ⟨?_, fun i his => ?_⟩
      · simp only [decide_eq_true_eq]
        exact List.pairwise_iff_getElem.mp hsizes s (s + 1) hs hnext (Nat.lt_succ_self s)
      · simpa using hupto i (by omega) (Nat.le_of_lt_succ his)

/-- One wei more is in the same size bucket, or is a threshold. -/
theorem sizeBucket_succ (sizes : List Nat) (N : Nat) :
    getOrderSizeBucketETH N sizes = getOrderSizeBucketETH (N + 1) sizes ∨ N + 1 ∈ sizes := by
  by_cases hmem : N + 1 ∈ sizes
  · exact .inr hmem
  · refine .inl (congrArg (toUint 8) (findIdx_lt_congr fun t ht => ?_))
    have hne : t ≠ N + 1 := fun heq => hmem (heq ▸ ht)
    omega

/-! ## Time buckets there are -/

theorem timeBucket_anti {thresholds : List Nat} {left left' : Nat} (h : left' ≤ left) :
    timeBucket thresholds left ≤ timeBucket thresholds left' := by
  refine List.findIdx_le_findIdx fun t _ ht => ?_
  simp only [decide_eq_true_eq] at ht ⊢
  omega

/-- The bucket of fewest blocks left is one that there is. -/
theorem timeBucket_firstLeft {thresholds : List Nat} (hdec : thresholds.Pairwise (· > ·)) {j : Nat}
    (hj : j ≤ thresholds.length) (hopens : firstLeft thresholds j ≤ maxUint 256) :
    timeBucket thresholds (firstLeft thresholds j) = j := by
  refine (timeBucket_eq_iff hdec hopens hj).mpr ⟨Nat.le_refl _, ?_⟩
  refine (le_lastLeft_iff hdec hopens hj).mpr fun i hi hij => ?_
  rcases Nat.eq_or_lt_of_le hj with rfl | hlt
  · have hlast : firstLeft thresholds thresholds.length = 0 := by simp [firstLeft]
    omega
  · have hfirst : firstLeft thresholds j = thresholds[j] + 1 := by
      simp [firstLeft, List.getElem?_eq_getElem hlt]
    have hgt := List.pairwise_iff_getElem.mp hdec i j hi hlt hij
    omega

/-- After a bucket that there is come buckets that there are. -/
theorem firstLeft_succ_le {thresholds : List Nat} (hdec : thresholds.Pairwise (· > ·)) {j : Nat}
    (hj : j + 1 ≤ thresholds.length) :
    firstLeft thresholds (j + 1) ≤ firstLeft thresholds j := by
  have hfirst : firstLeft thresholds j = thresholds[j] + 1 := by
    simp [firstLeft, List.getElem?_eq_getElem (show j < thresholds.length from hj)]
  rcases Nat.eq_or_lt_of_le hj with heq | hlt
  · have hlast : firstLeft thresholds (j + 1) = 0 := by
      rw [heq]
      simp [firstLeft]
    omega
  · have hnext : firstLeft thresholds (j + 1) = thresholds[j + 1] + 1 := by
      simp [firstLeft, List.getElem?_eq_getElem hlt]
    have hgt := List.pairwise_iff_getElem.mp hdec j (j + 1) hj hlt (Nat.lt_succ_self j)
    omega

/-! ## Where the floors can hide a lower multiplier -/

/-- From 10000 units of base on a lower multiplier shows. -/
theorem cellCollateral_lt {N rate mult mult' : Nat} (hbase : 10000 ≤ N * rate / 10000)
    (hlt : mult' < mult) : cellCollateral N rate mult' < cellCollateral N rate mult := by
  unfold cellCollateral
  generalize N * rate / 10000 = base at hbase
  have hmul : base * mult' + 10000 ≤ base * mult := by
    calc base * mult' + 10000 ≤ base * mult' + base := Nat.add_le_add_left hbase _
      _ = base * (mult' + 1) := (Nat.mul_succ base mult').symm
      _ ≤ base * mult := Nat.mul_le_mul_left base hlt
  calc base * mult' / 10000 < base * mult' / 10000 + 1 := Nat.lt_succ_self _
    _ = (base * mult' + 10000) / 10000 := (Nat.add_div_right _ (by decide)).symm
    _ ≤ base * mult / 10000 := Nat.div_le_div_right hmul

/-- A notional so large that no multiplier of the type is lost on it, and
so small that no product outgrows a word. -/
theorem cellCollateral_witness {rate mult : Nat} (hlow : 100 ≤ rate) (hhigh : rate ≤ 1000000)
    (hmult : mult < 2 ^ 32) :
    Fits (2 ^ 200) rate mult ∧ 10000 ≤ 2 ^ 200 * rate / 10000 ∧
      (0 < mult → 2 ^ 32 ≤ cellCollateral (2 ^ 200) rate mult) := by
  have hbaseLow : 2 ^ 200 * 100 / 10000 ≤ 2 ^ 200 * rate / 10000 :=
    Nat.div_le_div_right (Nat.mul_le_mul_left _ hlow)
  have hbaseHigh : 2 ^ 200 * rate / 10000 ≤ 2 ^ 200 * 1000000 / 10000 :=
    Nat.div_le_div_right (Nat.mul_le_mul_left _ hhigh)
  have hproduct : 2 ^ 200 * rate / 10000 * mult ≤ 2 ^ 200 * 1000000 / 10000 * 2 ^ 32 :=
    Nat.mul_le_mul hbaseHigh (Nat.le_of_lt hmult)
  refine ⟨⟨Nat.lt_of_le_of_lt hbaseHigh (by decide), ?_⟩,
    Nat.le_trans (by decide) hbaseLow, fun hpos => ?_⟩
  · exact Nat.lt_of_le_of_lt
      (Nat.le_trans (Nat.div_le_self _ _) hproduct) (by decide)
  · calc 2 ^ 32 ≤ 2 ^ 200 * 100 / 10000 * 1 / 10000 := by decide
      _ ≤ cellCollateral (2 ^ 200) rate mult :=
        Nat.div_le_div_right (Nat.mul_le_mul hbaseLow hpos)

/-- Below 10000 units of base a collateral is less than the multiplier. -/
theorem cellCollateral_le_mult {N rate mult : Nat} (hbase : N * rate / 10000 < 10000) :
    cellCollateral N rate mult ≤ mult := by
  unfold cellCollateral
  calc N * rate / 10000 * mult / 10000 ≤ 10000 * mult / 10000 :=
        Nat.div_le_div_right (Nat.mul_le_mul_right mult (Nat.le_of_lt hbase))
    _ = mult := Nat.mul_div_cancel_left mult (by decide)

end DynamicStakeLib

namespace FillAuction

open DynamicStakeLib

section Validated

variable {c : StakeConfig}

/-- No less for a larger notional, whatever the block and the deadline. -/
def CeilingMonotone (c : StakeConfig) : Prop :=
  ∀ (blk : Block) (deadline N N' : Nat), deadline ≤ maxUint 256 → N ≤ N' → N' ≤ maxUint 256 →
    Below (requiredStake blk c N deadline) (requiredStake blk c N' deadline)

/-- No less in a later block, whatever the notional and the deadline. -/
def WaitingMonotone (c : StakeConfig) : Prop :=
  ∀ (blk blk' : Block) (deadline N : Nat), deadline ≤ maxUint 256 → N ≤ maxUint 256 →
    blk.number ≤ blk'.number →
    Below (requiredStake blk c N deadline) (requiredStake blk' c N deadline)

theorem rateAt {c : StakeConfig} (h : validateConfig c = .ok ()) (N : Nat) :
    ∃ rate, c.collateralRate[getOrderSizeBucketETH N c.sizeThresholds]? = some rate ∧
      100 ≤ rate ∧ rate ≤ 1000000 := by
  have hlt := (tabled_of_valid h).sizeBucket_lt N
  refine ⟨_, List.getElem?_eq_getElem hlt, ?_⟩
  exact (validate_rates h).2 _ _ (List.getElem?_eq_getElem hlt)

theorem multAt {c : StakeConfig} (h : validateConfig c = .ok ()) {j : Nat}
    (hj : j ≤ c.timeThresholds.length) : ∃ mult, c.timeMult[j]? = some mult := by
  have htimes := (tabled_of_valid h).times
  exact ⟨_, List.getElem?_eq_getElem (by omega)⟩

theorem sizeThresholds_short (h : validateConfig c = .ok ()) :
    c.sizeThresholds.length < 2 ^ 8 := by
  have htabled := tabled_of_valid h
  have hbuckets : c.collateralRate.length ≤ 16 := htabled.sizeBuckets
  have hsizes := htabled.sizes
  omega

theorem requiredStake_eq (h : validateConfig c = .ok ()) (blk : Block) (N deadline : Nat) :
    requiredStake blk c N deadline
      = cellStake c N (timeBucket c.timeThresholds (deadline - blk.number)) :=
  requiredStake_cell (timeThresholds_short (tabled_of_valid h))

/-- The bucket of a deadline is one that there is. -/
theorem opens_timeBucket (h : validateConfig c = .ok ()) {left : Nat} (hleft : left ≤ maxUint 256) :
    timeBucket c.timeThresholds left ≤ c.timeThresholds.length ∧
    Opens c (timeBucket c.timeThresholds left) := by
  have hle : timeBucket c.timeThresholds left ≤ c.timeThresholds.length := List.findIdx_le_length
  have hrange := (timeBucket_eq_iff (tabled_of_valid h).timeDecreasing hleft hle).mp rfl
  exact ⟨hle, Nat.le_trans hrange.1 hleft⟩

/-! ## Over notionals -/

/-- One wei more asks for no less. -/
theorem below_succ (h : validateConfig c = .ok ()) (hordered : SizesOrdered c) {j N : Nat}
    (hj : j ≤ c.timeThresholds.length) (hopens : Opens c j) :
    Below (cellStake c N j) (cellStake c (N + 1) j) := by
  obtain ⟨mult, hmult⟩ := multAt h hj
  obtain ⟨rate', hrate', -⟩ := rateAt h (N + 1)
  rcases sizeBucket_succ c.sizeThresholds N with hbucket | hmem
  · exact below_of_bucket hbucket hrate' hmult hmult (Nat.le_succ N) (Nat.le_refl mult)
  · obtain ⟨s, hs⟩ := List.mem_iff_getElem?.mp hmem
    obtain ⟨rate, hrate, -⟩ := rateAt h N
    have hbuckets := sizeBucket_threshold (validate_rates h).1 (sizeThresholds_short h) hs
      (Nat.succ_pos N)
    rw [Nat.add_sub_cancel] at hbuckets
    rw [below_iff hrate hmult hrate' hmult]
    rw [hbuckets.1] at hrate
    rw [hbuckets.2] at hrate'
    exact hordered s (N + 1) rate rate' j mult hs (Nat.succ_pos N) hrate hrate' hopens hmult

theorem ceilingMonotone_iff (h : validateConfig c = .ok ()) (hwidths : Widths c) :
    CeilingMonotone c ↔ SizesOrdered c := by
  constructor
  · intro hmono s t rate rate' j mult ht hpos hrate hrate' hopens hmult
    have hj : j ≤ c.timeThresholds.length := by
      have hlt := (List.getElem?_eq_some_iff.mp hmult).1
      have htimes := (tabled_of_valid h).times
      omega
    have hword : t ≤ maxUint 256 :=
      le_maxUint.mpr (hwidths.sizeThresholds t (List.mem_of_getElem? ht))
    have hbuckets := sizeBucket_threshold (validate_rates h).1 (sizeThresholds_short h) ht hpos
    have hbelow := hmono ⟨0, 0⟩ (firstLeft c.timeThresholds j) (t - 1) t hopens
      (Nat.sub_le t 1) hword
    rw [requiredStake_eq h, requiredStake_eq h, Nat.sub_zero,
      timeBucket_firstLeft (tabled_of_valid h).timeDecreasing hj hopens,
      below_iff (by rw [hbuckets.1]; exact hrate) hmult (by rw [hbuckets.2]; exact hrate')
        hmult] at hbelow
    exact hbelow
  · intro hordered blk deadline N N' hdeadline hle _
    obtain ⟨hj, hopens⟩ := opens_timeBucket h
      (show deadline - blk.number ≤ maxUint 256 from Nat.le_trans (Nat.sub_le _ _) hdeadline)
    rw [requiredStake_eq h, requiredStake_eq h]
    induction N', hle using Nat.le_induction with
    | base => exact Below.refl _
    | succ N' _ ih => exact (ih (by omega)).trans (below_succ h hordered hj hopens)

/-! ## Over blocks -/

/-- A later time bucket asks for no less, from one bucket to the next. -/
theorem below_next (h : validateConfig c = .ok ()) (hwidths : Widths c)
    (hordered : TimesOrdered c) {j N : Nat} (hj : j + 1 ≤ c.timeThresholds.length)
    (hopens : Opens c j) (hN : N ≤ maxUint 256) :
    Below (cellStake c N j) (cellStake c N (j + 1)) := by
  obtain ⟨mult, hmult⟩ := multAt h (Nat.le_of_succ_le hj)
  obtain ⟨mult', hmult'⟩ := multAt h hj
  obtain ⟨rate, hrate, -⟩ := rateAt h N
  rcases hordered j mult mult' hopens hmult hmult' with hle | hflat
  · exact below_of_bucket rfl hrate hmult hmult' (Nat.le_refl N) hle
  · rw [below_iff hrate hmult hrate hmult']
    intro hfits
    have hmin : cellCollateral N rate mult ≤ c.minCollateral := hflat N hN rate hrate hfits
    exact ⟨⟨hfits.1, Nat.lt_of_le_of_lt hmin hwidths.minCollateral⟩,
      Nat.le_trans hmin (Nat.le_max_left _ _)⟩

theorem waitingMonotone_iff (h : validateConfig c = .ok ()) (hwidths : Widths c) :
    WaitingMonotone c ↔ TimesOrdered c := by
  have hdec := (tabled_of_valid h).timeDecreasing
  constructor
  · intro hmono j mult mult' hopens hmult hmult'
    by_cases hle : mult ≤ mult'
    · exact .inl hle
    have hlt : mult' < mult := Nat.lt_of_not_le hle
    have hj : j + 1 ≤ c.timeThresholds.length := by
      have hnext := (List.getElem?_eq_some_iff.mp hmult').1
      have htimes := (tabled_of_valid h).times
      omega
    have hstep := firstLeft_succ_le hdec hj
    -- what waiting for the next bucket says of a notional
    have hnext : ∀ N, N ≤ maxUint 256 → ∀ rate,
        c.collateralRate[getOrderSizeBucketETH N c.sizeThresholds]? = some rate →
        Fits N rate mult' → cellCollateral N rate mult
          ≤ max c.minCollateral (cellCollateral N rate mult') := by
      intro N hN rate hrate hfits
      have hbelow := hmono ⟨0, 0⟩
        ⟨firstLeft c.timeThresholds j - firstLeft c.timeThresholds (j + 1), 0⟩
        (firstLeft c.timeThresholds j) N hopens hN (Nat.zero_le _)
      rw [requiredStake_eq h, requiredStake_eq h, Nat.sub_zero, Nat.sub_sub_self hstep,
        timeBucket_firstLeft hdec (Nat.le_of_succ_le hj) hopens,
        timeBucket_firstLeft hdec hj (Nat.le_trans hstep hopens),
        below_iff hrate hmult hrate hmult'] at hbelow
      exact (hbelow hfits).2
    refine .inr fun N hN rate hrate hfits => ?_
    have hcompared := hnext N hN rate hrate hfits
    rcases Nat.lt_or_ge (N * rate / 10000) 10000 with hsmall | hlarge
    · -- a base so small that the floors hide the multiplier: the minimum is larger anyway
      obtain ⟨rate₀, hrate₀, hlow, hhigh⟩ := rateAt h (2 ^ 200)
      have hwidth : mult < 2 ^ 32 := hwidths.timeMult mult (List.mem_of_getElem? hmult)
      obtain ⟨-, hbase₀, hbig⟩ := cellCollateral_witness hlow hhigh hwidth
      have hfits₀ := (cellCollateral_witness hlow hhigh (Nat.lt_trans hlt hwidth)).1
      have hcompared₀ := hnext (2 ^ 200) (by decide) rate₀ hrate₀ hfits₀
      have hless₀ := cellCollateral_lt hbase₀ hlt
      have hbig₀ := hbig (Nat.lt_of_le_of_lt (Nat.zero_le mult') hlt)
      have hmult : cellCollateral N rate mult ≤ mult := cellCollateral_le_mult hsmall
      omega
    · have hless := cellCollateral_lt hlarge hlt
      omega
  · intro hordered blk blk' deadline N hdeadline hN hblk
    have hleft : deadline - blk.number ≤ maxUint 256 := Nat.le_trans (Nat.sub_le _ _) hdeadline
    have hbuckets : timeBucket c.timeThresholds (deadline - blk.number)
        ≤ timeBucket c.timeThresholds (deadline - blk'.number) := timeBucket_anti (by omega)
    obtain ⟨-, hopens⟩ := opens_timeBucket h hleft
    have hend : timeBucket c.timeThresholds (deadline - blk'.number)
        ≤ c.timeThresholds.length := List.findIdx_le_length
    rw [requiredStake_eq h, requiredStake_eq h]
    generalize timeBucket c.timeThresholds (deadline - blk.number) = i at hbuckets hopens ⊢
    generalize timeBucket c.timeThresholds (deadline - blk'.number) = j at hbuckets hend ⊢
    -- bucket after bucket, each of them one that there is
    have hchain : Below (cellStake c N i) (cellStake c N j) ∧ Opens c j := by
      induction j, hbuckets using Nat.le_induction with
      | base => exact ⟨Below.refl _, hopens⟩
      | succ j _ ih =>
          obtain ⟨hbelow, hj⟩ := ih (Nat.le_of_succ_le hend)
          exact ⟨hbelow.trans (below_next h hwidths hordered hend hj hN),
            Nat.le_trans (firstLeft_succ_le hdec hend) hj⟩
    exact hchain.1

/-- **The stake is monotone exactly where the tables are.** A larger ceiling
is never cheaper and waiting never is, for every notional, block and
deadline, if and only if the stake does not fall at a size threshold and
the multipliers do not decrease, up to the minimum. -/
theorem stake_monotone_iff (h : validateConfig c = .ok ()) (hwidths : Widths c) :
    CeilingMonotone c ∧ WaitingMonotone c ↔ SizesOrdered c ∧ TimesOrdered c :=
  and_congr (ceilingMonotone_iff h hwidths) (waitingMonotone_iff h hwidths)

end Validated

section Tables

variable {c : StakeConfig}

/-- Rates that do not decrease are enough. -/
theorem sizesOrdered_of_rates (hrates : c.collateralRate.Pairwise (· ≤ ·)) : SizesOrdered c := by
  intro s t rate rate' j mult _ _ hrate hrate' _ _ hfits
  obtain ⟨hs, rfl⟩ := List.getElem?_eq_some_iff.mp hrate
  obtain ⟨hs', rfl⟩ := List.getElem?_eq_some_iff.mp hrate'
  have hle := List.pairwise_iff_getElem.mp hrates s (s + 1) hs hs' (Nat.lt_succ_self s)
  have hbase : (t - 1) * c.collateralRate[s] / 10000 ≤ t * c.collateralRate[s + 1] / 10000 :=
    Nat.div_le_div_right (Nat.mul_le_mul (Nat.sub_le t 1) hle)
  have hcollateral : cellCollateral (t - 1) c.collateralRate[s] mult
      ≤ cellCollateral t c.collateralRate[s + 1] mult :=
    Nat.div_le_div_right (Nat.mul_le_mul_right mult hbase)
  exact ⟨⟨Nat.lt_of_le_of_lt hbase hfits.1, Nat.lt_of_le_of_lt hcollateral hfits.2⟩,
    Nat.le_trans hcollateral (Nat.le_max_right _ _)⟩

/-- And multipliers that do not. -/
theorem timesOrdered_of_mults (hmults : c.timeMult.Pairwise (· ≤ ·)) : TimesOrdered c := by
  intro j mult mult' _ hmult hmult'
  obtain ⟨hj, rfl⟩ := List.getElem?_eq_some_iff.mp hmult
  obtain ⟨hj', rfl⟩ := List.getElem?_eq_some_iff.mp hmult'
  exact .inl (List.pairwise_iff_getElem.mp hmults j (j + 1) hj hj' (Nat.lt_succ_self j))

theorem stake_monotone_iff_default :
    (validateConfig defaultStakeConfig = .ok () ∧ Widths defaultStakeConfig) ∧
    CeilingMonotone defaultStakeConfig ∧ WaitingMonotone defaultStakeConfig := by
  have hwidths : Widths defaultStakeConfig := ⟨by decide, by decide, by decide⟩
  exact ⟨⟨validateConfig_default, hwidths⟩,
    (stake_monotone_iff validateConfig_default hwidths).mpr
      ⟨sizesOrdered_of_rates (by decide), timesOrdered_of_mults (by decide)⟩⟩

/-- The default configuration with the largest orders' rate for the smallest
too, and the first two multipliers exchanged. -/
def shoppable : StakeConfig :=
  { defaultStakeConfig with
    collateralRate := [30000, 5000, 10000, 30000]
    timeMult := [15000, 10000, 30000, 50000] }

/-- A ceiling one wei larger costs a sixth, and 60 blocks later two thirds
of that. -/
theorem shoppable_falls :
    (validateConfig shoppable = .ok () ∧ Widths shoppable) ∧
    (requiredStake ⟨1000, 0⟩ shoppable (10 ^ 18 - 1) 1100 = .ok 4499999999999999995 ∧
      requiredStake ⟨1000, 0⟩ shoppable (10 ^ 18) 1100 = .ok 750000000000000000 ∧
      requiredStake ⟨1060, 0⟩ shoppable (10 ^ 18) 1100 = .ok 500000000000000000) ∧
    ¬ CeilingMonotone shoppable ∧ ¬ WaitingMonotone shoppable := by
  have hsmaller : requiredStake ⟨1000, 0⟩ shoppable (10 ^ 18 - 1) 1100
      = .ok 4499999999999999995 := by decide +kernel
  have hlarger : requiredStake ⟨1000, 0⟩ shoppable (10 ^ 18) 1100 = .ok 750000000000000000 := by
    decide +kernel
  have hlater : requiredStake ⟨1060, 0⟩ shoppable (10 ^ 18) 1100 = .ok 500000000000000000 := by
    decide +kernel
  refine ⟨⟨by decide +kernel, by decide, by decide, by decide⟩, ⟨hsmaller, hlarger, hlater⟩,
    fun hmono => ?_, fun hmono => ?_⟩
  · obtain ⟨a, ha, hle⟩ := hmono ⟨1000, 0⟩ 1100 (10 ^ 18 - 1) (10 ^ 18) (by decide) (by decide)
      (by decide) _ hlarger
    obtain rfl : 4499999999999999995 = a := Except.ok.inj (hsmaller.symm.trans ha)
    exact absurd hle (by decide)
  · obtain ⟨a, ha, hle⟩ := hmono ⟨1000, 0⟩ ⟨1060, 0⟩ 1100 (10 ^ 18) (by decide) (by decide)
      (by decide) _ hlater
    obtain rfl : 750000000000000000 = a := Except.ok.inj (hlarger.symm.trans ha)
    exact absurd hle (by decide)

end Tables

end FillAuction

end NeutronX
