import Mathlib.Algebra.Order.Field.Rat
import Mathlib.Tactic.FieldSimp
import Mathlib.Tactic.GCongr
import Mathlib.Tactic.Linarith
import NeutronX.RefundLaw

/-!
# The worst-case kappa floor

`worstCaseKappaBps` reads one cell of each row of the refund table: the
last one that refunds less than all. That cell bounds the others, because
refunds do not decrease along a row and thresholds increase
(`FloorCell.penalty_le`): a short fill is in no later bucket, so it is
refunded no more, and its ratio is below the threshold of that cell. What
it forfeits is the floor times the volume it delivered, up to what the two
floored divisions of the stake lose.
-/

namespace NeutronX

open Evm Function

namespace DynamicStakeLib

/-! ## The loops of the floor -/

theorem lastNonHonest_some {cfg : StakeConfig} {s R : Nat} :
    ∀ {k i : Nat}, lastNonHonest cfg s R k = .ok (some i) →
      (∃ refund, cfg.refundTable[s * R + i]? = some refund) ∧
      ∀ j, i < j → j < k → ∀ v, cfg.refundTable[s * R + j]? = some v → 10000 ≤ v
  | 0, i, h => by cases h
  | k + 1, i, h => by
      simp only [lastNonHonest, bind_eq_ok, getAt_eq_ok] at h
      obtain ⟨refund, hrefund, h⟩ := h
      split at h
      · obtain rfl := Option.some.inj (pure_eq_ok.mp h)
        exact ⟨⟨refund, hrefund⟩, fun j hlt hle => absurd hle (by omega)⟩
      · obtain ⟨hex, hlater⟩ := lastNonHonest_some h
        refine ⟨hex, fun j hij hjk v hv => ?_⟩
        rcases Nat.lt_succ_iff_lt_or_eq.mp hjk with hlt | rfl
        · exact hlater j hij hlt v hv
        · rw [hrefund] at hv
          obtain rfl := Option.some.inj hv
          omega

theorem kappaOverTimes_spec {rate penalty x : Nat} :
    ∀ {mults : List Nat} {worst k : Nat}, kappaOverTimes rate penalty x worst mults = .ok k →
      k ≤ worst ∧ ∀ mult ∈ mults, k ≤ rate * mult / 10000 * penalty / x
  | [], worst, k, h => by
      obtain rfl := pure_eq_ok.mp h
      exact ⟨Nat.le_refl _, fun mult hmult => absurd hmult List.not_mem_nil⟩
  | mult :: mults, worst, k, h => by
      simp only [kappaOverTimes, bind_eq_ok, mulDiv_eq_ok] at h
      obtain ⟨_, ⟨-, rfl⟩, _, ⟨-, rfl⟩, h⟩ := h
      obtain ⟨hle, hmults⟩ := kappaOverTimes_spec h
      have hmin : k ≤ worst ∧ k ≤ rate * mult / 10000 * penalty / x := by
        split at hle <;> omega
      refine ⟨hmin.1, fun mult' hmem => ?_⟩
      rcases List.mem_cons.mp hmem with rfl | hmem
      · exact hmin.2
      · exact hmults mult' hmem

/-- The cell that the floor `k` was computed from in row `s`: the last of
the row, before its end, that refunds less than all. -/
structure FloorCell (cfg : StakeConfig) (k s rate i x refund : Nat) : Prop where
  threshold : cfg.ratioThresholds[i]? = some x
  cell : cfg.refundTable[s * (cfg.ratioThresholds.length + 1) + i]? = some refund
  last : ∀ j, i < j → j < cfg.ratioThresholds.length → ∀ v,
    cfg.refundTable[s * (cfg.ratioThresholds.length + 1) + j]? = some v → 10000 ≤ v
  floor : ∀ mult ∈ cfg.timeMult, k ≤ rate * mult / 10000 * (10000 - refund) / x

theorem FloorCell.anti {cfg : StakeConfig} {k k' s rate i x refund : Nat}
    (h : FloorCell cfg k' s rate i x refund) (hk : k ≤ k') :
    FloorCell cfg k s rate i x refund :=
  { h with floor := fun mult hmult => Nat.le_trans hk (h.floor mult hmult) }

theorem kappaOverRows_spec {cfg : StakeConfig} :
    ∀ {rates : List Nat} {s worst k : Nat},
      kappaOverRows cfg (cfg.ratioThresholds.length + 1) s worst rates = .ok k → 0 < k →
      k ≤ worst ∧ ∀ n rate, rates[n]? = some rate →
        ∃ i x refund, FloorCell cfg k (s + n) rate i x refund
  | [], s, worst, k, h, hpos => by
      obtain rfl := pure_eq_ok.mp h
      exact ⟨Nat.le_refl _, fun n rate hrate => absurd hrate (by simp)⟩
  | rate :: rates, s, worst, k, h, hpos => by
      simp only [kappaOverRows, bind_eq_ok] at h
      obtain ⟨found, hfound, h⟩ := h
      cases found with
      | none =>
          obtain rfl := pure_eq_ok.mp h
          exact absurd hpos (Nat.lt_irrefl 0)
      | some i =>
          simp only [bind_eq_ok, getAt_eq_ok] at h
          obtain ⟨x, hx, h⟩ := h
          split at h
          · obtain rfl := pure_eq_ok.mp h
            exact absurd hpos (Nat.lt_irrefl 0)
          · simp only [bind_eq_ok, getAt_eq_ok, checkedSub_eq_ok] at h
            obtain ⟨refund, hrefund, _, ⟨-, rfl⟩, worst', htimes, hrows⟩ := h
            obtain ⟨hle, hcells⟩ := kappaOverRows_spec hrows hpos
            obtain ⟨hworst, hfloor⟩ := kappaOverTimes_spec htimes
            refine ⟨Nat.le_trans hle hworst, fun n rate' hrate' => ?_⟩
            cases n with
            | zero =>
                obtain rfl : rate = rate' := by simpa using hrate'
                have hcell : FloorCell cfg worst' s rate i x refund :=
                  ⟨hx, hrefund, (lastNonHonest_some hfound).2, hfloor⟩
                exact ⟨i, x, refund, hcell.anti hle⟩
            | succ n =>
                obtain ⟨i', x', refund', hcell⟩ := hcells n rate' (by simpa using hrate')
                exact ⟨i', x', refund', by rwa [show s + (n + 1) = s + 1 + n by omega]⟩

theorem worstCaseKappaBps_spec {cfg : StakeConfig} {k : Nat} (h : worstCaseKappaBps cfg = .ok k)
    (hpos : 0 < k) {s rate : Nat} (hrate : cfg.collateralRate[s]? = some rate) :
    ∃ i x refund, FloorCell cfg k s rate i x refund := by
  simp only [worstCaseKappaBps] at h
  split at h
  · obtain rfl := pure_eq_ok.mp h
    exact absurd hpos (Nat.lt_irrefl 0)
  · obtain ⟨-, hcells⟩ := kappaOverRows_spec h hpos
    obtain ⟨i, x, refund, hcell⟩ := hcells s rate hrate
    exact ⟨i, x, refund, by rwa [Nat.zero_add] at hcell⟩

/-! ## A short fill -/

/-- A fill that is refunded less than all is in no later bucket than the
cell of the floor, so it is refunded no more, and its ratio is below that
cell's threshold. -/
theorem FloorCell.short_fill {cfg : StakeConfig} {k s rate i x cell maxBuckets : Nat}
    {row : List Nat} (h : FloorCell cfg k s rate i x cell) (htabled : Tabled cfg 10000 maxBuckets)
    (hbuckets : maxBuckets ≤ 2 ^ 8) (hs : s < cfg.collateralRate.length)
    (hrow : copyRange cfg.refundTable (s * (cfg.ratioThresholds.length + 1))
      (cfg.ratioThresholds.length + 1) = .ok row)
    {fill total b share : Nat} (hshort : fill < total)
    (hb : getFillRatioBucket fill total cfg.ratioThresholds = .ok b)
    (hshare : row[b]? = some share) (hbelow : share < 10000) :
    share ≤ cell ∧ fill * 10000 < x * total := by
  have hrefunds := htabled.rows s row hs hrow
  have hlength := copyRange_length hrow
  have hcells : ∀ j, j < cfg.ratioThresholds.length + 1 →
      row[j]? = cfg.refundTable[s * (cfg.ratioThresholds.length + 1) + j]? :=
    copyRange_getElem? hrow
  have hi : i < cfg.ratioThresholds.length := (List.getElem?_eq_some_iff.mp h.threshold).1
  have hble : b ≤ cfg.ratioThresholds.length := getFillRatioBucket_le hb
  have hbi : b ≤ i := by
    by_contra hlater
    rcases Nat.lt_or_eq_of_le hble with hlt | heq
    · have hfull := h.last b (by omega) hlt share (by rw [← hcells b (by omega)]; exact hshare)
      omega
    · -- the bucket after the last threshold refunds all
      have hlast := hrefunds.last
      rw [hlength, Nat.add_sub_cancel, ← heq, hshare, Option.some.injEq] at hlast
      omega
  have hcell : row[i]? = some cell := by
    rw [hcells i (by omega)]
    exact h.cell
  refine ⟨hrefunds.le hbi hshare hcell, ?_⟩
  rw [getFillRatioBucket, if_neg (show ¬total ≤ fill by omega)] at hb
  simp only [bind_eq_ok, checkedMul_eq_ok, pure_eq_ok] at hb
  obtain ⟨_, ⟨-, rfl⟩, hidx⟩ := hb
  rw [toUint8_findIdx htabled.ratioBuckets hbuckets] at hidx
  obtain ⟨hi', rfl⟩ := List.getElem?_eq_some_iff.mp h.threshold
  have hratio : fill * 10000 / total < cfg.ratioThresholds[i] := by
    have hlt : (cfg.ratioThresholds.findIdx fun t => fill * 10000 / total < t)
        < cfg.ratioThresholds.length := by omega
    have hfound : fill * 10000 / total < cfg.ratioThresholds[b] := by
      simpa [hidx] using List.findIdx_getElem (w := hlt)
    rcases Nat.eq_or_lt_of_le hbi with rfl | hlt
    · exact hfound
    · exact Nat.lt_trans hfound
        (List.pairwise_iff_getElem.mp htabled.ratioIncreasing b i (by omega) hi' hlt)
  exact (Nat.div_lt_iff_lt_mul (by omega)).mp hratio

/-- What a fill forfeits against the floor, from the bounds on its pieces:
`stake` loses at most the two floors, and `penalty` counts for `volume` of
the `commitment`. -/
theorem forfeit_floor {k volume notional commitment rate mult cell share x total stake refund
    forfeited : Nat} (hfloor : k ≤ rate * mult / 10000 * (10000 - cell) / x)
    (hcell : share ≤ cell) (hvolume : volume * 10000 < x * total) (htotal : total ≤ commitment)
    (hstake : notional * rate / 10000 * mult / 10000 ≤ stake)
    (hrefund : refund = stake * share / 10000) (hsplit : refund + forfeited = stake) :
    k * volume * notional ≤ commitment * (10000 * forfeited + mult + 10000) := by
  have hk : k * x * 10000 ≤ rate * mult * (10000 - cell) :=
    calc k * x * 10000 ≤ rate * mult / 10000 * (10000 - cell) * 10000 :=
          Nat.mul_le_mul_right _ ((Nat.mul_le_mul_right x hfloor).trans (Nat.div_mul_le_self _ x))
      _ = rate * mult / 10000 * 10000 * (10000 - cell) := Nat.mul_right_comm _ _ _
      _ ≤ rate * mult * (10000 - cell) := Nat.mul_le_mul_right _ (Nat.div_mul_le_self _ _)
  have hvol : volume * 10000 ≤ x * commitment :=
    hvolume.le.trans (Nat.mul_le_mul_left x htotal)
  have hnotional : notional * rate * mult ≤ 10 ^ 8 * (stake + 1) + 10000 * mult := by
    have hbase := Nat.lt_mul_div_succ (notional * rate) (show 0 < 10000 by decide)
    have hrequired := Nat.lt_mul_div_succ (notional * rate / 10000 * mult)
      (show 0 < 10000 by decide)
    have hscaled : notional * rate * mult ≤ 10000 * (notional * rate / 10000 + 1) * mult :=
      Nat.mul_le_mul_right mult hbase.le
    have hexpand : 10000 * (notional * rate / 10000 + 1) * mult
        = 10000 * (notional * rate / 10000 * mult) + 10000 * mult := by ring
    omega
  have hforfeit : stake * (10000 - cell) ≤ 10000 * forfeited := by
    have hle : stake * (10000 - cell) ≤ stake * (10000 - share) :=
      Nat.mul_le_mul_left _ (by omega)
    have hdiv := Nat.div_mul_le_self (stake * share) 10000
    have hdist : stake * (10000 - share) = stake * 10000 - stake * share := Nat.mul_sub _ _ _
    omega
  -- the scaled inequality, from which the factor 10⁸ cancels
  have hscaled : 10 ^ 8 * (k * volume * notional)
      ≤ 10 ^ 8 * (commitment * (10000 * forfeited + mult + 10000)) :=
    calc 10 ^ 8 * (k * volume * notional)
        = k * 10000 * (volume * 10000) * notional := by ring
      _ ≤ k * 10000 * (x * commitment) * notional := by gcongr
      _ = k * x * 10000 * (commitment * notional) := by ring
      _ ≤ rate * mult * (10000 - cell) * (commitment * notional) := by gcongr
      _ = commitment * (10000 - cell) * (notional * rate * mult) := by ring
      _ ≤ commitment * (10000 - cell) * (10 ^ 8 * (stake + 1) + 10000 * mult) := by gcongr
      _ = commitment * (10 ^ 8 * (stake * (10000 - cell))
            + (10000 - cell) * (10 ^ 8 + 10000 * mult)) := by ring
      _ ≤ commitment * (10 ^ 8 * (10000 * forfeited) + 10000 * (10 ^ 8 + 10000 * mult)) := by
          gcongr
          omega
      _ = 10 ^ 8 * (commitment * (10000 * forfeited + mult + 10000)) := by ring
  exact Nat.le_of_mul_le_mul_left hscaled (by decide)

theorem computeRegistration_terms {blk : Block} {cfg : StakeConfig}
    {notionalEth deadline : Nat} {snap : Snapshot}
    (h : computeRegistration blk cfg notionalEth deadline = .ok snap) :
    ∃ rate mult,
      cfg.collateralRate[getOrderSizeBucketETH notionalEth cfg.sizeThresholds]? = some rate ∧
      cfg.timeMult[getTimeBucket blk deadline cfg.timeThresholds]? = some mult ∧
      notionalEth * rate / 10000 * mult / 10000 ≤ snap.required ∧
      copyRange cfg.refundTable (getOrderSizeBucketETH notionalEth cfg.sizeThresholds
        * (cfg.ratioThresholds.length + 1)) (cfg.ratioThresholds.length + 1)
        = .ok snap.refundRow ∧
      snap.ratioSnapshot = cfg.ratioThresholds := by
  simp only [computeRegistration, requiredStake, computeCollateral, bind_eq_ok, getAt_eq_ok,
    mulDiv_eq_ok, pure_eq_ok] at h
  obtain ⟨_, ⟨_, ⟨rate, hrate, mult, hmult, _, ⟨-, rfl⟩, -, rfl⟩, rfl⟩, row, hrow, rfl⟩ := h
  refine ⟨rate, mult, hrate, hmult, ?_, hrow, rfl⟩
  show _ ≤ if _ then _ else _
  split
  · exact Nat.le_of_lt ‹_›
  · exact Nat.le_refl _

end DynamicStakeLib

namespace FillAuction

open DynamicStakeLib

variable {κ : Type} [DecidableEq κ]

/-- **The kappa floor is a floor.** Whatever the validated configuration,
the deadline and the commitment, a registration that is settled by a fill
short of what was deliverable, and refunded less than all, forfeits at
least the floor on the notional of the volume it delivered, up to the
rounding of its stake. -/
theorem kappa_floor_sound {p : AuctionParams} {s₀ s s₁ s₁' : AuctionState κ} {k : Nat}
    (hvalid : validateConfig s₀.config = .ok ()) (hkappa : worstCaseKappaBps s₀.config = .ok k)
    {oracle : Option Quote} {blk : Block} {msgSender : Address} {msgValue : Nat}
    {a : RegisterArgs κ} (hfiller : a.filler ≠ 0)
    (hreg : register oracle blk s₀ msgSender msgValue a = .ok s) (hrun : AuctionRun p s s₁)
    {blk₁ : Block} {msgSender₁ : Address} {actual remainingAtFill : Nat}
    (hfill : onFillSuccess p blk₁ s₁ msgSender₁ a.orderHash a.filler actual remainingAtFill
      = .ok s₁')
    (hshort : actual < min a.fillAmount remainingAtFill) {b share : Nat}
    (hbucket : getFillRatioBucket actual (min a.fillAmount remainingAtFill)
      s₀.config.ratioThresholds = .ok b)
    (hshare : (s.registrations a.orderHash a.filler).refundRow[b]? = some share)
    (hbelow : share < 10000) :
    ∃ notional mult refund forfeited,
      notionalEth oracle a.inputToken a.feeTier a.fillAmount = .ok notional ∧
      s₀.config.timeMult[getTimeBucket blk a.deadline s₀.config.timeThresholds]? = some mult ∧
      refund + forfeited = (s.registrations a.orderHash a.filler).stakeAmount ∧
      s₁'.credits = (if 0 < forfeited then
          [⟨p.treasury, forfeited, some (a.orderHash, a.filler)⟩] else [])
        ++ [⟨a.filler, refund, some (a.orderHash, a.filler)⟩] ++ s₁.credits ∧
      (k * actual * notional : ℚ) / (10000 * a.fillAmount) - (mult / 10000 + 1) ≤ forfeited := by
  obtain ⟨notional, snap, hnotional, hsnap, hstake, hslots⟩ := register_snapshot hreg
  obtain ⟨_, hok, -⟩ := register_spec hreg
  obtain ⟨rate, mult, hrate, hmult, hrequired, hrow, hthresholds⟩ :=
    computeRegistration_terms hsnap
  have hwritten : s.registrations a.orderHash a.filler = newRegistration blk a snap := by
    rw [hslots]
    exact update₂_self _ _ _ _
  have hkept := slotKept_run hrun (by rw [hwritten]; exact hfiller)
  obtain ⟨-, hopen, refund, forfeited, evs, hrefund, hsplit, rfl⟩ := onFillSuccess_spec hfill
  have hsame : s₁.registrations a.orderHash a.filler = newRegistration blk a snap := by
    rw [← terms_of_open hopen, hkept.terms_eq, hwritten]
    rfl
  rw [hsame] at hrefund hsplit
  have hcommitment : (newRegistration blk a snap).fillAmount = a.fillAmount :=
    toUint_of_lt (Nat.lt_of_le_of_lt hok.fill_le hok.total_fits)
  have hstaked : (newRegistration blk a snap).stakeAmount = snap.required := toUint_of_lt hstake
  rw [hwritten] at hshare ⊢
  refine ⟨notional, mult, refund, forfeited, hnotional, hmult, hsplit, rfl, ?_⟩
  have hbound : k * actual * notional ≤ a.fillAmount * (10000 * forfeited + mult + 10000) := by
    rcases Nat.eq_zero_or_pos k with rfl | hpos
    · simp
    have htabled : Tabled s₀.config 10000 MAX_BUCKETS := validate_tabled hvalid
    obtain ⟨i, x, cell, hcell⟩ := worstCaseKappaBps_spec hkappa hpos hrate
    obtain ⟨hle, hvolume⟩ := hcell.short_fill htabled (by decide) (htabled.sizeBucket_lt notional)
      hrow hshort hbucket hshare hbelow
    have hsettled := (settleable_newRegistration hvalid hsnap).refund actual remainingAtFill
    obtain ⟨b', share', hbucket', hshare', heq⟩ := hsettled
    have hdeliverable : deliverable (newRegistration blk a snap) remainingAtFill
        = min a.fillAmount remainingAtFill := by
      rw [deliverable, hcommitment, Nat.min_comm]
    have hsnapshot : (newRegistration blk a snap).ratioSnapshot = s₀.config.ratioThresholds :=
      hthresholds
    rw [hdeliverable, hsnapshot, hbucket] at hbucket'
    obtain rfl := Except.ok.inj hbucket'
    obtain rfl : share = share' := Option.some.inj (hshare.symm.trans hshare')
    have hrefund' : refund = snap.required * share / 10000 := by
      rw [hrefund, hstaked] at heq
      exact Except.ok.inj heq
    exact forfeit_floor (hcell.floor mult (List.mem_of_getElem? hmult)) hle hvolume
      (Nat.min_le_left _ _) hrequired hrefund' (by rw [hsplit, hstaked])
  have hposc : (0 : ℚ) < a.fillAmount := by exact_mod_cast hok.fill_pos
  have hcast : (k * actual * notional : ℚ)
      ≤ a.fillAmount * (10000 * forfeited + mult + 10000) := by exact_mod_cast hbound
  rw [sub_le_iff_le_add, div_le_iff₀ (by positivity)]
  linarith

/-- Under the default configuration, whose floor is 1428 bps, half of a
commitment of 1000 with 800 left to deliver: 100 of the stake of 200 are
forfeited, against a floor of 71. -/
theorem kappa_floor_sound_default :
    ∃ (s₁' : AuctionState Unit) (notional mult forfeited : Nat),
      (s₁'.pendingReturns 101 = 100 ∧ s₁'.pendingReturns 7 = 100) ∧
      (1428 * 500 * notional : ℚ) / (10000 * 1000) - (mult / 10000 + 1) ≤ forfeited := by
  have hreturns : Returns (do
      let s₀ ← setReactor ⟨1, 1⟩ (deployed (κ := Unit) 1) 1 5
      let s ← register none ⟨1, 1⟩ s₀ 5 200 ⟨7, (), 1000, 1000, 100, 0, 0⟩
      let s₁' ← onFillSuccess ⟨100, 101⟩ ⟨2, 2⟩ s 5 () 7 500 800
      pure (s₀, s, s₁'))
      (fun t => t.1.config = defaultStakeConfig ∧
        (t.2.1.registrations () 7).refundRow[3]? = some 5000 ∧
        t.2.2.pendingReturns 101 = 100 ∧ t.2.2.pendingReturns 7 = 100) := by
    decide +kernel
  obtain ⟨⟨_, _, _⟩, hok, hconfig, hshare, hreturned⟩ := hreturns
  simp only [bind_eq_ok, pure_eq_ok, Prod.mk.injEq] at hok
  obtain ⟨s₀, -, s, hreg, s₁', hfill, rfl, rfl, rfl⟩ := hok
  have hvalid : validateConfig s₀.config = .ok () := by
    rw [hconfig]
    decide +kernel
  have hkappa : worstCaseKappaBps s₀.config = .ok 1428 := by
    rw [hconfig]
    decide +kernel
  have hbucket : getFillRatioBucket 500 (min 1000 800) s₀.config.ratioThresholds = .ok 3 := by
    rw [hconfig]
    decide +kernel
  obtain ⟨notional, mult, refund, forfeited, -, -, -, -, hbound⟩ :=
    kappa_floor_sound hvalid hkappa (by decide) hreg .refl hfill (by decide) hbucket hshare
      (by decide)
  exact ⟨s₁', notional, mult, forfeited, ⟨hreturned.1, hreturned.2⟩, by exact_mod_cast hbound⟩

end FillAuction

end NeutronX
