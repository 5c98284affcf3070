import Mathlib.Algebra.Order.Ring.Nat
import Mathlib.Tactic.Linarith
import NeutronX.Auction

/-!
# The stake-config route

Before an administrator signs a new configuration the backend checks it
with its own copy of `worstCaseKappaBps`, to name the cell that is too
generous. The copy walks the same tables, but keeps the best cell so far
where the library keeps a running minimum that starts at the largest word,
and turns each kappa into a JavaScript number.

The two loops run in step (`Tracks`). For a configuration of the shape and
within the bounds the contract checks, a kappa is below 2^53, so no number
is rounded, and below the largest word, so the first cell counts in both.
-/

namespace NeutronX

open Evm

namespace StakeConfigRoute

open DynamicStakeLib

/-! ## The route -/

/-- `Number(n)` of a bigint: the nearest double, an even one of two. -/
def Number (n : Nat) : Nat :=
  if n < 2 ^ 53 then n
  else
    let unit := 2 ^ (n.log2 - 52)
    let rest := n % unit
    let up := if unit < 2 * rest ∨ (unit = 2 * rest ∧ n / unit % 2 = 1) then 1 else 0
    (n / unit + up) * unit

/-- A worst-case kappa and the cell it is of. -/
structure Worst where
  kappaBps : Nat
  /-- the size row -/
  s : Nat
  /-- the ratio column -/
  idx : Nat
deriving DecidableEq

/-- The last of the first `k` columns of row `s` that refunds less than
100%. The reads are in bounds, as the shape of the table was checked. -/
def lastDeterring (cfg : StakeConfig) (s R : Nat) : Nat → Option Nat
  | 0 => none
  | k + 1 =>
      if cfg.refundTable.getD (s * R + k) 0 < 10000 then some k else lastDeterring cfg s R k

/-- `best === null || kappa < best.kappaBps` -/
def worseThan (kappa : Nat) : Option Worst → Bool
  | none => true
  | some best => kappa < best.kappaBps

/-- The inner loop, over the time buckets of row `s`. -/
def worstOverTimes (s idx rho penalty x : Nat) (best : Option Worst) :
    List Nat → Option Worst
  | [] => best
  | mult :: mults =>
      let combined := rho * mult / 10000
      let kappa := Number (combined * penalty / x)
      worstOverTimes s idx rho penalty x
        (if worseThan kappa best then some ⟨kappa, s, idx⟩ else best) mults

/-- The outer loop, over the size rows from row `s` on. -/
def worstOverRows (cfg : StakeConfig) (R s : Nat) (best : Option Worst) :
    List Nat → Option Worst
  | [] => best
  | rho :: rates =>
      match lastDeterring cfg s R (R - 1) with
      | none => some ⟨0, s, 0⟩
      | some idx =>
          let x := cfg.ratioThresholds.getD idx 0
          if x = 0 then some ⟨0, s, idx⟩
          else
            let penalty := 10000 - cfg.refundTable.getD (s * R + idx) 0
            worstOverRows cfg R (s + 1) (worstOverTimes s idx rho penalty x best cfg.timeMult) rates

/-- `null` where the shape is wrong. -/
def worstCaseKappa (cfg : StakeConfig) : Option Worst :=
  let S := cfg.collateralRate.length
  let T := cfg.timeMult.length
  let R := cfg.ratioThresholds.length + 1
  if S < 1 ∨ T < 1 ∨ cfg.refundTable.length ≠ S * R then none
  else if R < 2 then some ⟨0, 0, 0⟩
  else worstOverRows cfg R 0 none cfg.collateralRate

def minKappaBps : Nat := 1000

/-- The reason layer 1 of `POST /validate` refuses a configuration for. -/
def refusedFor (cfg : StakeConfig) : Option String :=
  if cfg.refundTable.length ≠ cfg.collateralRate.length * (cfg.ratioThresholds.length + 1) then
    some "bad refund shape"
  else
    match worstCaseKappa cfg with
    | some wc => if wc.kappaBps < minKappaBps then some "kappa floor breached" else none
    | none => none

/-! ## The contract's shape and bound checks -/

/-- What `validate` requires before the kappa floor. -/
def checkShape (c : StakeConfig) (minCollateralRate maxCollateralRate maxRefundBps maxBuckets : Nat) :
    Except Revert Unit := do
  let S := c.collateralRate.length
  let T := c.timeMult.length
  let R := c.ratioThresholds.length + 1
  require (S = c.sizeThresholds.length + 1) "bad size shape"
  require (T = c.timeThresholds.length + 1) "bad time shape"
  require (c.refundTable.length = S * R) "bad refund shape"
  require (1 ≤ S ∧ S ≤ maxBuckets) "bad size bucket count"
  require (1 ≤ T ∧ T ≤ maxBuckets) "bad time bucket count"
  require (1 ≤ R ∧ R ≤ maxBuckets) "bad ratio bucket count"
  checkIncreasing c.sizeThresholds "size thresholds not increasing"
  checkIncreasing c.ratioThresholds "ratio thresholds not increasing"
  checkDecreasing c.timeThresholds "time thresholds not decreasing"
  forRange 0 S fun i => do
    let rate ← getAt c.collateralRate i
    require (minCollateralRate ≤ rate ∧ rate ≤ maxCollateralRate) "rate out of bounds"
  forRange 0 S fun s => checkRefundRow c.refundTable maxRefundBps R (s * R) 0

variable {c : StakeConfig} {minRate maxRate maxRefundBps maxBuckets minKappa : Nat}

theorem validate_of_checkShape (h : checkShape c minRate maxRate maxRefundBps maxBuckets = .ok ()) :
    validate c minRate maxRate maxRefundBps maxBuckets minKappa = (do
      let kappa ← worstCaseKappaBps c
      require (minKappa ≤ kappa) "kappa floor breached") := by
  have hsplit : validate c minRate maxRate maxRefundBps maxBuckets minKappa = (do
      checkShape c minRate maxRate maxRefundBps maxBuckets
      let kappa ← worstCaseKappaBps c
      require (minKappa ≤ kappa) "kappa floor breached") := by
    simp only [validate, checkShape, bind_assoc]
  rw [hsplit, h]
  rfl

/-- What the two loops rely on. -/
structure Shaped (c : StakeConfig) (maxRate : Nat) : Prop where
  refunds : c.refundTable.length = c.collateralRate.length * (c.ratioThresholds.length + 1)
  sizes : 1 ≤ c.collateralRate.length
  times : 1 ≤ c.timeMult.length
  rates : ∀ rate ∈ c.collateralRate, rate ≤ maxRate

theorem shaped_of_checkShape (h : checkShape c minRate maxRate maxRefundBps maxBuckets = .ok ()) :
    Shaped c maxRate := by
  simp only [checkShape, bind_eq_ok, require_eq_ok] at h
  obtain ⟨_, -, _, -, _, hrefunds, _, ⟨hsizes, -⟩, _, ⟨htimes, -⟩, _, -, _, -, _, -, _, -, _,
    hrates, -⟩ := h
  refine ⟨hrefunds, hsizes, htimes, fun rate hmem => ?_⟩
  obtain ⟨i, hi, rfl⟩ := List.getElem_of_mem hmem
  have hround := forRange_eq_ok.mp hrates i (Nat.zero_le i) (by omega)
  simp only [bind_eq_ok, getAt_eq_ok, require_eq_ok] at hround
  obtain ⟨rate, hrate, -, hle⟩ := hround
  rw [List.getElem?_eq_getElem hi, Option.some.injEq] at hrate
  rwa [hrate]

/-! ## Cells -/

/-- The kappa of one (size, ratio, time) cell, 0 where the column has no
threshold above 0. -/
def cellKappa (cfg : StakeConfig) (s r t : Nat) : Nat :=
  let x := cfg.ratioThresholds.getD r 0
  let refund := cfg.refundTable.getD (s * (cfg.ratioThresholds.length + 1) + r) 0
  if x = 0 then 0
  else cfg.collateralRate.getD s 0 * cfg.timeMult.getD t 0 / 10000 * (10000 - refund) / x

/-- The kappa of a worst cell is that of the cell, in some time bucket. -/
structure Worst.Attained (w : Worst) (cfg : StakeConfig) : Prop where
  row : w.s < cfg.collateralRate.length
  column : w.idx < cfg.ratioThresholds.length + 1
  time : ∃ t, t < cfg.timeMult.length ∧ cellKappa cfg w.s w.idx t = w.kappaBps

/-- A kappa is a number. -/
theorem kappa_lt {rho mult penalty x : Nat} (hrho : rho ≤ 1000000) (hmult : mult < 2 ^ 32)
    (hpenalty : penalty ≤ 10000) : rho * mult / 10000 * penalty / x < 2 ^ 53 := by
  have hproduct : rho * mult ≤ 1000000 * 2 ^ 32 := Nat.mul_le_mul hrho (Nat.le_of_lt hmult)
  have hcombined : rho * mult / 10000 ≤ 1000000 * 2 ^ 32 / 10000 := Nat.div_le_div_right hproduct
  have hkappa : rho * mult / 10000 * penalty ≤ 1000000 * 2 ^ 32 / 10000 * 10000 :=
    Nat.mul_le_mul hcombined hpenalty
  calc rho * mult / 10000 * penalty / x ≤ rho * mult / 10000 * penalty := Nat.div_le_self _ _
    _ ≤ 1000000 * 2 ^ 32 / 10000 * 10000 := hkappa
    _ < 2 ^ 53 := by norm_num

theorem Number_of_lt {n : Nat} (h : n < 2 ^ 53) : Number n = n := if_pos h

/-! ## The loops in step -/

/-- The best cell so far against the running minimum. -/
def Tracks (cfg : StakeConfig) : Option Worst → Nat → Prop
  | none, worst => worst = maxUint 256
  | some w, worst => w.kappaBps = worst ∧ w.Attained cfg

/-- The downward searches of a row find the same column, which both may
read. -/
theorem lastNonHonest_eq {cfg : StakeConfig} {s R : Nat} :
    ∀ {k : Nat}, s * R + k ≤ cfg.refundTable.length →
      lastNonHonest cfg s R k = .ok (lastDeterring cfg s R k)
  | 0, _ => rfl
  | k + 1, h => by
      have hin : s * R + k < cfg.refundTable.length := by omega
      have hread : cfg.refundTable.getD (s * R + k) 0 = cfg.refundTable[s * R + k] := by
        simp [List.getD_eq_getElem?_getD, List.getElem?_eq_getElem hin]
      have ih : lastNonHonest cfg s R k = .ok (lastDeterring cfg s R k) :=
        lastNonHonest_eq (by omega)
      simp only [lastNonHonest, lastDeterring, getAt_of_lt hin, hread]
      show (if cfg.refundTable[s * R + k] < 10000 then (.ok (some k) : Except Revert (Option Nat))
        else lastNonHonest cfg s R k) = _
      split
      · rfl
      · exact ih

theorem lastDeterring_lt {cfg : StakeConfig} {s R : Nat} :
    ∀ {k i : Nat}, lastDeterring cfg s R k = some i →
      i < k ∧ cfg.refundTable.getD (s * R + i) 0 < 10000
  | 0, i, h => by cases h
  | k + 1, i, h => by
      unfold lastDeterring at h
      split at h
      · rename_i hless
        obtain rfl := Option.some.inj h
        exact ⟨Nat.lt_succ_self k, hless⟩
      · obtain ⟨hlt, hless⟩ := lastDeterring_lt h
        exact ⟨Nat.lt_succ_of_lt hlt, hless⟩

/-- A row whose last column of the first `k` refunds all from the start
refunds all in the first. -/
theorem lastDeterring_none {cfg : StakeConfig} {s R : Nat} :
    ∀ {k : Nat}, lastDeterring cfg s R k = none → 0 < k → 10000 ≤ cfg.refundTable.getD (s * R) 0
  | 0, _, hpos => absurd hpos (Nat.lt_irrefl 0)
  | 1, h, _ => by
      unfold lastDeterring at h
      split at h
      · cases h
      · rename_i hfull
        simpa using hfull
  | k + 2, h, _ => by
      unfold lastDeterring at h
      split at h
      · cases h
      · exact lastDeterring_none h (Nat.succ_pos k)

section Loops

variable {cfg : StakeConfig} {s idx rho penalty x : Nat} {best : Option Worst} {worst : Nat}

/-- One cell keeps the loops in step: either both take it, or neither does. -/
theorem Tracks.cell (h : Tracks cfg best worst) {kappa : Nat} (hword : kappa < maxUint 256)
    (hattained : Worst.Attained ⟨kappa, s, idx⟩ cfg) :
    Tracks cfg (if worseThan kappa best then some ⟨kappa, s, idx⟩ else best)
      (if kappa < worst then kappa else worst) := by
  cases best with
  | none =>
      obtain rfl : worst = maxUint 256 := h
      rw [if_pos (show worseThan kappa none = true from rfl), if_pos hword]
      exact ⟨rfl, hattained⟩
  | some w =>
      obtain ⟨rfl, hw⟩ := h
      by_cases hlt : kappa < w.kappaBps
      · rw [if_pos (show worseThan kappa (some w) = true by simpa [worseThan] using hlt),
          if_pos hlt]
        exact ⟨rfl, hattained⟩
      · rw [if_neg (show ¬ worseThan kappa (some w) = true by simpa [worseThan] using hlt),
          if_neg hlt]
        exact ⟨rfl, hw⟩

theorem worseThan_isSome (w : Worst) (kappa : Nat) :
    (if worseThan kappa best then some w else best).isSome := by
  cases best with
  | none => rfl
  | some _ => split <;> rfl

/-- Once there is a best cell there is one to the end. -/
theorem worstOverTimes_isSome :
    ∀ (mults : List Nat) {best : Option Worst}, best.isSome ∨ mults ≠ [] →
      (worstOverTimes s idx rho penalty x best mults).isSome
  | [], _, h => h.elim id fun hne => absurd rfl hne
  | _ :: mults, _, _ => worstOverTimes_isSome mults (.inl (worseThan_isSome _ _))

/-- The multipliers of the time buckets from `t` on. -/
def MultsFrom (cfg : StakeConfig) (t : Nat) (mults : List Nat) : Prop :=
  ∀ i mult, mults[i]? = some mult →
    t + i < cfg.timeMult.length ∧ cfg.timeMult.getD (t + i) 0 = mult ∧ mult < 2 ^ 32

theorem MultsFrom.tail {t mult : Nat} {mults : List Nat} (h : MultsFrom cfg t (mult :: mults)) :
    MultsFrom cfg (t + 1) mults := by
  intro i mult' hi
  have hlater := h (i + 1) mult' hi
  rwa [show t + (i + 1) = t + 1 + i by omega] at hlater

/-- The time loops keep in step; `t` is the bucket of the first multiplier
of the list. -/
theorem worstOverTimes_tracks (hs : s < cfg.collateralRate.length)
    (hidx : idx < cfg.ratioThresholds.length + 1) (hrho : cfg.collateralRate.getD s 0 = rho)
    (hx : cfg.ratioThresholds.getD idx 0 = x) (hpos : x ≠ 0) (hrate : rho ≤ 1000000)
    (hpenalty : penalty
      = 10000 - cfg.refundTable.getD (s * (cfg.ratioThresholds.length + 1) + idx) 0)
    {mults : List Nat} {t : Nat} (hmults : MultsFrom cfg t mults) (h : Tracks cfg best worst) :
    ∃ worst', kappaOverTimes rho penalty x worst mults = .ok worst' ∧
      Tracks cfg (worstOverTimes s idx rho penalty x best mults) worst' := by
  induction mults generalizing t best worst with
  | nil => exact ⟨worst, rfl, h⟩
  | cons mult mults ih =>
      obtain ⟨ht, hmult, hwidth⟩ := hmults 0 mult rfl
      have hkappa : rho * mult / 10000 * penalty / x < 2 ^ 53 :=
        kappa_lt hrate hwidth (by omega)
      have hcombined : mulDiv rho mult 10000 = .ok (rho * mult / 10000) := by
        have hproduct : rho * mult ≤ 1000000 * 2 ^ 32 :=
          Nat.mul_le_mul hrate (Nat.le_of_lt hwidth)
        have hfits : rho * mult / 10000 < wordSize :=
          Nat.lt_of_le_of_lt (Nat.le_trans (Nat.div_le_self _ _) hproduct) (by decide)
        exact mulDiv_eq_ok.mpr ⟨⟨by decide, hfits⟩, rfl⟩
      have hcell : mulDiv (rho * mult / 10000) penalty x
          = .ok (rho * mult / 10000 * penalty / x) :=
        mulDiv_eq_ok.mpr ⟨⟨hpos, Nat.lt_trans hkappa (by decide)⟩, rfl⟩
      have hattained : Worst.Attained ⟨rho * mult / 10000 * penalty / x, s, idx⟩ cfg := by
        refine ⟨hs, hidx, t + 0, ht, ?_⟩
        rw [cellKappa]
        dsimp only
        rw [hx, if_neg hpos, hrho, hmult, ← hpenalty]
      have hnext := h.cell (Nat.lt_trans hkappa (by decide)) hattained
      obtain ⟨worst', hloop, htracks⟩ := ih hmults.tail hnext
      refine ⟨worst', ?_, ?_⟩
      · simp only [kappaOverTimes, hcombined, hcell, bind, Except.bind]
        exact hloop
      · simp only [worstOverTimes, Number_of_lt hkappa]
        exact htracks

/-- The row loops keep in step from row `s` on, and end with a best cell. -/
theorem worstOverRows_tracks (hshaped : Shaped cfg 1000000)
    (hwidth : ∀ mult ∈ cfg.timeMult, mult < 2 ^ 32)
    (hratio : 0 < cfg.ratioThresholds.length) :
    ∀ (rates : List Nat) {s : Nat}, s + rates.length = cfg.collateralRate.length →
      (∀ i rate, rates[i]? = some rate → cfg.collateralRate[s + i]? = some rate) →
      ∀ {best : Option Worst} {worst : Nat}, Tracks cfg best worst →
        (best.isSome ∨ rates ≠ []) →
        ∃ w, worstOverRows cfg (cfg.ratioThresholds.length + 1) s best rates = some w ∧
          kappaOverRows cfg (cfg.ratioThresholds.length + 1) s worst rates = .ok w.kappaBps ∧
          w.Attained cfg
  | [], s, _, _, best, worst, h, hsome => by
      rcases hsome with hsome | hne
      · obtain ⟨w, rfl⟩ := Option.isSome_iff_exists.mp hsome
        obtain ⟨rfl, hw⟩ := h
        exact ⟨w, rfl, rfl, hw⟩
      · exact absurd rfl hne
  | rate :: rates, s, hlength, hrates, best, worst, h, _ => by
      have hs : s < cfg.collateralRate.length := by
        rw [← hlength, List.length_cons]
        omega
      have hrate : cfg.collateralRate[s]? = some rate := hrates 0 rate rfl
      have hrow : s * (cfg.ratioThresholds.length + 1) + cfg.ratioThresholds.length
          < cfg.refundTable.length := by
        have hle : (s + 1) * (cfg.ratioThresholds.length + 1)
            ≤ cfg.collateralRate.length * (cfg.ratioThresholds.length + 1) :=
          Nat.mul_le_mul_right _ hs
        rw [hshaped.refunds]
        rw [Nat.succ_mul] at hle
        omega
      have hsearch : lastNonHonest cfg s (cfg.ratioThresholds.length + 1)
          cfg.ratioThresholds.length = .ok (lastDeterring cfg s (cfg.ratioThresholds.length + 1)
            cfg.ratioThresholds.length) :=
        lastNonHonest_eq (Nat.le_of_lt hrow)
      obtain ⟨t, ht⟩ : ∃ t, t < cfg.timeMult.length := ⟨0, hshaped.times⟩
      simp only [worstOverRows, kappaOverRows, Nat.add_sub_cancel, hsearch, bind, Except.bind]
      cases hfound : lastDeterring cfg s (cfg.ratioThresholds.length + 1)
          cfg.ratioThresholds.length with
      | none =>
          -- nothing of this row deters, its first column included
          refine ⟨⟨0, s, 0⟩, rfl, rfl, hs, Nat.succ_pos _, t, ht, ?_⟩
          have hfull := lastDeterring_none hfound hratio
          rw [cellKappa]
          dsimp only
          rw [Nat.add_zero, Nat.sub_eq_zero_of_le hfull, Nat.mul_zero, Nat.zero_div, ite_self]
      | some idx =>
          obtain ⟨hidx, hless⟩ := lastDeterring_lt hfound
          have hx : cfg.ratioThresholds.getD idx 0 = cfg.ratioThresholds[idx] := by
            simp [List.getD_eq_getElem?_getD, List.getElem?_eq_getElem hidx]
          have hcell : s * (cfg.ratioThresholds.length + 1) + idx < cfg.refundTable.length := by
            omega
          have hrefund : cfg.refundTable.getD (s * (cfg.ratioThresholds.length + 1) + idx) 0
              = cfg.refundTable[s * (cfg.ratioThresholds.length + 1) + idx] := by
            simp [List.getD_eq_getElem?_getD, List.getElem?_eq_getElem hcell]
          simp only [getAt_of_lt hidx, ← hx]
          by_cases hzero : cfg.ratioThresholds.getD idx 0 = 0
          · rw [if_pos hzero, if_pos hzero]
            refine ⟨⟨0, s, idx⟩, rfl, rfl, hs, Nat.lt_succ_of_lt hidx, t, ht, ?_⟩
            rw [cellKappa]
            dsimp only
            rw [if_pos hzero]
          · rw [if_neg hzero, if_neg hzero]
            have hsub : checkedSub 10000
                (cfg.refundTable.getD (s * (cfg.ratioThresholds.length + 1) + idx) 0)
                = .ok (10000
                  - cfg.refundTable.getD (s * (cfg.ratioThresholds.length + 1) + idx) 0) :=
              checkedSub_eq_ok.mpr ⟨Nat.le_of_lt hless, rfl⟩
            have hmults : MultsFrom cfg 0 cfg.timeMult := by
              intro i mult hi
              have hmem : mult ∈ cfg.timeMult := List.mem_of_getElem? hi
              obtain ⟨hlt, -⟩ := List.getElem?_eq_some_iff.mp hi
              rw [Nat.zero_add]
              exact ⟨hlt, by simp [List.getD_eq_getElem?_getD, hi], hwidth mult hmem⟩
            obtain ⟨worst', htimes, htracks⟩ := worstOverTimes_tracks hs (Nat.lt_succ_of_lt hidx)
              (by simp [List.getD_eq_getElem?_getD, hrate]) rfl hzero
              (hshaped.rates rate (List.mem_of_getElem? hrate)) rfl hmults h
            have hnonempty : cfg.timeMult ≠ [] := List.ne_nil_of_length_pos hshaped.times
            have hrest : ∀ i rate', rates[i]? = some rate' →
                cfg.collateralRate[s + 1 + i]? = some rate' := by
              intro i rate' hi
              have hlater := hrates (i + 1) rate' hi
              rwa [show s + (i + 1) = s + 1 + i by omega] at hlater
            obtain ⟨w, hroute, hlib, hw⟩ := worstOverRows_tracks hshaped hwidth hratio rates
              (by rw [← hlength, List.length_cons]; omega) hrest htracks
              (.inl (worstOverTimes_isSome _ (.inr hnonempty)))
            refine ⟨w, hroute, ?_, hw⟩
            rw [getAt_of_lt hcell, ← hrefund]
            simp only [hsub, htimes]
            exact hlib

end Loops

/-- The two walks end at the same kappa, and the route's cell has it. -/
theorem worstCaseKappa_tracks {cfg : StakeConfig} (hshaped : Shaped cfg 1000000)
    (hwidth : ∀ mult ∈ cfg.timeMult, mult < 2 ^ 32) :
    ∃ w, worstCaseKappa cfg = some w ∧ worstCaseKappaBps cfg = .ok w.kappaBps ∧
      w.Attained cfg := by
  have hsizes := hshaped.sizes
  have htimes := hshaped.times
  have hshape : ¬ (cfg.collateralRate.length < 1 ∨ cfg.timeMult.length < 1 ∨
      cfg.refundTable.length ≠ cfg.collateralRate.length * (cfg.ratioThresholds.length + 1)) := by
    rintro (hS | hT | hR)
    · omega
    · omega
    · exact hR hshaped.refunds
  rw [worstCaseKappa, worstCaseKappaBps, if_neg hshape]
  by_cases hratio : cfg.ratioThresholds.length + 1 < 2
  · rw [if_pos hratio, if_pos hratio]
    refine ⟨⟨0, 0, 0⟩, rfl, rfl, hsizes, Nat.succ_pos _, 0, htimes, ?_⟩
    have hnone : cfg.ratioThresholds = [] := List.length_eq_zero_iff.mp (by omega)
    rw [cellKappa, hnone]
    exact if_pos rfl
  · rw [if_neg hratio, if_neg hratio]
    exact worstOverRows_tracks hshaped hwidth (by omega) cfg.collateralRate (Nat.zero_add _)
      (fun i rate hi => by rwa [Nat.zero_add]) rfl
      (.inr (List.ne_nil_of_length_pos hsizes))

open FillAuction in
/-- **The route and the contract agree on the kappa floor.** For whatever
configuration the contract's other checks pass, of any number of buckets,
the route computes the kappa of the library, refuses the configuration
exactly when the contract does, and names a cell that has this kappa in
some time bucket. -/
theorem worstCaseKappa_agrees {cfg : StakeConfig} {maxBuckets : Nat}
    (hchecked : checkShape cfg MIN_COLLATERAL_RATE MAX_COLLATERAL_RATE MAX_REFUND_BPS maxBuckets
      = .ok ())
    (hwidth : ∀ mult ∈ cfg.timeMult, mult < 2 ^ 32) :
    ∃ w, worstCaseKappa cfg = some w ∧ worstCaseKappaBps cfg = .ok w.kappaBps ∧
      (refusedFor cfg = some "kappa floor breached" ↔
        validate cfg MIN_COLLATERAL_RATE MAX_COLLATERAL_RATE MAX_REFUND_BPS maxBuckets
          MIN_WORST_CASE_KAPPA_BPS = .error (.require "kappa floor breached")) ∧
      (refusedFor cfg = none ↔
        validate cfg MIN_COLLATERAL_RATE MAX_COLLATERAL_RATE MAX_REFUND_BPS maxBuckets
          MIN_WORST_CASE_KAPPA_BPS = .ok ()) ∧
      w.Attained cfg := by
  have hshaped : Shaped cfg 1000000 := shaped_of_checkShape hchecked
  obtain ⟨w, hroute, hlib, hattained⟩ := worstCaseKappa_tracks hshaped hwidth
  have hrefused : refusedFor cfg
      = if w.kappaBps < 1000 then some "kappa floor breached" else none := by
    rw [refusedFor, if_neg (fun h => h hshaped.refunds), hroute]
    rfl
  have hvalidate : validate cfg MIN_COLLATERAL_RATE MAX_COLLATERAL_RATE MAX_REFUND_BPS maxBuckets
      MIN_WORST_CASE_KAPPA_BPS = require (1000 ≤ w.kappaBps) "kappa floor breached" := by
    rw [validate_of_checkShape hchecked, hlib]
    rfl
  refine ⟨w, hroute, hlib, ?_, ?_, hattained⟩
  · rw [hrefused, hvalidate]
    by_cases hlow : w.kappaBps < 1000
    · simp [hlow, require]
    · simp [hlow, require, Nat.not_lt.mp hlow]
  · rw [hrefused, hvalidate, require_eq_ok]
    by_cases hlow : w.kappaBps < 1000
    · simp [hlow]
    · simp [hlow, Nat.not_lt.mp hlow]

open FillAuction in
/-- The default configuration: 1428 bps, at the last column of the first row
that refunds less than all, in the first time bucket. -/
theorem worstCaseKappa_agrees_default :
    checkShape defaultStakeConfig MIN_COLLATERAL_RATE MAX_COLLATERAL_RATE MAX_REFUND_BPS
      MAX_BUCKETS = .ok () ∧
    worstCaseKappa defaultStakeConfig = some ⟨1428, 0, 3⟩ ∧
    worstCaseKappaBps defaultStakeConfig = .ok 1428 ∧
    cellKappa defaultStakeConfig 0 3 0 = 1428 := by
  have hchecked : checkShape defaultStakeConfig MIN_COLLATERAL_RATE MAX_COLLATERAL_RATE
      MAX_REFUND_BPS MAX_BUCKETS = .ok () := by decide +kernel
  have hroute : worstCaseKappa defaultStakeConfig = some ⟨1428, 0, 3⟩ := by decide +kernel
  obtain ⟨w, hw, hlib, -⟩ := worstCaseKappa_agrees hchecked (by decide)
  obtain rfl : w = ⟨1428, 0, 3⟩ := Option.some.inj (hw.symm.trans hroute)
  exact ⟨hchecked, hroute, hlib, by decide⟩

end StakeConfigRoute

end NeutronX
