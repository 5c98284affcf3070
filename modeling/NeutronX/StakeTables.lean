import NeutronX.Auction

/-!
# Validated tables

`validate` checks a configuration cell by cell, with the checked reads of
the source. `Tabled` is what it says about the tables as a whole: their
shapes, the order of their thresholds, and refund rows that do not
decrease and end at the full refund. A registration copies its row, so the
same is known of the snapshot it settles against (`RefundRow`).

The bucket lookups are searches for the first threshold that passes a
test. Once the number of buckets is bounded the `uint8` cast keeps the
index, and a lookup is monotone in what is looked up.
-/

namespace NeutronX

open Evm

namespace DynamicStakeLib

/-! ## Loops over tables -/

/-- A loop that compares neighbours checks that a list increases. -/
theorem checkIncreasing_pairwise {xs : List Nat} {msg : String} {u : Unit}
    (h : checkIncreasing xs msg = .ok u) : xs.Pairwise (· < ·) := by
  rw [← List.isChain_iff_pairwise, List.isChain_iff_getElem]
  intro i hi
  have hround := forRange_eq_ok.mp h (i + 1) (by omega) (by omega)
  simp only [bind_eq_ok, getAt_eq_ok, require_eq_ok, Nat.add_sub_cancel] at hround
  obtain ⟨cur, hcur, prev, hprev, hlt⟩ := hround
  rw [List.getElem?_eq_getElem (by omega), Option.some.injEq] at hcur hprev
  rw [hprev, hcur]
  exact hlt

theorem checkDecreasing_pairwise {xs : List Nat} {msg : String} {u : Unit}
    (h : checkDecreasing xs msg = .ok u) : xs.Pairwise (· > ·) := by
  rw [← List.isChain_iff_pairwise, List.isChain_iff_getElem]
  intro i hi
  have hround := forRange_eq_ok.mp h (i + 1) (by omega) (by omega)
  simp only [bind_eq_ok, getAt_eq_ok, require_eq_ok, Nat.add_sub_cancel] at hround
  obtain ⟨cur, hcur, prev, hprev, hlt⟩ := hround
  rw [List.getElem?_eq_getElem (by omega), Option.some.injEq] at hcur hprev
  rw [hprev, hcur]
  exact hlt

/-- A copy holds what it was copied from. -/
theorem copyRange_getElem? {xs : List Nat} :
    ∀ {n lo : Nat} {ys : List Nat}, copyRange xs lo n = .ok ys →
      ∀ i, i < n → ys[i]? = xs[lo + i]?
  | 0, _, _, _, i, hi => absurd hi (Nat.not_lt_zero i)
  | n + 1, lo, ys, h, i, hi => by
      simp only [copyRange, bind_eq_ok, getAt_eq_ok, pure_eq_ok] at h
      obtain ⟨v, hv, vs, hvs, rfl⟩ := h
      cases i with
      | zero => exact hv.symm
      | succ i =>
          rw [List.getElem?_cons_succ, copyRange_getElem? hvs i (Nat.lt_of_succ_lt_succ hi)]
          congr 1
          omega

theorem copyRange_succeeds {xs : List Nat} :
    ∀ {n lo : Nat}, lo + n ≤ xs.length → ∃ ys, copyRange xs lo n = .ok ys
  | 0, _, _ => ⟨[], rfl⟩
  | n + 1, lo, h => by
      have hlater : lo + 1 + n ≤ xs.length := by omega
      obtain ⟨vs, hvs⟩ := copyRange_succeeds hlater
      exact ⟨_, bind_eq_ok.mpr ⟨_, getAt_of_lt (by omega), bind_eq_ok.mpr ⟨vs, hvs, rfl⟩⟩⟩

/-! ## Refund rows -/

/-- A row of refunds: they do not decrease, and the last is `full`. -/
structure RefundRow (row : List Nat) (full : Nat) : Prop where
  mono : row.Pairwise (· ≤ ·)
  last : row[row.length - 1]? = some full

theorem RefundRow.le {row : List Nat} {full i j v w : Nat} (h : RefundRow row full) (hij : i ≤ j)
    (hv : row[i]? = some v) (hw : row[j]? = some w) : v ≤ w := by
  obtain ⟨hi, rfl⟩ := List.getElem?_eq_some_iff.mp hv
  obtain ⟨hj, rfl⟩ := List.getElem?_eq_some_iff.mp hw
  rcases Nat.eq_or_lt_of_le hij with rfl | hlt
  · exact Nat.le_refl _
  · exact List.pairwise_iff_getElem.mp h.mono i j hi hj hlt

theorem RefundRow.le_full {row : List Nat} {full i v : Nat} (h : RefundRow row full)
    (hv : row[i]? = some v) : v ≤ full := by
  have hi := (List.getElem?_eq_some_iff.mp hv).1
  exact h.le (by omega) hv h.last

/-- The checked cells of a row are a row of refunds; the induction carries
the refund before them, which bounds them from below. -/
theorem checkRefundRow_row {table : List Nat} {full : Nat} :
    ∀ {n pos prev : Nat} {u : Unit} {row : List Nat},
      checkRefundRow table full n pos prev = .ok u → copyRange table pos n = .ok row →
      RefundRow (prev :: row) full
  | 0, pos, prev, u, row, h, hrow => by
      simp only [checkRefundRow, require_eq_ok] at h
      simp only [copyRange, Except.ok.injEq] at hrow
      subst h
      subst hrow
      exact ⟨by simp, by simp⟩
  | n + 1, pos, prev, u, row, h, hrow => by
      simp only [checkRefundRow, bind_eq_ok, require_eq_ok] at h
      simp only [copyRange, bind_eq_ok, pure_eq_ok] at hrow
      obtain ⟨v, hv, _, -, _, hprev, hrest⟩ := h
      obtain ⟨v', hv', vs, hvs, rfl⟩ := hrow
      obtain rfl : v = v' := Except.ok.inj (hv.symm.trans hv')
      have ih := checkRefundRow_row hrest hvs
      have hle : ∀ w ∈ v :: vs, prev ≤ w := by
        intro w hw
        rcases List.mem_cons.mp hw with rfl | hw
        · exact hprev
        · exact Nat.le_trans hprev (List.rel_of_pairwise_cons ih.mono hw)
      refine ⟨List.pairwise_cons.mpr ⟨hle, ih.mono⟩, ?_⟩
      simpa using ih.last

/-! ## What validation says -/

/-- The tables of a validated configuration. -/
structure Tabled (c : StakeConfig) (maxRefundBps maxBuckets : Nat) : Prop where
  sizes : c.collateralRate.length = c.sizeThresholds.length + 1
  times : c.timeMult.length = c.timeThresholds.length + 1
  refunds : c.refundTable.length = c.collateralRate.length * (c.ratioThresholds.length + 1)
  sizeBuckets : c.collateralRate.length ≤ maxBuckets
  timeBuckets : c.timeMult.length ≤ maxBuckets
  ratioBuckets : c.ratioThresholds.length + 1 ≤ maxBuckets
  ratioIncreasing : c.ratioThresholds.Pairwise (· < ·)
  timeDecreasing : c.timeThresholds.Pairwise (· > ·)
  rows : ∀ s row, s < c.collateralRate.length →
    copyRange c.refundTable (s * (c.ratioThresholds.length + 1)) (c.ratioThresholds.length + 1)
      = .ok row → RefundRow row maxRefundBps

theorem validate_tabled {c : StakeConfig} {minRate maxRate maxRefundBps maxBuckets minKappa : Nat}
    {u : Unit} (h : validate c minRate maxRate maxRefundBps maxBuckets minKappa = .ok u) :
    Tabled c maxRefundBps maxBuckets := by
  simp only [validate, bind_eq_ok, require_eq_ok] at h
  obtain ⟨_, hsizes, _, htimes, _, hrefunds, _, ⟨-, hS⟩, _, ⟨-, hT⟩, _, ⟨-, hR⟩, _, -, _,
    hratio, _, htime, _, -, _, hrows, -⟩ := h
  refine ⟨hsizes, htimes, hrefunds, hS, hT, hR, checkIncreasing_pairwise hratio,
    checkDecreasing_pairwise htime, fun s row hs hrow => ?_⟩
  have hrow' := checkRefundRow_row (forRange_eq_ok.mp hrows s (Nat.zero_le s) (by omega)) hrow
  have hlength := copyRange_length hrow
  refine ⟨hrow'.mono.of_cons, ?_⟩
  have hlast := hrow'.last
  rw [List.length_cons, Nat.add_sub_cancel, hlength, List.getElem?_cons_succ] at hlast
  rw [hlength]
  exact hlast

section Rows

variable {c : StakeConfig} {maxRefundBps maxBuckets : Nat}

/-- Every size bucket has its row of refunds. -/
theorem Tabled.row (h : Tabled c maxRefundBps maxBuckets) {s : Nat}
    (hs : s < c.collateralRate.length) :
    ∃ row, copyRange c.refundTable (s * (c.ratioThresholds.length + 1))
        (c.ratioThresholds.length + 1) = .ok row ∧
      row.length = c.ratioThresholds.length + 1 ∧ RefundRow row maxRefundBps ∧
      ∀ i, i < c.ratioThresholds.length + 1 →
        row[i]? = c.refundTable[s * (c.ratioThresholds.length + 1) + i]? := by
  have hend : s * (c.ratioThresholds.length + 1) + (c.ratioThresholds.length + 1)
      ≤ c.refundTable.length := by
    rw [h.refunds, ← Nat.succ_mul]
    exact Nat.mul_le_mul_right _ hs
  obtain ⟨row, hrow⟩ := copyRange_succeeds hend
  exact ⟨row, hrow, copyRange_length hrow, h.rows s row hs hrow, copyRange_getElem? hrow⟩

/-- A notional is in one of the size buckets. -/
theorem Tabled.sizeBucket_lt (h : Tabled c maxRefundBps maxBuckets) (notionalEth : Nat) :
    getOrderSizeBucketETH notionalEth c.sizeThresholds < c.collateralRate.length := by
  rw [h.sizes]
  exact Nat.lt_succ_of_le (toUint8_findIdx_le _ _)

end Rows

/-! ## Lookups -/

/-- A later value is looked up no earlier. -/
theorem findIdx_lt_mono {p q : Nat} (thresholds : List Nat) (h : p ≤ q) :
    (thresholds.findIdx fun t => p < t) ≤ thresholds.findIdx fun t => q < t := by
  refine List.findIdx_le_findIdx fun t _ hq => ?_
  simp only [decide_eq_true_eq] at hq ⊢
  omega

/-- Two values no threshold separates are looked up alike. -/
theorem findIdx_lt_congr {p q : Nat} {thresholds : List Nat}
    (h : ∀ t ∈ thresholds, p < t ↔ q < t) :
    (thresholds.findIdx fun t => p < t) = thresholds.findIdx fun t => q < t := by
  apply Nat.le_antisymm
  · exact List.findIdx_le_findIdx fun t ht hq => by simpa using (h t ht).mpr (by simpa using hq)
  · exact List.findIdx_le_findIdx fun t ht hp => by simpa using (h t ht).mp (by simpa using hp)

/-- A short search fits the cast. -/
theorem toUint8_findIdx {xs : List Nat} {p : Nat → Bool} {maxBuckets : Nat}
    (h : xs.length + 1 ≤ maxBuckets) (hmax : maxBuckets ≤ 2 ^ 8) :
    toUint 8 (xs.findIdx p) = xs.findIdx p :=
  toUint_of_lt (Nat.lt_of_le_of_lt List.findIdx_le_length (by omega))

end DynamicStakeLib

end NeutronX
