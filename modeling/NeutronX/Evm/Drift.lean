import Mathlib.Algebra.Order.Field.Basic
import Mathlib.Tactic.Linarith
import Mathlib.Tactic.Ring

/-!
# Drift under bounded relative changes

A quantity that changes `k` times, each time by at most the fraction `δ`
of its value, ends between `(1 - δ) ^ k` and `(1 + δ) ^ k` times where it
started. `Drift` says so of a quantity that started somewhere between `lo`
and `hi`; it composes with one more change (`Drift.step`) and loses
nothing by allowing for more changes than there were (`Drift.mono`).
-/

namespace Evm

section Drift

variable {K : Type} [Field K] [LinearOrder K] [IsStrictOrderedRing K]

/-- `v` is reached from between `lo` and `hi` by `k` changes of at most `δ`. -/
structure Drift (δ : K) (k : Nat) (lo hi v : K) : Prop where
  above : (1 - δ) ^ k * lo ≤ v
  below : v ≤ (1 + δ) ^ k * hi

variable {δ lo hi v w : K} {k m : Nat}

omit [IsStrictOrderedRing K] in
theorem Drift.start (hlo : lo ≤ v) (hhi : v ≤ hi) : Drift δ 0 lo hi v := by
  constructor
  · simpa using hlo
  · simpa using hhi

theorem Drift.step (h0 : 0 ≤ δ) (h1 : δ ≤ 1) (h : Drift δ k lo hi v) (hw : Drift δ 1 v v w) :
    Drift δ (k + 1) lo hi w := by
  have hdown : 0 ≤ 1 - δ := by linarith
  have hup : 0 ≤ 1 + δ := by linarith
  constructor
  · calc (1 - δ) ^ (k + 1) * lo = (1 - δ) * ((1 - δ) ^ k * lo) := by ring
      _ ≤ (1 - δ) * v := mul_le_mul_of_nonneg_left h.above hdown
      _ ≤ w := by simpa using hw.above
  · calc w ≤ (1 + δ) * v := by simpa using hw.below
      _ ≤ (1 + δ) * ((1 + δ) ^ k * hi) := mul_le_mul_of_nonneg_left h.below hup
      _ = (1 + δ) ^ (k + 1) * hi := by ring

theorem Drift.mono (h0 : 0 ≤ δ) (h1 : δ ≤ 1) (hlo : 0 ≤ lo) (hhi : 0 ≤ hi) (hkm : k ≤ m)
    (h : Drift δ k lo hi v) : Drift δ m lo hi v := by
  constructor
  · have hpow : (1 - δ) ^ m ≤ (1 - δ) ^ k :=
      pow_le_pow_of_le_one (by linarith) (by linarith) hkm
    exact le_trans (mul_le_mul_of_nonneg_right hpow hlo) h.above
  · have hpow : (1 + δ) ^ k ≤ (1 + δ) ^ m := pow_le_pow_right₀ (by linarith) hkm
    exact le_trans h.below (mul_le_mul_of_nonneg_right hpow hhi)

end Drift

end Evm
