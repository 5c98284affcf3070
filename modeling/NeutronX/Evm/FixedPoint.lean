import Mathlib.Algebra.Order.Floor.Semifield
import Mathlib.Algebra.Order.AbsoluteValue.Basic
import Mathlib.Data.Nat.Cast.Order.Field
import Mathlib.Tactic.FieldSimp
import Mathlib.Tactic.Linarith
import Mathlib.Tactic.Positivity
import Mathlib.Tactic.Ring

/-!
# Fixed-point products and quotients

An integer quotient is the exact one less a part of one unit. Where one of
its operands is itself rounded down, the two errors add up:

- a rounded factor (`floor_mul_div_bounds`) costs at most one unit more, as
  long as the amount it multiplies is no more than the scale;
- a rounded divisor (`abs_div_floor_sub_lt_one`) costs nothing more, as long as the
  quotient is no more than the divisor: its own error goes the other way.
-/

namespace Evm

section

variable {K : Type*} [Field K] [LinearOrder K] [IsStrictOrderedRing K] [FloorSemiring K]

theorem lt_nat_div_add_one (n d : Nat) : (n : K) / d < (n / d : Nat) + 1 := by
  rw [← Nat.floor_div_eq_div (K := K)]
  exact Nat.lt_floor_add_one _

theorem abs_nat_div_sub_lt_one (n d : Nat) : |((n / d : Nat) : K) - n / d| < 1 := by
  have hle : ((n / d : Nat) : K) ≤ n / d := Nat.cast_div_le
  have hlt := lt_nat_div_add_one (K := K) n d
  rw [abs_sub_lt_iff]
  constructor <;> linarith

/-- The product of a rounded factor: two units below the exact one at most. -/
theorem floor_mul_div_bounds {x : K} (hx : 0 ≤ x) {a s : Nat} (has : a ≤ s) (hs : 0 < s) :
    ((⌊x⌋₊ * a / s : Nat) : K) ≤ x * a / s ∧ x * a / s < (⌊x⌋₊ * a / s : Nat) + 2 := by
  have hsK : (0 : K) < s := by exact_mod_cast hs
  have hfloor : (⌊x⌋₊ : K) ≤ x := Nat.floor_le hx
  have hceil : x ≤ ⌊x⌋₊ + 1 := (Nat.lt_floor_add_one x).le
  have hunit : (a : K) / s ≤ 1 := (div_le_one hsK).mpr (by exact_mod_cast has)
  constructor
  · calc ((⌊x⌋₊ * a / s : Nat) : K) ≤ (⌊x⌋₊ * a : Nat) / s := Nat.cast_div_le
      _ = ⌊x⌋₊ * a / s := by push_cast; rfl
      _ ≤ x * a / s := by gcongr
  · calc x * a / s ≤ (⌊x⌋₊ + 1) * a / s := by gcongr
      _ = (⌊x⌋₊ * a : Nat) / s + a / s := by push_cast; ring
      _ ≤ (⌊x⌋₊ * a : Nat) / s + 1 := by gcongr
      _ < (⌊x⌋₊ * a / s : Nat) + 1 + 1 := by gcongr; exact lt_nat_div_add_one _ _
      _ = (⌊x⌋₊ * a / s : Nat) + 2 := by ring

/-- The quotient by a rounded divisor. -/
theorem abs_div_floor_sub_lt_one {x : K} (hx : 1 ≤ x) {m : Nat} (hm : (m : K) / ⌊x⌋₊ ≤ x) :
    |((m / ⌊x⌋₊ : Nat) : K) - m / x| < 1 := by
  have hpos : (0 : K) < ⌊x⌋₊ := by exact_mod_cast Nat.floor_pos.mpr hx
  have hxpos : 0 < x := lt_of_lt_of_le one_pos hx
  have hfloor : (⌊x⌋₊ : K) ≤ x := Nat.floor_le hxpos.le
  have hceil : x < ⌊x⌋₊ + 1 := Nat.lt_floor_add_one x
  have hcast : ((m / ⌊x⌋₊ : Nat) : K) ≤ m / ⌊x⌋₊ := Nat.cast_div_le
  have hlow : (m : K) / x ≤ m / ⌊x⌋₊ := by gcongr
  -- what the divisor lost is a part of one unit of the quotient
  have hgap : (m : K) / ⌊x⌋₊ - m / x < 1 := by
    have hsplit : (m : K) / ⌊x⌋₊ - m / x = m / ⌊x⌋₊ / x * (x - ⌊x⌋₊) := by
      field_simp
    have hratio : (m : K) / ⌊x⌋₊ / x ≤ 1 := (div_le_one hxpos).mpr hm
    calc (m : K) / ⌊x⌋₊ - m / x = m / ⌊x⌋₊ / x * (x - ⌊x⌋₊) := hsplit
      _ ≤ 1 * (x - ⌊x⌋₊) := by
          have hrest : 0 ≤ x - ⌊x⌋₊ := sub_nonneg.mpr hfloor
          gcongr
      _ < 1 := by linarith
  have hlt := lt_nat_div_add_one (K := K) m ⌊x⌋₊
  rw [abs_sub_lt_iff]
  constructor <;> linarith

end

end Evm
