import Mathlib.Data.Rat.Floor
import NeutronX.Evm.Checked

/-!
# Signed words

A value of type `intw` is an integer in its range. Arithmetic checks the
range, a narrowing cast drops the high bits without a word, and division
rounds towards zero: for a floor, one is taken off where a negative
dividend leaves a remainder.
-/

namespace Evm

/-- `n` is a value of type `intw`. -/
def FitsInt (w : Nat) (n : Int) : Prop := -2 ^ (w - 1) ≤ n ∧ n < 2 ^ (w - 1)

instance (w : Nat) (n : Int) : Decidable (FitsInt w n) := inferInstanceAs (Decidable (_ ∧ _))

/-- The cast `intw(n)`, which keeps the low bits. -/
def toInt (w : Nat) (n : Int) : Int := n.bmod (2 ^ w)

/-- An arithmetic result of type `intw`. -/
def checkedInt (w : Nat) (n : Int) : Except Revert Int :=
  if FitsInt w n then .ok n else .error (.panic .arithmetic)

@[simp] theorem checkedInt_eq_ok {w : Nat} {n r : Int} :
    checkedInt w n = .ok r ↔ FitsInt w n ∧ n = r := by
  by_cases h : FitsInt w n <;> simp [checkedInt, h]

theorem toInt_of_fits {w : Nat} (hw : 0 < w) {n : Int} (h : FitsInt w n) : toInt w n = n := by
  have hpow : (2 : Int) ^ w = 2 * 2 ^ (w - 1) := by
    conv_lhs => rw [← Nat.sub_add_cancel hw, pow_succ]
    exact mul_comm _ _
  obtain ⟨hle, hlt⟩ := h
  refine Int.bmod_eq_of_le_mul_two ?_ ?_ <;> push_cast <;> omega

/-! ## Floors -/

/-- The floor of a quotient, from the one that is rounded towards zero. -/
theorem ediv_eq_tdiv {n d : Int} (hd : 0 < d) :
    n / d = if n < 0 ∧ n.tmod d ≠ 0 then n.tdiv d - 1 else n.tdiv d := by
  have htrunc := Int.tdiv_eq_ediv (a := n) (b := d)
  rw [Int.sign_eq_one_of_pos hd] at htrunc
  have hdvd : d ∣ n ↔ n.tmod d = 0 := Int.dvd_iff_tmod_eq_zero
  by_cases hneg : n < 0 ∧ n.tmod d ≠ 0
  · have hrest : ¬(0 ≤ n ∨ d ∣ n) := by
      rintro (hpos | hdiv)
      · omega
      · exact hneg.2 (hdvd.mp hdiv)
    rw [if_neg hrest] at htrunc
    rw [if_pos hneg]
    omega
  · have hexact : 0 ≤ n ∨ d ∣ n := by
      by_cases hpos : 0 ≤ n
      · exact .inl hpos
      · right
        by_contra hdiv
        exact hneg ⟨by omega, fun hzero => hdiv (hdvd.mpr hzero)⟩
    rw [if_pos hexact] at htrunc
    rw [if_neg hneg]
    omega

/-- Where the floor is in range, so is the quotient before it is rounded. -/
theorem fits_tdiv {w : Nat} {n d : Int} (hd : 0 < d) (h : FitsInt w (n / d)) :
    FitsInt w (n.tdiv d) := by
  have hfloor := ediv_eq_tdiv (n := n) hd
  obtain ⟨hle, hlt⟩ := h
  split at hfloor
  case isTrue hneg =>
      -- a negative quotient rounds up to at most zero
      have hnonpos : n / d < 0 := Int.ediv_neg_of_neg_of_pos hneg.1 hd
      have hpow : (0 : Int) < 2 ^ (w - 1) := by positivity
      exact ⟨by omega, by omega⟩
  case isFalse => exact ⟨by omega, by omega⟩

end Evm
