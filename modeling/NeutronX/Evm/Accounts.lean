import Mathlib.Algebra.Order.BigOperators.Group.Finset
import Mathlib.Data.Fintype.BigOperators

/-!
# Totals over a mapping

A Solidity mapping is a total function from its keys, zero where nothing
was written, and its keys are machine words, so a sum over all of them is
a finite sum. A write at one key moves the total by the new value minus
the old one; stated without subtraction, on both sides of an equation.
-/

namespace Evm

open Function

section OneKey

variable {κ V : Type} [Fintype κ]

/-- The sum of `w` over every entry of the mapping. -/
def total (w : V → Nat) (f : κ → V) : Nat := ∑ k, w (f k)

theorem le_total (w : V → Nat) (f : κ → V) (k : κ) : w (f k) ≤ total w f :=
  Finset.single_le_sum (f := fun j => w (f j)) (fun _ _ => Nat.zero_le _) (Finset.mem_univ k)

theorem total_const_zero {w : V → Nat} {f : κ → V} (h : ∀ k, w (f k) = 0) : total w f = 0 :=
  Finset.sum_eq_zero fun k _ => h k

variable [DecidableEq κ]

theorem total_update (w : V → Nat) (f : κ → V) (k : κ) (v : V) :
    total w (update f k v) + w (f k) = total w f + w v := by
  have h1 := Finset.add_sum_erase Finset.univ (fun j => w (update f k v j)) (Finset.mem_univ k)
  have h2 := Finset.add_sum_erase Finset.univ (fun j => w (f j)) (Finset.mem_univ k)
  have hrest : ∑ j ∈ Finset.univ.erase k, w (update f k v j)
      = ∑ j ∈ Finset.univ.erase k, w (f j) :=
    Finset.sum_congr rfl fun j hj => by rw [update_of_ne (Finset.ne_of_mem_erase hj)]
  simp only [update_self] at h1
  simp only [total]
  omega

end OneKey

section TwoKeys

variable {κ α V : Type} [DecidableEq κ] [DecidableEq α]

/-- `m[k][a] = v` on a mapping of mappings. -/
def update₂ (m : κ → α → V) (k : κ) (a : α) (v : V) : κ → α → V :=
  update m k (update (m k) a v)

theorem update₂_apply (m : κ → α → V) (k j : κ) (a b : α) (v : V) :
    update₂ m k a v j b = if j = k ∧ b = a then v else m j b := by
  by_cases hj : j = k
  · subst hj
    by_cases hb : b = a <;> simp [update₂, hb]
  · simp [update₂, hj]

@[simp] theorem update₂_self (m : κ → α → V) (k : κ) (a : α) (v : V) :
    update₂ m k a v k a = v := by
  simp [update₂]

theorem update₂_of_ne {m : κ → α → V} {k j : κ} {a b : α} (h : ¬(j = k ∧ b = a)) (v : V) :
    update₂ m k a v j b = m j b := by
  rw [update₂_apply, if_neg h]

/-- Writing what is there. -/
@[simp] theorem update₂_eq_self (m : κ → α → V) (k : κ) (a : α) : update₂ m k a (m k a) = m := by
  simp [update₂]

end TwoKeys

end Evm
