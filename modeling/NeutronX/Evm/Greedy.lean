import Mathlib.Algebra.Order.Ring.Defs
import Mathlib.Data.List.Forall2
import Mathlib.Data.Nat.Cast.Order.Ring
import Mathlib.Tactic.Linarith
import Mathlib.Tactic.Ring

/-!
# Sharing out a capacity greedily

Whole units of a capacity are shared out among offers, each of which takes
at most its size and gains a fixed amount a unit. Where the offers come by
descending gain, to give each in turn as much as it takes, and to stop at
the first that gains nothing, shares out all that is worth it and gains as
much as any other sharing (`worth_le_greedy`).

The induction is on the offers. The sharing it compares with may be ahead
of the greedy one by some units, which are worth no more than the gain of
the offer at hand (`worth_le_greedy_add`).
-/

namespace Evm

/-- What takes up to `size` units, and what it gains a unit. -/
structure Offer (K : Type) where
  size : Nat
  gain : K

section Greedy

variable {K : Type} [CommRing K] [LinearOrder K]

/-- What a sharing gains. -/
def worth : List (Offer K) → List Nat → K
  | o :: os, t :: ts => t * o.gain + worth os ts
  | _, _ => 0

/-- A sharing of a capacity: no offer takes more than its size, and all of
them no more than the capacity. -/
structure Shares (capacity : Nat) (os : List (Offer K)) (ts : List Nat) : Prop where
  sizes : List.Forall₂ (fun t (o : Offer K) => t ≤ o.size) ts os
  total : ts.sum ≤ capacity

/-- The best offers first, as long as they gain something. -/
def greedy : Nat → List (Offer K) → List Nat
  | _, [] => []
  | capacity, o :: os =>
      if 0 < o.gain then
        min o.size capacity :: greedy (capacity - min o.size capacity) os
      else (o :: os).map fun _ => 0

/-- By descending gain. -/
def Descending (os : List (Offer K)) : Prop := os.Pairwise fun o o' => o'.gain ≤ o.gain

omit [LinearOrder K] in
theorem worth_zeros (os : List (Offer K)) : worth os (os.map fun _ => 0) = 0 := by
  induction os with
  | nil => rfl
  | cons o os ih =>
      show ((0 : Nat) : K) * o.gain + worth os (os.map fun _ => 0) = 0
      rw [ih, Nat.cast_zero, zero_mul, add_zero]

omit [CommRing K] [LinearOrder K] in
theorem shares_zeros (capacity : Nat) (os : List (Offer K)) :
    Shares capacity os (os.map fun _ => 0) := by
  refine ⟨?_, by simp⟩
  induction os with
  | nil => exact .nil
  | cons o os ih => exact .cons (Nat.zero_le _) ih

theorem shares_greedy (capacity : Nat) (os : List (Offer K)) :
    Shares capacity os (greedy capacity os) := by
  induction os generalizing capacity with
  | nil => exact ⟨.nil, Nat.zero_le _⟩
  | cons o os ih =>
      unfold greedy
      split
      · obtain ⟨hsizes, htotal⟩ := ih (capacity - min o.size capacity)
        refine ⟨.cons (Nat.min_le_left _ _) hsizes, ?_⟩
        rw [List.sum_cons]
        omega
      · exact shares_zeros capacity (o :: os)

omit [CommRing K] [LinearOrder K] in
@[simp] theorem sum_zeros (os : List (Offer K)) : (os.map fun _ => 0).sum = 0 := by simp

/-- Of nothing everyone gets nothing. -/
theorem greedy_zero (os : List (Offer K)) : greedy 0 os = os.map fun _ => 0 := by
  induction os with
  | nil => rfl
  | cons o os ih =>
      unfold greedy
      split
      · rw [Nat.min_zero, Nat.sub_zero, ih, List.map_cons]
      · rfl

/-- The greedy sharing takes all there is, or all the offers worth it. -/
theorem sum_greedy {os : List (Offer K)} (hdesc : Descending os) (capacity : Nat) :
    (greedy capacity os).sum
      = min capacity ((os.filter fun o => 0 < o.gain).map fun o => o.size).sum := by
  induction os generalizing capacity with
  | nil => simp [greedy]
  | cons o os ih =>
      obtain ⟨hhead, htail⟩ := List.pairwise_cons.mp hdesc
      unfold greedy
      split
      · rename_i hgain
        rw [List.sum_cons, ih htail, List.filter_cons_of_pos (by simpa using hgain),
          List.map_cons, List.sum_cons]
        omega
      · rename_i hgain
        have hnone : (o :: os).filter (fun o => 0 < o.gain) = [] := by
          rw [List.filter_eq_nil_iff]
          intro o' ho'
          have hle : o'.gain ≤ o.gain := by
            rcases List.mem_cons.mp ho' with rfl | hrest
            · exact le_rfl
            · exact hhead o' hrest
          simpa using le_trans hle (not_lt.mp hgain)
        simp [hnone]

variable [IsStrictOrderedRing K]

/-- Where no offer gains anything, no sharing does. -/
theorem worth_nonpos {os : List (Offer K)} (hos : ∀ o ∈ os, o.gain ≤ 0) (ts : List Nat) :
    worth os ts ≤ 0 := by
  induction os generalizing ts with
  | nil => exact le_of_eq rfl
  | cons o os ih =>
      cases ts with
      | nil => exact le_of_eq rfl
      | cons t ts =>
          have hhead : (t : K) * o.gain ≤ 0 :=
            mul_nonpos_of_nonneg_of_nonpos (Nat.cast_nonneg t) (hos o (List.mem_cons_self ..))
          have htail : worth os ts ≤ 0 := ih (fun o' ho' => hos o' (List.mem_cons_of_mem _ ho')) ts
          show (t : K) * o.gain + worth os ts ≤ 0
          linarith

/-- A sharing that has `ahead` more units to give than the greedy one gains
no more than these units at the gain of the best offer. -/
theorem worth_le_greedy_add {os : List (Offer K)} (hdesc : Descending os) {best : K}
    (hbest : ∀ o ∈ os, o.gain ≤ best) (hpos : 0 ≤ best) {capacity ahead : Nat} {ts : List Nat}
    (hts : Shares (capacity + ahead) os ts) :
    worth os ts ≤ worth os (greedy capacity os) + ahead * best := by
  induction os generalizing best capacity ahead ts with
  | nil =>
      rw [List.forall₂_nil_right_iff.mp hts.sizes]
      show (0 : K) ≤ 0 + ahead * best
      rw [zero_add]
      exact mul_nonneg (Nat.cast_nonneg ahead) hpos
  | cons o os ih =>
      obtain ⟨t, ts, ht, hsizes, rfl⟩ := List.forall₂_cons_right_iff.mp hts.sizes
      obtain ⟨hhead, htail⟩ := List.pairwise_cons.mp hdesc
      have htotal : t + ts.sum ≤ capacity + ahead := by
        rw [← List.sum_cons]
        exact hts.total
      have hgap : (ahead : K) * o.gain ≤ ahead * best :=
        mul_le_mul_of_nonneg_left (hbest o (List.mem_cons_self ..)) (Nat.cast_nonneg ahead)
      unfold greedy
      split
      · rename_i hgain
        -- what the greedy sharing gives this offer beyond the other one, the other is ahead by
        obtain ⟨next, hnext⟩ : ∃ next, min o.size capacity + ahead = t + next :=
          Nat.exists_eq_add_of_le (by omega)
        have hrest : Shares (capacity - min o.size capacity + next) os ts := ⟨hsizes, by omega⟩
        have hcast : ((min o.size capacity : Nat) : K) + ahead = t + next := by
          exact_mod_cast hnext
        have hworth : worth os ts
            ≤ worth os (greedy (capacity - min o.size capacity) os) + next * o.gain :=
          ih htail (fun o' ho' => hhead o' ho') (le_of_lt hgain) hrest
        calc (t : K) * o.gain + worth os ts
            ≤ t * o.gain + (worth os (greedy (capacity - min o.size capacity) os)
              + next * o.gain) := by linarith
          _ = (t + next) * o.gain + worth os (greedy (capacity - min o.size capacity) os) := by
              ring
          _ = ((min o.size capacity : Nat) : K) * o.gain
              + worth os (greedy (capacity - min o.size capacity) os) + ahead * o.gain := by
              rw [← hcast]
              ring
          _ ≤ ((min o.size capacity : Nat) : K) * o.gain
              + worth os (greedy (capacity - min o.size capacity) os) + ahead * best := by
              linarith
      · rename_i hgain
        have hnone : ∀ o' ∈ o :: os, o'.gain ≤ 0 := by
          intro o' ho'
          rcases List.mem_cons.mp ho' with rfl | hrest
          · exact not_lt.mp hgain
          · exact le_trans (hhead o' hrest) (not_lt.mp hgain)
        have hahead : 0 ≤ (ahead : K) * best := mul_nonneg (Nat.cast_nonneg ahead) hpos
        rw [worth_zeros, zero_add]
        exact le_trans (worth_nonpos hnone (t :: ts)) hahead

/-- **The greedy sharing is optimal.** -/
theorem worth_le_greedy {os : List (Offer K)} (hdesc : Descending os) {capacity : Nat}
    {ts : List Nat} (hts : Shares capacity os ts) :
    worth os ts ≤ worth os (greedy capacity os) := by
  cases os with
  | nil =>
      rw [List.forall₂_nil_right_iff.mp hts.sizes]
      exact le_rfl
  | cons o os =>
      -- no offer gains more than the first, and no unit is given ahead
      have hbest : ∀ o' ∈ o :: os, o'.gain ≤ max o.gain 0 := by
        intro o' ho'
        rcases List.mem_cons.mp ho' with rfl | hrest
        · exact le_max_left _ _
        · exact le_trans ((List.pairwise_cons.mp hdesc).1 o' hrest) (le_max_left _ _)
      have hle := worth_le_greedy_add hdesc hbest (le_max_right _ _)
        (show Shares (capacity + 0) (o :: os) ts from hts)
      simpa using hle

end Greedy

end Evm
