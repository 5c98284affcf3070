import Mathlib.Data.List.Basic
import Mathlib.Order.Lattice

/-!
# Ranges of blocks

A request asks for the blocks of a range. `Tiling` says of a list of ranges
that each starts on the block after the one before: then every block
between its ends is in exactly one of them, and no other block is in any
(`Tiling.countP_covers`).
-/

namespace Evm

/-- Both ends are in the range; it is empty where the last block is before
the first. -/
structure BlockRange where
  fromBlock : Int
  toBlock : Int
deriving DecidableEq, Repr

def BlockRange.Covers (r : BlockRange) (n : Int) : Prop := r.fromBlock ≤ n ∧ n ≤ r.toBlock

instance (r : BlockRange) (n : Int) : Decidable (r.Covers n) := inferInstanceAs (Decidable (_ ∧ _))

/-- The ranges follow one another from the block `a` up to the one before `b`. -/
inductive Tiling : Int → List BlockRange → Int → Prop where
  | nil (a : Int) : Tiling a [] a
  | cons {r : BlockRange} {rs : List BlockRange} {b : Int} :
      r.fromBlock ≤ r.toBlock + 1 → Tiling (r.toBlock + 1) rs b → Tiling r.fromBlock (r :: rs) b

namespace Tiling

variable {a b : Int} {rs : List BlockRange}

theorem le (h : Tiling a rs b) : a ≤ b := by
  induction h with
  | nil => exact Int.le_refl _
  | cons hr _ ih => exact Int.le_trans hr ih

theorem snoc (h : Tiling a rs b) {r : BlockRange} (hfrom : r.fromBlock = b)
    (hr : r.fromBlock ≤ r.toBlock + 1) : Tiling a (rs ++ [r]) (r.toBlock + 1) := by
  induction h with
  | nil =>
      subst hfrom
      exact .cons hr (.nil _)
  | cons hfirst _ ih => exact .cons hfirst (ih hfrom)

theorem countP_covers (h : Tiling a rs b) (n : Int) :
    rs.countP (fun r => decide (r.Covers n)) = if a ≤ n ∧ n < b then 1 else 0 := by
  induction h with
  | nil a =>
      have hempty : ¬(a ≤ n ∧ n < a) := fun h => absurd h.1 (Int.not_le.mpr h.2)
      rw [if_neg hempty]
      rfl
  | @cons r rs b hr hrest ih =>
      have hle := hrest.le
      rw [List.countP_cons, ih]
      by_cases hin : r.Covers n
      · have hbounds : r.fromBlock ≤ n ∧ n ≤ r.toBlock := hin
        have hlater : ¬(r.toBlock + 1 ≤ n ∧ n < b) := by omega
        have hhere : r.fromBlock ≤ n ∧ n < b := by omega
        rw [if_neg hlater, if_pos hhere, decide_eq_true hin]
        rfl
      · have hiff : r.toBlock + 1 ≤ n ∧ n < b ↔ r.fromBlock ≤ n ∧ n < b := by
          unfold BlockRange.Covers at hin
          omega
        simp only [hin, hiff, decide_false, Bool.false_eq_true, if_false, Nat.add_zero]

theorem exists_covers (h : Tiling a rs b) {n : Int} (ha : a ≤ n) (hb : n < b) :
    ∃ r ∈ rs, r.Covers n := by
  have hone := h.countP_covers n
  rw [if_pos ⟨ha, hb⟩] at hone
  have hpos : 0 < rs.countP fun r => decide (r.Covers n) := by omega
  obtain ⟨r, hr, hcovers⟩ := List.countP_pos_iff.mp hpos
  exact ⟨r, hr, of_decide_eq_true hcovers⟩

end Tiling

end Evm
