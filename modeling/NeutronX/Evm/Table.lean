import Mathlib.Logic.Relation
import Mathlib.Logic.Function.Basic

/-!
# Tables

A table of rows by primary key, and the statements that write it: an
insert at a fresh key and `UPDATE ... WHERE`. Rows are never deleted, so
what happens to a table is what happens to each of its rows:
`Evolves rel` says that every row is still there and related to what it
was.
-/

namespace Sql

open Function

/-- Rows by primary key. -/
abbrev Table (K R : Type) := K → Option R

namespace Table

variable {K R : Type}

def empty : Table K R := fun _ => none

def insert [DecidableEq K] (t : Table K R) (k : K) (r : R) : Table K R := update t k (some r)

/-- `UPDATE ... SET f WHERE p`. -/
def updateWhere (t : Table K R) (p : K → R → Bool) (f : R → R) : Table K R :=
  fun k => (t k).map fun r => if p k r then f r else r

theorem updateWhere_eq_some {t : Table K R} {p : K → R → Bool} {f : R → R} {k : K} {r' : R} :
    t.updateWhere p f k = some r' ↔ ∃ r, t k = some r ∧ (if p k r then f r else r) = r' := by
  simp [updateWhere]

/-- Every row stays, related to what it was. -/
def Evolves (rel : K → R → R → Prop) (t t' : Table K R) : Prop :=
  ∀ k r, t k = some r → ∃ r', t' k = some r' ∧ rel k r r'

variable {rel : K → R → R → Prop} {t t' : Table K R}

theorem evolves_insert [DecidableEq K] (hrefl : ∀ k r, rel k r r) {k : K} (r : R)
    (hfresh : t k = none) : Evolves rel t (t.insert k r) := by
  intro j q hq
  have hne : j ≠ k := fun heq => by simp [heq, hfresh] at hq
  exact ⟨q, by rw [insert, update_of_ne hne, hq], hrefl j q⟩

theorem evolves_updateWhere (hrefl : ∀ k r, rel k r r) {p : K → R → Bool} {f : R → R}
    (hstep : ∀ k r, p k r = true → rel k r (f r)) : Evolves rel t (t.updateWhere p f) := by
  intro k r hr
  refine ⟨_, updateWhere_eq_some.mpr ⟨r, hr, rfl⟩, ?_⟩
  split
  case isTrue hp => exact hstep k r hp
  case isFalse => exact hrefl k r

end Table

end Sql
