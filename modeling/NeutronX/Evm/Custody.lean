import Mathlib.Algebra.Order.Ring.Nat
import Mathlib.Logic.Relation
import NeutronX.Evm.Accounts

/-!
# Custody of a currency

A custodian holds an amount of one currency. Part of it is locked under
keys, part is owed to accounts that can collect it, and what arrived
without being asked for is surplus. Four things happen: an amount is
locked under a free key, a lock is dissolved into claims that add up to
it, an account collects what it is owed, and a gift arrives.

`Balanced` says that the holdings are exactly the locks, the claims and
the surplus; every step keeps it (`balanced_step`), hence every run
(`balanced_run`). A contract inherits the law by showing that its steps
are custody steps of its own bookkeeping.
-/

namespace Evm

open Function

/-- The part of a list of payments that goes to `a`. -/
def paidTo {A : Type} [DecidableEq A] (a : A) : List (A × Nat) → Nat
  | [] => 0
  | p :: ps => (if p.1 = a then p.2 else 0) + paidTo a ps

def amounts {A : Type} (ps : List (A × Nat)) : Nat := (ps.map Prod.snd).sum

@[simp] theorem amounts_nil {A : Type} : amounts ([] : List (A × Nat)) = 0 := rfl

@[simp] theorem amounts_cons {A : Type} (p : A × Nat) (ps : List (A × Nat)) :
    amounts (p :: ps) = p.2 + amounts ps := rfl

section Payments

variable {A : Type} [DecidableEq A]

@[simp] theorem paidTo_append (a : A) :
    ∀ ps qs : List (A × Nat), paidTo a (ps ++ qs) = paidTo a ps + paidTo a qs
  | [], qs => by simp [paidTo]
  | p :: ps, qs => by simp [paidTo, paidTo_append a ps qs, Nat.add_assoc]

theorem paidTo_le_amounts (a : A) : ∀ ps : List (A × Nat), paidTo a ps ≤ amounts ps
  | [] => Nat.le_refl 0
  | p :: ps => by
      have hrest := paidTo_le_amounts a ps
      rw [paidTo, amounts_cons]
      split <;> omega

/-- The balances after a list of payments. -/
def addTo (owed : A → Nat) (ps : List (A × Nat)) : A → Nat := fun a => owed a + paidTo a ps

@[simp] theorem addTo_nil (owed : A → Nat) : addTo owed [] = owed := rfl

theorem addTo_addTo (owed : A → Nat) (ps qs : List (A × Nat)) :
    addTo (addTo owed ps) qs = addTo owed (qs ++ ps) := by
  funext a
  simp only [addTo, paidTo_append]
  omega

theorem update_add_eq_addTo (owed : A → Nat) (a : A) (n : Nat) :
    update owed a (owed a + n) = addTo owed [(a, n)] := by
  funext b
  by_cases h : b = a
  · subst h
    simp [addTo, paidTo]
  · simp [addTo, paidTo, h, Ne.symm h]

theorem total_addTo [Fintype A] (owed : A → Nat) (ps : List (A × Nat)) :
    total id (addTo owed ps) = total id owed + amounts ps := by
  induction ps generalizing owed with
  | nil => simp
  | cons p ps ih =>
      obtain ⟨a, n⟩ := p
      have hstep : addTo owed ((a, n) :: ps) = addTo (addTo owed [(a, n)]) ps := by
        funext b
        simp only [addTo, paidTo]
        omega
      have hone := total_update id owed a (owed a + n)
      rw [update_add_eq_addTo] at hone
      simp only [id_eq] at hone
      rw [hstep, ih, amounts_cons]
      dsimp only
      omega

end Payments

structure Custody (K A : Type) where
  locked : K → Nat
  owed : A → Nat
  held : Nat
  surplus : Nat

namespace Custody

variable {K A : Type}

section Balanced

variable [Fintype K] [Fintype A]

def Balanced (c : Custody K A) : Prop :=
  c.held = total id c.locked + total id c.owed + c.surplus

/-- A claim and a lock together never exceed the holdings. -/
theorem Balanced.owed_add_locked_le {c : Custody K A} (h : c.Balanced) (a : A) (k : K) :
    c.owed a + c.locked k ≤ c.held := by
  have ha := le_total id c.owed a
  have hk := le_total id c.locked k
  unfold Balanced at h
  simp only [id_eq] at ha hk
  omega

end Balanced

variable [DecidableEq K] [DecidableEq A]

inductive Step : Custody K A → Custody K A → Prop
  /-- `amount` is locked under `k`; what came with it is owed at once -/
  | lock (c : Custody K A) (k : K) (amount : Nat) (extra : List (A × Nat))
      (hfree : c.locked k = 0) :
      Step c ⟨update c.locked k amount, addTo c.owed extra, c.held + amount + amounts extra,
        c.surplus⟩
  /-- the lock of `k` becomes claims -/
  | dissolve (c : Custody K A) (k : K) (ps : List (A × Nat)) (hsum : amounts ps = c.locked k) :
      Step c ⟨update c.locked k 0, addTo c.owed ps, c.held, c.surplus⟩
  | collect (c : Custody K A) (a : A) (hle : c.owed a ≤ c.held) :
      Step c ⟨c.locked, update c.owed a 0, c.held - c.owed a, c.surplus⟩
  | gift (c : Custody K A) (n : Nat) : Step c ⟨c.locked, c.owed, c.held + n, c.surplus + n⟩

variable [Fintype K] [Fintype A]

theorem balanced_step {c c' : Custody K A} (h : c.Balanced) (hstep : Step c c') :
    c'.Balanced := by
  unfold Balanced at *
  cases hstep with
  | lock k amount extra hfree =>
      have hlock := total_update id c.locked k amount
      simp only [id_eq, hfree] at hlock
      simp only [total_addTo]
      omega
  | dissolve k ps hsum =>
      have hlock := total_update id c.locked k 0
      simp only [id_eq] at hlock
      simp only [total_addTo]
      omega
  | collect a hle =>
      have howed := total_update id c.owed a 0
      simp only [id_eq] at howed
      dsimp only
      omega
  | gift n =>
      dsimp only
      omega

theorem balanced_run {c c' : Custody K A} (h : c.Balanced)
    (hrun : Relation.ReflTransGen Step c c') : c'.Balanced := by
  induction hrun with
  | refl => exact h
  | tail _ hstep ih => exact balanced_step ih hstep

end Custody

end Evm
