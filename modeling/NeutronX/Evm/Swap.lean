import Mathlib.Logic.Relation

/-!
# Two conditional payments

Two sums are locked under one secret, each until a deadline of its own:
up to the deadline it can be paid to whoever shows the secret, after it it
can be returned. The first payment is the one that reveals the secret, so
the second is not made before it.

`Atomic` is what every run keeps, whoever pays or gives back and when.
While the second deadline has not passed the second sum has not been given
back (`second_kept`), so with the later deadline on it, a first payment
made in time always finds the second sum still there.
-/

namespace Evm

/-- Where one sum stands. -/
inductive Leg where
  | vacant
  | locked
  | paid
  | returned
deriving DecidableEq

namespace Leg

/-- A step of one leg at time `now`; a payment takes that `Shown`. -/
inductive Step (Shown : Prop) (deadline now : Nat) : Leg → Leg → Prop
  | lock : Step Shown deadline now vacant locked
  | pay (hshown : Shown) (htime : now ≤ deadline) : Step Shown deadline now locked paid
  | giveBack (htime : deadline < now) : Step Shown deadline now locked returned

variable {Shown : Prop} {deadline now : Nat} {l l' : Leg}

theorem Step.not_paid (h : Step Shown deadline now l l') : l ≠ paid := by
  cases h <;> nofun

theorem Step.of_paid (h : Step Shown deadline now l paid) : Shown ∧ now ≤ deadline := by
  cases h with
  | pay hshown htime => exact ⟨hshown, htime⟩

theorem Step.of_returned (h : Step Shown deadline now l returned) : deadline < now := by
  cases h with
  | giveBack htime => exact htime

end Leg

structure Swap where
  now : Nat
  first : Leg
  second : Leg

namespace Swap

inductive Step (e₁ e₂ : Nat) : Swap → Swap → Prop
  | first (x : Swap) (l : Leg) (h : Leg.Step True e₁ x.now x.first l) :
      Step e₁ e₂ x { x with first := l }
  | second (x : Swap) (l : Leg) (h : Leg.Step (x.first = .paid) e₂ x.now x.second l) :
      Step e₁ e₂ x { x with second := l }
  | wait (x : Swap) (seconds : Nat) : Step e₁ e₂ x { x with now := x.now + seconds }

abbrev Steps (e₁ e₂ : Nat) : Swap → Swap → Prop := Relation.ReflTransGen (Step e₁ e₂)

/-- What every run from unsettled legs keeps. -/
structure Atomic (e₁ e₂ : Nat) (x : Swap) : Prop where
  revealed : x.second = .paid → x.first = .paid
  first_late : x.first = .returned → e₁ < x.now
  second_late : x.second = .returned → e₂ < x.now

variable {e₁ e₂ : Nat} {x y : Swap}

theorem atomic_step (hx : Atomic e₁ e₂ x) (h : Step e₁ e₂ x y) : Atomic e₁ e₂ y := by
  cases h with
  | first l h =>
      refine ⟨fun hpaid => absurd (hx.revealed hpaid) h.not_paid, fun hreturned => ?_,
        hx.second_late⟩
      obtain rfl : l = .returned := hreturned
      exact h.of_returned
  | second l h =>
      refine ⟨fun hpaid => ?_, hx.first_late, fun hreturned => ?_⟩
      · obtain rfl : l = .paid := hpaid
        exact h.of_paid.1
      · obtain rfl : l = .returned := hreturned
        exact h.of_returned
  | wait seconds =>
      exact ⟨hx.revealed, fun h => Nat.lt_add_right _ (hx.first_late h),
        fun h => Nat.lt_add_right _ (hx.second_late h)⟩

/-- **Every run keeps the two payments together.** -/
theorem atomic_steps (hx : Atomic e₁ e₂ x) (h : Steps e₁ e₂ x y) : Atomic e₁ e₂ y := by
  induction h with
  | refl => exact hx
  | tail _ hstep ih => exact atomic_step ih hstep

/-- One party never has both sums: the first back and the second paid. -/
theorem Atomic.exclusive (hx : Atomic e₁ e₂ x) : ¬(x.first = .returned ∧ x.second = .paid) :=
  fun ⟨hreturned, hpaid⟩ => by simp [hx.revealed hpaid] at hreturned

/-- Up to its deadline the second sum is not given back. -/
theorem Atomic.second_kept (hx : Atomic e₁ e₂ x) (htime : x.now ≤ e₂) : x.second ≠ .returned :=
  fun hreturned => absurd (hx.second_late hreturned) (Nat.not_lt.mpr htime)

end Swap

end Evm
