import Mathlib.Algebra.Order.Ring.Nat
import Mathlib.Data.List.Basic
import Mathlib.Tactic.Common

/-!
# Checked computation on machine words

Solidity code either returns or reverts, and a revert carries a reason:
the text of a failed `require`, the name of a custom error, or a panic
code. A function of the source is an `Except Revert` computation over
natural numbers; the width of a word shows where the compiler checks it
(`checkedAdd`, `checkedSub`, `checkedMul`), where a library reverts on
it (`mulDiv`) or where a cast drops it (`toUint`).

Every operation comes with the lemma that says when it returns and what
it returns, so that a successful run of a function unfolds into the
conjunction of its guards by `simp only`.
-/

namespace Evm

/-! ## Reverts -/

inductive Panic where
  | arithmetic
  | outOfBounds
deriving DecidableEq, Repr

/-- Why a call failed. -/
inductive Revert where
  | require (msg : String)
  | custom (name : String)
  | panic (p : Panic)
  /-- a call into code outside the model failed -/
  | external (callee : String)
deriving DecidableEq, Repr

/-- The number of values of a 256-bit word. -/
def wordSize : Nat := 2 ^ 256

/-- The largest value of an unsigned integer of `w` bits. -/
def maxUint (w : Nat) : Nat := 2 ^ w - 1

/-- The narrowing cast `uintw(n)`, which drops the high bits silently. -/
def toUint (w n : Nat) : Nat := n % 2 ^ w

theorem toUint_of_lt {w n : Nat} (h : n < 2 ^ w) : toUint w n = n :=
  Nat.mod_eq_of_lt h

theorem toUint_le (w n : Nat) : toUint w n ≤ n := Nat.mod_le n _

theorem toUint_lt (w n : Nat) : toUint w n < 2 ^ w :=
  Nat.mod_lt n (Nat.two_pow_pos w)

theorem le_maxUint {w n : Nat} : n ≤ maxUint w ↔ n < 2 ^ w := by
  have := Nat.two_pow_pos w
  simp only [maxUint]
  omega

/-! ## Sequencing -/

theorem bind_eq_ok {ε α β : Type} {x : Except ε α} {k : α → Except ε β} {r : β} :
    x >>= k = .ok r ↔ ∃ a, x = .ok a ∧ k a = .ok r := by
  cases x <;> simp [bind, Except.bind]

theorem bind_eq_error {α β : Type} {x : Except Revert α} {k : α → Except Revert β} {e : Revert} :
    x >>= k = .error e ↔ x = .error e ∨ ∃ a, x = .ok a ∧ k a = .error e := by
  cases x <;> simp [bind, Except.bind]

/-- A sequence succeeds when its first part does, and the rest on what that
returns. -/
theorem bind_succeeds {α β : Type} {x : Except Revert α} {k : α → Except Revert β} {a : α}
    (hx : x = .ok a) (hk : ∃ r, k a = .ok r) : ∃ r, x >>= k = .ok r := by
  rw [hx]
  exact hk

theorem pure_eq_ok {ε α : Type} {a r : α} :
    (pure a : Except ε α) = .ok r ↔ a = r := by
  simp [pure, Except.pure]

/-- `x` returns, and what it returns satisfies `P`. -/
def Returns {ε α : Type} (x : Except ε α) (P : α → Prop) : Prop := ∃ a, x = .ok a ∧ P a

/-- A closed run is tested by running it. -/
instance Returns.decidable {ε α : Type} {P : α → Prop} [DecidablePred P] :
    (x : Except ε α) → Decidable (Returns x P)
  | .ok a => decidable_of_iff (P a)
      ⟨fun h => ⟨a, rfl, h⟩, fun ⟨_, h, hP⟩ => by rwa [Except.ok.inj h]⟩
  | .error _ => isFalse fun ⟨_, h, _⟩ => nomatch h

/-- `x` reverts, for the reason `e`. -/
def Reverts {α : Type} (x : Except Revert α) (e : Revert) : Prop := x = .error e

instance Reverts.decidable {α : Type} :
    (x : Except Revert α) → (e : Revert) → Decidable (Reverts x e)
  | .ok _, _ => isFalse fun h => nomatch h
  | .error e', e => decidable_of_iff (e' = e)
      ⟨fun h => congrArg Except.error h, fun h => Except.error.inj h⟩

def require (c : Prop) [Decidable c] (msg : String) : Except Revert Unit :=
  if c then .ok () else .error (.require msg)

/-- `if (!c) revert Name();` -/
def requireCustom (c : Prop) [Decidable c] (name : String) : Except Revert Unit :=
  if c then .ok () else .error (.custom name)

/-- A check that is only made under a condition. -/
def onlyIf (c : Prop) [Decidable c] (check : Except Revert Unit) : Except Revert Unit :=
  if c then check else .ok ()

section Guards

variable {c : Prop} [Decidable c]

@[simp] theorem require_eq_ok {msg : String} {u : Unit} :
    require c msg = .ok u ↔ c := by
  by_cases h : c <;> simp [require, h]

@[simp] theorem requireCustom_eq_ok {name : String} {u : Unit} :
    requireCustom c name = .ok u ↔ c := by
  by_cases h : c <;> simp [requireCustom, h]

@[simp] theorem onlyIf_eq_ok {check : Except Revert Unit} {u : Unit} :
    onlyIf c check = .ok u ↔ (c → check = .ok ()) := by
  by_cases h : c <;> simp [onlyIf, h]

theorem require_eq_error {msg : String} {e : Revert} :
    require c msg = .error e ↔ ¬c ∧ e = .require msg := by
  by_cases h : c
  · simp [require, h]
  · simp only [require, h, if_false, Except.error.injEq, not_false_eq_true, true_and]
    exact eq_comm

theorem require_ne_panic {msg : String} {p : Panic} : require c msg ≠ .error (.panic p) := by
  by_cases h : c <;> simp [require, h]

end Guards

/-- The entry check of OpenZeppelin's `ReentrancyGuard`, as documented there:
a `nonReentrant` function reverts while another one of the contract runs. -/
def nonReentrant (entered : Bool) : Except Revert Unit :=
  requireCustom (entered = false) "ReentrancyGuardReentrantCall"

@[simp] theorem nonReentrant_eq_ok {entered : Bool} {u : Unit} :
    nonReentrant entered = .ok u ↔ entered = false := by
  simp [nonReentrant]

/-! ## Checked arithmetic on 256-bit words -/

def checkedAdd (a b : Nat) : Except Revert Nat :=
  if a + b < wordSize then .ok (a + b) else .error (.panic .arithmetic)

def checkedSub (a b : Nat) : Except Revert Nat :=
  if b ≤ a then .ok (a - b) else .error (.panic .arithmetic)

def checkedMul (a b : Nat) : Except Revert Nat :=
  if a * b < wordSize then .ok (a * b) else .error (.panic .arithmetic)

theorem checkedAdd_eq_ok {a b r : Nat} :
    checkedAdd a b = .ok r ↔ a + b < wordSize ∧ a + b = r := by
  by_cases h : a + b < wordSize <;> simp [checkedAdd, h]

theorem checkedSub_eq_ok {a b r : Nat} :
    checkedSub a b = .ok r ↔ b ≤ a ∧ a - b = r := by
  by_cases h : b ≤ a <;> simp [checkedSub, h]

theorem checkedMul_eq_ok {a b r : Nat} :
    checkedMul a b = .ok r ↔ a * b < wordSize ∧ a * b = r := by
  by_cases h : a * b < wordSize <;> simp [checkedMul, h]

/-- `FullMath.mulDiv` of Uniswap, as documented there: the floor of
`a * b / d` at full precision, which reverts without a reason when `d` is 0
or the quotient needs more than 256 bits. -/
def mulDiv (a b d : Nat) : Except Revert Nat :=
  if d ≠ 0 ∧ a * b / d < wordSize then .ok (a * b / d) else .error (.require "")

theorem mulDiv_eq_ok {a b d r : Nat} :
    mulDiv a b d = .ok r ↔ (d ≠ 0 ∧ a * b / d < wordSize) ∧ a * b / d = r := by
  by_cases h : d ≠ 0 ∧ a * b / d < wordSize <;> simp [mulDiv, h]

/-- A share of at most the whole is at most the amount. -/
theorem mul_div_le_left {a b d : Nat} (h : b ≤ d) : a * b / d ≤ a := by
  rcases Nat.eq_zero_or_pos d with rfl | hpos
  · simp
  · calc a * b / d ≤ a * d / d := Nat.div_le_div_right (Nat.mul_le_mul_left a h)
      _ = a := Nat.mul_div_cancel a hpos

theorem checkedAdd_ne_outOfBounds {a b : Nat} :
    checkedAdd a b ≠ .error (.panic .outOfBounds) := by
  unfold checkedAdd
  split <;> simp

theorem checkedSub_ne_outOfBounds {a b : Nat} :
    checkedSub a b ≠ .error (.panic .outOfBounds) := by
  unfold checkedSub
  split <;> simp

/-! ## Arrays -/

/-- `xs[i]` on an array in memory, which panics past its end. -/
def getAt (xs : List Nat) (i : Nat) : Except Revert Nat :=
  match xs[i]? with
  | some v => .ok v
  | none => .error (.panic .outOfBounds)

theorem getAt_eq_ok {xs : List Nat} {i v : Nat} :
    getAt xs i = .ok v ↔ xs[i]? = some v := by
  unfold getAt
  cases xs[i]? <;> simp

theorem getAt_of_lt {xs : List Nat} {i : Nat} (h : i < xs.length) :
    getAt xs i = .ok xs[i] := by
  simp [getAt, List.getElem?_eq_getElem h]

/-- `for (i = lo; i < lo + n; i++) body(i)`, for a body that only checks. -/
def forRange (lo : Nat) : Nat → (Nat → Except Revert Unit) → Except Revert Unit
  | 0, _ => .ok ()
  | n + 1, body => do
      body lo
      forRange (lo + 1) n body

/-- A checking loop returns exactly when every round does. -/
theorem forRange_eq_ok {body : Nat → Except Revert Unit} :
    ∀ {n lo : Nat} {u : Unit}, forRange lo n body = .ok u ↔
      ∀ i, lo ≤ i → i < lo + n → body i = .ok ()
  | 0, lo, u => by
      simp only [forRange, true_iff]
      omega
  | n + 1, lo, u => by
      simp only [forRange, bind_eq_ok, forRange_eq_ok (n := n)]
      constructor
      · rintro ⟨⟨⟩, hlo, hrest⟩ i hi hin
        rcases Nat.eq_or_lt_of_le hi with rfl | hlt
        · exact hlo
        · exact hrest i hlt (by omega)
      · intro h
        exact ⟨(), h lo (Nat.le_refl lo) (by omega), fun i hi hin => h i (by omega) (by omega)⟩

/-- Copying `n` entries of `xs` from position `lo`, one checked read each. -/
def copyRange (xs : List Nat) (lo : Nat) : Nat → Except Revert (List Nat)
  | 0 => .ok []
  | n + 1 => do
      let v ← getAt xs lo
      let vs ← copyRange xs (lo + 1) n
      pure (v :: vs)

theorem copyRange_length {xs : List Nat} :
    ∀ {n lo : Nat} {ys : List Nat}, copyRange xs lo n = .ok ys → ys.length = n
  | 0, _, ys, h => by
      simp only [copyRange, Except.ok.injEq] at h
      simp [← h]
  | n + 1, lo, ys, h => by
      simp only [copyRange, bind_eq_ok, pure_eq_ok] at h
      obtain ⟨v, -, vs, hvs, rfl⟩ := h
      simp [copyRange_length hvs]

/-- A copy has no entries but those of its source. -/
theorem mem_of_copyRange {xs : List Nat} :
    ∀ {n lo : Nat} {ys : List Nat}, copyRange xs lo n = .ok ys → ∀ v ∈ ys, v ∈ xs
  | 0, _, ys, h, v, hv => by
      simp only [copyRange, Except.ok.injEq] at h
      rw [← h] at hv
      cases hv
  | n + 1, lo, ys, h, v, hv => by
      simp only [copyRange, bind_eq_ok, pure_eq_ok] at h
      obtain ⟨w, hw, vs, hvs, rfl⟩ := h
      rcases List.mem_cons.mp hv with rfl | hv
      · exact List.mem_of_getElem? (getAt_eq_ok.mp hw)
      · exact mem_of_copyRange hvs v hv

end Evm
