import NeutronX.System

/-!
# Plain tokens

What results about amounts assume of a token is `PlainToken`: it calls
nobody back, and an operation lowers an account's balance of it only by
moving it away from that account.

`Ledger` is the token code that does nothing else: a table of balances in
which a transfer moves the amount it is given. All its tokens are plain
(`ledger_plain`), so the assumptions are met by the ordinary ERC-20.
-/

namespace NeutronX

open Evm Function

/-- Token `T` is a standard ERC-20 without transfer hooks. -/
structure PlainToken {W : Type} (c : TokenCode W) (T : Address) : Prop where
  noHooks : c.hasHooks T = false
  permit2 : ∀ {w w' : W} {spender from_ to_ token : Address} {amount : Nat},
    c.permit2TransferFrom w spender from_ to_ amount token = .ok w' →
    ∀ a, ¬(token = T ∧ from_ = a) → c.balanceOf w T a ≤ c.balanceOf w' T a
  transferFrom : ∀ {w w' : W} {spender from_ to_ token : Address} {amount : Nat},
    c.safeTransferFrom w spender token from_ to_ amount = .ok w' →
    ∀ a, ¬(token = T ∧ from_ = a) → c.balanceOf w T a ≤ c.balanceOf w' T a
  transfer : ∀ {w w' : W} {sender to_ token : Address} {amount : Nat},
    c.safeTransfer w sender token to_ amount = .ok w' →
    ∀ a, ¬(token = T ∧ sender = a) → c.balanceOf w T a ≤ c.balanceOf w' T a
  approve : ∀ {w w' : W} {sender spender token : Address} {amount : Nat},
    c.forceApprove w sender token spender amount = .ok w' →
    ∀ a, c.balanceOf w' T a = c.balanceOf w T a

/-- The balances of every token and account. -/
abbrev Ledger := Address → Address → Nat

namespace Ledger

def move (w : Ledger) (token from_ to_ : Address) (amount : Nat) : Except Revert Ledger := do
  require (amount ≤ w token from_) "transfer amount exceeds balance"
  let debited := update₂ w token from_ (w token from_ - amount)
  return update₂ debited token to_ (debited token to_ + amount)

/-- Token code in which everything is approved. -/
def code : TokenCode Ledger where
  hasHooks := fun _ => false
  balanceOf := fun w token account => w token account
  permit2TransferFrom := fun w _ from_ to_ amount token => move w token from_ to_ amount
  safeTransferFrom := fun w _ token from_ to_ amount => move w token from_ to_ amount
  safeTransfer := fun w sender token to_ amount => move w token sender to_ amount
  forceApprove := fun w _ _ _ _ => .ok w

/-- A transfer lowers the balance of its source only. -/
theorem le_of_move {w w' : Ledger} {token from_ to_ : Address} {amount : Nat}
    (h : move w token from_ to_ amount = .ok w') (T a : Address)
    (hne : ¬(token = T ∧ from_ = a)) : w T a ≤ w' T a := by
  simp only [move, bind_eq_ok, require_eq_ok, pure_eq_ok] at h
  obtain ⟨_, -, rfl⟩ := h
  have hdebit : update₂ w token from_ (w token from_ - amount) T a = w T a :=
    update₂_of_ne (fun heq => hne ⟨heq.1.symm, heq.2.symm⟩) _
  by_cases hto : T = token ∧ a = to_
  · obtain ⟨rfl, rfl⟩ := hto
    rw [update₂_self, hdebit]
    omega
  · rw [update₂_of_ne hto, hdebit]

/-- A transfer of nothing moves nothing. -/
theorem eq_of_move_zero {w w' : Ledger} {token from_ to_ : Address}
    (h : move w token from_ to_ 0 = .ok w') : w' = w := by
  simp only [move, bind_eq_ok, require_eq_ok, pure_eq_ok, Nat.sub_zero, Nat.add_zero] at h
  obtain ⟨_, -, rfl⟩ := h
  rw [update₂_eq_self, update₂_eq_self]

theorem ledger_plain (T : Address) : PlainToken code T where
  noHooks := rfl
  permit2 := fun h a hne => le_of_move h T a hne
  transferFrom := fun h a hne => le_of_move h T a hne
  transfer := fun h a hne => le_of_move h T a hne
  approve := fun h a => by rw [Except.ok.inj h]

/-- A deployment on plain tokens, without an oracle: an order is its own
hash, and the cosigner's signature on any order is the byte 1. -/
def deployment : Deployment OrderInfo Ledger where
  toTokenCode := code
  hashOrder := id
  hash_injective := injective_id
  recover := fun _ sig => if sig = [1] then some 90 else none
  cosigner := 90
  auction := 100
  reactor := 101
  reactor_ne_zero := by decide
  fallback := 102
  treasury := 103
  admin := 104
  routerOwner := 105
  initialRouter := 106
  oracle := none

end Ledger

end NeutronX
