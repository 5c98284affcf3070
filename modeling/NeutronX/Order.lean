import Mathlib.Data.Fintype.Prod
import Mathlib.Data.ZMod.Defs
import NeutronX.StakeLib

/-!
# Orders

The signed order, and the two libraries the reactor keeps its progress
in: `RemainingLib`, which encodes the unfilled amount in one word with
sentinels for a new and a finished order, and `DecayCursorLib`, the price
of the Dutch auction as of the last fill.
-/

namespace NeutronX

open Evm

/-- An unsigned integer of `w` bits. -/
abbrev Uint (w : Nat) := Fin (2 ^ w)

-- One constant a width, so that a literal carries a name and not a proof.
instance neZero_uint256 : NeZero (2 ^ 256) := ⟨by decide⟩
instance neZero_uint160 : NeZero (2 ^ 160) := ⟨by decide⟩
instance neZero_uint128 : NeZero (2 ^ 128) := ⟨by decide⟩
instance neZero_uint32 : NeZero (2 ^ 32) := ⟨by decide⟩
instance neZero_uint24 : NeZero (2 ^ 24) := ⟨by decide⟩
instance neZero_uint16 : NeZero (2 ^ 16) := ⟨by decide⟩

abbrev Address := Uint 160

abbrev Bytes := List UInt8

/-- An account that can send a call: `msg.sender` is never the zero address. -/
abbrev Account := { a : Address // a ≠ 0 }

structure OrderInfo where
  swapper : Address
  inputToken : Address
  inputAmount : Uint 256
  outputToken : Address
  minOutputAmount : Uint 256
  deadline : Uint 256
  nonce : Uint 256
  minFillBps : Uint 16
  startPrice : Uint 128
  decayPerBlock : Uint 32
  feeTier : Uint 24
deriving DecidableEq

/-- There are finitely many orders, so finitely many hashes suffice to tell
them apart. -/
noncomputable instance : Fintype OrderInfo :=
  Fintype.ofInjective
    (fun i : OrderInfo => (i.swapper, i.inputToken, i.inputAmount, i.outputToken,
      i.minOutputAmount, i.deadline, i.nonce, i.minFillBps, i.startPrice, i.decayPerBlock,
      i.feeTier))
    (fun i j h => by
      cases i
      cases j
      simpa using h)

structure SignedOrder where
  info : OrderInfo
  sig : Bytes

/-! ## RemainingLib -/

namespace RemainingLib

def remaining (raw orderAmount : Nat) : Nat :=
  if raw = 0 then orderAmount
  else if raw = maxUint 256 then 0
  else maxUint 256 - raw

def pack (remaining_ : Nat) : Nat := maxUint 256 - remaining_

def fullyFilled : Nat := maxUint 256

def isNewOrder (raw : Nat) : Bool := raw = 0

/-- What a chunk that leaves `newRemaining` writes. -/
def store (newRemaining : Nat) : Nat :=
  if newRemaining = 0 then fullyFilled else pack newRemaining

@[simp] theorem remaining_zero (orderAmount : Nat) : remaining 0 orderAmount = orderAmount := by
  simp [remaining]

@[simp] theorem remaining_fullyFilled (orderAmount : Nat) :
    remaining fullyFilled orderAmount = 0 := by
  simp [remaining, fullyFilled, maxUint]

theorem fullyFilled_ne_zero : fullyFilled ≠ 0 := by
  simp [fullyFilled, maxUint]

/-- The encoding is exact below the largest word, which alone would read
back as a new order. -/
theorem remaining_store {n : Nat} (h : n < maxUint 256) (orderAmount : Nat) :
    remaining (store n) orderAmount = n := by
  by_cases hn : n = 0
  · simp [store, hn]
  · have hzero : pack n ≠ 0 := by simp only [pack]; omega
    have hmax : pack n ≠ maxUint 256 := by simp only [pack]; omega
    simp only [store, hn, remaining, hzero, hmax, if_false]
    simp only [pack]
    omega

/-- What a fill stores reads back as what it left: only an empty fill of a
new order of the largest amount stores the largest word, and that reads
back as the order. -/
theorem remaining_store_sub {raw orderAmount : Nat} (hw : orderAmount < wordSize)
    (fillAmount : Nat) :
    remaining (store (remaining raw orderAmount - fillAmount)) orderAmount
      = remaining raw orderAmount - fillAmount := by
  have hword : wordSize = maxUint 256 + 1 := by simp [wordSize, maxUint]
  by_cases hlt : remaining raw orderAmount - fillAmount < maxUint 256
  · exact remaining_store hlt orderAmount
  · -- then the order is new, its amount the largest word, and the fill empty
    have hpos : 0 < maxUint 256 := by decide
    have hraw : raw = 0 := by
      by_contra hne
      simp only [remaining, hne, if_false] at hlt
      split at hlt <;> omega
    subst hraw
    rw [remaining_zero] at hlt ⊢
    have hfill : orderAmount - fillAmount = maxUint 256 := by omega
    have hamount : orderAmount = maxUint 256 := by omega
    rw [hfill]
    simp [store, hpos.ne', pack, hamount]

/-- Only a new order reads as the largest word. -/
theorem remaining_lt {raw orderAmount : Nat} (h : raw = 0 → orderAmount < maxUint 256) :
    remaining raw orderAmount < maxUint 256 := by
  have hpos : 0 < maxUint 256 := by decide
  by_cases hraw : raw = 0
  · rw [hraw, remaining_zero]
    exact h hraw
  · simp only [remaining, hraw, if_false]
    split <;> omega

theorem store_ne_zero {n : Nat} (h : n < maxUint 256) : store n ≠ 0 := by
  by_cases hn : n = 0
  · simpa [store, hn] using fullyFilled_ne_zero
  · simp only [store, hn, if_false, pack]
    omega

end RemainingLib

/-! ## DecayCursorLib -/

structure DecayCursor where
  currentStartPrice : Nat
  lastResetBlock : Nat
  decayPerBlock : Nat
deriving DecidableEq, Repr

namespace DecayCursorLib

def init (startPrice decayPerBlock blockNum : Nat) : DecayCursor :=
  ⟨startPrice, blockNum, decayPerBlock⟩

def getCurrentPrice (blk : Block) (cursor : DecayCursor) : Except Revert Nat := do
  let blocksPassed ← checkedSub blk.number cursor.lastResetBlock
  let decayed ← checkedMul blocksPassed cursor.decayPerBlock
  if cursor.currentStartPrice ≤ decayed then
    return 0
  return cursor.currentStartPrice - toUint 128 decayed

def reset (cursor : DecayCursor) (newStartPrice blockNum : Nat) : DecayCursor :=
  { cursor with currentStartPrice := newStartPrice, lastResetBlock := blockNum }

/-- On a 128-bit price the cast of the decay is lossless: a decay that does
not fit exceeds the price, and the price is 0. -/
theorem getCurrentPrice_eq_ok {blk : Block} {cursor : DecayCursor} {p : Nat}
    (hw : cursor.currentStartPrice < 2 ^ 128) (h : getCurrentPrice blk cursor = .ok p) :
    cursor.lastResetBlock ≤ blk.number ∧ p =
      cursor.currentStartPrice - (blk.number - cursor.lastResetBlock) * cursor.decayPerBlock := by
  simp only [getCurrentPrice, bind_eq_ok, checkedSub_eq_ok, checkedMul_eq_ok] at h
  obtain ⟨_, ⟨hle, rfl⟩, _, ⟨-, rfl⟩, h⟩ := h
  refine ⟨hle, ?_⟩
  split at h
  · obtain rfl := pure_eq_ok.mp h
    omega
  · obtain rfl := pure_eq_ok.mp h
    rw [toUint_of_lt (by omega)]

end DecayCursorLib

end NeutronX
