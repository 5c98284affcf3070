import NeutronX.ChunkProgress
import NeutronX.CoWFiller

/-!
# What the executor registers and executes

The executor stakes for what the strategy decides, capped by what the order
has left on chain, and later submits what it registered, capped again. The
reactor takes a chunk that completes the order or is at least the order's
minimum, and nobody compares the amount with that minimum before the stake
is posted.

What was registered passes the minimum as long as it did when it was
registered: competitors only bring the remainder closer
(`minChunkRule_later`). So it is decided by the inventory
(`executable_iff`).
-/

namespace NeutronX

open Evm

namespace CoWFiller

open NeutronX.System (minChunkOf)

/-- What the register phase of `tryFill` posts a stake for. -/
def registerAmount (decided onChainRemaining : Nat) : Nat :=
  if decided < onChainRemaining then decided else onChainRemaining

/-- What the execute phase submits. -/
def executeAmount (registeredFill onChainRemaining : Nat) : Nat :=
  if registeredFill < onChainRemaining then registeredFill else onChainRemaining

theorem registerAmount_eq_min (decided onChainRemaining : Nat) :
    registerAmount decided onChainRemaining = min decided onChainRemaining := by
  unfold registerAmount
  split <;> omega

theorem executeAmount_eq_min (registeredFill onChainRemaining : Nat) :
    executeAmount registeredFill onChainRemaining = min registeredFill onChainRemaining := by
  unfold executeAmount
  split <;> omega

theorem executeAmount_le (registeredFill onChainRemaining : Nat) :
    executeAmount registeredFill onChainRemaining ≤ registeredFill := by
  rw [executeAmount_eq_min]
  exact Nat.min_le_left _ _

/-! ## The minimum of a chunk -/

/-- A chunk completes the order, or is at least its minimum. -/
def MinChunkRule (info : NeutronX.OrderInfo) (fillAmount remaining : Nat) : Prop :=
  fillAmount = remaining ∨ minChunkOf info ≤ fillAmount

instance (info : NeutronX.OrderInfo) (fillAmount remaining : Nat) :
    Decidable (MinChunkRule info fillAmount remaining) := inferInstanceAs (Decidable (_ ∨ _))

/-- It is the rule of the reactor, for an amount that can be registered. -/
theorem minChunkRule_iff {info : NeutronX.OrderInfo} (htotal : (info.inputAmount : Nat) < 2 ^ 128)
    (fillAmount remaining : Nat) :
    MinChunkRule info fillAmount remaining ↔
      onlyIf (fillAmount ≠ remaining) (PartialFillReactor.checkMinFill info fillAmount)
        = .ok () := by
  have hfits : (info.inputAmount : Nat) * info.minFillBps < wordSize := by
    have hbps : (info.minFillBps : Nat) < 2 ^ 16 := info.minFillBps.isLt
    calc (info.inputAmount : Nat) * info.minFillBps ≤ 2 ^ 128 * 2 ^ 16 :=
          Nat.mul_le_mul (Nat.le_of_lt htotal) (Nat.le_of_lt hbps)
      _ < wordSize := by decide
  rw [onlyIf_eq_ok, PartialFillReactor.checkMinFill_eq_ok]
  constructor
  · rintro (heq | hmin) hne
    · exact absurd heq hne
    · exact ⟨hfits, hmin⟩
  · intro h
    by_cases heq : fillAmount = remaining
    · exact .inl heq
    · exact .inr (h heq).le_fill

/-- An amount that passes keeps passing, capped by whatever is left later. -/
theorem minChunkRule_later {info : NeutronX.OrderInfo} {amount remaining later : Nat}
    (h : MinChunkRule info amount remaining) (hle : later ≤ remaining) :
    MinChunkRule info (executeAmount amount later) later := by
  rw [executeAmount_eq_min]
  rcases Nat.le_total later amount with hcapped | hkept
  · exact .inl (Nat.min_eq_right hcapped)
  · rw [Nat.min_eq_left hkept]
    rcases h with heq | hmin
    · exact .inl (by omega)
    · exact .inr hmin

section Decided

variable {q : Answers} {order : OrderInfo} {currentBlock : Nat} {r : FillDecision}
  {info : NeutronX.OrderInfo}

/-- **The executor stakes for what it can execute exactly where its
inventory carries it.** The amount it registers passes the minimum of the
reactor, then and after whatever competitors fill, if and only if half the
inventory pays, at the current price, for the minimum or for all that is
left. -/
theorem executable_iff (h : decide q order currentBlock = .ok r) (hfill : r.shouldFill = true)
    {outputBalance : Nat} (hbalance : q.balanceOf order.outputToken = .ok outputBalance)
    (hinput : order.inputAmount = info.inputAmount) (onChainRemaining : Nat) :
    (MinChunkRule info (registerAmount r.fillAmount onChainRemaining) onChainRemaining ∧
      ∀ later, later ≤ onChainRemaining →
        MinChunkRule info (executeAmount (registerAmount r.fillAmount onChainRemaining) later)
          later) ↔
    min onChainRemaining (minChunkOf info)
      ≤ min (inventoryCapacity outputBalance (currentPrice order currentBlock))
        info.inputAmount := by
  obtain ⟨-, hprice, -, -, balance, hread, hamount⟩ := decide_fills h hfill
  obtain rfl : outputBalance = balance := Except.ok.inj (hbalance.symm.trans hread)
  rw [hprice, hinput] at hamount
  have hregistered : MinChunkRule info (registerAmount r.fillAmount onChainRemaining)
      onChainRemaining ↔ min onChainRemaining (minChunkOf info) ≤ r.fillAmount := by
    rw [registerAmount_eq_min, MinChunkRule]
    omega
  rw [← hamount, ← hregistered]
  exact ⟨fun hboth => hboth.1, fun hrule => ⟨hrule, fun later => minChunkRule_later hrule⟩⟩

end Decided

/-! ## Two inventories -/

/-- The book is the static one, live, and the wallet holds so much USDC. -/
def holding (usdc : Nat) : Answers where
  fetchLiveOrderbook := fun _ _ => some WETH_USDC_BOOK
  balanceOf := fun _ => .ok usdc
  toFixed := fun _ _ _ => ""

/-- 4 WETH at 2500 USDC each, not decaying. -/
def fourWeth : OrderInfo := ⟨WETH, USDC, 4 * ONE_WETH, 100, 2500 * ONE_USDC, 0, []⟩

/-- The same on chain; a chunk is at least half of it. -/
def fourWethInfo : NeutronX.OrderInfo :=
  ⟨10, 11, 4 * 10 ^ 18, 12, 0, 100, 0, 5000, 2500 * 10 ^ 6, 0, 0⟩

/-- With 20000 USDC the executor registers for all of it. -/
theorem executable_iff_covered :
    ∃ r, decide (holding (20000 * ONE_USDC)) fourWeth 50 = .ok r ∧ r.shouldFill = true ∧
      ∀ later, later ≤ 4 * ONE_WETH →
        MinChunkRule fourWethInfo (executeAmount (registerAmount r.fillAmount (4 * ONE_WETH)) later)
          later := by
  have hreturns : Returns (decide (holding (20000 * ONE_USDC)) fourWeth 50)
      (fun r => r.shouldFill = true) := by decide +kernel
  have hbalance : (holding (20000 * ONE_USDC)).balanceOf fourWeth.outputToken
      = .ok (20000 * ONE_USDC) := rfl
  obtain ⟨r, h, hfill⟩ := hreturns
  exact ⟨r, h, hfill,
    ((executable_iff h hfill hbalance rfl (4 * ONE_WETH)).mpr (by decide +kernel)).2⟩

/-- With 5000 USDC it registers for one WETH, less than a chunk may be, with
all four left. -/
theorem small_inventory_registered :
    ∃ r, decide (holding (5000 * ONE_USDC)) fourWeth 50 = .ok r ∧ r.shouldFill = true ∧
      fourWeth.inputAmount = fourWethInfo.inputAmount ∧
      registerAmount r.fillAmount (4 * ONE_WETH) = ONE_WETH ∧
      minChunkOf fourWethInfo = 2 * ONE_WETH ∧
      ¬ MinChunkRule fourWethInfo (registerAmount r.fillAmount (4 * ONE_WETH)) (4 * ONE_WETH) := by
  have hreturns : Returns (decide (holding (5000 * ONE_USDC)) fourWeth 50)
      (fun r => r.shouldFill = true ∧ registerAmount r.fillAmount (4 * ONE_WETH) = ONE_WETH) := by
    decide +kernel
  obtain ⟨r, h, hfill, hamount⟩ := hreturns
  refine ⟨r, h, hfill, rfl, hamount, by decide +kernel, ?_⟩
  rw [hamount]
  decide +kernel

end CoWFiller

end NeutronX
