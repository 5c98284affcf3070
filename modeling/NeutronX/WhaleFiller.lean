import NeutronX.CoWFiller

/-!
# The Whale filler's strategy

The sibling of the CoW filler. It fills from its inventory alone: it takes
the market to be a little above an order's start price, wants a spread to
it, and pays with half of what it holds. Unlike its sibling it compares the
amount with the order's minimum.

`Offers` is what a fill rests on apart from that minimum.
-/

namespace NeutronX

open Evm

namespace WhaleFiller

open CoWFiller (Token SUPPORTED_TOKENS)

/-- What `decide` reads of an order; the rest is what the sibling reads. -/
structure OrderInfo extends CoWFiller.OrderInfo where
  minFillBps : Nat
deriving DecidableEq

/-- `INVENTORY` -/
def MIN_SPREAD_BPS : Nat := 10
def FAKE_MARKET_PREMIUM_BPS : Nat := 100
def MAX_INVENTORY_USE_BPS : Nat := 5000

/-- What the filler asks others for while it decides. -/
structure Answers where
  /-- of the filler's wallet -/
  balanceOf : (token : String) → Except String Nat
  /-- `(Number(raw) / 10 ** decimals).toFixed(digits)` -/
  toFixed : (digits raw decimals : Nat) → String

structure Extras where
  spreadBps : Nat
  inventoryHuman : String

structure FillDecision where
  shouldFill : Bool
  fillAmount : Nat
  currentPrice : Nat
  reason : String
  extras : Option Extras

def no (reason : String) : FillDecision := ⟨false, 0, 0, reason, none⟩

/-- The market, for all the filler knows. -/
def refPrice (order : CoWFiller.OrderInfo) : Nat :=
  order.startPrice * (10000 + FAKE_MARKET_PREMIUM_BPS) / 10000

def spreadBps (order : CoWFiller.OrderInfo) (price : Nat) : Nat :=
  (refPrice order - price) * 10000 / refPrice order

def maxFillFromInventory (outputBalance price : Nat) : Nat :=
  outputBalance * MAX_INVENTORY_USE_BPS / 10000 * 10 ^ 18 / price

def minFill (order : OrderInfo) : Nat := order.inputAmount * order.minFillBps / 10000

/-- `fillAmount`: what the inventory pays for, up to the whole order. -/
def offered (order : CoWFiller.OrderInfo) (price outputBalance : Nat) : Nat :=
  min (maxFillFromInventory outputBalance price) order.inputAmount

/-- `decide` from the inventory on. -/
def decideFill (q : Answers) (order : OrderInfo) (price : Nat) (outMeta : Token)
    (outputBalance : Nat) : FillDecision :=
  if outputBalance = 0 then no "zero inventory of outputToken"
  else if maxFillFromInventory outputBalance price = 0 then no "inventory too small"
  else if offered order.toOrderInfo price outputBalance < minFill order then
    no ("inventory covers " ++ toString (offered order.toOrderInfo price outputBalance)
      ++ " < minFill " ++ toString (minFill order))
  else
    { shouldFill := true
      fillAmount := offered order.toOrderInfo price outputBalance
      currentPrice := price
      reason := "spread=" ++ toString (spreadBps order.toOrderInfo price) ++ "bps | inventory="
        ++ q.toFixed 2 outputBalance outMeta.decimals ++ " " ++ outMeta.symbol
      extras := some ⟨spreadBps order.toOrderInfo price,
        q.toFixed 2 outputBalance outMeta.decimals⟩ }

/-- Throws where the wallet's balance cannot be read. -/
def decide (q : Answers) (order : OrderInfo) (currentBlock : Nat) : Except String FillDecision :=
  let blocksLeft : Int := order.deadline - currentBlock
  if blocksLeft ≤ 0 then .ok (no "expired")
  else if blocksLeft < 5 then .ok (no "too close to deadline")
  else
    let price := CoWFiller.currentPrice order.toOrderInfo currentBlock
    if price = 0 then .ok (no "price decayed to zero")
    else
      match SUPPORTED_TOKENS.lookup order.outputToken,
          SUPPORTED_TOKENS.lookup order.inputToken with
      | some outMeta, some _ =>
          if price ≥ refPrice order.toOrderInfo then
            .ok (no ("auction " ++ q.toFixed 4 price outMeta.decimals ++ " >= market "
              ++ q.toFixed 4 (refPrice order.toOrderInfo) outMeta.decimals
              ++ " — not profitable yet"))
          else if spreadBps order.toOrderInfo price < MIN_SPREAD_BPS then
            .ok (no ("spread " ++ toString (spreadBps order.toOrderInfo price) ++ "bps < min "
              ++ toString MIN_SPREAD_BPS ++ "bps"))
          else do
            let outputBalance ← q.balanceOf order.outputToken
            return decideFill q order price outMeta outputBalance
      | _, _ => .ok (no "unsupported token pair")

/-! ## What a fill rests on -/

/-- All that is asked of an order at a block but its minimum. -/
structure Offers (q : Answers) (order : CoWFiller.OrderInfo) (currentBlock outputBalance : Nat) :
    Prop where
  blocksLeft : currentBlock + 5 ≤ order.deadline
  priced : 0 < CoWFiller.currentPrice order currentBlock
  outMeta : ∃ outMeta, SUPPORTED_TOKENS.lookup order.outputToken = some outMeta
  inMeta : ∃ inMeta, SUPPORTED_TOKENS.lookup order.inputToken = some inMeta
  profitable : CoWFiller.currentPrice order currentBlock < refPrice order
  spread : MIN_SPREAD_BPS ≤ spreadBps order (CoWFiller.currentPrice order currentBlock)
  balance : q.balanceOf order.outputToken = .ok outputBalance
  stocked : 0 < maxFillFromInventory outputBalance (CoWFiller.currentPrice order currentBlock)

theorem maxFillFromInventory_zero (price : Nat) : maxFillFromInventory 0 price = 0 := by
  simp [maxFillFromInventory]

theorem decideFill_fills {q : Answers} {order : OrderInfo} {price : Nat} {outMeta : Token}
    {outputBalance : Nat} :
    (decideFill q order price outMeta outputBalance).shouldFill = true ↔
      0 < maxFillFromInventory outputBalance price ∧
      minFill order ≤ offered order.toOrderInfo price outputBalance := by
  unfold decideFill
  split
  · rename_i hzero
    rw [hzero, maxFillFromInventory_zero]
    exact ⟨fun h => (by cases h), fun h => absurd h.1 (Nat.lt_irrefl 0)⟩
  split
  · rename_i hsmall
    rw [hsmall]
    exact ⟨fun h => (by cases h), fun h => absurd h.1 (Nat.lt_irrefl 0)⟩
  rename_i hstocked
  split
  · rename_i hmin
    exact ⟨fun h => (by cases h), fun h => absurd h.2 (Nat.not_le.mpr hmin)⟩
  · rename_i hmin
    exact ⟨fun _ => ⟨Nat.pos_of_ne_zero hstocked, Nat.le_of_not_lt hmin⟩, fun _ => rfl⟩

theorem decideFill_amount {q : Answers} {order : OrderInfo} {price : Nat} {outMeta : Token}
    {outputBalance : Nat}
    (h : (decideFill q order price outMeta outputBalance).shouldFill = true) :
    (decideFill q order price outMeta outputBalance).fillAmount
      = offered order.toOrderInfo price outputBalance ∧
    (decideFill q order price outMeta outputBalance).currentPrice = price := by
  obtain ⟨hstocked, hmin⟩ := decideFill_fills.mp h
  have hbalance : outputBalance ≠ 0 := by
    rintro rfl
    rw [maxFillFromInventory_zero] at hstocked
    exact absurd hstocked (Nat.lt_irrefl 0)
  unfold decideFill
  rw [if_neg hbalance, if_neg (Nat.pos_iff_ne_zero.mp hstocked), if_neg (Nat.not_lt.mpr hmin)]
  exact ⟨rfl, rfl⟩

/-- **A fill is what is offered**, decided at the current price, and never
below the order's minimum. -/
theorem decide_fills {q : Answers} {order : OrderInfo} {currentBlock : Nat} {r : FillDecision}
    (h : decide q order currentBlock = .ok r) (hfill : r.shouldFill = true) :
    ∃ outputBalance, Offers q order.toOrderInfo currentBlock outputBalance ∧
      r.fillAmount = offered order.toOrderInfo r.currentPrice outputBalance ∧
      r.currentPrice = CoWFiller.currentPrice order.toOrderInfo currentBlock ∧
      minFill order ≤ r.fillAmount := by
  unfold decide at h
  dsimp only at h
  split at h
  · cases h
    cases hfill
  split at h
  · cases h
    cases hfill
  split at h
  · cases h
    cases hfill
  rename_i hopen hclose hprice
  split at h
  · rename_i outMeta inMeta hout hin
    split at h
    · cases h
      cases hfill
    split at h
    · cases h
      cases hfill
    rename_i hprofit hspread
    rw [bind_eq_ok] at h
    obtain ⟨outputBalance, hbalance, h⟩ := h
    cases h
    obtain ⟨hstocked, hmin⟩ := decideFill_fills.mp hfill
    obtain ⟨hamount, hpriced⟩ := decideFill_amount hfill
    refine ⟨outputBalance, ⟨by omega, Nat.pos_of_ne_zero hprice, ⟨outMeta, hout⟩, ⟨inMeta, hin⟩,
      Nat.lt_of_not_le hprofit, Nat.le_of_not_lt hspread, hbalance, hstocked⟩, ?_, hpriced, ?_⟩
    · rw [hpriced]
      exact hamount
    · rw [hamount]
      exact hmin
  · cases h
    cases hfill

/-- Whatever is offered is filled, where the minimum allows it. -/
theorem Offers.decide_fills {q : Answers} {currentBlock outputBalance : Nat} (order : OrderInfo)
    (h : Offers q order.toOrderInfo currentBlock outputBalance)
    (hmin : minFill order ≤ offered order.toOrderInfo
      (CoWFiller.currentPrice order.toOrderInfo currentBlock) outputBalance) :
    ∃ r, decide q order currentBlock = .ok r ∧ r.shouldFill = true ∧
      r.fillAmount = offered order.toOrderInfo
        (CoWFiller.currentPrice order.toOrderInfo currentBlock) outputBalance := by
  obtain ⟨outMeta, hout⟩ := h.outMeta
  obtain ⟨inMeta, hin⟩ := h.inMeta
  have hblocks := h.blocksLeft
  have hfills : (decideFill q order (CoWFiller.currentPrice order.toOrderInfo currentBlock) outMeta
      outputBalance).shouldFill = true := decideFill_fills.mpr ⟨h.stocked, hmin⟩
  refine ⟨_, ?_, hfills, (decideFill_amount hfills).1⟩
  unfold decide
  dsimp only
  rw [if_neg (by omega), if_neg (by omega), if_neg (Nat.pos_iff_ne_zero.mp h.priced), hout, hin]
  dsimp only
  rw [if_neg (Nat.not_le.mpr h.profitable), if_neg (Nat.not_lt.mpr h.spread), h.balance]
  rfl

/-! ## Fills and the minimum -/

/-- What a decision fills. -/
def filled (answer : Except String FillDecision) : Nat :=
  match answer with
  | .ok r => if r.shouldFill then r.fillAmount else 0
  | .error _ => 0

/-- What is filled under a higher minimum is filled under a lower one. -/
theorem filled_antitone (q : Answers) (order : OrderInfo) (currentBlock : Nat) {low high : Nat}
    (hle : low ≤ high) :
    filled (decide q { order with minFillBps := high } currentBlock)
      ≤ filled (decide q { order with minFillBps := low } currentBlock) := by
  cases hhigh : decide q { order with minFillBps := high } currentBlock with
  | error e => exact Nat.zero_le _
  | ok r =>
      by_cases hfill : r.shouldFill = true
      · obtain ⟨outputBalance, hoffers, hamount, hprice, hmin⟩ := decide_fills hhigh hfill
        have hlower : minFill { order with minFillBps := low }
            ≤ minFill { order with minFillBps := high } :=
          Nat.div_le_div_right (Nat.mul_le_mul_left order.inputAmount hle)
        rw [hprice] at hamount
        rw [hamount] at hmin
        obtain ⟨r', hlow, hfill', hamount'⟩ :=
          Offers.decide_fills { order with minFillBps := low } hoffers (Nat.le_trans hlower hmin)
        rw [hlow]
        show (if r.shouldFill then r.fillAmount else 0)
          ≤ if r'.shouldFill then r'.fillAmount else 0
        rw [if_pos hfill, if_pos hfill', hamount, hamount']
      · show (if r.shouldFill then r.fillAmount else 0) ≤ _
        rw [if_neg hfill]
        exact Nat.zero_le _

end WhaleFiller

end NeutronX
