import NeutronX.Evm.Checked

/-!
# The CoW filler's strategy

`decide` says whether the filler fills an order at a block: the order must
have five blocks left, its decayed price must not be zero, and the bids of
an external order book must cover what the filler's inventory can pay for,
above that price.

The filler reads an order from the backend. It recomputes the price from
the block of the oldest of the order's fills, which come newest first.
-/

namespace NeutronX

open Evm

namespace CoWFiller

/-! ## Orders and order books -/

/-- What `decide` reads of a fill: the block it was recorded with. -/
structure FillSummary where
  blockNumber : Option Nat
deriving DecidableEq

/-- What `decide` reads of an order. -/
structure OrderInfo where
  inputToken : String
  outputToken : String
  inputAmount : Nat
  deadline : Nat
  startPrice : Nat
  decayPerBlock : Nat
  /-- newest first -/
  fills : List FillSummary
deriving DecidableEq

structure BidLevel where
  /-- raw output token for 10^18 of raw input token -/
  price : Nat
  size : Nat
deriving DecidableEq

structure Token where
  symbol : String
  decimals : Nat
deriving DecidableEq

def WETH : String := "0xC02aaA39b223FE8D0A0e5C4F27eAD9083C756Cc2"
def USDC : String := "0xA0b86991c6218b36c1d19D4a2e9Eb0cE3606eB48"
def USDT : String := "0xdAC17F958D2ee523a2206206994597C13D831ec7"

def SUPPORTED_TOKENS : List (String × Token) :=
  [(WETH, ⟨"WETH", 18⟩),
   (USDC, ⟨"USDC", 6⟩),
   (USDT, ⟨"USDT", 6⟩),
   ("0x6B175474E89094C44Da98b954EedeAC495271d0F", ⟨"DAI", 18⟩),
   ("0x2260FAC5E5542a773Aa44fBCfeDf7C193bc2C599", ⟨"WBTC", 8⟩),
   ("0x514910771AF9Ca656af840dff83E8264EcF986CA", ⟨"LINK", 18⟩),
   ("0x1f9840a85d5aF5bf1D1762F925BDADdC4201F984", ⟨"UNI", 18⟩)]

/-- `INVENTORY` -/
def MIN_PROFIT_RAW : Int := 0
def MAX_INVENTORY_USE_BPS : Nat := 5000

structure Orderbook where
  inputToken : String
  outputToken : String
  /-- descending by price -/
  bids : List BidLevel
deriving DecidableEq

def ONE_WETH : Nat := 10 ^ 18
def ONE_USDC : Nat := 10 ^ 6

def WETH_USDC_BOOK : Orderbook where
  inputToken := WETH
  outputToken := USDC
  bids :=
    [⟨2510 * ONE_USDC, 2 * ONE_WETH⟩, ⟨2505 * ONE_USDC, 3 * ONE_WETH⟩,
     ⟨2500 * ONE_USDC, 5 * ONE_WETH⟩, ⟨2495 * ONE_USDC, 10 * ONE_WETH⟩,
     ⟨2490 * ONE_USDC, 20 * ONE_WETH⟩]

def WETH_USDT_BOOK : Orderbook where
  inputToken := WETH
  outputToken := USDT
  bids :=
    [⟨2510 * ONE_USDC, 2 * ONE_WETH⟩, ⟨2505 * ONE_USDC, 3 * ONE_WETH⟩,
     ⟨2500 * ONE_USDC, 5 * ONE_WETH⟩, ⟨2495 * ONE_USDC, 10 * ONE_WETH⟩]

def USDC_WETH_BOOK : Orderbook where
  inputToken := USDC
  outputToken := WETH
  bids :=
    [⟨10 ^ 18 / (2490 * ONE_USDC), 5000 * ONE_USDC⟩,
     ⟨10 ^ 18 / (2495 * ONE_USDC), 10000 * ONE_USDC⟩,
     ⟨10 ^ 18 / (2500 * ONE_USDC), 20000 * ONE_USDC⟩]

def ALL_BOOKS : List Orderbook := [WETH_USDC_BOOK, WETH_USDT_BOOK, USDC_WETH_BOOK]

def getStaticOrderbook (inputToken outputToken : String) : Option Orderbook :=
  ALL_BOOKS.find? fun b =>
    b.inputToken.toLower = inputToken.toLower ∧ b.outputToken.toLower = outputToken.toLower

/-- What the filler asks others for while it decides. -/
structure Answers where
  /-- `fetchLiveOrderbook`, `none` also where it throws -/
  fetchLiveOrderbook : (inputToken outputToken : String) → Option Orderbook
  /-- of the filler's wallet -/
  balanceOf : (token : String) → Except String Nat
  /-- `(Number(raw) / 10 ** decimals).toFixed(digits)` -/
  toFixed : (digits raw decimals : Nat) → String

/-- The live book, and the static one where there is none. -/
def getOrderbook (q : Answers) (inputToken outputToken : String) : Option Orderbook :=
  (q.fetchLiveOrderbook inputToken outputToken).orElse fun _ =>
    getStaticOrderbook inputToken outputToken

/-! ## Matching -/

structure MatchResult where
  fillAmount : Nat
  estimatedProfit : Int
  matchedLevels : Nat
deriving DecidableEq

/-- What the loop over the bids accumulates. -/
structure Matched where
  remaining : Nat
  fillAmount : Nat
  totalRevenue : Nat
  totalCost : Nat
  matchedLevels : Nat

/-- One level of the book. -/
def Matched.fill (m : Matched) (auctionPrice : Nat) (bid : BidLevel) : Matched :=
  let take := min bid.size m.remaining
  { remaining := m.remaining - take
    fillAmount := m.fillAmount + take
    totalRevenue := m.totalRevenue + take * bid.price / 10 ^ 18
    totalCost := m.totalCost + take * auctionPrice / 10 ^ 18
    matchedLevels := m.matchedLevels + 1 }

/-- The loop: the best bids first, as long as they are above the auction's
price and something is left. -/
def matchBids (auctionPrice : Nat) : List BidLevel → Matched → Matched
  | [], m => m
  | bid :: bids, m =>
      if bid.price ≤ auctionPrice then m
      else if (m.fill auctionPrice bid).remaining = 0 then m.fill auctionPrice bid
      else matchBids auctionPrice bids (m.fill auctionPrice bid)

/-- `match`, a keyword here -/
def matchOrder (auctionPrice available : Nat) (bids : List BidLevel) : Option MatchResult :=
  let m := matchBids auctionPrice bids ⟨available, 0, 0, 0, 0⟩
  if m.fillAmount = 0 then none
  else some ⟨m.fillAmount, m.totalRevenue - m.totalCost, m.matchedLevels⟩

/-- What is filled and what is left add up to what was asked for, and the
costs are covered. -/
structure Matched.Covers (available : Nat) (m : Matched) : Prop where
  sum : m.fillAmount + m.remaining = available
  cost : m.totalCost ≤ m.totalRevenue

theorem Matched.Covers.fill {available auctionPrice : Nat} {m : Matched} {bid : BidLevel}
    (h : m.Covers available) (hprice : auctionPrice ≤ bid.price) :
    (m.fill auctionPrice bid).Covers available := by
  have htake : min bid.size m.remaining ≤ m.remaining := Nat.min_le_right _ _
  have hsum := h.sum
  refine ⟨?_, Nat.add_le_add h.cost (Nat.div_le_div_right (Nat.mul_le_mul_left _ hprice))⟩
  simp only [Matched.fill]
  omega

theorem matchBids_covers {available auctionPrice : Nat} (bids : List BidLevel) {m : Matched}
    (h : m.Covers available) : (matchBids auctionPrice bids m).Covers available := by
  induction bids generalizing m with
  | nil => exact h
  | cons bid bids ih =>
      unfold matchBids
      split
      · exact h
      · rename_i hprice
        have hfill : (m.fill auctionPrice bid).Covers available := h.fill (by omega)
        split
        · exact hfill
        · exact ih hfill

/-- A match is for something, for no more than was asked, and at no loss. -/
theorem matchOrder_spec {auctionPrice available : Nat} {bids : List BidLevel} {r : MatchResult}
    (h : matchOrder auctionPrice available bids = some r) :
    0 < r.fillAmount ∧ r.fillAmount ≤ available ∧ 0 ≤ r.estimatedProfit := by
  have hcovers : (matchBids auctionPrice bids ⟨available, 0, 0, 0, 0⟩).Covers available :=
    matchBids_covers bids ⟨Nat.zero_add available, Nat.le_refl _⟩
  have hsum := hcovers.sum
  have hcost := hcovers.cost
  simp only [matchOrder] at h
  split at h
  · cases h
  · cases h
    dsimp only
    omega

/-! ## The strategy -/

structure Extras where
  estimatedProfit : String
  matchedLevels : Nat
  inventoryHuman : String

structure FillDecision where
  shouldFill : Bool
  fillAmount : Nat
  currentPrice : Nat
  reason : String
  extras : Option Extras

/-- The block the auction of an order started to decay in, for all the
filler knows: that of its oldest fill. -/
def firstFillBlock (order : OrderInfo) (currentBlock : Nat) : Nat :=
  match order.fills.getLast? with
  | some fill => fill.blockNumber.getD currentBlock
  | none => currentBlock

def currentPrice (order : OrderInfo) (currentBlock : Nat) : Nat :=
  let blocksPassed := currentBlock - firstFillBlock order currentBlock
  let decay := blocksPassed * order.decayPerBlock
  if order.startPrice > decay then order.startPrice - decay else 0

/-- The inventory that may be used for a fill buys this much at a price. -/
def inventoryCapacity (outputBalance price : Nat) : Nat :=
  outputBalance * MAX_INVENTORY_USE_BPS / 10000 * 10 ^ 18 / price

def no (reason : String) : FillDecision := ⟨false, 0, 0, reason, none⟩

/-- `decide` from the order book on. -/
def decideFill (q : Answers) (order : OrderInfo) (price : Nat) (inMeta outMeta : Token)
    (bids : List BidLevel) (outputBalance : Nat) : FillDecision :=
  if outputBalance = 0 then no "zero inventory of outputToken"
  else
    let available := min (inventoryCapacity outputBalance price) order.inputAmount
    match matchOrder price available bids with
    | none =>
        let bestBidHuman := match bids.head? with
          | some bestBid => q.toFixed 4 bestBid.price outMeta.decimals
          | none => "none"
        no ("best bid " ++ bestBidHuman ++ " <= auction price "
          ++ q.toFixed 4 price outMeta.decimals ++ " — not profitable")
    | some result =>
        if result.fillAmount < available then
          no ("book depth covers only " ++ q.toFixed 4 result.fillAmount inMeta.decimals ++ " of "
            ++ q.toFixed 4 available inMeta.decimals ++ " " ++ inMeta.symbol
            ++ " — need a 100% fill")
        else if result.estimatedProfit < MIN_PROFIT_RAW then
          no ("profit " ++ toString result.estimatedProfit ++ " < min "
            ++ toString MIN_PROFIT_RAW)
        else
          let profitHuman := q.toFixed 4 result.estimatedProfit.toNat outMeta.decimals
          let balHuman := q.toFixed 2 outputBalance outMeta.decimals
          { shouldFill := true
            fillAmount := result.fillAmount
            currentPrice := price
            reason := "profit=" ++ profitHuman ++ " " ++ outMeta.symbol ++ " | levels="
              ++ toString result.matchedLevels ++ " | inventory=" ++ balHuman ++ " "
              ++ outMeta.symbol
            extras := some ⟨profitHuman, result.matchedLevels, balHuman⟩ }

/-- Throws where the wallet's balance cannot be read. -/
def decide (q : Answers) (order : OrderInfo) (currentBlock : Nat) : Except String FillDecision :=
  let blocksLeft : Int := order.deadline - currentBlock
  if blocksLeft ≤ 0 then .ok (no "expired")
  else if blocksLeft < 5 then .ok (no "too close to deadline")
  else
    let price := currentPrice order currentBlock
    if price = 0 then .ok (no "price decayed to zero")
    else
      match SUPPORTED_TOKENS.lookup order.outputToken,
          SUPPORTED_TOKENS.lookup order.inputToken with
      | some outMeta, some inMeta =>
          match getOrderbook q order.inputToken order.outputToken with
          | none => .ok (no ("no orderbook for " ++ inMeta.symbol ++ "→" ++ outMeta.symbol))
          | some book => do
              let outputBalance ← q.balanceOf order.outputToken
              return decideFill q order price inMeta outMeta book.bids outputBalance
      | _, _ => .ok (no "unsupported token pair")

/-! ## What a decision says -/

theorem decideFill_fills {q : Answers} {order : OrderInfo} {price : Nat} {inMeta outMeta : Token}
    {bids : List BidLevel} {outputBalance : Nat}
    (h : (decideFill q order price inMeta outMeta bids outputBalance).shouldFill = true) :
    (decideFill q order price inMeta outMeta bids outputBalance).currentPrice = price ∧
    (decideFill q order price inMeta outMeta bids outputBalance).fillAmount
      = min (inventoryCapacity outputBalance price) order.inputAmount ∧
    0 < (decideFill q order price inMeta outMeta bids outputBalance).fillAmount := by
  unfold decideFill at h ⊢
  split
  · rename_i hzero
    rw [if_pos hzero] at h
    cases h
  · rename_i hzero
    rw [if_neg hzero] at h
    dsimp only at h ⊢
    split
    · rename_i hmatch
      rw [hmatch] at h
      cases h
    · rename_i result hmatch
      obtain ⟨hpos, hle, hprofit⟩ := matchOrder_spec hmatch
      rw [hmatch] at h
      dsimp only at h
      split
      · rename_i hdepth
        rw [if_pos hdepth] at h
        cases h
      · rename_i hdepth
        split
        · rename_i hmin
          exact absurd hprofit (Int.not_le.mpr hmin)
        · exact ⟨rfl, Nat.le_antisymm hle (Nat.le_of_not_lt hdepth), hpos⟩

/-- **A fill is decided at the current price**, which is not zero then,
for all that the inventory pays for at this price, and with at least five
blocks left. -/
theorem decide_fills {q : Answers} {order : OrderInfo} {currentBlock : Nat} {r : FillDecision}
    (h : decide q order currentBlock = .ok r) (hfill : r.shouldFill = true) :
    currentBlock + 5 ≤ order.deadline ∧
    r.currentPrice = currentPrice order currentBlock ∧ 0 < currentPrice order currentBlock ∧
    0 < r.fillAmount ∧ ∃ outputBalance, q.balanceOf order.outputToken = .ok outputBalance ∧
      r.fillAmount
        = min (inventoryCapacity outputBalance r.currentPrice) order.inputAmount := by
  unfold decide at h
  dsimp only at h
  split at h
  · cases h
    cases hfill
  split at h
  · cases h
    cases hfill
  split at h
  · cases h
    cases hfill
  rename_i hopen hclose hprice
  split at h
  · rename_i outMeta inMeta _ _
    split at h
    · cases h
      cases hfill
    · rename_i book _
      rw [bind_eq_ok] at h
      obtain ⟨outputBalance, hbalance, h⟩ := h
      cases h
      obtain ⟨hpriced, hamount, hpos⟩ := decideFill_fills hfill
      refine ⟨by omega, hpriced, Nat.pos_of_ne_zero hprice, hpos, outputBalance, hbalance, ?_⟩
      rw [hpriced]
      exact hamount
  · cases h
    cases hfill

/-- A price of zero is never filled. -/
theorem decide_zero {q : Answers} {order : OrderInfo} {currentBlock : Nat}
    (hzero : currentPrice order currentBlock = 0) :
    ∃ reason, decide q order currentBlock = .ok (no reason) := by
  by_cases hopen : (order.deadline : Int) - currentBlock ≤ 0
  · exact ⟨"expired", if_pos hopen⟩
  by_cases hclose : (order.deadline : Int) - currentBlock < 5
  · exact ⟨"too close to deadline", (if_neg hopen).trans (if_pos hclose)⟩
  · exact ⟨"price decayed to zero", (if_neg hopen).trans ((if_neg hclose).trans (if_pos hzero))⟩

end CoWFiller

end NeutronX
