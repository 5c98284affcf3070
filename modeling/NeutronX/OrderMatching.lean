import NeutronX.CoWFiller
import NeutronX.Evm.Greedy
import Mathlib.Algebra.Order.Group.Unbundled.Abs

/-!
# The matcher is optimal

The loop of `match` walks the bids from the best one on. What it takes of
each level is read off it by `matchTakes`; this is the greedy sharing of
what is available among the levels, each of which gains its price above
the auction's a unit (`matchTakes_eq_greedy`), and so no allocation has a
higher profit.

The profit it reports is floored twice a level. Each level it visits is off
by less than one unit for that, and a level it does not visit takes nothing.
-/

namespace NeutronX

open Evm

namespace CoWFiller

/-- How the bids of a book are sorted. -/
def ByDescendingPrice (bids : List BidLevel) : Prop := bids.Pairwise fun b b' => b'.price ≤ b.price

/-- Amounts for the levels of a book, out of what is available. -/
structure Allocation (available : Nat) (bids : List BidLevel) (ts : List Nat) : Prop where
  sizes : List.Forall₂ (fun t (bid : BidLevel) => t ≤ bid.size) ts bids
  total : ts.sum ≤ available

/-- The profit of an allocation before it is scaled down by 10^18. -/
def exactProfit (auctionPrice : Nat) : List BidLevel → List Nat → Int
  | bid :: bids, t :: ts =>
      (t : Int) * ((bid.price : Int) - auctionPrice) + exactProfit auctionPrice bids ts
  | _, _ => 0

/-- What `match` fills, nothing where it returns null. -/
def matchedAmount : Option MatchResult → Nat
  | some r => r.fillAmount
  | none => 0

/-- What the loop takes of each level. -/
def matchTakes (auctionPrice : Nat) : Nat → List BidLevel → List Nat
  | _, [] => []
  | remaining, bid :: bids =>
      if bid.price ≤ auctionPrice then (bid :: bids).map fun _ => 0
      else if remaining - min bid.size remaining = 0 then
        min bid.size remaining :: bids.map fun _ => 0
      else min bid.size remaining
        :: matchTakes auctionPrice (remaining - min bid.size remaining) bids

/-! ## The levels as offers -/

def offers (auctionPrice : Nat) (bids : List BidLevel) : List (Offer Int) :=
  bids.map fun bid => ⟨bid.size, (bid.price : Int) - auctionPrice⟩

variable {auctionPrice available : Nat} {bids : List BidLevel}

theorem descending_offers (h : ByDescendingPrice bids) :
    Descending (offers auctionPrice bids) := by
  rw [Descending, offers, List.pairwise_map]
  refine h.imp fun {b b'} hle => ?_
  show (b'.price : Int) - auctionPrice ≤ (b.price : Int) - auctionPrice
  omega

theorem Allocation.shares {ts : List Nat} (h : Allocation available bids ts) :
    Shares available (offers auctionPrice bids) ts :=
  ⟨List.forall₂_map_right_iff.mpr h.sizes, h.total⟩

theorem allocation_of_shares {ts : List Nat}
    (h : Shares available (offers auctionPrice bids) ts) : Allocation available bids ts := by
  have hsizes := h.sizes
  rw [offers, List.forall₂_map_right_iff] at hsizes
  exact ⟨hsizes, h.total⟩

theorem worth_offers (ts : List Nat) :
    worth (offers auctionPrice bids) ts = exactProfit auctionPrice bids ts := by
  induction bids generalizing ts with
  | nil => rfl
  | cons bid bids ih =>
      cases ts with
      | nil => rfl
      | cons t ts =>
          show (t : Int) * ((bid.price : Int) - auctionPrice) + worth (offers auctionPrice bids) ts
            = (t : Int) * ((bid.price : Int) - auctionPrice) + exactProfit auctionPrice bids ts
          rw [ih]

theorem exactProfit_zeros (bids : List BidLevel) :
    exactProfit auctionPrice bids (bids.map fun _ => 0) = 0 := by
  have hzeros : (bids.map fun _ => 0) = (offers auctionPrice bids).map fun _ => 0 := by
    rw [offers, List.map_map]
    rfl
  rw [← worth_offers, hzeros]
  exact worth_zeros _

theorem sizes_above :
    ((offers auctionPrice bids).filter fun o => 0 < o.gain).map (fun o => o.size)
      = (bids.filter fun bid => auctionPrice < bid.price).map fun bid => bid.size := by
  rw [offers, List.filter_map, List.map_map]
  congr 1
  refine List.filter_congr fun bid _ => ?_
  show Decidable.decide (0 < (bid.price : Int) - auctionPrice)
    = Decidable.decide (auctionPrice < bid.price)
  rw [decide_eq_decide]
  omega

/-- **The loop shares greedily**: it leaves where the greedy sharing has
nothing to give, or no level to gain from. -/
theorem matchTakes_eq_greedy (bids : List BidLevel) (remaining : Nat) :
    matchTakes auctionPrice remaining bids = greedy remaining (offers auctionPrice bids) := by
  induction bids generalizing remaining with
  | nil => rfl
  | cons bid bids ih =>
      have hgain : 0 < (bid.price : Int) - auctionPrice ↔ ¬ bid.price ≤ auctionPrice := by omega
      show matchTakes auctionPrice remaining (bid :: bids)
        = if 0 < (bid.price : Int) - auctionPrice then
            min bid.size remaining
              :: greedy (remaining - min bid.size remaining) (offers auctionPrice bids)
          else (offers auctionPrice (bid :: bids)).map fun _ => 0
      unfold matchTakes
      split
      · rename_i hprice
        rw [if_neg (fun h => hgain.mp h hprice), offers, List.map_map]
        rfl
      · rename_i hprice
        rw [if_pos (hgain.mpr hprice)]
        split
        · rename_i hdone
          rw [hdone, greedy_zero, offers, List.map_map]
          rfl
        · rw [ih]

/-! ## What the loop adds up -/

/-- What is filled is what is taken. -/
theorem matchBids_fillAmount (bids : List BidLevel) (m : Matched) :
    (matchBids auctionPrice bids m).fillAmount
      = m.fillAmount + (matchTakes auctionPrice m.remaining bids).sum := by
  induction bids generalizing m with
  | nil => rfl
  | cons bid bids ih =>
      unfold matchBids matchTakes
      split
      · simp
      · show (if (m.fill auctionPrice bid).remaining = 0 then m.fill auctionPrice bid
            else matchBids auctionPrice bids (m.fill auctionPrice bid)).fillAmount = _
        split
        · rename_i hdone
          have hleft : m.remaining - min bid.size m.remaining = 0 := hdone
          rw [if_pos hleft, List.sum_cons]
          simp [Matched.fill]
        · rename_i hmore
          have hleft : m.remaining - min bid.size m.remaining ≠ 0 := hmore
          rw [if_neg hleft, List.sum_cons, ih, ← Nat.add_assoc]
          rfl

/-- The profit so far is off the exact one by less than a unit a level. -/
def Matched.Near (m : Matched) (exact : Int) : Prop :=
  |((m.totalRevenue : Int) - m.totalCost) * 10 ^ 18 - exact|
    ≤ (m.matchedLevels : Int) * (10 ^ 18 - 1)

/-- Two floors of one level are off by less than a unit together. -/
theorem floors_near (a b : Nat) :
    |(((a / 10 ^ 18 : Nat) : Int) - (b / 10 ^ 18 : Nat)) * 10 ^ 18 - ((a : Int) - b)|
      ≤ 10 ^ 18 - 1 := by
  have ha : a / 10 ^ 18 * 10 ^ 18 + a % 10 ^ 18 = a := Nat.div_add_mod' a (10 ^ 18)
  have hb : b / 10 ^ 18 * 10 ^ 18 + b % 10 ^ 18 = b := Nat.div_add_mod' b (10 ^ 18)
  have hma : a % 10 ^ 18 < 10 ^ 18 := Nat.mod_lt a (by norm_num)
  have hmb : b % 10 ^ 18 < 10 ^ 18 := Nat.mod_lt b (by norm_num)
  rw [abs_le]
  omega

theorem Matched.Near.fill {m : Matched} {exact : Int} (h : m.Near exact) (bid : BidLevel) :
    (m.fill auctionPrice bid).Near
      (exact + (min bid.size m.remaining : Nat) * ((bid.price : Int) - auctionPrice)) := by
  have hlevel := floors_near (min bid.size m.remaining * bid.price)
    (min bid.size m.remaining * auctionPrice)
  have hbefore : |((m.totalRevenue : Int) - m.totalCost) * 10 ^ 18 - exact|
      ≤ (m.matchedLevels : Int) * (10 ^ 18 - 1) := h
  rw [abs_le] at hlevel hbefore
  unfold Matched.Near Matched.fill
  dsimp only
  rw [abs_le, mul_sub]
  push_cast at hlevel hbefore ⊢
  constructor
  · linarith [hlevel.1, hbefore.1]
  · linarith [hlevel.2, hbefore.2]

theorem matchBids_near (bids : List BidLevel) {m : Matched} {exact : Int} (h : m.Near exact) :
    (matchBids auctionPrice bids m).Near
      (exact + exactProfit auctionPrice bids (matchTakes auctionPrice m.remaining bids)) := by
  induction bids generalizing m exact with
  | nil =>
      show m.Near (exact + 0)
      rwa [add_zero]
  | cons bid bids ih =>
      unfold matchBids matchTakes
      split
      · rwa [exactProfit_zeros, add_zero]
      · have hfill : (m.fill auctionPrice bid).Near _ := h.fill bid
        show Matched.Near (if (m.fill auctionPrice bid).remaining = 0 then m.fill auctionPrice bid
            else matchBids auctionPrice bids (m.fill auctionPrice bid)) _
        split
        · rename_i hdone
          have hleft : m.remaining - min bid.size m.remaining = 0 := hdone
          rw [if_pos hleft]
          show (m.fill auctionPrice bid).Near (exact +
            ((min bid.size m.remaining : Nat) * ((bid.price : Int) - auctionPrice)
              + exactProfit auctionPrice bids (bids.map fun _ => 0)))
          rwa [exactProfit_zeros, add_zero]
        · rename_i hmore
          have hleft : m.remaining - min bid.size m.remaining ≠ 0 := hmore
          rw [if_neg hleft]
          have hrest := ih hfill
          rw [add_assoc] at hrest
          exact hrest

/-- A match visits a level. -/
theorem matchBids_levels (bids : List BidLevel) (m : Matched) :
    m.matchedLevels ≤ (matchBids auctionPrice bids m).matchedLevels ∧
    ((matchBids auctionPrice bids m).fillAmount ≠ m.fillAmount →
      m.matchedLevels < (matchBids auctionPrice bids m).matchedLevels) := by
  induction bids generalizing m with
  | nil => exact ⟨Nat.le_refl _, fun h => absurd rfl h⟩
  | cons bid bids ih =>
      unfold matchBids
      split
      · exact ⟨Nat.le_refl _, fun h => absurd rfl h⟩
      · have hstep : m.matchedLevels < (m.fill auctionPrice bid).matchedLevels :=
          Nat.lt_succ_self _
        split
        · exact ⟨Nat.le_of_lt hstep, fun _ => hstep⟩
        · have hrest := (ih (m.fill auctionPrice bid)).1
          exact ⟨by omega, fun _ => by omega⟩

/-! ## The matcher -/

/-- **The matcher is optimal.** For a book by descending price it fills as
much as is available and the bids above the auction's price take, no
allocation has a higher profit than its own, and the profit it reports is
not negative and less than a unit a level off. -/
theorem matchOrder_optimal {bids : List BidLevel} (hsorted : ByDescendingPrice bids)
    (auctionPrice available : Nat) :
    matchedAmount (matchOrder auctionPrice available bids)
      = min available
        ((bids.filter fun bid => auctionPrice < bid.price).map fun bid => bid.size).sum ∧
    Allocation available bids (matchTakes auctionPrice available bids) ∧
    (matchTakes auctionPrice available bids).sum
      = matchedAmount (matchOrder auctionPrice available bids) ∧
    (∀ ts, Allocation available bids ts →
      exactProfit auctionPrice bids ts
        ≤ exactProfit auctionPrice bids (matchTakes auctionPrice available bids)) ∧
    ∀ r, matchOrder auctionPrice available bids = some r →
      0 ≤ r.estimatedProfit ∧
      |r.estimatedProfit * 10 ^ 18
          - exactProfit auctionPrice bids (matchTakes auctionPrice available bids)|
        < (r.matchedLevels : Int) * 10 ^ 18 := by
  have hfill : (matchBids auctionPrice bids ⟨available, 0, 0, 0, 0⟩).fillAmount
      = (matchTakes auctionPrice available bids).sum := by
    rw [matchBids_fillAmount, Nat.zero_add]
  have hamount : matchedAmount (matchOrder auctionPrice available bids)
      = (matchTakes auctionPrice available bids).sum := by
    rw [← hfill]
    unfold matchOrder
    dsimp only
    split
    · rename_i hnone
      exact hnone.symm
    · rfl
  refine ⟨?_, ?_, hamount.symm, ?_, ?_⟩
  · rw [hamount, matchTakes_eq_greedy, sum_greedy (descending_offers hsorted), sizes_above]
  · rw [matchTakes_eq_greedy]
    exact allocation_of_shares (shares_greedy available _)
  · intro ts hts
    rw [matchTakes_eq_greedy, ← worth_offers, ← worth_offers]
    exact worth_le_greedy (descending_offers hsorted) hts.shares
  · intro r hr
    refine ⟨(matchOrder_spec hr).2.2, ?_⟩
    have hstart : Matched.Near ⟨available, 0, 0, 0, 0⟩ 0 := by simp [Matched.Near]
    have hnear : (matchBids auctionPrice bids ⟨available, 0, 0, 0, 0⟩).Near _ :=
      matchBids_near bids hstart
    have hlevels : (matchBids auctionPrice bids ⟨available, 0, 0, 0, 0⟩).fillAmount ≠ 0 →
        0 < (matchBids auctionPrice bids ⟨available, 0, 0, 0, 0⟩).matchedLevels :=
      (matchBids_levels bids ⟨available, 0, 0, 0, 0⟩).2
    simp only [matchOrder] at hr
    split at hr
    · cases hr
    · rename_i hsome
      cases hr
      have hpos : 0 < (matchBids auctionPrice bids ⟨available, 0, 0, 0, 0⟩).matchedLevels :=
        hlevels hsome
      rw [zero_add] at hnear
      refine lt_of_le_of_lt hnear ?_
      dsimp only
      nlinarith [hpos]

theorem matchOrder_optimal_four_weth :
    ByDescendingPrice WETH_USDC_BOOK.bids ∧
    matchOrder (2500 * ONE_USDC) (4 * ONE_WETH) WETH_USDC_BOOK.bids
      = some ⟨4 * ONE_WETH, 30 * ONE_USDC, 2⟩ ∧
    exactProfit (2500 * ONE_USDC) WETH_USDC_BOOK.bids [ONE_WETH, 3 * ONE_WETH, 0, 0, 0]
      ≤ exactProfit (2500 * ONE_USDC) WETH_USDC_BOOK.bids
        (matchTakes (2500 * ONE_USDC) (4 * ONE_WETH) WETH_USDC_BOOK.bids) := by
  have hsorted : ByDescendingPrice WETH_USDC_BOOK.bids := by
    unfold ByDescendingPrice
    decide
  refine ⟨hsorted, by decide +kernel, ?_⟩
  refine (matchOrder_optimal hsorted (2500 * ONE_USDC) (4 * ONE_WETH)).2.2.2.1 _ ⟨?_, ?_⟩
  · decide
  · decide

end CoWFiller

end NeutronX
