import NeutronX.ChunkCalls
import NeutronX.CosignedOrders
import NeutronX.CoWFiller

/-!
# The decay of an order's price

The cursor of an order is rewritten by every chunk: the price it was filled
at, and the block. What a later chunk is quoted is a difference from there
(`curvePrice`). Blocks only advance, so the differences add up to the one
from the first chunk (`curvePrice_eq_dutchPrice`): how often the cursor was
reset in between makes no difference, and prices only fall.

A filler that knows the blocks of an order's chunks reads the same price
off the oldest of them (`decay_price_exact`).
-/

namespace NeutronX

open Evm Function

/-! ## The price from the first fill -/

/-- The signed start price, less the decay since the first fill, down to
zero. -/
def dutchPrice (info : OrderInfo) (firstFillBlock : Option Nat) (now : Nat) : Nat :=
  match firstFillBlock with
  | none => info.startPrice
  | some first => info.startPrice - info.decayPerBlock * (now - first)

theorem dutchPrice_antitone (info : OrderInfo) (firstFillBlock : Option Nat) {now later : Nat}
    (h : now ≤ later) :
    dutchPrice info firstFillBlock later ≤ dutchPrice info firstFillBlock now := by
  cases firstFillBlock with
  | none => exact Nat.le_refl _
  | some first =>
      exact Nat.sub_le_sub_left (Nat.mul_le_mul_left _ (Nat.sub_le_sub_right h _)) _

/-- A fill decays no further in its own block. -/
theorem dutchPrice_reset (info : OrderInfo) (bs : List Nat) (b : Nat) :
    dutchPrice info (b :: bs).getLast? b = dutchPrice info bs.getLast? b := by
  cases bs with
  | nil => simp [dutchPrice]
  | cons b' bs => rw [List.getLast?_cons_cons]

/-- The blocks of an order's chunks, newest first: none is in the future,
and all of them fit the cursor. -/
structure BlocksOrdered (now : Nat) (bs : List Nat) : Prop where
  sorted : (now :: bs).Pairwise (· ≥ ·)
  fit : ∀ b ∈ bs, b < 2 ^ 64

theorem BlocksOrdered.later {now later : Nat} {bs : List Nat} (h : BlocksOrdered now bs)
    (hle : now ≤ later) : BlocksOrdered later bs := by
  obtain ⟨hpast, hsorted⟩ := List.pairwise_cons.mp h.sorted
  exact ⟨List.pairwise_cons.mpr ⟨fun b hb => Nat.le_trans (hpast b hb) hle, hsorted⟩, h.fit⟩

theorem BlocksOrdered.tail {now b : Nat} {bs : List Nat} (h : BlocksOrdered now (b :: bs)) :
    BlocksOrdered b bs :=
  ⟨(List.pairwise_cons.mp h.sorted).2, fun b' hb' => h.fit b' (List.mem_cons_of_mem _ hb')⟩

theorem BlocksOrdered.le {now b : Nat} {bs : List Nat} (h : BlocksOrdered now (b :: bs)) :
    b ≤ now :=
  (List.pairwise_cons.mp h.sorted).1 b (List.mem_cons_self ..)

theorem BlocksOrdered.push {now : Nat} {bs : List Nat} (h : BlocksOrdered now bs)
    (hfit : now < 2 ^ 64) : BlocksOrdered now (now :: bs) := by
  obtain ⟨hpast, -⟩ := List.pairwise_cons.mp h.sorted
  refine ⟨List.pairwise_cons.mpr ⟨fun b hb => ?_, h.sorted⟩, fun b hb => ?_⟩
  · rcases List.mem_cons.mp hb with rfl | hb
    · exact Nat.le_refl _
    · exact hpast b hb
  · rcases List.mem_cons.mp hb with rfl | hb
    · exact hfit
    · exact h.fit b hb

namespace System

/-- **The cursor's price is the price from the first fill**, by induction
on the chunks since: what one of them takes off the price and what is taken
off after it add up, also where the price has reached zero. -/
theorem curvePrice_eq_dutchPrice (info : OrderInfo) :
    ∀ (bs : List Nat) (now : Nat), BlocksOrdered now bs →
      curvePrice info bs now = dutchPrice info bs.getLast? now := by
  intro bs
  induction bs with
  | nil => exact fun _ _ => rfl
  | cons b bs ih =>
      intro now h
      have hprice := ih b h.tail
      have hnow := h.le
      rw [curvePrice, hprice, toUint_of_lt (h.fit b (List.mem_cons_self ..))]
      cases bs with
      | nil =>
          simp only [dutchPrice, List.getLast?_nil, List.getLast?_singleton]
          rw [Nat.mul_comm]
      | cons b' bs =>
          rw [List.getLast?_cons_cons]
          obtain ⟨first, hfirst⟩ : ∃ first, (b' :: bs).getLast? = some first :=
            ⟨_, List.getLast?_eq_some_getLast (List.cons_ne_nil b' bs)⟩
          have hpast : first ≤ b :=
            (List.pairwise_cons.mp h.tail.sorted).1 first (List.mem_of_getLast? hfirst)
          simp only [hfirst, dutchPrice]
          rw [Nat.sub_sub, Nat.mul_comm (now - b), ← Nat.mul_add]
          congr 2
          omega

open PartialFillReactor (OpenChunk)

variable {κ W : Type} [DecidableEq κ] {d : Deployment κ W}

/-! ## The blocks of the chunks -/

omit [DecidableEq κ] in
theorem BlocksOrdered.keep {s s' : World κ W} {info : OrderInfo}
    (h : BlocksOrdered s.block.number (chunkBlocks info s.trace))
    (hblock : s.block.number ≤ s'.block.number)
    (hblocks : chunkBlocks info s'.trace = chunkBlocks info s.trace) :
    BlocksOrdered s'.block.number (chunkBlocks info s'.trace) := by
  rw [hblocks]
  exact h.later hblock

/-- A registration has a 64-bit deadline, and no chunk is opened after it. -/
theorem ChunkOpened.block_lt {s s' : World κ W} {msgSender : Account} {order : SignedOrder}
    {fillAmount : Nat} {c : OpenChunk} (hreg : Registered d s)
    (h : ChunkOpened d s msgSender order fillAmount s' c) : s.block.number < 2 ^ 64 := by
  have hvalid := h.registered
  simp only [FillAuction.hasValidRegistration, decide_eq_true_eq] at hvalid
  obtain ⟨info, hinfo, hfor⟩ := hreg (d.hashOrder order.info) msgSender
    (by rw [hvalid.1]; exact msgSender.2)
  refine Nat.lt_of_le_of_lt hvalid.2.2.2.2.2 ?_
  rw [hfor.deadline]
  exact toUint_lt 64 _

theorem blocksOrdered_segment {s s' : World κ W} {info : OrderInfo} (hreg : Registered d s)
    (hlaw : BlocksOrdered s.block.number (chunkBlocks info s.trace)) (h : Segment d s s') :
    BlocksOrdered s'.block.number (chunkBlocks info s'.trace) := by
  cases segment_effect h with
  | quiet h => exact BlocksOrdered.keep hlaw h.block (by rw [h.trace])
  | register msgSender msgValue order fillAmount snap hok hlive hvalid hs' =>
      subst hs'
      exact hlaw
  | chunkOpen msgSender order fillAmount c h =>
      have htrace : s'.trace = .inputPulled order.info msgSender (toUint 160 fillAmount)
          (.chunk c.currentPrice s.block.number) :: chunkHistory s order c := h.trace
      have hblocks : chunkBlocks info (chunkHistory s order c) = chunkBlocks info s.trace :=
        chunkBlocks_chunkHistory info
      rw [h.block, htrace, chunkBlocks, hblocks]
      split
      · exact hlaw.push (h.block_lt hreg)
      · exact hlaw
  | chunkClose msgSender info' fillAmount c balBefore received h hterms =>
      exact BlocksOrdered.keep hlaw (by rw [h.block]) (by rw [h.trace, chunkBlocks])
  | fallbackOpen order o h =>
      exact BlocksOrdered.keep hlaw (by rw [h.block]) (by rw [h.trace, chunkBlocks, chunkBlocks])
  | fallbackSettle info' o balBefore amountOut leftover h =>
      exact BlocksOrdered.keep hlaw (by rw [h.block]) (by rw [h.trace, chunkBlocks])
  | cancelOrder msgSender info' hs' =>
      subst hs'
      exact hlaw
  | invalidateNonce msgSender nonce hs' =>
      subst hs'
      exact hlaw

theorem Visited.blocksOrdered {s : World κ W} (h : Visited d s) (info : OrderInfo) :
    BlocksOrdered s.block.number (chunkBlocks info s.trace) :=
  h.invariant (I := fun s => BlocksOrdered s.block.number (chunkBlocks info s.trace))
    (fun _ _ => ⟨List.pairwise_singleton _ _, fun _ hb => absurd hb List.not_mem_nil⟩)
    fun hvisited hinv hseg => blocksOrdered_segment hvisited.registered hinv hseg

/-! ## The prices of the chunks -/

/-- The price a chunk of an order is filled at in a state. -/
def currentPrice (info : OrderInfo) (s : World κ W) : Nat :=
  dutchPrice info (chunkBlocks info s.trace).getLast? s.block.number

theorem ChunkOpened.price_eq {s s' : World κ W} {msgSender : Account} {order : SignedOrder}
    {fillAmount : Nat} {c : OpenChunk} (hvisited : Visited d s)
    (h : ChunkOpened d s msgSender order fillAmount s' c) :
    c.currentPrice = currentPrice order.info s := by
  obtain ⟨cursor, hquoted, -⟩ := h.quoted
  have hcurve := hvisited.historyLaw.curve order.info h.guards.noFallback
  rw [(hcurve.chunkQuoted hquoted).1]
  exact curvePrice_eq_dutchPrice _ _ _ (hvisited.blocksOrdered order.info)

/-- The prices of an order's chunks, newest first. -/
def chunkPrices (info : OrderInfo) : List TraceEvent → List Nat
  | [] => []
  | .inputPulled i _ _ (.chunk price _) :: es =>
      if i = info then price :: chunkPrices info es else chunkPrices info es
  | .inputPulled _ _ _ .fallback :: es => chunkPrices info es
  | .orderVerified _ _ :: es => chunkPrices info es
  | .outputCredited _ _ _ _ :: es => chunkPrices info es

/-- No price is above the one before it, and none is below the price that
has been reached by now. -/
structure PricesFall (info : OrderInfo) (now : Nat) (es : List TraceEvent) : Prop where
  sorted : (chunkPrices info es).Pairwise (· ≤ ·)
  reached : ∀ p ∈ chunkPrices info es, dutchPrice info (chunkBlocks info es).getLast? now ≤ p

omit [DecidableEq κ] in
/-- By induction on the history: the price of a chunk is the one that was
reached in its block. -/
theorem pricesFall_of_justified (info : OrderInfo) :
    ∀ (es : List TraceEvent) (now : Nat), TraceJustified d es →
      BlocksOrdered now (chunkBlocks info es) → PricesFall info now es
  | [], _, _, _ => ⟨List.Pairwise.nil, fun _ hp => absurd hp List.not_mem_nil⟩
  | .inputPulled i to_ amount (.chunk price b) :: es, now, hj, hb => by
      obtain ⟨hpull, hj⟩ := hj
      by_cases heq : i = info
      · subst heq
        rw [chunkBlocks, if_pos rfl] at hb
        have ih := pricesFall_of_justified i es b hj hb.tail
        have hprice : price = dutchPrice i (chunkBlocks i es).getLast? b := by
          rw [hpull.priced price b rfl]
          exact curvePrice_eq_dutchPrice _ _ _ hb.tail
        constructor <;> rw [chunkPrices, if_pos rfl]
        · refine List.pairwise_cons.mpr ⟨fun p hp => ?_, ih.sorted⟩
          rw [hprice]
          exact ih.reached p hp
        · intro p hp
          rw [chunkBlocks, if_pos rfl]
          refine Nat.le_trans (dutchPrice_antitone i _ hb.le) ?_
          rw [dutchPrice_reset]
          rcases List.mem_cons.mp hp with rfl | hp
          · exact hprice.ge
          · exact ih.reached p hp
      · rw [chunkBlocks, if_neg heq] at hb
        have ih := pricesFall_of_justified info es now hj hb
        constructor
        · rw [chunkPrices, if_neg heq]
          exact ih.sorted
        · rw [chunkPrices, if_neg heq, chunkBlocks, if_neg heq]
          exact ih.reached
  | .inputPulled _ _ _ .fallback :: es, now, hj, hb =>
      have ih := pricesFall_of_justified info es now hj.2 hb
      ⟨ih.sorted, ih.reached⟩
  | .orderVerified _ _ :: es, now, hj, hb =>
      have ih := pricesFall_of_justified info es now hj hb
      ⟨ih.sorted, ih.reached⟩
  | .outputCredited _ _ _ _ :: es, now, hj, hb =>
      have ih := pricesFall_of_justified info es now hj hb
      ⟨ih.sorted, ih.reached⟩

/-! ## What the filler computes -/

/-- An order as the filler reads it: with the signed curve, and with every
chunk so far in its list of fills. -/
structure ReadOrder (info : OrderInfo) (es : List TraceEvent) (order : CoWFiller.OrderInfo) :
    Prop where
  startPrice : order.startPrice = info.startPrice
  decayPerBlock : order.decayPerBlock = info.decayPerBlock
  fills : order.fills.map CoWFiller.FillSummary.blockNumber = (chunkBlocks info es).map some

theorem ReadOrder.currentPrice_eq {info : OrderInfo} {es : List TraceEvent}
    {order : CoWFiller.OrderInfo} (h : ReadOrder info es order) (now : Nat) :
    CoWFiller.currentPrice order now = dutchPrice info (chunkBlocks info es).getLast? now := by
  have hfirst : CoWFiller.firstFillBlock order now
      = ((chunkBlocks info es).getLast?).getD now := by
    have hlast := congrArg List.getLast? h.fills
    rw [List.getLast?_map, List.getLast?_map] at hlast
    unfold CoWFiller.firstFillBlock
    cases hfills : order.fills.getLast? with
    | none =>
        rw [hfills] at hlast
        cases hblocks : (chunkBlocks info es).getLast? with
        | none => rfl
        | some first =>
            rw [hblocks] at hlast
            cases hlast
    | some fill =>
        rw [hfills] at hlast
        cases hblocks : (chunkBlocks info es).getLast? with
        | none =>
            rw [hblocks] at hlast
            cases hlast
        | some first =>
            rw [hblocks] at hlast
            exact congrArg (Option.getD · now) (Option.some.inj hlast)
  unfold CoWFiller.currentPrice
  rw [hfirst, h.startPrice, h.decayPerBlock]
  cases (chunkBlocks info es).getLast? with
  | none =>
      simp only [Option.getD_none, Nat.sub_self, Nat.zero_mul, dutchPrice]
      split <;> omega
  | some first =>
      simp only [Option.getD_some, dutchPrice, Nat.mul_comm (now - first)]
      split <;> omega

/-- **The decay of the price is exact.** In every state a run passes
through: a chunk that is filled has the price of the order's signed curve
at the blocks since its first chunk, however many there were in between;
so the prices of its chunks only fall. A filler that knows the blocks of
all of them computes this price, and never fills at a price of zero. -/
theorem decay_price_exact {s : World κ W} (h : Visited d s) (info : OrderInfo) :
    (∀ l turns msgSender sig fillAmount s',
      chunkCall l = some (msgSender, ⟨info, sig⟩, fillAmount) →
      exec (body d) (.mk l turns) s = .ok s' →
      ∃ c s₁ s₂, ChunkExecuted d s msgSender ⟨info, sig⟩ fillAmount c s₁ s₂ s' ∧
        c.currentPrice = currentPrice info s) ∧
    (chunkPrices info s.trace).Pairwise (· ≤ ·) ∧
    ∀ order, ReadOrder info s.trace order →
      CoWFiller.currentPrice order s.block.number = currentPrice info s ∧
      ∀ q r, CoWFiller.decide q order s.block.number = .ok r →
        (r.shouldFill = true → r.currentPrice = currentPrice info s) ∧
        (currentPrice info s = 0 → r.shouldFill = false) := by
  refine ⟨?_, ?_, fun order hread => ⟨hread.currentPrice_eq _, fun q r hdecide => ?_⟩⟩
  · intro l turns msgSender sig fillAmount s' hl hexec
    obtain ⟨c, s₁, s₂, hexecuted⟩ := exec_chunkCall hl hexec
    exact ⟨c, s₁, s₂, hexecuted, hexecuted.opened.price_eq h⟩
  · exact (pricesFall_of_justified info s.trace s.block.number h.historyLaw.justified
      (h.blocksOrdered info)).sorted
  · have hprice : CoWFiller.currentPrice order s.block.number = currentPrice info s :=
      hread.currentPrice_eq s.block.number
    constructor
    · intro hfill
      rw [← hprice]
      exact (CoWFiller.decide_fills hdecide hfill).2.1
    · intro hzero
      obtain ⟨reason, hno⟩ := CoWFiller.decide_zero (q := q) (hprice.trans hzero)
      rw [hno] at hdecide
      cases hdecide
      rfl

/-- Five blocks after the second of two chunks, ten blocks apart. -/
theorem decay_price_exact_second :
    ∃ s : World OrderInfo Ledger, ∃ info : OrderInfo,
      chunkBlocks info s.trace = [20, 10] ∧
      chunkPrices info s.trace = [10 ^ 18 - 10, 10 ^ 18] ∧ currentPrice info s = 10 ^ 18 - 15 ∧
      CoWFiller.currentPrice ⟨CoWFiller.WETH, CoWFiller.USDC, 1000, 100, 10 ^ 18, 1,
        [⟨some 20⟩, ⟨some 10⟩]⟩ 25 = currentPrice info s := by
  let info : OrderInfo := ⟨1, 2, 1000, 3, 900, 100, 0, 0, 10 ^ 18, 1, 3000⟩
  let ledger : Ledger := update₂ (update₂ (update₂ (fun _ _ => 0) 2 1 1000) 3 7 400) 3 8 400
  let s := run Ledger.deployment
    [.call (.leaf (.register ⟨7, by decide⟩ 80 ⟨info, [1]⟩ 400)),
     .call (.leaf (.register ⟨8, by decide⟩ 60 ⟨info, [1]⟩ 300)),
     .call (.leaf (.executePartialChunk ⟨7, by decide⟩ ⟨info, [1]⟩ 400)),
     .tick ⟨10, 0⟩,
     .call (.leaf (.executePartialChunk ⟨8, by decide⟩ ⟨info, []⟩ 300)),
     .tick ⟨5, 0⟩]
    (deployed Ledger.deployment ledger ⟨10, 0⟩)
  have hs : Reachable Ledger.deployment s := ⟨_, _, _, rfl⟩
  have hblocks : chunkBlocks info s.trace = [20, 10] := by decide +kernel
  have hnow : s.block.number = 25 := by decide +kernel
  obtain ⟨-, -, hfiller⟩ := decay_price_exact hs.visited info
  have hread : ReadOrder info s.trace ⟨CoWFiller.WETH, CoWFiller.USDC, 1000, 100, 10 ^ 18, 1,
      [⟨some 20⟩, ⟨some 10⟩]⟩ := ⟨rfl, rfl, by rw [hblocks]; rfl⟩
  refine ⟨s, info, hblocks, by decide +kernel, by decide +kernel, ?_⟩
  rw [← hnow]
  exact (hfiller _ hread).1

end System

end NeutronX
