import NeutronX.DecayPrice
import NeutronX.Settleability
import NeutronX.SuggestParams

/-!
# Orders whose price stays above their floor

Whoever makes an order chooses a start price, a decay, a deadline and a
minimum output, and these have to fit: the price may sweep down to what
the minimum asks for by the deadline, and no further. `Sweep` says that a
curve does this, `Priced` that a price pays for the minimum. Where it does,
no chunk that is paid at the price misses its own floor, and the floor of
the whole order can only be missed by what was rounded off, less than one
unit a fill (`RoundingKept`).

Both makers of orders fit them: the route that suggests parameters, and
the page that signs an order, whose rounding is another.
-/

namespace NeutronX

open Evm

/-! ## Prices and floors -/

/-- A price that pays for the minimum output. -/
def Priced (info : OrderInfo) (price : Nat) : Prop :=
  (info.minOutputAmount : Nat) * 10 ^ 18 ≤ info.inputAmount * price

theorem Priced.fillFloor_le {info : OrderInfo} {price : Nat} (h : Priced info price)
    (amount : Nat) : System.fillFloor info amount ≤ amount * price / 10 ^ 18 := by
  have hscale : 0 < 10 ^ 18 := by decide
  rw [System.fillFloor, Nat.le_div_iff_mul_le hscale]
  rcases Nat.eq_zero_or_pos (info.inputAmount : Nat) with hzero | hpos
  · rw [hzero, Nat.div_zero, Nat.zero_mul]
    exact Nat.zero_le _
  · refine Nat.le_of_mul_le_mul_right ?_ hpos
    calc info.minOutputAmount * amount / info.inputAmount * 10 ^ 18 * info.inputAmount
        = info.minOutputAmount * amount / info.inputAmount * info.inputAmount * 10 ^ 18 := by
          rw [Nat.mul_right_comm]
      _ ≤ info.minOutputAmount * amount * 10 ^ 18 :=
          Nat.mul_le_mul_right _ (Nat.div_mul_le_self _ _)
      _ = info.minOutputAmount * 10 ^ 18 * amount := Nat.mul_right_comm _ _ _
      _ ≤ info.inputAmount * price * amount := Nat.mul_le_mul_right _ h
      _ = amount * price * info.inputAmount := by
          rw [Nat.mul_comm, ← Nat.mul_assoc, Nat.mul_right_comm]

/-- The curve falls to the floor in the blocks from the order's creation to
its deadline, and no further. -/
structure Sweep (info : OrderInfo) (created blocks floor : Nat) : Prop where
  deadline : (info.deadline : Nat) = created + blocks
  above : floor ≤ info.startPrice
  decay : info.decayPerBlock * blocks ≤ info.startPrice - floor

/-- The price of a sweep is above its floor by the decay of the blocks that
are left. -/
theorem Sweep.floor_le {info : OrderInfo} {created blocks floor now : Nat} {first : Option Nat}
    (h : Sweep info created blocks floor) (hfirst : ∀ b, first = some b → created ≤ b)
    (hcreated : created ≤ now) (hnow : now ≤ info.deadline) :
    floor + info.decayPerBlock * (info.deadline - now) ≤ dutchPrice info first now := by
  have hdeadline := h.deadline
  have habove := h.above
  have hdecay := h.decay
  cases first with
  | none =>
      have hleft : (info.decayPerBlock : Nat) * (info.deadline - now)
          ≤ info.decayPerBlock * blocks := Nat.mul_le_mul_left _ (by omega)
      show floor + info.decayPerBlock * (info.deadline - now) ≤ info.startPrice
      omega
  | some b =>
      have hb := hfirst b rfl
      have hspent : (info.decayPerBlock : Nat) * (info.deadline - now)
          + info.decayPerBlock * (now - b) ≤ info.decayPerBlock * blocks := by
        rw [← Nat.mul_add]
        exact Nat.mul_le_mul_left _ (by omega)
      show floor + info.decayPerBlock * (info.deadline - now)
        ≤ info.startPrice - info.decayPerBlock * (now - b)
      omega

/-! ## The page that signs an order -/

namespace DutchAuction

def START_PREMIUM_BPS : Nat := 200
def FLOOR_SLIPPAGE_BPS : Nat := 100
def AUCTION_BLOCKS : Nat := 200
def DECAY_PER_BLOCK_MAX : Nat := 4294967295

/-- The price of one amount for another. -/
def calcStartPrice (inWei outWei : Nat) : Nat :=
  if inWei = 0 then 0 else outWei * 10 ^ 18 / inWei

def startOut (outW : Nat) : Nat := outW * (10000 + START_PREMIUM_BPS) / 10000
def floorOut (outW : Nat) : Nat := outW * (10000 - FLOOR_SLIPPAGE_BPS) / 10000

/-- What is signed and sent. -/
structure OrderBody where
  inputAmount : Nat
  minOutputAmount : Nat
  deadline : Nat
  minFillBps : Nat
  startPrice : Nat
  decayPerBlock : Nat
  feeTier : Nat
  startBlock : Nat
deriving DecidableEq

/-- `doSwap` up to the signature, for a quote of `outW`; `manualDecay` is
what was typed, where it is above zero. Shows an error where that does not
fit the contract's field. -/
def doSwap (blockNumber inW outW : Nat) (manualDecay : Option Nat) (minFillBps : Nat) :
    Option OrderBody :=
  let deadline := blockNumber + AUCTION_BLOCKS
  let sp := calcStartPrice inW (startOut outW)
  let floorRate := calcStartPrice inW (floorOut outW)
  let blocks := max 1 (deadline - blockNumber)
  let body := fun dp => ⟨inW, floorOut outW, deadline, minFillBps, sp, dp, 3000, blockNumber⟩
  match manualDecay with
  | some dp => if dp > DECAY_PER_BLOCK_MAX then none else some (body dp)
  | none =>
      let dp := if sp > floorRate then (sp - floorRate) / blocks else 0
      some (body (if dp > DECAY_PER_BLOCK_MAX then DECAY_PER_BLOCK_MAX else dp))

theorem calcStartPrice_priced {inW : Nat} (outW : Nat) (hpos : 0 < inW) :
    outW * 10 ^ 18 < inW * (calcStartPrice inW outW + 1) := by
  rw [calcStartPrice, if_neg (Nat.pos_iff_ne_zero.mp hpos)]
  exact Nat.lt_mul_div_succ _ hpos

end DutchAuction

namespace System

open PartialFillReactor (OpenChunk)

variable {κ W : Type} [DecidableEq κ] {d : Deployment κ W}

/-- An order is created before its first chunk. -/
def CreatedBy (created : Nat) (info : OrderInfo) (s : World κ W) : Prop :=
  created ≤ s.block.number ∧ ∀ b ∈ chunkBlocks info s.trace, created ≤ b

theorem floor_le_priceNow {s : World κ W} (hs : Visited d s) {info : OrderInfo}
    {created blocks floor : Nat} (h : Sweep info created blocks floor)
    (hcreated : CreatedBy created info s) (hnow : s.block.number ≤ info.deadline) :
    floor + info.decayPerBlock * (info.deadline - s.block.number) ≤ priceNow s info := by
  rw [priceNow, curvePrice_eq_dutchPrice info _ _ (hs.blocksOrdered info)]
  exact h.floor_le (fun b hb => hcreated.2 b (List.mem_of_getLast? hb)) hcreated.1 hnow

/-! ## What is rounded off -/

/-- The fills of an order, chunks and fallback. -/
def fillCount (info : OrderInfo) : List TraceEvent → Nat
  | [] => 0
  | .outputCredited i _ _ _ :: es => (if i = info then 1 else 0) + fillCount info es
  | .orderVerified _ _ :: es => fillCount info es
  | .inputPulled _ _ _ _ :: es => fillCount info es

/-- The minimum of what is left, and the floors of what was filled with one
unit more for each fill, scaled by the order's input. -/
def potential (d : Deployment κ W) (info : OrderInfo) (s : World κ W) : Nat :=
  info.minOutputAmount * unfilled d s info
    + info.inputAmount * (floors info s.trace + fillCount info s.trace)

/-- The relation the calls keep: rounding costs less than a unit a fill. -/
def RoundingKept (d : Deployment κ W) (info : OrderInfo) (s s' : World κ W) : Prop :=
  potential d info s ≤ potential d info s'

omit [DecidableEq κ] in
theorem RoundingKept.ofSame {info : OrderInfo} {s s' : World κ W}
    (hunfilled : unfilled d s' info = unfilled d s info)
    (htrace : floors info s'.trace + fillCount info s'.trace
      = floors info s.trace + fillCount info s.trace) : RoundingKept d info s s' := by
  unfold RoundingKept potential
  rw [hunfilled, htrace]

omit [DecidableEq κ] in
theorem RoundingKept.ofAside {info : OrderInfo} {s s' : World κ W} (h : Aside s s') :
    RoundingKept d info s s' := by
  refine .ofSame (unfilled_eq_of_remaining h.remaining info) ?_
  rcases h.trace with htrace | ⟨i, sig, htrace⟩
  · rw [htrace]
  · rw [htrace, floors, fillCount]

/-- What a fill takes off the input it adds to the floors, and more. -/
theorem minimum_lt_fill (info : OrderInfo) (hinput : (info.inputAmount : Nat) ≠ 0)
    (amount sum count : Nat) :
    info.minOutputAmount * amount + info.inputAmount * (sum + count)
      < info.inputAmount * (fillFloor info amount + sum + (1 + count)) := by
  have hlt := Nat.lt_mul_div_succ (info.minOutputAmount * amount) (Nat.pos_of_ne_zero hinput)
  calc info.minOutputAmount * amount + info.inputAmount * (sum + count)
      < info.inputAmount * (fillFloor info amount + 1) + info.inputAmount * (sum + count) :=
        Nat.add_lt_add_right hlt _
    _ = info.inputAmount * (fillFloor info amount + sum + (1 + count)) := by
        rw [← Nat.mul_add]
        congr 1
        omega

theorem ChunkOpened.fillCount_eq {s s' : World κ W} {msgSender : Account} {order : SignedOrder}
    {fillAmount : Nat} {c : OpenChunk} (h : ChunkOpened d s msgSender order fillAmount s' c)
    (info : OrderInfo) : System.fillCount info s'.trace = System.fillCount info s.trace := by
  rw [h.trace, System.fillCount]
  split <;> rfl

theorem roundingKept_chunk {s s₁ s₂ s₃ : World κ W} {msgSender : Account} {order : SignedOrder}
    {fillAmount balBefore received : Nat} {c : OpenChunk} {info : OrderInfo}
    (hopen : ChunkOpened d s msgSender order fillAmount s₁ c) (hmid : RoundingKept d info s₁ s₂)
    (hclose : ChunkClosed d s₂ msgSender order.info fillAmount c balBefore s₃ received) :
    RoundingKept d info s s₃ := by
  obtain ⟨cursor, hquoted, -⟩ := hopen.quoted
  have hinput : (order.info.inputAmount : Nat) ≠ 0 := (mulDiv_eq_ok.mp hquoted.minChunk).1.1
  have hopenUnfilled := hopen.unfilled_eq info
  have hcloseFloors := hclose.floors_eq info
  have hcloseCount : fillCount info s₃.trace
      = (if order.info = info then 1 else 0) + fillCount info s₂.trace := by
    rw [hclose.trace, fillCount]
  unfold RoundingKept potential at hmid ⊢
  rw [hopen.floors_eq info, hopen.fillCount_eq info] at hmid
  rw [hclose.unfilled_eq info, hcloseFloors, hcloseCount]
  by_cases heq : info = order.info
  · subst heq
    rw [if_pos rfl] at hopenUnfilled
    rw [if_pos rfl, if_pos rfl]
    have hfill := hopen.guards.fill_le
    have hsplit : unfilled d s order.info = unfilled d s₁ order.info + fillAmount := by
      rw [hopenUnfilled]
      exact (Nat.sub_add_cancel hfill).symm
    have hadded := minimum_lt_fill order.info hinput fillAmount (floors order.info s₂.trace)
      (fillCount order.info s₂.trace)
    rw [hsplit, Nat.mul_add]
    omega
  · rw [if_neg heq] at hopenUnfilled
    rw [if_neg (Ne.symm heq), if_neg (Ne.symm heq), Nat.zero_add, Nat.zero_add]
    rw [hopenUnfilled] at hmid
    exact hmid

theorem roundingKept_fallback {s s₁ s₂ s₃ : World κ W} {order : SignedOrder}
    {o : FallbackExecutor.OpenFallback} {balBefore amountOut leftover : Nat} {info : OrderInfo}
    (hopen : FallbackOpened d s order s₁ o) (hmid : RoundingKept d info s₁ s₂)
    (hsettle : FallbackSettled d s₂ order.info o balBefore s₃ amountOut leftover) :
    RoundingKept d info s s₃ := by
  have hopenUnfilled := hopen.unfilled_eq info
  have hopenTrace : floors info s₁.trace + fillCount info s₁.trace
      = floors info s.trace + fillCount info s.trace := by
    rw [hopen.trace, floors, floors, fillCount, fillCount]
  have hsettleUnfilled : unfilled d s₃ info = unfilled d s₂ info :=
    unfilled_eq_of_remaining (by rw [hsettle.reactor]) info
  have hsettleFloors : floors info s₃.trace
      = (if order.info = info then fillFloor info o.rem else 0) + floors info s₂.trace := by
    rw [hsettle.trace, floors]
  have hsettleCount : fillCount info s₃.trace
      = (if order.info = info then 1 else 0) + fillCount info s₂.trace := by
    rw [hsettle.trace, fillCount]
  unfold RoundingKept potential at hmid ⊢
  rw [hopenTrace] at hmid
  rw [hsettleUnfilled, hsettleFloors, hsettleCount]
  by_cases heq : info = order.info
  · subst heq
    rw [if_pos rfl] at hopenUnfilled
    rw [if_pos rfl, if_pos rfl]
    have hrem : o.rem = unfilled d s order.info := hopen.guards.rem_eq
    have hadded := minimum_lt_fill order.info hsettle.floor.1 o.rem
      (floors order.info s₂.trace) (fillCount order.info s₂.trace)
    rw [hopenUnfilled, Nat.mul_zero, Nat.zero_add] at hmid
    rw [← hrem]
    omega
  · rw [if_neg heq] at hopenUnfilled
    rw [if_neg (Ne.symm heq), if_neg (Ne.symm heq), Nat.zero_add, Nat.zero_add]
    rw [hopenUnfilled] at hmid
    exact hmid

/-- The step lemma of the rounding. -/
theorem body_rounding (info : OrderInfo) (l : Label κ W) (s : World κ W) :
    (body d l s).Sat (RoundingKept d info) s := by
  have hrefl : ∀ s : World κ W, RoundingKept d info s s := fun s => Nat.le_refl _
  refine body_sat_of_aside (R := RoundingKept d info) Nat.le_trans .ofAside l s
    (fun f _ => .ofSame rfl rfl) ?_ ?_
  · intro msgSender order fillAmount _ data
    refine Prog.sat_attempt fun ⟨s₁, c⟩ hopen => ?_
    refine Prog.sat_yieldIf hrefl fun s₂ h₂ => ?_
    refine Prog.sat_yieldIf hrefl fun s₃ h₃ => ?_
    refine Prog.sat_attempt fun ⟨s₄, balBefore⟩ hpay => ?_
    have h₄ : RoundingKept d info s₃ s₄ := by
      obtain ⟨-, -, hs₄⟩ := chunkPay_spec hpay
      rw [hs₄]
      exact .ofSame rfl rfl
    refine Prog.sat_yieldIf hrefl fun s₅ h₅ => ?_
    refine Prog.sat_attempt fun s₆ hclose => ?_
    obtain ⟨received, hclosed⟩ := chunkClose_spec hclose
    exact roundingKept_chunk (chunkOpen_spec hopen)
      (Nat.le_trans h₂ (Nat.le_trans h₃ (Nat.le_trans h₄ h₅))) hclosed
  · intro order router routeOk minAmountOut _
    refine Prog.sat_attempt fun ⟨s₁, o, inBalBefore⟩ hopen => ?_
    refine Prog.sat_yieldIf hrefl fun s₂ h₂ => ?_
    refine Prog.sat_attempt fun ⟨s₃, balBefore⟩ happrove => ?_
    have h₃ : RoundingKept d info s₂ s₃ := by
      obtain ⟨-, -, hs₃⟩ := fallbackApprove_spec happrove
      rw [hs₃]
      exact .ofSame rfl rfl
    intro s₄ h₄
    refine Prog.sat_attempt fun ⟨s₅, amountOut, leftover⟩ hsettle => ?_
    refine Prog.sat_yieldIf hrefl fun s₆ h₆ => ?_
    have hsettled : RoundingKept d info s s₅ := roundingKept_fallback (fallbackOpen_spec hopen)
      (Nat.le_trans h₂ (Nat.le_trans h₃ h₄)) (fallbackSettle_spec hsettle)
    exact Nat.le_trans hsettled h₆

/-- The run lemma: the floors of the fills miss the minimum of what was
filled by less than a unit a fill. -/
theorem Reachable.minimum_le {s : World κ W} (h : Reachable d s) (info : OrderInfo) :
    info.minOutputAmount * info.inputAmount ≤ potential d info s := by
  obtain ⟨tokens, block, txs, rfl⟩ := h
  have hkept : RoundingKept d info (deployed d tokens block)
      (System.run d txs (deployed d tokens block)) :=
    runTxs_sat (P := fun _ => True) (R := RoundingKept d info) (fun s => Nat.le_refl _)
      Nat.le_trans (fun l _ s => body_rounding info l s)
      (fun t s => (.ofSame rfl rfl : RoundingKept d info s (elapse t s))) _
      fun tx _ => tx.all_true
  have hstart : potential d info (deployed d tokens block)
      = info.minOutputAmount * info.inputAmount := rfl
  rw [← hstart]
  exact hkept

/-! ## Chunks of an order that stays priced -/

/-- What can stop a chunk of an order at a price that pays for its minimum:
a transfer, or for the chunk that completes it the units its other fills
have rounded off. -/
inductive PricedStops (d : Deployment κ W) (s : World κ W) (filler : Account) (info : OrderInfo)
    (amount : Nat) : Revert → Prop
  | inputLeg (e : Revert) (h : d.permit2TransferFrom s.tokens d.reactor info.swapper filler amount
      info.inputToken = .error e) : PricedStops d s filler info amount e
  | outputLeg (e : Revert) (pulled : W)
      (pull : d.permit2TransferFrom s.tokens d.reactor info.swapper filler amount info.inputToken
        = .ok pulled)
      (h : d.safeTransferFrom pulled d.reactor info.outputToken filler info.swapper
        (amount * priceNow s info / 10 ^ 18) = .error e) : PricedStops d s filler info amount e
  | rounding (hlast : amount = unfilled d s info)
      (hshort : paid d s info + amount * priceNow s info / 10 ^ 18 < info.minOutputAmount)
      (hfills : info.minOutputAmount ≤ paid d s info + amount * priceNow s info / 10 ^ 18
        + fillCount info s.trace) : PricedStops d s filler info amount (.require "min output total")

/-- The chunk that takes all that is left, at such a price. -/
theorem minimum_le_paid {s : World κ W} (hs : Reachable d s) {info : OrderInfo}
    (hinput : (info.inputAmount : Nat) ≠ 0) (hpriced : Priced info (priceNow s info)) :
    info.minOutputAmount ≤ paid d s info + unfilled d s info * priceNow s info / 10 ^ 18
      + fillCount info s.trace := by
  have hpos : 0 < (info.inputAmount : Nat) := Nat.pos_of_ne_zero hinput
  have hmin := hs.minimum_le info
  have hfloors := (swapper_floor hs info).1
  have hlast := hpriced.fillFloor_le (unfilled d s info)
  have hadded := minimum_lt_fill info hinput (unfilled d s info) (floors info s.trace)
    (fillCount info s.trace)
  unfold potential at hmin
  rw [Nat.mul_comm] at hmin
  have htotal := Nat.lt_of_mul_lt_mul_left (Nat.lt_of_le_of_lt hmin hadded)
  omega

/-- A chunk that nobody interrupts, at a price that pays for the minimum. -/
theorem priced_stops [Fintype κ] {s : World κ W} (hs : Reachable d s) {filler : Account}
    {order : SignedOrder} {amount : Nat}
    (hstd : StandardToken d.toTokenCode order.info.outputToken)
    (hother : (filler : Address) ≠ order.info.swapper)
    (hpriced : Priced order.info (priceNow s order.info))
    (h : ChunkPasses d s filler order amount) {e : Revert}
    (herror : exec (body d) (.leaf (.executePartialChunk filler order amount)) s = .error e) :
    PricedStops d s filler order.info amount e := by
  have hcredit : ∀ output, creditOf filler order.info output = output := by
    intro output
    exact if_neg hother
  cases leaf_stops hs hstd h herror with
  | inputLeg e h => exact .inputLeg e h
  | outputLeg e pulled pull h => exact .outputLeg e pulled pull h
  | minOutput hshort =>
      have hfloor := hpriced.fillFloor_le amount
      rw [hcredit] at hshort
      omega
  | minOutputTotal hlast hshort =>
      rw [hcredit] at hshort
      have hfills := minimum_le_paid hs (Nat.pos_iff_ne_zero.mp (h.input_pos hs.visited)) hpriced
      rw [← hlast] at hfills
      exact .rounding hlast hshort hfills

/-! ## Orders made from a suggestion -/

section Suggested

open SuggestParams (SuggestRequest Market Suggestion suggestParams suggestParams_spec floorPrice)
open FillerSim (FillerEntry)

/-- An order for so much input with the parameters of a suggestion. -/
structure MadeWith (info : OrderInfo) (b : SuggestRequest) (sug : Suggestion) : Prop where
  inputAmount : b.inputAmount = some (info.inputAmount : Nat)
  startPrice : (info.startPrice : Nat) = sug.startPrice
  decayPerBlock : (info.decayPerBlock : Nat) = sug.decayPerBlock
  minOutputAmount : (info.minOutputAmount : Nat) = sug.minOutputAmount
  deadline : (info.deadline : Nat) = sug.deadline

variable {fillers : Nat → List FillerEntry} {m : Market} {b : SuggestRequest} {sug : Suggestion}
  {info : OrderInfo}

theorem MadeWith.sweep (h : suggestParams fillers (.ok m) b = .ok sug)
    (hrange : floorPrice b m ≤ SuggestParams.startPrice b m) (hmade : MadeWith info b sug) :
    Sweep info m.currentBlock (SuggestParams.deadlineBlocks b) (floorPrice b m) := by
  obtain ⟨inputAmount, m', -, hmarket, hsug⟩ := suggestParams_spec h
  cases hmarket
  refine ⟨hmade.deadline.trans hsug.deadline, ?_, ?_⟩
  · rw [hmade.startPrice, hsug.startPrice]
    exact hrange
  · rw [hmade.startPrice, hsug.startPrice, hmade.decayPerBlock, hsug.decayPerBlock]
    exact Nat.le_trans (Nat.mul_le_mul_right _ (Nat.min_le_left _ _)) (Nat.div_mul_le_self _ _)

theorem MadeWith.priced (h : suggestParams fillers (.ok m) b = .ok sug)
    (hmade : MadeWith info b sug) {price : Nat} (hprice : floorPrice b m ≤ price) :
    Priced info price := by
  obtain ⟨inputAmount, m', hinput, hmarket, hsug⟩ := suggestParams_spec h
  cases hmarket
  have hsame : inputAmount = (info.inputAmount : Nat) :=
    Option.some.inj (hinput.symm.trans hmade.inputAmount)
  rw [Priced, hmade.minOutputAmount, hsug.minOutputAmount, hsame]
  exact Nat.le_trans (Nat.div_mul_le_self _ _) (Nat.mul_le_mul_left _ hprice)

/-- **An order made from a suggestion can be filled until its deadline.**
Its price never falls below the suggested floor, so in every state of every
run no chunk that passes the guards misses its own floor: with a standard
output token what stops it is a transfer, or, if it completes the order,
an output that falls short by no more units than there were fills. -/
theorem suggested_settles [Fintype κ] (h : suggestParams fillers (.ok m) b = .ok sug)
    (hrange : floorPrice b m ≤ SuggestParams.startPrice b m) {s : World κ W}
    (hs : Reachable d s) {order : SignedOrder} (hmade : MadeWith order.info b sug)
    (hcreated : CreatedBy m.currentBlock order.info s) {filler : Account} {amount : Nat}
    (hpasses : ChunkPasses d s filler order amount) :
    floorPrice b m ≤ priceNow s order.info ∧
    (StandardToken d.toTokenCode order.info.outputToken →
      (filler : Address) ≠ order.info.swapper → ∀ e,
        exec (body d) (.leaf (.executePartialChunk filler order amount)) s = .error e →
        PricedStops d s filler order.info amount e) := by
  have hfloor := floor_le_priceNow hs.visited (hmade.sweep h hrange) hcreated hpasses.unexpired
  have hprice : floorPrice b m ≤ priceNow s order.info := Nat.le_trans (Nat.le_add_right _ _) hfloor
  exact ⟨hprice, fun hstd hother e herror =>
    priced_stops hs hstd hother (hmade.priced h hprice) hpasses herror⟩

/-- 10^12 at a market that gives 1000 for it, made in block 10 with the
defaults of the route. -/
def madeAtTen : SignedOrder :=
  ⟨⟨1, 2, 10 ^ 12, 3, 990, 110, 0, 100, 102 * 10 ^ 7, 300000, 3000⟩, [1]⟩

/-- Four tenths of an order are filled in block 10, and a filler without
output tokens is registered for the rest some blocks later. -/
def partlyFilled (first filler : Account) (order : SignedOrder) (blocks : Nat) :
    World OrderInfo Ledger :=
  run Ledger.deployment
    [.call (.leaf (.register first (8 * 10 ^ 10) order (4 * 10 ^ 11))),
     .call (.leaf (.executePartialChunk first order (4 * 10 ^ 11))),
     .call (.leaf (.register filler (12 * 10 ^ 10) order (6 * 10 ^ 11))),
     .tick ⟨blocks, 0⟩]
    (deployed Ledger.deployment (update₂ (update₂ (fun _ _ => 0) 2 1 (10 ^ 12)) 3 8 1000) ⟨10, 0⟩)

/-- Fifty blocks later the price has come halfway down, and the filler is
stopped by its transfer. -/
theorem suggested_settles_halfway :
    ∃ (m : Market) (b : SuggestRequest) (first filler : Account), floorPrice b m = 99 * 10 ^ 7 ∧
      priceNow (partlyFilled first filler madeAtTen 50) madeAtTen.info = 1005 * 10 ^ 6 ∧
      floorPrice b m ≤ priceNow (partlyFilled first filler madeAtTen 50) madeAtTen.info ∧
      ∃ e, PricedStops Ledger.deployment (partlyFilled first filler madeAtTen 50) filler
        madeAtTen.info (6 * 10 ^ 11) e := by
  let m : Market := ⟨10, fun bps => (10 ^ 9 * (10000 + bps) / 10000).toNat⟩
  let b : SuggestRequest := ⟨"IN", "OUT", some (10 ^ 12), none, none, none, none⟩
  let first : Account := ⟨8, by decide⟩
  let filler : Account := ⟨7, by decide⟩
  have hsuggested : Returns (suggestParams (fun _ => []) (.ok m) b) fun sug =>
      sug.startPrice = 102 * 10 ^ 7 ∧ sug.decayPerBlock = 300000 ∧ sug.minOutputAmount = 990 ∧
        sug.deadline = 110 := by decide +kernel
  obtain ⟨sug, h, hstart, hdecay, hmin, hdeadline⟩ := hsuggested
  have hmade : MadeWith madeAtTen.info b sug :=
    ⟨rfl, hstart.symm, hdecay.symm, hmin.symm, hdeadline.symm⟩
  have hpasses : ChunkPasses Ledger.deployment (partlyFilled first filler madeAtTen 50) filler
      madeAtTen (6 * 10 ^ 11) :=
    ⟨by decide +kernel, by decide +kernel, by decide +kernel, by decide +kernel,
      by decide +kernel, fun _ => ⟨rfl, by decide⟩, by decide +kernel, by decide +kernel,
      by decide +kernel⟩
  have hcreated :
      CreatedBy m.currentBlock madeAtTen.info (partlyFilled first filler madeAtTen 50) :=
    ⟨by decide +kernel, by decide +kernel⟩
  obtain ⟨hfloor, hstops⟩ :=
    suggested_settles h (by decide +kernel) ⟨_, _, _, rfl⟩ hmade hcreated hpasses
  have hreverts : Reverts (exec (body Ledger.deployment)
      (.leaf (.executePartialChunk filler madeAtTen (6 * 10 ^ 11)))
      (partlyFilled first filler madeAtTen 50))
      (.require "transfer amount exceeds balance") := by decide +kernel
  exact ⟨m, b, first, filler, by decide +kernel, by decide +kernel, hfloor, _,
    hstops (standard_ledger 3) (by decide) _ hreverts⟩

end Suggested

/-! ## Orders of the page -/

section Page

open DutchAuction (OrderBody doSwap calcStartPrice startOut floorOut)

/-- An order with the numbers of a body. -/
structure SignedFrom (info : OrderInfo) (body : OrderBody) : Prop where
  inputAmount : (info.inputAmount : Nat) = body.inputAmount
  startPrice : (info.startPrice : Nat) = body.startPrice
  decayPerBlock : (info.decayPerBlock : Nat) = body.decayPerBlock
  minOutputAmount : (info.minOutputAmount : Nat) = body.minOutputAmount
  deadline : (info.deadline : Nat) = body.deadline

variable {blockNumber inW outW minFillBps : Nat} {page : OrderBody} {info : OrderInfo}

/-- Whether it decays or not, an order of the page is above its floor rate
at every block before its deadline. -/
theorem SignedFrom.sweep (h : doSwap blockNumber inW outW none minFillBps = some page)
    (hrange : calcStartPrice inW (floorOut outW) < calcStartPrice inW (startOut outW))
    (hsigned : SignedFrom info page) :
    ∃ floor, Sweep info blockNumber DutchAuction.AUCTION_BLOCKS floor ∧
      calcStartPrice inW (floorOut outW) + 1 ≤ floor + info.decayPerBlock := by
  obtain ⟨-, hstart, hdecay, -, hdeadline⟩ := hsigned
  unfold doSwap at h
  cases h
  dsimp only at hstart hdecay hdeadline
  rw [if_pos hrange, Nat.add_sub_cancel_left] at hdecay
  have hblocks : max 1 DutchAuction.AUCTION_BLOCKS = DutchAuction.AUCTION_BLOCKS := by decide
  rw [hblocks] at hdecay
  generalize calcStartPrice inW (floorOut outW) = floorRate at hrange hdecay
  have hle : (info.decayPerBlock : Nat)
      ≤ (calcStartPrice inW (startOut outW) - floorRate) / DutchAuction.AUCTION_BLOCKS := by
    rw [hdecay]
    split <;> omega
  rcases Nat.eq_zero_or_pos (info.decayPerBlock : Nat) with hflat | hfalls
  · refine ⟨info.startPrice, ⟨hdeadline, Nat.le_refl _, ?_⟩, by omega⟩
    rw [hflat, Nat.zero_mul]
    exact Nat.zero_le _
  · refine ⟨floorRate, ⟨hdeadline, by omega, ?_⟩, by omega⟩
    rw [hstart]
    exact Nat.le_trans (Nat.mul_le_mul_right _ hle) (Nat.div_mul_le_self _ _)

theorem SignedFrom.priced (h : doSwap blockNumber inW outW none minFillBps = some page)
    (hpos : 0 < inW) (hsigned : SignedFrom info page) {price : Nat}
    (hprice : calcStartPrice inW (floorOut outW) + 1 ≤ price) : Priced info price := by
  have hpaid := DutchAuction.calcStartPrice_priced (floorOut outW) hpos
  obtain ⟨hinput, -, -, hmin, -⟩ := hsigned
  unfold doSwap at h
  cases h
  rw [Priced, hmin, hinput]
  exact Nat.le_trans (Nat.le_of_lt hpaid) (Nat.mul_le_mul_left _ hprice)

/-- **An order of the page can be filled at every block before its
deadline**, whatever the page has rounded: in every state of every run, the
price is above the floor rate by then, no chunk that passes the guards
misses its own floor, and a chunk that completes the order falls short by
no more units than there were fills. -/
theorem page_settles [Fintype κ]
    (h : doSwap blockNumber inW outW none minFillBps = some page) (hpos : 0 < inW)
    (hrange : calcStartPrice inW (floorOut outW) < calcStartPrice inW (startOut outW))
    {s : World κ W} (hs : Reachable d s) {order : SignedOrder}
    (hsigned : SignedFrom order.info page) (hcreated : CreatedBy blockNumber order.info s)
    (hbefore : s.block.number < order.info.deadline) {filler : Account} {amount : Nat}
    (hpasses : ChunkPasses d s filler order amount) :
    calcStartPrice inW (floorOut outW) < priceNow s order.info ∧
    (StandardToken d.toTokenCode order.info.outputToken →
      (filler : Address) ≠ order.info.swapper → ∀ e,
        exec (body d) (.leaf (.executePartialChunk filler order amount)) s = .error e →
        PricedStops d s filler order.info amount e) := by
  obtain ⟨floor, hsweep, hfloor⟩ := hsigned.sweep h hrange
  have hreached := floor_le_priceNow hs.visited hsweep hcreated (Nat.le_of_lt hbefore)
  have hleft : (order.info.decayPerBlock : Nat)
      ≤ order.info.decayPerBlock * (order.info.deadline - s.block.number) :=
    Nat.le_mul_of_pos_right _ (Nat.sub_pos_of_lt hbefore)
  have hprice : calcStartPrice inW (floorOut outW) + 1 ≤ priceNow s order.info := by omega
  exact ⟨hprice, fun hstd hother e herror =>
    priced_stops hs hstd hother (hsigned.priced h hpos hprice) hpasses herror⟩

/-- The same order from the page, and a hundred blocks later. -/
def pageAtTen : SignedOrder :=
  ⟨⟨1, 2, 10 ^ 12, 3, 990, 210, 0, 100, 102 * 10 ^ 7, 150000, 3000⟩, [1]⟩

theorem page_settles_halfway :
    ∃ (page : OrderBody) (first filler : Account),
      doSwap 10 (10 ^ 12) 1000 none 100 = some page ∧
      calcStartPrice (10 ^ 12) (floorOut 1000)
        < priceNow (partlyFilled first filler pageAtTen 100) pageAtTen.info ∧
      ∃ e, PricedStops Ledger.deployment (partlyFilled first filler pageAtTen 100) filler
        pageAtTen.info (6 * 10 ^ 11) e := by
  let page : OrderBody := ⟨10 ^ 12, 990, 210, 100, 102 * 10 ^ 7, 150000, 3000, 10⟩
  let first : Account := ⟨8, by decide⟩
  let filler : Account := ⟨7, by decide⟩
  have h : doSwap 10 (10 ^ 12) 1000 none 100 = some page := by decide +kernel
  have hsigned : SignedFrom pageAtTen.info page := ⟨rfl, rfl, rfl, rfl, rfl⟩
  have hpasses : ChunkPasses Ledger.deployment (partlyFilled first filler pageAtTen 100) filler
      pageAtTen (6 * 10 ^ 11) :=
    ⟨by decide +kernel, by decide +kernel, by decide +kernel, by decide +kernel,
      by decide +kernel, fun _ => ⟨rfl, by decide⟩, by decide +kernel, by decide +kernel,
      by decide +kernel⟩
  have hcreated : CreatedBy 10 pageAtTen.info (partlyFilled first filler pageAtTen 100) :=
    ⟨by decide +kernel, by decide +kernel⟩
  obtain ⟨hfloor, hstops⟩ := page_settles h (by decide) (by decide +kernel) ⟨_, _, _, rfl⟩ hsigned
    hcreated (by decide +kernel) hpasses
  have hreverts : Reverts (exec (body Ledger.deployment)
      (.leaf (.executePartialChunk filler pageAtTen (6 * 10 ^ 11)))
      (partlyFilled first filler pageAtTen 100))
      (.require "transfer amount exceeds balance") := by decide +kernel
  exact ⟨page, first, filler, h, hfloor, _, hstops (standard_ledger 3) (by decide) _ hreverts⟩

/-- In the block of the deadline the price can be the floor rate, which the
page has rounded down. -/
example : ∃ page, doSwap 10 (3 * 10 ^ 18) 1000014 none 100 = some page ∧
    page.inputAmount * (page.startPrice - page.decayPerBlock * DutchAuction.AUCTION_BLOCKS)
      < page.minOutputAmount * 10 ^ 18 :=
  ⟨_, rfl, by decide +kernel⟩

end Page

end System

end NeutronX
