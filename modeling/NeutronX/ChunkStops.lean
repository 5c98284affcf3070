import NeutronX.AuctionConfig
import NeutronX.ChunkCalls
import NeutronX.StakeExit
import NeutronX.SwapperFloor

/-!
# What can stop a chunk

A chunk whose guards hold is priced: whatever the price, the decay, the
amounts and the minimum of an order that was registered, no product of the
chunk outgrows a word and no divisor is 0, so the curve, the output, the
floor, the minimum chunk and the refund are all computed.

What can still stop it are the two transfers and what they leave in the
swapper's balance, the output floors, and code that is called before the
chunk closes and has the filler's own registration released
(`executePartialChunk_revertsIn`).
-/

namespace NeutronX

open Evm Function

namespace FillAuction

variable {κ : Type} [DecidableEq κ]

/-- Nobody is registered for nothing. -/
theorem fillAmount_pos_run {p : AuctionParams} {admin : Address} {s : AuctionState κ}
    (h : AuctionRun p (deployed admin) s) (k : κ) (f : Address)
    (hused : (s.registrations k f).filler ≠ 0) : 0 < (s.registrations k f).fillAmount := by
  induction h with
  | refl => exact absurd rfl hused
  | @tail t s' _ hstep ih =>
      rcases step_registrations hstep with ⟨oracle, blk, msgSender, msgValue, a, hreg⟩ | hterms
      · obtain ⟨snap, hok, rfl⟩ := register_spec hreg
        have hfits : a.fillAmount < 2 ^ 128 := Nat.lt_of_le_of_lt hok.fill_le hok.total_fits
        have hslots : (afterRegister blk t msgValue a snap).registrations
            = update₂ t.registrations a.orderHash a.filler (newRegistration blk a snap) := rfl
        rw [hslots, update₂_apply] at hused ⊢
        split at hused
        · rw [if_pos ‹_›]
          show 0 < toUint 128 a.fillAmount
          rw [toUint_of_lt hfits]
          exact hok.fill_pos
        · rw [if_neg ‹_›]
          exact ih hused
      · have hfiller := congrArg Registration.filler (hterms k f)
        have hfill := congrArg Registration.fillAmount (hterms k f)
        refine Nat.lt_of_lt_of_eq (ih fun hzero => hused (hfiller.trans hzero)) ?_
        exact hfill.symm

end FillAuction

namespace System

open PartialFillReactor (ChunkGuards ChunkQuoted OpenChunk chunkPrice)

variable {κ W : Type} [DecidableEq κ] {d : Deployment κ W}

/-! ## A chunk without callbacks -/

/-- A chunk that nobody interrupts is its three pieces. -/
theorem exec_chunk_leaf {s s' : World κ W} {msgSender : Account} {order : SignedOrder}
    {fillAmount : Nat} :
    exec (body d) (.leaf (.executePartialChunk msgSender order fillAmount)) s = .ok s' ↔
      ∃ s₁ c s₂ balBefore,
        chunkOpen d s msgSender order fillAmount = .ok (s₁, c) ∧
        chunkPay d s₁ msgSender order.info c = .ok (s₂, balBefore) ∧
        chunkClose d s₂ msgSender order.info fillAmount c balBefore = .ok s' := by
  rw [exec_leaf, body, executePartialChunk, Prog.finish_attempt_eq_ok]
  simp only [Prod.exists, Prog.finish_yieldIf, Prog.finish_attempt_eq_ok, Prog.finish_done,
    Except.ok.injEq]
  constructor
  · rintro ⟨s₁, c, hopen, s₂, balBefore, hpay, s₃, hclose, rfl⟩
    exact ⟨s₁, c, s₂, balBefore, hopen, hpay, hclose⟩
  · rintro ⟨s₁, c, s₂, balBefore, hopen, hpay, hclose⟩
    exact ⟨s₁, c, hopen, s₂, balBefore, hpay, s', hclose, rfl⟩

/-! ## The price and the settlement -/

/-- The price of a chunk of the order in this state. -/
def priceNow (t : World κ W) (info : OrderInfo) : Nat :=
  curvePrice info (chunkBlocks info t.trace) t.block.number

theorem getCurrentPrice_succeeds {blk : Block} {cursor : DecayCursor}
    (hle : cursor.lastResetBlock ≤ blk.number)
    (hfits : (blk.number - cursor.lastResetBlock) * cursor.decayPerBlock < wordSize) :
    ∃ p, DecayCursorLib.getCurrentPrice blk cursor = .ok p := by
  unfold DecayCursorLib.getCurrentPrice
  refine bind_succeeds (checkedSub_eq_ok.mpr ⟨hle, rfl⟩) ?_
  refine bind_succeeds (checkedMul_eq_ok.mpr ⟨hfits, rfl⟩) ?_
  split
  · exact ⟨_, rfl⟩
  · exact ⟨_, rfl⟩

/-- Before a deadline of 64 bits the price is computed. -/
theorem chunkPrice_succeeds {t : World κ W} (h : Visited d t) {info : OrderInfo}
    (hopen : t.reactor.fallbackInitiated (d.hashOrder info) = false)
    (hshort : t.block.number < 2 ^ 64) :
    ∃ cursor, chunkPrice t.block (t.reactor.cursors (d.hashOrder info)) info
      (decide (t.reactor.remaining (d.hashOrder info) = 0)) = .ok (priceNow t info, cursor) := by
  have hcurve := h.historyLaw.curve info hopen
  by_cases hraw : t.reactor.remaining (d.hashOrder info) = 0
  · rw [priceNow, hcurve.new hraw, decide_eq_true hraw]
    exact ⟨_, rfl⟩
  · obtain ⟨b, bs, hbs, hcursor, hb⟩ := hcurve.started hraw
    have hreset : toUint 64 b ≤ t.block.number := Nat.le_trans (toUint_le 64 b) hb
    have hdecay : (info.decayPerBlock : Nat) < 2 ^ 32 := info.decayPerBlock.isLt
    have hfits : (t.block.number - toUint 64 b) * info.decayPerBlock < wordSize := by
      calc (t.block.number - toUint 64 b) * info.decayPerBlock
          ≤ 2 ^ 64 * 2 ^ 32 := Nat.mul_le_mul (by omega) hdecay.le
        _ < wordSize := by decide
    obtain ⟨p, hp⟩ : ∃ p, DecayCursorLib.getCurrentPrice t.block (curveCursor info b bs) = .ok p :=
      getCurrentPrice_succeeds hreset hfits
    have hchunk : chunkPrice t.block (curveCursor info b bs) info false
        = .ok (p, DecayCursorLib.reset (curveCursor info b bs) p (toUint 64 t.block.number)) := by
      simp only [chunkPrice, Bool.false_eq_true, if_false, hp]
      rfl
    obtain ⟨hprice, -⟩ := chunkPrice_curve hchunk (fun hfalse => nomatch hfalse)
      fun _ => ⟨b, bs, rfl, rfl⟩
    rw [priceNow, hbs, hcursor, decide_eq_false hraw, ← hprice]
    exact ⟨_, hchunk⟩

/-- The reactor the auction was given at deployment stays. -/
theorem Visited.auctionReactor {s : World κ W} (h : Visited d s) :
    s.auction.reactor = d.reactor := by
  obtain ⟨tokens, block, hs⟩ := h
  exact (FillAuction.run_config (segments_auction hs)).reactor d.reactor_ne_zero

/-- The settlement of an open registration succeeds, whatever was filled. -/
theorem settlement_succeeds [Fintype κ] {t : World κ W} (h : Visited d t) {orderHash : κ}
    {filler : Address} (hused : (t.auction.registrations orderHash filler).filler ≠ 0)
    (hopen : (t.auction.registrations orderHash filler).resolved = false) {amount : Nat}
    (hamount : amount < 2 ^ 128) (remainingAtFill : Nat) :
    ∃ auction, FillAuction.onFillSuccess (auctionParams d) t.block t.auction d.reactor orderHash
      filler amount remainingAtFill = .ok auction := by
  have hrun := h.auction
  have hfresh := ((FillAuction.booksInv_run (FillAuction.booksInv_deployed
    (auctionParams d).treasury d.admin) hrun).slots orderHash filler).live_of_open
      (FillAuction.used_of_filler hused) hopen
  have hlaw := (FillAuction.run_config hrun).law (FillAuction.configLaw_deployed d.admin)
  have hactual : amount * 10000 < wordSize := by
    calc amount * 10000 < 2 ^ 128 * 10000 := Nat.mul_lt_mul_of_pos_right hamount (by decide)
      _ ≤ wordSize := by decide
  rw [← h.auctionReactor]
  exact FillAuction.onFillSuccess_succeeds hopen hfresh.1.shape (hlaw.rows orderHash filler)
    hactual (owed_add_stake_lt h hopen)

/-! ## The guards of a chunk -/

/-- The guards of `_executePartialChunk` as they are written, before any
arithmetic. -/
structure ChunkPasses (d : Deployment κ W) (s : World κ W) (filler : Account) (order : SignedOrder)
    (amount : Nat) : Prop where
  notEntered : s.reactor.entered = false
  live : s.reactor.cancelled (d.hashOrder order.info) = false
  noFallback : s.reactor.fallbackInitiated (d.hashOrder order.info) = false
  nonceLive : s.reactor.nonceInvalidated order.info.swapper order.info.nonce = false
  registered : FillAuction.hasValidRegistration s.block s.auction (d.hashOrder order.info) filler
    amount = true
  signed : s.reactor.remaining (d.hashOrder order.info) = 0 → d.Signs order.info order.sig
  unexpired : s.block.number ≤ order.info.deadline
  fill_le : amount ≤ unfilled d s order.info
  minFill : amount ≠ unfilled d s order.info →
    (order.info.inputAmount : Nat) * order.info.minFillBps / 10000 ≤ amount

section Passes

variable {s : World κ W} {filler : Account} {order : SignedOrder} {amount : Nat}

omit [DecidableEq κ] in
/-- What a valid registration says. -/
theorem ChunkPasses.valid (h : ChunkPasses d s filler order amount) :
    (s.auction.registrations (d.hashOrder order.info) filler).filler ≠ 0 ∧
    (s.auction.registrations (d.hashOrder order.info) filler).resolved = false ∧
    s.block.number ≤ (s.auction.registrations (d.hashOrder order.info) filler).deadline := by
  have hvalid := h.registered
  simp only [FillAuction.hasValidRegistration, decide_eq_true_eq] at hvalid
  obtain ⟨hfiller, hfilled, hslashed, hreleased, -, htimely⟩ := hvalid
  refine ⟨?_, ?_, htimely⟩
  · rw [hfiller]
    exact filler.property
  · rw [Registration.resolved, hfilled, hslashed, hreleased]
    rfl

/-- The order is the one that was registered. -/
theorem ChunkPasses.registeredFor (h : ChunkPasses d s filler order amount) (hs : Visited d s) :
    RegisteredFor d s order.info filler
      (s.auction.registrations (d.hashOrder order.info) filler) := by
  obtain ⟨info, hinfo, hreg⟩ := hs.registered _ _ h.valid.1
  obtain rfl := d.hash_injective hinfo
  exact hreg

/-- An order somebody registered for asks for some input. -/
theorem ChunkPasses.input_pos (h : ChunkPasses d s filler order amount) (hs : Visited d s) :
    0 < (order.info.inputAmount : Nat) :=
  Nat.lt_of_lt_of_le (FillAuction.fillAmount_pos_run hs.auction _ _ h.valid.1)
    (h.registeredFor hs).fill_le

theorem ChunkPasses.amount_lt (h : ChunkPasses d s filler order amount) (hs : Visited d s) :
    amount < 2 ^ 128 := by
  have hle := h.fill_le
  have hinput := (hs.inputLaw order.info).unfilled_le
  have htotal := (h.registeredFor hs).total_lt
  omega

/-- The products of the guards fit a word. -/
theorem ChunkPasses.guards (h : ChunkPasses d s filler order amount) (hs : Visited d s) :
    ChunkGuards d.toOrderAuth s.block s.reactor order amount := by
  have hreg := h.registeredFor hs
  have htotal := hreg.total_lt
  have hamount := h.amount_lt hs
  have hprice : (order.info.startPrice : Nat) < 2 ^ 128 := order.info.startPrice.isLt
  have hbps : (order.info.minFillBps : Nat) < 2 ^ 16 := order.info.minFillBps.isLt
  have hachievable : (order.info.inputAmount : Nat) * order.info.startPrice / 10 ^ 18
      < wordSize := by
    calc (order.info.inputAmount : Nat) * order.info.startPrice / 10 ^ 18
        ≤ order.info.inputAmount * order.info.startPrice := Nat.div_le_self _ _
      _ < 2 ^ 128 * 2 ^ 128 := Nat.mul_lt_mul'' htotal hprice
      _ = wordSize := by decide
  have hminFits : (order.info.inputAmount : Nat) * order.info.minFillBps < wordSize := by
    calc (order.info.inputAmount : Nat) * order.info.minFillBps
        < 2 ^ 128 * 2 ^ 16 := Nat.mul_lt_mul'' htotal hbps
      _ ≤ wordSize := by decide
  exact {
    notEntered := h.notEntered
    live := h.live
    noFallback := h.noFallback
    nonceLive := h.nonceLive
    fits := Nat.lt_of_lt_of_le hamount (by decide)
    validated := fun hnew => ⟨h.unexpired, h.nonceLive, hachievable, hreg.reachable, h.signed hnew⟩
    unexpired := h.unexpired
    fill_le := h.fill_le
    minFill := fun hne => ⟨hminFits, h.minFill hne⟩ }

/-- The price, the output and the minimum chunk are computed. -/
theorem ChunkPasses.quoted (h : ChunkPasses d s filler order amount) (hs : Visited d s) :
    ∃ c cursor, ChunkQuoted d.toOrderAuth s.block s.reactor order.info amount c cursor ∧
      c.outputAmount = amount * priceNow s order.info / 10 ^ 18 ∧
      c.minChunk = fillFloor order.info amount ∧
      c.newRemaining = unfilled d s order.info - amount := by
  have hreg := h.registeredFor hs
  have hshort : s.block.number < 2 ^ 64 := by
    have htimely := h.valid.2.2
    rw [hreg.deadline] at htimely
    exact Nat.lt_of_le_of_lt htimely (toUint_lt _ _)
  obtain ⟨cursor, hprice⟩ := chunkPrice_succeeds hs h.noFallback hshort
  have hlow : priceNow s order.info < 2 ^ 128 :=
    Nat.lt_of_le_of_lt (curvePrice_le order.info _ _) order.info.startPrice.isLt
  have houtput : amount * priceNow s order.info / 10 ^ 18 < wordSize := by
    calc amount * priceNow s order.info / 10 ^ 18
        ≤ amount * priceNow s order.info := Nat.div_le_self _ _
      _ < 2 ^ 128 * 2 ^ 128 := Nat.mul_lt_mul'' (h.amount_lt hs) hlow
      _ = wordSize := by decide
  have hinput := h.input_pos hs
  have hle : amount ≤ order.info.inputAmount :=
    Nat.le_trans h.fill_le (hs.inputLaw order.info).unfilled_le
  have hfloor : fillFloor order.info amount < wordSize :=
    Nat.lt_of_le_of_lt (mul_div_le_left hle) order.info.minOutputAmount.isLt
  refine ⟨⟨decide (s.reactor.remaining (d.hashOrder order.info) = 0), unfilled d s order.info,
    unfilled d s order.info - amount, priceNow s order.info,
    amount * priceNow s order.info / 10 ^ 18, fillFloor order.info amount⟩, cursor,
    ⟨rfl, rfl, rfl, hprice, ?_, ?_⟩, rfl, rfl, rfl⟩
  · exact mulDiv_eq_ok.mpr ⟨⟨by decide, houtput⟩, rfl⟩
  · exact mulDiv_eq_ok.mpr ⟨⟨by omega, hfloor⟩, rfl⟩

/-- So a chunk opens when its input leg goes through, and fails to open
only as that fails. -/
theorem ChunkPasses.opens (h : ChunkPasses d s filler order amount) (hs : Visited d s) :
    ∃ c, (c.outputAmount = amount * priceNow s order.info / 10 ^ 18 ∧
        c.minChunk = fillFloor order.info amount ∧
        c.newRemaining = unfilled d s order.info - amount) ∧
      (∀ pulled, d.permit2TransferFrom s.tokens d.reactor order.info.swapper filler amount
        order.info.inputToken = .ok pulled →
        ∃ s₁, chunkOpen d s filler order amount = .ok (s₁, c) ∧ s₁.tokens = pulled) ∧
      ∀ e, d.permit2TransferFrom s.tokens d.reactor order.info.swapper filler amount
        order.info.inputToken = .error e → chunkOpen d s filler order amount = .error e := by
  obtain ⟨c, cursor, hquoted, hamounts⟩ := h.quoted hs
  have hreactor := PartialFillReactor.chunkOpen_eq_ok.mpr
    ⟨h.registered, h.guards hs, cursor, hquoted, rfl⟩
  have hcast : toUint 160 amount = amount :=
    toUint_of_lt (Nat.lt_of_lt_of_le (h.amount_lt hs) (by decide))
  refine ⟨c, hamounts, fun pulled hpull => ?_, fun e hpull => ?_⟩
  · rw [← hcast] at hpull
    exact ⟨_, by simp only [chunkOpen, hreactor, hpull]; rfl, rfl⟩
  · rw [← hcast] at hpull
    simp only [chunkOpen, hreactor, hpull]
    rfl

end Passes

/-! ## What can stop a chunk -/

/-- The output leg of a chunk that opened in `s` was paid: the swapper had
`before` before it, and the chunk closes in `s'`. -/
def OutputPaid (d : Deployment κ W) (s : World κ W) (filler : Account) (info : OrderInfo)
    (amount before : Nat) (s' : World κ W) : Prop :=
  ∃ s₁ sold, Segments d s s₁ ∧ before = d.balanceOf s₁.tokens info.outputToken info.swapper ∧
    d.safeTransferFrom s₁.tokens d.reactor info.outputToken filler info.swapper
      (amount * priceNow s info / 10 ^ 18) = .ok sold ∧
    Segments d { s₁ with tokens := sold } s'

/-- What can stop a chunk that closes in `s`, the last of its order or not:
the measured balance, the floors, and a registration that is settled
already. -/
inductive CloseStops (d : Deployment κ W) (s : World κ W) (filler : Account) (info : OrderInfo)
    (amount before : Nat) (last : Prop) : Revert → Prop
  | balanceFell (h : d.balanceOf s.tokens info.outputToken info.swapper < before) :
      CloseStops d s filler info amount before last (.panic .arithmetic)
  | minOutput (received : Nat)
      (measured : before + received = d.balanceOf s.tokens info.outputToken info.swapper)
      (h : received < fillFloor info amount) :
      CloseStops d s filler info amount before last (.require "min output")
  | paidOverflows (received : Nat)
      (measured : before + received = d.balanceOf s.tokens info.outputToken info.swapper)
      (h : wordSize ≤ paid d s info + received) :
      CloseStops d s filler info amount before last (.panic .arithmetic)
  | minOutputTotal (received : Nat)
      (measured : before + received = d.balanceOf s.tokens info.outputToken info.swapper)
      (hlast : last) (h : paid d s info + received < info.minOutputAmount) :
      CloseStops d s filler info amount before last (.require "min output total")
  | invalidState (h : (s.auction.registrations (d.hashOrder info) filler).resolved = true) :
      CloseStops d s filler info amount before last (.require "invalid state")

/-- What can stop a chunk whose guards hold in `s`. -/
inductive ChunkStops (d : Deployment κ W) (s : World κ W) (filler : Account) (info : OrderInfo)
    (amount : Nat) : Revert → Prop
  | inputLeg (e : Revert) (h : d.permit2TransferFrom s.tokens d.reactor info.swapper filler amount
      info.inputToken = .error e) : ChunkStops d s filler info amount e
  | outputLeg (e : Revert) (s₁ : World κ W) (hs : Segments d s s₁)
      (h : d.safeTransferFrom s₁.tokens d.reactor info.outputToken filler info.swapper
        (amount * priceNow s info / 10 ^ 18) = .error e) : ChunkStops d s filler info amount e
  | close (e : Revert) (before : Nat) (s₂ : World κ W)
      (paid : OutputPaid d s filler info amount before s₂)
      (h : CloseStops d s₂ filler info amount before (amount = unfilled d s info) e) :
      ChunkStops d s filler info amount e

section Close

variable [Fintype κ] {s : World κ W} {filler : Account} {info : OrderInfo} {amount before : Nat}

/-- The auction settles the registration of a chunk unless it is settled
already. -/
theorem settlement_error (hs : Visited d s)
    (hused : (s.auction.registrations (d.hashOrder info) filler).filler ≠ 0)
    (hamount : amount < 2 ^ 128) {remainingAtFill : Nat} {e : Revert}
    (h : FillAuction.onFillSuccess (auctionParams d) s.block s.auction d.reactor
      (d.hashOrder info) filler amount remainingAtFill = .error e) :
    (s.auction.registrations (d.hashOrder info) filler).resolved = true ∧
    e = .require "invalid state" := by
  cases hres : (s.auction.registrations (d.hashOrder info) filler).resolved with
  | false =>
      obtain ⟨auction, hok⟩ := settlement_succeeds hs hused hres hamount remainingAtFill
      rw [hok] at h
      cases h
  | true =>
      refine ⟨rfl, ?_⟩
      unfold FillAuction.onFillSuccess at h
      rcases bind_eq_error.mp h with hsender | ⟨_, -, hrest⟩
      · exact absurd hs.auctionReactor.symm (require_eq_error.mp hsender).1
      · rcases bind_eq_error.mp hrest with hstate | ⟨_, hstate, -⟩
        · exact (require_eq_error.mp hstate).2
        · rw [require_eq_ok, hres] at hstate
          cases hstate

/-- A chunk that does not close. -/
theorem chunkClose_error (hs : Visited d s)
    (hused : (s.auction.registrations (d.hashOrder info) filler).filler ≠ 0)
    (hamount : amount < 2 ^ 128) {c : OpenChunk} {last : Prop}
    (hfloor : c.minChunk = fillFloor info amount) (hlast : c.newRemaining = 0 → last)
    {e : Revert} (h : chunkClose d s filler info amount c before = .error e) :
    CloseStops d s filler info amount before last e := by
  unfold chunkClose at h
  by_cases hle : before ≤ d.balanceOf s.tokens info.outputToken info.swapper
  · obtain ⟨received, hmeasured⟩ := Nat.exists_eq_add_of_le hle
    have hsub : checkedSub (d.balanceOf s.tokens info.outputToken info.swapper) before
        = .ok received := checkedSub_eq_ok.mpr ⟨hle, by omega⟩
    rw [hsub] at h
    rcases bind_eq_error.mp h with herror | ⟨_, hok, hrest⟩
    · cases herror
    cases hok
    rcases bind_eq_error.mp hrest with hreactor | ⟨reactor, -, hrest⟩
    · unfold PartialFillReactor.chunkClose at hreactor
      rcases bind_eq_error.mp hreactor with hmin | ⟨_, -, hreactor⟩
      · obtain ⟨hlt, rfl⟩ := require_eq_error.mp hmin
        exact .minOutput received hmeasured.symm (by omega)
      rcases bind_eq_error.mp hreactor with hsum | ⟨total, hsum, hreactor⟩
      · by_cases hfits : s.reactor.paidOutput (d.hashOrder info) + received < wordSize
        · rw [checkedAdd, if_pos hfits] at hsum
          cases hsum
        · rw [checkedAdd, if_neg hfits] at hsum
          cases hsum
          exact .paidOverflows received hmeasured.symm (Nat.le_of_not_lt hfits)
      obtain ⟨-, rfl⟩ := checkedAdd_eq_ok.mp hsum
      rcases bind_eq_error.mp hreactor with htotal | ⟨_, -, hreactor⟩
      · by_cases hzero : c.newRemaining = 0
        · rw [onlyIf, if_pos hzero] at htotal
          obtain ⟨hlt, rfl⟩ := require_eq_error.mp htotal
          exact .minOutputTotal received hmeasured.symm (hlast hzero) (Nat.lt_of_not_le hlt)
        · rw [onlyIf, if_neg hzero] at htotal
          cases htotal
      · cases hreactor
    · rcases bind_eq_error.mp hrest with hauction | ⟨_, -, hrest⟩
      · obtain ⟨hres, rfl⟩ := settlement_error hs hused hamount hauction
        exact .invalidState hres
      · cases hrest
  · rw [checkedSub, if_neg hle] at h
    rcases bind_eq_error.mp h with herror | ⟨_, hok, -⟩
    · cases herror
      exact .balanceFell (Nat.lt_of_not_le hle)
    · cases hok

end Close

/-- The reasons for which the body of a chunk reverts, whatever is called
while it is open. -/
theorem executePartialChunk_revertsIn [Fintype κ] {s : World κ W} {filler : Account}
    {order : SignedOrder} {amount : Nat} (hs : Visited d s)
    (h : ChunkPasses d s filler order amount) (data : Bytes) :
    (executePartialChunk d s filler order amount data).RevertsIn (Segments d)
      (ChunkStops d s filler order.info amount) := by
  obtain ⟨c, ⟨houtput, hfloor, hnew⟩, hopens, hfails⟩ := h.opens hs
  refine Prog.revertsIn_attempt (fun e hopen => ?_) fun ⟨s₁, c'⟩ hopen => ?_
  · cases hpull : d.permit2TransferFrom s.tokens d.reactor order.info.swapper filler amount
      order.info.inputToken with
    | error e' =>
        rw [hfails e' hpull] at hopen
        cases hopen
        exact .inputLeg e hpull
    | ok pulled =>
        obtain ⟨s₁, hok, -⟩ := hopens pulled hpull
        rw [hok] at hopen
        cases hopen
  have hopened : Segments d s s₁ := .single (.chunkOpen filler order amount c' hopen)
  have hc : c' = c := by
    cases hpull : d.permit2TransferFrom s.tokens d.reactor order.info.swapper filler amount
      order.info.inputToken with
    | error e =>
        rw [hfails e hpull] at hopen
        cases hopen
    | ok pulled =>
        obtain ⟨s₁', hok, -⟩ := hopens pulled hpull
        rw [hok] at hopen
        cases hopen
        rfl
  subst hc
  refine Prog.revertsIn_yieldIf (fun _ => .refl) fun s₂ h₂ => ?_
  refine Prog.revertsIn_yieldIf (fun _ => .refl) fun s₃ h₃ => ?_
  have hbefore : Segments d s s₃ := hopened.trans (h₂.trans h₃)
  refine Prog.revertsIn_attempt (fun e hpay => ?_) fun ⟨s₄, before⟩ hpay => ?_
  · unfold chunkPay at hpay
    rcases bind_eq_error.mp hpay with hsold | ⟨_, -, hrest⟩
    · rw [houtput] at hsold
      exact .outputLeg e s₃ hbefore hsold
    · cases hrest
  obtain ⟨hbal, hsold, hs₄⟩ := chunkPay_spec hpay
  rw [houtput] at hsold
  refine Prog.revertsIn_yieldIf (fun _ => .refl) fun s₅ h₅ => ?_
  refine Prog.revertsIn_attempt (fun e hclose => ?_) fun _ _ => trivial
  have hpaid : OutputPaid d s filler order.info amount before s₅ :=
    ⟨s₃, s₄.tokens, hbefore, hbal, hsold, by rw [← hs₄]; exact h₅⟩
  have hreach : Segments d s s₅ :=
    hbefore.trans (.trans (.single (.chunkPay filler order.info c' before hpay)) h₅)
  have hused := (FillAuction.slotKept_run (segments_auction hreach) h.valid.1).used
  have hle := h.fill_le
  exact .close e before s₅ hpaid (chunkClose_error (hs.segments hreach) hused (h.amount_lt hs)
    hfloor (by omega) hclose)

end System

end NeutronX
