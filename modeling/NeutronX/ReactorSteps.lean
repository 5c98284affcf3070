import NeutronX.Fallback

/-!
# When the reactor's functions succeed

One lemma for each function of the reactor and for the checks of the
fallback executor: the guards a successful call passed, and the state it
left. Where a later argument must show that a call succeeds, the lemma is
an equivalence.
-/

namespace NeutronX

open Evm Function

namespace PartialFillReactor

variable {κ : Type}

/-! ## Authentication -/

/-- The guards of `_validateOrder`. -/
structure Validated (a : OrderAuth κ) (blk : Block) (s : ReactorState κ) (order : SignedOrder) :
    Prop where
  unexpired : blk.number ≤ order.info.deadline
  nonceLive : s.nonceInvalidated order.info.swapper order.info.nonce = false
  fits : (order.info.inputAmount : Nat) * order.info.startPrice / 10 ^ 18 < wordSize
  reachable : order.info.minOutputAmount
    ≤ (order.info.inputAmount : Nat) * order.info.startPrice / 10 ^ 18
  signed : a.Signs order.info order.sig

theorem checkSigner_eq_ok {a : OrderAuth κ} {order : SignedOrder} {u : Unit} :
    checkSigner a order = .ok u ↔ a.Signs order.info order.sig := by
  unfold checkSigner OrderAuth.Signs
  cases a.recover (a.hashOrder order.info) order.sig with
  | none => simp
  | some signer =>
      simp only [bind_eq_ok, require_eq_ok, Option.some.injEq]
      constructor
      · rintro ⟨_, hne, rfl⟩
        exact ⟨rfl, hne⟩
      · rintro ⟨rfl, hne⟩
        exact ⟨(), hne, rfl⟩

theorem validateOrder_eq_ok {a : OrderAuth κ} {blk : Block} {s : ReactorState κ}
    {order : SignedOrder} {u : Unit} :
    validateOrder a blk s order = .ok u ↔ Validated a blk s order := by
  simp only [validateOrder, bind_eq_ok, require_eq_ok, mulDiv_eq_ok, checkSigner_eq_ok]
  constructor
  · rintro ⟨_, hexp, _, hnonce, _, ⟨⟨-, hfits⟩, rfl⟩, _, hreach, hsig⟩
    exact ⟨hexp, hnonce, hfits, hreach, hsig⟩
  · rintro ⟨hexp, hnonce, hfits, hreach, hsig⟩
    exact ⟨(), hexp, (), hnonce, _, ⟨⟨by decide, hfits⟩, rfl⟩, (), hreach, hsig⟩

variable [DecidableEq κ]

theorem register_spec {a : OrderAuth κ} {blk : Block} {s s' : ReactorState κ}
    {order : SignedOrder} (h : register a blk s order = .ok s') :
    s.entered = false ∧ s.cancelled (a.hashOrder order.info) = false ∧
    Validated a blk s order ∧
    s' = { s with
      orderSwapper := update s.orderSwapper (a.hashOrder order.info) order.info.swapper
      orderNonce := update s.orderNonce (a.hashOrder order.info) order.info.nonce } := by
  simp only [register, bind_eq_ok, nonReentrant_eq_ok, require_eq_ok, validateOrder_eq_ok,
    pure_eq_ok] at h
  obtain ⟨_, hentered, _, hlive, _, hvalid, rfl⟩ := h
  exact ⟨hentered, hlive, hvalid, rfl⟩

/-! ## Chunks -/

/-- The smallest fill the order accepts, which a word must hold. -/
structure MinFill (info : OrderInfo) (fillAmount : Nat) : Prop where
  fits : (info.inputAmount : Nat) * info.minFillBps < wordSize
  le_fill : (info.inputAmount : Nat) * info.minFillBps / 10000 ≤ fillAmount

/-- The guards of `_executePartialChunk`. -/
structure ChunkGuards (a : OrderAuth κ) (blk : Block) (s : ReactorState κ)
    (order : SignedOrder) (fillAmount : Nat) : Prop where
  notEntered : s.entered = false
  live : s.cancelled (a.hashOrder order.info) = false
  noFallback : s.fallbackInitiated (a.hashOrder order.info) = false
  nonceLive : s.nonceInvalidated order.info.swapper order.info.nonce = false
  fits : fillAmount < 2 ^ 160
  validated : s.remaining (a.hashOrder order.info) = 0 → Validated a blk s order
  unexpired : blk.number ≤ order.info.deadline
  fill_le : fillAmount ≤ remainingInput s (a.hashOrder order.info) order.info.inputAmount
  minFill : fillAmount ≠ remainingInput s (a.hashOrder order.info) order.info.inputAmount →
    MinFill order.info fillAmount

theorem checkMinFill_eq_ok {info : OrderInfo} {fillAmount : Nat} {u : Unit} :
    checkMinFill info fillAmount = .ok u ↔ MinFill info fillAmount := by
  simp only [checkMinFill, minFill, bind_eq_ok, checkedMul_eq_ok, pure_eq_ok, require_eq_ok]
  constructor
  · rintro ⟨_, ⟨_, ⟨hfits, rfl⟩, rfl⟩, hle⟩
    exact ⟨hfits, hle⟩
  · rintro ⟨hfits, hle⟩
    exact ⟨_, ⟨_, ⟨hfits, rfl⟩, rfl⟩, hle⟩

omit [DecidableEq κ] in
theorem chunkChecks_eq_ok {a : OrderAuth κ} {blk : Block} {s : ReactorState κ} {valid : Bool}
    {order : SignedOrder} {fillAmount cur : Nat} :
    chunkChecks a blk s valid order fillAmount = .ok cur ↔
      valid = true ∧ ChunkGuards a blk s order fillAmount ∧
      remainingInput s (a.hashOrder order.info) order.info.inputAmount = cur := by
  simp only [chunkChecks, bind_eq_ok, nonReentrant_eq_ok, require_eq_ok, onlyIf_eq_ok,
    validateOrder_eq_ok, checkMinFill_eq_ok, pure_eq_ok, RemainingLib.isNewOrder,
    decide_eq_true_eq]
  constructor
  · rintro ⟨_, h1, _, h2, _, h3, _, h4, _, h5, _, h6, _, h7, _, h8, _, h9, _, h10, rfl⟩
    exact ⟨h5, ⟨h1, h2, h3, h4, le_maxUint.mp h6, h7, h8, h9, h10⟩, rfl⟩
  · rintro ⟨h5, ⟨h1, h2, h3, h4, h6, h7, h8, h9, h10⟩, rfl⟩
    exact ⟨(), h1, (), h2, (), h3, (), h4, (), h5, (), le_maxUint.mpr h6, (), h7, (), h8, (), h9,
      (), h10, rfl⟩

/-- The state a chunk leaves before its interactions. -/
def opened (a : OrderAuth κ) (s : ReactorState κ) (info : OrderInfo) (newRemaining : Nat)
    (cursor : DecayCursor) : ReactorState κ :=
  { s with
    entered := true
    remaining := update s.remaining (a.hashOrder info) (RemainingLib.store newRemaining)
    cursors := update s.cursors (a.hashOrder info) cursor }

/-- What `chunkOpen` computes, besides its guards. -/
structure ChunkQuoted (a : OrderAuth κ) (blk : Block) (s : ReactorState κ) (info : OrderInfo)
    (fillAmount : Nat) (c : OpenChunk) (cursor : DecayCursor) : Prop where
  isFirstFill : c.isFirstFill = decide (s.remaining (a.hashOrder info) = 0)
  currentRemaining : c.currentRemaining = remainingInput s (a.hashOrder info) info.inputAmount
  newRemaining : c.newRemaining = c.currentRemaining - fillAmount
  price : chunkPrice blk (s.cursors (a.hashOrder info)) info c.isFirstFill
    = .ok (c.currentPrice, cursor)
  outputAmount : mulDiv fillAmount c.currentPrice (10 ^ 18) = .ok c.outputAmount
  minChunk : mulDiv info.minOutputAmount fillAmount info.inputAmount = .ok c.minChunk

theorem chunkOpen_eq_ok {a : OrderAuth κ} {blk : Block} {s s' : ReactorState κ} {valid : Bool}
    {order : SignedOrder} {fillAmount : Nat} {c : OpenChunk} :
    chunkOpen a blk s valid order fillAmount = .ok (s', c) ↔
      valid = true ∧ ChunkGuards a blk s order fillAmount ∧
      ∃ cursor, ChunkQuoted a blk s order.info fillAmount c cursor ∧
        s' = opened a s order.info c.newRemaining cursor := by
  simp only [chunkOpen, bind_eq_ok, chunkChecks_eq_ok, pure_eq_ok, Prod.mk.injEq]
  constructor
  · rintro ⟨_, ⟨hvalid, hguards, rfl⟩, ⟨price, cursor⟩, hprice, out, hout, floor, hfloor, rfl, rfl⟩
    exact ⟨hvalid, hguards, cursor, ⟨rfl, rfl, rfl, hprice, hout, hfloor⟩, rfl⟩
  · rintro ⟨hvalid, hguards, cursor, hq, rfl⟩
    obtain ⟨first, cur, new, price, out, floor⟩ := c
    obtain ⟨hfirst, hcur, hnew, hprice, hout, hfloor⟩ := hq
    dsimp only at hfirst hcur hnew hprice hout hfloor
    subst hfirst hcur hnew
    exact ⟨_, ⟨hvalid, hguards, rfl⟩, (price, cursor), hprice, out, hout, floor, hfloor, rfl, rfl⟩

theorem chunkClose_eq_ok {a : OrderAuth κ} {s s' : ReactorState κ} {msgSender : Address}
    {info : OrderInfo} {fillAmount received : Nat} {c : OpenChunk} :
    chunkClose a s msgSender info fillAmount c received = .ok s' ↔
      c.minChunk ≤ received ∧ s.paidOutput (a.hashOrder info) + received < wordSize ∧
      (c.newRemaining = 0 → info.minOutputAmount ≤ s.paidOutput (a.hashOrder info) + received) ∧
      s' = { s with
        paidOutput := update s.paidOutput (a.hashOrder info)
          (s.paidOutput (a.hashOrder info) + received)
        events := .partialFillExecuted (a.hashOrder info) msgSender fillAmount received :: s.events
        entered := false } := by
  simp only [chunkClose, bind_eq_ok, require_eq_ok, checkedAdd_eq_ok, onlyIf_eq_ok, pure_eq_ok]
  constructor
  · rintro ⟨_, hfloor, _, ⟨hfits, rfl⟩, _, htotal, rfl⟩
    exact ⟨hfloor, hfits, htotal, rfl⟩
  · rintro ⟨hfloor, hfits, htotal, rfl⟩
    exact ⟨(), hfloor, _, ⟨hfits, rfl⟩, (), htotal, rfl⟩

/-! ## The fallback's hooks, and the swapper's controls -/

theorem markFallbackInitiated_spec {s s' : ReactorState κ} {msgSender : Address} {orderHash : κ}
    (h : markFallbackInitiated s msgSender orderHash = .ok s') :
    s.cancelled orderHash = false ∧
    s' = { s with
      fallbackInitiated := update s.fallbackInitiated orderHash true
      remaining := update s.remaining orderHash RemainingLib.fullyFilled } := by
  simp only [markFallbackInitiated, bind_eq_ok, require_eq_ok, pure_eq_ok] at h
  obtain ⟨_, -, _, hlive, rfl⟩ := h
  exact ⟨hlive, rfl⟩

theorem recordFallbackOutput_spec {s s' : ReactorState κ} {msgSender : Address} {orderHash : κ}
    {amountOut minOutputAmount : Nat}
    (h : recordFallbackOutput s msgSender orderHash amountOut minOutputAmount = .ok s') :
    minOutputAmount ≤ s.paidOutput orderHash + amountOut ∧
    s' = { s with
      paidOutput := update s.paidOutput orderHash (s.paidOutput orderHash + amountOut) } := by
  simp only [recordFallbackOutput, bind_eq_ok, require_eq_ok, checkedAdd_eq_ok, pure_eq_ok] at h
  obtain ⟨_, -, _, ⟨-, rfl⟩, _, hfloor, rfl⟩ := h
  exact ⟨hfloor, rfl⟩

theorem cancelOrder_spec {a : OrderAuth κ} {s s' : ReactorState κ} {msgSender : Address}
    {info : OrderInfo} (h : cancelOrder a s msgSender info = .ok s') :
    msgSender = info.swapper ∧
    s' = { s with
      cancelled := update s.cancelled (a.hashOrder info) true
      events := .orderCancelled (a.hashOrder info) msgSender :: s.events } := by
  simp only [cancelOrder, bind_eq_ok, require_eq_ok, pure_eq_ok] at h
  obtain ⟨_, hsender, _, -, rfl⟩ := h
  exact ⟨hsender, rfl⟩

end PartialFillReactor

namespace FallbackExecutor

open PartialFillReactor

variable {κ : Type}

/-- The guards of `executeFallback` before it marks the order. -/
structure FallbackGuards (a : OrderAuth κ) (blk : Block) (reactor : ReactorState κ)
    (s : FallbackState κ) (order : SignedOrder) (o : OpenFallback) : Prop where
  notEntered : s.entered = false
  validated : Validated a blk reactor order
  rem_eq : o.rem = remainingInput reactor (a.hashOrder order.info) order.info.inputAmount
  rem_pos : 0 < o.rem

theorem openChecks_spec {a : OrderAuth κ} {blk : Block} {reactor : ReactorState κ}
    {s : FallbackState κ} {order : SignedOrder} {router : Address} {o : OpenFallback}
    (h : openChecks a blk reactor s order router = .ok o) :
    FallbackGuards a blk reactor s order o := by
  simp only [openChecks, bind_eq_ok, nonReentrant_eq_ok, require_eq_ok, validateOrder_eq_ok,
    checkedSub_eq_ok, pure_eq_ok] at h
  obtain ⟨_, hentered, _, -, _, hvalid, _, -, _, -, _, -, _, hpos, rfl⟩ := h
  exact ⟨hentered, hvalid, rfl, hpos⟩

end FallbackExecutor

end NeutronX
