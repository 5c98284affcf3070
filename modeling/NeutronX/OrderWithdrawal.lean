import NeutronX.Controls
import NeutronX.InputAccounting
import NeutronX.StakeExit
import NeutronX.SwapperFloor

/-!
# The swapper's way out of an order

A swapper takes an order back by cancelling it or by invalidating its
nonce. Nobody else can, nothing can stop the swapper, and from then on the
order is out of reach: whatever is called, also from inside a filler's
callback, no input is pulled for it and nobody registers for it any more.

A chunk that was open when the order was taken back still closes. So the
output that is credited is frozen from the next transaction on, and for
this the induction is on call trees (`body_frozen`): a chunk of the order
that starts after the withdrawal stops at its first guard, and what is
between the opening and the close of other chunks does not matter.
-/

namespace NeutronX

open Evm Function

namespace System

open PartialFillReactor (OpenChunk)
open FallbackExecutor (OpenFallback)
open FillAuction (terms)

variable {κ W : Type} [DecidableEq κ] {d : Deployment κ W}

/-! ## Orders that were taken back -/

def Withdrawn (d : Deployment κ W) (s : World κ W) (info : OrderInfo) : Prop :=
  s.reactor.cancelled (d.hashOrder info) = true ∨
    s.reactor.nonceInvalidated info.swapper info.nonce = true

omit [DecidableEq κ] in
theorem Withdrawn.keep {s s' : World κ W} {info : OrderInfo} (h : Withdrawn d s info)
    (hp : Progress d s s') : Withdrawn d s' info :=
  h.imp (hp.cancelled _) (hp.nonceInvalidated _ _)

/-- The input that was pulled and the output that was credited for the
order, newest first. -/
def movements (info : OrderInfo) (s : World κ W) : List TraceEvent :=
  s.trace.filter fun e =>
    match e with
    | .orderVerified _ _ => false
    | .inputPulled i _ _ _ => decide (i = info)
    | .outputCredited i _ _ _ => decide (i = info)

/-- The order is where it was: its state in the reactor, and what moved for
it. -/
structure Untouched (d : Deployment κ W) (info : OrderInfo) (s s' : World κ W) : Prop where
  remaining : s'.reactor.remaining (d.hashOrder info) = s.reactor.remaining (d.hashOrder info)
  cursor : s'.reactor.cursors (d.hashOrder info) = s.reactor.cursors (d.hashOrder info)
  paidOutput : s'.reactor.paidOutput (d.hashOrder info) = s.reactor.paidOutput (d.hashOrder info)
  fallbackInitiated : s'.reactor.fallbackInitiated (d.hashOrder info)
    = s.reactor.fallbackInitiated (d.hashOrder info)
  movements : movements info s' = movements info s

omit [DecidableEq κ] in
theorem Untouched.refl (info : OrderInfo) (s : World κ W) : Untouched d info s s :=
  ⟨rfl, rfl, rfl, rfl, rfl⟩

omit [DecidableEq κ] in
theorem Untouched.trans {info : OrderInfo} {s s' s'' : World κ W} (h : Untouched d info s s')
    (h' : Untouched d info s' s'') : Untouched d info s s'' where
  remaining := h'.remaining.trans h.remaining
  cursor := h'.cursor.trans h.cursor
  paidOutput := h'.paidOutput.trans h.paidOutput
  fallbackInitiated := h'.fallbackInitiated.trans h.fallbackInitiated
  movements := h'.movements.trans h.movements

omit [DecidableEq κ] in
theorem Untouched.ofAside {info : OrderInfo} {s s' : World κ W} (h : Aside s s') :
    Untouched d info s s' := by
  refine ⟨by rw [h.remaining], by rw [h.cursors], by rw [h.paidOutput],
    by rw [h.fallbackInitiated], ?_⟩
  rcases h.trace with htrace | ⟨i, sig, htrace⟩
  · rw [System.movements, System.movements, htrace]
  · rw [System.movements, System.movements, htrace]
    rfl

/-! ## Chunks and fallbacks -/

/-- No chunk opens for an order that was taken back. -/
theorem ChunkOpened.ne_withdrawn {s s' : World κ W} {msgSender : Account} {order : SignedOrder}
    {fillAmount : Nat} {c : OpenChunk} (h : ChunkOpened d s msgSender order fillAmount s' c)
    {info : OrderInfo} (hback : Withdrawn d s info) : info ≠ order.info := by
  rintro rfl
  rcases hback with hcancelled | hnonce
  · have hlive := h.guards.live
    rw [hcancelled] at hlive
    cases hlive
  · have hlive := h.guards.nonceLive
    rw [hnonce] at hlive
    cases hlive

theorem ChunkOpened.untouched {s s' : World κ W} {msgSender : Account} {order : SignedOrder}
    {fillAmount : Nat} {c : OpenChunk} (h : ChunkOpened d s msgSender order fillAmount s' c)
    {info : OrderInfo} (hne : info ≠ order.info) : Untouched d info s s' := by
  have hkey : d.hashOrder info ≠ d.hashOrder order.info := d.hash_injective.ne hne
  obtain ⟨cursor, -, hreactor⟩ := h.quoted
  refine ⟨?_, ?_, by rw [hreactor]; rfl, by rw [hreactor]; rfl, ?_⟩
  · rw [hreactor]
    exact update_of_ne hkey ..
  · rw [hreactor]
    exact update_of_ne hkey ..
  · rw [movements, movements, h.trace]
    cases c.isFirstFill <;> simp [hne.symm]

theorem ChunkClosed.untouched {s s' : World κ W} {msgSender : Account} {i : OrderInfo}
    {fillAmount balBefore received : Nat} {c : OpenChunk}
    (h : ChunkClosed d s msgSender i fillAmount c balBefore s' received) {info : OrderInfo}
    (hne : info ≠ i) : Untouched d info s s' := by
  refine ⟨by rw [h.reactor], by rw [h.reactor], ?_, by rw [h.reactor], ?_⟩
  · rw [h.reactor]
    exact update_of_ne (d.hash_injective.ne hne) ..
  · rw [movements, movements, h.trace]
    simp [hne.symm]

/-- No fallback opens for an order that was taken back. -/
theorem FallbackOpened.ne_withdrawn {s s' : World κ W} {order : SignedOrder} {o : OpenFallback}
    (h : FallbackOpened d s order s' o) {info : OrderInfo} (hback : Withdrawn d s info) :
    info ≠ order.info := by
  rintro rfl
  rcases hback with hcancelled | hnonce
  · have hlive := h.live
    rw [hcancelled] at hlive
    cases hlive
  · have hlive := h.guards.validated.nonceLive
    rw [hnonce] at hlive
    cases hlive

theorem FallbackOpened.untouched {s s' : World κ W} {order : SignedOrder} {o : OpenFallback}
    (h : FallbackOpened d s order s' o) {info : OrderInfo} (hne : info ≠ order.info) :
    Untouched d info s s' := by
  have hkey : d.hashOrder info ≠ d.hashOrder order.info := d.hash_injective.ne hne
  refine ⟨?_, by rw [h.reactor], by rw [h.reactor], ?_, ?_⟩
  · rw [h.reactor]
    exact update_of_ne hkey ..
  · rw [h.reactor]
    exact update_of_ne hkey ..
  · rw [movements, movements, h.trace]
    simp [hne.symm]

theorem FallbackSettled.untouched {s s' : World κ W} {i : OrderInfo} {o : OpenFallback}
    {balBefore amountOut leftover : Nat}
    (h : FallbackSettled d s i o balBefore s' amountOut leftover) {info : OrderInfo}
    (hne : info ≠ i) : Untouched d info s s' := by
  refine ⟨by rw [h.reactor], by rw [h.reactor], ?_, by rw [h.reactor], ?_⟩
  · rw [h.reactor]
    exact update_of_ne (d.hash_injective.ne hne) ..
  · rw [movements, movements, h.trace]
    simp [hne.symm]

/-! ## Calls and runs -/

/-- What a call keeps: an order that was taken back stays so, where it is. -/
def Frozen (d : Deployment κ W) (info : OrderInfo) (s s' : World κ W) : Prop :=
  Withdrawn d s info → Withdrawn d s' info ∧ Untouched d info s s'

omit [DecidableEq κ] in
theorem Frozen.refl (info : OrderInfo) (s : World κ W) : Frozen d info s s :=
  fun hback => ⟨hback, .refl info s⟩

omit [DecidableEq κ] in
theorem Frozen.trans {info : OrderInfo} {s s' s'' : World κ W} (h : Frozen d info s s')
    (h' : Frozen d info s' s'') : Frozen d info s s'' := by
  intro hback
  obtain ⟨hback', hsame⟩ := h hback
  obtain ⟨hback'', hsame'⟩ := h' hback'
  exact ⟨hback'', hsame.trans hsame'⟩

theorem Frozen.ofSegment {info : OrderInfo} {s s' : World κ W} (h : Segment d s s')
    (hsame : Withdrawn d s info → Untouched d info s s') : Frozen d info s s' :=
  fun hback => ⟨hback.keep (segment_progress h), hsame hback⟩

theorem frozen_chunk (info : OrderInfo) (s : World κ W) (msgSender : Account)
    (order : SignedOrder) (fillAmount : Nat) (data : Bytes) :
    (executePartialChunk d s msgSender order fillAmount data).Sat (Frozen d info) s := by
  have hrefl : ∀ s : World κ W, Frozen d info s s := Frozen.refl info
  refine Prog.sat_attempt fun ⟨s₁, c⟩ hopen => ?_
  refine Prog.sat_yieldIf hrefl fun s₂ h₂ => ?_
  refine Prog.sat_yieldIf hrefl fun s₃ h₃ => ?_
  refine Prog.sat_attempt fun ⟨s₄, balBefore⟩ hpay => ?_
  refine Prog.sat_yieldIf hrefl fun s₅ h₅ => ?_
  refine Prog.sat_attempt fun s₆ hclose => ?_
  -- the chunk that opened is of another order, so it also closes another order
  intro hback
  have hopened := chunkOpen_spec hopen
  have hne := hopened.ne_withdrawn hback
  have h₁ : Frozen d info s s₁ :=
    .ofSegment (.chunkOpen msgSender order fillAmount c hopen) fun _ => hopened.untouched hne
  have h₄ : Frozen d info s₃ s₄ := by
    refine .ofSegment (.chunkPay msgSender order.info c balBefore hpay) fun _ => ?_
    obtain ⟨-, -, hs₄⟩ := chunkPay_spec hpay
    rw [hs₄]
    exact ⟨rfl, rfl, rfl, rfl, rfl⟩
  have h₆ : Frozen d info s₅ s₆ := by
    refine .ofSegment (.chunkClose msgSender order.info fillAmount c balBefore hclose) fun _ => ?_
    obtain ⟨received, hclosed⟩ := chunkClose_spec hclose
    exact hclosed.untouched hne
  exact ((((h₁.trans h₂).trans h₃).trans h₄).trans h₅).trans h₆ hback

theorem frozen_fallback (info : OrderInfo) (s : World κ W) (order : SignedOrder)
    (router : Address) (routeOk : Bool) (minAmountOut : Nat) :
    (executeFallback d s order router routeOk minAmountOut).Sat (Frozen d info) s := by
  have hrefl : ∀ s : World κ W, Frozen d info s s := Frozen.refl info
  refine Prog.sat_attempt fun ⟨s₁, o, inBalBefore⟩ hopen => ?_
  refine Prog.sat_yieldIf hrefl fun s₂ h₂ => ?_
  refine Prog.sat_attempt fun ⟨s₃, balBefore⟩ happrove => ?_
  intro s₄ h₄
  refine Prog.sat_attempt fun ⟨s₅, amountOut, leftover⟩ hsettle => ?_
  refine Prog.sat_yieldIf hrefl fun s₆ h₆ => ?_
  intro hback
  have hopened := fallbackOpen_spec hopen
  have hne := hopened.ne_withdrawn hback
  have h₁ : Frozen d info s s₁ :=
    .ofSegment (.fallbackOpen order router o inBalBefore hopen) fun _ => hopened.untouched hne
  have h₃ : Frozen d info s₂ s₃ := by
    refine .ofSegment (.fallbackApprove order.info o balBefore happrove) fun _ => ?_
    obtain ⟨-, -, hs₃⟩ := fallbackApprove_spec happrove
    rw [hs₃]
    exact ⟨rfl, rfl, rfl, rfl, rfl⟩
  have h₅ : Frozen d info s₄ s₅ :=
    .ofSegment (.fallbackSettle order.info o inBalBefore balBefore routeOk minAmountOut amountOut
      leftover hsettle) fun _ => (fallbackSettle_spec hsettle).untouched hne
  have h₇ : Frozen d info s₆ (fallbackClose d s₆ order.info o amountOut) :=
    .ofSegment (.fallbackClose s₆ order.info o amountOut) fun _ => ⟨rfl, rfl, rfl, rfl, rfl⟩
  exact (((((h₁.trans h₂).trans h₃).trans h₄).trans h₅).trans h₆).trans h₇ hback

/-- The step lemma: what every body keeps. -/
theorem body_frozen (info : OrderInfo) (l : Label κ W) (s : World κ W) :
    (body d l s).Sat (Frozen d info) s := by
  cases l with
  | register msgSender msgValue order fillAmount =>
      refine Prog.sat_attempt fun s' h => ?_
      refine .ofSegment (.register msgSender msgValue order fillAmount h) fun _ => ?_
      obtain ⟨auction, -, -, -, rfl⟩ := register_spec h
      exact ⟨rfl, rfl, rfl, rfl, rfl⟩
  | executePartialChunk msgSender order fillAmount =>
      exact frozen_chunk info s msgSender order fillAmount []
  | executePartialChunkWithCallback msgSender order fillAmount callbackData =>
      exact Prog.sat_attempt fun _ _ => frozen_chunk info s msgSender order fillAmount callbackData
  | executeFallback order router routeOk minAmountOut =>
      exact frozen_fallback info s order router routeOk minAmountOut
  | cancelOrder msgSender i =>
      refine Prog.sat_attempt fun s' h => .ofSegment (.cancelOrder msgSender i h) fun _ => ?_
      rw [cancelOrder_spec h]
      exact ⟨rfl, rfl, rfl, rfl, rfl⟩
  | invalidateNonce msgSender nonce =>
      exact .ofSegment (.invalidateNonce s msgSender nonce) fun _ => ⟨rfl, rfl, rfl, rfl, rfl⟩
  | slash msgSender orderHash filler =>
      exact Prog.sat_attempt fun s' h =>
        .ofSegment (.slash msgSender orderHash filler h) fun _ => .ofAside (.onAuction h)
  | releaseRegistration orderHash filler =>
      exact Prog.sat_attempt fun s' h =>
        .ofSegment (.releaseRegistration orderHash filler h) fun _ => .ofAside (.onAuction h)
  | withdraw msgSender to_ accepted =>
      refine Prog.sat_attempt fun s₁ hsend => ?_
      intro s₂ h₂
      refine Prog.sat_attempt fun s₃ hreturn => ?_
      have h₁ : Frozen d info s s₁ :=
        .ofSegment (.withdrawSend msgSender to_ hsend) fun _ => .ofAside (.onAuction hsend)
      have h₃ : Frozen d info s₂ s₃ :=
        .ofSegment (.withdrawReturn accepted hreturn) fun _ => .ofAside (.onAuction hreturn)
      exact (h₁.trans h₂).trans h₃
  | auctionOp op =>
      exact Prog.sat_attempt fun s' h =>
        .ofSegment (.auctionOp op h) fun _ => .ofAside (.onAuction h)
  | setRouterAllowed msgSender router approveTarget allowed =>
      refine Prog.sat_attempt fun s' h => ?_
      refine .ofSegment (.setRouterAllowed msgSender router approveTarget allowed h) fun _ => ?_
      obtain ⟨fallback, -, -, rfl⟩ := setRouterAllowed_spec h
      exact ⟨rfl, rfl, rfl, rfl, rfl⟩
  | tokens f => exact .ofSegment (.tokens s f) fun _ => ⟨rfl, rfl, rfl, rfl, rfl⟩

/-- The run lemma. -/
theorem run_frozen (info : OrderInfo) (txs : List (Tx (Label κ W) Elapse)) (s : World κ W) :
    Frozen d info s (run d txs s) :=
  runTxs_sat (P := fun _ => True) (Frozen.refl info) Frozen.trans
    (fun l _ s => body_frozen info l s)
    (fun t s => .ofSegment (.elapse s t) fun _ => ⟨rfl, rfl, rfl, rfl, rfl⟩) s
    fun tx _ => tx.all_true

/-! ## While a chunk is open -/

/-- Nobody registered for the order, and no input of it was pulled. -/
structure Unreached (d : Deployment κ W) (info : OrderInfo) (s s' : World κ W) : Prop where
  registrations : ∀ filler, terms (s'.auction.registrations (d.hashOrder info) filler)
    = terms (s.auction.registrations (d.hashOrder info) filler)
  pulled : pulled info s'.trace = pulled info s.trace

/-- No piece of any body reaches an order that was taken back. -/
theorem segment_unreached {s s' : World κ W} (h : Segment d s s') {info : OrderInfo}
    (hback : Withdrawn d s info) : Unreached d info s s' := by
  cases segment_effect h with
  | quiet h => exact ⟨h.terms _, by rw [h.trace]⟩
  | register msgSender msgValue order fillAmount snap hok hlive hvalid hs' =>
      have hne : info ≠ order.info := by
        rintro rfl
        rcases hback with hcancelled | hnonce
        · rw [hlive] at hcancelled
          cases hcancelled
        · rw [hvalid.nonceLive] at hnonce
          cases hnonce
      have hkey : d.hashOrder info ≠ d.hashOrder order.info := d.hash_injective.ne hne
      subst hs'
      refine ⟨fun filler => congrArg terms ?_, rfl⟩
      exact update₂_of_ne (fun heq => hkey heq.1) _
  | chunkOpen msgSender order fillAmount c h =>
      refine ⟨fun filler => by rw [h.auction], ?_⟩
      have hne := h.ne_withdrawn hback
      rw [h.pulled_eq info, if_neg hne.symm, Nat.zero_add]
  | chunkClose msgSender i fillAmount c balBefore received h hterms =>
      refine ⟨hterms _, ?_⟩
      rw [h.trace]
      rfl
  | fallbackOpen order o h =>
      refine ⟨fun filler => by rw [h.auction], ?_⟩
      have hne := h.ne_withdrawn hback
      rw [h.trace]
      simp [System.pulled, hne.symm]
  | fallbackSettle i o balBefore amountOut leftover h =>
      refine ⟨fun filler => by rw [h.auction], ?_⟩
      rw [h.trace]
      rfl
  | cancelOrder msgSender i hs' =>
      subst hs'
      exact ⟨fun _ => rfl, rfl⟩
  | invalidateNonce msgSender nonce hs' =>
      subst hs'
      exact ⟨fun _ => rfl, rfl⟩

theorem segments_unreached {s s' : World κ W} (h : Segments d s s') {info : OrderInfo}
    (hback : Withdrawn d s info) : Withdrawn d s' info ∧ Unreached d info s s' := by
  induction h with
  | refl => exact ⟨hback, fun _ => rfl, rfl⟩
  | tail _ hseg ih =>
      obtain ⟨hback', hbefore⟩ := ih
      have hafter := segment_unreached hseg hback'
      exact ⟨hback'.keep (segment_progress hseg),
        fun filler => (hafter.registrations filler).trans (hbefore.registrations filler),
        hafter.pulled.trans hbefore.pulled⟩

/-! ## Who takes an order back -/

/-- The two calls by which a swapper takes the order back. -/
def takesBack (info : OrderInfo) : Label κ W → Bool
  | .cancelOrder msgSender i => decide ((msgSender : Address) = info.swapper ∧ i = info)
  | .invalidateNonce msgSender nonce =>
      decide ((msgSender : Address) = info.swapper ∧ nonce = info.nonce)
  | _ => false

/-- The step lemma: nothing else takes it back. -/
theorem body_live {info : OrderInfo} {l : Label κ W} (hl : takesBack info l = false)
    (s : World κ W) :
    (body d l s).Sat (fun s s' => Withdrawn d s' info → Withdrawn d s info) s := by
  refine body_sat_of_controls (fun h h' hback => h (h' hback)) (fun h hback => ?_) l s ?_ ?_ ?_ ?_
  · unfold Withdrawn at hback ⊢
    rw [h.cancelled, h.nonceInvalidated] at hback
    exact hback
  · rintro msgSender i rfl s' h hback
    -- the call of the order's swapper is for another order
    have hi : d.hashOrder info ≠ d.hashOrder i := by
      intro heq
      obtain rfl := d.hash_injective heq
      simp only [cancelOrder, bind_eq_ok] at h
      obtain ⟨reactor, hreactor, -⟩ := h
      have hsender := (PartialFillReactor.cancelOrder_spec hreactor).1
      simp [takesBack, hsender] at hl
    rw [cancelOrder_spec h] at hback
    exact hback.imp_left fun hcancelled => (update_of_ne hi true _).symm.trans hcancelled
  · rintro msgSender nonce rfl hback
    have hnonce : ¬(info.swapper = msgSender ∧ info.nonce = nonce) := by
      rintro ⟨hsender, hn⟩
      simp [takesBack, hsender, hn] at hl
    exact hback.imp_right fun h => (update₂_of_ne hnonce true).symm.trans h
  · rintro op rfl s' h hback
    obtain ⟨auction, -, rfl⟩ := onAuction_spec h
    exact hback
  · rintro msgSender router approveTarget allowed rfl s' h hback
    obtain ⟨fallback, -, -, rfl⟩ := setRouterAllowed_spec h
    exact hback

theorem cancelOrder_succeeds {s : World κ W} {info : OrderInfo} {swapper : Account}
    (hswapper : (swapper : Address) = info.swapper)
    (hlive : s.reactor.cancelled (d.hashOrder info) = false) :
    ∃ s', exec (body d) (.leaf (.cancelOrder swapper info)) s = .ok s' ∧ Withdrawn d s' info := by
  have hcancel : cancelOrder d s swapper info = .ok { s with reactor := { s.reactor with
      cancelled := update s.reactor.cancelled (d.hashOrder info) true
      events := .orderCancelled (d.hashOrder info) swapper :: s.reactor.events } } := by
    simp only [cancelOrder, PartialFillReactor.cancelOrder, bind_eq_ok, require_eq_ok, pure_eq_ok]
    exact ⟨_, ⟨(), hswapper, (), hlive, rfl⟩, rfl⟩
  have hexec := exec_leaf (body d) (.cancelOrder swapper info) s
  rw [body, hcancel, Prog.attempt_ok, Prog.finish_done] at hexec
  exact ⟨_, hexec, Or.inl (update_self ..)⟩

theorem invalidateNonce_succeeds (s : World κ W) {info : OrderInfo} {swapper : Account}
    (hswapper : (swapper : Address) = info.swapper) :
    ∃ s', exec (body d) (.leaf (.invalidateNonce swapper info.nonce)) s = .ok s' ∧
      Withdrawn d s' info := by
  refine ⟨{ s with reactor := PartialFillReactor.invalidateNonce s.reactor swapper info.nonce },
    by rw [exec_leaf, body, Prog.finish_done], Or.inr ?_⟩
  change update₂ s.reactor.nonceInvalidated swapper info.nonce true info.swapper info.nonce = true
  rw [hswapper, update₂_self]

/-- The run lemma of open orders. -/
theorem run_live {info : OrderInfo} {txs : List (Tx (Label κ W) Elapse)}
    (hother : ∀ tx ∈ txs, tx.All fun l => takesBack info l = false) (s : World κ W) :
    Withdrawn d (run d txs s) info → Withdrawn d s info :=
  runTxs_sat (R := fun s s' : World κ W => Withdrawn d s' info → Withdrawn d s info)
    (fun _ hback => hback) (fun h h' hback => h (h' hback)) (fun _ hl s => body_live hl s)
    (fun t s (hback : Withdrawn d (elapse t s) info) => hback) s hother

/-- **The swapper's way out.** In every state the swapper can take an order
back. Nobody else can: a run without the swapper's two calls, at whatever
depth, leaves the order open. And it is final: from the moment on nobody
registers for the order and no input of it is pulled, not even inside the
transaction that is under way; and no later transaction changes anything
the reactor records of the order or credits any output to it. -/
theorem swapper_withdraws (info : OrderInfo) :
    (∀ (s : World κ W) (swapper : Account), (swapper : Address) = info.swapper →
      (s.reactor.cancelled (d.hashOrder info) = false →
        ∃ s', exec (body d) (.leaf (.cancelOrder swapper info)) s = .ok s' ∧
          Withdrawn d s' info) ∧
      ∃ s', exec (body d) (.leaf (.invalidateNonce swapper info.nonce)) s = .ok s' ∧
        Withdrawn d s' info) ∧
    (∀ (s : World κ W) txs, ¬Withdrawn d s info →
      (∀ tx ∈ txs, tx.All fun l => takesBack info l = false) → ¬Withdrawn d (run d txs s) info) ∧
    (∀ s t : World κ W, Withdrawn d s info → Segments d s t →
      Withdrawn d t info ∧ Unreached d info s t) ∧
    ∀ (s : World κ W) txs, Withdrawn d s info → Untouched d info s (run d txs s) := by
  refine ⟨fun s swapper hswapper => ⟨cancelOrder_succeeds hswapper,
    invalidateNonce_succeeds s hswapper⟩, fun s txs hlive hother hback => ?_,
    fun s t hback ht => segments_unreached ht hback,
    fun s txs hback => (run_frozen info txs s hback).2⟩
  exact hlive (run_live hother s hback)

/-- The swapper cancels inside the callback of the first chunk. The chunk
still closes; a second filler and the fallback are too late. -/
theorem swapper_withdraws_midway :
    ∃ s t : World OrderInfo Ledger, ∃ info : OrderInfo, pulled info s.trace = 400 ∧
      paid Ledger.deployment s info = 400 ∧ t.block.number = 95 ∧
      Untouched Ledger.deployment info s t := by
  let info : OrderInfo := ⟨1, 2, 1001, 3, 900, 100, 0, 0, 10 ^ 18, 0, 3000⟩
  let filler : Account := ⟨7, by decide⟩
  let later : Account := ⟨8, by decide⟩
  let ledger : Ledger := update₂ (update₂ (update₂ (fun _ _ => 0) 2 1 1001) 3 7 400) 3 8 400
  let s := run Ledger.deployment
    [.call (.leaf (.register filler 80 ⟨info, [1]⟩ 400)),
     .call (.leaf (.register later 80 ⟨info, [1]⟩ 400)),
     .call (.mk (.executePartialChunkWithCallback filler ⟨info, [1]⟩ 400 [0])
       [[.leaf (.cancelOrder ⟨1, by decide⟩ info)]])]
    (deployed Ledger.deployment ledger ⟨10, 0⟩)
  let txs : List (Tx (Label OrderInfo Ledger) Elapse) :=
    [.call (.leaf (.executePartialChunk later ⟨info, [1]⟩ 400)),
     .tick ⟨85, 0⟩,
     .call (.leaf (.executeFallback ⟨info, [1]⟩ 106 true 0))]
  have hback : Withdrawn Ledger.deployment s info := Or.inl (by decide +kernel)
  exact ⟨s, run Ledger.deployment txs s, info, by decide +kernel, by decide +kernel,
    by decide +kernel, (swapper_withdraws info).2.2.2 s txs hback⟩

end System

end NeutronX
