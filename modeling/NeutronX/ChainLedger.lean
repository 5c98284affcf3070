import NeutronX.SwapperFloor

/-!
# What the logs account for

A mirror of an order off the chain only sees its logs: a chunk logs its
input and output when it closes, a fallback when it ends. In the middle of
a transaction the logs lag behind the order, but what a whole call adds to
them is what it took off the order (`Ledgered`), whatever is called on the
way. So after every transaction the logged input and what is left add up to
the order, and the logged output is what the reactor recorded.

A fallback that is called directly logs all that was left, and while it runs
no other is logged (`Locked`).
-/

namespace NeutronX

open Evm Function

namespace System

open PartialFillReactor (OpenChunk)
open FallbackExecutor (OpenFallback)

variable {κ W : Type} [DecidableEq κ] {d : Deployment κ W}

/-! ## What the pieces log -/

section Pieces

variable {s s' : World κ W} {k : κ}

theorem ChunkOpened.chunksOf_eq {msgSender : Account} {order : SignedOrder} {fillAmount : Nat}
    {c : OpenChunk} (h : ChunkOpened d s msgSender order fillAmount s' c) :
    chunksOf k s' = chunksOf k s := by
  obtain ⟨cursor, -, hreactor⟩ := h.quoted
  rw [chunksOf, hreactor]
  rfl

theorem ChunkClosed.chunksOf_eq {msgSender : Account} {info : OrderInfo} {fillAmount : Nat}
    {c : OpenChunk} {balBefore received : Nat}
    (h : ChunkClosed d s msgSender info fillAmount c balBefore s' received) :
    chunksOf k s' = if d.hashOrder info = k then (fillAmount, received) :: chunksOf k s
      else chunksOf k s := by
  by_cases hhash : d.hashOrder info = k
  · simp [chunksOf, h.reactor, chunkOf, hhash]
  · simp [chunksOf, h.reactor, chunkOf, hhash]

theorem fallbacksOf_fallbackClose (info : OrderInfo) (o : OpenFallback) (amountOut : Nat) :
    fallbacksOf k (fallbackClose d s info o amountOut)
      = if d.hashOrder info = k then (o.rem, amountOut) :: fallbacksOf k s
        else fallbacksOf k s := by
  by_cases hhash : d.hashOrder info = k
  · simp [fallbacksOf, fallbackClose, fallbackOf, hhash]
  · simp [fallbacksOf, fallbackClose, fallbackOf, hhash]

end Pieces

/-! ## What a call adds to the logs -/

def loggedInput (d : Deployment κ W) (s : World κ W) (info : OrderInfo) : Nat :=
  ((chunksOf (d.hashOrder info) s).map Prod.fst).sum
    + ((fallbacksOf (d.hashOrder info) s).map Prod.fst).sum

def loggedOutput (d : Deployment κ W) (s : World κ W) (info : OrderInfo) : Nat :=
  ((chunksOf (d.hashOrder info) s).map Prod.snd).sum
    + ((fallbacksOf (d.hashOrder info) s).map Prod.snd).sum

/-- What is logged of an order is what was taken off it and recorded. -/
structure Ledgered (d : Deployment κ W) (info : OrderInfo) (s s' : World κ W) : Prop where
  input : loggedInput d s' info + unfilled d s' info = loggedInput d s info + unfilled d s info
  output : paid d s' info + loggedOutput d s info = paid d s info + loggedOutput d s' info

theorem Ledgered.refl (info : OrderInfo) (s : World κ W) : Ledgered d info s s := ⟨rfl, rfl⟩

theorem Ledgered.trans {info : OrderInfo} {a b c : World κ W} (h : Ledgered d info a b)
    (h' : Ledgered d info b c) : Ledgered d info a c where
  input := h'.input.trans h.input
  output := by
    have := h.output
    have := h'.output
    omega

theorem Ledgered.ofSame {info : OrderInfo} {s s' : World κ W}
    (hchunks : chunksOf (d.hashOrder info) s' = chunksOf (d.hashOrder info) s)
    (hfallbacks : fallbacksOf (d.hashOrder info) s' = fallbacksOf (d.hashOrder info) s)
    (hunfilled : unfilled d s' info = unfilled d s info)
    (hpaid : paid d s' info = paid d s info) : Ledgered d info s s' where
  input := by rw [loggedInput, loggedInput, hchunks, hfallbacks, hunfilled]
  output := by rw [loggedOutput, loggedOutput, hchunks, hfallbacks, hpaid]

theorem Ledgered.ofUnlogged {info : OrderInfo} {s s' : World κ W} (h : Unlogged s s') :
    Ledgered d info s s' :=
  .ofSame (h.chunks _) (h.fallbacks _) (unfilled_eq_of_remaining h.remaining info)
    (by rw [paid, paid, h.paidOutput])

/-- A chunk from its opening in `s` to its close. -/
theorem ledgered_chunk {s s₁ s₂ s₃ : World κ W} {msgSender : Account} {order : SignedOrder}
    {fillAmount balBefore received : Nat} {c : OpenChunk}
    (hopen : ChunkOpened d s msgSender order fillAmount s₁ c)
    (hmid : ∀ info, Ledgered d info s₁ s₂)
    (hclose : ChunkClosed d s₂ msgSender order.info fillAmount c balBefore s₃ received)
    (info : OrderInfo) : Ledgered d info s s₃ := by
  have hopenChunks := hopen.chunksOf_eq (k := d.hashOrder info)
  have hopenFallbacks : fallbacksOf (d.hashOrder info) s₁ = fallbacksOf (d.hashOrder info) s := by
    rw [fallbacksOf, hopen.fallback]
    rfl
  have hopenUnfilled := hopen.unfilled_eq info
  have hopenPaid : paid d s₁ info = paid d s info := by
    obtain ⟨cursor, -, hreactor⟩ := hopen.quoted
    rw [paid, hreactor]
    rfl
  have hcloseChunks := hclose.chunksOf_eq (k := d.hashOrder info)
  have hcloseFallbacks : fallbacksOf (d.hashOrder info) s₃
      = fallbacksOf (d.hashOrder info) s₂ := by
    rw [fallbacksOf, hclose.fallback]
    rfl
  have hcloseUnfilled : unfilled d s₃ info = unfilled d s₂ info :=
    unfilled_eq_of_remaining (by rw [hclose.reactor]) info
  by_cases heq : info = order.info
  · subst heq
    have hclosePaid : paid d s₃ order.info = paid d s₂ order.info + received := by
      rw [paid, paid, hclose.reactor]
      exact update_self ..
    rw [if_pos rfl] at hopenUnfilled hcloseChunks
    have hfill : fillAmount ≤ unfilled d s order.info := hopen.guards.fill_le
    have hinput := (hmid order.info).input
    have houtput := (hmid order.info).output
    constructor
    · simp only [loggedInput, hopenChunks, hopenFallbacks, hcloseChunks, hcloseFallbacks,
        List.map_cons, List.sum_cons] at hinput ⊢
      omega
    · simp only [loggedOutput, hopenChunks, hopenFallbacks, hcloseChunks, hcloseFallbacks,
        List.map_cons, List.sum_cons] at houtput ⊢
      omega
  · have hne := d.hash_injective.ne heq
    have hclosePaid : paid d s₃ info = paid d s₂ info := by
      rw [paid, paid, hclose.reactor]
      exact update_of_ne hne ..
    rw [if_neg heq] at hopenUnfilled
    rw [if_neg hne.symm] at hcloseChunks
    have hbefore : Ledgered d info s s₁ :=
      .ofSame hopenChunks hopenFallbacks hopenUnfilled hopenPaid
    exact (hbefore.trans (hmid info)).trans
      (.ofSame hcloseChunks hcloseFallbacks hcloseUnfilled hclosePaid)

/-- A fallback from its pull in `s` to its end. -/
theorem ledgered_fallback {s s₁ s₂ s₃ s₄ : World κ W} {order : SignedOrder} {o : OpenFallback}
    {balBefore amountOut leftover : Nat} (hopen : FallbackOpened d s order s₁ o)
    (hmid : ∀ info, Ledgered d info s₁ s₂)
    (hsettle : FallbackSettled d s₂ order.info o balBefore s₃ amountOut leftover)
    (hmid' : ∀ info, Ledgered d info s₃ s₄) (info : OrderInfo) :
    Ledgered d info s (fallbackClose d s₄ order.info o amountOut) := by
  have hopenChunks : chunksOf (d.hashOrder info) s₁ = chunksOf (d.hashOrder info) s := by
    rw [chunksOf, hopen.reactor]
    rfl
  have hopenFallbacks : fallbacksOf (d.hashOrder info) s₁ = fallbacksOf (d.hashOrder info) s := by
    rw [fallbacksOf, hopen.fallback]
    rfl
  have hopenUnfilled := hopen.unfilled_eq info
  have hopenPaid : paid d s₁ info = paid d s info := by
    rw [paid, paid, hopen.reactor]
  have hsettleChunks : chunksOf (d.hashOrder info) s₃ = chunksOf (d.hashOrder info) s₂ := by
    rw [chunksOf, hsettle.reactor]
    rfl
  have hsettleFallbacks : fallbacksOf (d.hashOrder info) s₃
      = fallbacksOf (d.hashOrder info) s₂ := by
    rw [fallbacksOf, hsettle.fallback]
    rfl
  have hsettleUnfilled : unfilled d s₃ info = unfilled d s₂ info :=
    unfilled_eq_of_remaining (by rw [hsettle.reactor]) info
  have hcloseFallbacks := fallbacksOf_fallbackClose (d := d) (s := s₄) (k := d.hashOrder info)
    order.info o amountOut
  by_cases heq : info = order.info
  · subst heq
    have hsettlePaid : paid d s₃ order.info = paid d s₂ order.info + amountOut := by
      rw [paid, paid, hsettle.reactor]
      exact update_self ..
    rw [if_pos rfl] at hopenUnfilled hcloseFallbacks
    have hrem : o.rem = unfilled d s order.info := hopen.guards.rem_eq
    have hclosed : chunksOf (d.hashOrder order.info) (fallbackClose d s₄ order.info o amountOut)
          = chunksOf (d.hashOrder order.info) s₄ ∧
        unfilled d (fallbackClose d s₄ order.info o amountOut) order.info
          = unfilled d s₄ order.info ∧
        paid d (fallbackClose d s₄ order.info o amountOut) order.info = paid d s₄ order.info :=
      ⟨rfl, rfl, rfl⟩
    obtain ⟨hcloseChunks, hcloseUnfilled, hclosePaid⟩ := hclosed
    have hinput := (hmid order.info).input
    have houtput := (hmid order.info).output
    have hinput' := (hmid' order.info).input
    have houtput' := (hmid' order.info).output
    constructor
    · simp only [loggedInput, hopenChunks, hopenFallbacks, hsettleChunks, hsettleFallbacks,
        hcloseChunks, hcloseFallbacks, List.map_cons, List.sum_cons] at hinput hinput' ⊢
      omega
    · simp only [loggedOutput, hopenChunks, hopenFallbacks, hsettleChunks, hsettleFallbacks,
        hcloseChunks, hcloseFallbacks, List.map_cons, List.sum_cons] at houtput houtput' ⊢
      omega
  · have hne := d.hash_injective.ne heq
    have hsettlePaid : paid d s₃ info = paid d s₂ info := by
      rw [paid, paid, hsettle.reactor]
      exact update_of_ne hne ..
    rw [if_neg heq] at hopenUnfilled
    rw [if_neg hne.symm] at hcloseFallbacks
    have hbefore : Ledgered d info s s₁ :=
      .ofSame hopenChunks hopenFallbacks hopenUnfilled hopenPaid
    have hsettled : Ledgered d info s₂ s₃ :=
      .ofSame hsettleChunks hsettleFallbacks hsettleUnfilled hsettlePaid
    exact (((hbefore.trans (hmid info)).trans hsettled).trans (hmid' info)).trans
      (.ofSame rfl hcloseFallbacks rfl rfl)

/-- The step lemma of the logs. -/
theorem body_ledgered (l : Label κ W) (s : World κ W) :
    (body d l s).Sat (fun s s' => ∀ info, Ledgered d info s s') s := by
  have hrefl : ∀ s : World κ W, ∀ info, Ledgered d info s s := fun s info => .refl info s
  refine body_sat_of_unlogged (fun h h' info => (h info).trans (h' info))
    (fun h info => .ofUnlogged h) l s (fun f _ info => .ofSame rfl rfl rfl rfl) ?_ ?_
  · intro msgSender order fillAmount _ data
    refine Prog.sat_attempt fun ⟨s₁, c⟩ hopen => ?_
    refine Prog.sat_yieldIf hrefl fun s₂ h₂ => ?_
    refine Prog.sat_yieldIf hrefl fun s₃ h₃ => ?_
    refine Prog.sat_attempt fun ⟨s₄, balBefore⟩ hpay => ?_
    have h₄ : ∀ info, Ledgered d info s₃ s₄ := by
      obtain ⟨-, -, hs₄⟩ := chunkPay_spec hpay
      rw [hs₄]
      exact fun info => .ofSame rfl rfl rfl rfl
    refine Prog.sat_yieldIf hrefl fun s₅ h₅ => ?_
    refine Prog.sat_attempt fun s₆ hclose => ?_
    obtain ⟨received, hclosed⟩ := chunkClose_spec hclose
    exact ledgered_chunk (chunkOpen_spec hopen)
      (fun info => (((h₂ info).trans (h₃ info)).trans (h₄ info)).trans (h₅ info)) hclosed
  · intro order router routeOk minAmountOut _
    refine Prog.sat_attempt fun ⟨s₁, o, inBalBefore⟩ hopen => ?_
    refine Prog.sat_yieldIf hrefl fun s₂ h₂ => ?_
    refine Prog.sat_attempt fun ⟨s₃, balBefore⟩ happrove => ?_
    have h₃ : ∀ info, Ledgered d info s₂ s₃ := by
      obtain ⟨-, -, hs₃⟩ := fallbackApprove_spec happrove
      rw [hs₃]
      exact fun info => .ofSame rfl rfl rfl rfl
    intro s₄ h₄
    refine Prog.sat_attempt fun ⟨s₅, amountOut, leftover⟩ hsettle => ?_
    refine Prog.sat_yieldIf hrefl fun s₆ h₆ => ?_
    exact ledgered_fallback (fallbackOpen_spec hopen)
      (fun info => ((h₂ info).trans (h₃ info)).trans (h₄ info)) (fallbackSettle_spec hsettle) h₆

/-- The run lemma of the logs. -/
theorem run_ledgered (txs : List (Tx (Label κ W) Elapse)) (s : World κ W) :
    ∀ info, Ledgered d info s (run d txs s) :=
  runTxs_sat (R := fun s s' => ∀ info, Ledgered d info s s') (P := fun _ => True)
    (fun s info => .refl info s) (fun h h' info => (h info).trans (h' info))
    (fun l _ s => body_ledgered l s)
    (fun t s => (fun _ => .ofSame rfl rfl rfl rfl : ∀ info, Ledgered d info s (elapse t s))) s
    fun tx _ => tx.all_true

/-- **The logs account for the order**, after every transaction. -/
theorem Reachable.ledgered {s : World κ W} (h : Reachable d s) (info : OrderInfo) :
    loggedInput d s info + unfilled d s info = info.inputAmount ∧
      loggedOutput d s info = paid d s info := by
  obtain ⟨tokens, block, txs, rfl⟩ := h
  obtain ⟨hinput, houtput⟩ := run_ledgered (d := d) txs (deployed d tokens block) info
  have hnothing : loggedInput d (deployed d tokens block) info = 0 ∧
      loggedOutput d (deployed d tokens block) info = 0 ∧
      paid d (deployed d tokens block) info = 0 := ⟨rfl, rfl, rfl⟩
  have hwhole : unfilled d (deployed d tokens block) info = info.inputAmount := by
    simp [unfilled, deployed, PartialFillReactor.deployed, PartialFillReactor.remainingInput]
  omega

/-! ## A fallback by itself -/

/-- While a fallback runs, no other is logged. -/
def Locked (s s' : World κ W) : Prop :=
  s.fallback.entered = true →
    s'.fallback.entered = true ∧ ∀ k, fallbacksOf k s' = fallbacksOf k s

theorem Locked.refl (s : World κ W) : Locked s s := fun h => ⟨h, fun _ => rfl⟩

theorem Locked.trans {a b c : World κ W} (h : Locked a b) (h' : Locked b c) : Locked a c := by
  intro ha
  obtain ⟨hb, hsame⟩ := h ha
  obtain ⟨hc, hsame'⟩ := h' hb
  exact ⟨hc, fun k => (hsame' k).trans (hsame k)⟩

theorem Locked.ofSame {s s' : World κ W} (h : s'.fallback = s.fallback) : Locked s s' := by
  intro hentered
  refine ⟨by rw [h]; exact hentered, fun k => ?_⟩
  rw [fallbacksOf, h]
  rfl

theorem Locked.ofUnlogged {s s' : World κ W} (h : Unlogged s s') : Locked s s' :=
  fun hentered => ⟨h.guarded.trans hentered, h.fallbacks⟩

theorem body_locked (l : Label κ W) (s : World κ W) : (body d l s).Sat Locked s := by
  refine body_sat_of_unlogged (R := Locked) .trans .ofUnlogged l s (fun f _ => .ofSame rfl) ?_ ?_
  · intro msgSender order fillAmount _ data
    refine Prog.sat_attempt fun ⟨s₁, c⟩ hopen => ?_
    have h₁ : Locked s s₁ := .ofSame (chunkOpen_spec hopen).fallback
    refine Prog.sat_yieldIf .refl fun s₂ h₂ => ?_
    refine Prog.sat_yieldIf .refl fun s₃ h₃ => ?_
    refine Prog.sat_attempt fun ⟨s₄, balBefore⟩ hpay => ?_
    obtain ⟨-, -, hs₄⟩ := chunkPay_spec hpay
    have h₄ : Locked s₃ s₄ := .ofSame (by rw [hs₄])
    refine Prog.sat_yieldIf .refl fun s₅ h₅ => ?_
    refine Prog.sat_attempt fun s₆ hclose => ?_
    obtain ⟨received, hclosed⟩ := chunkClose_spec hclose
    exact h₁.trans (h₂.trans (h₃.trans (h₄.trans (h₅.trans (.ofSame hclosed.fallback)))))
  · intro order router routeOk minAmountOut _
    refine Prog.sat_attempt fun ⟨s₁, o, inBalBefore⟩ hopen => ?_
    have hfree := (fallbackOpen_spec hopen).guards.notEntered
    have hlocked : ∀ s', Locked s s' := by
      intro s' hentered
      rw [hfree] at hentered
      cases hentered
    refine Prog.sat_yieldIf .refl fun s₂ _ => ?_
    refine Prog.sat_attempt fun ⟨s₃, balBefore⟩ _ => ?_
    intro s₄ _
    refine Prog.sat_attempt fun ⟨s₅, amountOut, leftover⟩ _ => ?_
    exact Prog.sat_yieldIf .refl fun s₆ _ => hlocked _

theorem runCalls_locked (cs : List (Call (Label κ W))) (s : World κ W) :
    Locked s (runCalls (body d) cs s) :=
  runCalls_sat (P := fun _ => True) Locked.refl Locked.trans (fun l _ s => body_locked l s)
    (callsAll_true cs)

/-- A fallback that is called directly logs all that was left of its order
before, and no other fallback. -/
theorem exec_executeFallback {s s' : World κ W} {order : SignedOrder} {router : Address}
    {routeOk : Bool} {minAmountOut : Nat} {turns : List (List (Call (Label κ W)))}
    (h : exec (body d) (.mk (.executeFallback order router routeOk minAmountOut) turns) s
      = .ok s') :
    0 < unfilled d s order.info ∧ ∃ amountOut, ∀ k, fallbacksOf k s'
      = if d.hashOrder order.info = k then (unfilled d s order.info, amountOut) :: fallbacksOf k s
        else fallbacksOf k s := by
  rw [exec] at h
  refine resume_ensures (R := Locked) (Q := fun s' => 0 < unfilled d s order.info ∧
    ∃ amountOut, ∀ k, fallbacksOf k s' = if d.hashOrder order.info = k
      then (unfilled d s order.info, amountOut) :: fallbacksOf k s
      else fallbacksOf k s) Locked.refl runCalls_locked ?_ h
  refine Prog.ensures_attempt fun ⟨s₁, o, inBalBefore⟩ hopen => ?_
  have hopened := fallbackOpen_spec hopen
  have hentered : s₁.fallback.entered = true := by rw [hopened.fallback]
  refine Prog.ensures_yieldIf .refl fun s₂ h₂ => ?_
  refine Prog.ensures_attempt fun ⟨s₃, balBefore⟩ happrove => ?_
  obtain ⟨-, -, hs₃⟩ := fallbackApprove_spec happrove
  have h₃ : Locked s₂ s₃ := .ofSame (by rw [hs₃])
  intro s₄ h₄
  refine Prog.ensures_attempt fun ⟨s₅, amountOut, leftover⟩ hsettle => ?_
  have h₅ : Locked s₄ s₅ := .ofSame (fallbackSettle_spec hsettle).fallback
  refine Prog.ensures_yieldIf .refl fun s₆ h₆ => ?_
  have hrem : o.rem = unfilled d s order.info := hopened.guards.rem_eq
  refine ⟨hrem ▸ hopened.guards.rem_pos, amountOut, fun k => ?_⟩
  obtain ⟨-, hsame⟩ := (h₂.trans (h₃.trans (h₄.trans (h₅.trans h₆)))) hentered
  have hbefore : fallbacksOf k s₁ = fallbacksOf k s := by
    rw [fallbacksOf, hopened.fallback]
    rfl
  rw [fallbacksOf_fallbackClose, hrem, hsame k, hbefore]

/-! ## The logs grow -/

/-- What was logged stays. -/
def LogsGrow (s s' : World κ W) : Prop :=
  s.reactor.events <:+ s'.reactor.events ∧ s.fallback.events <:+ s'.fallback.events

omit [DecidableEq κ] in
theorem LogsGrow.ofSame {s s' : World κ W} (hreactor : s'.reactor.events = s.reactor.events)
    (hfallback : s'.fallback.events = s.fallback.events) : LogsGrow s s' :=
  ⟨by rw [hreactor], by rw [hfallback]⟩

theorem segment_logsGrow {s s' : World κ W} (h : Segment d s s') : LogsGrow s s' := by
  cases h with
  | register msgSender msgValue order fillAmount h =>
      obtain ⟨auction, -, -, -, rfl⟩ := register_spec h
      exact .ofSame rfl rfl
  | chunkOpen msgSender order fillAmount c h =>
      have hopened := chunkOpen_spec h
      obtain ⟨cursor, -, hreactor⟩ := hopened.quoted
      exact .ofSame (by rw [hreactor]; rfl) (by rw [hopened.fallback])
  | chunkPay msgSender info c balBefore h =>
      obtain ⟨-, -, hs'⟩ := chunkPay_spec h
      rw [hs']
      exact .ofSame rfl rfl
  | chunkClose msgSender info fillAmount c balBefore h =>
      obtain ⟨received, hclosed⟩ := chunkClose_spec h
      refine ⟨?_, by rw [hclosed.fallback]⟩
      rw [hclosed.reactor]
      exact List.suffix_cons _ _
  | fallbackOpen order router o inBalBefore h =>
      have hopened := fallbackOpen_spec h
      exact .ofSame (by rw [hopened.reactor]) (by rw [hopened.fallback])
  | fallbackApprove info o balBefore h =>
      obtain ⟨-, -, hs'⟩ := fallbackApprove_spec h
      rw [hs']
      exact .ofSame rfl rfl
  | fallbackSettle info o inBalBefore balBefore routeOk minAmountOut amountOut leftover h =>
      have hsettled := fallbackSettle_spec h
      exact .ofSame (by rw [hsettled.reactor]) (by rw [hsettled.fallback])
  | fallbackClose info o amountOut => exact ⟨List.suffix_rfl, List.suffix_cons _ _⟩
  | cancelOrder msgSender info h =>
      rw [cancelOrder_spec h]
      exact ⟨List.suffix_cons _ _, List.suffix_rfl⟩
  | invalidateNonce msgSender nonce => exact ⟨List.suffix_cons _ _, List.suffix_rfl⟩
  | slash msgSender orderHash filler h =>
      obtain ⟨auction, -, rfl⟩ := onAuction_spec h
      exact .ofSame rfl rfl
  | releaseRegistration orderHash filler h =>
      obtain ⟨auction, -, rfl⟩ := onAuction_spec h
      exact .ofSame rfl rfl
  | withdrawSend msgSender to_ h =>
      obtain ⟨auction, -, rfl⟩ := onAuction_spec h
      exact .ofSame rfl rfl
  | withdrawReturn accepted h =>
      obtain ⟨auction, -, rfl⟩ := onAuction_spec h
      exact .ofSame rfl rfl
  | auctionOp op h =>
      obtain ⟨auction, -, rfl⟩ := onAuction_spec h
      exact .ofSame rfl rfl
  | setRouterAllowed msgSender router approveTarget allowed h =>
      obtain ⟨fallback, -, hevents, rfl⟩ := setRouterAllowed_spec h
      refine ⟨List.suffix_rfl, ?_⟩
      rw [hevents]
      exact List.suffix_cons _ _
  | tokens f => exact .ofSame rfl rfl
  | elapse t => exact .ofSame rfl rfl

theorem segments_logsGrow {s s' : World κ W} (h : Segments d s s') : LogsGrow s s' := by
  induction h with
  | refl => exact .ofSame rfl rfl
  | tail _ hseg ih =>
      obtain ⟨hreactor, hfallback⟩ := segment_logsGrow hseg
      exact ⟨ih.1.trans hreactor, ih.2.trans hfallback⟩

end System

end NeutronX
