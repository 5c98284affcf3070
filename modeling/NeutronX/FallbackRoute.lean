import NeutronX.ChunkCalls
import NeutronX.FillsLedger

/-!
# The dry run of a fallback

Before the watcher executes a fallback the backend can show what a route
must deliver for it: the larger of two floors, one pro rata to what is
left, one on what the order is still owed, which it takes from the table
of fills. On chain the floors are checked one after the other, by two
contracts, after the route was called.

As long as something of an order is left no fallback of it was executed
(`Ending`), so what it was paid is what its chunks logged. And while a
fallback runs nobody adds to that (`Held`), so the floors the route meets
are those of the dry run. Only the sum of what was paid has to fit a word,
which the dry run does not look at.
-/

namespace NeutronX

open Evm Function

namespace FallbackWatcher

/-! ## The dry run -/

structure FallbackCheckResult where
  remainingInput : Nat
  minOutputTotal : Nat
  paidSoFar : Nat
  proRataFloor : Nat
  remainingOutputOwed : Nat
  requiredMinOutput : Nat
deriving DecidableEq

/-- `checkFallbackRoute` up to the quotes, for an order with `rem` left on
chain. -/
def checkFallbackRoute {κ : Type} [DecidableEq κ] (db : EventIndexer.Database κ) (orderHash : κ)
    (order : OrderInfo) (rem : Nat) : FallbackCheckResult :=
  let minOutputTotal : Nat := order.minOutputAmount
  let inputAmount : Nat := order.inputAmount
  let proRataFloor := minOutputTotal * rem / inputAmount
  let paidSoFar := db.totalOutput orderHash
  let remainingOutputOwed := if minOutputTotal ≤ paidSoFar then 0 else minOutputTotal - paidSoFar
  let requiredMinOutput :=
    if remainingOutputOwed < proRataFloor then proRataFloor else remainingOutputOwed
  if rem = 0 then ⟨0, minOutputTotal, paidSoFar, 0, remainingOutputOwed, 0⟩
  else ⟨rem, minOutputTotal, paidSoFar, proRataFloor, remainingOutputOwed, requiredMinOutput⟩

/-- Of the two floors the larger is required. -/
theorem requiredMinOutput_le_iff {κ : Type} [DecidableEq κ] (db : EventIndexer.Database κ)
    (orderHash : κ) (order : OrderInfo) {rem : Nat} (hrem : 0 < rem) (amountOut : Nat) :
    (checkFallbackRoute db orderHash order rem).requiredMinOutput ≤ amountOut ↔
      order.minOutputAmount * rem / order.inputAmount ≤ amountOut ∧
      order.minOutputAmount ≤ db.totalOutput orderHash + amountOut := by
  unfold checkFallbackRoute
  rw [if_neg (Nat.ne_of_gt hrem)]
  dsimp only
  generalize (order.minOutputAmount : Nat) * rem / order.inputAmount = floor
  by_cases hpaid : (order.minOutputAmount : Nat) ≤ db.totalOutput orderHash
  · rw [if_pos hpaid]
    split <;> omega
  · rw [if_neg hpaid]
    split <;> omega

end FallbackWatcher

namespace System

open PartialFillReactor (OpenChunk)
open FallbackExecutor (OpenFallback)

variable {κ W : Type} [DecidableEq κ] {d : Deployment κ W}

/-! ## The gates -/

/-- The two checks of `executeFallback` on what the route delivered: its own
floor, and the reactor's. -/
def fallbackGates (d : Deployment κ W) (s : World κ W) (info : OrderInfo) (rem amountOut : Nat) :
    Except Revert (ReactorState κ) := do
  let signedFloor ← mulDiv info.minOutputAmount rem info.inputAmount
  require (signedFloor ≤ amountOut) "below signed min output"
  PartialFillReactor.recordFallbackOutput s.reactor d.fallback (d.hashOrder info) amountOut
    info.minOutputAmount

/-- They are what stands between the route and the end of the fallback. -/
theorem fallbackSettle_gates {s : World κ W} {info : OrderInfo} {o : OpenFallback}
    {inBalBefore balBefore minAmountOut amountOut : Nat}
    (hmeasured : checkedSub (d.balanceOf s.tokens info.outputToken info.swapper) balBefore
      = .ok amountOut) (hmin : minAmountOut ≤ amountOut) :
    fallbackSettle d s info o inBalBefore balBefore true minAmountOut = (do
      let reactor ← fallbackGates d s info o.rem amountOut
      let tokens ← d.forceApprove s.tokens d.fallback info.inputToken o.approveTarget 0
      let leftover ← checkedSub (d.balanceOf tokens info.inputToken d.fallback) inBalBefore
      let tokens ← refundLeftover d tokens info leftover
      return ({ s with
        reactor, tokens
        measuring := none
        trace := .outputCredited info o.rem amountOut none :: s.trace }, amountOut, leftover)) := by
  have hok : ∀ msg, require (minAmountOut ≤ amountOut) msg = .ok () := fun _ => if_pos hmin
  unfold fallbackSettle fallbackGates
  rw [hmeasured]
  cases mulDiv info.minOutputAmount o.rem info.inputAmount with
  | error e => rfl
  | ok signedFloor =>
    cases hfloor : require (signedFloor ≤ amountOut) "below signed min output" with
    | error e =>
      simp only [bind, Except.bind, hok, hfloor]
      rfl
    | ok _ =>
      simp only [bind, Except.bind, hok, hfloor]
      rfl

/-! ## An order with something left -/

/-- A fallback of the order is logged only when nothing is left of it. -/
structure Ending (d : Deployment κ W) (info : OrderInfo) (s s' : World κ W) : Prop where
  unfilled : unfilled d s' info ≤ unfilled d s info
  logged : fallbacksOf (d.hashOrder info) s' = fallbacksOf (d.hashOrder info) s ∨
    System.unfilled d s' info = 0

theorem Ending.refl (info : OrderInfo) (s : World κ W) : Ending d info s s :=
  ⟨Nat.le_refl _, .inl rfl⟩

theorem Ending.trans {info : OrderInfo} {a b c : World κ W} (h : Ending d info a b)
    (h' : Ending d info b c) : Ending d info a c := by
  refine ⟨Nat.le_trans h'.unfilled h.unfilled, ?_⟩
  rcases h'.logged with hsame | hnone
  · rcases h.logged with hsame' | hnone
    · exact .inl (hsame.trans hsame')
    · have hle := h'.unfilled
      exact .inr (by omega)
  · exact .inr hnone

theorem Ending.ofUnlogged {info : OrderInfo} {s s' : World κ W} (h : Unlogged s s') :
    Ending d info s s' :=
  ⟨Nat.le_of_eq (unfilled_eq_of_remaining h.remaining info), .inl (h.fallbacks _)⟩

theorem Ending.ofSame {info : OrderInfo} {s s' : World κ W}
    (hreactor : s'.reactor.remaining = s.reactor.remaining)
    (hfallback : s'.fallback.events = s.fallback.events) : Ending d info s s' := by
  refine ⟨Nat.le_of_eq (unfilled_eq_of_remaining hreactor info), .inl ?_⟩
  rw [fallbacksOf, fallbacksOf, hfallback]

theorem ChunkOpened.ending {s s' : World κ W} {msgSender : Account} {order : SignedOrder}
    {fillAmount : Nat} {c : OpenChunk} (h : ChunkOpened d s msgSender order fillAmount s' c)
    (info : OrderInfo) : Ending d info s s' := by
  refine ⟨?_, .inl (by rw [fallbacksOf, fallbacksOf, h.fallback])⟩
  rw [h.unfilled_eq info]
  split <;> omega

theorem FallbackOpened.ending {s s' : World κ W} {order : SignedOrder} {o : OpenFallback}
    (h : FallbackOpened d s order s' o) (info : OrderInfo) : Ending d info s s' := by
  refine ⟨?_, .inl (by rw [fallbacksOf, fallbacksOf, h.fallback])⟩
  rw [h.unfilled_eq info]
  split <;> omega

/-- When a fallback is logged its order's input was pulled, as it opened. -/
theorem FallbackOpened.ending_close {s s₁ s' : World κ W} {order : SignedOrder} {o : OpenFallback}
    (h : FallbackOpened d s order s₁ o) {info : OrderInfo} (hrest : Ending d info s₁ s')
    (amountOut : Nat) : Ending d info s (fallbackClose d s' order.info o amountOut) := by
  refine ((h.ending info).trans hrest).trans ⟨Nat.le_refl _, ?_⟩
  by_cases heq : info = order.info
  · have hunfilled := h.unfilled_eq info
    rw [if_pos heq] at hunfilled
    have hnone : System.unfilled d s' info = 0 := Nat.le_zero.mp (hunfilled ▸ hrest.unfilled)
    exact .inr hnone
  · rw [fallbacksOf_fallbackClose, if_neg (d.hash_injective.ne (Ne.symm heq))]
    exact .inl rfl

theorem body_ending (info : OrderInfo) (l : Label κ W) (s : World κ W) :
    (body d l s).Sat (Ending d info) s := by
  refine body_sat_of_unlogged (R := Ending d info) .trans .ofUnlogged l s
    (fun f _ => .ofSame rfl rfl) ?_ ?_
  · intro msgSender order fillAmount _ data
    refine Prog.sat_attempt fun ⟨s₁, c⟩ hopen => ?_
    have h₁ := (chunkOpen_spec hopen).ending info
    refine Prog.sat_yieldIf (.refl info) fun s₂ h₂ => ?_
    refine Prog.sat_yieldIf (.refl info) fun s₃ h₃ => ?_
    refine Prog.sat_attempt fun ⟨s₄, balBefore⟩ hpay => ?_
    obtain ⟨-, -, hs₄⟩ := chunkPay_spec hpay
    have h₄ : Ending d info s₃ s₄ := .ofSame (by rw [hs₄]) (by rw [hs₄])
    refine Prog.sat_yieldIf (.refl info) fun s₅ h₅ => ?_
    refine Prog.sat_attempt fun s₆ hclose => ?_
    obtain ⟨received, hclosed⟩ := chunkClose_spec hclose
    have h₆ : Ending d info s₅ s₆ := .ofSame (by rw [hclosed.reactor]) (by rw [hclosed.fallback])
    exact h₁.trans (h₂.trans (h₃.trans (h₄.trans (h₅.trans h₆))))
  · intro order router routeOk minAmountOut _
    refine Prog.sat_attempt fun ⟨s₁, o, inBalBefore⟩ hopen => ?_
    refine Prog.sat_yieldIf (.refl info) fun s₂ h₂ => ?_
    refine Prog.sat_attempt fun ⟨s₃, balBefore⟩ happrove => ?_
    obtain ⟨-, -, hs₃⟩ := fallbackApprove_spec happrove
    have h₃ : Ending d info s₂ s₃ := .ofSame (by rw [hs₃]) (by rw [hs₃])
    intro s₄ h₄
    refine Prog.sat_attempt fun ⟨s₅, amountOut, leftover⟩ hsettle => ?_
    have hsettled := fallbackSettle_spec hsettle
    have h₅ : Ending d info s₄ s₅ :=
      .ofSame (by rw [hsettled.reactor]) (by rw [hsettled.fallback])
    refine Prog.sat_yieldIf (.refl info) fun s₆ h₆ => ?_
    exact (fallbackOpen_spec hopen).ending_close
      (h₂.trans (h₃.trans (h₄.trans (h₅.trans h₆)))) amountOut

/-- No fallback was executed of an order with something left. -/
theorem Reachable.fallbacksOf_nil {s : World κ W} (h : Reachable d s) {info : OrderInfo}
    (hleft : 0 < unfilled d s info) : fallbacksOf (d.hashOrder info) s = [] := by
  obtain ⟨tokens, block, txs, rfl⟩ := h
  have hending : Ending d info (deployed d tokens block)
      (System.run d txs (deployed d tokens block)) :=
    runTxs_sat (P := fun _ => True) (.refl info) .trans (fun l _ s => body_ending info l s)
      (fun t s => (.ofSame rfl rfl : Ending d info s (elapse t s))) _ fun tx _ => tx.all_true
  rcases hending.logged with hsame | hnone
  · exact hsame
  · omega

/-! ## While a fallback runs -/

/-- Nobody adds to what an order was paid while its fallback runs. -/
def Held (k : κ) (s s' : World κ W) : Prop :=
  s.fallback.entered = true → s.reactor.fallbackInitiated k = true →
    s'.fallback.entered = true ∧ s'.reactor.fallbackInitiated k = true ∧
    s'.reactor.paidOutput k = s.reactor.paidOutput k

omit [DecidableEq κ] in
theorem Held.refl (k : κ) (s : World κ W) : Held k s s := fun h h' => ⟨h, h', rfl⟩

omit [DecidableEq κ] in
theorem Held.trans {k : κ} {a b c : World κ W} (h : Held k a b) (h' : Held k b c) :
    Held k a c := by
  intro hentered hmarked
  obtain ⟨hentered', hmarked', hpaid⟩ := h hentered hmarked
  obtain ⟨hentered'', hmarked'', hpaid'⟩ := h' hentered' hmarked'
  exact ⟨hentered'', hmarked'', hpaid'.trans hpaid⟩

omit [DecidableEq κ] in
theorem Held.ofSame {k : κ} {s s' : World κ W} (hfallback : s'.fallback = s.fallback)
    (hmarked : s'.reactor.fallbackInitiated = s.reactor.fallbackInitiated)
    (hpaid : s'.reactor.paidOutput k = s.reactor.paidOutput k) : Held k s s' := by
  intro hentered hinitiated
  exact ⟨by rw [hfallback]; exact hentered, by rw [hmarked]; exact hinitiated, hpaid⟩

theorem body_held (k : κ) (l : Label κ W) (s : World κ W) : (body d l s).Sat (Held k) s := by
  refine body_sat_of_unlogged (R := Held k) .trans (fun h hentered hmarked => ?_) l s
    (fun f _ => .ofSame rfl rfl rfl) ?_ ?_
  · exact ⟨h.guarded.trans hentered, by rw [h.fallbackInitiated]; exact hmarked,
      by rw [h.paidOutput]⟩
  · intro msgSender order fillAmount _ data
    refine Prog.sat_attempt fun ⟨s₁, c⟩ hopen => ?_
    have hopened := chunkOpen_spec hopen
    by_cases hhash : d.hashOrder order.info = k
    · -- a chunk of this order does not open any more
      have hnever : ∀ s', Held k s s' := by
        intro s' _ hmarked
        rw [← hhash, hopened.guards.noFallback] at hmarked
        cases hmarked
      refine Prog.sat_yieldIf (.refl k) fun s₂ _ => ?_
      refine Prog.sat_yieldIf (.refl k) fun s₃ _ => ?_
      refine Prog.sat_attempt fun ⟨s₄, balBefore⟩ _ => ?_
      refine Prog.sat_yieldIf (.refl k) fun s₅ _ => ?_
      exact Prog.sat_attempt fun s₆ _ => hnever s₆
    · obtain ⟨cursor, -, hreactor⟩ := hopened.quoted
      have h₁ : Held k s s₁ :=
        .ofSame hopened.fallback (by rw [hreactor]; rfl) (by rw [hreactor]; rfl)
      refine Prog.sat_yieldIf (.refl k) fun s₂ h₂ => ?_
      refine Prog.sat_yieldIf (.refl k) fun s₃ h₃ => ?_
      refine Prog.sat_attempt fun ⟨s₄, balBefore⟩ hpay => ?_
      obtain ⟨-, -, hs₄⟩ := chunkPay_spec hpay
      have h₄ : Held k s₃ s₄ := .ofSame (by rw [hs₄]) (by rw [hs₄]) (by rw [hs₄])
      refine Prog.sat_yieldIf (.refl k) fun s₅ h₅ => ?_
      refine Prog.sat_attempt fun s₆ hclose => ?_
      obtain ⟨received, hclosed⟩ := chunkClose_spec hclose
      have h₆ : Held k s₅ s₆ := by
        refine .ofSame hclosed.fallback (by rw [hclosed.reactor]) ?_
        rw [hclosed.reactor]
        exact update_of_ne (Ne.symm hhash) ..
      exact h₁.trans (h₂.trans (h₃.trans (h₄.trans (h₅.trans h₆))))
  · intro order router routeOk minAmountOut _
    refine Prog.sat_attempt fun ⟨s₁, o, inBalBefore⟩ hopen => ?_
    have hfree := (fallbackOpen_spec hopen).guards.notEntered
    have hnever : ∀ s', Held k s s' := by
      intro s' hentered
      rw [hfree] at hentered
      cases hentered
    refine Prog.sat_yieldIf (.refl k) fun s₂ _ => ?_
    refine Prog.sat_attempt fun ⟨s₃, balBefore⟩ _ => ?_
    intro s₄ _
    refine Prog.sat_attempt fun ⟨s₅, amountOut, leftover⟩ _ => ?_
    exact Prog.sat_yieldIf (.refl k) fun s₆ _ => hnever _

theorem runCalls_held (k : κ) (cs : List (Call (Label κ W))) (s : World κ W) :
    Held k s (runCalls (body d) cs s) :=
  runCalls_sat (P := fun _ => True) (Held.refl k) Held.trans (fun l _ s => body_held k l s)
    (callsAll_true cs)

/-- The reactor's fallback executor is the one it was deployed with. -/
theorem Visited.fallbackExecutor {s : World κ W} (h : Visited d s) :
    s.reactor.fallbackExecutor = d.fallback := by
  refine h.invariant (I := fun s => s.reactor.fallbackExecutor = d.fallback)
    (fun _ _ => rfl) fun {s s'} _ hs hseg => ?_
  cases hseg with
  | register msgSender msgValue order fillAmount h =>
      obtain ⟨auction, -, -, -, rfl⟩ := register_spec h
      exact hs
  | chunkOpen msgSender order fillAmount c h =>
      obtain ⟨cursor, -, hreactor⟩ := (chunkOpen_spec h).quoted
      rw [hreactor]
      exact hs
  | chunkPay msgSender info c balBefore h =>
      obtain ⟨-, -, hs'⟩ := chunkPay_spec h
      rw [hs']
      exact hs
  | chunkClose msgSender info fillAmount c balBefore h =>
      obtain ⟨received, hclosed⟩ := chunkClose_spec h
      rw [hclosed.reactor]
      exact hs
  | fallbackOpen order router o inBalBefore h =>
      rw [(fallbackOpen_spec h).reactor]
      exact hs
  | fallbackApprove info o balBefore h =>
      obtain ⟨-, -, hs'⟩ := fallbackApprove_spec h
      rw [hs']
      exact hs
  | fallbackSettle info o inBalBefore balBefore routeOk minAmountOut amountOut leftover h =>
      rw [(fallbackSettle_spec h).reactor]
      exact hs
  | fallbackClose info o amountOut => exact hs
  | cancelOrder msgSender info h =>
      rw [cancelOrder_spec h]
      exact hs
  | invalidateNonce msgSender nonce => exact hs
  | slash msgSender orderHash filler h =>
      obtain ⟨auction, -, rfl⟩ := onAuction_spec h
      exact hs
  | releaseRegistration orderHash filler h =>
      obtain ⟨auction, -, rfl⟩ := onAuction_spec h
      exact hs
  | withdrawSend msgSender to_ h =>
      obtain ⟨auction, -, rfl⟩ := onAuction_spec h
      exact hs
  | withdrawReturn accepted h =>
      obtain ⟨auction, -, rfl⟩ := onAuction_spec h
      exact hs
  | auctionOp op h =>
      obtain ⟨auction, -, rfl⟩ := onAuction_spec h
      exact hs
  | setRouterAllowed msgSender router approveTarget allowed h =>
      obtain ⟨fallback, -, -, rfl⟩ := setRouterAllowed_spec h
      exact hs
  | tokens f => exact hs
  | elapse t => exact hs

/-! ## The dry run is exact -/

theorem fallbackGates_iff {s : World κ W} (hexecutor : s.reactor.fallbackExecutor = d.fallback)
    {info : OrderInfo} {rem : Nat} (hpos : 0 < rem) (hrem : rem ≤ info.inputAmount)
    (amountOut : Nat) :
    (∃ reactor, fallbackGates d s info rem amountOut = .ok reactor) ↔
      info.minOutputAmount * rem / info.inputAmount ≤ amountOut ∧
      paid d s info + amountOut < wordSize ∧
      info.minOutputAmount ≤ paid d s info + amountOut := by
  have hinput : (info.inputAmount : Nat) ≠ 0 := by omega
  have hfits : (info.minOutputAmount : Nat) * rem / info.inputAmount < wordSize :=
    Nat.lt_of_le_of_lt (mul_div_le_left hrem) info.minOutputAmount.isLt
  simp only [fallbackGates, PartialFillReactor.recordFallbackOutput, bind_eq_ok, mulDiv_eq_ok,
    require_eq_ok, checkedAdd_eq_ok, pure_eq_ok]
  constructor
  · rintro ⟨_, _, ⟨-, rfl⟩, _, hfloor, _, -, _, ⟨hsum, rfl⟩, _, htotal, -⟩
    exact ⟨hfloor, hsum, htotal⟩
  · rintro ⟨hfloor, hsum, htotal⟩
    exact ⟨_, _, ⟨⟨hinput, hfits⟩, rfl⟩, (), hfloor, (), hexecutor.symm, _, ⟨hsum, rfl⟩, (),
      htotal, rfl⟩

/-- **The dry run is exact, up to overflow.** For an order with something
left, and its chunks in the table, what a route delivers passes both gates
if and only if it is at least what the dry run requires, and what the order
was paid stays within a word. In a fallback that starts here, whatever is
called meanwhile, the route meets the same gates. -/
theorem fallbackCheck_exact {s : World κ W} (h : Reachable d s) {info : OrderInfo}
    (hleft : 0 < unfilled d s info) {db : EventIndexer.Database κ}
    (hrows : ((db.fillsOf (d.hashOrder info)).map fun r => (r.fillAmount, r.outputAmount)).Perm
      (chunksOf (d.hashOrder info) s)) (amountOut : Nat) :
    ((∃ reactor, fallbackGates d s info (unfilled d s info) amountOut = .ok reactor) ↔
      (FallbackWatcher.checkFallbackRoute db (d.hashOrder info) info
        (unfilled d s info)).requiredMinOutput ≤ amountOut ∧
      db.totalOutput (d.hashOrder info) + amountOut < wordSize) ∧
    ∀ sig router s₁ o inBalBefore cs s₃ balBefore cs',
      fallbackOpen d s ⟨info, sig⟩ router = .ok (s₁, o, inBalBefore) →
      fallbackApprove d (runCalls (body d) cs s₁) info o = .ok (s₃, balBefore) →
      ((∃ reactor, fallbackGates d (runCalls (body d) cs' s₃) info o.rem amountOut = .ok reactor) ↔
        ∃ reactor, fallbackGates d s info (unfilled d s info) amountOut = .ok reactor) := by
  obtain ⟨-, houtput⟩ := h.ledgered info
  have hle := (h.visited.inputLaw info).unfilled_le
  have hpaid : db.totalOutput (d.hashOrder info) = paid d s info := by
    rw [← houtput, loggedOutput, h.fallbacksOf_nil hleft]
    have hsum := (hrows.map Prod.snd).sum_eq
    rw [List.map_map] at hsum
    exact hsum
  have hgates := fallbackGates_iff h.visited.fallbackExecutor hleft hle amountOut
  constructor
  · rw [hgates, FallbackWatcher.requiredMinOutput_le_iff db _ info hleft, hpaid]
    constructor
    · rintro ⟨hfloor, hsum, htotal⟩
      exact ⟨⟨hfloor, htotal⟩, hsum⟩
    · rintro ⟨⟨hfloor, htotal⟩, hsum⟩
      exact ⟨hfloor, hsum, htotal⟩
  · intro sig router s₁ o inBalBefore cs s₃ balBefore cs' hopen happrove
    have hopened := fallbackOpen_spec hopen
    have hrem : o.rem = unfilled d s info := hopened.guards.rem_eq
    obtain ⟨-, -, hs₃⟩ := fallbackApprove_spec happrove
    have hheld : Held (d.hashOrder info) s₁ (runCalls (body d) cs' s₃) := by
      have hsame : Held (d.hashOrder info) (runCalls (body d) cs s₁) s₃ := by
        rw [hs₃]
        exact .ofSame rfl rfl rfl
      exact (runCalls_held _ cs s₁).trans (hsame.trans (runCalls_held _ cs' s₃))
    obtain ⟨-, -, hsame⟩ := hheld (by rw [hopened.fallback])
      (by rw [hopened.reactor]; exact update_self ..)
    have hpaid' : paid d (runCalls (body d) cs' s₃) info = paid d s info := by
      rw [paid, hsame, hopened.reactor]
      rfl
    have hsegments : Segments d s (runCalls (body d) cs' s₃) := by
      have h₁ : Segments d s s₁ := .single (.fallbackOpen ⟨info, sig⟩ router o inBalBefore hopen)
      have h₃ : Segments d (runCalls (body d) cs s₁) s₃ :=
        .single (.fallbackApprove info o balBefore happrove)
      exact h₁.trans ((runCalls_segments cs s₁).trans (h₃.trans (runCalls_segments cs' s₃)))
    rw [hgates, hrem, fallbackGates_iff (h.visited.segments hsegments).fallbackExecutor hleft hle,
      hpaid']

section Runs

open FallbackWatcher (orderOf1000 filler7 balances)

/-- The filler 7 takes 400 of 1000 for 400, which the swapper spends. -/
def chunkOf400 : List (Tx (Label OrderInfo Ledger) Elapse) :=
  [.call (.leaf (.register filler7 80 ⟨orderOf1000, [1]⟩ 400)), .tick ⟨2, 0⟩,
   .call (.leaf (.executePartialChunk filler7 ⟨orderOf1000, [1]⟩ 400)), .tick ⟨85, 0⟩,
   .call (.leaf (.tokens fun w => update₂ w 3 1 0))]

def afterChunk : World OrderInfo Ledger :=
  run Ledger.deployment chunkOf400 (deployed Ledger.deployment balances ⟨10, 0⟩)

/-- The table with the row of the chunk. -/
def chunkRow : EventIndexer.Database OrderInfo :=
  { orders := fun _ => none
    fills := [⟨⟨2, 0⟩, orderOf1000, 7, 400, 400, 12, .filler, none⟩]
    ticks := [] }

/-- Of the 600 that are left 540 are owed pro rata, more than the 500 that
the order still misses. -/
theorem fallbackCheck_exact_after_chunk :
    ((∃ reactor, fallbackGates Ledger.deployment afterChunk orderOf1000 600 539 = .ok reactor) ↔
      540 ≤ 539 ∧ 400 + 539 < wordSize) ∧
    ((∃ reactor, fallbackGates Ledger.deployment afterChunk orderOf1000 600 540 = .ok reactor) ↔
      540 ≤ 540 ∧ 400 + 540 < wordSize) := by
  have hreachable : Reachable Ledger.deployment afterChunk := ⟨_, _, _, rfl⟩
  have hunfilled : unfilled Ledger.deployment afterChunk orderOf1000 = 600 := by decide +kernel
  have hrows : ((chunkRow.fillsOf orderOf1000).map fun r => (r.fillAmount, r.outputAmount)).Perm
      (chunksOf orderOf1000 afterChunk) := by
    decide +kernel
  have hrequired : (FallbackWatcher.checkFallbackRoute chunkRow orderOf1000 orderOf1000
      600).requiredMinOutput = 540 := by
    decide +kernel
  have hpaid : chunkRow.totalOutput orderOf1000 = 400 := by decide +kernel
  have hleft : 0 < unfilled Ledger.deployment afterChunk orderOf1000 := by
    rw [hunfilled]
    decide
  have hexact := fun amountOut => (fallbackCheck_exact hreachable hleft hrows amountOut).1
  have hhash : Ledger.deployment.hashOrder orderOf1000 = orderOf1000 := rfl
  rw [hunfilled, hhash, hpaid, hrequired] at hexact
  exact ⟨hexact 539, hexact 540⟩

/-- A route that delivers a word less one is above the dry run's minimum,
and yet the sum of what was paid overflows and the fallback reverts. -/
theorem fallback_overflows :
    Reachable Ledger.deployment afterChunk ∧
    unfilled Ledger.deployment afterChunk orderOf1000 = 600 ∧
    ((chunkRow.fillsOf orderOf1000).map fun r => (r.fillAmount, r.outputAmount)).Perm
      (chunksOf orderOf1000 afterChunk) ∧
    (FallbackWatcher.checkFallbackRoute chunkRow orderOf1000 orderOf1000
      600).requiredMinOutput ≤ wordSize - 1 ∧
    ¬(∃ reactor, fallbackGates Ledger.deployment afterChunk orderOf1000 600 (wordSize - 1)
      = .ok reactor) ∧
    unfilled Ledger.deployment (run Ledger.deployment
      [.call (.mk (.executeFallback ⟨orderOf1000, [1]⟩ 106 true 0)
        [[.leaf (.tokens fun w => update₂ w 3 1 (wordSize - 1))]])] afterChunk) orderOf1000
      = 600 := by
  refine ⟨⟨_, _, _, rfl⟩, by decide +kernel, by decide +kernel, by decide +kernel, ?_,
    by decide +kernel⟩
  rintro ⟨reactor, hgates⟩
  have herror : (fallbackGates Ledger.deployment afterChunk orderOf1000 600
      (wordSize - 1)).toBool = false := by
    decide +kernel
  rw [hgates] at herror
  cases herror

end Runs

end System

end NeutronX
