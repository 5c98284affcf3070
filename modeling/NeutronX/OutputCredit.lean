import NeutronX.Ledger
import NeutronX.SystemProgress

/-!
# Output is credited once

A chunk credits what its own transfer added to the swapper's balance. The
fallback credits what the balance gained over the router's call, and the
guard it holds meanwhile is not the reactor's: a chunk of another order of
the swapper can be paid inside the router's call, and is then credited
both to its own order and to the order of the fallback.

`nested` adds up the output credited under such a measurement. In every
run in which the swapper does not spend, what is credited is at most what
the balance gained and `nested` together (`Credits.backed`); without
nested credits no unit is credited twice.
-/

namespace NeutronX

open Evm Function

namespace System

open PartialFillReactor (OpenChunk)
open FallbackExecutor (OpenFallback)

variable {κ W : Type} [DecidableEq κ] {d : Deployment κ W}

/-! ## What is credited to a swapper -/

/-- Orders of `w` for output in token `T`. -/
def PaysTo (w T : Address) (info : OrderInfo) : Prop := info.swapper = w ∧ info.outputToken = T

instance (w T : Address) (info : OrderInfo) : Decidable (PaysTo w T info) :=
  inferInstanceAs (Decidable (_ ∧ _))

/-- The output credited to orders, by the order and by what a fallback was
measuring at the time. -/
def creditedWhere (p : OrderInfo → Option (Address × Address) → Bool) : List TraceEvent → Nat
  | [] => 0
  | .outputCredited info _ amount during :: es =>
      (if p info during then amount else 0) + creditedWhere p es
  | .orderVerified _ _ :: es => creditedWhere p es
  | .inputPulled _ _ _ _ :: es => creditedWhere p es

/-- The output credited to the orders of `w` in token `T`. -/
def credited (w T : Address) : List TraceEvent → Nat :=
  creditedWhere fun info _ => decide (PaysTo w T info)

/-- The part of it credited while a fallback was measuring the balance of
`w` in `T` itself. -/
def nested (w T : Address) : List TraceEvent → Nat :=
  creditedWhere fun info during => decide (PaysTo w T info ∧ during = some (w, T))

theorem creditedWhere_append (p : OrderInfo → Option (Address × Address) → Bool)
    (es' : List TraceEvent) :
    ∀ es, creditedWhere p (es ++ es') = creditedWhere p es + creditedWhere p es'
  | [] => by simp [creditedWhere]
  | .outputCredited info fill amount during :: es => by
      simp only [List.cons_append, creditedWhere, creditedWhere_append p es' es]
      omega
  | .orderVerified info sig :: es => creditedWhere_append p es' es
  | .inputPulled info to_ amount leg :: es => creditedWhere_append p es' es

/-- Only the credits that count add to what is credited. -/
theorem creditedWhere_eq_zero {p : OrderInfo → Option (Address × Address) → Bool}
    {es : List TraceEvent} (h : ∀ info fill amount during, p info during = true →
      .outputCredited info fill amount during ∉ es) : creditedWhere p es = 0 := by
  induction es with
  | nil => rfl
  | cons e es ih =>
      have hrest : creditedWhere p es = 0 := ih fun info fill amount during hp hmem =>
        h info fill amount during hp (List.mem_cons_of_mem _ hmem)
      cases e with
      | outputCredited info fill amount during =>
          have hhead : p info during = false := by
            by_contra hp
            exact h info fill amount during (by simpa using hp) (List.mem_cons_self ..)
          rw [creditedWhere, hhead, hrest]
          rfl
      | orderVerified info sig => exact hrest
      | inputPulled info to_ amount leg => exact hrest

def balance (d : Deployment κ W) (w T : Address) (s : World κ W) : Nat :=
  d.balanceOf s.tokens T w

/-- Everything credited between `s` and `s'` is in the swapper's balance. -/
def CreditsBacked (d : Deployment κ W) (w T : Address) (s s' : World κ W) : Prop :=
  credited w T s'.trace + balance d w T s ≤ credited w T s.trace + balance d w T s'

/-! ## What the swapper does not do -/

/-- The call does not spend token `T` of `w`: it is no sale of it, it does
not pay with it, and whatever else moves tokens leaves it there. -/
def Thrifty (d : Deployment κ W) (w T : Address) : Label κ W → Prop
  | .executePartialChunk msgSender order _
  | .executePartialChunkWithCallback msgSender order _ _ =>
      ¬(order.info.inputToken = T ∧ order.info.swapper = w) ∧
        ¬(order.info.outputToken = T ∧ (msgSender : Address) = w)
  | .executeFallback order _ _ _ =>
      ¬(order.info.inputToken = T ∧ (order.info.swapper = w ∨ d.fallback = w))
  | .tokens f => ∀ tokens, d.balanceOf tokens T w ≤ d.balanceOf (f tokens) T w
  | .register .. | .cancelOrder .. | .invalidateNonce .. | .slash .. | .releaseRegistration ..
  | .withdraw .. | .auctionOp .. | .setRouterAllowed .. => True

/-! ## What a call keeps -/

/-- Nothing is measured unless a fallback is open. -/
def MeasureGuarded (s : World κ W) : Prop := s.fallback.entered = false → s.measuring = none

/-- What a call does to the credits of `w` in `T`; the balance is only
followed where the swapper is `thrifty`. -/
structure Credits (d : Deployment κ W) (w T : Address) (thrifty : Prop) (s s' : World κ W) :
    Prop where
  guarded : s'.fallback.entered = s.fallback.entered
  measuring : MeasureGuarded s → s'.measuring = s.measuring
  /-- under a measurement everything is nested -/
  exposed : MeasureGuarded s → s.measuring = some (w, T) →
    credited w T s'.trace + nested w T s.trace = credited w T s.trace + nested w T s'.trace
  balance_le : thrifty → balance d w T s ≤ balance d w T s'
  backed : thrifty → MeasureGuarded s →
    credited w T s'.trace + balance d w T s + nested w T s.trace
      ≤ credited w T s.trace + balance d w T s' + nested w T s'.trace

variable {w T : Address} {thrifty : Prop}

omit [DecidableEq κ] in
theorem Credits.refl (s : World κ W) : Credits d w T thrifty s s :=
  ⟨rfl, fun _ => rfl, fun _ _ => rfl, fun _ => Nat.le_refl _, fun _ _ => Nat.le_refl _⟩

omit [DecidableEq κ] in
theorem Credits.measureGuarded {s s' : World κ W} (h : Credits d w T thrifty s s')
    (hs : MeasureGuarded s) : MeasureGuarded s' := by
  intro hopen
  rw [h.measuring hs]
  exact hs (h.guarded.symm.trans hopen)

omit [DecidableEq κ] in
theorem Credits.trans {a b c : World κ W} (h : Credits d w T thrifty a b)
    (h' : Credits d w T thrifty b c) : Credits d w T thrifty a c where
  guarded := h'.guarded.trans h.guarded
  measuring := fun ha => (h'.measuring (h.measureGuarded ha)).trans (h.measuring ha)
  exposed := fun ha hmeasured => by
    have h1 := h.exposed ha hmeasured
    have h2 := h'.exposed (h.measureGuarded ha) (by rw [h.measuring ha]; exact hmeasured)
    omega
  balance_le := fun ht => Nat.le_trans (h.balance_le ht) (h'.balance_le ht)
  backed := fun ht ha => by
    have h1 := h.backed ht ha
    have h2 := h'.backed ht (h.measureGuarded ha)
    omega

omit [DecidableEq κ] in
/-- A piece that credits nothing. -/
theorem Credits.ofSame {s s' : World κ W} (hguarded : s'.fallback.entered = s.fallback.entered)
    (hmeasuring : s'.measuring = s.measuring)
    (htrace : ∀ p, creditedWhere p s'.trace = creditedWhere p s.trace)
    (hbalance : thrifty → balance d w T s ≤ balance d w T s') : Credits d w T thrifty s s' where
  guarded := hguarded
  measuring := fun _ => hmeasuring
  exposed := fun _ _ => by rw [credited, nested, htrace, htrace]
  balance_le := hbalance
  backed := fun ht _ => by
    have hle := hbalance ht
    rw [credited, nested, htrace, htrace]
    omega

omit [DecidableEq κ] in
theorem Credits.ofAside {s s' : World κ W} (h : Aside s s') : Credits d w T thrifty s s' := by
  refine .ofSame h.guarded h.measuring (fun p => ?_) (fun _ => ?_)
  · rcases h.trace with htrace | ⟨info, sig, htrace⟩
    · rw [htrace]
    · rw [htrace, creditedWhere]
  · rw [balance, balance, h.tokens]

/-! ## Chunks -/

theorem ChunkOpened.credits {s s' : World κ W} {msgSender : Account} {order : SignedOrder}
    {fillAmount : Nat} {c : OpenChunk} (h : ChunkOpened d s msgSender order fillAmount s' c)
    (hplain : PlainToken d.toTokenCode T)
    (hsale : thrifty → ¬(order.info.inputToken = T ∧ order.info.swapper = w)) :
    Credits d w T thrifty s s' := by
  refine .ofSame (by rw [h.fallback]) h.measuring (fun p => ?_) (fun ht => ?_)
  · rw [h.trace, creditedWhere, creditedWhere_append]
    split <;> simp [creditedWhere]
  · exact hplain.permit2 h.inputLeg w (hsale ht)

omit [DecidableEq κ] in
theorem credits_chunkPay {s s' : World κ W} {msgSender : Account} {info : OrderInfo}
    {c : OpenChunk} {balBefore : Nat} (h : chunkPay d s msgSender info c = .ok (s', balBefore))
    (hplain : PlainToken d.toTokenCode T)
    (hspend : thrifty → ¬(info.outputToken = T ∧ (msgSender : Address) = w)) :
    Credits d w T thrifty s s' := by
  obtain ⟨-, hpay, hs'⟩ := chunkPay_spec h
  have hbalance : thrifty → balance d w T s ≤ balance d w T s' :=
    fun ht => hplain.transferFrom hpay w (hspend ht)
  rw [hs'] at hbalance ⊢
  exact .ofSame rfl rfl (fun _ => rfl) hbalance

/-- The close of a chunk credits what its own payment added to the balance. -/
theorem credits_chunkClose {s s₁ s₂ : World κ W} {msgSender : Account} {info : OrderInfo}
    {fillAmount balBefore received : Nat} {c : OpenChunk}
    (hpay : chunkPay d s msgSender info c = .ok (s₁, balBefore))
    (hclose : ChunkClosed d s₁ msgSender info fillAmount c balBefore s₂ received)
    (hown : PaysTo w T info) : Credits d w T thrifty s s₂ := by
  obtain ⟨rfl, rfl⟩ := hown
  obtain ⟨hbefore, -, hs₁⟩ := chunkPay_spec hpay
  have hmeasured := hclose.measured
  have htrace : s₁.trace = s.trace := by rw [hs₁]
  have hmeasuring : s₁.measuring = s.measuring := by rw [hs₁]
  have hcredited : credited info.swapper info.outputToken s₂.trace
      = received + credited info.swapper info.outputToken s.trace := by
    rw [hclose.trace, htrace, credited, creditedWhere, if_pos (by simp [PaysTo])]
  have hnested : nested info.swapper info.outputToken s₂.trace
      = (if s.measuring = some (info.swapper, info.outputToken) then received else 0)
        + nested info.swapper info.outputToken s.trace := by
    rw [hclose.trace, htrace, hmeasuring, nested, creditedWhere]
    simp [PaysTo]
  have hbalance : balance d info.swapper info.outputToken s₂
      = balance d info.swapper info.outputToken s + received := by
    rw [balance, balance, hclose.tokens, ← hbefore, hmeasured]
  refine ⟨?_, fun _ => ?_, fun _ hexposed => ?_, fun ht => ?_, fun ht _ => ?_⟩
  · rw [hclose.fallback, hs₁]
  · rw [hclose.measuring, hmeasuring]
  · rw [hcredited, hnested, if_pos hexposed]
    omega
  · omega
  · omega

/-- A close that credits somebody else, or in another token. -/
theorem ChunkClosed.credits {s s' : World κ W} {msgSender : Account} {info : OrderInfo}
    {fillAmount balBefore received : Nat} {c : OpenChunk}
    (h : ChunkClosed d s msgSender info fillAmount c balBefore s' received)
    (hother : ¬PaysTo w T info) : Credits d w T thrifty s s' := by
  have hcredited : credited w T s'.trace = credited w T s.trace := by
    rw [h.trace, credited, creditedWhere]
    simp [hother]
  have hnested : nested w T s'.trace = nested w T s.trace := by
    rw [h.trace, nested, creditedWhere]
    simp [hother]
  have hbalance : balance d w T s' = balance d w T s := by
    rw [balance, balance, h.tokens]
  refine ⟨?_, fun _ => h.measuring, fun _ _ => ?_, fun _ => hbalance.ge, fun _ _ => ?_⟩
  · rw [h.fallback]
  · omega
  · omega

theorem executePartialChunk_credits (hplain : PlainToken d.toTokenCode T) (s : World κ W)
    (msgSender : Account) (order : SignedOrder) (fillAmount : Nat) (data : Bytes)
    (hsale : thrifty → ¬(order.info.inputToken = T ∧ order.info.swapper = w))
    (hspend : thrifty → ¬(order.info.outputToken = T ∧ (msgSender : Address) = w)) :
    (executePartialChunk d s msgSender order fillAmount data).Sat (Credits d w T thrifty) s := by
  refine Prog.sat_attempt fun ⟨s₁, c⟩ hopen => ?_
  have h₁ : Credits d w T thrifty s s₁ := (chunkOpen_spec hopen).credits hplain hsale
  refine Prog.sat_yieldIf Credits.refl fun s₂ h₂ => ?_
  refine Prog.sat_yieldIf Credits.refl fun s₃ h₃ => ?_
  refine Prog.sat_attempt fun ⟨s₄, balBefore⟩ hpay => ?_
  refine Prog.sat_yieldIf_of Credits.refl fun s₅ h₅ hplainPay => ?_
  refine Prog.sat_attempt fun s₆ hclose => ?_
  obtain ⟨received, hclosed⟩ := chunkClose_spec hclose
  refine ((h₁.trans h₂).trans h₃).trans ?_
  by_cases hown : PaysTo w T order.info
  · -- the token has no hooks, so the close measures the payment alone
    obtain rfl : s₅ = s₄ := hplainPay (by rw [hown.2, hplain.noHooks])
    exact credits_chunkClose hpay hclosed hown
  · exact ((credits_chunkPay hpay hplain hspend).trans h₅).trans (hclosed.credits hown)

/-! ## The fallback -/

/-- What the settlement pays back leaves the swapper's balance alone, but
for a refund it receives. -/
theorem FallbackSettled.balance_le {s s' : World κ W} {info : OrderInfo} {o : OpenFallback}
    {balBefore amountOut leftover : Nat}
    (h : FallbackSettled d s info o balBefore s' amountOut leftover)
    (hplain : PlainToken d.toTokenCode T) (hown : ¬(info.inputToken = T ∧ d.fallback = w)) :
    balance d w T s ≤ balance d w T s' := by
  obtain ⟨tokens, happrove, hrefund⟩ := h.refunded
  have hsame : d.balanceOf tokens T w = d.balanceOf s.tokens T w := hplain.approve happrove w
  rw [balance, ← hsame]
  unfold refundLeftover at hrefund
  split at hrefund
  · exact hplain.transfer hrefund w hown
  · rw [balance, Except.ok.inj hrefund]

/-- From the approval to the settlement the fallback credits what the
balance gained, so what was credited in the router's call counts twice. -/
theorem FallbackSettled.backed {s s₁ s₂ : World κ W} {info : OrderInfo} {o : OpenFallback}
    {balBefore amountOut leftover : Nat} (hguard : MeasureGuarded s)
    (hmeasuring : s.measuring = some (info.swapper, info.outputToken))
    (hbefore : balBefore = balance d info.swapper info.outputToken s)
    (hturn : Credits d w T thrifty s s₁)
    (h : FallbackSettled d s₁ info o balBefore s₂ amountOut leftover)
    (hle : balance d w T s₁ ≤ balance d w T s₂) (ht : thrifty) :
    credited w T s₂.trace + balance d w T s + nested w T s.trace
      ≤ credited w T s.trace + balance d w T s₂ + nested w T s₂.trace := by
  have hnested : nested w T s₂.trace = nested w T s₁.trace := by
    rw [h.trace, nested, creditedWhere]
    simp
  by_cases hown : PaysTo w T info
  · obtain ⟨rfl, rfl⟩ := hown
    have hcredited : credited info.swapper info.outputToken s₂.trace
        = amountOut + credited info.swapper info.outputToken s₁.trace := by
      rw [h.trace, credited, creditedWhere, if_pos (by simp [PaysTo])]
    have hexposed := hturn.exposed hguard hmeasuring
    have hmeasured : balBefore + amountOut = balance d info.swapper info.outputToken s₁ :=
      h.measured
    omega
  · have hcredited : credited w T s₂.trace = credited w T s₁.trace := by
      rw [h.trace, credited, creditedWhere]
      simp [hown]
    have hbacked := hturn.backed ht hguard
    omega

theorem executeFallback_credits (hplain : PlainToken d.toTokenCode T) (s : World κ W)
    (order : SignedOrder) (router : Address) (routeOk : Bool) (minAmountOut : Nat)
    (hsale : thrifty → ¬(order.info.inputToken = T ∧ (order.info.swapper = w ∨ d.fallback = w))) :
    (executeFallback d s order router routeOk minAmountOut).Sat (Credits d w T thrifty) s := by
  refine Prog.sat_attempt fun ⟨s₁, o, inBalBefore⟩ hopen => ?_
  have h₁ := fallbackOpen_spec hopen
  refine Prog.sat_yieldIf Credits.refl fun s₂ h₂ => ?_
  refine Prog.sat_attempt fun ⟨s₃, balBefore⟩ happrove => ?_
  obtain ⟨hbefore, happroved, hs₃⟩ := fallbackApprove_spec happrove
  intro s₄ h₄
  refine Prog.sat_attempt fun ⟨s₅, amountOut, leftover⟩ hsettle => ?_
  have h₅ := fallbackSettle_spec hsettle
  refine Prog.sat_yieldIf Credits.refl fun s₆ h₆ => ?_
  -- the executor's guard is held from the pull on
  have hheld₁ : s₁.fallback.entered = true := by rw [h₁.fallback]
  have hheld₃ : s₃.fallback.entered = true := by
    rw [hs₃]
    exact h₂.guarded.trans hheld₁
  have hheld₅ : s₅.fallback.entered = true := by
    rw [h₅.fallback]
    exact h₄.guarded.trans hheld₃
  have hguard : ∀ {t : World κ W}, t.fallback.entered = true → MeasureGuarded t := by
    intro t ht hopen
    rw [ht] at hopen
    cases hopen
  have hmeasuring₃ : s₃.measuring = some (order.info.swapper, order.info.outputToken) := by
    rw [hs₃]
  have hidle : MeasureGuarded s → s.measuring = none := fun hs => hs h₁.guards.notEntered
  have hpull : thrifty → balance d w T s ≤ balance d w T s₁ := fun ht =>
    hplain.permit2 h₁.inputLeg w fun heq => hsale ht ⟨heq.1, Or.inl heq.2⟩
  have hbalance₃ : balance d w T s₃ = balance d w T s₂ := hplain.approve happroved w
  have hpaid : thrifty → balance d w T s₄ ≤ balance d w T s₅ := fun ht =>
    h₅.balance_le hplain fun heq => hsale ht ⟨heq.1, Or.inr heq.2⟩
  have hopened : ∀ p, creditedWhere p s₁.trace = creditedWhere p s.trace := by
    intro p
    rw [h₁.trace, creditedWhere, creditedWhere]
  have happrovedTrace : s₃.trace = s₂.trace := by rw [hs₃]
  refine ⟨?_, fun hs => ?_, fun hs hmeasured => ?_, fun ht => ?_, fun ht hs => ?_⟩
  · exact h₁.guards.notEntered.symm
  · rw [hidle hs]
    exact (h₆.measuring (hguard hheld₅)).trans h₅.measuring
  · rw [hidle hs] at hmeasured
    cases hmeasured
  · have hle₂ := h₂.balance_le ht
    have hle₄ := h₄.balance_le ht
    have hle₆ := h₆.balance_le ht
    have hle₁ := hpull ht
    have hle₅ := hpaid ht
    show balance d w T s ≤ balance d w T s₆
    omega
  · have hbacked₂ := h₂.backed ht (hguard hheld₁)
    have hbacked₅ := h₅.backed (hguard hheld₃) hmeasuring₃ hbefore h₄ (hpaid ht) ht
    have hbacked₆ := h₆.backed ht (hguard hheld₅)
    have hle₁ := hpull ht
    rw [happrovedTrace] at hbacked₅
    rw [credited, nested, hopened, hopened] at hbacked₂
    show credited w T s₆.trace + balance d w T s + nested w T s.trace
      ≤ credited w T s.trace + balance d w T s₆ + nested w T s₆.trace
    rw [credited, nested] at hbacked₅ hbacked₆ ⊢
    omega

/-! ## Calls and runs -/

/-- The step lemma of the credits. -/
theorem body_credits (hplain : PlainToken d.toTokenCode T) (l : Label κ W)
    (hl : thrifty → Thrifty d w T l) (s : World κ W) :
    (body d l s).Sat (Credits d w T thrifty) s := by
  refine body_sat_of_aside Credits.trans Credits.ofAside l s ?_ ?_ ?_
  · rintro f rfl
    exact .ofSame rfl rfl (fun _ => rfl) fun ht => hl ht s.tokens
  · rintro msgSender order fillAmount (rfl | ⟨_, rfl⟩) data
    · exact executePartialChunk_credits hplain s msgSender order fillAmount data
        (fun ht => (hl ht).1) (fun ht => (hl ht).2)
    · exact executePartialChunk_credits hplain s msgSender order fillAmount data
        (fun ht => (hl ht).1) (fun ht => (hl ht).2)
  · rintro order router routeOk minAmountOut rfl
    exact executeFallback_credits hplain s order router routeOk minAmountOut hl

/-- The run lemma of the credits. -/
theorem run_credits (hplain : PlainToken d.toTokenCode T) {P : Label κ W → Prop}
    (hP : ∀ l, P l → thrifty → Thrifty d w T l) (txs : List (Tx (Label κ W) Elapse))
    (htxs : ∀ tx ∈ txs, tx.All P) (s : World κ W) :
    Credits d w T thrifty s (run d txs s) :=
  runTxs_sat Credits.refl Credits.trans (fun l hl s => body_credits hplain l (hP l hl) s)
    (fun t s => (.ofSame rfl rfl (fun _ => rfl) (fun _ => Nat.le_refl _) :
      Credits d w T thrifty s (elapse t s))) s htxs

/-- Between transactions nothing is measured. -/
theorem reachable_measuring (hplain : PlainToken d.toTokenCode T) {s : World κ W}
    (h : Reachable d s) : s.measuring = none := by
  obtain ⟨tokens, block, txs, rfl⟩ := h
  have hcredits : Credits d 0 T False (deployed d tokens block)
      (run d txs (deployed d tokens block)) :=
    run_credits hplain (P := fun _ => True) (fun _ _ hfalse => hfalse.elim) txs
      (fun tx _ => tx.all_true) _
  exact hcredits.measuring fun _ => rfl

/-! ## No unit is credited twice -/

/-- Between `s` and `s'` no chunk of an order of `w` in `T` was credited
while a fallback was measuring the balance of `w` in `T`. -/
def NoOverlap (w T : Address) (s s' : World κ W) : Prop :=
  ∀ new, s'.trace = new ++ s.trace → ∀ info fill amount, PaysTo w T info →
    .outputCredited info fill amount (some (w, T)) ∉ new

/-- **No output unit is credited to two orders**, in any run in which no
chunk of the swapper's orders in the token is credited inside the router's
call of a fallback that measures the same balance: what is credited to the
orders is at most what the balance gained. -/
theorem credits_backed (hplain : PlainToken d.toTokenCode T) {s : World κ W}
    (h : Reachable d s) {txs : List (Tx (Label κ W) Elapse)}
    (hthrifty : ∀ tx ∈ txs, tx.All (Thrifty d w T))
    (hcond : NoOverlap w T s (run d txs s)) : CreditsBacked d w T s (run d txs s) := by
  have hcredits : Credits d w T True s (run d txs s) :=
    run_credits hplain (fun _ hl _ => hl) txs hthrifty s
  have hidle : MeasureGuarded s := fun _ => reachable_measuring hplain h
  have hbacked := hcredits.backed trivial hidle
  obtain ⟨new, hnew⟩ := (segments_progress (run_segments txs s)).trace
  have hnone : nested w T new = 0 := by
    refine creditedWhere_eq_zero fun info fill amount during hp hmem => ?_
    obtain ⟨hown, rfl⟩ := of_decide_eq_true hp
    exact hcond new hnew.symm info fill amount hown hmem
  have hsplit : nested w T (run d txs s).trace = nested w T new + nested w T s.trace := by
    rw [← hnew, nested, creditedWhere_append]
  rw [CreditsBacked]
  omega

/-- A router's swap of 1000 units of token 2 for `out` units of token 3, paid
to account 1. -/
def routerSwap (out : Nat) (tokens : Ledger) : Ledger :=
  update₂ (update₂ tokens 2 102 0) 3 1 (tokens 3 1 + out)

theorem routerSwap_thrifty (out : Nat) :
    Thrifty Ledger.deployment 1 3 (.tokens (routerSwap out)) := by
  intro tokens
  show tokens 3 1 ≤ routerSwap out tokens 3 1
  rw [routerSwap, update₂_self]
  omega

/-- A chunk of one order, then the fallback for another. -/
theorem credits_backed_apart :
    ∃ s : World OrderInfo Ledger, ∃ txs : List (Tx (Label OrderInfo Ledger) Elapse),
      credited 1 3 (run Ledger.deployment txs s).trace = 1400 ∧
      CreditsBacked Ledger.deployment 1 3 s (run Ledger.deployment txs s) := by
  let first : OrderInfo := ⟨1, 2, 1000, 3, 900, 100, 0, 0, 10 ^ 18, 0, 3000⟩
  let second : OrderInfo := ⟨1, 2, 1000, 3, 900, 100, 1, 0, 10 ^ 18, 0, 3000⟩
  let ledger : Ledger := update₂ (update₂ (fun _ _ => 0) 2 1 2000) 3 7 400
  let s := deployed Ledger.deployment ledger ⟨10, 0⟩
  let txs : List (Tx (Label OrderInfo Ledger) Elapse) :=
    [.call (.leaf (.register ⟨7, by decide⟩ 80 ⟨second, [1]⟩ 400)),
     .tick ⟨85, 0⟩,
     .call (.leaf (.executePartialChunk ⟨7, by decide⟩ ⟨second, [1]⟩ 400)),
     .call (.mk (.executeFallback ⟨first, [1]⟩ 106 true 0)
      [[.leaf (.tokens (routerSwap 1000))]])]
  have hs : Reachable Ledger.deployment s := ⟨ledger, _, [], rfl⟩
  have hthrifty : ∀ tx ∈ txs, tx.All (Thrifty Ledger.deployment 1 3) := by
    intro tx htx
    simp only [txs, List.mem_cons, List.not_mem_nil, or_false] at htx
    rcases htx with rfl | rfl | rfl | rfl
    · exact ⟨trivial, trivial⟩
    · trivial
    · exact ⟨by simp [Thrifty, second], trivial⟩
    · exact ⟨by simp [Thrifty, first], ⟨⟨routerSwap_thrifty 1000, trivial⟩, trivial⟩, trivial⟩
  have htrace : (run Ledger.deployment txs s).trace = [.outputCredited first 1000 1000 none,
      .inputPulled first 102 1000 .fallback, .orderVerified first [1],
      .outputCredited second 400 400 none, .inputPulled second 7 400 (.chunk (10 ^ 18) 95),
      .orderVerified second [1], .orderVerified second [1]] := by
    decide +kernel
  have hcond : NoOverlap 1 3 s (run Ledger.deployment txs s) := by
    intro new hnew info fill amount _ hmem
    have hmem' : TraceEvent.outputCredited info fill amount (some (1, 3))
        ∈ (run Ledger.deployment txs s).trace := by
      rw [hnew]
      exact List.mem_append_left _ hmem
    rw [htrace] at hmem'
    simp at hmem'
  refine ⟨s, txs, ?_, credits_backed (Ledger.ledger_plain 3) hs hthrifty hcond⟩
  rw [htrace]
  decide +kernel

/-- The same with the chunk inside the router's call: the 400 units it pays
are credited to both orders, 1300 for a balance of 900. -/
theorem credits_not_backed_nested :
    ∃ s : World OrderInfo Ledger, ∃ txs : List (Tx (Label OrderInfo Ledger) Elapse),
      Reachable Ledger.deployment s ∧
      (∀ tx ∈ txs, tx.All (Thrifty Ledger.deployment 1 3)) ∧
      PlainToken Ledger.deployment.toTokenCode 3 ∧
      credited 1 3 (run Ledger.deployment txs s).trace = 1300 ∧
      balance Ledger.deployment 1 3 (run Ledger.deployment txs s) = 900 ∧
      ¬CreditsBacked Ledger.deployment 1 3 s (run Ledger.deployment txs s) := by
  let first : OrderInfo := ⟨1, 2, 1000, 3, 900, 100, 0, 0, 10 ^ 18, 0, 3000⟩
  let second : OrderInfo := ⟨1, 2, 1000, 3, 900, 100, 1, 0, 10 ^ 18, 0, 3000⟩
  let ledger : Ledger := update₂ (update₂ (fun _ _ => 0) 2 1 2000) 3 7 400
  let s := deployed Ledger.deployment ledger ⟨10, 0⟩
  let txs : List (Tx (Label OrderInfo Ledger) Elapse) :=
    [.call (.leaf (.register ⟨7, by decide⟩ 80 ⟨second, [1]⟩ 400)),
     .tick ⟨85, 0⟩,
     .call (.mk (.executeFallback ⟨first, [1]⟩ 106 true 0)
      [[.leaf (.tokens (routerSwap 500)),
        .leaf (.executePartialChunk ⟨7, by decide⟩ ⟨second, [1]⟩ 400)]])]
  have hthrifty : ∀ tx ∈ txs, tx.All (Thrifty Ledger.deployment 1 3) := by
    intro tx htx
    simp only [txs, List.mem_cons, List.not_mem_nil, or_false] at htx
    rcases htx with rfl | rfl | rfl
    · exact ⟨trivial, trivial⟩
    · trivial
    · exact ⟨by simp [Thrifty, first], ⟨⟨routerSwap_thrifty 500, trivial⟩,
        ⟨by simp [Thrifty, second], trivial⟩, trivial⟩, trivial⟩
  have hcredited : credited 1 3 (run Ledger.deployment txs s).trace = 1300 := by decide +kernel
  have hbalance : balance Ledger.deployment 1 3 (run Ledger.deployment txs s) = 900 := by
    decide +kernel
  refine ⟨s, txs, ⟨ledger, _, [], rfl⟩, hthrifty, Ledger.ledger_plain 3, hcredited, hbalance,
    fun hbacked => ?_⟩
  rw [CreditsBacked, hcredited, hbalance] at hbacked
  exact absurd hbacked (by decide +kernel)

end System

end NeutronX
