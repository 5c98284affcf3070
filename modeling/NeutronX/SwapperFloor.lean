import NeutronX.CosignedOrders

/-!
# The swapper's floor

What a swapper is paid for an order is recorded chunk by chunk and by the
fallback. Each fill clears its own pro-rata floor, rounded down; the
roundings can add up, so whoever completes the order also has to clear the
absolute floor. The check sits in two contracts, and a fallback inside a
filler's callback can complete the order under an open chunk.

`FloorKept` is what a whole call keeps, for any order: the recorded output
grows by at least the floors of the fills, and if the order was safe to be
complete before the call it is so after it. It holds of chunks because the
chunk that closes either completed the order itself, and checked, or left
input, so that someone inside its callback completed the order and
checked.
-/

namespace NeutronX

open Evm Function

namespace System

open PartialFillReactor (OpenChunk remainingInput)
open FallbackExecutor (OpenFallback)

variable {κ W : Type} [DecidableEq κ] {d : Deployment κ W}

/-- The output recorded for the swapper of an order. -/
def paid (d : Deployment κ W) (s : World κ W) (info : OrderInfo) : Nat :=
  s.reactor.paidOutput (d.hashOrder info)

/-- The pro-rata floor of one fill. -/
def fillFloor (info : OrderInfo) (fill : Nat) : Nat :=
  info.minOutputAmount * fill / info.inputAmount

/-- The floors of all fills of an order, chunks and fallback, added up. -/
def floors (info : OrderInfo) : List TraceEvent → Nat
  | [] => 0
  | .outputCredited i fill _ _ :: es =>
      (if i = info then fillFloor info fill else 0) + floors info es
  | .orderVerified _ _ :: es => floors info es
  | .inputPulled _ _ _ _ :: es => floors info es

/-- A complete order has its absolute floor recorded. -/
def SafeComplete (d : Deployment κ W) (s : World κ W) (info : OrderInfo) : Prop :=
  unfilled d s info = 0 → 0 < (info.inputAmount : Nat) → info.minOutputAmount ≤ paid d s info

/-! ## What a call keeps -/

structure FloorKept (d : Deployment κ W) (info : OrderInfo) (s s' : World κ W) : Prop where
  paid_le : paid d s info ≤ paid d s' info
  floors_le : paid d s info + floors info s'.trace ≤ paid d s' info + floors info s.trace
  complete : SafeComplete d s info → SafeComplete d s' info

omit [DecidableEq κ] in
theorem FloorKept.refl (info : OrderInfo) (s : World κ W) : FloorKept d info s s :=
  ⟨Nat.le_refl _, Nat.le_refl _, fun h => h⟩

omit [DecidableEq κ] in
theorem FloorKept.trans {info : OrderInfo} {s s' s'' : World κ W} (h : FloorKept d info s s')
    (h' : FloorKept d info s' s'') : FloorKept d info s s'' where
  paid_le := Nat.le_trans h.paid_le h'.paid_le
  floors_le := by
    have h1 := h.floors_le
    have h2 := h'.floors_le
    omega
  complete := fun hs => h'.complete (h.complete hs)

omit [DecidableEq κ] in
/-- Nothing recorded, nothing filled. -/
theorem FloorKept.ofSame {info : OrderInfo} {s s' : World κ W}
    (hpaid : paid d s' info = paid d s info)
    (hunfilled : unfilled d s' info = unfilled d s info)
    (hfloors : floors info s'.trace = floors info s.trace) : FloorKept d info s s' where
  paid_le := by rw [hpaid]
  floors_le := by rw [hpaid, hfloors]
  complete := fun h => by
    unfold SafeComplete
    rw [hpaid, hunfilled]
    exact h

omit [DecidableEq κ] in
theorem FloorKept.ofAside {info : OrderInfo} {s s' : World κ W} (h : Aside s s') :
    FloorKept d info s s' := by
  refine .ofSame ?_ ?_ ?_
  · rw [paid, paid, h.paidOutput]
  · exact unfilled_eq_of_remaining h.remaining info
  · rcases h.trace with htrace | ⟨i, sig, htrace⟩
    · rw [htrace]
    · rw [htrace, floors]

/-! ## Chunks -/

theorem ChunkOpened.paid_eq {s s' : World κ W} {msgSender : Account} {order : SignedOrder}
    {fillAmount : Nat} {c : OpenChunk} (h : ChunkOpened d s msgSender order fillAmount s' c)
    (info : OrderInfo) : System.paid d s' info = System.paid d s info := by
  obtain ⟨cursor, -, hreactor⟩ := h.quoted
  rw [System.paid, System.paid, hreactor]
  rfl

theorem ChunkOpened.floors_eq {s s' : World κ W} {msgSender : Account} {order : SignedOrder}
    {fillAmount : Nat} {c : OpenChunk} (h : ChunkOpened d s msgSender order fillAmount s' c)
    (info : OrderInfo) : System.floors info s'.trace = System.floors info s.trace := by
  rw [h.trace, System.floors]
  split <;> rfl

theorem ChunkClosed.paid_eq {s s' : World κ W} {msgSender : Account} {info : OrderInfo}
    {fillAmount balBefore received : Nat} {c : OpenChunk}
    (h : ChunkClosed d s msgSender info fillAmount c balBefore s' received) (i : OrderInfo) :
    System.paid d s' i = System.paid d s i + (if i = info then received else 0) := by
  rw [System.paid, System.paid, h.reactor]
  dsimp only
  split
  · rename_i heq
    rw [heq, update_self]
  · rename_i hne
    rw [update_of_ne (d.hash_injective.ne hne), Nat.add_zero]

theorem ChunkClosed.floors_eq {s s' : World κ W} {msgSender : Account} {info : OrderInfo}
    {fillAmount balBefore received : Nat} {c : OpenChunk}
    (h : ChunkClosed d s msgSender info fillAmount c balBefore s' received) (i : OrderInfo) :
    System.floors i s'.trace
      = (if info = i then fillFloor i fillAmount else 0) + System.floors i s.trace := by
  rw [h.trace, System.floors]

theorem ChunkClosed.unfilled_eq {s s' : World κ W} {msgSender : Account} {info : OrderInfo}
    {fillAmount balBefore received : Nat} {c : OpenChunk}
    (h : ChunkClosed d s msgSender info fillAmount c balBefore s' received) (i : OrderInfo) :
    System.unfilled d s' i = System.unfilled d s i := by
  exact unfilled_eq_of_remaining (by rw [h.reactor]) i

/-- A chunk from its opening in `s` to its close: what was called in
between kept the floor of every order. -/
theorem floorKept_chunk {s s₁ s₂ s₃ : World κ W} {msgSender : Account} {order : SignedOrder}
    {fillAmount balBefore received : Nat} {c : OpenChunk}
    (hopen : ChunkOpened d s msgSender order fillAmount s₁ c)
    (hmid : ∀ info, FloorKept d info s₁ s₂)
    (hclose : ChunkClosed d s₂ msgSender order.info fillAmount c balBefore s₃ received)
    (info : OrderInfo) : FloorKept d info s s₃ := by
  obtain ⟨cursor, hquoted, -⟩ := hopen.quoted
  have hopenPaid := hopen.paid_eq info
  have hopenFloors := hopen.floors_eq info
  have hclosePaid := hclose.paid_eq info
  have hcloseFloors := hclose.floors_eq info
  have hcloseUnfilled := hclose.unfilled_eq info
  have hpaid := (hmid info).paid_le
  have hfloors := (hmid info).floors_le
  by_cases heq : info = order.info
  · subst heq
    rw [if_pos rfl] at hclosePaid hcloseFloors
    have hfloor : fillFloor order.info fillAmount ≤ received := by
      have hminChunk := (mulDiv_eq_ok.mp hquoted.minChunk).2
      rw [fillFloor, hminChunk]
      exact hclose.floor
    refine ⟨by omega, by omega, fun _ hzero hpos => ?_⟩
    by_cases hlast : c.newRemaining = 0
    · have htotal := hclose.total hlast
      rw [hclosePaid]
      exact htotal
    · -- input was left when the chunk opened, so whoever took it has checked
      have hleft : unfilled d s₁ order.info ≠ 0 := by
        have hunfilled := hopen.unfilled_eq order.info
        rw [if_pos rfl] at hunfilled
        rw [hunfilled]
        have hcurrent : c.currentRemaining = unfilled d s order.info :=
          hquoted.currentRemaining
        rw [← hcurrent, ← hquoted.newRemaining]
        exact hlast
      have hsafe := (hmid order.info).complete (fun h0 => absurd h0 hleft)
      have hfloor₂ := hsafe (by rw [← hcloseUnfilled]; exact hzero) hpos
      omega
  · rw [if_neg heq, Nat.add_zero] at hclosePaid
    rw [if_neg (Ne.symm heq), Nat.zero_add] at hcloseFloors
    have hopenUnfilled := hopen.unfilled_eq info
    rw [if_neg heq] at hopenUnfilled
    have hbefore : FloorKept d info s s₁ := .ofSame hopenPaid hopenUnfilled hopenFloors
    have hafter : FloorKept d info s₂ s₃ := .ofSame hclosePaid hcloseUnfilled hcloseFloors
    exact (hbefore.trans (hmid info)).trans hafter

/-! ## The fallback -/

/-- A fallback from its pull in `s` to its settlement. -/
theorem floorKept_fallback {s s₁ s₂ s₃ : World κ W} {order : SignedOrder} {o : OpenFallback}
    {balBefore amountOut leftover : Nat} (hopen : FallbackOpened d s order s₁ o)
    (hmid : ∀ info, FloorKept d info s₁ s₂)
    (hsettle : FallbackSettled d s₂ order.info o balBefore s₃ amountOut leftover)
    (info : OrderInfo) : FloorKept d info s s₃ := by
  have hopenPaid : paid d s₁ info = paid d s info := by
    rw [paid, paid, hopen.reactor]
  have hopenFloors : floors info s₁.trace = floors info s.trace := by
    rw [hopen.trace, floors, floors]
  have hsettleUnfilled : unfilled d s₃ info = unfilled d s₂ info :=
    unfilled_eq_of_remaining (by rw [hsettle.reactor]) info
  have hsettleFloors : floors info s₃.trace
      = (if order.info = info then fillFloor info o.rem else 0) + floors info s₂.trace := by
    rw [hsettle.trace, floors]
  have hpaid := (hmid info).paid_le
  have hfloors := (hmid info).floors_le
  by_cases heq : info = order.info
  · subst heq
    have hsettlePaid : paid d s₃ order.info = paid d s₂ order.info + amountOut := by
      rw [paid, paid, hsettle.reactor]
      exact update_self ..
    rw [if_pos rfl] at hsettleFloors
    have hfloor : fillFloor order.info o.rem ≤ amountOut := hsettle.floor.2
    refine ⟨by omega, by omega, fun _ _ _ => ?_⟩
    rw [hsettlePaid]
    exact hsettle.total
  · have hsettlePaid : paid d s₃ info = paid d s₂ info := by
      rw [paid, paid, hsettle.reactor]
      exact update_of_ne (d.hash_injective.ne heq) ..
    rw [if_neg (Ne.symm heq), Nat.zero_add] at hsettleFloors
    have hopenUnfilled := hopen.unfilled_eq info
    rw [if_neg heq] at hopenUnfilled
    have hbefore : FloorKept d info s s₁ := .ofSame hopenPaid hopenUnfilled hopenFloors
    have hafter : FloorKept d info s₂ s₃ := .ofSame hsettlePaid hsettleUnfilled hsettleFloors
    exact (hbefore.trans (hmid info)).trans hafter

/-! ## Calls and runs -/

/-- The relation the calls keep: the floor of every order. -/
def FloorsKept (d : Deployment κ W) (s s' : World κ W) : Prop :=
  ∀ info, FloorKept d info s s'

omit [DecidableEq κ] in
theorem FloorsKept.trans {a b c : World κ W} (h : FloorsKept d a b) (h' : FloorsKept d b c) :
    FloorsKept d a c :=
  fun info => (h info).trans (h' info)

/-- The step lemma of the floors. -/
theorem body_floors (l : Label κ W) (s : World κ W) : (body d l s).Sat (FloorsKept d) s := by
  have hrefl : ∀ s : World κ W, FloorsKept d s s := fun s info => .refl info s
  refine body_sat_of_aside FloorsKept.trans (fun h info => .ofAside h) l s
    (fun f _ info => .ofSame rfl rfl rfl) ?_ ?_
  · intro msgSender order fillAmount _ data
    refine Prog.sat_attempt fun ⟨s₁, c⟩ hopen => ?_
    refine Prog.sat_yieldIf hrefl fun s₂ h₂ => ?_
    refine Prog.sat_yieldIf hrefl fun s₃ h₃ => ?_
    refine Prog.sat_attempt fun ⟨s₄, balBefore⟩ hpay => ?_
    have h₄ : FloorsKept d s₃ s₄ := by
      obtain ⟨-, -, hs₄⟩ := chunkPay_spec hpay
      rw [hs₄]
      exact fun info => .ofSame rfl rfl rfl
    refine Prog.sat_yieldIf hrefl fun s₅ h₅ => ?_
    refine Prog.sat_attempt fun s₆ hclose => ?_
    obtain ⟨received, hclosed⟩ := chunkClose_spec hclose
    exact floorKept_chunk (chunkOpen_spec hopen) (((h₂.trans h₃).trans h₄).trans h₅) hclosed
  · intro order router routeOk minAmountOut _
    refine Prog.sat_attempt fun ⟨s₁, o, inBalBefore⟩ hopen => ?_
    refine Prog.sat_yieldIf hrefl fun s₂ h₂ => ?_
    refine Prog.sat_attempt fun ⟨s₃, balBefore⟩ happrove => ?_
    have h₃ : FloorsKept d s₂ s₃ := by
      obtain ⟨-, -, hs₃⟩ := fallbackApprove_spec happrove
      rw [hs₃]
      exact fun info => .ofSame rfl rfl rfl
    intro s₄ h₄
    refine Prog.sat_attempt fun ⟨s₅, amountOut, leftover⟩ hsettle => ?_
    refine Prog.sat_yieldIf hrefl fun s₆ h₆ => ?_
    have hsettled : FloorsKept d s s₅ :=
      floorKept_fallback (fallbackOpen_spec hopen) ((h₂.trans h₃).trans h₄)
        (fallbackSettle_spec hsettle)
    exact (hsettled.trans h₆).trans fun info => .ofSame rfl rfl rfl

/-- The run lemma of the floors. -/
theorem run_floors (txs : List (Tx (Label κ W) Elapse)) (s : World κ W) :
    FloorsKept d s (run d txs s) :=
  runTxs_sat (P := fun _ => True) (fun s _ => .refl _ s) FloorsKept.trans
    (fun l _ s => body_floors l s)
    (fun t s => (fun _ => .ofSame rfl rfl rfl : FloorsKept d s (elapse t s))) s
    fun tx _ => tx.all_true

/-- **The swapper's floor.** After every transaction of every run, the
output recorded for an order is at least the floors of its fills added up;
and if no input remains of an order that had some, or that was accepted
by an entry point, it is at least the order's `minOutputAmount`. -/
theorem swapper_floor {s : World κ W} (h : Reachable d s) (info : OrderInfo) :
    floors info s.trace ≤ paid d s info ∧
    (unfilled d s info = 0 →
      (0 < (info.inputAmount : Nat) ∨ ∃ sig, .orderVerified info sig ∈ s.trace) →
      info.minOutputAmount ≤ paid d s info) := by
  have hlaw := reachable_historyLaw h
  obtain ⟨tokens, block, txs, rfl⟩ := h
  have hkept := run_floors (d := d) txs (deployed d tokens block) info
  have hfloors := hkept.floors_le
  have hstart : SafeComplete d (deployed d tokens block) info := by
    intro hzero hpos
    have hfull : unfilled d (deployed d tokens block) info = info.inputAmount := by
      simp [unfilled, remainingInput, deployed, PartialFillReactor.deployed]
    omega
  refine ⟨?_, fun hzero hreal => ?_⟩
  · have hnone : paid d (deployed d tokens block) info = 0 := rfl
    have hempty : floors info (deployed d tokens block).trace = 0 := rfl
    omega
  · by_cases hpos : 0 < (info.inputAmount : Nat)
    · exact hkept.complete hstart hzero hpos
    · -- an order without input passed the check only with a floor of 0
      obtain ⟨sig, hsig⟩ := hreal.resolve_left hpos
      have hreach := (hlaw.accepted info sig hsig).2
      have hempty : (info.inputAmount : Nat) = 0 := by omega
      rw [hempty, Nat.zero_mul, Nat.zero_div] at hreach
      omega

/-- An order of 1001 for at least 900: the floors of a chunk of 400 and of
the fallback's 601 round down to 899, and the order is paid 941. -/
theorem swapper_floor_completed :
    ∃ s : World OrderInfo Ledger, ∃ info : OrderInfo, floors info s.trace = 899 ∧
      floors info s.trace ≤ paid Ledger.deployment s info ∧
      unfilled Ledger.deployment s info = 0 ∧
      info.minOutputAmount ≤ paid Ledger.deployment s info := by
  let info : OrderInfo := ⟨1, 2, 1001, 3, 900, 100, 0, 0, 10 ^ 18, 0, 3000⟩
  let filler : Account := ⟨7, by decide⟩
  let ledger : Ledger := update₂ (update₂ (fun _ _ => 0) 2 1 1001) 3 7 400
  let swap : Ledger → Ledger := fun w => update₂ (update₂ w 2 102 0) 3 1 (w 3 1 + 541)
  let s := run Ledger.deployment
    [.call (.leaf (.register filler 80 ⟨info, [1]⟩ 400)),
     .call (.leaf (.executePartialChunk filler ⟨info, [1]⟩ 400)),
     .tick ⟨85, 0⟩,
     .call (.mk (.executeFallback ⟨info, [1]⟩ 106 true 0) [[.leaf (.tokens swap)]])]
    (deployed Ledger.deployment ledger ⟨10, 0⟩)
  have hs : Reachable Ledger.deployment s := ⟨_, _, _, rfl⟩
  have hunfilled : unfilled Ledger.deployment s info = 0 := by decide +kernel
  obtain ⟨hfloors, htotal⟩ := swapper_floor hs info
  exact ⟨s, info, by decide +kernel, hfloors, hunfilled, htotal hunfilled (.inl (by decide))⟩

end System

end NeutronX
