import NeutronX.ChunkCalls
import NeutronX.CosignedOrders

/-!
# Chunks make progress

A chunk takes its amount off the remaining input, so it makes progress
exactly when the amount is positive. The reactor does not ask for that: a
chunk of nothing passes once the order is finished, when it completes the
remainder of nothing, and on an order whose minimum rounds down to nothing.

`ChunkLaw` is what holds of the chunks of an order whatever their amounts
are: the positive ones are as large as the minimum, except for one that
finishes the order, and no chunk leaves the price cursor as it was. In runs
whose chunk calls are for positive amounts it bounds their number.
-/

namespace NeutronX

open Evm Function

namespace System

open PartialFillReactor (OpenChunk)
open FallbackExecutor (OpenFallback)

variable {κ W : Type} [DecidableEq κ] {d : Deployment κ W}

/-! ## The chunks of an order -/

/-- The amounts of the chunks of an order, newest first. -/
def chunkAmounts (info : OrderInfo) : List TraceEvent → List Nat
  | [] => []
  | .inputPulled i _ amount (.chunk _ _) :: es =>
      if i = info then amount :: chunkAmounts info es else chunkAmounts info es
  | .inputPulled _ _ _ .fallback :: es => chunkAmounts info es
  | .orderVerified _ _ :: es => chunkAmounts info es
  | .outputCredited _ _ _ _ :: es => chunkAmounts info es

/-- The smallest chunk of an order, which completing it is exempt from. -/
def minChunkOf (info : OrderInfo) : Nat := (info.inputAmount : Nat) * info.minFillBps / 10000

/-- The chunks of an order that moved anything. -/
def voluminous (amounts : List Nat) : Nat := amounts.countP fun a => decide (0 < a)

@[simp] theorem voluminous_zero (amounts : List Nat) :
    voluminous (0 :: amounts) = voluminous amounts :=
  List.countP_cons_of_neg (by decide)

theorem voluminous_pos {a : Nat} (h : 0 < a) (amounts : List Nat) :
    voluminous (a :: amounts) = voluminous amounts + 1 :=
  List.countP_cons_of_pos (by simpa using h)

/-- Where every chunk moved something, they all count. -/
theorem voluminous_eq_length {amounts : List Nat} (h : ∀ a ∈ amounts, 0 < a) :
    voluminous amounts = amounts.length :=
  List.countP_eq_length.mpr fun a ha => by simpa using h a ha

theorem chunkAmounts_sum_le (info : OrderInfo) :
    ∀ es, (chunkAmounts info es).sum ≤ pulled info es
  | [] => Nat.le_refl _
  | .inputPulled i to_ amount (.chunk price b) :: es => by
      have ih := chunkAmounts_sum_le info es
      rw [chunkAmounts, pulled]
      split
      · rw [List.sum_cons]
        omega
      · omega
  | .inputPulled i to_ amount .fallback :: es => by
      have ih := chunkAmounts_sum_le info es
      rw [chunkAmounts, pulled]
      omega
  | .orderVerified i sig :: es => chunkAmounts_sum_le info es
  | .outputCredited i fill amount during :: es => chunkAmounts_sum_le info es

theorem ChunkOpened.chunkAmounts_eq {s s' : World κ W} {msgSender : Account}
    {order : SignedOrder} {fillAmount : Nat} {c : OpenChunk}
    (h : ChunkOpened d s msgSender order fillAmount s' c) (info : OrderInfo) :
    chunkAmounts info s'.trace = if order.info = info then fillAmount :: chunkAmounts info s.trace
      else chunkAmounts info s.trace := by
  have hverified : chunkAmounts info
      ((if c.isFirstFill then [.orderVerified order.info order.sig] else []) ++ s.trace)
      = chunkAmounts info s.trace := by
    split <;> rfl
  rw [h.trace, chunkAmounts, hverified, toUint_of_lt h.guards.fits]

/-- The remaining input right after a chunk opened. -/
theorem ChunkOpened.unfilled_lt_iff {s s' : World κ W} {msgSender : Account}
    {order : SignedOrder} {fillAmount : Nat} {c : OpenChunk}
    (h : ChunkOpened d s msgSender order fillAmount s' c) :
    unfilled d s' order.info < unfilled d s order.info ↔ 0 < fillAmount := by
  have hle : fillAmount ≤ unfilled d s order.info := h.guards.fill_le
  rw [h.unfilled_eq, if_pos rfl]
  omega

/-- The chunks of nothing that get through. -/
theorem ChunkOpened.empty {s s' : World κ W} {msgSender : Account}
    {order : SignedOrder} {c : OpenChunk} (h : ChunkOpened d s msgSender order 0 s' c) :
    unfilled d s order.info = 0 ∨ minChunkOf order.info = 0 := by
  by_cases hdone : unfilled d s order.info = 0
  · exact Or.inl hdone
  · exact Or.inr (Nat.le_zero.mp (h.guards.minFill (Ne.symm hdone)).le_fill)

/-! ## The law of the chunks -/

structure ChunkLaw (d : Deployment κ W) (s : World κ W) (info : OrderInfo) : Prop where
  /-- while something is left, every chunk that moved anything was of the
  minimum -/
  shared : unfilled d s info ≠ 0 →
    minChunkOf info * voluminous (chunkAmounts info s.trace) ≤ (chunkAmounts info s.trace).sum
  /-- and the one that left nothing may have been smaller -/
  counted : minChunkOf info * voluminous (chunkAmounts info s.trace)
    ≤ (chunkAmounts info s.trace).sum + minChunkOf info
  untouched : chunkAmounts info s.trace = [] →
    s.reactor.cursors (d.hashOrder info) = ⟨0, 0, 0⟩

omit [DecidableEq κ] in
theorem ChunkLaw.keep {s s' : World κ W} {info : OrderInfo} (h : ChunkLaw d s info)
    (hamounts : chunkAmounts info s'.trace = chunkAmounts info s.trace)
    (hunfilled : unfilled d s' info ≤ unfilled d s info)
    (hcursors : s'.reactor.cursors (d.hashOrder info) = s.reactor.cursors (d.hashOrder info)) :
    ChunkLaw d s' info := by
  refine ⟨fun hne => ?_, ?_, ?_⟩
  · rw [hamounts]
    exact h.shared (by omega)
  · rw [hamounts]
    exact h.counted
  · rw [hamounts, hcursors]
    exact h.untouched

/-- The law of one order through the opening of a chunk: a chunk of nothing
counts for nothing, one that leaves something is of the minimum, and one
that leaves nothing was the last that could move anything. -/
theorem chunkLaw_chunkOpen {s s' : World κ W} {msgSender : Account} {order : SignedOrder}
    {fillAmount : Nat} {c : OpenChunk} {info : OrderInfo} (hlaw : ChunkLaw d s info)
    (h : ChunkOpened d s msgSender order fillAmount s' c) : ChunkLaw d s' info := by
  have hamounts := h.chunkAmounts_eq info
  have hunfilled := h.unfilled_eq info
  by_cases heq : order.info = info
  · subst heq
    rw [if_pos rfl] at hamounts hunfilled
    have hfill : fillAmount ≤ unfilled d s order.info := h.guards.fill_le
    rcases Nat.eq_zero_or_pos fillAmount with rfl | hpos
    · refine ⟨fun hne => ?_, ?_, fun hnil => ?_⟩
      · rw [hamounts, voluminous_zero, List.sum_cons, Nat.zero_add]
        exact hlaw.shared (by omega)
      · rw [hamounts, voluminous_zero, List.sum_cons, Nat.zero_add]
        exact hlaw.counted
      · rw [hamounts] at hnil
        cases hnil
    · have hshared := hlaw.shared (by omega)
      refine ⟨fun hne => ?_, ?_, fun hnil => ?_⟩
      · have hmin : minChunkOf order.info ≤ fillAmount :=
          (h.guards.minFill (show fillAmount ≠ unfilled d s order.info by omega)).le_fill
        rw [hamounts, voluminous_pos hpos, List.sum_cons, Nat.mul_succ]
        omega
      · rw [hamounts, voluminous_pos hpos, List.sum_cons, Nat.mul_succ]
        omega
      · rw [hamounts] at hnil
        cases hnil
  · rw [if_neg heq] at hamounts
    rw [if_neg (Ne.symm heq)] at hunfilled
    refine hlaw.keep hamounts hunfilled.le ?_
    obtain ⟨cursor, -, hreactor⟩ := h.quoted
    rw [hreactor]
    exact update_of_ne (d.hash_injective.ne (Ne.symm heq)) _ _

theorem chunkLaw_segment {s s' : World κ W} {info : OrderInfo} (hlaw : ChunkLaw d s info)
    (h : Segment d s s') : ChunkLaw d s' info := by
  have hunfilled := (segment_progress h).unfilled info
  cases segment_effect h with
  | quiet h => exact hlaw.keep (by rw [h.trace]) hunfilled (by rw [h.reactor])
  | register msgSender msgValue order fillAmount snap hok hlive hvalid hs' =>
      subst hs'
      exact hlaw.keep rfl hunfilled rfl
  | chunkOpen msgSender order fillAmount c h => exact chunkLaw_chunkOpen hlaw h
  | chunkClose msgSender info' fillAmount c balBefore received h hterms =>
      exact hlaw.keep (by rw [h.trace, chunkAmounts]) hunfilled (by rw [h.reactor])
  | fallbackOpen order o h =>
      exact hlaw.keep (by rw [h.trace, chunkAmounts, chunkAmounts]) hunfilled (by rw [h.reactor])
  | fallbackSettle info' o balBefore amountOut leftover h =>
      exact hlaw.keep (by rw [h.trace, chunkAmounts]) hunfilled (by rw [h.reactor])
  | cancelOrder msgSender info' hs' =>
      subst hs'
      exact hlaw.keep rfl hunfilled rfl
  | invalidateNonce msgSender nonce hs' =>
      subst hs'
      exact hlaw.keep rfl hunfilled rfl

omit [DecidableEq κ] in
theorem chunkLaw_deployed (tokens : W) (block : Block) (info : OrderInfo) :
    ChunkLaw d (deployed d tokens block) info where
  shared := fun _ => Nat.le_refl _
  counted := by simp [deployed, chunkAmounts, voluminous]
  untouched := fun _ => rfl

theorem Visited.chunkLaw {s : World κ W} (h : Visited d s) (info : OrderInfo) :
    ChunkLaw d s info :=
  h.invariant (I := fun s => ChunkLaw d s info)
    (fun tokens block => chunkLaw_deployed tokens block info)
    fun _ hlaw hseg => chunkLaw_segment hlaw hseg

/-! ## Runs whose chunks are for positive amounts -/

/-- A label that is no chunk of nothing of the order. -/
def Substantial (info : OrderInfo) (l : Label κ W) : Prop :=
  ∀ msgSender order fillAmount, chunkCall l = some (msgSender, order, fillAmount) →
    order.info = info → 0 < fillAmount

/-- Chunks of the order that are added are positive. -/
def AddsVolume (info : OrderInfo) (s s' : World κ W) : Prop :=
  (∀ a ∈ chunkAmounts info s.trace, 0 < a) → ∀ a ∈ chunkAmounts info s'.trace, 0 < a

omit [DecidableEq κ] in
theorem AddsVolume.ofSame {info : OrderInfo} {s s' : World κ W}
    (h : chunkAmounts info s'.trace = chunkAmounts info s.trace) : AddsVolume info s s' := by
  intro hpos
  rwa [h]

omit [DecidableEq κ] in
theorem AddsVolume.ofAside {info : OrderInfo} {s s' : World κ W} (h : Aside s s') :
    AddsVolume info s s' := by
  rcases h.trace with hsame | ⟨i, sig, hverified⟩
  · exact .ofSame (by rw [hsame])
  · exact .ofSame (by rw [hverified, chunkAmounts])

omit [DecidableEq κ] in
theorem AddsVolume.trans {info : OrderInfo} {a b c : World κ W} (h : AddsVolume info a b)
    (h' : AddsVolume info b c) : AddsVolume info a c :=
  fun hpos => h' (h hpos)

theorem executePartialChunk_addsVolume {info : OrderInfo} (s : World κ W) (msgSender : Account)
    (order : SignedOrder) {fillAmount : Nat} (hpos : order.info = info → 0 < fillAmount)
    (data : Bytes) :
    (executePartialChunk d s msgSender order fillAmount data).Sat (AddsVolume info) s := by
  refine Prog.sat_attempt fun ⟨s₁, c⟩ hopen => ?_
  have h₁ : AddsVolume info s s₁ := by
    intro hbefore a ha
    rw [(chunkOpen_spec hopen).chunkAmounts_eq] at ha
    split at ha
    · rcases List.mem_cons.mp ha with rfl | ha
      · exact hpos ‹_›
      · exact hbefore a ha
    · exact hbefore a ha
  refine Prog.sat_yieldIf (fun _ => id) fun s₂ h₂ => ?_
  refine Prog.sat_yieldIf (fun _ => id) fun s₃ h₃ => ?_
  refine Prog.sat_attempt fun ⟨s₄, balBefore⟩ hpay => ?_
  obtain ⟨-, -, hs₄⟩ := chunkPay_spec hpay
  have h₄ : AddsVolume info s₃ s₄ := .ofSame (by rw [hs₄])
  refine Prog.sat_yieldIf (fun _ => id) fun s₅ h₅ => ?_
  refine Prog.sat_attempt fun s₆ hclose => ?_
  obtain ⟨received, hclosed⟩ := chunkClose_spec hclose
  have h₆ : AddsVolume info s₅ s₆ := .ofSame (by rw [hclosed.trace, chunkAmounts])
  exact h₁.trans (h₂.trans (h₃.trans (h₄.trans (h₅.trans h₆))))

theorem executeFallback_addsVolume {info : OrderInfo} (s : World κ W) (order : SignedOrder)
    (router : Address) (routeOk : Bool) (minAmountOut : Nat) :
    (executeFallback d s order router routeOk minAmountOut).Sat (AddsVolume info) s := by
  refine Prog.sat_attempt fun ⟨s₁, o, inBalBefore⟩ hopen => ?_
  have h₁ : AddsVolume info s s₁ :=
    .ofSame (by rw [(fallbackOpen_spec hopen).trace, chunkAmounts, chunkAmounts])
  refine Prog.sat_yieldIf (fun _ => id) fun s₂ h₂ => ?_
  refine Prog.sat_attempt fun ⟨s₃, balBefore⟩ happrove => ?_
  obtain ⟨-, -, hs₃⟩ := fallbackApprove_spec happrove
  have h₃ : AddsVolume info s₂ s₃ := .ofSame (by rw [hs₃])
  intro s₄ h₄
  refine Prog.sat_attempt fun ⟨s₅, amountOut, leftover⟩ hsettle => ?_
  have h₅ : AddsVolume info s₄ s₅ :=
    .ofSame (by rw [(fallbackSettle_spec hsettle).trace, chunkAmounts])
  refine Prog.sat_yieldIf (fun _ => id) fun s₆ h₆ => ?_
  exact h₁.trans (h₂.trans (h₃.trans (h₄.trans (h₅.trans (h₆.trans (.ofSame rfl))))))

theorem body_addsVolume {info : OrderInfo} {l : Label κ W} (hl : Substantial info l)
    (s : World κ W) : (body d l s).Sat (AddsVolume info) s := by
  refine body_sat_of_aside (fun h h' => h.trans h') .ofAside l s (fun f _ => .ofSame rfl) ?_
    fun order router routeOk minAmountOut _ => executeFallback_addsVolume s order router _ _
  rintro msgSender order fillAmount (rfl | ⟨_, rfl⟩) data
  · exact executePartialChunk_addsVolume s msgSender order (hl _ _ _ rfl) data
  · exact executePartialChunk_addsVolume s msgSender order (hl _ _ _ rfl) data

/-- In a run without chunks of nothing, every chunk moved something. -/
theorem run_addsVolume {info : OrderInfo} {txs : List (Tx (Label κ W) Elapse)}
    (hall : ∀ tx ∈ txs, tx.All (Substantial info)) (s : World κ W) :
    AddsVolume info s (run d txs s) :=
  runTxs_sat (fun _ => id) (fun h h' => h.trans h') (fun _ hl s => body_addsVolume hl s)
    (fun t s => show AddsVolume info s (elapse t s) from .ofSame rfl) s hall

/-- What the chunks of an order did to it so far: each took something off
its remaining input, the price clock was not started before one did, and
they are no more than the minimum allows. -/
structure ChunksProgress (d : Deployment κ W) (s : World κ W) (info : OrderInfo) : Prop where
  volume : ∀ a ∈ chunkAmounts info s.trace, 0 < a
  clock : s.reactor.cursors (d.hashOrder info) ≠ ⟨0, 0, 0⟩ → 0 < (chunkAmounts info s.trace).sum
  count : 0 < minChunkOf info →
    (chunkAmounts info s.trace).length ≤ info.inputAmount / minChunkOf info + 1

theorem Visited.chunksProgress {s : World κ W} (h : Visited d s) {info : OrderInfo}
    (hpos : ∀ a ∈ chunkAmounts info s.trace, 0 < a) : ChunksProgress d s info := by
  have hlaw := h.chunkLaw info
  refine ⟨hpos, fun hstarted => ?_, fun hmin => ?_⟩
  · cases hamounts : chunkAmounts info s.trace with
    | nil => exact absurd (hlaw.untouched hamounts) hstarted
    | cons a as =>
        have ha := hpos a (by rw [hamounts]; exact List.mem_cons_self)
        rw [List.sum_cons]
        omega
  · have hcounted := hlaw.counted
    have hpulled := (chunkAmounts_sum_le info s.trace).trans (h.inputLaw info).pulled_le
    rw [voluminous_eq_length hpos] at hcounted
    have hmul : (chunkAmounts info s.trace).length * minChunkOf info
        ≤ info.inputAmount + minChunkOf info := by
      rw [Nat.mul_comm]
      omega
    rw [← Nat.add_div_right _ hmin]
    exact (Nat.le_div_iff_mul_le hmin).mpr hmul

/-- **Chunks make progress exactly when they are for something.** A chunk
call that succeeds lowers the remaining input iff its amount is positive,
then something was left; a chunk of nothing passes only when nothing is
left, or the minimum is nothing. In a run whose chunk calls on an order are
all for positive amounts, all chunks of the order make progress. -/
theorem chunk_progress_iff {tokens : W} {block : Block} {info : OrderInfo}
    {txs : List (Tx (Label κ W) Elapse)} (hall : ∀ tx ∈ txs, tx.All (Substantial info)) :
    ChunksProgress d (run d txs (deployed d tokens block)) info ∧
    ∀ s, Visited d s → ∀ l turns msgSender order fillAmount s',
      chunkCall l = some (msgSender, order, fillAmount) →
      exec (body d) (.mk l turns) s = .ok s' →
      ∃ c s₁ s₂, ChunkExecuted d s msgSender order fillAmount c s₁ s₂ s' ∧
        (unfilled d s₁ order.info < unfilled d s order.info ↔ 0 < fillAmount) ∧
        (0 < fillAmount → 0 < unfilled d s order.info ∧
          unfilled d s' order.info < unfilled d s order.info) ∧
        (fillAmount = 0 → unfilled d s order.info = 0 ∨ minChunkOf order.info = 0) := by
  refine ⟨?_, ?_⟩
  · have hreach : Reachable d (run d txs (deployed d tokens block)) := ⟨_, _, _, rfl⟩
    refine hreach.visited.chunksProgress (run_addsVolume hall _ fun a ha => ?_)
    exact absurd ha List.not_mem_nil
  · intro s _ l turns msgSender order fillAmount s' hl hexec
    obtain ⟨c, s₁, s₂, hexecuted⟩ := exec_chunkCall hl hexec
    have hopened := hexecuted.opened
    have hiff := hopened.unfilled_lt_iff
    obtain ⟨balBefore, received, hclosed⟩ := hexecuted.closed
    have hclosing : unfilled d s' order.info = unfilled d s₂ order.info :=
      unfilled_eq_of_remaining (by rw [hclosed.reactor]) order.info
    have hbetween := (segments_progress hexecuted.between).unfilled order.info
    refine ⟨c, s₁, s₂, hexecuted, hiff, fun hpos => ?_, ?_⟩
    · have hless := hiff.mpr hpos
      omega
    · rintro rfl
      exact hopened.empty

/-- An order of 10 in chunks of 10. Three fillers registered for it: after
the first finished it, chunks of nothing of the other two succeed. An order
of 1000 without a minimum: its first chunk is of nothing, and starts its
price clock. -/
theorem empty_chunks_pass :
    (∃ s s' : World OrderInfo Ledger, Reachable Ledger.deployment s ∧
      unfilled Ledger.deployment s ⟨1, 2, 10, 3, 0, 100, 0, 10000, 10 ^ 18, 0, 3000⟩ = 0 ∧
      exec (body Ledger.deployment) (.mk (.executePartialChunk ⟨9, by decide⟩
        ⟨⟨1, 2, 10, 3, 0, 100, 0, 10000, 10 ^ 18, 0, 3000⟩, [1]⟩ 0) []) s = .ok s' ∧
      unfilled Ledger.deployment s' ⟨1, 2, 10, 3, 0, 100, 0, 10000, 10 ^ 18, 0, 3000⟩ = 0 ∧
      ¬ChunksProgress Ledger.deployment s' ⟨1, 2, 10, 3, 0, 100, 0, 10000, 10 ^ 18, 0, 3000⟩) ∧
    ∃ s : World OrderInfo Ledger, Reachable Ledger.deployment s ∧
      s.reactor.cursors ⟨1, 2, 1000, 3, 0, 100, 0, 0, 10 ^ 18, 5, 0⟩ = ⟨10 ^ 18, 10, 5⟩ ∧
      unfilled Ledger.deployment s ⟨1, 2, 1000, 3, 0, 100, 0, 0, 10 ^ 18, 5, 0⟩ = 1000 ∧
      ¬ChunksProgress Ledger.deployment s ⟨1, 2, 1000, 3, 0, 100, 0, 0, 10 ^ 18, 5, 0⟩ := by
  constructor
  · let info : OrderInfo := ⟨1, 2, 10, 3, 0, 100, 0, 10000, 10 ^ 18, 0, 3000⟩
    let ledger : Ledger := update₂ (update₂ (fun _ _ => 0) 2 1 10) 3 7 10
    let s := run Ledger.deployment
      [.call (.leaf (.register ⟨7, by decide⟩ 2 ⟨info, [1]⟩ 10)),
       .call (.leaf (.register ⟨8, by decide⟩ 2 ⟨info, [1]⟩ 10)),
       .call (.leaf (.register ⟨9, by decide⟩ 2 ⟨info, [1]⟩ 10)),
       .call (.leaf (.executePartialChunk ⟨7, by decide⟩ ⟨info, [1]⟩ 10)),
       .call (.leaf (.executePartialChunk ⟨8, by decide⟩ ⟨info, [1]⟩ 0))]
      (deployed Ledger.deployment ledger ⟨10, 0⟩)
    have hreturns : Returns
        (exec (body Ledger.deployment)
          (.mk (.executePartialChunk ⟨9, by decide⟩ ⟨info, [1]⟩ 0) []) s)
        (fun s' => unfilled Ledger.deployment s info = 0 ∧
          unfilled Ledger.deployment s' info = 0 ∧ chunkAmounts info s'.trace = [0, 0, 10]) := by
      decide +kernel
    obtain ⟨s', hexec, hbefore, hafter, hamounts⟩ := hreturns
    refine ⟨s, s', ⟨_, _, _, rfl⟩, hbefore, hexec, hafter, fun hprogress => ?_⟩
    -- three chunks, where the minimum allows two
    have hcount := hprogress.count (by decide)
    rw [hamounts] at hcount
    exact absurd hcount (by decide)
  · let info : OrderInfo := ⟨1, 2, 1000, 3, 0, 100, 0, 0, 10 ^ 18, 5, 0⟩
    let ledger : Ledger := update₂ (fun _ _ => 0) 2 1 1000
    let s := run Ledger.deployment
      [.call (.leaf (.register ⟨7, by decide⟩ 200 ⟨info, [1]⟩ 1000)),
       .call (.leaf (.executePartialChunk ⟨7, by decide⟩ ⟨info, [1]⟩ 0))]
      (deployed Ledger.deployment ledger ⟨10, 0⟩)
    have hcursor : s.reactor.cursors info = ⟨10 ^ 18, 10, 5⟩ := by decide +kernel
    have hamounts : chunkAmounts info s.trace = [0] := by decide +kernel
    refine ⟨s, ⟨_, _, _, rfl⟩, hcursor, by decide +kernel, fun hprogress => ?_⟩
    have hvolume := hprogress.clock (by
      show s.reactor.cursors info ≠ _
      rw [hcursor]
      decide)
    rw [hamounts] at hvolume
    exact absurd hvolume (by decide)

/-- Two chunks of an order of 1000, both for something. -/
theorem chunk_progress_iff_twice :
    ∃ s : World OrderInfo Ledger, Reachable Ledger.deployment s ∧
      chunkAmounts ⟨1, 2, 1000, 3, 900, 100, 0, 3000, 10 ^ 18, 0, 3000⟩ s.trace = [600, 400] ∧
      ChunksProgress Ledger.deployment s
        ⟨1, 2, 1000, 3, 900, 100, 0, 3000, 10 ^ 18, 0, 3000⟩ := by
  let info : OrderInfo := ⟨1, 2, 1000, 3, 900, 100, 0, 3000, 10 ^ 18, 0, 3000⟩
  let ledger : Ledger := update₂ (update₂ (update₂ (fun _ _ => 0) 2 1 1000) 3 7 400) 3 8 600
  let txs : List (Tx (Label OrderInfo Ledger) Elapse) :=
    [.call (.leaf (.register ⟨7, by decide⟩ 80 ⟨info, [1]⟩ 400)),
     .call (.leaf (.register ⟨8, by decide⟩ 120 ⟨info, [1]⟩ 600)),
     .call (.leaf (.executePartialChunk ⟨7, by decide⟩ ⟨info, [1]⟩ 400)),
     .call (.leaf (.executePartialChunk ⟨8, by decide⟩ ⟨info, [1]⟩ 600))]
  have hall : ∀ tx ∈ txs, tx.All (Substantial info) := by
    intro tx htx
    simp only [txs, List.mem_cons, List.not_mem_nil, or_false] at htx
    rcases htx with rfl | rfl | rfl | rfl <;> refine ⟨?_, trivial⟩ <;> intro m o f hcall _ <;>
      simp only [chunkCall, Option.some.injEq, Prod.mk.injEq, reduceCtorEq] at hcall
    · obtain ⟨-, -, rfl⟩ := hcall
      decide
    · obtain ⟨-, -, rfl⟩ := hcall
      decide
  exact ⟨run Ledger.deployment txs (deployed Ledger.deployment ledger ⟨10, 0⟩),
    ⟨_, _, txs, rfl⟩, by decide +kernel, (chunk_progress_iff hall).1⟩

end System

end NeutronX
