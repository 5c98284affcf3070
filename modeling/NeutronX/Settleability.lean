import NeutronX.Abandonment
import NeutronX.Ledger

/-!
# Settleability

With a standard output token a chunk credits the swapper what it computed
and no more. So what an order is paid stays below what its input is worth
at the largest price there is, which fits a word (`Nominal`), and of all
that can stop a chunk that nobody interrupts only the transfers and the
output floors are left. Without a minimum output only the transfers are,
and then whoever is registered for the remainder can complete the order.
-/

namespace NeutronX

open Evm Function

/-- Token `T` as the ERC-20 standard has it: a transfer credits what it is
asked to, and calls nobody. -/
structure StandardToken {W : Type} (c : TokenCode W) (T : Address) : Prop where
  noHooks : c.hasHooks T = false
  transferFrom : ∀ {w w' : W} {spender from_ to_ : Address} {amount : Nat},
    c.safeTransferFrom w spender T from_ to_ amount = .ok w' →
    c.balanceOf w' T to_ = c.balanceOf w T to_ + if from_ = to_ then 0 else amount

namespace System

open PartialFillReactor (OpenChunk chunkPrice)
open FallbackExecutor (OpenFallback)

variable {κ W : Type} [DecidableEq κ] {d : Deployment κ W}

/-! ## What an order is paid -/

/-- Every price on record has 128 bits. -/
def CursorsFit (s : World κ W) : Prop :=
  ∀ k, (s.reactor.cursors k).currentStartPrice < 2 ^ 128

theorem chunkPrice_fits {blk : Block} {cursor cursor' : DecayCursor} {info : OrderInfo}
    {first : Bool} {price : Nat} (hfits : cursor.currentStartPrice < 2 ^ 128)
    (h : chunkPrice blk cursor info first = .ok (price, cursor')) :
    price < 2 ^ 128 ∧ cursor'.currentStartPrice = price := by
  unfold chunkPrice at h
  cases first with
  | true =>
      simp only [if_true, pure_eq_ok, Prod.mk.injEq] at h
      obtain ⟨rfl, rfl⟩ := h
      exact ⟨info.startPrice.isLt, rfl⟩
  | false =>
      simp only [Bool.false_eq_true, if_false, bind_eq_ok, pure_eq_ok, Prod.mk.injEq] at h
      obtain ⟨_, hcurrent, rfl, rfl⟩ := h
      obtain ⟨-, hprice⟩ := DecayCursorLib.getCurrentPrice_eq_ok hfits hcurrent
      exact ⟨by omega, rfl⟩

/-- Until a fallback of the order, what it was paid and what is left of it,
at the largest price there is, do not grow together. -/
def Nominal (d : Deployment κ W) (info : OrderInfo) (s s' : World κ W) : Prop :=
  CursorsFit s → CursorsFit s' ∧
    (s'.reactor.fallbackInitiated (d.hashOrder info) = false →
      s.reactor.fallbackInitiated (d.hashOrder info) = false ∧
      paid d s' info + unfilled d s' info * 2 ^ 128 ≤ paid d s info + unfilled d s info * 2 ^ 128)

section Nominal

variable {info : OrderInfo} {s s' s'' : World κ W}

omit [DecidableEq κ] in
theorem Nominal.refl (info : OrderInfo) (s : World κ W) : Nominal d info s s :=
  fun hfits => ⟨hfits, fun hflag => ⟨hflag, Nat.le_refl _⟩⟩

omit [DecidableEq κ] in
theorem Nominal.trans (h : Nominal d info s s') (h' : Nominal d info s' s'') :
    Nominal d info s s'' := by
  intro hfits
  obtain ⟨hfits', hkept⟩ := h hfits
  obtain ⟨hfits'', hkept'⟩ := h' hfits'
  refine ⟨hfits'', fun hflag => ?_⟩
  obtain ⟨hflag', hle'⟩ := hkept' hflag
  obtain ⟨hflag'', hle⟩ := hkept hflag'
  exact ⟨hflag'', Nat.le_trans hle' hle⟩

omit [DecidableEq κ] in
theorem Nominal.ofSame (hcursors : s'.reactor.cursors = s.reactor.cursors)
    (hflag : s'.reactor.fallbackInitiated (d.hashOrder info)
      = s.reactor.fallbackInitiated (d.hashOrder info))
    (hpaid : paid d s' info = paid d s info) (hunfilled : unfilled d s' info = unfilled d s info) :
    Nominal d info s s' := by
  intro hfits
  refine ⟨?_, fun hfalse => ⟨by rw [← hflag]; exact hfalse, by rw [hpaid, hunfilled]⟩⟩
  intro k
  rw [hcursors]
  exact hfits k

omit [DecidableEq κ] in
theorem Nominal.ofAside (h : Aside s s') : Nominal d info s s' :=
  .ofSame h.cursors (by rw [h.fallbackInitiated]) (by rw [paid, paid, h.paidOutput])
    (unfilled_eq_of_remaining h.remaining info)

omit [DecidableEq κ] in
/-- Once a fallback of the order was initiated there is nothing to keep. -/
theorem Nominal.ofTaken (hfits : CursorsFit s → CursorsFit s')
    (htaken : s'.reactor.fallbackInitiated (d.hashOrder info) = true) : Nominal d info s s' := by
  intro hs
  refine ⟨hfits hs, fun hfalse => ?_⟩
  rw [htaken] at hfalse
  cases hfalse

omit [DecidableEq κ] in
theorem Nominal.taken (h : Nominal d info s s') (hfits : CursorsFit s)
    (htaken : s.reactor.fallbackInitiated (d.hashOrder info) = true) :
    s'.reactor.fallbackInitiated (d.hashOrder info) = true := by
  by_contra hfalse
  have hflag := ((h hfits).2 (by simpa using hfalse)).1
  rw [htaken] at hflag
  cases hflag

end Nominal

/-- A chunk reads a price of 128 bits and records one. -/
theorem ChunkOpened.cursorsFit {s s' : World κ W} {msgSender : Account} {order : SignedOrder}
    {amount : Nat} {c : OpenChunk} (h : ChunkOpened d s msgSender order amount s' c)
    (hfits : CursorsFit s) : CursorsFit s' ∧ c.currentPrice < 2 ^ 128 := by
  obtain ⟨cursor, hquoted, hreactor⟩ := h.quoted
  obtain ⟨hprice, hcursor⟩ := chunkPrice_fits (hfits _) hquoted.price
  refine ⟨fun k => ?_, hprice⟩
  rw [hreactor]
  show (update s.reactor.cursors (d.hashOrder order.info) cursor k).currentStartPrice < 2 ^ 128
  rw [update_apply]
  split
  · rw [hcursor]
    exact hprice
  · exact hfits k

theorem ChunkOpened.nominal_other {s s' : World κ W} {msgSender : Account} {order : SignedOrder}
    {amount : Nat} {c : OpenChunk} (h : ChunkOpened d s msgSender order amount s' c)
    {info : OrderInfo} (hne : info ≠ order.info) : Nominal d info s s' := by
  intro hfits
  refine ⟨(h.cursorsFit hfits).1, fun hflag => ⟨?_, ?_⟩⟩
  · obtain ⟨cursor, -, hreactor⟩ := h.quoted
    rw [hreactor] at hflag
    exact hflag
  · rw [h.paid_eq info, h.unfilled_eq info, if_neg hne]

/-- A chunk with a standard output token, from its opening in `s` to its
close: it credits at most what it computed. -/
theorem nominal_chunk {s s₁ s₃ s₄ s' : World κ W} {msgSender : Account} {order : SignedOrder}
    {amount before received : Nat} {c : OpenChunk}
    (hstd : StandardToken d.toTokenCode order.info.outputToken)
    (hopen : ChunkOpened d s msgSender order amount s₁ c)
    (hmid : Nominal d order.info s₁ s₃)
    (hbefore : before = d.balanceOf s₃.tokens order.info.outputToken order.info.swapper)
    (hsold : d.safeTransferFrom s₃.tokens d.reactor order.info.outputToken msgSender
      order.info.swapper c.outputAmount = .ok s₄.tokens)
    (hs₄ : s₄ = { s₃ with tokens := s₄.tokens })
    (hclose : ChunkClosed d s₄ msgSender order.info amount c before s' received) :
    Nominal d order.info s s' := by
  intro hfits
  obtain ⟨hfits₁, hprice⟩ := hopen.cursorsFit hfits
  obtain ⟨hfits₃, hkept⟩ := hmid hfits₁
  have hreactor₄ : s₄.reactor = s₃.reactor := by rw [hs₄]
  have hcursors : s'.reactor.cursors = s₃.reactor.cursors := by rw [hclose.reactor, hreactor₄]
  have hflags : s'.reactor.fallbackInitiated = s₃.reactor.fallbackInitiated := by
    rw [hclose.reactor, hreactor₄]
  refine ⟨fun k => by rw [hcursors]; exact hfits₃ k, fun hflag => ?_⟩
  rw [hflags] at hflag
  obtain ⟨hflag₁, hle⟩ := hkept hflag
  obtain ⟨cursor, hquoted, hreactor⟩ := hopen.quoted
  refine ⟨by rw [hreactor] at hflag₁; exact hflag₁, ?_⟩
  have hreceived : received ≤ c.outputAmount := by
    have hmeasured := hclose.measured
    have hcredited := hstd.transferFrom hsold
    split at hcredited <;> omega
  have houtput : c.outputAmount ≤ amount * 2 ^ 128 := by
    have hout := (mulDiv_eq_ok.mp hquoted.outputAmount).2
    calc c.outputAmount = amount * c.currentPrice / 10 ^ 18 := hout.symm
      _ ≤ amount * c.currentPrice := Nat.div_le_self _ _
      _ ≤ amount * 2 ^ 128 := Nat.mul_le_mul_left _ (Nat.le_of_lt hprice)
  have hpaid := hclose.paid_eq order.info
  rw [if_pos rfl] at hpaid
  have hpaid₄ : paid d s₄ order.info = paid d s₃ order.info := by rw [paid, paid, hreactor₄]
  have hunfilled := hclose.unfilled_eq order.info
  have hunfilled₄ : unfilled d s₄ order.info = unfilled d s₃ order.info :=
    unfilled_eq_of_remaining (by rw [hreactor₄]) _
  have hopenPaid := hopen.paid_eq order.info
  have hopenUnfilled := hopen.unfilled_eq order.info
  rw [if_pos rfl] at hopenUnfilled
  have hfill : amount ≤ unfilled d s order.info := hopen.guards.fill_le
  omega

/-- The step lemma of what orders are paid. -/
theorem body_nominal {info : OrderInfo} (hstd : StandardToken d.toTokenCode info.outputToken)
    (l : Label κ W) (s : World κ W) : (body d l s).Sat (Nominal d info) s := by
  refine body_sat_of_aside (R := Nominal d info) .trans .ofAside l s
    (fun f _ => .ofSame rfl rfl rfl rfl) ?_ ?_
  · intro msgSender order amount _ data
    refine Prog.sat_attempt fun ⟨s₁, c⟩ hopen => ?_
    refine Prog.sat_yieldIf (.refl info) fun s₂ h₂ => ?_
    refine Prog.sat_yieldIf (.refl info) fun s₃ h₃ => ?_
    refine Prog.sat_attempt fun ⟨s₄, before⟩ hpay => ?_
    obtain ⟨hbefore, hsold, hs₄⟩ := chunkPay_spec hpay
    refine Prog.sat_yieldIf_of (.refl info) fun s₅ h₅ hsame => ?_
    refine Prog.sat_attempt fun s₆ hclose => ?_
    obtain ⟨received, hclosed⟩ := chunkClose_spec hclose
    by_cases heq : info = order.info
    · subst heq
      obtain rfl := hsame hstd.noHooks
      exact nominal_chunk hstd (chunkOpen_spec hopen) (h₂.trans h₃) hbefore hsold hs₄ hclosed
    · have h₄ : Nominal d info s₃ s₄ := by
        rw [hs₄]
        exact .ofSame rfl rfl rfl rfl
      have h₆ : Nominal d info s₅ s₆ := by
        refine .ofSame (by rw [hclosed.reactor]) (by rw [hclosed.reactor]) ?_
          (hclosed.unfilled_eq info)
        rw [hclosed.paid_eq info, if_neg heq, Nat.add_zero]
      exact ((chunkOpen_spec hopen).nominal_other heq).trans
        (h₂.trans (h₃.trans (h₄.trans (h₅.trans h₆))))
  · intro order router routeOk minAmountOut _
    refine Prog.sat_attempt fun ⟨s₁, o, inBalBefore⟩ hopen => ?_
    have hopened := fallbackOpen_spec hopen
    refine Prog.sat_yieldIf (.refl info) fun s₂ h₂ => ?_
    refine Prog.sat_attempt fun ⟨s₃, balBefore⟩ happrove => ?_
    obtain ⟨-, -, hs₃⟩ := fallbackApprove_spec happrove
    have h₃ : Nominal d info s₂ s₃ := by
      rw [hs₃]
      exact .ofSame rfl rfl rfl rfl
    intro s₄ h₄
    refine Prog.sat_attempt fun ⟨s₅, amountOut, leftover⟩ hsettle => ?_
    have hsettled := fallbackSettle_spec hsettle
    refine Prog.sat_yieldIf (.refl info) fun s₆ h₆ => ?_
    by_cases heq : info = order.info
    · subst heq
      have htaken₁ : s₁.reactor.fallbackInitiated (d.hashOrder order.info) = true := by
        rw [hopened.reactor]
        exact update_self ..
      intro hfits
      have hfits₁ : CursorsFit s₁ := by
        intro k
        rw [hopened.reactor]
        exact hfits k
      have hmid := h₂.trans (h₃.trans h₄)
      have hfits₄ := (hmid hfits₁).1
      have hfits₅ : CursorsFit s₅ := by
        intro k
        rw [hsettled.reactor]
        exact hfits₄ k
      have htaken₅ : s₅.reactor.fallbackInitiated (d.hashOrder order.info) = true := by
        rw [hsettled.reactor]
        exact hmid.taken hfits₁ htaken₁
      have htaken₆ := h₆.taken hfits₅ htaken₅
      exact Nominal.ofTaken (fun _ => (h₆ hfits₅).1) htaken₆ hfits
    · have hne := d.hash_injective.ne heq
      have h₁ : Nominal d info s s₁ := by
        refine .ofSame (by rw [hopened.reactor]) ?_ (by rw [paid, paid, hopened.reactor]) ?_
        · rw [hopened.reactor]
          exact update_of_ne hne ..
        · rw [hopened.unfilled_eq info, if_neg heq]
      have h₅ : Nominal d info s₄ s₅ := by
        refine .ofSame (by rw [hsettled.reactor]) (by rw [hsettled.reactor]) ?_ ?_
        · rw [paid, paid, hsettled.reactor]
          exact update_of_ne hne ..
        · exact unfilled_eq_of_remaining (by rw [hsettled.reactor]) info
      have hclose : Nominal d info s₆ (fallbackClose d s₆ order.info o amountOut) :=
        .ofSame rfl rfl rfl rfl
      exact h₁.trans (h₂.trans (h₃.trans (h₄.trans (h₅.trans (h₆.trans hclose)))))

/-- The run lemma: before a fallback an order was paid at most its filled
input's worth at the largest price. -/
theorem Reachable.paid_le {s : World κ W} (h : Reachable d s) {info : OrderInfo}
    (hstd : StandardToken d.toTokenCode info.outputToken)
    (hopen : s.reactor.fallbackInitiated (d.hashOrder info) = false) :
    paid d s info + unfilled d s info * 2 ^ 128 ≤ info.inputAmount * 2 ^ 128 := by
  obtain ⟨tokens, block, txs, rfl⟩ := h
  have hnominal : Nominal d info (deployed d tokens block)
      (System.run d txs (deployed d tokens block)) :=
    runTxs_sat (P := fun _ => True) (.refl info) .trans (fun l _ s => body_nominal hstd l s)
      (fun t s => (.ofSame rfl rfl rfl rfl : Nominal d info s (elapse t s))) _
      fun tx _ => tx.all_true
  have hfits : CursorsFit (deployed d tokens block) := fun _ => by
    show 0 < 2 ^ 128
    decide
  have hle := ((hnominal hfits).2 hopen).2
  have hpaid : paid d (deployed d tokens block) info = 0 := rfl
  have hunfilled : unfilled d (deployed d tokens block) info = info.inputAmount := rfl
  rw [hpaid, hunfilled] at hle
  omega

/-! ## A chunk that nobody interrupts -/

/-- What a standard output leg credits to the swapper of `info`. -/
def creditOf (filler : Address) (info : OrderInfo) (output : Nat) : Nat :=
  if filler = info.swapper then 0 else output

/-- What can stop a chunk with a standard output token that nobody
interrupts. -/
inductive LeafStops (d : Deployment κ W) (s : World κ W) (filler : Account) (info : OrderInfo)
    (amount : Nat) : Revert → Prop
  | inputLeg (e : Revert) (h : d.permit2TransferFrom s.tokens d.reactor info.swapper filler amount
      info.inputToken = .error e) : LeafStops d s filler info amount e
  | outputLeg (e : Revert) (pulled : W)
      (pull : d.permit2TransferFrom s.tokens d.reactor info.swapper filler amount info.inputToken
        = .ok pulled)
      (h : d.safeTransferFrom pulled d.reactor info.outputToken filler info.swapper
        (amount * priceNow s info / 10 ^ 18) = .error e) : LeafStops d s filler info amount e
  | minOutput (h : creditOf filler info (amount * priceNow s info / 10 ^ 18)
      < fillFloor info amount) : LeafStops d s filler info amount (.require "min output")
  | minOutputTotal (hlast : amount = unfilled d s info)
      (h : paid d s info + creditOf filler info (amount * priceNow s info / 10 ^ 18)
        < info.minOutputAmount) : LeafStops d s filler info amount (.require "min output total")

theorem exec_chunk_leaf_error {s : World κ W} {filler : Account} {order : SignedOrder}
    {amount : Nat} {e : Revert}
    (h : exec (body d) (.leaf (.executePartialChunk filler order amount)) s = .error e) :
    chunkOpen d s filler order amount = .error e ∨ ∃ s₁ c,
      chunkOpen d s filler order amount = .ok (s₁, c) ∧
      (chunkPay d s₁ filler order.info c = .error e ∨ ∃ s₂ before,
        chunkPay d s₁ filler order.info c = .ok (s₂, before) ∧
        chunkClose d s₂ filler order.info amount c before = .error e) := by
  rw [exec_leaf, body, executePartialChunk, Prog.finish_attempt_eq_error] at h
  simp only [Prod.exists, Prog.finish_yieldIf, Prog.finish_attempt_eq_error, Prog.finish_done,
    reduceCtorEq, and_false, exists_false, or_false] at h
  exact h

section Leaf

variable [Fintype κ] {s : World κ W} {filler : Account} {order : SignedOrder} {amount : Nat}

omit [Fintype κ] in
/-- The close of a chunk that nobody interrupted: neither the measured
balance nor the sum of what was paid fails, and the registration is as it
was. -/
theorem leaf_close_stops (hs : Reachable d s)
    (hstd : StandardToken d.toTokenCode order.info.outputToken)
    (h : ChunkPasses d s filler order amount) {s₁ s₂ : World κ W} {c : OpenChunk} {before : Nat}
    {e : Revert} (hopened : ChunkOpened d s filler order amount s₁ c)
    (houtput : c.outputAmount = amount * priceNow s order.info / 10 ^ 18)
    (hpay : chunkPay d s₁ filler order.info c = .ok (s₂, before))
    (hstops : CloseStops d s₂ filler order.info amount before
      (amount = unfilled d s order.info) e) :
    LeafStops d s filler order.info amount e := by
  obtain ⟨hbefore, hsold, hs₂⟩ := chunkPay_spec hpay
  have hcredited := hstd.transferFrom hsold
  rw [← hbefore, houtput] at hcredited
  change _ = before + creditOf filler order.info (amount * priceNow s order.info / 10 ^ 18)
    at hcredited
  have hpaid : paid d s₂ order.info = paid d s order.info := by
    rw [← hopened.paid_eq order.info, hs₂]
    rfl
  have hauction : s₂.auction = s.auction := by
    rw [hs₂]
    exact hopened.auction
  cases hstops with
  | balanceFell h => omega
  | minOutput received measured h => exact .minOutput (by omega)
  | paidOverflows received measured hover =>
      exfalso
      have hle := hs.paid_le hstd h.noFallback
      have hlow : priceNow s order.info < 2 ^ 128 :=
        Nat.lt_of_le_of_lt (curvePrice_le order.info _ _) order.info.startPrice.isLt
      have hworth : amount * priceNow s order.info / 10 ^ 18 ≤ amount * 2 ^ 128 :=
        Nat.le_trans (Nat.div_le_self _ _) (Nat.mul_le_mul_left _ (Nat.le_of_lt hlow))
      have hcredit : creditOf filler order.info (amount * priceNow s order.info / 10 ^ 18)
          ≤ amount * priceNow s order.info / 10 ^ 18 := by
        unfold creditOf
        split <;> omega
      have htotal := (h.registeredFor hs.visited).total_lt
      have hfill := h.fill_le
      have hword : wordSize = 2 ^ 128 * 2 ^ 128 := by decide
      omega
  | minOutputTotal received measured hlast h => exact .minOutputTotal hlast (by omega)
  | invalidState h' =>
      rw [hauction, h.valid.2.1] at h'
      cases h'

/-- Only the transfers and the output floors are left. -/
theorem leaf_stops (hs : Reachable d s)
    (hstd : StandardToken d.toTokenCode order.info.outputToken)
    (h : ChunkPasses d s filler order amount) {e : Revert}
    (herror : exec (body d) (.leaf (.executePartialChunk filler order amount)) s = .error e) :
    LeafStops d s filler order.info amount e := by
  obtain ⟨c, ⟨houtput, hfloor, hnew⟩, hopens, hfails⟩ := h.opens hs.visited
  cases hpull : d.permit2TransferFrom s.tokens d.reactor order.info.swapper filler amount
    order.info.inputToken with
  | error e' =>
      have hopen := hfails e' hpull
      rcases exec_chunk_leaf_error herror with hopen' | ⟨s₁, c', hopen', -⟩
      · rw [hopen] at hopen'
        cases hopen'
        exact .inputLeg e hpull
      · rw [hopen] at hopen'
        cases hopen'
  | ok pulled =>
      obtain ⟨s₁, hopen, hpulled⟩ := hopens pulled hpull
      rcases exec_chunk_leaf_error herror with hopen' | ⟨s₁', c', hopen', hrest⟩
      · rw [hopen] at hopen'
        cases hopen'
      rw [hopen] at hopen'
      cases hopen'
      rcases hrest with hpay | ⟨s₂, before, hpay, hclose⟩
      · unfold chunkPay at hpay
        rcases bind_eq_error.mp hpay with hsold | ⟨_, -, hrest⟩
        · rw [houtput, hpulled] at hsold
          exact .outputLeg e pulled hpull hsold
        · cases hrest
      have hopened := chunkOpen_spec hopen
      have hreach : Segments d s s₂ :=
        .trans (.single (.chunkOpen filler order amount c hopen))
          (.single (.chunkPay filler order.info c before hpay))
      have hused := (FillAuction.slotKept_run (segments_auction hreach) h.valid.1).used
      have hle := h.fill_le
      exact leaf_close_stops hs hstd h hopened houtput hpay
        (chunkClose_error (hs.visited.segments hreach) hused (h.amount_lt hs.visited) hfloor
          (by omega) hclose)

/-- Without a minimum output, a chunk whose transfers go through is
executed, and what it takes off the order is taken. -/
theorem leaf_succeeds (hs : Reachable d s)
    (hstd : StandardToken d.toTokenCode order.info.outputToken)
    (hmin : (order.info.minOutputAmount : Nat) = 0) (h : ChunkPasses d s filler order amount)
    {pulled sold : W}
    (hpull : d.permit2TransferFrom s.tokens d.reactor order.info.swapper filler amount
      order.info.inputToken = .ok pulled)
    (hsold : d.safeTransferFrom pulled d.reactor order.info.outputToken filler order.info.swapper
      (amount * priceNow s order.info / 10 ^ 18) = .ok sold) :
    ∃ s', exec (body d) (.leaf (.executePartialChunk filler order amount)) s = .ok s' ∧
      unfilled d s' order.info = unfilled d s order.info - amount := by
  cases hexec : exec (body d) (.leaf (.executePartialChunk filler order amount)) s with
  | error e =>
      exfalso
      cases leaf_stops hs hstd h hexec with
      | inputLeg e h' =>
          rw [hpull] at h'
          cases h'
      | outputLeg e pulled' hpull' h' =>
          rw [hpull] at hpull'
          cases hpull'
          rw [hsold] at h'
          cases h'
      | minOutput h' =>
          have hzero : fillFloor order.info amount = 0 := by
            rw [fillFloor, hmin, Nat.zero_mul, Nat.zero_div]
          omega
      | minOutputTotal hlast h' => omega
  | ok s' =>
      refine ⟨s', rfl, ?_⟩
      obtain ⟨s₁, c, s₂, before, hopen, hpay, hclose⟩ := exec_chunk_leaf.mp hexec
      obtain ⟨received, hclosed⟩ := chunkClose_spec hclose
      obtain ⟨-, -, hs₂⟩ := chunkPay_spec hpay
      have hsame : unfilled d s₂ order.info = unfilled d s₁ order.info :=
        unfilled_eq_of_remaining (by rw [hs₂]) _
      have hopened := (chunkOpen_spec hopen).unfilled_eq order.info
      rw [if_pos rfl] at hopened
      rw [hclosed.unfilled_eq order.info, hsame, hopened]

end Leaf

/-- **A chunk whose guards hold is settled but for its transfers and its
floors.** In every state, in the middle of a transaction or not, and
whatever is called while the chunk is open, nothing it computes fails:
what stops it is a transfer, the balance the output leg left, a floor, or
a registration that was settled meanwhile. With a standard output token
and nobody calling, only a transfer or a floor stops it. So an order
without a minimum output can be completed by everyone registered for its
remainder, up to the deadline. -/
theorem chunk_settleable [Fintype κ] {s : World κ W} (hs : Visited d s) (filler : Account)
    (order : SignedOrder) :
    (∀ amount, ChunkPasses d s filler order amount → ∀ turns e,
      (exec (body d) (.mk (.executePartialChunk filler order amount) turns) s = .error e ∨
        ∃ data, 0 < data.length ∧ exec (body d)
          (.mk (.executePartialChunkWithCallback filler order amount data) turns) s = .error e) →
      ChunkStops d s filler order.info amount e) ∧
    (Reachable d s → StandardToken d.toTokenCode order.info.outputToken →
      (∀ amount, ChunkPasses d s filler order amount → ∀ e,
        exec (body d) (.leaf (.executePartialChunk filler order amount)) s = .error e →
        LeafStops d s filler order.info amount e) ∧
      ((order.info.minOutputAmount : Nat) = 0 → Fillable d s order.info filler →
        d.Signs order.info order.sig →
        unfilled d s order.info
          ≤ (s.auction.registrations (d.hashOrder order.info) filler).fillAmount →
        ∀ pulled sold,
          d.permit2TransferFrom s.tokens d.reactor order.info.swapper filler
            (unfilled d s order.info) order.info.inputToken = .ok pulled →
          d.safeTransferFrom pulled d.reactor order.info.outputToken filler order.info.swapper
            (unfilled d s order.info * priceNow s order.info / 10 ^ 18) = .ok sold →
          ∃ s', exec (body d)
            (.leaf (.executePartialChunk filler order (unfilled d s order.info))) s = .ok s' ∧
            unfilled d s' order.info = 0)) := by
  refine ⟨fun amount hpasses turns e herror => ?_, fun hreachable hstd =>
    ⟨fun amount hpasses e herror => leaf_stops hreachable hstd hpasses herror, ?_⟩⟩
  · have hbody : ∀ data, (executePartialChunk d s filler order amount data).RevertsIn
        (Segments d) (ChunkStops d s filler order.info amount) :=
      fun data => executePartialChunk_revertsIn hs hpasses data
    rcases herror with herror | ⟨data, hdata, herror⟩
    · rw [exec] at herror
      exact resume_revertsIn (fun _ => .refl) runCalls_segments (hbody []) herror
    · rw [exec] at herror
      refine resume_revertsIn (fun _ => .refl) runCalls_segments
        (Prog.revertsIn_attempt (fun e' hempty => ?_) fun _ _ => hbody data) herror
      exact absurd hdata (require_eq_error.mp hempty).1
  · intro hmin hf hsig hall pulled sold hpull hsold
    obtain ⟨info, hinfo, hreg⟩ := hs.registered _ _ hf.registered
    obtain rfl := d.hash_injective hinfo
    have hpasses : ChunkPasses d s filler order (unfilled d s order.info) :=
      hf.passes hreachable hreg hsig hall (Nat.le_refl _) fun hne => absurd rfl hne
    obtain ⟨s', hexec, hunfilled⟩ := leaf_succeeds hreachable hstd hmin hpasses hpull hsold
    exact ⟨s', hexec, by rw [hunfilled, Nat.sub_self]⟩

section Runs

/-- An order of 10^12 for any output, at a price that falls by a tenth of
what it is at first in each block, up to block 100. -/
def anyOutput : SignedOrder := ⟨⟨1, 2, 10 ^ 12, 3, 0, 100, 0, 0, 10 ^ 9, 10 ^ 8, 3000⟩, [1]⟩

theorem standard_ledger (T : Address) : StandardToken Ledger.code T where
  noHooks := rfl
  transferFrom := by
    intro w w' spender from_ to_ amount h
    have hmove : Ledger.move w T from_ to_ amount = .ok w' := h
    simp only [Ledger.move, bind_eq_ok, require_eq_ok, pure_eq_ok] at hmove
    obtain ⟨_, hle, rfl⟩ := hmove
    show update₂ _ T to_ _ T to_ = w T to_ + _
    rw [update₂_self]
    by_cases heq : from_ = to_
    · subst heq
      rw [update₂_self, if_pos rfl]
      omega
    · rw [update₂_of_ne (fun h => heq h.2.symm), if_neg heq]

/-- A first filler takes four tenths of the order for 400, a second is
registered for the rest and five blocks later takes it for 300. -/
theorem chunk_settleable_half_price :
    ∃ s s' : World OrderInfo Ledger, ∃ filler : Account,
      unfilled Ledger.deployment s anyOutput.info = 6 * 10 ^ 11 ∧
      priceNow s anyOutput.info = 5 * 10 ^ 8 ∧
      exec (body Ledger.deployment) (.leaf (.executePartialChunk filler anyOutput (6 * 10 ^ 11)))
        s = .ok s' ∧
      unfilled Ledger.deployment s' anyOutput.info = 0 := by
  let first : Account := ⟨8, by decide⟩
  let filler : Account := ⟨7, by decide⟩
  let ledger : Ledger := update₂ (update₂ (update₂ (fun _ _ => 0) 2 1 (10 ^ 12)) 3 8 400) 3 7 300
  let s := run Ledger.deployment
    [.call (.leaf (.register first (8 * 10 ^ 10) anyOutput (4 * 10 ^ 11))),
     .call (.leaf (.executePartialChunk first anyOutput (4 * 10 ^ 11))),
     .call (.leaf (.register filler (12 * 10 ^ 10) anyOutput (6 * 10 ^ 11))), .tick ⟨5, 0⟩]
    (deployed Ledger.deployment ledger ⟨10, 0⟩)
  have hs : Reachable Ledger.deployment s := ⟨_, _, _, rfl⟩
  have hunfilled : unfilled Ledger.deployment s anyOutput.info = 6 * 10 ^ 11 := by decide +kernel
  have hprice : priceNow s anyOutput.info = 5 * 10 ^ 8 := by decide +kernel
  have hf : Fillable Ledger.deployment s anyOutput.info filler :=
    ⟨by decide +kernel, by decide +kernel, by decide +kernel, by decide +kernel,
      by decide +kernel, by decide +kernel, by decide +kernel⟩
  have hlegs : Returns (Ledger.move s.tokens anyOutput.info.inputToken anyOutput.info.swapper
      filler (6 * 10 ^ 11)) fun pulled => Returns (Ledger.move pulled anyOutput.info.outputToken
        filler anyOutput.info.swapper 300) fun _ => True := by
    decide +kernel
  obtain ⟨pulled, hpull, sold, hsold, -⟩ := hlegs
  have houtput : 6 * 10 ^ 11 * (5 * 10 ^ 8) / 10 ^ 18 = 300 := by decide
  have hcomplete := ((chunk_settleable hs.visited filler anyOutput).2 hs (standard_ledger 3)).2
    rfl hf ⟨rfl, by decide⟩ (by decide +kernel) pulled sold
  rw [hunfilled, hprice, houtput] at hcomplete
  obtain ⟨s', hexec, hzero⟩ := hcomplete hpull hsold
  exact ⟨s, s', filler, hunfilled, hprice, hexec, hzero⟩

/-- A filler whose callback has its own registration released: the chunk
takes all that is left, so the order counts as satisfied before it closes. -/
theorem released_meanwhile :
    ∃ s : World OrderInfo Ledger, ∃ filler : Account,
      Reachable Ledger.deployment s ∧ ChunkPasses Ledger.deployment s filler anyOutput (10 ^ 12) ∧
      Returns (exec (body Ledger.deployment)
        (.leaf (.executePartialChunkWithCallback filler anyOutput (10 ^ 12) [1])) s)
        (fun _ => True) ∧
      Reverts (exec (body Ledger.deployment)
        (.mk (.executePartialChunkWithCallback filler anyOutput (10 ^ 12) [1])
          [[.leaf (.releaseRegistration anyOutput.info filler)]]) s)
        (.require "invalid state") := by
  let filler : Account := ⟨7, by decide⟩
  let ledger : Ledger := update₂ (update₂ (fun _ _ => 0) 2 1 (10 ^ 12)) 3 7 1000
  let s := run Ledger.deployment
    [.call (.leaf (.register filler (2 * 10 ^ 11) anyOutput (10 ^ 12)))]
    (deployed Ledger.deployment ledger ⟨10, 0⟩)
  refine ⟨s, filler, ⟨_, _, _, rfl⟩, ?_, by decide +kernel, by decide +kernel⟩
  exact ⟨by decide +kernel, by decide +kernel, by decide +kernel, by decide +kernel,
    by decide +kernel, fun _ => ⟨rfl, by decide⟩, by decide +kernel, by decide +kernel,
    by decide +kernel⟩

end Runs

end System

end NeutronX
