import NeutronX.ChunkStops

/-!
# What a slash says about the filler

A slash asks three questions about the order: is it filled, cancelled,
invalidated? The fill asks many more. Of the answers that are not the
filler's, some cannot stand between it and a fill when the slash succeeds:
none of the three at any time before, nor a fallback, nor any word of the
reactor or the auction (`slash_abandoned`). Others can, because the slash
does not look at them: the swapper's input, the price, and the minimum
chunk.
-/

namespace NeutronX

open Evm Function

namespace System

open PartialFillReactor (ChunkGuards ChunkQuoted chunkPrice)

variable {κ W : Type} [DecidableEq κ] {d : Deployment κ W}

/-! ## What the filler can rely on -/

/-- The registration of `filler` is open, in time, and its order too: no
state of the contracts keeps it from being filled. -/
structure Fillable (d : Deployment κ W) (t : World κ W) (info : OrderInfo) (filler : Address) :
    Prop where
  registered : (t.auction.registrations (d.hashOrder info) filler).filler ≠ 0
  unresolved : (t.auction.registrations (d.hashOrder info) filler).resolved = false
  timely : t.block.number ≤ (t.auction.registrations (d.hashOrder info) filler).deadline
  live : t.reactor.cancelled (d.hashOrder info) = false
  noFallback : t.reactor.fallbackInitiated (d.hashOrder info) = false
  nonceLive : t.reactor.nonceInvalidated info.swapper info.nonce = false
  left : 0 < unfilled d t info

/-- The tokens let the chunk through: the swapper's input can be pulled,
the filler can pay the price, and what the swapper receives for it clears
the floors (and can be recorded in a word). -/
def ChunkPays (d : Deployment κ W) (t : World κ W) (filler : Account) (info : OrderInfo)
    (amount : Nat) : Prop :=
  Returns (d.permit2TransferFrom t.tokens d.reactor info.swapper filler amount info.inputToken)
    fun pulled =>
  Returns (d.safeTransferFrom pulled d.reactor info.outputToken filler info.swapper
    (amount * priceNow t info / 10 ^ 18)) fun sold =>
  d.balanceOf pulled info.outputToken info.swapper
    ≤ d.balanceOf sold info.outputToken info.swapper ∧
  fillFloor info amount ≤ d.balanceOf sold info.outputToken info.swapper
    - d.balanceOf pulled info.outputToken info.swapper ∧
  paid d t info + (d.balanceOf sold info.outputToken info.swapper
    - d.balanceOf pulled info.outputToken info.swapper) < wordSize ∧
  (amount = unfilled d t info →
    info.minOutputAmount ≤ paid d t info + (d.balanceOf sold info.outputToken info.swapper
      - d.balanceOf pulled info.outputToken info.swapper))

/-! ## The chunk succeeds -/

/-- A fillable registration passes the guards of every chunk within it and
within the rules of the order. -/
theorem Fillable.passes {t : World κ W} (h : Reachable d t) {info : OrderInfo}
    {filler : Account} (hf : Fillable d t info filler)
    (hreg : RegisteredFor d t info filler
      (t.auction.registrations (d.hashOrder info) filler)) {sig : Bytes}
    (hsig : d.Signs info sig) {amount : Nat}
    (hfill : amount ≤ (t.auction.registrations (d.hashOrder info) filler).fillAmount)
    (hle : amount ≤ unfilled d t info)
    (hmin : amount ≠ unfilled d t info →
      (info.inputAmount : Nat) * info.minFillBps / 10000 ≤ amount) :
    ChunkPasses d t filler ⟨info, sig⟩ amount := by
  have hvalid : FillAuction.hasValidRegistration t.block t.auction (d.hashOrder info) filler
      amount = true := by
    have hopen := hf.unresolved
    simp only [Registration.resolved, Bool.or_eq_false_iff] at hopen
    simp only [FillAuction.hasValidRegistration, decide_eq_true_eq]
    refine ⟨hreg.filler_eq, hopen.1.1, hopen.1.2, hopen.2, ?_, hf.timely⟩
    exact Nat.le_trans (toUint_le _ _) hfill
  have hunexpired : t.block.number ≤ info.deadline := by
    have htimely := hf.timely
    rw [hreg.deadline] at htimely
    exact Nat.le_trans htimely (toUint_le _ _)
  exact ⟨(reachable_guards h).2.1, hf.live, hf.noFallback, hf.nonceLive, hvalid, fun _ => hsig,
    hunexpired, hle, hmin⟩

/-- **A fillable registration can be filled**: by every amount within it and
within the rules of the order that the tokens let through. -/
theorem Fillable.succeeds [Fintype κ] {t : World κ W} (h : Reachable d t) {info : OrderInfo}
    {filler : Account} (hf : Fillable d t info filler) {sig : Bytes} (hsig : d.Signs info sig)
    {amount : Nat}
    (hfill : amount ≤ (t.auction.registrations (d.hashOrder info) filler).fillAmount)
    (hle : amount ≤ unfilled d t info)
    (hmin : amount ≠ unfilled d t info →
      (info.inputAmount : Nat) * info.minFillBps / 10000 ≤ amount)
    (hpays : ChunkPays d t filler info amount) :
    ∃ t', exec (body d) (.leaf (.executePartialChunk filler ⟨info, sig⟩ amount)) t = .ok t' := by
  obtain ⟨info', hinfo, hreg⟩ := reachable_registered h _ _ hf.registered
  obtain rfl := d.hash_injective hinfo
  obtain ⟨pulled, hpull, sold, hsold, hreceived, hchunk, hfits, htotal⟩ := hpays
  have hpasses := hf.passes h hreg hsig hfill hle hmin
  obtain ⟨c, ⟨houtput, hfloor, hnew⟩, hopens, -⟩ := hpasses.opens h.visited
  obtain ⟨t₁, hopen, hpulled⟩ := hopens pulled hpull
  have hopened := chunkOpen_spec hopen
  have hpaid : t₁.reactor.paidOutput (d.hashOrder info') = paid d t info' := hopened.paid_eq info'
  have hpay : chunkPay d t₁ filler info' c = .ok ({ t₁ with tokens := sold },
      d.balanceOf pulled info'.outputToken info'.swapper) := by
    simp only [chunkPay, hpulled, houtput, hsold]
    rfl
  obtain ⟨auction, hauction⟩ := settlement_succeeds h.visited hf.registered hf.unresolved
    (hpasses.amount_lt h.visited) c.currentRemaining
  obtain ⟨t₃, hclose⟩ : ∃ t₃, chunkClose d { t₁ with tokens := sold } filler info' amount c
      (d.balanceOf pulled info'.outputToken info'.swapper) = .ok t₃ := by
    refine bind_succeeds (checkedSub_eq_ok.mpr ⟨hreceived, rfl⟩) ?_
    refine bind_succeeds (PartialFillReactor.chunkClose_eq_ok.mpr
      ⟨by rw [hfloor]; exact hchunk, ?_, fun hzero => ?_, rfl⟩) ?_
    · rw [hpaid]
      exact hfits
    · have hall : unfilled d t info' - amount = 0 := hnew.symm.trans hzero
      rw [hpaid]
      exact htotal (by omega)
    · refine bind_succeeds (a := auction) ?_ ⟨_, rfl⟩
      rw [hopened.auction, hopened.block]
      exact hauction
  exact ⟨t₃, exec_chunk_leaf.mpr ⟨t₁, c, _, _, hopen, hpay, hclose⟩⟩

/-! ## What a slash rules out -/

theorem reachable_nonceZero {s : World κ W} (h : Reachable d s) (nonce : Uint 256) :
    s.reactor.nonceInvalidated 0 nonce = false := by
  obtain ⟨tokens, block, txs, rfl⟩ := h
  exact (segments_progress (run_segments txs (deployed d tokens block))).nonceZero nonce

/-- Up to its deadline, a registration that is slashed later is fillable. -/
theorem fillable_of_slash {t s s' : World κ W} (h : Reachable d t) (ht : Segments d t s)
    {info : OrderInfo} {filler : Address} {caller : Account}
    (hslash : slash d s caller (d.hashOrder info) filler = .ok s')
    (hused : (t.auction.registrations (d.hashOrder info) filler).filler ≠ 0)
    (htimely : t.block.number ≤ (t.auction.registrations (d.hashOrder info) filler).deadline) :
    Fillable d t info filler := by
  obtain ⟨info', hinfo, hreg⟩ := reachable_registered h _ _ hused
  obtain rfl := d.hash_injective hinfo
  -- what ends an order ends it for good, and then there is no slash
  have hnot : ¬Terminal d t info' := fun hterminal =>
    not_slash_of_releasable
      (releasable_stays (reachable_registered h) ht hused (hreg.releasable_iff.mpr hterminal))
      hslash
  simp only [Terminal, not_or, not_and, Bool.not_eq_true] at hnot
  obtain ⟨hleft, hlive, hnonce⟩ := hnot
  have hunresolved : (t.auction.registrations (d.hashOrder info') filler).resolved = false := by
    by_contra hres
    have hended :=
      (FillAuction.slotKept_run (segments_auction ht) hused).ended (by simpa using hres)
    have hopen := (slash_guards hslash).unresolved
    rw [hended.1] at hopen
    exact hres hopen
  have hnoFallback : t.reactor.fallbackInitiated (d.hashOrder info') = false := by
    by_contra htaken
    exact hleft ((reachable_inputLaw h info').taken (by simpa using htaken)).1
  have hnonceLive : t.reactor.nonceInvalidated info'.swapper info'.nonce = false := by
    by_cases hzero : info'.swapper = 0
    · rw [hzero]
      exact reachable_nonceZero h info'.nonce
    · exact hnonce hzero
  exact ⟨hused, hunresolved, htimely, hlive, hnoFallback, hnonceLive, Nat.pos_of_ne_zero hleft⟩

/-- **A slash is for a registration that could be filled.** If a slash
succeeds, then in every state between transactions from the registration
up to its deadline nothing had ended the order or the registration, and
the filler could have filled any amount that is within the registration
and what is left, is not below the order's minimum (unless it is all that
is left), and that the tokens let through at the price of the block. -/
theorem slash_abandoned [Fintype κ] {t s' : World κ W} (h : Reachable d t)
    (txs : List (Tx (Label κ W) Elapse)) {info : OrderInfo} {filler caller : Account}
    (hslash : slash d (run d txs t) caller (d.hashOrder info) filler = .ok s')
    (hused : (t.auction.registrations (d.hashOrder info) filler).filler ≠ 0)
    (htimely : t.block.number ≤ (t.auction.registrations (d.hashOrder info) filler).deadline) :
    Fillable d t info filler ∧
    ∃ sig, ∀ (tokens : W) (amount : Nat),
      amount ≤ (t.auction.registrations (d.hashOrder info) filler).fillAmount →
      amount ≤ unfilled d t info →
      (amount ≠ unfilled d t info →
        (info.inputAmount : Nat) * info.minFillBps / 10000 ≤ amount) →
      ChunkPays d { t with tokens } filler info amount →
      ∃ t', exec (body d) (.leaf (.executePartialChunk filler ⟨info, sig⟩ amount))
        { t with tokens } = .ok t' := by
  have hf := fillable_of_slash h (run_segments txs t) hslash hused htimely
  obtain ⟨info', hinfo, hreg⟩ := reachable_registered h _ _ hused
  obtain rfl := d.hash_injective hinfo
  obtain ⟨sig, hsig⟩ := hreg.signed
  refine ⟨hf, sig, fun tokens amount hfill hle hmin hpays => ?_⟩
  have htokens : Reachable d { t with tokens } := h.run [.call (.leaf (.tokens fun _ => tokens))]
  have hf' : Fillable d { t with tokens } info' filler :=
    ⟨hf.registered, hf.unresolved, hf.timely, hf.live, hf.noFallback, hf.nonceLive, hf.left⟩
  exact hf'.succeeds htokens hsig hfill hle hmin hpays

/-- A registration for 400 nobody filled: it could have filled 400. -/
theorem slash_abandoned_idle :
    ∃ t t' : World OrderInfo Ledger, ∃ info : OrderInfo, ∃ sig,
      Fillable Ledger.deployment t info 7 ∧
      exec (body Ledger.deployment) (.leaf (.executePartialChunk ⟨7, by decide⟩ ⟨info, sig⟩ 400)) t
        = .ok t' := by
  let info : OrderInfo := ⟨1, 2, 1000, 3, 900, 100, 0, 0, 10 ^ 18, 0, 3000⟩
  let filler : Account := ⟨7, by decide⟩
  let ledger : Ledger := update₂ (update₂ (fun _ _ => 0) 2 1 1000) 3 7 400
  let t := run Ledger.deployment [.call (.leaf (.register filler 80 ⟨info, [1]⟩ 400))]
    (deployed Ledger.deployment ledger ⟨10, 0⟩)
  have ht : Reachable Ledger.deployment t := ⟨_, _, _, rfl⟩
  have hslash : Returns (slash Ledger.deployment (run Ledger.deployment [.tick ⟨141, 0⟩] t)
      ⟨9, by decide⟩ info filler) fun _ => True := by decide +kernel
  obtain ⟨s', hok, -⟩ := hslash
  have hpays : ChunkPays Ledger.deployment t filler info 400 := by
    unfold ChunkPays
    decide +kernel
  obtain ⟨hf, sig, hfill⟩ := slash_abandoned ht [.tick ⟨141, 0⟩] hok (by decide +kernel)
    (by decide +kernel)
  obtain ⟨t', ht'⟩ := hfill t.tokens 400 (by decide +kernel) (by decide +kernel)
    (by decide +kernel) hpays
  exact ⟨t, t', info, sig, hf, ht'⟩

/-! ## What it does not rule out -/

/-- In the `blocks` blocks after `s` the filler can fill no amount up to
`cap`, with any signature and in any state of the tokens that satisfies
`P`. -/
def NeverFills (d : Deployment κ W) (s : World κ W) (info : OrderInfo) (filler : Account)
    (cap blocks : Nat) (P : W → Prop) : Prop :=
  ∀ n, n ≤ blocks → ∀ tokens, P tokens → ∀ sig amount s', amount ≤ cap →
    exec (body d) (.leaf (.executePartialChunk filler ⟨info, sig⟩ amount))
      { elapse ⟨n, 0⟩ s with tokens } ≠ .ok s'

/-- A chunk that does not take all that is left is at least the minimum. -/
theorem minFill_of_chunk {s s' : World κ W} {info : OrderInfo} {sig : Bytes} {filler : Account}
    {amount rest : Nat} (hrest : unfilled d s info = rest) (hne : amount ≠ rest)
    (h : exec (body d) (.leaf (.executePartialChunk filler ⟨info, sig⟩ amount)) s = .ok s') :
    (info.inputAmount : Nat) * info.minFillBps / 10000 ≤ amount := by
  obtain ⟨s₁, c, s₂, balBefore, hopen, -, -⟩ := exec_chunk_leaf.mp h
  refine ((chunkOpen_spec hopen).guards.minFill ?_).le_fill
  rw [← hrest] at hne
  exact hne

/-- A registration for 100 units of an order that accepts no fewer than 500. -/
theorem neverFills_small :
    ∃ s s' : World OrderInfo Ledger, ∃ info : OrderInfo, ∃ filler caller : Account,
      Reachable Ledger.deployment s ∧ s.block.number = 10 ∧
      (s.auction.registrations info filler).fillAmount = 100 ∧
      NeverFills Ledger.deployment s info filler 100 90 (fun _ => True) ∧
      slash Ledger.deployment (elapse ⟨141, 0⟩ s) caller info filler = .ok s' := by
  let info : OrderInfo := ⟨1, 2, 1000, 3, 900, 100, 0, 5000, 10 ^ 18, 0, 3000⟩
  let filler : Account := ⟨7, by decide⟩
  let s := run Ledger.deployment [.call (.leaf (.register filler 20 ⟨info, [1]⟩ 100))]
    (deployed Ledger.deployment (fun _ _ => 0) ⟨10, 0⟩)
  have hslash : Returns (slash Ledger.deployment (elapse ⟨141, 0⟩ s) ⟨9, by decide⟩ info filler)
      fun _ => s.block.number = 10 ∧ (s.auction.registrations info filler).fillAmount = 100 := by
    decide +kernel
  have hrest : unfilled Ledger.deployment s info = 1000 := by decide +kernel
  have hs : Reachable Ledger.deployment s := ⟨_, _, _, rfl⟩
  obtain ⟨s', hok, hblock, hamount⟩ := hslash
  clear_value s
  refine ⟨s, s', info, filler, _, hs, hblock, hamount, ?_, hok⟩
  intro n _ tokens _ sig amount t hcap hexec
  have hlater : unfilled Ledger.deployment { elapse ⟨n, 0⟩ s with tokens } info = 1000 := hrest
  have hmin := minFill_of_chunk hlater (by omega) hexec
  have hfloor : (info.inputAmount : Nat) * info.minFillBps / 10000 = 500 := by decide
  omega

/-- A registration for all of an order whose swapper has none of the input. -/
theorem neverFills_unfunded :
    ∃ s s' : World OrderInfo Ledger, ∃ info : OrderInfo, ∃ filler caller : Account,
      Reachable Ledger.deployment s ∧ s.block.number = 10 ∧
      (s.auction.registrations info filler).fillAmount = 1000 ∧
      s.tokens info.inputToken info.swapper = 0 ∧
      NeverFills Ledger.deployment s info filler 1000 90
        (fun tokens => tokens info.inputToken info.swapper = 0) ∧
      slash Ledger.deployment (elapse ⟨141, 0⟩ s) caller info filler = .ok s' := by
  let info : OrderInfo := ⟨1, 2, 1000, 3, 900, 100, 0, 5000, 10 ^ 18, 0, 3000⟩
  let filler : Account := ⟨7, by decide⟩
  let s := run Ledger.deployment [.call (.leaf (.register filler 200 ⟨info, [1]⟩ 1000))]
    (deployed Ledger.deployment (fun _ _ => 0) ⟨10, 0⟩)
  have hslash : Returns (slash Ledger.deployment (elapse ⟨141, 0⟩ s) ⟨9, by decide⟩ info filler)
      fun _ => s.block.number = 10 ∧ (s.auction.registrations info filler).fillAmount = 1000 := by
    decide +kernel
  have hrest : unfilled Ledger.deployment s info = 1000 := by decide +kernel
  have hs : Reachable Ledger.deployment s := ⟨_, _, _, rfl⟩
  have hnone : s.tokens info.inputToken info.swapper = 0 := by decide +kernel
  obtain ⟨s', hok, hblock, hamount⟩ := hslash
  clear_value s
  refine ⟨s, s', info, filler, _, hs, hblock, hamount, hnone, ?_, hok⟩
  intro n _ tokens hempty sig amount t hcap hexec
  have hlater : unfilled Ledger.deployment { elapse ⟨n, 0⟩ s with tokens } info = 1000 := hrest
  obtain ⟨s₁, c, s₂, balBefore, hopen, -, -⟩ := exec_chunk_leaf.mp hexec
  have hleg : Ledger.move tokens info.inputToken info.swapper filler (toUint 160 amount)
      = .ok s₁.tokens := (chunkOpen_spec hopen).inputLeg
  simp only [Ledger.move, bind_eq_ok, require_eq_ok] at hleg
  obtain ⟨_, hle, -⟩ := hleg
  rw [hempty, toUint_of_lt (Nat.lt_of_le_of_lt hcap (by decide))] at hle
  have hmin := minFill_of_chunk hlater (by omega) hexec
  have hfloor : (info.inputAmount : Nat) * info.minFillBps / 10000 = 500 := by decide
  omega

/-- A price that has decayed to nothing brings the swapper nothing. -/
theorem chunk_free {s s' : World OrderInfo Ledger} {info : OrderInfo} {sig : Bytes}
    {filler : Account} {amount : Nat} (h : Reachable Ledger.deployment s)
    (hprice : priceNow s info = 0)
    (hexec : exec (body Ledger.deployment)
      (.leaf (.executePartialChunk filler ⟨info, sig⟩ amount)) s = .ok s') :
    fillFloor info amount = 0 := by
  obtain ⟨s₁, c, s₂, balBefore, hopen, hpay, hclose⟩ := exec_chunk_leaf.mp hexec
  have hopened := chunkOpen_spec hopen
  obtain ⟨cursor, hquoted, -⟩ := hopened.quoted
  have hquote : c.currentPrice = 0 :=
    (((reachable_historyLaw h).curve info hopened.guards.noFallback).chunkQuoted
      hquoted).1.trans hprice
  have houtput : c.outputAmount = 0 := by
    have hout := (mulDiv_eq_ok.mp hquoted.outputAmount).2
    rw [← hout, hquote, Nat.mul_zero, Nat.zero_div]
  obtain ⟨hbefore, hsold, -⟩ := chunkPay_spec hpay
  rw [houtput] at hsold
  have hsame : s₂.tokens = s₁.tokens := Ledger.eq_of_move_zero hsold
  obtain ⟨received, hclosed⟩ := chunkClose_spec hclose
  have hmeasured := hclosed.measured
  rw [hbefore, hsame] at hmeasured
  have hfloor := hclosed.floor
  have hminChunk : fillFloor info amount = c.minChunk := (mulDiv_eq_ok.mp hquoted.minChunk).2
  omega

/-- A registration for the second half of an order, a block after the first
half was filled, and the block in which the price reached 0. -/
theorem neverFills_decayed :
    ∃ s s' : World OrderInfo Ledger, ∃ info : OrderInfo, ∃ filler caller : Account,
      Reachable Ledger.deployment s ∧ s.block.number = 11 ∧
      (s.auction.registrations info filler).fillAmount = 5 * 10 ^ 11 ∧
      NeverFills Ledger.deployment s info filler (5 * 10 ^ 11) 89 (fun _ => True) ∧
      slash Ledger.deployment (elapse ⟨140, 0⟩ s) caller info filler = .ok s' := by
  let info : OrderInfo :=
    ⟨1, 2, 10 ^ 12, 3, 900, 100, 0, 5000, 10 ^ 9, 4 * 10 ^ 9, 3000⟩
  let filler : Account := ⟨7, by decide⟩
  let other : Account := ⟨8, by decide⟩
  let ledger : Ledger := update₂ (update₂ (fun _ _ => 0) 2 1 (10 ^ 12)) 3 8 500
  let s := run Ledger.deployment
    [.call (.leaf (.register other (10 ^ 11) ⟨info, [1]⟩ (5 * 10 ^ 11))),
     .call (.leaf (.executePartialChunk other ⟨info, [1]⟩ (5 * 10 ^ 11))),
     .tick ⟨1, 0⟩,
     .call (.leaf (.register filler (10 ^ 11) ⟨info, [1]⟩ (5 * 10 ^ 11)))]
    (deployed Ledger.deployment ledger ⟨10, 0⟩)
  have hslash : Returns (slash Ledger.deployment (elapse ⟨140, 0⟩ s) ⟨9, by decide⟩ info filler)
      fun _ => s.block.number = 11 ∧
        (s.auction.registrations info filler).fillAmount = 5 * 10 ^ 11 := by
    decide +kernel
  have hrest : unfilled Ledger.deployment s info = 5 * 10 ^ 11 := by decide +kernel
  have hblocks : chunkBlocks info s.trace = [10] := by decide +kernel
  have hs : Reachable Ledger.deployment s := ⟨_, _, _, rfl⟩
  obtain ⟨s', hok, hblock, hamount⟩ := hslash
  clear_value s
  refine ⟨s, s', info, filler, _, hs, hblock, hamount, ?_, hok⟩
  intro n _ tokens _ sig amount t hcap hexec
  have hlater : Reachable Ledger.deployment { elapse ⟨n, 0⟩ s with tokens } :=
    hs.run [.tick ⟨n, 0⟩, .call (.leaf (.tokens fun _ => tokens))]
  have hprice : priceNow { elapse ⟨n, 0⟩ s with tokens } info = 0 := by
    show curvePrice info (chunkBlocks info s.trace) (s.block.number + n) = 0
    rw [hblocks, hblock]
    show 10 ^ 9 - (11 + n - 10) * (4 * 10 ^ 9) = 0
    omega
  have hfree := chunk_free hlater hprice hexec
  have hunfilled : unfilled Ledger.deployment { elapse ⟨n, 0⟩ s with tokens } info
      = 5 * 10 ^ 11 := hrest
  have hfloor : (info.inputAmount : Nat) * info.minFillBps / 10000 = 5 * 10 ^ 11 := by decide
  have hhalf : fillFloor info (5 * 10 ^ 11) = 450 := by decide
  by_cases hall : amount = 5 * 10 ^ 11
  · rw [hall, hhalf] at hfree
    cases hfree
  · have hmin := minFill_of_chunk hunfilled hall hexec
    omega

/-- Three fillers that could fill nothing up to their deadline, output
tokens at will, and were slashed after it: registered for less than the
order's minimum, against a swapper without the input, and after the price
was gone. -/
theorem slash_not_abandoned :
    (∃ s s' : World OrderInfo Ledger, ∃ info : OrderInfo, ∃ filler caller : Account,
      Reachable Ledger.deployment s ∧ s.block.number = 10 ∧
      (s.auction.registrations info filler).fillAmount = 100 ∧
      NeverFills Ledger.deployment s info filler 100 90 (fun _ => True) ∧
      slash Ledger.deployment (elapse ⟨141, 0⟩ s) caller info filler = .ok s') ∧
    (∃ s s' : World OrderInfo Ledger, ∃ info : OrderInfo, ∃ filler caller : Account,
      Reachable Ledger.deployment s ∧ s.block.number = 10 ∧
      (s.auction.registrations info filler).fillAmount = 1000 ∧
      s.tokens info.inputToken info.swapper = 0 ∧
      NeverFills Ledger.deployment s info filler 1000 90
        (fun tokens => tokens info.inputToken info.swapper = 0) ∧
      slash Ledger.deployment (elapse ⟨141, 0⟩ s) caller info filler = .ok s') ∧
    (∃ s s' : World OrderInfo Ledger, ∃ info : OrderInfo, ∃ filler caller : Account,
      Reachable Ledger.deployment s ∧ s.block.number = 11 ∧
      (s.auction.registrations info filler).fillAmount = 5 * 10 ^ 11 ∧
      NeverFills Ledger.deployment s info filler (5 * 10 ^ 11) 89 (fun _ => True) ∧
      slash Ledger.deployment (elapse ⟨140, 0⟩ s) caller info filler = .ok s') :=
  ⟨neverFills_small, neverFills_unfunded, neverFills_decayed⟩

end System

end NeutronX
