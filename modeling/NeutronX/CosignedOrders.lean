import NeutronX.InputAccounting

/-!
# Only cosigned orders move input

The cosigner's signature is checked when a filler registers, on the first
chunk of an order and by the fallback; later chunks trust the raw
remaining word under the order's hash. `HistoryLaw` is what makes the
trust sound: a word that was ever written belongs to an order whose
signature was verified, and the price cursor next to it is the signed
curve run through the blocks of the chunks so far.

From it, every pull in the history of a run is preceded by a verified
signature over the order it is for, and a chunk's price is a function of
the signed curve and of block numbers (`Justified`).
-/

namespace NeutronX

open Evm Function

namespace System

open PartialFillReactor (OpenChunk ChunkQuoted Validated chunkPrice)
open FallbackExecutor (OpenFallback)

variable {κ W : Type} [DecidableEq κ] {d : Deployment κ W}

/-! ## The signed price curve -/

/-- The blocks in which chunks of an order were opened, newest first. -/
def chunkBlocks (info : OrderInfo) : List TraceEvent → List Nat
  | [] => []
  | .inputPulled i _ _ (.chunk _ b) :: es =>
      if i = info then b :: chunkBlocks info es else chunkBlocks info es
  | .inputPulled _ _ _ .fallback :: es => chunkBlocks info es
  | .orderVerified _ _ :: es => chunkBlocks info es
  | .outputCredited _ _ _ _ :: es => chunkBlocks info es

/-- The price at block `now` after chunks in the given blocks: the signed
start price, less the signed decay for every block since the last chunk
(of whose number the cursor keeps 64 bits). -/
def curvePrice (info : OrderInfo) : List Nat → Nat → Nat
  | [], _ => info.startPrice
  | b :: bs, now => curvePrice info bs b - (now - toUint 64 b) * info.decayPerBlock

theorem curvePrice_le (info : OrderInfo) :
    ∀ (bs : List Nat) (now : Nat), curvePrice info bs now ≤ info.startPrice
  | [], _ => Nat.le_refl _
  | b :: bs, _ => Nat.le_trans (Nat.sub_le _ _) (curvePrice_le info bs b)

/-- The cursor of an order whose last chunk was opened in block `b`. -/
def curveCursor (info : OrderInfo) (b : Nat) (bs : List Nat) : DecayCursor :=
  ⟨curvePrice info bs b, toUint 64 b, info.decayPerBlock⟩

omit [DecidableEq κ] in
/-- A chunk is priced by the curve, and leaves the curve's cursor. -/
theorem chunkPrice_curve {blk : Block} {info : OrderInfo} {cursor cursor' : DecayCursor}
    {first : Bool} {price : Nat} {bs : List Nat}
    (h : chunkPrice blk cursor info first = .ok (price, cursor'))
    (hfirst : first = true → bs = [])
    (hlater : first = false → ∃ b bs', bs = b :: bs' ∧ cursor = curveCursor info b bs') :
    price = curvePrice info bs blk.number ∧ cursor' = curveCursor info blk.number bs := by
  unfold chunkPrice at h
  cases first with
  | true =>
      rw [hfirst rfl]
      simp only [if_true, pure_eq_ok, Prod.mk.injEq] at h
      obtain ⟨rfl, rfl⟩ := h
      exact ⟨rfl, rfl⟩
  | false =>
      obtain ⟨b, bs', rfl, rfl⟩ := hlater rfl
      simp only [Bool.false_eq_true, if_false, bind_eq_ok, pure_eq_ok, Prod.mk.injEq] at h
      obtain ⟨p, hp, rfl, rfl⟩ := h
      have hw : (curveCursor info b bs').currentStartPrice < 2 ^ 128 :=
        Nat.lt_of_le_of_lt (curvePrice_le info bs' b) info.startPrice.isLt
      have hprice := (DecayCursorLib.getCurrentPrice_eq_ok hw hp).2
      refine ⟨hprice, ?_⟩
      rw [hprice]
      rfl

/-! ## Justified pulls -/

/-- The history before a pull for `info` contains a verified cosigner
signature over it, and prices a chunk by the signed curve. -/
structure Justified (d : Deployment κ W) (info : OrderInfo) (leg : Leg)
    (older : List TraceEvent) : Prop where
  verified : ∃ sig, .orderVerified info sig ∈ older ∧ d.Signs info sig
  priced : ∀ price b, leg = .chunk price b → price = curvePrice info (chunkBlocks info older) b

/-- Every pull in a history is justified by what is older. -/
def TraceJustified (d : Deployment κ W) : List TraceEvent → Prop
  | [] => True
  | .inputPulled info _ _ leg :: older => Justified d info leg older ∧ TraceJustified d older
  | .orderVerified _ _ :: older => TraceJustified d older
  | .outputCredited _ _ _ _ :: older => TraceJustified d older

omit [DecidableEq κ] in
theorem TraceJustified.at_pull {info : OrderInfo} {to_ : Address} {amount : Nat} {leg : Leg}
    {older : List TraceEvent} :
    ∀ {newer : List TraceEvent},
      TraceJustified d (newer ++ .inputPulled info to_ amount leg :: older) →
      Justified d info leg older
  | [], h => h.1
  | .inputPulled _ _ _ _ :: _, h => TraceJustified.at_pull (by exact h.2)
  | .orderVerified _ _ :: newer, h =>
      TraceJustified.at_pull (show TraceJustified d (newer ++ _ :: older) from h)
  | .outputCredited _ _ _ _ :: newer, h =>
      TraceJustified.at_pull (show TraceJustified d (newer ++ _ :: older) from h)

/-! ## The law -/

/-- What the price cursor of an open order says. -/
structure CurveLaw (d : Deployment κ W) (s : World κ W) (info : OrderInfo) : Prop where
  new : s.reactor.remaining (d.hashOrder info) = 0 → chunkBlocks info s.trace = []
  started : s.reactor.remaining (d.hashOrder info) ≠ 0 → ∃ b bs,
    chunkBlocks info s.trace = b :: bs ∧
    s.reactor.cursors (d.hashOrder info) = curveCursor info b bs ∧ b ≤ s.block.number

omit [DecidableEq κ] in
theorem CurveLaw.keep {s s' : World κ W} {info : OrderInfo} (h : CurveLaw d s info)
    (hblock : s.block.number ≤ s'.block.number)
    (hremaining : s'.reactor.remaining (d.hashOrder info) = s.reactor.remaining (d.hashOrder info))
    (hcursors : s'.reactor.cursors (d.hashOrder info) = s.reactor.cursors (d.hashOrder info))
    (hblocks : chunkBlocks info s'.trace = chunkBlocks info s.trace) : CurveLaw d s' info where
  new := by
    rw [hremaining, hblocks]
    exact h.new
  started := fun hne => by
    rw [hremaining] at hne
    obtain ⟨b, bs, hbs, hcursor, hb⟩ := h.started hne
    exact ⟨b, bs, hblocks.trans hbs, hcursors.trans hcursor, Nat.le_trans hb hblock⟩

omit [DecidableEq κ] in
/-- What a chunk is quoted in a state whose cursor follows the curve. -/
theorem CurveLaw.chunkQuoted {s : World κ W} {info : OrderInfo} (h : CurveLaw d s info)
    {fillAmount : Nat} {c : OpenChunk} {cursor : DecayCursor}
    (hquoted : ChunkQuoted d.toOrderAuth s.block s.reactor info fillAmount c cursor) :
    c.currentPrice = curvePrice info (chunkBlocks info s.trace) s.block.number ∧
    cursor = curveCursor info s.block.number (chunkBlocks info s.trace) := by
  refine chunkPrice_curve hquoted.price (fun hfirst => h.new ?_) (fun hlater => ?_)
  · rw [hquoted.isFirstFill, decide_eq_true_eq] at hfirst
    exact hfirst
  · rw [hquoted.isFirstFill, decide_eq_false_iff_not] at hlater
    obtain ⟨b, bs, hbs, hcursor, -⟩ := h.started hlater
    exact ⟨b, bs, hbs, hcursor⟩

structure HistoryLaw (d : Deployment κ W) (s : World κ W) : Prop where
  /-- whatever entry point accepted an order checked its signature and that
  its floor is reachable -/
  accepted : ∀ info sig, .orderVerified info sig ∈ s.trace → d.Signs info sig ∧
    info.minOutputAmount ≤ (info.inputAmount : Nat) * info.startPrice / 10 ^ 18
  written : ∀ info, s.reactor.remaining (d.hashOrder info) ≠ 0 →
    ∃ sig, .orderVerified info sig ∈ s.trace
  curve : ∀ info, s.reactor.fallbackInitiated (d.hashOrder info) = false → CurveLaw d s info
  justified : TraceJustified d s.trace

omit [DecidableEq κ] in
/-- A history that grows by events other than pulls, over the same words
and cursors. -/
theorem HistoryLaw.keep {s s' : World κ W} (h : HistoryLaw d s)
    (hblock : s.block.number ≤ s'.block.number)
    (hremaining : s'.reactor.remaining = s.reactor.remaining)
    (hcursors : s'.reactor.cursors = s.reactor.cursors)
    (hfallback : s'.reactor.fallbackInitiated = s.reactor.fallbackInitiated)
    (haccepted : ∀ info sig, .orderVerified info sig ∈ s'.trace → d.Signs info sig ∧
      info.minOutputAmount ≤ (info.inputAmount : Nat) * info.startPrice / 10 ^ 18)
    (hmem : ∀ e ∈ s.trace, e ∈ s'.trace)
    (hblocks : ∀ info, chunkBlocks info s'.trace = chunkBlocks info s.trace)
    (hjustified : TraceJustified d s.trace → TraceJustified d s'.trace) : HistoryLaw d s' where
  accepted := haccepted
  written := fun info hne => by
    rw [hremaining] at hne
    obtain ⟨sig, hsig⟩ := h.written info hne
    exact ⟨sig, hmem _ hsig⟩
  curve := fun info hopen => by
    rw [hfallback] at hopen
    exact (h.curve info hopen).keep hblock (by rw [hremaining]) (by rw [hcursors]) (hblocks info)
  justified := hjustified h.justified

omit [DecidableEq κ] in
theorem HistoryLaw.keepSame {s s' : World κ W} (h : HistoryLaw d s)
    (hblock : s.block.number ≤ s'.block.number)
    (hremaining : s'.reactor.remaining = s.reactor.remaining)
    (hcursors : s'.reactor.cursors = s.reactor.cursors)
    (hfallback : s'.reactor.fallbackInitiated = s.reactor.fallbackInitiated)
    (htrace : s'.trace = s.trace) : HistoryLaw d s' :=
  h.keep hblock hremaining hcursors hfallback (by rw [htrace]; exact h.accepted)
    (by rw [htrace]; exact fun _ he => he) (fun info => by rw [htrace])
    (by rw [htrace]; exact fun hj => hj)

omit [DecidableEq κ] in
theorem HistoryLaw.keepCredited {s s' : World κ W} {i : OrderInfo} {fill amount : Nat}
    {during : Option (Address × Address)} (h : HistoryLaw d s)
    (hblock : s'.block = s.block)
    (hremaining : s'.reactor.remaining = s.reactor.remaining)
    (hcursors : s'.reactor.cursors = s.reactor.cursors)
    (hfallback : s'.reactor.fallbackInitiated = s.reactor.fallbackInitiated)
    (htrace : s'.trace = .outputCredited i fill amount during :: s.trace) : HistoryLaw d s' := by
  refine h.keep (by rw [hblock]) hremaining hcursors hfallback ?_ ?_ (fun info => ?_) ?_
  · intro info sig hmem
    rw [htrace, List.mem_cons] at hmem
    rcases hmem with hmem | hmem
    · cases hmem
    · exact h.accepted info sig hmem
  · rw [htrace]
    exact fun _ he => List.mem_cons_of_mem _ he
  · rw [htrace, chunkBlocks]
  · rw [htrace]
    exact fun hj => hj

omit [DecidableEq κ] in
theorem HistoryLaw.keepVerified {s s' : World κ W} {order : SignedOrder}
    {blk : Block} {reactor : ReactorState κ} (h : HistoryLaw d s)
    (hvalid : Validated d.toOrderAuth blk reactor order) (hblock : s'.block = s.block)
    (hremaining : s'.reactor.remaining = s.reactor.remaining)
    (hcursors : s'.reactor.cursors = s.reactor.cursors)
    (hfallback : s'.reactor.fallbackInitiated = s.reactor.fallbackInitiated)
    (htrace : s'.trace = .orderVerified order.info order.sig :: s.trace) : HistoryLaw d s' := by
  refine h.keep (by rw [hblock]) hremaining hcursors hfallback ?_ ?_ (fun info => ?_) ?_
  · intro info sig hmem
    rw [htrace, List.mem_cons] at hmem
    rcases hmem with hmem | hmem
    · cases hmem
      exact ⟨hvalid.signed, hvalid.reachable⟩
    · exact h.accepted info sig hmem
  · rw [htrace]
    exact fun _ he => List.mem_cons_of_mem _ he
  · rw [htrace, chunkBlocks]
  · rw [htrace]
    exact fun hj => hj

/-! ## A chunk -/

/-- The history the pull of a chunk is added to: a first fill verifies the
signature before. -/
def chunkHistory (s : World κ W) (order : SignedOrder) (c : OpenChunk) : List TraceEvent :=
  (if c.isFirstFill then [.orderVerified order.info order.sig] else []) ++ s.trace

section ChunkHistory

variable {s s' : World κ W} {msgSender : Account} {order : SignedOrder} {fillAmount : Nat}
  {c : OpenChunk}

omit [DecidableEq κ] in
theorem chunkBlocks_chunkHistory (info : OrderInfo) :
    chunkBlocks info (chunkHistory s order c) = chunkBlocks info s.trace := by
  unfold chunkHistory
  split <;> rfl

omit [DecidableEq κ] in
theorem TraceJustified.chunkHistory (h : TraceJustified d s.trace) :
    TraceJustified d (System.chunkHistory s order c) := by
  unfold System.chunkHistory
  split
  · exact h
  · exact h

omit [DecidableEq κ] in
theorem mem_chunkHistory {e : TraceEvent} (h : e ∈ s.trace) : e ∈ chunkHistory s order c :=
  List.mem_append_right _ h

theorem HistoryLaw.accepted_chunkHistory (h : HistoryLaw d s)
    (hopen : ChunkOpened d s msgSender order fillAmount s' c) (info : OrderInfo) (sig : Bytes)
    (hsig : .orderVerified info sig ∈ chunkHistory s order c) : d.Signs info sig ∧
      info.minOutputAmount ≤ (info.inputAmount : Nat) * info.startPrice / 10 ^ 18 := by
  rcases List.mem_append.mp hsig with hsig | hsig
  · split at hsig
    · rename_i hfirst
      obtain ⟨cursor, hquoted, -⟩ := hopen.quoted
      rw [hquoted.isFirstFill, decide_eq_true_eq] at hfirst
      have hvalid := hopen.guards.validated hfirst
      cases List.mem_singleton.mp hsig
      exact ⟨hvalid.signed, hvalid.reachable⟩
    · cases hsig
  · exact h.accepted info sig hsig

/-- A first fill verifies the signature, a later one finds it verified. -/
theorem HistoryLaw.verified_chunkHistory (h : HistoryLaw d s)
    (hopen : ChunkOpened d s msgSender order fillAmount s' c) :
    ∃ sig, .orderVerified order.info sig ∈ chunkHistory s order c := by
  by_cases hraw : s.reactor.remaining (d.hashOrder order.info) = 0
  · obtain ⟨cursor, hquoted, -⟩ := hopen.quoted
    have hfirst : c.isFirstFill = true := by rw [hquoted.isFirstFill, hraw]; rfl
    refine ⟨order.sig, List.mem_append_left _ ?_⟩
    rw [hfirst]
    exact List.mem_singleton_self _
  · obtain ⟨sig, hsig⟩ := h.written order.info hraw
    exact ⟨sig, mem_chunkHistory hsig⟩

/-- The word a chunk writes is not that of a new order. -/
theorem ChunkOpened.store_ne_zero (hreg : Registered d s)
    (hopen : ChunkOpened d s msgSender order fillAmount s' c) :
    RemainingLib.store c.newRemaining ≠ 0 := by
  obtain ⟨cursor, hquoted, -⟩ := hopen.quoted
  have hsmall : RemainingLib.remaining (s.reactor.remaining (d.hashOrder order.info))
      order.info.inputAmount < maxUint 256 :=
    RemainingLib.remaining_lt fun _ => Nat.lt_trans (hopen.total_lt hreg) (by decide)
  refine RemainingLib.store_ne_zero (Nat.lt_of_le_of_lt ?_ hsmall)
  rw [hquoted.newRemaining, hquoted.currentRemaining]
  exact Nat.sub_le _ _

/-- The cursor of the order is the curve's after the chunk, and the others
stay where they are. -/
theorem CurveLaw.chunkOpen {info : OrderInfo} (h : CurveLaw d s info) (hreg : Registered d s)
    (hopen : ChunkOpened d s msgSender order fillAmount s' c) : CurveLaw d s' info := by
  obtain ⟨cursor, hquoted, hreactor⟩ := hopen.quoted
  by_cases heq : info = order.info
  · subst heq
    refine ⟨fun hzero => ?_, fun _ => ⟨s.block.number, chunkBlocks order.info s.trace, ?_, ?_, ?_⟩⟩
    · rw [hreactor] at hzero
      simp only [PartialFillReactor.opened, update_self] at hzero
      exact absurd hzero (hopen.store_ne_zero hreg)
    · rw [hopen.trace, chunkBlocks, if_pos rfl]
      exact congrArg _ (chunkBlocks_chunkHistory order.info)
    · rw [hreactor]
      simp only [PartialFillReactor.opened, update_self]
      exact (h.chunkQuoted hquoted).2
    · rw [hopen.block]
  · refine h.keep (by rw [hopen.block]) ?_ ?_ ?_
    · rw [hreactor]
      exact update_of_ne (d.hash_injective.ne heq) ..
    · rw [hreactor]
      exact update_of_ne (d.hash_injective.ne heq) ..
    · rw [hopen.trace, chunkBlocks, if_neg (Ne.symm heq)]
      exact chunkBlocks_chunkHistory info

/-- The law through the opening of a chunk. -/
theorem historyLaw_chunkOpen (hreg : Registered d s) (h : HistoryLaw d s)
    (hopen : ChunkOpened d s msgSender order fillAmount s' c) : HistoryLaw d s' := by
  obtain ⟨cursor, hquoted, hreactor⟩ := hopen.quoted
  have htrace : s'.trace = .inputPulled order.info msgSender (toUint 160 fillAmount)
      (.chunk c.currentPrice s.block.number) :: chunkHistory s order c := hopen.trace
  obtain ⟨sig, hverified⟩ := h.verified_chunkHistory hopen
  refine ⟨?_, ?_, ?_, ?_⟩
  · intro info sig hsig
    rw [htrace, List.mem_cons] at hsig
    rcases hsig with hsig | hsig
    · cases hsig
    · exact h.accepted_chunkHistory hopen info sig hsig
  · intro info hne
    rw [htrace]
    by_cases heq : info = order.info
    · subst heq
      exact ⟨sig, List.mem_cons_of_mem _ hverified⟩
    · rw [hreactor] at hne
      simp only [PartialFillReactor.opened] at hne
      rw [update_of_ne (d.hash_injective.ne heq)] at hne
      obtain ⟨sig', hsig'⟩ := h.written info hne
      exact ⟨sig', List.mem_cons_of_mem _ (mem_chunkHistory hsig')⟩
  · intro info hflag
    rw [hreactor] at hflag
    exact (h.curve info hflag).chunkOpen hreg hopen
  · rw [htrace]
    refine ⟨⟨⟨sig, hverified, (h.accepted_chunkHistory hopen _ _ hverified).1⟩, ?_⟩,
      h.justified.chunkHistory⟩
    intro price b hleg
    cases hleg
    rw [chunkBlocks_chunkHistory]
    exact ((h.curve order.info hopen.guards.noFallback).chunkQuoted hquoted).1

end ChunkHistory

/-! ## The fallback, and every segment -/

/-- The law through the fallback's pull. -/
theorem historyLaw_fallbackOpen {s s' : World κ W} {order : SignedOrder} {o : OpenFallback}
    (h : HistoryLaw d s) (hopen : FallbackOpened d s order s' o) : HistoryLaw d s' := by
  have hvalid := hopen.guards.validated
  have hmem : ∀ e ∈ s.trace, e ∈ s'.trace := by
    intro e he
    rw [hopen.trace]
    exact List.mem_cons_of_mem _ (List.mem_cons_of_mem _ he)
  refine ⟨?_, ?_, ?_, ?_⟩
  · intro info sig hsig
    rw [hopen.trace, List.mem_cons, List.mem_cons] at hsig
    rcases hsig with hsig | hsig | hsig
    · cases hsig
    · cases hsig
      exact ⟨hvalid.signed, hvalid.reachable⟩
    · exact h.accepted info sig hsig
  · intro info hne
    by_cases heq : info = order.info
    · subst heq
      refine ⟨order.sig, ?_⟩
      rw [hopen.trace]
      exact List.mem_cons_of_mem _ (List.mem_cons_self ..)
    · rw [hopen.reactor] at hne
      dsimp only at hne
      rw [update_of_ne (d.hash_injective.ne heq)] at hne
      obtain ⟨sig, hsig⟩ := h.written info hne
      exact ⟨sig, hmem _ hsig⟩
  · intro info hflag
    rw [hopen.reactor] at hflag
    dsimp only at hflag
    by_cases heq : info = order.info
    · subst heq
      rw [update_self] at hflag
      cases hflag
    · rw [update_of_ne (d.hash_injective.ne heq)] at hflag
      have hother := h.curve info hflag
      have hblocks : chunkBlocks info s'.trace = chunkBlocks info s.trace := by
        rw [hopen.trace, chunkBlocks, chunkBlocks]
      refine hother.keep (by rw [hopen.block]) ?_ (by rw [hopen.reactor]) hblocks
      rw [hopen.reactor]
      exact update_of_ne (d.hash_injective.ne heq) ..
  · rw [hopen.trace]
    refine ⟨⟨⟨order.sig, List.mem_cons_self .., hvalid.signed⟩, ?_⟩, h.justified⟩
    intro price b hleg
    cases hleg

/-- The step lemma of the history. -/
theorem historyLaw_segment {s s' : World κ W} (hreg : Registered d s) (hlaw : HistoryLaw d s)
    (h : Segment d s s') : HistoryLaw d s' := by
  cases segment_effect h with
  | quiet h =>
      exact hlaw.keepSame h.block (by rw [h.reactor]) (by rw [h.reactor]) (by rw [h.reactor])
        h.trace
  | register msgSender msgValue order fillAmount snap hok hlive hvalid hs' =>
      subst hs'
      exact hlaw.keepVerified hvalid rfl rfl rfl rfl rfl
  | chunkOpen msgSender order fillAmount c h => exact historyLaw_chunkOpen hreg hlaw h
  | chunkClose msgSender info fillAmount c balBefore received h hterms =>
      exact hlaw.keepCredited h.block (by rw [h.reactor]) (by rw [h.reactor]) (by rw [h.reactor])
        h.trace
  | fallbackOpen order o h => exact historyLaw_fallbackOpen hlaw h
  | fallbackSettle info o balBefore amountOut leftover h =>
      exact hlaw.keepCredited h.block (by rw [h.reactor]) (by rw [h.reactor]) (by rw [h.reactor])
        h.trace
  | cancelOrder msgSender info hs' =>
      subst hs'
      exact hlaw.keepSame (Nat.le_refl _) rfl rfl rfl rfl
  | invalidateNonce msgSender nonce hs' =>
      subst hs'
      exact hlaw.keepSame (Nat.le_refl _) rfl rfl rfl rfl

omit [DecidableEq κ] in
theorem historyLaw_deployed (tokens : W) (block : Block) :
    HistoryLaw d (deployed d tokens block) :=
  ⟨fun _ _ hmem => absurd hmem List.not_mem_nil, fun _ hne => absurd rfl hne,
    fun _ _ => ⟨fun _ => rfl, fun hne => absurd rfl hne⟩, trivial⟩

theorem Visited.historyLaw {s : World κ W} (h : Visited d s) : HistoryLaw d s :=
  h.invariant historyLaw_deployed fun hvisited hlaw hseg =>
    historyLaw_segment hvisited.registered hlaw hseg

theorem reachable_historyLaw {s : World κ W} (h : Reachable d s) : HistoryLaw d s :=
  h.visited.historyLaw

/-- **Only cosigned orders move input.** Every pull from a swapper, in any
run, is preceded in the same call or an earlier one by the verification of
a cosigner signature over the hash of all its order's fields; and the
price of a chunk is that of the signed curve. -/
theorem pull_cosigned {s : World κ W} (h : Reachable d s) {newer older : List TraceEvent}
    {info : OrderInfo} {to_ : Address} {amount : Nat} {leg : Leg}
    (hs : s.trace = newer ++ .inputPulled info to_ amount leg :: older) :
    (∃ sig, .orderVerified info sig ∈ older ∧
      d.recover (d.hashOrder info) sig = some d.cosigner ∧
      ∀ info', d.hashOrder info' = d.hashOrder info → info' = info) ∧
    ∀ price b, leg = .chunk price b →
      price = curvePrice info (chunkBlocks info older) b := by
  have hjustified := (reachable_historyLaw h).justified
  rw [hs] at hjustified
  obtain ⟨⟨sig, hsig, hsigns⟩, hpriced⟩ := hjustified.at_pull
  exact ⟨⟨sig, hsig, hsigns.1, fun _ heq => d.hash_injective heq⟩, hpriced⟩

/-- The second chunk of an order is not checked for a signature; the first
one was. Ten blocks of decay lie between the two. -/
theorem pull_cosigned_second :
    ∃ s : World OrderInfo Ledger, ∃ info : OrderInfo, ∃ newer older : List TraceEvent,
      s.trace = newer ++ .inputPulled info 8 300 (.chunk (10 ^ 18 - 10) 20) :: older ∧
      (∃ sig, .orderVerified info sig ∈ older ∧
        Ledger.deployment.recover (Ledger.deployment.hashOrder info) sig
          = some Ledger.deployment.cosigner) ∧
      10 ^ 18 - 10 = curvePrice info (chunkBlocks info older) 20 := by
  let info : OrderInfo := ⟨1, 2, 1000, 3, 900, 100, 0, 0, 10 ^ 18, 1, 3000⟩
  let ledger : Ledger := update₂ (update₂ (update₂ (fun _ _ => 0) 2 1 1000) 3 7 400) 3 8 400
  let s := run Ledger.deployment
    [.call (.leaf (.register ⟨7, by decide⟩ 80 ⟨info, [1]⟩ 400)),
     .call (.leaf (.register ⟨8, by decide⟩ 60 ⟨info, [1]⟩ 300)),
     .call (.leaf (.executePartialChunk ⟨7, by decide⟩ ⟨info, [1]⟩ 400)),
     .tick ⟨10, 0⟩,
     .call (.leaf (.executePartialChunk ⟨8, by decide⟩ ⟨info, []⟩ 300))]
    (deployed Ledger.deployment ledger ⟨10, 0⟩)
  have hs : Reachable Ledger.deployment s := ⟨_, _, _, rfl⟩
  have htrace : s.trace = [.outputCredited info 300 299 none]
      ++ .inputPulled info 8 300 (.chunk (10 ^ 18 - 10) 20)
        :: [.outputCredited info 400 400 none, .inputPulled info 7 400 (.chunk (10 ^ 18) 10),
          .orderVerified info [1], .orderVerified info [1], .orderVerified info [1]] := by
    decide +kernel
  obtain ⟨⟨sig, hsig, hrecover, -⟩, hpriced⟩ := pull_cosigned hs htrace
  exact ⟨s, info, _, _, htrace, ⟨sig, hsig, hrecover⟩, hpriced _ _ rfl⟩

end System

end NeutronX
