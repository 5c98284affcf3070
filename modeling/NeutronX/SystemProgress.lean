import NeutronX.SystemEffects

/-!
# What only grows, and what a registration knows

Cancellation, nonce invalidation and the fallback's mark are never taken
back, the unfilled input of an order never grows, blocks only advance and
history is only added to (`Progress`).

A used slot of the auction holds a registration for an order of that hash,
with the order's total, and the reactor has the order's swapper and nonce
on record (`Registered`).
-/

namespace NeutronX

open Evm Function

namespace System

open PartialFillReactor (OpenChunk remainingInput)
open FallbackExecutor (OpenFallback)
open FillAuction (terms)

variable {κ W : Type} [DecidableEq κ] {d : Deployment κ W}

/-! ## What only grows -/

/-- The unfilled input of an order. -/
def unfilled (d : Deployment κ W) (s : World κ W) (info : OrderInfo) : Nat :=
  remainingInput s.reactor (d.hashOrder info) info.inputAmount

theorem ChunkOpened.unfilled_eq {s s' : World κ W} {msgSender : Account} {order : SignedOrder}
    {fillAmount : Nat} {c : OpenChunk} (h : ChunkOpened d s msgSender order fillAmount s' c)
    (info : OrderInfo) :
    unfilled d s' info
      = if info = order.info then unfilled d s info - fillAmount else unfilled d s info := by
  obtain ⟨cursor, hquoted, hreactor⟩ := h.quoted
  simp only [unfilled, remainingInput, hreactor, PartialFillReactor.opened]
  split
  · rename_i heq
    subst heq
    rw [update_self, hquoted.newRemaining, hquoted.currentRemaining]
    exact RemainingLib.remaining_store_sub order.info.inputAmount.isLt fillAmount
  · rename_i hne
    rw [update_of_ne (d.hash_injective.ne hne)]

omit [DecidableEq κ] in
theorem FallbackOpened.unfilled_eq [DecidableEq κ] {s s' : World κ W} {order : SignedOrder}
    {o : OpenFallback} (h : FallbackOpened d s order s' o) (info : OrderInfo) :
    unfilled d s' info = if info = order.info then 0 else unfilled d s info := by
  simp only [unfilled, remainingInput, h.reactor]
  split
  · rename_i heq
    subst heq
    rw [update_self, RemainingLib.remaining_fullyFilled]
  · rename_i hne
    rw [update_of_ne (d.hash_injective.ne hne)]

structure Progress (d : Deployment κ W) (s s' : World κ W) : Prop where
  block : s.block.number ≤ s'.block.number
  cancelled : ∀ k, s.reactor.cancelled k = true → s'.reactor.cancelled k = true
  nonceInvalidated : ∀ w n, s.reactor.nonceInvalidated w n = true →
    s'.reactor.nonceInvalidated w n = true
  /-- the zero address sends no transactions -/
  nonceZero : ∀ n, s'.reactor.nonceInvalidated 0 n = s.reactor.nonceInvalidated 0 n
  fallbackInitiated : ∀ k, s.reactor.fallbackInitiated k = true →
    s'.reactor.fallbackInitiated k = true
  unfilled : ∀ info, unfilled d s' info ≤ unfilled d s info
  trace : s.trace <:+ s'.trace

omit [DecidableEq κ] in
theorem Progress.refl (s : World κ W) : Progress d s s :=
  ⟨Nat.le_refl _, fun _ h => h, fun _ _ h => h, fun _ => rfl, fun _ h => h,
    fun _ => Nat.le_refl _, List.suffix_rfl⟩

omit [DecidableEq κ] in
theorem Progress.trans {s s' s'' : World κ W} (h : Progress d s s') (h' : Progress d s' s'') :
    Progress d s s'' where
  block := Nat.le_trans h.block h'.block
  cancelled := fun k hk => h'.cancelled k (h.cancelled k hk)
  nonceInvalidated := fun w n hn => h'.nonceInvalidated w n (h.nonceInvalidated w n hn)
  nonceZero := fun n => (h'.nonceZero n).trans (h.nonceZero n)
  fallbackInitiated := fun k hk => h'.fallbackInitiated k (h.fallbackInitiated k hk)
  unfilled := fun info => Nat.le_trans (h'.unfilled info) (h.unfilled info)
  trace := h.trace.trans h'.trace

omit [DecidableEq κ] in
/-- A step on which no order moves. -/
theorem Progress.ofSame {s s' : World κ W} (hblock : s.block.number ≤ s'.block.number)
    (hcancelled : s'.reactor.cancelled = s.reactor.cancelled)
    (hnonce : s'.reactor.nonceInvalidated = s.reactor.nonceInvalidated)
    (hfallback : s'.reactor.fallbackInitiated = s.reactor.fallbackInitiated)
    (hunfilled : ∀ info, System.unfilled d s' info ≤ System.unfilled d s info)
    (htrace : s.trace <:+ s'.trace) : Progress d s s' where
  block := hblock
  cancelled := fun k hk => by rwa [hcancelled]
  nonceInvalidated := fun w n hn => by rwa [hnonce]
  nonceZero := fun n => by rw [hnonce]
  fallbackInitiated := fun k hk => by rwa [hfallback]
  unfilled := hunfilled
  trace := htrace

omit [DecidableEq κ] in
theorem unfilled_eq_of_remaining {s s' : World κ W}
    (h : s'.reactor.remaining = s.reactor.remaining) (info : OrderInfo) :
    unfilled d s' info = unfilled d s info := by
  rw [unfilled, unfilled, remainingInput, remainingInput, h]

/-- The step lemma of progress. -/
theorem segment_progress {s s' : World κ W} (h : Segment d s s') : Progress d s s' := by
  cases segment_effect h with
  | quiet h =>
      refine .ofSame h.block ?_ ?_ ?_ (fun info => (unfilled_eq_of_remaining ?_ info).le) ?_
      · rw [h.reactor]
      · rw [h.reactor]
      · rw [h.reactor]
      · rw [h.reactor]
      · rw [h.trace]
  | register msgSender msgValue order fillAmount snap hok hlive hvalid hs' =>
      subst hs'
      exact .ofSame (Nat.le_refl _) rfl rfl rfl (fun _ => Nat.le_refl _) (List.suffix_cons _ _)
  | chunkOpen msgSender order fillAmount c h =>
      obtain ⟨cursor, -, hreactor⟩ := h.quoted
      refine .ofSame (by rw [h.block]) ?_ ?_ ?_ (fun info => ?_) ?_
      · rw [hreactor]
        rfl
      · rw [hreactor]
        rfl
      · rw [hreactor]
        rfl
      · rw [h.unfilled_eq]
        split <;> omega
      · rw [h.trace, ← List.cons_append]
        exact List.suffix_append _ _
  | chunkClose msgSender info fillAmount c balBefore received h hterms =>
      refine .ofSame (by rw [h.block]) ?_ ?_ ?_
        (fun info => (unfilled_eq_of_remaining ?_ info).le) ?_
      · rw [h.reactor]
      · rw [h.reactor]
      · rw [h.reactor]
      · rw [h.reactor]
      · rw [h.trace]
        exact List.suffix_cons _ _
  | fallbackOpen order o h =>
      refine ⟨by rw [h.block], ?_, ?_, ?_, fun k hk => ?_, fun info => ?_, ?_⟩
      · rw [h.reactor]
        exact fun _ hk => hk
      · rw [h.reactor]
        exact fun _ _ hn => hn
      · rw [h.reactor]
        exact fun _ => rfl
      · rw [h.reactor]
        simp only [update_apply]
        split
        · rfl
        · exact hk
      · rw [h.unfilled_eq]
        split <;> omega
      · rw [h.trace]
        exact (List.suffix_cons _ _).trans (List.suffix_cons _ _)
  | fallbackSettle info o balBefore amountOut leftover h =>
      refine .ofSame (by rw [h.block]) ?_ ?_ ?_
        (fun info => (unfilled_eq_of_remaining ?_ info).le) ?_
      · rw [h.reactor]
      · rw [h.reactor]
      · rw [h.reactor]
      · rw [h.reactor]
      · rw [h.trace]
        exact List.suffix_cons _ _
  | cancelOrder msgSender info hs' =>
      subst hs'
      refine ⟨Nat.le_refl _, fun k hk => ?_, fun _ _ h => h, fun _ => rfl, fun _ h => h,
        fun _ => Nat.le_refl _, List.suffix_rfl⟩
      simp only [update_apply]
      split
      · rfl
      · exact hk
  | invalidateNonce msgSender nonce hs' =>
      subst hs'
      refine ⟨Nat.le_refl _, fun _ h => h, fun w n hn => ?_, fun n => ?_, fun _ h => h,
        fun _ => Nat.le_refl _, List.suffix_rfl⟩
      · simp only [PartialFillReactor.invalidateNonce, update₂_apply]
        split
        · rfl
        · exact hn
      · exact update₂_of_ne (fun heq => msgSender.2 heq.1.symm) _

/-- The run lemma of progress. -/
theorem segments_progress {s s' : World κ W} (h : Segments d s s') : Progress d s s' := by
  induction h with
  | refl => exact Progress.refl _
  | tail _ hseg ih => exact ih.trans (segment_progress hseg)

/-! ## What a registration knows of its order -/

structure RegisteredFor (d : Deployment κ W) (s : World κ W) (info : OrderInfo)
    (filler : Address) (reg : Registration) : Prop where
  filler_eq : reg.filler = filler
  orderTotal : reg.orderTotal = info.inputAmount
  total_lt : (info.inputAmount : Nat) < 2 ^ 128
  deadline : reg.deadline = toUint 64 info.deadline
  fill_le : reg.fillAmount ≤ info.inputAmount
  /-- the order passed the check that its floor is reachable -/
  reachable : info.minOutputAmount ≤ (info.inputAmount : Nat) * info.startPrice / 10 ^ 18
  signed : ∃ sig, d.Signs info sig
  swapper : s.reactor.orderSwapper (d.hashOrder info) = info.swapper
  nonce : s.reactor.orderNonce (d.hashOrder info) = info.nonce

omit [DecidableEq κ] in
theorem RegisteredFor.keep {s s' : World κ W} {info : OrderInfo} {filler : Address}
    {reg reg' : Registration} (h : RegisteredFor d s info filler reg)
    (hterms : terms reg' = terms reg)
    (hswapper : s'.reactor.orderSwapper (d.hashOrder info)
      = s.reactor.orderSwapper (d.hashOrder info))
    (hnonce : s'.reactor.orderNonce (d.hashOrder info)
      = s.reactor.orderNonce (d.hashOrder info)) :
    RegisteredFor d s' info filler reg' where
  filler_eq := (congrArg Registration.filler hterms).trans h.filler_eq
  orderTotal := (congrArg Registration.orderTotal hterms).trans h.orderTotal
  total_lt := h.total_lt
  deadline := (congrArg Registration.deadline hterms).trans h.deadline
  fill_le := (congrArg Registration.fillAmount hterms).trans_le h.fill_le
  reachable := h.reachable
  signed := h.signed
  swapper := hswapper.trans h.swapper
  nonce := hnonce.trans h.nonce

/-- Every used slot holds a registration for an order of that hash. -/
def Registered (d : Deployment κ W) (s : World κ W) : Prop :=
  ∀ k f, (s.auction.registrations k f).filler ≠ 0 →
    ∃ info, d.hashOrder info = k ∧ RegisteredFor d s info f (s.auction.registrations k f)

omit [DecidableEq κ] in
theorem Registered.keep {s s' : World κ W} (h : Registered d s)
    (hterms : ∀ k f, terms (s'.auction.registrations k f) = terms (s.auction.registrations k f))
    (hswapper : s'.reactor.orderSwapper = s.reactor.orderSwapper)
    (hnonce : s'.reactor.orderNonce = s.reactor.orderNonce) : Registered d s' := by
  intro k f hused
  have hfiller := congrArg Registration.filler (hterms k f)
  obtain ⟨info, hinfo, hreg⟩ := h k f (by
    intro hzero
    exact hused (hfiller.trans hzero))
  exact ⟨info, hinfo, hreg.keep (hterms k f) (by rw [hswapper]) (by rw [hnonce])⟩

/-- The slot the registration was written to, the others of its order, and
the slots of other orders. -/
theorem registered_register {s : World κ W} (hinv : Registered d s) {msgSender : Account}
    {msgValue : Nat} {order : SignedOrder} {fillAmount : Nat}
    {snap : DynamicStakeLib.Snapshot}
    (hok : FillAuction.RegisterOk s.block s.auction d.reactor msgValue
      (registerArgs d msgSender order.info fillAmount) snap)
    (hvalid : PartialFillReactor.Validated d.toOrderAuth s.block s.reactor order)
    (trace : List TraceEvent) :
    Registered d { s with
      auction := FillAuction.afterRegister s.block s.auction msgValue
        (registerArgs d msgSender order.info fillAmount) snap
      reactor := { s.reactor with
        orderSwapper := update s.reactor.orderSwapper (d.hashOrder order.info) order.info.swapper
        orderNonce := update s.reactor.orderNonce (d.hashOrder order.info) order.info.nonce }
      trace } := by
  intro k f hused
  have hregs : (FillAuction.afterRegister s.block s.auction msgValue
      (registerArgs d msgSender order.info fillAmount) snap).registrations
      = update₂ s.auction.registrations (d.hashOrder order.info) msgSender
          (FillAuction.newRegistration s.block
            (registerArgs d msgSender order.info fillAmount) snap) := rfl
  by_cases hk : k = d.hashOrder order.info
  · subst hk
    refine ⟨order.info, rfl, ?_⟩
    by_cases hf : f = msgSender
    · subst hf
      have hfill : fillAmount ≤ order.info.inputAmount := hok.fill_le
      have htotal : (order.info.inputAmount : Nat) < 2 ^ 128 := hok.total_fits
      rw [hregs, update₂_self]
      refine ⟨rfl, toUint_of_lt htotal, htotal, rfl, ?_, hvalid.reachable, ⟨_, hvalid.signed⟩,
        update_self .., update_self ..⟩
      exact Nat.le_trans (toUint_le _ _) hfill
    · rw [hregs, update₂_of_ne (by simp [hf])] at hused ⊢
      obtain ⟨info, hinfo, hreg⟩ := hinv _ f hused
      obtain rfl := d.hash_injective hinfo
      exact ⟨hreg.filler_eq, hreg.orderTotal, hreg.total_lt, hreg.deadline, hreg.fill_le,
        hreg.reachable, hreg.signed, update_self .., update_self ..⟩
  · rw [hregs, update₂_of_ne (by simp [hk])] at hused ⊢
    obtain ⟨info, hinfo, hreg⟩ := hinv k f hused
    refine ⟨info, hinfo, hreg.keep rfl ?_ ?_⟩
    · exact update_of_ne (by rw [hinfo]; exact hk) ..
    · exact update_of_ne (by rw [hinfo]; exact hk) ..

theorem registered_segment {s s' : World κ W} (hinv : Registered d s) (h : Segment d s s') :
    Registered d s' := by
  cases segment_effect h with
  | quiet h => exact hinv.keep h.terms (by rw [h.reactor]) (by rw [h.reactor])
  | register msgSender msgValue order fillAmount snap hok hlive hvalid hs' =>
      subst hs'
      exact registered_register hinv hok hvalid _
  | chunkOpen msgSender order fillAmount c h =>
      obtain ⟨cursor, -, hreactor⟩ := h.quoted
      exact hinv.keep (fun k f => by rw [h.auction]) (by rw [hreactor]; rfl)
        (by rw [hreactor]; rfl)
  | chunkClose msgSender info fillAmount c balBefore received h hterms =>
      exact hinv.keep hterms (by rw [h.reactor]) (by rw [h.reactor])
  | fallbackOpen order o h =>
      exact hinv.keep (fun k f => by rw [h.auction]) (by rw [h.reactor]) (by rw [h.reactor])
  | fallbackSettle info o balBefore amountOut leftover h =>
      exact hinv.keep (fun k f => by rw [h.auction]) (by rw [h.reactor]) (by rw [h.reactor])
  | cancelOrder msgSender info hs' =>
      subst hs'
      exact hinv.keep (fun _ _ => rfl) rfl rfl
  | invalidateNonce msgSender nonce hs' =>
      subst hs'
      exact hinv.keep (fun _ _ => rfl) rfl rfl

omit [DecidableEq κ] in
theorem registered_deployed (tokens : W) (block : Block) :
    Registered d (deployed d tokens block) :=
  fun _ _ hused => absurd rfl hused

/-! ## The middle of a transaction -/

/-- A state some run passes through, in the middle of a transaction or not. -/
def Visited (d : Deployment κ W) (s : World κ W) : Prop :=
  ∃ tokens block, Segments d (deployed d tokens block) s

theorem Reachable.visited {s : World κ W} (h : Reachable d s) : Visited d s := by
  obtain ⟨tokens, block, txs, rfl⟩ := h
  exact ⟨tokens, block, run_segments txs _⟩

theorem Visited.segments {s s' : World κ W} (h : Visited d s) (h' : Segments d s s') :
    Visited d s' := by
  obtain ⟨tokens, block, hs⟩ := h
  exact ⟨tokens, block, hs.trans h'⟩

theorem Visited.auction {s : World κ W} (h : Visited d s) :
    FillAuction.AuctionRun (auctionParams d) (FillAuction.deployed d.admin) s.auction := by
  obtain ⟨tokens, block, hs⟩ := h
  exact (deployed_auction tokens block).trans (segments_auction hs)

theorem Visited.registered {s : World κ W} (h : Visited d s) : Registered d s := by
  obtain ⟨tokens, block, hs⟩ := h
  exact Segments.keep registered_segment hs (registered_deployed tokens block)

/-- An invariant of the segments that start in a visited state. -/
theorem Visited.invariant {I : World κ W → Prop} {s : World κ W} (h : Visited d s)
    (hinit : ∀ tokens block, I (deployed d tokens block))
    (hstep : ∀ {s s' : World κ W}, Visited d s → I s → Segment d s s' → I s') : I s := by
  obtain ⟨tokens, block, hs⟩ := h
  induction hs with
  | refl => exact hinit tokens block
  | tail hrun hseg ih => exact hstep ⟨tokens, block, hrun⟩ ih hseg

theorem reachable_registered {s : World κ W} (h : Reachable d s) : Registered d s :=
  h.visited.registered

end System

end NeutronX
