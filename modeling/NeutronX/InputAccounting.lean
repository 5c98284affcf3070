import NeutronX.Ledger
import NeutronX.SystemProgress

/-!
# The input of an order

The reactor and the fallback executor both draw down the remaining input
of an order, and both pull input from its swapper. `InputLaw` says what
the two have to do with each other in every state of every run.

As long as the fallback did not take the order over, the amounts pulled
and the remaining input add up to the order. The fallback then takes the
rest, through a narrowing cast to 160 bits that the chunk path guards
against and the fallback path does not: an order of 2^160 or more, which
no filler can register for, is marked as filled for less than its input.
-/

namespace NeutronX

open Evm Function

namespace System

open PartialFillReactor (OpenChunk remainingInput)
open FallbackExecutor (OpenFallback)

variable {κ W : Type} [DecidableEq κ] {d : Deployment κ W}

/-! ## What was pulled for an order -/

/-- The input pulled from the swapper for an order, by chunks and fallback. -/
def pulled (info : OrderInfo) : List TraceEvent → Nat
  | [] => 0
  | .inputPulled i _ amount _ :: es => (if i = info then amount else 0) + pulled info es
  | .orderVerified _ _ :: es => pulled info es
  | .outputCredited _ _ _ _ :: es => pulled info es

theorem pulled_append (info : OrderInfo) (es' : List TraceEvent) :
    ∀ es, pulled info (es ++ es') = pulled info es + pulled info es'
  | [] => by simp [pulled]
  | .inputPulled i to_ amount leg :: es => by
      simp only [List.cons_append, pulled, pulled_append info es' es]
      omega
  | .orderVerified i sig :: es => pulled_append info es' es
  | .outputCredited i fill amount during :: es => pulled_append info es' es

omit [DecidableEq κ] in
theorem ChunkOpened.pulled_eq [DecidableEq κ] {s s' : World κ W} {msgSender : Account}
    {order : SignedOrder} {fillAmount : Nat} {c : OpenChunk}
    (h : ChunkOpened d s msgSender order fillAmount s' c) (info : OrderInfo) :
    pulled info s'.trace
      = (if order.info = info then fillAmount else 0) + pulled info s.trace := by
  have hverified : pulled info
      (if c.isFirstFill then [.orderVerified order.info order.sig] else []) = 0 := by
    split <;> rfl
  rw [h.trace, pulled, pulled_append, hverified, toUint_of_lt h.guards.fits]
  omega

/-! ## The law -/

structure InputLaw (d : Deployment κ W) (s : World κ W) (info : OrderInfo) : Prop where
  /-- chunks only: nothing is lost -/
  shared : s.reactor.fallbackInitiated (d.hashOrder info) = false →
    pulled info s.trace + unfilled d s info = info.inputAmount
  /-- who fills a chunk registered for it, and registrations are narrow -/
  narrow : s.reactor.fallbackInitiated (d.hashOrder info) = false →
    0 < pulled info s.trace → (info.inputAmount : Nat) < 2 ^ 128
  /-- the fallback took `rest`, after chunks took `before` -/
  taken : s.reactor.fallbackInitiated (d.hashOrder info) = true →
    unfilled d s info = 0 ∧ ∃ before rest : Nat, before + rest = info.inputAmount ∧
      pulled info s.trace = before + toUint 160 rest ∧
      (0 < before → (info.inputAmount : Nat) < 2 ^ 128)

omit [DecidableEq κ] in
theorem InputLaw.keep {s s' : World κ W} {info : OrderInfo} (h : InputLaw d s info)
    (hpulled : pulled info s'.trace = pulled info s.trace)
    (hunfilled : unfilled d s' info = unfilled d s info)
    (hfallback : s'.reactor.fallbackInitiated (d.hashOrder info)
      = s.reactor.fallbackInitiated (d.hashOrder info)) :
    InputLaw d s' info := by
  refine ⟨?_, ?_, ?_⟩
  · rw [hpulled, hunfilled, hfallback]
    exact h.shared
  · rw [hpulled, hfallback]
    exact h.narrow
  · rw [hpulled, hunfilled, hfallback]
    exact h.taken

/-- A filler with a valid registration is registered for an order of less
than 2^128. -/
theorem ChunkOpened.total_lt {s s' : World κ W} {msgSender : Account} {order : SignedOrder}
    {fillAmount : Nat} {c : OpenChunk} (hreg : Registered d s)
    (h : ChunkOpened d s msgSender order fillAmount s' c) :
    (order.info.inputAmount : Nat) < 2 ^ 128 := by
  have hvalid := h.registered
  simp only [FillAuction.hasValidRegistration, decide_eq_true_eq] at hvalid
  obtain ⟨info, hinfo, hfor⟩ := hreg (d.hashOrder order.info) msgSender
    (by rw [hvalid.1]; exact msgSender.2)
  obtain rfl := d.hash_injective hinfo
  exact hfor.total_lt

/-- The law of one order through the opening of a chunk. -/
theorem inputLaw_chunkOpen {s s' : World κ W} {msgSender : Account} {order : SignedOrder}
    {fillAmount : Nat} {c : OpenChunk} (hreg : Registered d s) {info : OrderInfo}
    (hlaw : InputLaw d s info) (h : ChunkOpened d s msgSender order fillAmount s' c) :
    InputLaw d s' info := by
  have hflag : s'.reactor.fallbackInitiated = s.reactor.fallbackInitiated := by
    obtain ⟨cursor, -, hreactor⟩ := h.quoted
    rw [hreactor]
    rfl
  by_cases heq : order.info = info
  · subst heq
    have hopen := h.guards.noFallback
    have hfill : fillAmount ≤ unfilled d s order.info := h.guards.fill_le
    have hshared := hlaw.shared hopen
    have hpulled := h.pulled_eq order.info
    have hunfilled := h.unfilled_eq order.info
    rw [if_pos rfl] at hpulled hunfilled
    refine ⟨fun _ => by omega, fun _ _ => h.total_lt hreg, fun htaken => ?_⟩
    rw [hflag, hopen] at htaken
    cases htaken
  · have hpulled := h.pulled_eq info
    have hunfilled := h.unfilled_eq info
    rw [if_neg heq, Nat.zero_add] at hpulled
    rw [if_neg (Ne.symm heq)] at hunfilled
    exact hlaw.keep hpulled hunfilled (by rw [hflag])

/-- The law of one order through the fallback's pull. -/
theorem inputLaw_fallbackOpen {s s' : World κ W} {order : SignedOrder} {o : OpenFallback}
    {info : OrderInfo} (hlaw : InputLaw d s info) (h : FallbackOpened d s order s' o) :
    InputLaw d s' info := by
  have hpulled : pulled info s'.trace
      = (if order.info = info then toUint 160 o.rem else 0) + pulled info s.trace := by
    rw [h.trace, pulled, pulled]
  have hunfilled := h.unfilled_eq info
  have hflag : s'.reactor.fallbackInitiated
      = update s.reactor.fallbackInitiated (d.hashOrder order.info) true := by
    rw [h.reactor]
  by_cases heq : order.info = info
  · subst heq
    rw [if_pos rfl] at hpulled hunfilled
    have hrem : o.rem = unfilled d s order.info := h.guards.rem_eq
    have hpos := h.guards.rem_pos
    -- what is left is positive, so no fallback took the order before
    have hopen : s.reactor.fallbackInitiated (d.hashOrder order.info) = false := by
      by_contra hne
      have hzero := (hlaw.taken (by simpa using hne)).1
      omega
    have hshared := hlaw.shared hopen
    refine ⟨fun hclear => ?_, fun hclear => ?_, fun _ => ⟨hunfilled, ?_⟩⟩
    · rw [hflag, update_self] at hclear
      cases hclear
    · rw [hflag, update_self] at hclear
      cases hclear
    · exact ⟨pulled order.info s.trace, o.rem, by omega, by omega, hlaw.narrow hopen⟩
  · rw [if_neg heq, Nat.zero_add] at hpulled
    rw [if_neg (Ne.symm heq)] at hunfilled
    have hother : s'.reactor.fallbackInitiated (d.hashOrder info)
        = s.reactor.fallbackInitiated (d.hashOrder info) := by
      rw [hflag, update_of_ne (d.hash_injective.ne (Ne.symm heq))]
    exact hlaw.keep hpulled hunfilled hother

/-- The step lemma of the input law. -/
theorem inputLaw_segment {s s' : World κ W} (hreg : Registered d s) {info : OrderInfo}
    (hlaw : InputLaw d s info) (h : Segment d s s') : InputLaw d s' info := by
  cases segment_effect h with
  | quiet h =>
      exact hlaw.keep (by rw [h.trace]) (unfilled_eq_of_remaining (by rw [h.reactor]) info)
        (by rw [h.reactor])
  | register msgSender msgValue order fillAmount snap hok hlive hvalid hs' =>
      subst hs'
      exact hlaw.keep rfl rfl rfl
  | chunkOpen msgSender order fillAmount c h => exact inputLaw_chunkOpen hreg hlaw h
  | chunkClose msgSender info' fillAmount c balBefore received h hterms =>
      exact hlaw.keep (by rw [h.trace, pulled])
        (unfilled_eq_of_remaining (by rw [h.reactor]) info) (by rw [h.reactor])
  | fallbackOpen order o h => exact inputLaw_fallbackOpen hlaw h
  | fallbackSettle info' o balBefore amountOut leftover h =>
      exact hlaw.keep (by rw [h.trace, pulled])
        (unfilled_eq_of_remaining (by rw [h.reactor]) info) (by rw [h.reactor])
  | cancelOrder msgSender info' hs' =>
      subst hs'
      exact hlaw.keep rfl rfl rfl
  | invalidateNonce msgSender nonce hs' =>
      subst hs'
      exact hlaw.keep rfl rfl rfl

omit [DecidableEq κ] in
theorem inputLaw_deployed (tokens : W) (block : Block) (info : OrderInfo) :
    InputLaw d (deployed d tokens block) info := by
  refine ⟨fun _ => ?_, fun _ hpos => absurd hpos (Nat.lt_irrefl 0), fun htaken => ?_⟩
  · simp [deployed, pulled, unfilled, remainingInput, PartialFillReactor.deployed]
  · cases htaken

theorem Visited.inputLaw {s : World κ W} (h : Visited d s) (info : OrderInfo) :
    InputLaw d s info :=
  h.invariant (I := fun s => InputLaw d s info)
    (fun tokens block => inputLaw_deployed tokens block info)
    fun hvisited hlaw hseg => inputLaw_segment hvisited.registered hlaw hseg

theorem reachable_inputLaw {s : World κ W} (h : Reachable d s) (info : OrderInfo) :
    InputLaw d s info :=
  h.visited.inputLaw info

omit [DecidableEq κ] in
/-- Whatever happens, no more than the order's input is pulled. -/
theorem InputLaw.pulled_le {s : World κ W} {info : OrderInfo} (h : InputLaw d s info) :
    pulled info s.trace ≤ info.inputAmount := by
  cases hflag : s.reactor.fallbackInitiated (d.hashOrder info) with
  | false =>
      have := h.shared hflag
      omega
  | true =>
      obtain ⟨-, before, rest, hsum, hpulled, -⟩ := h.taken hflag
      have := toUint_le 160 rest
      omega

omit [DecidableEq κ] in
theorem InputLaw.unfilled_le {s : World κ W} {info : OrderInfo} (h : InputLaw d s info) :
    unfilled d s info ≤ info.inputAmount := by
  cases hflag : s.reactor.fallbackInitiated (d.hashOrder info) with
  | false =>
      have := h.shared hflag
      omega
  | true =>
      have := (h.taken hflag).1
      omega

omit [DecidableEq κ] in
/-- When the two add up to the order: always, but for orders of 2^160 and
more that the fallback took. -/
theorem InputLaw.conserved_iff {s : World κ W} {info : OrderInfo} (h : InputLaw d s info) :
    pulled info s.trace + unfilled d s info = info.inputAmount ↔
      (info.inputAmount : Nat) < 2 ^ 160 ∨
        s.reactor.fallbackInitiated (d.hashOrder info) = false := by
  cases hflag : s.reactor.fallbackInitiated (d.hashOrder info) with
  | false => simp [h.shared hflag]
  | true =>
      obtain ⟨hzero, before, rest, hsum, hpulled, hnarrow⟩ := h.taken hflag
      constructor
      · intro heq
        -- the cast kept all of `rest`
        have hrest : toUint 160 rest = rest := by omega
        have hlt := toUint_lt 160 rest
        by_cases hpos : 0 < before
        · have := hnarrow hpos
          left
          omega
        · left
          omega
      · rintro (hlt | hfalse)
        · have hrest : toUint 160 rest = rest := toUint_of_lt (by omega)
          omega
        · cases hfalse

/-! ## After the fallback -/

/-- No chunk opens on an order the fallback took over. -/
theorem exec_chunk_after_fallback {s : World κ W} {order : SignedOrder}
    (hflag : s.reactor.fallbackInitiated (d.hashOrder order.info) = true) (msgSender : Account)
    (fillAmount : Nat) (data : Bytes) (turns : List (List (Call (Label κ W)))) (s' : World κ W) :
    exec (body d) (.mk (.executePartialChunk msgSender order fillAmount) turns) s ≠ .ok s' ∧
    exec (body d) (.mk (.executePartialChunkWithCallback msgSender order fillAmount data) turns)
      s ≠ .ok s' := by
  have hopen : ∃ e, chunkOpen d s msgSender order fillAmount = .error e := by
    cases hx : chunkOpen d s msgSender order fillAmount with
    | error e => exact ⟨e, rfl⟩
    | ok r =>
        obtain ⟨s', c⟩ := r
        have hclear := (chunkOpen_spec hx).guards.noFallback
        rw [hflag] at hclear
        cases hclear
  obtain ⟨e, he⟩ := hopen
  have hbody : ∀ data', executePartialChunk d s msgSender order fillAmount data' = .revert e := by
    intro data'
    simp only [executePartialChunk, he, Prog.attempt_error]
  have hrevert : ∀ turns' : List (List (Call (Label κ W))),
      resume (body d) turns' (.revert e) = .error e := by
    intro turns'
    cases turns' <;> simp [resume]
  constructor
  · rw [exec, body, hbody, hrevert]
    exact fun h => by cases h
  · rw [exec, body]
    cases hx : require (0 < data.length) "empty callback data" with
    | error e' =>
        rw [Prog.attempt_error]
        cases turns <;> simp [resume]
    | ok u =>
        rw [Prog.attempt_ok, hbody, hrevert]
        exact fun h => by cases h

/-! ## Accounting for the input -/

/-- The input of an order is accounted for in `s`: what was pulled and what
remains add up to it, what remains only shrinks from here on (so 0 stays
0), and once the fallback is marked no new chunk succeeds. -/
structure InputAccounted (d : Deployment κ W) (s : World κ W) (info : OrderInfo) : Prop where
  conserved : pulled info s.trace + unfilled d s info = info.inputAmount
  bounded : pulled info s.trace ≤ info.inputAmount
  shrinking : ∀ s', Segments d s s' → unfilled d s' info ≤ unfilled d s info
  exclusive : s.reactor.fallbackInitiated (d.hashOrder info) = true →
    ∀ s', Segments d s s' → ∀ (msgSender : Account) (sig : Bytes) (fillAmount : Nat)
      (data : Bytes) (turns : List (List (Call (Label κ W)))) (s'' : World κ W),
      exec (body d) (.mk (.executePartialChunk msgSender ⟨info, sig⟩ fillAmount) turns) s'
        ≠ .ok s'' ∧
      exec (body d)
        (.mk (.executePartialChunkWithCallback msgSender ⟨info, sig⟩ fillAmount data) turns) s'
        ≠ .ok s''

/-- **Input accounting.** After any run, the input of an order is accounted
for exactly when the order is narrower than 160 bits or the fallback did
not take it over. -/
theorem input_accounted_iff {s : World κ W} (h : Reachable d s) (info : OrderInfo) :
    InputAccounted d s info ↔
      (info.inputAmount : Nat) < 2 ^ 160 ∨
        s.reactor.fallbackInitiated (d.hashOrder info) = false := by
  have hlaw := reachable_inputLaw h info
  constructor
  · intro hacc
    exact hlaw.conserved_iff.mp hacc.conserved
  · intro hcond
    refine ⟨hlaw.conserved_iff.mpr hcond, hlaw.pulled_le, fun s' hs' => ?_, ?_⟩
    · exact (segments_progress hs').unfilled info
    · intro hflag s' hs' msgSender sig fillAmount data turns s''
      have hlater := (segments_progress hs').fallbackInitiated _ hflag
      have hlater' : s'.reactor.fallbackInitiated (d.hashOrder (⟨info, sig⟩ : SignedOrder).info)
          = true := hlater
      exact exec_chunk_after_fallback hlater' msgSender fillAmount data turns s''

/-- An order of 1000: a registered filler takes 400, the fallback the rest. -/
theorem input_accounted_mixed :
    ∃ s : World OrderInfo Ledger, Reachable Ledger.deployment s ∧
      unfilled Ledger.deployment s ⟨1, 2, 1000, 3, 900, 100, 0, 0, 10 ^ 18, 0, 3000⟩ = 0 ∧
      InputAccounted Ledger.deployment s ⟨1, 2, 1000, 3, 900, 100, 0, 0, 10 ^ 18, 0, 3000⟩ := by
  let info : OrderInfo := ⟨1, 2, 1000, 3, 900, 100, 0, 0, 10 ^ 18, 0, 3000⟩
  let filler : Account := ⟨7, by decide⟩
  let ledger : Ledger := update₂ (update₂ (fun _ _ => 0) 2 1 1000) 3 7 400
  let swap : Ledger → Ledger := fun w => update₂ (update₂ w 2 102 0) 3 1 (w 3 1 + 600)
  let s := run Ledger.deployment
    [.call (.leaf (.register filler 80 ⟨info, [1]⟩ 400)),
     .call (.leaf (.executePartialChunk filler ⟨info, [1]⟩ 400)),
     .tick ⟨85, 0⟩,
     .call (.mk (.executeFallback ⟨info, [1]⟩ 106 true 0) [[.leaf (.tokens swap)]])]
    (deployed Ledger.deployment ledger ⟨10, 0⟩)
  have hs : Reachable Ledger.deployment s := ⟨_, _, _, rfl⟩
  exact ⟨s, hs, by decide +kernel, (input_accounted_iff hs info).mpr (.inl (by decide))⟩

/-- An order of 2^160 + 5, cosigned and taken by the fallback: 5 units are
pulled, and nothing remains. -/
theorem input_not_accounted_wide :
    ∃ s : World OrderInfo Ledger, Reachable Ledger.deployment s ∧
      pulled ⟨1, 2, 2 ^ 160 + 5, 3, 0, 20, 0, 0, 0, 0, 3000⟩ s.trace = 5 ∧
      unfilled Ledger.deployment s ⟨1, 2, 2 ^ 160 + 5, 3, 0, 20, 0, 0, 0, 0, 3000⟩ = 0 ∧
      ¬InputAccounted Ledger.deployment s ⟨1, 2, 2 ^ 160 + 5, 3, 0, 20, 0, 0, 0, 0, 3000⟩ := by
  let info : OrderInfo := ⟨1, 2, 2 ^ 160 + 5, 3, 0, 20, 0, 0, 0, 0, 3000⟩
  let ledger : Ledger := update₂ (fun _ _ => 0) 2 1 (2 ^ 160 + 5)
  let s := run Ledger.deployment [.call (.leaf (.executeFallback ⟨info, [1]⟩ 106 true 0))]
    (deployed Ledger.deployment ledger ⟨15, 0⟩)
  have hpulled : pulled info s.trace = 5 := by decide +kernel
  have hunfilled : unfilled Ledger.deployment s info = 0 := by decide +kernel
  refine ⟨s, ⟨_, _, _, rfl⟩, hpulled, hunfilled, fun hacc => ?_⟩
  have hconserved := hacc.conserved
  rw [hpulled, hunfilled] at hconserved
  exact absurd hconserved (by decide +kernel)

end System

end NeutronX
