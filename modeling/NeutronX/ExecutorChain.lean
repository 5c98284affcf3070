import NeutronX.ChunkCalls
import NeutronX.Executor

/-!
# The account on chain

What the chain does to the registrations of the executor's account. A call
that does not register for the account leaves the terms of each of them
alone, and one that has ended stays ended (`afterCall_kept`); only a
`register` of the executor takes a slot that was vacant
(`exec_register`). A chunk of the account that went through ends the
registration it was for (`exec_chunk_ends`), and what a deadline left
unfilled stays so (`unfilled_late`).
-/

namespace NeutronX

open Evm Function

namespace Executor

open FillAuction (AuctionRun terms terms_settled)
open FallbackWatcher (afterCall)
open NeutronX.System (Label Elapse body elapse unfilled Segment Segments auctionParams
  onAuction_spec)

variable {κ W : Type} [DecidableEq κ] {d : Deployment κ W} {wallet : Account}

/-! ## Calls that do not register -/

/-- The terms of the account's registrations are the same. -/
def TermsKept (wallet : Account) (s s' : World κ W) : Prop :=
  ∀ k, terms (s'.auction.registrations k wallet) = terms (s.auction.registrations k wallet)

omit [DecidableEq κ] in
theorem TermsKept.refl (s : World κ W) : TermsKept wallet s s := fun _ => rfl

omit [DecidableEq κ] in
theorem TermsKept.trans {s s' s'' : World κ W} (h : TermsKept wallet s s')
    (h' : TermsKept wallet s' s'') : TermsKept wallet s s'' := fun k => (h' k).trans (h k)

omit [DecidableEq κ] in
theorem TermsKept.of_auction {s s' : World κ W} (h : s'.auction = s.auction) :
    TermsKept wallet s s' := fun k => by rw [h]

theorem executePartialChunk_termsKept (s : World κ W) (msgSender : Account)
    (order : SignedOrder) (fillAmount : Nat) (data : Bytes) :
    (System.executePartialChunk d s msgSender order fillAmount data).Sat (TermsKept wallet) s := by
  refine Prog.sat_attempt fun ⟨s₁, c⟩ hopen => ?_
  have h₁ : TermsKept wallet s s₁ := .of_auction (System.chunkOpen_spec hopen).auction
  refine Prog.sat_yieldIf TermsKept.refl fun s₂ h₂ => ?_
  refine Prog.sat_yieldIf TermsKept.refl fun s₃ h₃ => ?_
  refine Prog.sat_attempt fun ⟨s₄, balBefore⟩ hpay => ?_
  obtain ⟨-, -, hs₄⟩ := System.chunkPay_spec hpay
  have h₄ : TermsKept wallet s₃ s₄ := .of_auction (by rw [hs₄])
  refine Prog.sat_yieldIf TermsKept.refl fun s₅ h₅ => ?_
  refine Prog.sat_attempt fun s₆ hclose => ?_
  obtain ⟨received, hclosed⟩ := System.chunkClose_spec hclose
  obtain ⟨-, -, refund, forfeited, evs, -, -, hauction⟩ :=
    FillAuction.onFillSuccess_spec hclosed.settled
  have h₆ : TermsKept wallet s₅ s₆ := by
    intro k
    rw [hauction]
    exact terms_settled (auctionParams d) ..
  exact h₁.trans (h₂.trans (h₃.trans (h₄.trans (h₅.trans h₆))))

theorem executeFallback_termsKept (s : World κ W) (order : SignedOrder) (router : Address)
    (routeOk : Bool) (minAmountOut : Nat) :
    (System.executeFallback d s order router routeOk minAmountOut).Sat (TermsKept wallet) s := by
  refine Prog.sat_attempt fun ⟨s₁, o, inBalBefore⟩ hopen => ?_
  have h₁ : TermsKept wallet s s₁ := .of_auction (System.fallbackOpen_spec hopen).auction
  refine Prog.sat_yieldIf TermsKept.refl fun s₂ h₂ => ?_
  refine Prog.sat_attempt fun ⟨s₃, balBefore⟩ happrove => ?_
  obtain ⟨-, -, hs₃⟩ := System.fallbackApprove_spec happrove
  have h₃ : TermsKept wallet s₂ s₃ := .of_auction (by rw [hs₃])
  intro s₄ h₄
  refine Prog.sat_attempt fun ⟨s₅, amountOut, leftover⟩ hsettle => ?_
  have h₅ : TermsKept wallet s₄ s₅ := .of_auction (System.fallbackSettle_spec hsettle).auction
  refine Prog.sat_yieldIf TermsKept.refl fun s₆ h₆ => ?_
  exact h₁.trans (h₂.trans (h₃.trans (h₄.trans (h₅.trans h₆))))

theorem body_termsKept (l : Label κ W) (hl : NotRegistering wallet l) (s : World κ W) :
    (body d l s).Sat (TermsKept wallet) s := by
  cases l with
  | register msgSender msgValue order fillAmount =>
      refine Prog.sat_attempt fun s' h k => ?_
      obtain ⟨auction, hauction, -, -, rfl⟩ := System.register_spec h
      obtain ⟨snap, -, rfl⟩ := FillAuction.register_spec hauction
      have hne : ¬(k = d.hashOrder order.info ∧ (wallet : Address) = msgSender) :=
        fun heq => hl (Subtype.ext heq.2.symm)
      exact congrArg terms (update₂_of_ne hne _)
  | executePartialChunk msgSender order fillAmount =>
      exact executePartialChunk_termsKept s msgSender order fillAmount []
  | executePartialChunkWithCallback msgSender order fillAmount callbackData =>
      exact Prog.sat_attempt fun _ _ =>
        executePartialChunk_termsKept s msgSender order fillAmount callbackData
  | executeFallback order router routeOk minAmountOut =>
      exact executeFallback_termsKept s order router routeOk minAmountOut
  | cancelOrder msgSender info =>
      refine Prog.sat_attempt fun s' h => .of_auction ?_
      rw [System.cancelOrder_spec h]
  | invalidateNonce msgSender nonce => exact .of_auction rfl
  | slash msgSender orderHash filler =>
      refine Prog.sat_attempt fun s' h k => ?_
      obtain ⟨auction, hauction, rfl⟩ := onAuction_spec h
      obtain ⟨-, -, -, rfl⟩ := FillAuction.slash_eq_ok.mp hauction
      exact terms_settled (auctionParams d) ..
  | releaseRegistration orderHash filler =>
      refine Prog.sat_attempt fun s' h k => ?_
      obtain ⟨auction, hauction, rfl⟩ := onAuction_spec h
      obtain ⟨-, -, rfl⟩ :=
        (FillAuction.releaseRegistration_eq_ok (p := auctionParams d)).mp hauction
      exact terms_settled (auctionParams d) ..
  | withdraw msgSender to_ accepted =>
      refine Prog.sat_attempt fun s₁ hsend => ?_
      obtain ⟨auction, hauction, rfl⟩ := onAuction_spec hsend
      obtain ⟨-, -, rfl⟩ := FillAuction.withdrawSend_spec hauction
      intro s₂ h₂
      refine Prog.sat_attempt fun s₃ hreturn => ?_
      obtain ⟨auction', hauction', rfl⟩ := onAuction_spec hreturn
      obtain rfl := FillAuction.withdrawReturn_spec hauction'
      exact h₂
  | auctionOp op =>
      refine Prog.sat_attempt fun s' h k => ?_
      obtain ⟨auction, hauction, rfl⟩ := onAuction_spec h
      exact congrArg (fun r => terms (r k wallet)) (System.AuctionOp.frame hauction).1
  | setRouterAllowed msgSender router approveTarget allowed =>
      refine Prog.sat_attempt fun s' h => .of_auction ?_
      obtain ⟨fallback, -, -, rfl⟩ := System.setRouterAllowed_spec h
      rfl
  | tokens f => exact .of_auction rfl

/-! ## What happens to a registration -/

/-- The account is registered, and its stake is locked. -/
def Live (r : NeutronX.Registration) : Prop := r.filler ≠ 0 ∧ r.resolved = false

instance (r : NeutronX.Registration) : Decidable (Live r) := inferInstanceAs (Decidable (_ ∧ _))

/-- A slot after calls that did not register for it. -/
structure SlotAfter (r r' : NeutronX.Registration) : Prop where
  filler_eq : r'.filler = r.filler
  fillAmount_eq : r'.fillAmount = r.fillAmount
  ended : r.filler ≠ 0 → r.resolved = true → r'.resolved = true

theorem SlotAfter.refl (r : NeutronX.Registration) : SlotAfter r r := ⟨rfl, rfl, fun _ h => h⟩

theorem SlotAfter.live {r r' : NeutronX.Registration} (h : SlotAfter r r') (hlive : Live r') :
    Live r := by
  have hused : r.filler ≠ 0 := h.filler_eq ▸ hlive.1
  refine ⟨hused, ?_⟩
  cases hended : r.resolved with
  | false => rfl
  | true =>
      have hresolved := h.ended hused hended
      rw [hlive.2] at hresolved
      cases hresolved

/-- The chain moved on, without a registration of the account. -/
structure ChainKept (d : Deployment κ W) (wallet : Account) (s s' : World κ W) : Prop where
  segments : Segments d s s'
  slots : ∀ k, SlotAfter (s.auction.registrations k wallet) (s'.auction.registrations k wallet)

theorem ChainKept.of_terms {s s' : World κ W} (hsegments : Segments d s s')
    (hterms : TermsKept wallet s s') : ChainKept d wallet s s' := by
  refine ⟨hsegments, fun k => ⟨?_, ?_, fun hused hended => ?_⟩⟩
  · have hfiller := congrArg NeutronX.Registration.filler (hterms k)
    exact hfiller
  · have hamount := congrArg NeutronX.Registration.fillAmount (hterms k)
    exact hamount
  · rw [((FillAuction.slotKept_run (System.segments_auction hsegments) hused).ended hended).1]
    exact hended

theorem ChainKept.elapse (s : World κ W) (t : Elapse) :
    ChainKept d wallet s (System.elapse t s) :=
  .of_terms (.single (.elapse s t)) fun _ => rfl

theorem afterCall_kept {call : Call (Label κ W)} (hcall : call.All (NotRegistering wallet))
    (s : World κ W) : ChainKept d wallet s (afterCall d call s) := by
  have htick : ∀ (t : Elapse) (s : World κ W), TermsKept wallet s (elapse t s) := fun _ _ _ => rfl
  have htx : Tx.All (NotRegistering wallet) (.call call : Tx (Label κ W) Elapse) := hcall
  refine .of_terms (System.run_segments (d := d) [.call call] s) ?_
  exact stepTx_sat TermsKept.refl TermsKept.trans body_termsKept htick htx s

/-- The account's registration took a vacant slot. -/
structure SlotTaken (s s' : World κ W) (wallet : Account) (orderHash : κ) (fillAmount : Nat) :
    Prop where
  vacant : (s.auction.registrations orderHash wallet).filler = 0
  used : (s'.auction.registrations orderHash wallet).filler ≠ 0
  fillAmount_eq : (s'.auction.registrations orderHash wallet).fillAmount = fillAmount
  others : ∀ k, k ≠ orderHash → s'.auction.registrations k wallet = s.auction.registrations k wallet

/-- A registration calls nobody. -/
theorem exec_register {s s' : World κ W} {order : SignedOrder} {fillAmount stake : Nat}
    {turns : List (List (Call (Label κ W)))}
    (h : exec (body d) (.mk (.register wallet stake order fillAmount) turns) s = .ok s') :
    System.register d s wallet stake order fillAmount = .ok s' := by
  rw [exec, body] at h
  cases hregister : System.register d s wallet stake order fillAmount with
  | error e =>
      rw [hregister] at h
      cases turns <;> cases h
  | ok s₁ =>
      rw [hregister] at h
      cases turns <;> exact h

theorem register_taken {s s' : World κ W} {order : SignedOrder} {fillAmount stake : Nat}
    (h : System.register d s wallet stake order fillAmount = .ok s') :
    SlotTaken s s' wallet (d.hashOrder order.info) fillAmount := by
  have hamount := (System.registered_amount h .refl).1
  obtain ⟨auction, hauction, -, -, rfl⟩ := System.register_spec h
  obtain ⟨snap, hok, rfl⟩ := FillAuction.register_spec hauction
  refine ⟨hok.free, ?_, hamount, fun k hne => ?_⟩
  · refine ne_of_eq_of_ne (congrArg NeutronX.Registration.filler (update₂_self _ _ _ _)) ?_
    exact wallet.2
  · exact update₂_of_ne (fun heq => hne heq.1) _

/-- A chunk of the account that went through ended its registration. -/
theorem exec_chunk_ends {s s' : World κ W} {order : SignedOrder} {fillAmount : Nat}
    {turns : List (List (Call (Label κ W)))} (hvisited : System.Visited d s)
    (h : exec (body d) (.mk (.executePartialChunk wallet order fillAmount) turns) s = .ok s') :
    (s'.auction.registrations (d.hashOrder order.info) wallet).filler ≠ 0 ∧
    (s'.auction.registrations (d.hashOrder order.info) wallet).resolved = true := by
  obtain ⟨c, s₁, s₂, hchunk⟩ := System.exec_chunkCall rfl h
  obtain ⟨balBefore, received, hclosed⟩ := hchunk.closed
  have hauction : AuctionRun (auctionParams d) (FillAuction.deployed d.admin) s₂.auction := by
    refine hvisited.auction.trans ?_
    rw [← hchunk.opened.auction]
    exact System.segments_auction hchunk.between
  exact (FillAuction.onFillSuccess_ends hauction hclosed.settled).2

/-! ## After the deadline -/

theorem unfilled_late_segment {s s' : World κ W} {info : OrderInfo} (h : Segment d s s')
    (hlate : info.deadline < s.block.number) : unfilled d s' info = unfilled d s info := by
  cases System.segment_effect h with
  | quiet h => rw [unfilled, unfilled, h.reactor]
  | register msgSender msgValue order fillAmount snap hok hlive hvalid hs' =>
      subst hs'
      rfl
  | chunkOpen msgSender order fillAmount c h =>
      rw [h.unfilled_eq info]
      split
      case isTrue heq =>
        subst heq
        have hnow := h.guards.unexpired
        omega
      case isFalse => rfl
  | chunkClose msgSender info' fillAmount c balBefore received h hterms =>
      rw [unfilled, unfilled, h.reactor]
      rfl
  | fallbackOpen order o h =>
      rw [h.unfilled_eq info]
      split
      case isTrue heq =>
        subst heq
        have hnow := h.guards.validated.unexpired
        omega
      case isFalse => rfl
  | fallbackSettle info' o balBefore amountOut leftover h =>
      rw [unfilled, unfilled, h.reactor]
      rfl
  | cancelOrder msgSender info' hs' =>
      subst hs'
      rfl
  | invalidateNonce msgSender nonce hs' =>
      subst hs'
      rfl

/-- What is unfilled after the deadline stays unfilled. -/
theorem unfilled_late {s s' : World κ W} {info : OrderInfo} (h : Segments d s s')
    (hlate : info.deadline < s.block.number) : unfilled d s' info = unfilled d s info := by
  induction h with
  | refl => rfl
  | tail hbefore hsegment ih =>
      have hblock := (System.segments_progress hbefore).block
      exact (unfilled_late_segment hsegment (Nat.lt_of_lt_of_le hlate hblock)).trans ih

end Executor

end NeutronX
