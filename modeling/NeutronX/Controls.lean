import NeutronX.ConfigGovernance
import NeutronX.SystemEffects

/-!
# Controls

What a swapper decides about an order, who holds which role, the stake
configuration and the routers of the fallback are the controls of the
system. Four kinds of calls change them and no other piece of any body
does, so a relation about controls is kept by a body as soon as the four
keep it (`body_sat_of_controls`).
-/

namespace NeutronX

open Evm Function

namespace System

open FillAuction (governance)

variable {κ W : Type} [DecidableEq κ] {d : Deployment κ W}

/-- The controls are as they were. -/
structure SameControls (s s' : World κ W) : Prop where
  cancelled : s'.reactor.cancelled = s.reactor.cancelled
  nonceInvalidated : s'.reactor.nonceInvalidated = s.reactor.nonceInvalidated
  roles : s'.auction.roles = s.auction.roles
  governance : governance s'.auction = governance s.auction
  routers : s'.fallback.approveTargetOf = s.fallback.approveTargetOf

omit [DecidableEq κ] in
theorem SameControls.refl (s : World κ W) : SameControls s s := ⟨rfl, rfl, rfl, rfl, rfl⟩

omit [DecidableEq κ] in
/-- A call of the auction alone. -/
theorem SameControls.onAuction {s s' : World κ W}
    {f : AuctionState κ → Except Revert (AuctionState κ)} (h : System.onAuction s f = .ok s')
    (hsame : ∀ a, f s.auction = .ok a →
      a.roles = s.auction.roles ∧ FillAuction.governance a = FillAuction.governance s.auction) :
    SameControls s s' := by
  obtain ⟨auction, hauction, rfl⟩ := onAuction_spec h
  obtain ⟨hroles, hgovernance⟩ := hsame auction hauction
  exact ⟨rfl, rfl, hroles, hgovernance, rfl⟩

theorem chunkOpen_controls {s s' : World κ W} {msgSender : Account} {order : SignedOrder}
    {fillAmount : Nat} {c : PartialFillReactor.OpenChunk}
    (h : chunkOpen d s msgSender order fillAmount = .ok (s', c)) : SameControls s s' := by
  have hopened := chunkOpen_spec h
  obtain ⟨cursor, -, hreactor⟩ := hopened.quoted
  exact ⟨by rw [hreactor]; rfl, by rw [hreactor]; rfl, by rw [hopened.auction],
    by rw [hopened.auction], by rw [hopened.fallback]⟩

theorem chunkClose_controls {s s' : World κ W} {msgSender : Account} {info : OrderInfo}
    {fillAmount balBefore : Nat} {c : PartialFillReactor.OpenChunk}
    (h : chunkClose d s msgSender info fillAmount c balBefore = .ok s') : SameControls s s' := by
  obtain ⟨received, hclosed⟩ := chunkClose_spec h
  obtain ⟨-, -, refund, forfeited, evs, -, -, hauction⟩ :=
    FillAuction.onFillSuccess_spec hclosed.settled
  exact ⟨by rw [hclosed.reactor], by rw [hclosed.reactor], by rw [hauction]; rfl,
    by rw [hauction]; rfl, by rw [hclosed.fallback]⟩

/-- **The rule for controls.** A relation that holds wherever the controls
are the same is kept by a body as soon as it is kept by the control the
body may be. -/
theorem body_sat_of_controls {R : World κ W → World κ W → Prop}
    (htrans : ∀ {a b c : World κ W}, R a b → R b c → R a c)
    (hsame : ∀ {s s' : World κ W}, SameControls s s' → R s s') (l : Label κ W) (s : World κ W)
    (hcancel : ∀ msgSender info, l = .cancelOrder msgSender info →
      ∀ s', cancelOrder d s msgSender info = .ok s' → R s s')
    (hnonce : ∀ msgSender nonce, l = .invalidateNonce msgSender nonce →
      R s { s with reactor := PartialFillReactor.invalidateNonce s.reactor msgSender nonce })
    (hop : ∀ op, l = .auctionOp op →
      ∀ s', (System.onAuction s fun a => op.run s.block a) = .ok s' → R s s')
    (hrouter : ∀ msgSender router approveTarget allowed,
      l = .setRouterAllowed msgSender router approveTarget allowed →
      ∀ s', setRouterAllowed d s msgSender router approveTarget allowed = .ok s' → R s s') :
    (body d l s).Sat R s := by
  have hrefl : ∀ s : World κ W, R s s := fun s => hsame (.refl s)
  have hchunk : ∀ (s : World κ W) msgSender order fillAmount data,
      (executePartialChunk d s msgSender order fillAmount data).Sat R s := by
    intro s msgSender order fillAmount data
    refine Prog.sat_attempt fun ⟨s₁, c⟩ hopen => ?_
    refine Prog.sat_yieldIf hrefl fun s₂ h₂ => ?_
    refine Prog.sat_yieldIf hrefl fun s₃ h₃ => ?_
    refine Prog.sat_attempt fun ⟨s₄, balBefore⟩ hpay => ?_
    have h₄ : R s₃ s₄ := by
      obtain ⟨-, -, hs₄⟩ := chunkPay_spec hpay
      rw [hs₄]
      exact hsame ⟨rfl, rfl, rfl, rfl, rfl⟩
    refine Prog.sat_yieldIf hrefl fun s₅ h₅ => ?_
    refine Prog.sat_attempt fun s₆ hclose => ?_
    have h₁ : R s s₁ := hsame (chunkOpen_controls hopen)
    have h₆ : R s₅ s₆ := hsame (chunkClose_controls hclose)
    exact htrans h₁ (htrans h₂ (htrans h₃ (htrans h₄ (htrans h₅ h₆))))
  cases l with
  | register msgSender msgValue order fillAmount =>
      refine Prog.sat_attempt fun s' h => hsame ?_
      obtain ⟨auction, hauction, -, -, rfl⟩ := register_spec h
      obtain ⟨snap, -, rfl⟩ := FillAuction.register_spec hauction
      exact ⟨rfl, rfl, rfl, rfl, rfl⟩
  | executePartialChunk msgSender order fillAmount => exact hchunk s msgSender order fillAmount []
  | executePartialChunkWithCallback msgSender order fillAmount callbackData =>
      exact Prog.sat_attempt fun _ _ => hchunk s msgSender order fillAmount callbackData
  | executeFallback order router routeOk minAmountOut =>
      refine Prog.sat_attempt fun ⟨s₁, o, inBalBefore⟩ hopen => ?_
      refine Prog.sat_yieldIf hrefl fun s₂ h₂ => ?_
      refine Prog.sat_attempt fun ⟨s₃, balBefore⟩ happrove => ?_
      intro s₄ h₄
      refine Prog.sat_attempt fun ⟨s₅, amountOut, leftover⟩ hsettle => ?_
      refine Prog.sat_yieldIf hrefl fun s₆ h₆ => ?_
      have h₁ : R s s₁ := by
        have hopened := fallbackOpen_spec hopen
        exact hsame ⟨by rw [hopened.reactor], by rw [hopened.reactor], by rw [hopened.auction],
          by rw [hopened.auction], by rw [hopened.fallback]⟩
      have h₃ : R s₂ s₃ := by
        obtain ⟨-, -, hs₃⟩ := fallbackApprove_spec happrove
        rw [hs₃]
        exact hsame ⟨rfl, rfl, rfl, rfl, rfl⟩
      have h₅ : R s₄ s₅ := by
        have hsettled := fallbackSettle_spec hsettle
        exact hsame ⟨by rw [hsettled.reactor], by rw [hsettled.reactor], by rw [hsettled.auction],
          by rw [hsettled.auction], by rw [hsettled.fallback]⟩
      have h₇ : R s₆ (fallbackClose d s₆ order.info o amountOut) :=
        hsame ⟨rfl, rfl, rfl, rfl, rfl⟩
      exact htrans h₁ (htrans h₂ (htrans h₃ (htrans h₄ (htrans h₅ (htrans h₆ h₇)))))
  | cancelOrder msgSender info => exact Prog.sat_attempt fun s' h => hcancel _ _ rfl s' h
  | invalidateNonce msgSender nonce => exact hnonce _ _ rfl
  | slash msgSender orderHash filler =>
      refine Prog.sat_attempt fun s' h => hsame (.onAuction h fun a ha => ?_)
      obtain ⟨-, -, -, rfl⟩ := FillAuction.slash_eq_ok.mp ha
      exact ⟨rfl, rfl⟩
  | releaseRegistration orderHash filler =>
      refine Prog.sat_attempt fun s' h => hsame (.onAuction h fun a ha => ?_)
      obtain ⟨-, -, rfl⟩ := (FillAuction.releaseRegistration_eq_ok (p := auctionParams d)).mp ha
      exact ⟨rfl, rfl⟩
  | withdraw msgSender to_ accepted =>
      refine Prog.sat_attempt fun s₁ hsend => ?_
      intro s₂ h₂
      refine Prog.sat_attempt fun s₃ hreturn => ?_
      have h₁ : R s s₁ := by
        refine hsame (.onAuction hsend fun a ha => ?_)
        obtain ⟨-, -, rfl⟩ := FillAuction.withdrawSend_spec ha
        exact ⟨rfl, rfl⟩
      have h₃ : R s₂ s₃ := by
        refine hsame (.onAuction hreturn fun a ha => ?_)
        obtain rfl := FillAuction.withdrawReturn_spec ha
        exact ⟨rfl, rfl⟩
      exact htrans h₁ (htrans h₂ h₃)
  | auctionOp op => exact Prog.sat_attempt fun s' h => hop op rfl s' h
  | setRouterAllowed msgSender router approveTarget allowed =>
      exact Prog.sat_attempt fun s' h => hrouter _ _ _ _ rfl s' h
  | tokens f => exact hsame ⟨rfl, rfl, rfl, rfl, rfl⟩

end System

end NeutronX
