import NeutronX.CrossChain.Bridge
import NeutronX.CrossChain.Ledger

/-!
# Atomicity of a swap

Once a source escrow has been withdrawn from, its secret is out, and the
escrow of the destination chain under the same hashlock pays whoever shows
it. For that the destination escrow has to hold its tokens for as long as
it is unsettled (`Funded`), which takes a token that does what tokens do
(`PlainToken`), and nothing may get between the guards of `claim` and its
end (`claim_completes`). The rest is `Reachable.atomic`.
-/

namespace NeutronX.CrossChain

open Evm Function

namespace DestinationChain

open EscrowDst (Unsettled)

variable {A W : Type} [DecidableEq A] [Zero A] {d : DestinationChain A W} {token : A}
  {P : Label A W → Prop} {s s' : DestinationState A W}

/-- An escrow can send what it holds of the token, and a transfer takes
from its sender only. -/
structure PlainToken (d : DestinationChain A W) (token : A) : Prop where
  sends : ∀ w hl f to_ amount, to_ ≠ 0 →
    amount ≤ d.balanceOf w token (d.computeAddress hl f) →
      ∃ w', d.safeTransfer w (d.computeAddress hl f) token to_ amount = .ok w'
  keeps : ∀ w w' sender token' to_ amount account,
    d.safeTransfer w sender token' to_ amount = .ok w' → account ≠ sender →
      d.balanceOf w token account ≤ d.balanceOf w' token account

/-- Nothing done to tokens takes from an escrow. -/
def HandsOff (d : DestinationChain A W) (token : A) (P : Label A W → Prop) : Prop :=
  ∀ f : W → W, P (.tokens f) → ∀ w hl g,
    d.balanceOf w token (d.computeAddress hl g) ≤ d.balanceOf (f w) token (d.computeAddress hl g)

/-- An unsettled escrow holds its amount. -/
def Funded (d : DestinationChain A W) (token : A) (s : DestinationState A W) : Prop :=
  ∀ hl f t, Unsettled (s.escrows hl f) t → t.token = token →
    t.amount ≤ d.balanceOf s.tokens token (d.computeAddress hl f)

theorem funded_step (hplain : PlainToken d token) (hoff : HandsOff d token P)
    (hs : Funded d token s) (h : Segment d P s s') : Funded d token s' := by
  intro hl f t hopen htoken
  rcases h.effect with ⟨t', h⟩ | ⟨hl', f', h⟩ | ⟨hsame, ⟨-, g, hg, htokens⟩ | ⟨htokens, -⟩⟩
  · obtain rfl := h.eq
    by_cases hown : hl = t'.hashlock ∧ f = t'.filler
    · obtain ⟨rfl, rfl⟩ := hown
      obtain rfl : t' = t := by simpa [emit, setEscrow] using hopen.terms
      exact htoken ▸ h.funded
    · exact hs hl f t (by simpa [emit, setEscrow, update₂_of_ne hown] using hopen) htoken
  · by_cases hown : hl = hl' ∧ f = f'
    · obtain ⟨rfl, rfl⟩ := hown
      have hbefore := h.step.unsettled (h.terms.symm.trans hopen.terms) hopen
      rcases h.tokens with hkept | ⟨t', to_, hopen', hsettled, -⟩
      · exact hkept ▸ hs hl f t hbefore htoken
      · obtain rfl := Option.some.inj (hopen'.terms.symm.trans hbefore.terms)
        exact absurd hopen hsettled
    · rw [h.escrows, update₂_of_ne hown] at hopen
      refine Nat.le_trans (hs hl f t hopen htoken) ?_
      rcases h.tokens with hkept | ⟨t', to_, -, -, hsend⟩
      · rw [hkept]
      · exact hplain.keeps _ _ _ _ _ _ _ hsend
          fun heq => hown (d.computeAddress_injective heq)
  · rw [hsame] at hopen
    rw [htokens]
    exact Nat.le_trans (hs hl f t hopen htoken) (hoff g hg _ hl f)
  · rw [hsame] at hopen
    rw [htokens]
    exact hs hl f t hopen htoken

theorem Segments.funded (hplain : PlainToken d token) (hoff : HandsOff d token P)
    (h : Segments d P s s') (hs : Funded d token s) : Funded d token s' := by
  induction h with
  | refl => exact hs
  | tail _ hseg ih => exact funded_step hplain hoff ih hseg

/-- An escrow that was claimed stays claimed. -/
theorem Segments.claimed (h : Segments d P s s') {hl : Bytes32} {f : A}
    (hclaimed : (s.escrows hl f).claimed = true) : (s'.escrows hl f).claimed = true := by
  induction h with
  | refl => exact hclaimed
  | tail _ hseg ih =>
      rcases hseg.escrow hl f with hsame | hstep
      · rwa [hsame]
      · exact hstep.claimed ih

/-- A claim whose guards hold and whose tokens are there goes through,
whatever the token calls back. -/
theorem claim_completes (hplain : PlainToken d token) (hs : Moment d (fun _ => True) s)
    (hfunded : Funded d token s) {hl secret : Bytes32} {f : A} {t : DstTerms A}
    (hopen : Unsettled (s.escrows hl f) t) (htoken : t.token = token)
    (hfree : (s.escrows hl f).mutex = false) (htime : s.block.timestamp ≤ t.expiry)
    (hsecret : d.keccak secret = hl) (msgSender : A) (turns : List (List (Call (Label A W)))) :
    ∃ s', exec (body d) (.mk (.claim msgSender hl f secret) turns) s = .ok s' ∧
      (s'.escrows hl f).claimed = true := by
  have hlocated := hs.located hl f t hopen.terms
  obtain ⟨tokens, hsend⟩ := hplain.sends s.tokens hl f t.recipient t.amount hlocated.recipient
    (hfunded hl f t hopen htoken)
  have hstart : claimStart d s hl f secret = .ok { setEscrow s hl f
      (EscrowDst.claiming s.block (s.escrows hl f) t secret) with tokens } := by
    simp only [claimStart, payOut, bind_eq_ok, pure_eq_ok]
    exact ⟨⟨_, t⟩, EscrowDst.claimStart_eq_ok.mpr
      ⟨⟨hfree, hopen, htime, hsecret.trans hlocated.hashlock.symm⟩, rfl⟩, tokens,
      htoken.symm ▸ hsend, rfl⟩
  have hbody : (body d (.claim msgSender hl f secret) s).Completes (FullTurn d fun _ => True)
      fun s' => (s'.escrows hl f).claimed = true := by
    refine Prog.completes_attempt hstart fun s₂ h₂ => Prog.completes_attempt rfl ?_
    have hclaimed : (s₂.escrows hl f).claimed = true :=
      h₂.segments.claimed (by simp [setEscrow, EscrowDst.claiming])
    simpa [Prog.Completes, emit, setEscrow, EscrowDst.release] using hclaimed
  have hcalls : ∀ cs s, FullTurn d (fun _ => True) s (runCalls (body d) cs s) := fun cs s =>
    runCalls_sat (P := fun _ => True) (fun _ => .refl _) (fun h h' => h.trans h')
      (fun l _ s => body_turn l trivial s) (callsAll_true cs)
  have hrun : ∃ s', resume (body d) turns (body d (.claim msgSender hl f secret) s) = .ok s' ∧
      (s'.escrows hl f).claimed = true := resume_completes (fun _ => .refl _) hcalls hbody
  simpa [exec] using hrun

/-- Up to the expiry no refund goes through. -/
theorem refund_fails {hl : Bytes32} {f : A} {t : DstTerms A}
    (hterms : (s.escrows hl f).terms = some t) (htime : s.block.timestamp ≤ t.expiry)
    (msgSender : A) (turns : List (List (Call (Label A W)))) :
    ∃ e, exec (body d) (.mk (.refund msgSender hl f) turns) s = .error e := by
  have hstart : ∃ e, refundStart d s msgSender hl f = .error e := by
    cases hx : refundStart d s msgSender hl f with
    | error e => exact ⟨e, rfl⟩
    | ok s' =>
        simp only [refundStart, payOut, bind_eq_ok, pure_eq_ok] at hx
        obtain ⟨⟨e', t'⟩, hstart, -⟩ := hx
        obtain ⟨⟨-, hopen, hlate, -⟩, -⟩ := EscrowDst.refundStart_eq_ok.mp hstart
        obtain rfl := Option.some.inj (hopen.terms.symm.trans hterms)
        exact absurd hlate (Nat.not_lt.mpr htime)
  obtain ⟨e, hstart⟩ := hstart
  refine ⟨e, ?_⟩
  cases turns <;> simp [exec, resume, body, refund, hstart]

end DestinationChain

/-! ## The pair -/

namespace Ledger

/-- The token of the ledger is a plain one. -/
theorem plainToken (token : Nat) : DestinationChain.PlainToken destinationChain token where
  sends := fun w hl f to_ amount _ hle => by
    simp only [destinationChain, code, move, bind_eq_ok, require_eq_ok, pure_eq_ok]
    exact ⟨_, (), hle, rfl⟩
  keeps := fun w w' sender token' to_ amount account hmove hne => by
    simp only [destinationChain, code, move, bind_eq_ok, require_eq_ok, pure_eq_ok] at hmove ⊢
    obtain ⟨_, -, rfl⟩ := hmove
    have hdebit : ¬(token = token' ∧ account = sender) := fun hsame => hne hsame.2
    rw [update₂_apply]
    split
    case isTrue hcredit =>
        obtain ⟨rfl, rfl⟩ := hcredit
        rw [update₂_of_ne hdebit]
        exact Nat.le_add_right ..
    case isFalse => rw [update₂_of_ne hdebit]

def bridge : Bridge (OrderInfo Nat) Nat (Ledger Nat) Nat (Ledger Nat) :=
  ⟨sourceChain, destinationChain, rfl⟩

end Ledger

namespace Bridge

open DestinationChain (PlainToken HandsOff Funded)

variable {κ A W A' W' : Type} [DecidableEq κ] [Zero A] [DecidableEq A] [Zero A'] [DecidableEq A']
  {b : Bridge κ A W A' W'} {subject : Subject κ A'} {s s' : BridgeState κ A W A' W'}

omit [DecidableEq κ] [DecidableEq A] [DecidableEq A'] in
theorem permitted_handsOff (source : SourceState κ A W) :
    HandsOff b.destination subject.token (Permitted b subject source) := fun _ h => h

theorem Steps.funded (hplain : PlainToken b.destination subject.token) (hs : Sound b s)
    (h : Steps b subject s s') (hfunded : Funded b.destination subject.token s.destination) :
    Funded b.destination subject.token s'.destination := by
  induction h with
  | refl => exact hfunded
  | tail hsteps hstep ih =>
      cases hstep with
      | act a ha =>
          cases a with
          | source | elapse => exact ih
          | destination c =>
              obtain ⟨hsegments, -, -⟩ := DestinationChain.stepTx_call (d := b.destination) ha
                (Steps.sound hs hsteps).destinationFree
              exact hsegments.funded hplain (permitted_handsOff _) ih

theorem Reachable.funded (hplain : PlainToken b.destination subject.token)
    (h : Reachable b subject s) : Funded b.destination subject.token s.destination := by
  obtain ⟨tokens, tokens', number, number', timestamp, hsteps⟩ := h
  exact Steps.funded hplain (sound_deployed ..) hsteps fun _ _ _ hopen => nomatch hopen.terms

theorem Step.claimed (hs : Sound b s) (h : Step b subject s s') {hl : Bytes32} {f : A'}
    (hclaimed : (s.destination.escrows hl f).claimed = true) :
    (s'.destination.escrows hl f).claimed = true := by
  cases h with
  | act a ha =>
      cases a with
      | source | elapse => exact hclaimed
      | destination c =>
          obtain ⟨hsegments, -, -⟩ :=
            DestinationChain.stepTx_call (d := b.destination) ha hs.destinationFree
          exact hsegments.claimed hclaimed

theorem Steps.claimed (hs : Sound b s) (h : Steps b subject s s') {hl : Bytes32} {f : A'}
    (hclaimed : (s.destination.escrows hl f).claimed = true) :
    (s'.destination.escrows hl f).claimed = true := by
  induction h with
  | refl => exact hclaimed
  | tail hsteps hstep ih => exact hstep.claimed (Steps.sound hs hsteps) ih

/-- The call of `claim` with the calls made while the token has control. -/
def claimCall (subject : Subject κ A') (filler msgSender : A') (secret : Bytes32)
    (turns : List (List (Call (DestinationChain.Label A' W')))) :
    Call (DestinationChain.Label A' W') :=
  .mk (.claim msgSender subject.hashlock filler secret) turns

/-- What atomicity means for the source escrow of `fill` and the destination
escrow of `filler` under the same hashlock. -/
structure Atomic (b : Bridge κ A W A' W') (subject : Subject κ A') (fill : Fill κ A)
    (filler : A') (s : BridgeState κ A W A' W') : Prop where
  /-- a withdrawal paid the filler of the source escrow, and left time before `t2` -/
  revealed : (sourceEscrow subject s).claimed = true →
    ∃ time secret, (sourceEscrow subject s).payouts =
        [⟨fill.filler, fill.auth.fillAmount, time, some secret⟩] ∧
      b.source.keccak secret = subject.hashlock ∧ time ≤ fill.auth.t1 ∧
      fill.auth.t1 < fill.auth.t2
  /-- after it the destination escrow has been claimed, or can be up to `t2` -/
  claimable : (sourceEscrow subject s).claimed = true →
    s.source.block.timestamp ≤ fill.auth.t2 →
      (destinationEscrow subject filler s).claimed = true ∨
        ∀ msgSender secret turns, b.source.keccak secret = subject.hashlock →
          ∃ s', exec (DestinationChain.body b.destination)
            (claimCall subject filler msgSender secret turns) s.destination = .ok s'
  /-- up to `t2` there is no refund -/
  unrefundable : s.source.block.timestamp ≤ fill.auth.t2 →
    (destinationEscrow subject filler s).refunded = false ∧
      ∀ msgSender turns, ∃ e, exec (DestinationChain.body b.destination)
        (.mk (.refund msgSender subject.hashlock filler) turns) s.destination = .error e
  /-- the swapper never has both -/
  exclusive : ¬((sourceEscrow subject s).cancelled = true ∧
    (destinationEscrow subject filler s).claimed = true)
  /-- anyone's claim between the withdrawal and `t2` rules a refund out -/
  window : (sourceEscrow subject s).claimed = true → s.source.block.timestamp ≤ fill.auth.t2 →
    ∀ msgSender secret turns s', b.source.keccak secret = subject.hashlock →
      Steps b subject (act (b := b)
        (.destination (claimCall subject filler msgSender secret turns)) s) s' →
      (destinationEscrow subject filler s').refunded = false
  /-- each escrow pays once -/
  once : (sourceEscrow subject s).payouts.length ≤ 1 ∧
    (destinationEscrow subject filler s).payouts.length ≤ 1

/-- While the second sum is not given back, an escrow was not refunded. -/
theorem kept (hs : Sound b s) {filler : A'}
    (hkept : (view subject filler s).second ≠ .returned) :
    (destinationEscrow subject filler s).refunded = false := by
  have hlaw := hs.destination.law subject.hashlock filler
  cases hrefunded : (destinationEscrow subject filler s).refunded with
  | false => rfl
  | true =>
      have hclaimed : (destinationEscrow subject filler s).claimed = false := by
        cases hclaimed : (destinationEscrow subject filler s).claimed with
        | false => rfl
        | true => exact absurd (hlaw.not_refunded hclaimed) (by simp [hrefunded])
      exact absurd (EscrowDst.leg_eq_returned.mpr ⟨hclaimed, hrefunded⟩) hkept

/-- A claim up to the expiry goes through, unless there was one before. -/
theorem claimed_or_enabled (hplain : PlainToken b.destination subject.token)
    (hs : Reachable b subject s) {filler : A'} {u : DstTerms A'}
    (hterms : (destinationEscrow subject filler s).terms = some u)
    (htoken : u.token = subject.token) (htime : s.source.block.timestamp ≤ u.expiry)
    (hrefunded : (destinationEscrow subject filler s).refunded = false) :
    (destinationEscrow subject filler s).claimed = true ∨
      ∀ msgSender secret turns, b.source.keccak secret = subject.hashlock →
        ∃ s', exec (DestinationChain.body b.destination)
            (claimCall subject filler msgSender secret turns) s.destination = .ok s' ∧
          (s'.escrows subject.hashlock filler).claimed = true := by
  have hsound := hs.sound
  cases hclaimed : (destinationEscrow subject filler s).claimed with
  | true => exact .inl rfl
  | false =>
      refine .inr fun msgSender secret turns hsecret => ?_
      exact DestinationChain.claim_completes hplain hsound.destination (hs.funded hplain)
        ⟨hterms, hclaimed, hrefunded⟩ htoken (hsound.destinationFree _ _)
        (hsound.clock ▸ htime) (b.keccak_eq ▸ hsecret) msgSender turns

/-- After a call of `claim` up to the expiry the escrow is claimed, by it or
before it. -/
theorem claimed_after (hplain : PlainToken b.destination subject.token)
    (hs : Reachable b subject s) {filler : A'} {u : DstTerms A'}
    (hterms : (destinationEscrow subject filler s).terms = some u)
    (htoken : u.token = subject.token) (htime : s.source.block.timestamp ≤ u.expiry)
    (hrefunded : (destinationEscrow subject filler s).refunded = false) (msgSender : A')
    {secret : Bytes32} (turns : List (List (Call (DestinationChain.Label A' W'))))
    (hsecret : b.source.keccak secret = subject.hashlock) :
    (destinationEscrow subject filler (act (b := b)
      (.destination (claimCall subject filler msgSender secret turns)) s)).claimed = true := by
  rcases claimed_or_enabled hplain hs hterms htoken htime hrefunded with hclaimed | henabled
  · obtain ⟨hsegments, -, -⟩ := DestinationChain.stepTx_call (d := b.destination)
      (P := fun _ => True) (Call.all_true (claimCall subject filler msgSender secret turns))
      hs.sound.destinationFree
    exact hsegments.claimed hclaimed
  · obtain ⟨s₁, hexec, hclaimed⟩ := henabled msgSender secret turns hsecret
    simpa [destinationEscrow, act, stepTx, hexec] using hclaimed

/-- **HTLC atomicity.** -/
theorem htlc_atomic (hplain : PlainToken b.destination subject.token)
    (hs : Reachable b subject s) {fill : Fill κ A} {filler : A'} {u : DstTerms A'}
    (hfill : (sourceEscrow subject s).fill = some fill)
    (hterms : (destinationEscrow subject filler s).terms = some u)
    (htoken : u.token = subject.token) (hexpiry : u.expiry = fill.auth.t2) :
    Atomic b subject fill filler s := by
  have hsound := hs.sound
  have hlaw := hsound.source.law
  have hgenuine : (sourceEscrow subject s).terms = some (SourceChain.termsOf b.source fill) :=
    hlaw.genuine _ _ _ (by simp [hsound.sourceFree.filling]) hfill
  have hbelongs := hlaw.fill _ _ _ hfill
  have hsrc := (hlaw.clone subject.orderHash subject.hashlock).standing _ hgenuine
  have hdst := (hsound.destination.law subject.hashlock filler).standing _ hterms
  have hatomic : Swap.Atomic fill.auth.t1 fill.auth.t2 (view subject filler s) := by
    refine hs.atomic ⟨fun t ht => ?_, fun t ht => ?_⟩
    · obtain rfl := Option.some.inj (hgenuine.symm.trans ht)
      rfl
    · obtain rfl := Option.some.inj (hterms.symm.trans ht)
      exact hexpiry
  have hrefunded : s.source.block.timestamp ≤ fill.auth.t2 →
      (destinationEscrow subject filler s).refunded = false := fun htime =>
    kept hsound (hatomic.second_kept htime)
  refine ⟨fun hclaimed => ?_, fun _ htime => ?_, fun htime => ⟨hrefunded htime, ?_⟩, ?_,
    fun _ htime msgSender secret turns s' hsecret hsteps => ?_, ?_, ?_⟩
  · cases hsrc with
    | unsettled hopen => exact absurd (hclaimed.symm.trans hopen) (by simp)
    | cancelled _ hopen => exact absurd (hclaimed.symm.trans hopen) (by simp)
    | withdrawn time secret _ _ htime hsecret hpayouts =>
        exact ⟨time, secret, hpayouts, hsecret.trans hbelongs.hashlock, htime,
          hbelongs.authorised.t1_lt_t2⟩
  · refine (claimed_or_enabled hplain hs hterms htoken (hexpiry.symm ▸ htime)
      (hrefunded htime)).imp_right fun h msgSender secret turns hsecret => ?_
    obtain ⟨s', hexec, -⟩ := h msgSender secret turns hsecret
    exact ⟨s', hexec⟩
  · exact DestinationChain.refund_fails hterms (by rw [hsound.clock, hexpiry]; exact htime)
  · rintro ⟨hcancelled, hclaimed⟩
    have hopen : (sourceEscrow subject s).claimed = false := by
      cases hsrc with
      | unsettled hopen | cancelled _ hopen => exact hopen
      | withdrawn _ _ _ hnot => exact absurd (hcancelled.symm.trans hnot) (by simp)
    exact hatomic.exclusive ⟨EscrowSrc.leg_eq_returned.mpr ⟨hopen, hcancelled⟩,
      EscrowDst.leg_eq_paid.mpr hclaimed⟩
  · have hclaimed := claimed_after hplain hs hterms htoken (hexpiry.symm ▸ htime)
      (hrefunded htime) msgSender turns hsecret
    have hafter := sound_act hsound (.destination (claimCall subject filler msgSender secret turns))
    exact ((Steps.sound hafter hsteps).destination.law _ _).not_refunded
      (Steps.claimed hafter hsteps hclaimed)
  · cases hsrc with
    | unsettled _ _ hpayouts | withdrawn _ _ _ _ _ _ hpayouts | cancelled _ _ _ _ hpayouts =>
        simp [hpayouts]
  · cases hdst with
    | unsettled _ _ hpayouts | claimed _ _ _ _ _ _ hpayouts | refunded _ _ _ _ hpayouts =>
        simp [hpayouts]

/-- A swap of 40 units for 36 at the last moment of either escrow: the
withdrawal at 100 with the secret 7, the claim at 200. -/
theorem htlc_atomic_claimed :
    ∃ s fill, Reachable Ledger.bridge ⟨⟨2, 4, 100, 6, 90, 1000, 0, 3000⟩, 8, 6⟩ s ∧
      s.source.block.timestamp = 200 ∧
      (destinationEscrow ⟨⟨2, 4, 100, 6, 90, 1000, 0, 3000⟩, 8, 6⟩ 14 s).payouts =
        [⟨2, 36, 200, some 7⟩] ∧
      Atomic Ledger.bridge ⟨⟨2, 4, 100, 6, 90, 1000, 0, 3000⟩, 8, 6⟩ fill 14 s := by
  let info : OrderInfo Nat := ⟨2, 4, 100, 6, 90, 1000, 0, 3000⟩
  let subject : Subject (OrderInfo Nat) Nat := ⟨info, 8, 6⟩
  let auth : FillAuth (OrderInfo Nat) := ⟨info, 8, 40, 100, 200⟩
  let filler := Ledger.outsider 7 (by decide)
  let s₀ : BridgeState (OrderInfo Nat) Nat (Ledger Nat) Nat (Ledger Nat) :=
    deployed (update₂ (fun _ _ => 0) 4 2 100)
      (update₂ (fun _ _ => 0) 6 (Ledger.destinationChain.computeAddress 8 14) 36) 1 1 0
  let s₁ := act (b := Ledger.bridge) (.destination (.leaf (.deploy 14 8 2 6 36 200))) s₀
  let s₂ := act (b := Ledger.bridge) (.source (.leaf (.fillSlot filler 8 info [1] auth [1]))) s₁
  let s₃ := act (b := Ledger.bridge) (.elapse 1 1 100) s₂
  let s₄ := act (b := Ledger.bridge) (.source (.leaf (.withdraw info 8 7 true))) s₃
  let s₅ := act (b := Ledger.bridge) (.elapse 1 1 100) s₄
  let s := act (b := Ledger.bridge) (.destination (.leaf (.claim 30 8 14 7))) s₅
  have hwithdrawn : (sourceEscrow subject s₅).claimed = true := by decide +kernel
  have hs : Reachable Ledger.bridge subject s := by
    refine ⟨_, _, 1, 1, 0, .tail (b := s₅) (.tail (b := s₄) (.tail (b := s₃) (.tail (b := s₂)
      (.tail (b := s₁) (.tail .refl (.act s₀ _ ?_)) (.act s₁ _ trivial)) (.act s₂ _ trivial))
      (.act s₃ _ trivial)) (.act s₄ _ trivial)) (.act s₅ _ ?_)⟩
    · exact ⟨trivial, trivial⟩
    · exact ⟨fun _ => hwithdrawn, trivial⟩
  exact ⟨s, ⟨info, auth, filler, 8⟩, hs, by decide +kernel, by decide +kernel,
    htlc_atomic (Ledger.plainToken 6) hs (u := ⟨8, 14, 2, 6, 36, 200⟩) (by decide +kernel)
      (by decide +kernel) rfl rfl⟩

end Bridge

end NeutronX.CrossChain
