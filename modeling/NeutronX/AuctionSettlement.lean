import NeutronX.AuctionSolvency

/-!
# Settlement against the snapshot

A settlement computes its refund from the registration alone: the stake,
the commitment, and the refund row and thresholds it was registered with.
No step writes to a used slot except to set a terminal flag on an open
one. So whatever happened to the configuration in the meantime, two runs
that settle a registration by the same fill credit the same amounts, and
the bucket read of the settlement is in bounds.
-/

namespace NeutronX

open Evm Function

namespace FillAuction

variable {κ : Type} [DecidableEq κ]

/-! ## What stays of a registration -/

/-- A registration without its terminal flags. -/
def terms (reg : Registration) : Registration :=
  { reg with filled := false, slashed := false, released := false }

omit [DecidableEq κ] in
theorem terms_flag (o : Outcome) (reg : Registration) : terms (o.flag reg) = terms reg := by
  cases o <;> rfl

theorem terms_of_open {reg : Registration} (h : reg.resolved = false) : terms reg = reg := by
  obtain ⟨filler, fillAmount, stakeAmount, orderTotal, registeredAt, deadline, filled, slashed,
    released, refundRow, ratioSnapshot⟩ := reg
  simp only [Registration.resolved, Bool.or_eq_false_iff] at h
  obtain ⟨⟨rfl, rfl⟩, rfl⟩ := h
  rfl

theorem terms_settled (p : AuctionParams) (s : AuctionState κ) (orderHash : κ)
    (filler : Address) (o : Outcome) (k : κ) (f : Address) :
    terms ((settled p s orderHash filler o).registrations k f) = terms (s.registrations k f) := by
  simp only [settled, posted, setRegistration, update₂_apply]
  split
  · rename_i heq
    obtain ⟨rfl, rfl⟩ := heq
    exact terms_flag o _
  · rfl

/-- The later state `s'` knows the registration in a used slot of `s`:
its terms are the same, and once it has ended nothing about it changes. -/
structure SlotKept (s s' : AuctionState κ) (orderHash : κ) (filler : Address) : Prop where
  used : (s'.registrations orderHash filler).filler ≠ 0
  terms_eq : terms (s'.registrations orderHash filler) = terms (s.registrations orderHash filler)
  ended : (s.registrations orderHash filler).resolved = true →
    s'.registrations orderHash filler = s.registrations orderHash filler ∧
    creditsOf s'.credits orderHash filler = creditsOf s.credits orderHash filler

theorem SlotKept.refl {s : AuctionState κ} {orderHash : κ} {filler : Address}
    (hused : (s.registrations orderHash filler).filler ≠ 0) : SlotKept s s orderHash filler :=
  ⟨hused, rfl, fun _ => ⟨rfl, rfl⟩⟩

/-- Nothing about the slot changed. -/
theorem SlotKept.ofSame {s s' : AuctionState κ} {orderHash : κ} {filler : Address}
    (hused : (s.registrations orderHash filler).filler ≠ 0)
    (hreg : s'.registrations orderHash filler = s.registrations orderHash filler)
    (hcred : creditsOf s'.credits orderHash filler = creditsOf s.credits orderHash filler) :
    SlotKept s s' orderHash filler :=
  ⟨by rwa [hreg], by rw [hreg], fun _ => ⟨hreg, hcred⟩⟩

theorem SlotKept.trans {s s' s'' : AuctionState κ} {orderHash : κ} {filler : Address}
    (h : SlotKept s s' orderHash filler) (h' : SlotKept s' s'' orderHash filler) :
    SlotKept s s'' orderHash filler where
  used := h'.used
  terms_eq := h'.terms_eq.trans h.terms_eq
  ended := fun hres => by
    obtain ⟨hreg, hcred⟩ := h.ended hres
    obtain ⟨hreg', hcred'⟩ := h'.ended (by rw [hreg]; exact hres)
    exact ⟨hreg'.trans hreg, hcred'.trans hcred⟩

/-- A step of the books leaves a used slot alone, or ends the open
registration in it. -/
theorem slotKept_booksStep {treasury : Address} {s s' : AuctionState κ}
    (h : BooksStep treasury (books s) (books s')) {orderHash : κ} {filler : Address}
    (hused : (s.registrations orderHash filler).filler ≠ 0) : SlotKept s s' orderHash filler := by
  generalize hb : books s = b at h
  generalize hb' : books s' = b' at h
  have hregs : s.registrations = b.registrations := by rw [← hb]; rfl
  have hcreds : s.credits = b.credits := by rw [← hb]; rfl
  have hregs' : s'.registrations = b'.registrations := by rw [← hb']; rfl
  have hcreds' : s'.credits = b'.credits := by rw [← hb']; rfl
  cases h with
  | register k f reg msgValue hfree hfresh hpaid hfits =>
      have hne : ¬(orderHash = k ∧ filler = f) := by
        rintro ⟨rfl, rfl⟩
        rw [hregs] at hused
        exact hused hfree
      have hreg : s'.registrations orderHash filler = s.registrations orderHash filler := by
        rw [hregs', hregs]
        exact update₂_of_ne hne reg
      have hcred : creditsOf s'.credits orderHash filler
          = creditsOf s.credits orderHash filler := by
        rw [hcreds', hcreds, creditsOf_append, creditsOf_excess, List.nil_append]
      exact .ofSame hused hreg hcred
  | settle k f o hslot hopen hsplit =>
      by_cases heq : orderHash = k ∧ filler = f
      · obtain ⟨rfl, rfl⟩ := heq
        have hreg : s'.registrations orderHash filler
            = o.flag (s.registrations orderHash filler) := by
          rw [hregs', hregs]
          exact update₂_self _ _ _ _
        refine ⟨?_, ?_, fun hres => ?_⟩
        · rw [hreg, o.flag_filler]
          exact hused
        · rw [hreg, terms_flag]
        · rw [hregs, hopen] at hres
          cases hres
      · have hreg : s'.registrations orderHash filler = s.registrations orderHash filler := by
          rw [hregs', hregs]
          exact update₂_of_ne heq _
        have hcred : creditsOf s'.credits orderHash filler
            = creditsOf s.credits orderHash filler := by
          rw [hcreds', hcreds, creditsOf_append, creditsOf_other o treasury _ heq,
            List.nil_append]
        exact .ofSame hused hreg hcred
  | pay account hle =>
      have hreg : s'.registrations = s.registrations := hregs'.trans hregs.symm
      have hcred : s'.credits = s.credits := hcreds'.trans hcreds.symm
      exact .ofSame hused (by rw [hreg]) (by rw [hcred])
  | force amount hfits =>
      have hreg : s'.registrations = s.registrations := hregs'.trans hregs.symm
      have hcred : s'.credits = s.credits := hcreds'.trans hcreds.symm
      exact .ofSame hused (by rw [hreg]) (by rw [hcred])

/-- The step lemma of a used slot. -/
theorem slotKept_step {p : AuctionParams} {s s' : AuctionState κ} (h : AuctionStep p s s')
    {orderHash : κ} {filler : Address}
    (hused : (s.registrations orderHash filler).filler ≠ 0) : SlotKept s s' orderHash filler := by
  rcases step_books h with heq | hstep
  · have hreg : s'.registrations = s.registrations := congrArg Books.registrations heq
    have hcred : s'.credits = s.credits := congrArg Books.credits heq
    exact .ofSame hused (by rw [hreg]) (by rw [hcred])
  · exact slotKept_booksStep hstep hused

/-- The run lemma of a used slot. -/
theorem slotKept_run {p : AuctionParams} {s s' : AuctionState κ} (h : AuctionRun p s s')
    {orderHash : κ} {filler : Address}
    (hused : (s.registrations orderHash filler).filler ≠ 0) : SlotKept s s' orderHash filler := by
  induction h with
  | refl => exact SlotKept.refl hused
  | tail _ hstep ih => exact ih.trans (slotKept_step hstep ih.used)

/-! ## The settlement -/

omit [DecidableEq κ] in
theorem credit_ne_outOfBounds {s : AuctionState κ} {c : Credit κ} :
    credit s c ≠ .error (.panic .outOfBounds) := by
  intro h
  rcases bind_eq_error.mp h with h | ⟨_, -, h⟩
  · exact checkedAdd_ne_outOfBounds h
  · cases h

/-- A settlement of a registration with a row of the right shape reverts
for many reasons, none of which is an index out of bounds. -/
theorem onFillSuccess_ne_outOfBounds {p : AuctionParams} {blk : Block} {s : AuctionState κ}
    {msgSender : Address} {orderHash : κ} {filler : Address} {actual remainingAtFill : Nat}
    (hshape : (s.registrations orderHash filler).refundRow.length
      = (s.registrations orderHash filler).ratioSnapshot.length + 1) :
    onFillSuccess p blk s msgSender orderHash filler actual remainingAtFill
      ≠ .error (.panic .outOfBounds) := by
  intro h
  simp only [onFillSuccess, bind_eq_error] at h
  rcases h with h | ⟨_, -, h | ⟨_, -, h | ⟨_, -, h | ⟨_, -, h | ⟨_, -, h⟩⟩⟩⟩⟩
  · exact require_ne_panic h
  · exact require_ne_panic h
  · exact DynamicStakeLib.computeRefund_ne_outOfBounds hshape h
  · exact checkedSub_ne_outOfBounds h
  · exact credit_ne_outOfBounds h
  · split at h
    · rcases bind_eq_error.mp h with h | ⟨_, -, h⟩
      · exact credit_ne_outOfBounds h
      · cases h
    · cases h

/-- A settlement ends the open registration of the filler it names. -/
theorem onFillSuccess_ends {p : AuctionParams} {admin : Address} {s s' : AuctionState κ}
    (hreach : AuctionRun p (deployed admin) s) {blk : Block} {msgSender : Address}
    {orderHash : κ} {filler : Address} {actual remainingAtFill : Nat}
    (h : onFillSuccess p blk s msgSender orderHash filler actual remainingAtFill = .ok s') :
    (s.registrations orderHash filler).resolved = false ∧
    (s'.registrations orderHash filler).filler ≠ 0 ∧
    (s'.registrations orderHash filler).resolved = true := by
  obtain ⟨-, hopen, refund, forfeited, evs, hrefund, -, rfl⟩ := onFillSuccess_spec h
  have hslots : SlotLaw p.treasury orderHash filler (s.registrations orderHash filler)
      (creditsOf s.credits orderHash filler) :=
    (booksInv_run (booksInv_deployed p.treasury admin) hreach).slots orderHash filler
  have hfresh := (hslots.live_of_open (settlementRefund_used hrefund) hopen).1
  have hflag : ({ settled p s orderHash filler (.filled refund forfeited) with
      events := evs } : AuctionState κ).registrations orderHash filler
      = Outcome.flag (.filled refund forfeited) (s.registrations orderHash filler) :=
    update₂_self _ _ _ _
  rw [hflag, Outcome.flag_filler, Outcome.flag_resolved, hfresh.filler_eq]
  exact ⟨hopen, hfresh.filler_ne, rfl⟩

/-- The registration `register` wrote, in any later state: the same terms,
and a row of the right shape. -/
theorem registered_later {p : AuctionParams} {admin : Address}
    {s₀ s s' : AuctionState κ} (hreach : AuctionRun p (deployed admin) s₀)
    {oracle : Option Quote} {blk : Block} {msgSender : Address} {msgValue : Nat}
    {a : RegisterArgs κ} (hfiller : a.filler ≠ 0)
    (hreg : register oracle blk s₀ msgSender msgValue a = .ok s) (hrun : AuctionRun p s s') :
    SlotKept s s' a.orderHash a.filler ∧
    SlotLaw p.treasury a.orderHash a.filler (s'.registrations a.orderHash a.filler)
      (creditsOf s'.credits a.orderHash a.filler) ∧
    (s'.registrations a.orderHash a.filler).refundRow.length
      = (s'.registrations a.orderHash a.filler).ratioSnapshot.length + 1 := by
  have hstep : AuctionStep p s₀ s := .register oracle blk msgSender msgValue a hfiller hreg
  obtain ⟨snap, hok, rfl⟩ := register_spec hreg
  have hwritten : (afterRegister blk s₀ msgValue a snap).registrations a.orderHash a.filler
      = newRegistration blk a snap := by
    simp [afterRegister, emit, posted, setRegistration]
  have hkept := slotKept_run hrun (by rw [hwritten]; exact hfiller)
  refine ⟨hkept, ?_, ?_⟩
  · have hinv := booksInv_run (booksInv_deployed p.treasury admin)
      ((hreach.tail hstep).trans hrun)
    exact hinv.slots a.orderHash a.filler
  · have hterms := hkept.terms_eq
    rw [hwritten] at hterms
    have hrow : (s'.registrations a.orderHash a.filler).refundRow = snap.refundRow :=
      congrArg Registration.refundRow hterms
    have hratio : (s'.registrations a.orderHash a.filler).ratioSnapshot = snap.ratioSnapshot :=
      congrArg Registration.ratioSnapshot hterms
    rw [hrow, hratio]
    exact hok.shape

/-- What the credits of a registration are from the moment it is settled
by a fill: refund and forfeit by the terms it was registered with. -/
theorem settled_credits {p : AuctionParams} {admin : Address}
    {s₀ s s₁ s₁' t : AuctionState κ} (hreach : AuctionRun p (deployed admin) s₀)
    {oracle : Option Quote} {blk : Block} {msgSender : Address} {msgValue : Nat}
    {a : RegisterArgs κ} (hfiller : a.filler ≠ 0)
    (hreg : register oracle blk s₀ msgSender msgValue a = .ok s) (hrun : AuctionRun p s s₁)
    {blk₁ : Block} {msgSender₁ : Address} {actual remainingAtFill : Nat}
    (hfill : onFillSuccess p blk₁ s₁ msgSender₁ a.orderHash a.filler actual remainingAtFill
      = .ok s₁')
    (hrest : AuctionRun p s₁' t) :
    ∃ refund forfeited,
      settlementRefund (terms (s.registrations a.orderHash a.filler)) actual remainingAtFill
        = .ok refund ∧
      refund + forfeited = (terms (s.registrations a.orderHash a.filler)).stakeAmount ∧
      creditsOf t.credits a.orderHash a.filler
        = (if 0 < forfeited then
            [⟨p.treasury, forfeited, some (a.orderHash, a.filler)⟩] else [])
          ++ [⟨a.filler, refund, some (a.orderHash, a.filler)⟩] := by
  obtain ⟨hkept, hlaw, -⟩ := registered_later hreach hfiller hreg hrun
  obtain ⟨-, hopen, refund, forfeited, evs, hrefund, hsplit, rfl⟩ := onFillSuccess_spec hfill
  have hsame := hkept.terms_eq
  rw [terms_of_open hopen] at hsame
  rw [hsame] at hrefund hsplit
  refine ⟨refund, forfeited, hrefund, hsplit, ?_⟩
  have hnone := (hlaw.live_of_open (used_of_filler hkept.used) hopen).2
  have hflag : ({ settled p s₁ a.orderHash a.filler (.filled refund forfeited) with
      events := evs } : AuctionState κ).registrations a.orderHash a.filler
      = Outcome.flag (.filled refund forfeited) (s₁.registrations a.orderHash a.filler) :=
    update₂_self _ _ _ _
  have hcred : creditsOf ({ settled p s₁ a.orderHash a.filler (.filled refund forfeited) with
      events := evs } : AuctionState κ).credits a.orderHash a.filler
      = Outcome.credits p.treasury a.orderHash a.filler
          (s₁.registrations a.orderHash a.filler) (.filled refund forfeited) := by
    show creditsOf (_ ++ s₁.credits) _ _ = _
    rw [creditsOf_append, creditsOf_self, hnone, List.append_nil]
  have hlater : SlotKept _ t a.orderHash a.filler :=
    slotKept_run hrest (by rw [hflag, Outcome.flag_filler]; exact hkept.used)
  rw [(hlater.ended (by rw [hflag, Outcome.flag_resolved])).2, hcred]
  rfl

/-- **Settlement is independent of the configuration.** Two runs from the
acceptance of a registration, with any configuration changes in them, that
settle it by the same fill with the same remaining amount credit the same
refund and the same forfeit for it; and in no run does its settlement
revert with an index out of bounds. -/
theorem settlement_config_independent {p : AuctionParams} {admin : Address}
    {s₀ s : AuctionState κ} (hreach : AuctionRun p (deployed admin) s₀)
    {oracle : Option Quote} {blk : Block} {msgSender : Address} {msgValue : Nat}
    {a : RegisterArgs κ} (hfiller : a.filler ≠ 0)
    (hreg : register oracle blk s₀ msgSender msgValue a = .ok s) (actual remainingAtFill : Nat) :
    (∀ {s₁ s₁' t₁ s₂ s₂' t₂ : AuctionState κ} {blk₁ blk₂ : Block}
      {msgSender₁ msgSender₂ : Address},
      AuctionRun p s s₁ →
      onFillSuccess p blk₁ s₁ msgSender₁ a.orderHash a.filler actual remainingAtFill
        = .ok s₁' →
      AuctionRun p s₁' t₁ →
      AuctionRun p s s₂ →
      onFillSuccess p blk₂ s₂ msgSender₂ a.orderHash a.filler actual remainingAtFill
        = .ok s₂' →
      AuctionRun p s₂' t₂ →
      ∃ refund forfeited,
        refund + forfeited = (s.registrations a.orderHash a.filler).stakeAmount ∧
        creditsOf t₁.credits a.orderHash a.filler
          = (if 0 < forfeited then
              [⟨p.treasury, forfeited, some (a.orderHash, a.filler)⟩] else [])
            ++ [⟨a.filler, refund, some (a.orderHash, a.filler)⟩] ∧
        creditsOf t₂.credits a.orderHash a.filler = creditsOf t₁.credits a.orderHash a.filler) ∧
    ∀ {s₁ : AuctionState κ} (blk₁ : Block) (msgSender₁ : Address), AuctionRun p s s₁ →
      onFillSuccess p blk₁ s₁ msgSender₁ a.orderHash a.filler actual remainingAtFill
        ≠ .error (.panic .outOfBounds) := by
  constructor
  · intro s₁ s₁' t₁ s₂ s₂' t₂ blk₁ blk₂ msgSender₁ msgSender₂ hrun₁ hfill₁ hrest₁ hrun₂ hfill₂
      hrest₂
    obtain ⟨r₁, f₁, href₁, hsplit₁, hcred₁⟩ :=
      settled_credits hreach hfiller hreg hrun₁ hfill₁ hrest₁
    obtain ⟨r₂, f₂, href₂, hsplit₂, hcred₂⟩ :=
      settled_credits hreach hfiller hreg hrun₂ hfill₂ hrest₂
    obtain rfl : r₁ = r₂ := by
      rw [href₁] at href₂
      exact Except.ok.inj href₂
    obtain rfl : f₁ = f₂ := by omega
    exact ⟨r₁, f₁, hsplit₁, hcred₁, by rw [hcred₁, hcred₂]⟩
  · intro s₁ blk₁ msgSender₁ hrun
    exact onFillSuccess_ne_outOfBounds (registered_later hreach hfiller hreg hrun).2.2

/-- Half a commitment filled under the default configuration, and after a
change to six ratio buckets: the same 100 of the stake of 200 come back. -/
theorem settlement_config_independent_reshaped :
    ∃ t₁ t₂ : AuctionState Unit,
      (t₁.config.ratioThresholds.length = 4 ∧ t₂.config.ratioThresholds.length = 5 ∧
        t₁.pendingReturns 7 = 100) ∧
      creditsOf t₂.credits () 7 = creditsOf t₁.credits () 7 := by
  let reshaped : StakeConfig :=
    { DynamicStakeLib.defaultStakeConfig with
      ratioThresholds := [200, 1000, 3000, 7000, 8000]
      refundTable :=
        [500, 1000, 2500, 5000, 10000, 10000,
         333, 1000, 2000, 5000, 10000, 10000,
         100, 333, 1000, 3333, 10000, 10000,
         100, 200, 667, 2000, 10000, 10000] }
  have hreturns : Returns (do
      let s₀ ← setReactor ⟨1, 1⟩ (deployed (κ := Unit) 1) 1 5
      let s ← register none ⟨1, 1⟩ s₀ 5 200 ⟨7, (), 1000, 1000, 100, 0, 0⟩
      let t₁ ← onFillSuccess ⟨100, 101⟩ ⟨2, 2⟩ s 5 () 7 500 1000
      let s₁ ← grantRole s 1 .paramAdmin 2
      let s₂ ← setStakeConfig ⟨2, 2⟩ s₁ 2 reshaped
      let t₂ ← onFillSuccess ⟨100, 101⟩ ⟨3, 3⟩ s₂ 5 () 7 500 1000
      pure (t₁, t₂))
      (fun t => t.1.config.ratioThresholds.length = 4 ∧
        t.2.config.ratioThresholds.length = 5 ∧ t.1.pendingReturns 7 = 100) := by
    decide +kernel
  obtain ⟨⟨t₁, t₂⟩, hok, ht⟩ := hreturns
  simp only [bind_eq_ok, pure_eq_ok, Prod.mk.injEq] at hok
  obtain ⟨s₀, h₀, s, hreg, _, hfill₁, s₁, hgrant, s₂, hconfig, _, hfill₂, rfl, rfl⟩ := hok
  have hreach : AuctionRun ⟨100, 101⟩ (deployed (κ := Unit) 1) s₀ := .single (.setReactor _ _ _ h₀)
  have hrun₂ : AuctionRun ⟨100, 101⟩ s s₂ :=
    (Relation.ReflTransGen.single (.grantRole _ _ _ hgrant)).tail (.setStakeConfig _ _ _ hconfig)
  obtain ⟨-, -, -, -, heq⟩ :=
    (settlement_config_independent hreach (by decide) hreg 500 1000).1 .refl hfill₁ .refl hrun₂
      hfill₂ .refl
  exact ⟨_, _, ht, heq⟩

end FillAuction

end NeutronX
