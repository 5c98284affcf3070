import NeutronX.Ledger
import NeutronX.SystemProgress

/-!
# The deadline a registration keeps

The reactor checks an order against its full deadline; a registration
keeps 64 bits of it, and slashing and expiry go by those. For deadlines
below 2^64 the two agree, and nobody is slashed or expired early. A longer
deadline passes every check of `register` and is kept modulo 2^64.
-/

namespace NeutronX

open Evm Function

namespace System

open FillAuction (terms SLASH_WINDOW hasValidRegistration)

variable {κ W : Type} [DecidableEq κ] {d : Deployment κ W}

/-- In every later state the registration of `filler` for `info` goes by
the deadline of the order: no slash up to the end of the window after it,
and a registration that is not resolved is valid up to it, for any amount
it covers. -/
structure DeadlineKept (d : Deployment κ W) (s : World κ W) (info : OrderInfo)
    (filler : Address) : Prop where
  not_slashed : ∀ t, Segments d s t → t.block.number ≤ info.deadline + SLASH_WINDOW →
    ∀ (msgSender : Account) (t' : World κ W), slash d t msgSender (d.hashOrder info) filler ≠ .ok t'
  not_expired : ∀ t, Segments d s t → t.block.number ≤ info.deadline →
    (t.auction.registrations (d.hashOrder info) filler).resolved = false → ∀ fillAmount,
    toUint 128 fillAmount ≤ (t.auction.registrations (d.hashOrder info) filler).fillAmount →
    hasValidRegistration t.block t.auction (d.hashOrder info) filler fillAmount = true

/-- The slot `register` wrote. -/
theorem register_slot {s s' : World κ W} {msgSender : Account} {msgValue : Nat}
    {order : SignedOrder} {fillAmount : Nat}
    (h : register d s msgSender msgValue order fillAmount = .ok s') :
    s.block.number < order.info.deadline ∧ s'.block = s.block ∧
    ∃ snap, s'.auction.registrations (d.hashOrder order.info) msgSender
      = FillAuction.newRegistration s.block (registerArgs d msgSender order.info fillAmount)
          snap := by
  obtain ⟨auction, hauction, -, -, rfl⟩ := register_spec h
  obtain ⟨snap, hok, rfl⟩ := FillAuction.register_spec hauction
  exact ⟨hok.early, rfl, snap, update₂_self _ _ _ _⟩

/-- The deadline of a registration in any later state. -/
theorem registered_deadline {s s' t : World κ W} {msgSender : Account} {msgValue : Nat}
    {order : SignedOrder} {fillAmount : Nat}
    (h : register d s msgSender msgValue order fillAmount = .ok s') (ht : Segments d s' t) :
    (t.auction.registrations (d.hashOrder order.info) msgSender).filler = msgSender ∧
    (t.auction.registrations (d.hashOrder order.info) msgSender).deadline
      = toUint 64 order.info.deadline := by
  obtain ⟨-, -, snap, hslot⟩ := register_slot h
  have hused : (s'.auction.registrations (d.hashOrder order.info) msgSender).filler ≠ 0 := by
    rw [hslot]
    exact msgSender.2
  have hterms := (FillAuction.slotKept_run (segments_auction ht) hused).terms_eq
  rw [hslot] at hterms
  exact ⟨congrArg Registration.filler hterms, congrArg Registration.deadline hterms⟩

theorem slash_late {s s' : World κ W} {msgSender : Account} {orderHash : κ} {filler : Address}
    (h : slash d s msgSender orderHash filler = .ok s') :
    (s.auction.registrations orderHash filler).deadline + SLASH_WINDOW < s.block.number := by
  obtain ⟨auction, hauction, -⟩ := onAuction_spec h
  exact (FillAuction.slash_eq_ok.mp hauction).1.late

/-- A deadline of 64 bits is kept. -/
theorem deadlineKept_of_short {s s' : World κ W} {msgSender : Account} {msgValue : Nat}
    {order : SignedOrder} {fillAmount : Nat}
    (h : register d s msgSender msgValue order fillAmount = .ok s')
    (hshort : (order.info.deadline : Nat) < 2 ^ 64) :
    DeadlineKept d s' order.info msgSender := by
  refine ⟨fun t ht hnow caller t' hslash => ?_, fun t ht hnow hopen fillAmount hfill => ?_⟩
  · have hlate := slash_late hslash
    rw [(registered_deadline h ht).2, toUint_of_lt hshort] at hlate
    omega
  · obtain ⟨hfiller, hdeadline⟩ := registered_deadline h ht
    simp only [Registration.resolved, Bool.or_eq_false_iff] at hopen
    simp only [hasValidRegistration, decide_eq_true_eq]
    refine ⟨hfiller, hopen.1.1, hopen.1.2, hopen.2, hfill, ?_⟩
    rw [hdeadline, toUint_of_lt hshort]
    exact hnow

/-- The registration of a longer one has expired by the time of the signed
deadline. -/
theorem short_of_deadlineKept {s s' : World κ W} {msgSender : Account} {msgValue : Nat}
    {order : SignedOrder} {fillAmount : Nat}
    (h : register d s msgSender msgValue order fillAmount = .ok s')
    (hkept : DeadlineKept d s' order.info msgSender) :
    (order.info.deadline : Nat) < 2 ^ 64 := by
  by_contra hwide
  obtain ⟨hearly, hblock, snap, hslot⟩ := register_slot h
  -- let time pass up to the deadline itself
  let t := elapse ⟨order.info.deadline - s.block.number, 0⟩ s'
  have ht : Segments d s' t := .single (.elapse s' _)
  have hnow : t.block.number = order.info.deadline := by
    show s'.block.number + (order.info.deadline - s.block.number) = order.info.deadline
    rw [hblock]
    omega
  have hopen : (t.auction.registrations (d.hashOrder order.info) msgSender).resolved = false := by
    show (s'.auction.registrations (d.hashOrder order.info) msgSender).resolved = false
    rw [hslot]
    rfl
  have hvalid := hkept.not_expired t ht hnow.le hopen 0 (Nat.zero_le _)
  simp only [hasValidRegistration, decide_eq_true_eq] at hvalid
  have hexpiry := hvalid.2.2.2.2.2
  rw [(registered_deadline h ht).2, hnow] at hexpiry
  have hshort := toUint_lt 64 order.info.deadline
  omega

/-- **No slash before the signed deadline**, nor an early expiry, for a
registration that was accepted: exactly when the deadline fits 64 bits. -/
theorem deadlineKept_iff {s s' : World κ W} {msgSender : Account} {msgValue : Nat}
    {order : SignedOrder} {fillAmount : Nat}
    (h : register d s msgSender msgValue order fillAmount = .ok s') :
    DeadlineKept d s' order.info msgSender ↔ (order.info.deadline : Nat) < 2 ^ 64 :=
  ⟨short_of_deadlineKept h, deadlineKept_of_short h⟩

/-- A registration with a stake of 200 and a deadline of 100. -/
theorem deadlineKept_short :
    ∃ s : World OrderInfo Ledger,
      (s.auction.registrations ⟨1, 2, 1000, 3, 900, 100, 0, 0, 10 ^ 18, 0, 3000⟩ 7).stakeAmount
        = 200 ∧
      DeadlineKept Ledger.deployment s ⟨1, 2, 1000, 3, 900, 100, 0, 0, 10 ^ 18, 0, 3000⟩ 7 := by
  let info : OrderInfo := ⟨1, 2, 1000, 3, 900, 100, 0, 0, 10 ^ 18, 0, 3000⟩
  let filler : Account := ⟨7, by decide⟩
  have hreturns : Returns
      (register Ledger.deployment (deployed Ledger.deployment (fun _ _ => 0) ⟨10, 0⟩) filler 200
        ⟨info, [1]⟩ 1000)
      (fun s => (s.auction.registrations info 7).stakeAmount = 200) := by
    decide +kernel
  obtain ⟨s, hok, hstake⟩ := hreturns
  exact ⟨s, hstake, (deadlineKept_iff hok).mpr (by decide)⟩

/-- With a deadline of 2^64 + 100 the filler is slashed in block 151. -/
theorem deadline_not_kept_long :
    ∃ s t t' : World OrderInfo Ledger,
      register Ledger.deployment (deployed Ledger.deployment (fun _ _ => 0) ⟨10, 0⟩)
        ⟨7, by decide⟩ 200 ⟨⟨1, 2, 1000, 3, 900, 2 ^ 64 + 100, 0, 0, 10 ^ 18, 0, 3000⟩, [1]⟩ 1000
        = .ok s ∧
      t = elapse ⟨141, 0⟩ s ∧ t.block.number = 151 ∧
      slash Ledger.deployment t ⟨9, by decide⟩
        ⟨1, 2, 1000, 3, 900, 2 ^ 64 + 100, 0, 0, 10 ^ 18, 0, 3000⟩ 7 = .ok t' ∧
      ¬DeadlineKept Ledger.deployment s
        ⟨1, 2, 1000, 3, 900, 2 ^ 64 + 100, 0, 0, 10 ^ 18, 0, 3000⟩ 7 := by
  let info : OrderInfo := ⟨1, 2, 1000, 3, 900, 2 ^ 64 + 100, 0, 0, 10 ^ 18, 0, 3000⟩
  have hreturns : Returns (do
      let s ← register Ledger.deployment (deployed Ledger.deployment (fun _ _ => 0) ⟨10, 0⟩)
        ⟨7, by decide⟩ 200 ⟨info, [1]⟩ 1000
      let t' ← slash Ledger.deployment (elapse ⟨141, 0⟩ s) ⟨9, by decide⟩ info 7
      pure (s, t'))
      (fun r => (elapse ⟨141, 0⟩ r.1).block.number = 151) := by
    decide +kernel
  obtain ⟨⟨s, t'⟩, hok, hblock⟩ := hreturns
  simp only [bind_eq_ok, pure_eq_ok, Prod.mk.injEq] at hok
  obtain ⟨_, hregister, _, hslash, rfl, rfl⟩ := hok
  refine ⟨_, _, _, hregister, rfl, hblock, hslash, fun hkept => ?_⟩
  refine hkept.not_slashed _ (.single (.elapse _ ⟨141, 0⟩)) ?_ _ _ hslash
  rw [hblock]
  exact Nat.le_trans (by decide) (Nat.le_add_right _ _)

end System

end NeutronX
