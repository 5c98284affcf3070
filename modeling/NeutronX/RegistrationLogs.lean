import NeutronX.AuctionSolvency
import NeutronX.RegistrationIndexer

/-!
# The logs of a registration

What an indexer of the auction can find: the events that concern stakes.
Those of one order and filler tell the life of one slot of the mapping, and
no more: it was registered once, and whatever ended it logged exactly what
it credited (`SlotStory`). So the last of them, in the order of the chain,
is the registration, and a slot that has logged anything else is never
registered again.
-/

namespace NeutronX

open Evm Function

/-! ## The keys of the logs -/

namespace RegistrationIndexer

variable {κ : Type}

/-- The row a handler writes to. -/
def Event.key : Event κ → κ × Address
  | .registered filler orderHash _ _ => (orderHash, filler)
  | .slashed filler orderHash _ _ _ => (orderHash, filler)
  | .stakeReturned filler orderHash _ => (orderHash, filler)
  | .stakeForfeited filler orderHash _ => (orderHash, filler)
  | .stakeReleased filler orderHash _ => (orderHash, filler)

/-- The events of one key. -/
def storyOf [DecidableEq κ] (x : κ × Address) (es : List (Event κ)) : List (Event κ) :=
  es.filter fun e => decide (e.key = x)

variable [DecidableEq κ] {x : κ × Address}

@[simp] theorem storyOf_nil : storyOf x ([] : List (Event κ)) = [] := rfl

theorem storyOf_append (es es' : List (Event κ)) :
    storyOf x (es ++ es') = storyOf x es ++ storyOf x es' := List.filter_append ..

@[simp] theorem storyOf_cons_self {e : Event κ} {es : List (Event κ)} (h : e.key = x) :
    storyOf x (e :: es) = e :: storyOf x es := by
  simp [storyOf, h]

theorem storyOf_cons_of_ne {e : Event κ} {es : List (Event κ)} (h : e.key ≠ x) :
    storyOf x (e :: es) = storyOf x es := by
  simp [storyOf, h]

theorem mem_storyOf {e : Event κ} {es : List (Event κ)} :
    e ∈ storyOf x es ↔ e ∈ es ∧ e.key = x := by
  simp [storyOf]

end RegistrationIndexer

namespace FillAuction

open RegistrationIndexer (Event storyOf storyOf_append storyOf_cons_of_ne isRegistered)

variable {κ : Type}

/-! ## What is logged -/

/-- The events the registration indexer queries. -/
def registrationLog (e : AuctionEvent κ) : Option (Event κ) :=
  match e with
  | .registered filler orderHash fillAmount stake =>
      some (.registered filler orderHash fillAmount stake)
  | .slashed filler orderHash stake caller reward =>
      some (.slashed filler orderHash stake caller reward)
  | .stakeReturned filler orderHash refund => some (.stakeReturned filler orderHash refund)
  | .stakeForfeited filler orderHash amount => some (.stakeForfeited filler orderHash amount)
  | .stakeReleased filler orderHash amount => some (.stakeReleased filler orderHash amount)
  | .reactorSet _ => none
  | .stakeConfigUpdated => none
  | .pendingConfigQueued _ => none
  | .pendingConfigCancelled => none
  | .configRollback => none

/-- Newest first. -/
def registrationLogs (s : AuctionState κ) : List (Event κ) :=
  s.events.filterMap fun e => registrationLog e.2

/-- What is logged when a registration is accepted. -/
def registeredLog (orderHash : κ) (filler : Address) (reg : Registration) : Event κ :=
  .registered filler orderHash reg.fillAmount reg.stakeAmount

namespace Outcome

/-- What is logged when a registration ends, newest first. -/
def logs (orderHash : κ) (filler : Address) (reg : Registration) : Outcome → List (Event κ)
  | .filled refund forfeited =>
      (if 0 < forfeited then [.stakeForfeited filler orderHash forfeited] else [])
        ++ [.stakeReturned filler orderHash refund]
  | .slashed caller =>
      [.slashed filler orderHash reg.stakeAmount caller (reg.stakeAmount / 10)]
  | .released => [.stakeReleased reg.filler orderHash reg.stakeAmount]

theorem key_of_mem_logs {o : Outcome} {orderHash : κ} {filler : Address} {reg : Registration}
    (hfiller : reg.filler = filler) {e : Event κ} (h : e ∈ o.logs orderHash filler reg) :
    e.key = (orderHash, filler) ∧ isRegistered e = false := by
  cases o with
  | filled refund forfeited =>
      rcases List.mem_append.mp h with h | h
      · split at h
        · obtain rfl := List.mem_singleton.mp h
          exact ⟨rfl, rfl⟩
        · exact absurd h List.not_mem_nil
      · obtain rfl := List.mem_singleton.mp h
        exact ⟨rfl, rfl⟩
  | slashed caller =>
      obtain rfl := List.mem_singleton.mp h
      exact ⟨rfl, rfl⟩
  | released =>
      obtain rfl := List.mem_singleton.mp h
      exact ⟨by rw [hfiller]; rfl, rfl⟩

variable [DecidableEq κ]

theorem storyOf_logs (o : Outcome) {orderHash : κ} {filler : Address} {reg : Registration}
    (hfiller : reg.filler = filler) :
    storyOf (orderHash, filler) (o.logs orderHash filler reg) = o.logs orderHash filler reg :=
  List.filter_eq_self.mpr fun _ he => decide_eq_true (key_of_mem_logs hfiller he).1

theorem storyOf_logs_other (o : Outcome) {orderHash k : κ} {filler f : Address}
    {reg : Registration} (hfiller : reg.filler = filler) (h : ¬(k = orderHash ∧ f = filler)) :
    storyOf (k, f) (o.logs orderHash filler reg) = [] := by
  refine List.filter_eq_nil_iff.mpr fun e he => ?_
  rw [(key_of_mem_logs hfiller he).1]
  simp only [Prod.mk.injEq, decide_eq_true_eq]
  exact fun heq => h ⟨heq.1.symm, heq.2.symm⟩

end Outcome

/-! ## What a step logs -/

variable [DecidableEq κ]

/-- What a step does to the registrations, their credits and their logs. -/
inductive Logged (treasury : Address) (s s' : AuctionState κ) : Prop
  | quiet (registrations : s'.registrations = s.registrations) (credits : s'.credits = s.credits)
      (logs : registrationLogs s' = registrationLogs s)
  | registered (orderHash : κ) (filler : Address) (reg : Registration) (excess : Nat)
      (free : (s.registrations orderHash filler).filler = 0) (fresh : Fresh filler reg)
      (registrations : s'.registrations = update₂ s.registrations orderHash filler reg)
      (credits : s'.credits = excessCredits filler excess ++ s.credits)
      (logs : registrationLogs s' = registeredLog orderHash filler reg :: registrationLogs s)
  | settled (orderHash : κ) (filler : Address) (o : Outcome)
      (used : s.registrations orderHash filler ≠ .empty)
      (unresolved : (s.registrations orderHash filler).resolved = false)
      (splits : o.Splits (s.registrations orderHash filler).stakeAmount)
      (registrations : s'.registrations = update₂ s.registrations orderHash filler
        (o.flag (s.registrations orderHash filler)))
      (credits : s'.credits
        = o.credits treasury orderHash filler (s.registrations orderHash filler) ++ s.credits)
      (logs : registrationLogs s'
        = o.logs orderHash filler (s.registrations orderHash filler) ++ registrationLogs s)

/-- A settlement logs the refund, and the forfeit if there is one. -/
theorem onFillSuccess_logged {p : AuctionParams} {blk : Block} {s s' : AuctionState κ}
    {msgSender : Address} {orderHash : κ} {filler : Address} {actual remainingAtFill : Nat}
    (h : onFillSuccess p blk s msgSender orderHash filler actual remainingAtFill = .ok s') :
    Logged p.treasury s s' := by
  simp only [onFillSuccess, bind_eq_ok, require_eq_ok, checkedSub_eq_ok, credit_eq_ok] at h
  obtain ⟨_, -, _, hopen, refund, hrefund, _, ⟨hle, rfl⟩, _, ⟨-, rfl⟩, h⟩ := h
  have hused := settlementRefund_used hrefund
  split at h
  · rename_i hpos
    simp only [bind_eq_ok, credit_eq_ok, pure_eq_ok] at h
    obtain ⟨_, ⟨-, rfl⟩, rfl⟩ := h
    refine .settled orderHash filler
      (.filled refund ((s.registrations orderHash filler).stakeAmount - refund)) hused hopen
      (by simp only [Outcome.Splits]; omega) rfl ?_ ?_
    · rw [Outcome.credits, if_pos hpos]
      rfl
    · rw [Outcome.logs, if_pos hpos]
      rfl
  · rename_i hpos
    obtain rfl := pure_eq_ok.mp h
    refine .settled orderHash filler
      (.filled refund ((s.registrations orderHash filler).stakeAmount - refund)) hused hopen
      (by simp only [Outcome.Splits]; omega) rfl ?_ ?_
    · rw [Outcome.credits, if_neg hpos]
      rfl
    · rw [Outcome.logs, if_neg hpos]
      rfl

/-- **The logs of a step.** -/
theorem step_logged {p : AuctionParams} {s s' : AuctionState κ} (h : AuctionStep p s s') :
    Logged p.treasury s s' := by
  cases h with
  | setReactor blk msgSender reactor_ h =>
      obtain ⟨-, rfl⟩ := setReactor_spec h
      exact .quiet rfl rfl rfl
  | register oracle blk msgSender msgValue a hfiller h =>
      obtain ⟨snap, hok, rfl⟩ := register_spec h
      have hstake : (newRegistration blk a snap).stakeAmount = snap.required :=
        toUint_of_lt hok.stake_fits
      have hfill : (newRegistration blk a snap).fillAmount = a.fillAmount :=
        toUint_of_lt (Nat.lt_of_le_of_lt hok.fill_le hok.total_fits)
      refine .registered a.orderHash a.filler (newRegistration blk a snap)
        (msgValue - snap.required) hok.free ⟨rfl, hfiller, rfl, rfl, rfl, hok.shape⟩ rfl rfl ?_
      rw [registeredLog, hstake, hfill]
      rfl
  | onFillSuccess blk msgSender orderHash filler actual remainingAtFill h =>
      exact onFillSuccess_logged h
  | slash view blk msgSender orderHash filler h =>
      obtain ⟨hok, -, -, rfl⟩ := slash_eq_ok.mp h
      exact .settled orderHash filler (.slashed msgSender) (used_of_filler hok.registered)
        hok.unresolved trivial rfl rfl rfl
  | releaseRegistration view blk orderHash filler h =>
      obtain ⟨hok, -, rfl⟩ := (releaseRegistration_eq_ok (p := p)).mp h
      exact .settled orderHash filler .released (used_of_filler hok.registered) hok.unresolved
        trivial rfl rfl rfl
  | withdrawSend msgSender to_ h =>
      obtain ⟨-, -, rfl⟩ := withdrawSend_spec h
      exact .quiet rfl rfl rfl
  | withdrawReturn accepted h =>
      obtain rfl := withdrawReturn_spec h
      exact .quiet rfl rfl rfl
  | grantRole msgSender role account h =>
      obtain rfl := grantRole_spec h
      exact .quiet rfl rfl rfl
  | revokeRole msgSender role account h =>
      obtain rfl := revokeRole_spec h
      exact .quiet rfl rfl rfl
  | renounceRole msgSender role callerConfirmation h =>
      obtain rfl := renounceRole_spec h
      exact .quiet rfl rfl rfl
  | setStakeConfig blk msgSender c h =>
      obtain ⟨-, hqueued | rfl⟩ := setStakeConfig_spec h
      · obtain ⟨effective, rfl⟩ := queueConfig_spec hqueued
        exact .quiet rfl rfl rfl
      · exact .quiet rfl rfl rfl
  | commitPending blk h =>
      obtain rfl := commitPending_spec h
      exact .quiet rfl rfl rfl
  | cancelPendingConfig blk msgSender h =>
      obtain rfl := cancelPendingConfig_spec h
      exact .quiet rfl rfl rfl
  | rollback blk msgSender h =>
      obtain rfl := rollback_spec h
      exact .quiet rfl rfl rfl
  | forceEth amount h =>
      obtain ⟨-, rfl⟩ := forceEth_spec h
      exact .quiet rfl rfl rfl

theorem Logged.suffix {treasury : Address} {s s' : AuctionState κ} (h : Logged treasury s s') :
    registrationLogs s <:+ registrationLogs s' := by
  cases h with
  | quiet registrations credits logs =>
      rw [logs]
  | registered orderHash filler reg excess free fresh registrations credits logs =>
      rw [logs]
      exact List.suffix_cons _ _
  | settled orderHash filler o used unresolved splits registrations credits logs =>
      rw [logs]
      exact List.suffix_append _ _

/-- What was logged stays. -/
theorem run_suffix {p : AuctionParams} {s s' : AuctionState κ} (h : AuctionRun p s s') :
    registrationLogs s <:+ registrationLogs s' := by
  induction h with
  | refl => exact List.suffix_rfl
  | tail _ hstep ih => exact ih.trans (step_logged hstep).suffix

/-! ## The story of a slot -/

/-- A slot, the credits out of it, and what was logged of it, newest first. -/
inductive SlotStory (treasury : Address) (orderHash : κ) (filler : Address) :
    Registration → List (Credit κ) → List (Event κ) → Prop
  | unused : SlotStory treasury orderHash filler .empty [] []
  | live (reg : Registration) (hfresh : Fresh filler reg) :
      SlotStory treasury orderHash filler reg [] [registeredLog orderHash filler reg]
  | ended (reg : Registration) (o : Outcome) (hfresh : Fresh filler reg)
      (hsplit : o.Splits reg.stakeAmount) :
      SlotStory treasury orderHash filler (o.flag reg) (o.credits treasury orderHash filler reg)
        (o.logs orderHash filler reg ++ [registeredLog orderHash filler reg])

section Stories

variable {treasury filler : Address} {orderHash : κ} {reg : Registration} {cs : List (Credit κ)}
  {es : List (Event κ)}

omit [DecidableEq κ] in
theorem SlotStory.of_free (h : SlotStory treasury orderHash filler reg cs es)
    (hz : reg.filler = 0) : reg = .empty ∧ cs = [] ∧ es = [] := by
  cases h with
  | unused => exact ⟨rfl, rfl, rfl⟩
  | live reg hfresh => exact absurd (hfresh.filler_eq ▸ hz) hfresh.filler_ne
  | ended reg o hfresh hsplit =>
      rw [o.flag_filler, hfresh.filler_eq] at hz
      exact absurd hz hfresh.filler_ne

omit [DecidableEq κ] in
theorem SlotStory.of_open (h : SlotStory treasury orderHash filler reg cs es)
    (hused : reg ≠ .empty) (hopen : reg.resolved = false) :
    Fresh filler reg ∧ cs = [] ∧ es = [registeredLog orderHash filler reg] := by
  cases h with
  | unused => exact absurd rfl hused
  | live reg hfresh => exact ⟨hfresh, rfl, rfl⟩
  | ended reg o hfresh hsplit =>
      rw [o.flag_resolved] at hopen
      cases hopen

omit [DecidableEq κ] in
/-- Nothing is registered after anything else was logged. -/
theorem SlotStory.registered_last (h : SlotStory treasury orderHash filler reg cs es)
    {before after : List (Event κ)} {t : Event κ} (hes : es = before ++ t :: after) :
    ∀ e ∈ before, isRegistered e = false := by
  have hends : ∀ (logs : List (Event κ)) (r : Event κ),
      (∀ e ∈ logs, isRegistered e = false) → logs ++ [r] = before ++ t :: after →
      ∀ e ∈ before, isRegistered e = false := by
    intro logs r hlogs heq e he
    rcases List.append_eq_append_iff.mp heq with ⟨mid, hmid, hrest⟩ | ⟨mid, hmid, -⟩
    · cases mid with
      | nil =>
          rw [List.append_nil] at hmid
          rw [hmid] at he
          exact hlogs e he
      | cons l mid =>
          have hlength := congrArg List.length hrest
          simp at hlength
    · rw [hmid] at hlogs
      exact hlogs e (List.mem_append_left _ he)
  cases h with
  | unused => exact absurd hes (by simp)
  | live reg hfresh => exact hends [] _ (fun _ he => absurd he List.not_mem_nil) hes
  | ended reg o hfresh hsplit =>
      exact hends _ _ (fun e he => (Outcome.key_of_mem_logs hfresh.filler_eq he).2) hes

omit [DecidableEq κ] in
theorem SlotStory.registered_mem (h : SlotStory treasury orderHash filler reg cs es)
    (hne : es ≠ []) : ∃ r ∈ es, isRegistered r = true := by
  cases h with
  | unused => exact absurd rfl hne
  | live reg hfresh => exact ⟨_, List.mem_singleton_self _, rfl⟩
  | ended reg o hfresh hsplit =>
      exact ⟨_, List.mem_append_right _ (List.mem_singleton_self _), rfl⟩

end Stories

/-- Every slot has its story. -/
def Storied (treasury : Address) (s : AuctionState κ) : Prop :=
  ∀ k f, SlotStory treasury k f (s.registrations k f) (creditsOf s.credits k f)
    (storyOf (k, f) (registrationLogs s))

theorem storied_deployed (treasury admin : Address) :
    Storied treasury (deployed (κ := κ) admin) := fun _ _ => .unused

/-- The step lemma of the stories. -/
theorem storied_step {treasury : Address} {s s' : AuctionState κ} (hs : Storied treasury s)
    (h : Logged treasury s s') : Storied treasury s' := by
  intro k f
  have hkf := hs k f
  cases h with
  | quiet registrations credits logs =>
      rw [registrations, credits, logs]
      exact hkf
  | registered orderHash filler reg excess free fresh registrations credits logs =>
      rw [registrations, credits, logs, creditsOf_append, creditsOf_excess, List.nil_append,
        update₂_apply]
      split
      · rename_i heq
        obtain ⟨rfl, rfl⟩ := heq
        obtain ⟨-, hcredits, hstory⟩ := hkf.of_free free
        have hkey : (registeredLog k f reg).key = (k, f) := rfl
        rw [hcredits, RegistrationIndexer.storyOf_cons_self hkey, hstory]
        exact .live reg fresh
      · rename_i hne
        have hkey : (registeredLog orderHash filler reg).key ≠ (k, f) := by
          intro heq
          cases heq
          exact hne ⟨rfl, rfl⟩
        rw [storyOf_cons_of_ne hkey]
        exact hkf
  | settled orderHash filler o used unresolved splits registrations credits logs =>
      obtain ⟨hfresh, hcredits, hstory⟩ := (hs orderHash filler).of_open used unresolved
      rw [registrations, credits, logs, creditsOf_append, storyOf_append, update₂_apply]
      split
      · rename_i heq
        obtain ⟨rfl, rfl⟩ := heq
        rw [creditsOf_self, hcredits, List.append_nil, o.storyOf_logs hfresh.filler_eq, hstory]
        exact .ended _ o hfresh splits
      · rename_i hne
        rw [creditsOf_other o treasury _ hne, List.nil_append,
          o.storyOf_logs_other hfresh.filler_eq hne, List.nil_append]
        exact hkf

/-- The run lemma of the stories. -/
theorem storied_run {p : AuctionParams} {s s' : AuctionState κ} (hs : Storied p.treasury s)
    (h : AuctionRun p s s') : Storied p.treasury s' := by
  induction h with
  | refl => exact hs
  | tail _ hstep ih => exact storied_step ih (step_logged hstep)

end FillAuction

end NeutronX
