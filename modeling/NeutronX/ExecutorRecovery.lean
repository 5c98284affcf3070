import NeutronX.ExecutorSteps
import NeutronX.FillsLedger

/-!
# The amount after a restart

The lock on an order holds the amount that was to be registered, and the
execute phase submits at most that. On chain the amount that counts is that
of the account's one registration. Whoever sets the lock asks nobody which
amount this is: after a restart, or while an earlier handler still waits
for its registration, the strategy decides anew, `register` answers
"already registered", and the lock keeps the new amount
(`recovered_exceeds`).

Where a decision to register agrees with those before it (`Agrees`), every
chunk is covered (`chunk_covered`): no amount for a chunk exceeds any amount
the registration has, or may come to have (`AmountLaw`). A decision with
none before it is free.
-/

namespace NeutronX

open Evm Function

namespace Executor

open CoWFiller (FillDecision registerAmount)

variable {κ W : Type} [DecidableEq κ] (d : Deployment κ W) (wallet : Account)

/-! ## Decisions that agree -/

/-- The amount a call has decided to register for, before it sets the lock. -/
def Stage.previewed : Stage → Option Nat
  | .previewing fillAmount => some fillAmount
  | _ => none

/-- The order the strategy decides to register for, and the amount: its own,
or what is left of the order where that is less. -/
def decisions (s : State κ W) : Action κ W → List (κ × Nat)
  | .decided i decision =>
      match s.calls[i]? with
      | some c =>
          match c.stage with
          | .deciding onChainRemaining =>
              if decision.shouldFill then
                [(c.hash d, registerAmount decision.fillAmount onChainRemaining)]
              else []
          | _ => []
      | none => []
  | _ => []

/-- The amounts that were decided on for an order and are not locked yet. -/
def planned (s : State κ W) (orderHash : κ) : List Nat :=
  s.calls.filterMap fun c => if c.hash d = orderHash then c.stage.previewed else none

/-- To register for this amount agrees with what was decided for the order
before. Where the account is registered, it is no more than that. Where it
is not, it is the same as every other amount that is on its way to be
registered, and no less than what is locked or executed. -/
structure Agrees (s : State κ W) (orderHash : κ) (fillAmount : Nat) : Prop where
  registered : Live (slot wallet s orderHash) →
    fillAmount ≤ (slot wallet s orderHash).fillAmount
  underWay : (slot wallet s orderHash).filler = 0 →
    ∀ x ∈ planned d s orderHash ++ amounts d s .register orderHash, x = fillAmount
  locked : (slot wallet s orderHash).filler = 0 →
    ∀ r ∈ s.registered.lookup orderHash, r.fillAmount ≤ fillAmount
  executed : (slot wallet s orderHash).filler = 0 →
    ∀ y ∈ amounts d s .execute orderHash, y ≤ fillAmount

instance (s : State κ W) (orderHash : κ) (fillAmount : Nat) :
    Decidable (Agrees d wallet s orderHash fillAmount) :=
  decidable_of_iff
    ((Live (slot wallet s orderHash) → fillAmount ≤ (slot wallet s orderHash).fillAmount) ∧
      ((slot wallet s orderHash).filler = 0 →
        ∀ x ∈ planned d s orderHash ++ amounts d s .register orderHash, x = fillAmount) ∧
      ((slot wallet s orderHash).filler = 0 →
        ∀ r ∈ s.registered.lookup orderHash, r.fillAmount ≤ fillAmount) ∧
      ((slot wallet s orderHash).filler = 0 →
        ∀ y ∈ amounts d s .execute orderHash, y ≤ fillAmount))
    ⟨fun h => ⟨h.1, h.2.1, h.2.2.1, h.2.2.2⟩,
      fun h => ⟨h.registered, h.underWay, h.locked, h.executed⟩⟩

/-- What the strategy decides to register for agrees with what was decided
before. -/
def DecidesAlike (s : State κ W) (a : Action κ W) : Prop :=
  ∀ x ∈ decisions d s a, Agrees d wallet s x.1 x.2

instance (s : State κ W) (a : Action κ W) : Decidable (DecidesAlike d wallet s a) :=
  inferInstanceAs (Decidable (∀ x ∈ decisions d s a, _))

/-- The account registers through the executor only, and the strategy decides
alike. -/
def Consistent (s : State κ W) (a : Action κ W) : Prop :=
  RegistersHere wallet a ∧ DecidesAlike d wallet s a

instance (s : State κ W) (a : Action κ W) : Decidable (Consistent d wallet s a) :=
  inferInstanceAs (Decidable (_ ∧ _))

/-! ## Amounts that are held, and those they may be measured by -/

/-- An amount the account's registration for the order has, or may come to
have. -/
inductive Candidate (s : State κ W) (orderHash : κ) : Nat → Prop
  | underWay (fillAmount : Nat) (hvacant : (slot wallet s orderHash).filler = 0)
      (h : fillAmount ∈ planned d s orderHash ++ amounts d s .register orderHash) :
      Candidate s orderHash fillAmount
  | registered (hlive : Live (slot wallet s orderHash)) :
      Candidate s orderHash (slot wallet s orderHash).fillAmount

/-- An amount a chunk of the order is executed for, at most. -/
inductive Held (s : State κ W) (orderHash : κ) : Nat → Prop
  | decided (fillAmount : Nat) (h : fillAmount ∈ planned d s orderHash) :
      Held s orderHash fillAmount
  | locked (r : Registration) (hr : s.registered.lookup orderHash = some r) :
      Held s orderHash r.fillAmount
  | underWay (fillAmount : Nat) (h : fillAmount ∈ amounts d s .execute orderHash) :
      Held s orderHash fillAmount

def AmountLaw (s : State κ W) : Prop :=
  ∀ k x y, Candidate d wallet s k x → Held d s k y → y ≤ x

variable {d wallet}

theorem mem_planned {s : State κ W} {k : κ} {x : Nat} :
    x ∈ planned d s k ↔ ∃ c ∈ s.calls, c.hash d = k ∧ c.stage.previewed = some x := by
  simp only [planned, List.mem_filterMap, Option.ite_none_right_eq_some]

theorem planned_mono {s s' : State κ W} {k : κ} {x : Nat} (h : x ∈ planned d s' k)
    (hcalls : ∀ c ∈ s'.calls, c ∈ s.calls ∨ c.stage.previewed = none) : x ∈ planned d s k := by
  obtain ⟨c, hc, hhash, hx⟩ := mem_planned.mp h
  rcases hcalls c hc with hold | hnone
  · exact mem_planned.mpr ⟨c, hold, hhash, hx⟩
  · rw [hnone] at hx
    cases hx

/-- Fewer amounts to measure by, and nothing larger held. -/
theorem AmountLaw.of_le {s s' : State κ W} (h : AmountLaw d wallet s)
    (hcandidate : ∀ k x, Candidate d wallet s' k x → Candidate d wallet s k x)
    (hheld : ∀ k y, Held d s' k y → ∃ z, Held d s k z ∧ y ≤ z) : AmountLaw d wallet s' := by
  intro k x y hx hy
  obtain ⟨z, hz, hle⟩ := hheld k y hy
  exact Nat.le_trans hle (h k x z (hcandidate k x hx) hz)

/-- The slot is what it was, or what the chain made of it. -/
theorem Candidate.of_slot {s s' : State κ W} {k : κ} {x : Nat} (h : Candidate d wallet s' k x)
    (hslot : SlotAfter (slot wallet s k) (slot wallet s' k))
    (hplanned : ∀ x ∈ planned d s' k, x ∈ planned d s k)
    (hamounts : ∀ x ∈ amounts d s' .register k, x ∈ amounts d s .register k) :
    Candidate d wallet s k x := by
  cases h with
  | underWay x hvacant hx =>
      refine .underWay x (hslot.filler_eq ▸ hvacant) (List.mem_append.mpr ?_)
      exact (List.mem_append.mp hx).imp (hplanned x) (hamounts x)
  | registered hlive =>
      rw [hslot.fillAmount_eq]
      exact .registered (hslot.live hlive)

/-- The lock is there or gone, and nothing larger is under way. -/
theorem Held.of_le {s s' : State κ W} {k : κ} {y : Nat} (h : Held d s' k y)
    (hplanned : ∀ x ∈ planned d s' k, x ∈ planned d s k)
    (hregistered : ∀ r, s'.registered.lookup k = some r → s.registered.lookup k = some r)
    (hamounts : ∀ y ∈ amounts d s' .execute k, ∃ z, Held d s k z ∧ y ≤ z) :
    ∃ z, Held d s k z ∧ y ≤ z := by
  cases h with
  | decided y hy => exact ⟨y, .decided y (hplanned y hy), Nat.le_refl _⟩
  | locked r hr => exact ⟨_, .locked r (hregistered r hr), Nat.le_refl _⟩
  | underWay y hy => exact hamounts y hy

/-- The locks are kept or lost, and no amount is new. -/
theorem AmountLaw.ofFewer {s s' : State κ W} (h : AmountLaw d wallet s)
    (hslot : ∀ k, SlotAfter (slot wallet s k) (slot wallet s' k))
    (hregistered : ∀ k r, s'.registered.lookup k = some r → s.registered.lookup k = some r)
    (hplanned : ∀ k, ∀ x ∈ planned d s' k, x ∈ planned d s k)
    (hamounts : ∀ purpose k, ∀ x ∈ amounts d s' purpose k, x ∈ amounts d s purpose k) :
    AmountLaw d wallet s' := by
  refine h.of_le (fun k x hx => hx.of_slot (hslot k) (hplanned k) (hamounts .register k))
    fun k y hy => ?_
  refine hy.of_le (hplanned k) (hregistered k) fun y hy => ?_
  exact ⟨y, .underWay y (hamounts .execute k y hy), Nat.le_refl y⟩

theorem lookup_erase_sub {k k' : κ} {m : Map κ Registration} {r : Registration}
    (h : (m.erase k').lookup k = some r) : m.lookup k = some r := by
  by_cases heq : k = k'
  · subst heq
    rw [AList.lookup_erase] at h
    cases h
  · rwa [AList.lookup_erase_ne heq] at h

omit [DecidableEq κ] in
theorem moved_planned {s : State κ W} {i : Nat} {c : TryFill} {stage : Stage}
    (hstage : stage.previewed = none) :
    ∀ c' ∈ s.calls.set i { c with stage }, c' ∈ s.calls ∨ c'.stage.previewed = none :=
  moved_stage (fun stage => stage.previewed = none) hstage

theorem amountLaw_moved {s : State κ W} (h : AmountLaw d wallet s) {i : Nat} {c : TryFill}
    (hc : s.calls[i]? = some c) {stage : Stage} (hmoves : Moves d s c stage)
    (watching : Map κ SignedOrder) :
    AmountLaw d wallet { moved s i c stage with watching } := by
  obtain ⟨hregister, hexecute⟩ := hmoves.amount
  have hpreviewed : stage.previewed = none := by
    cases hmoves <;> rfl
  have hplanned : ∀ k, ∀ x ∈ planned d { moved s i c stage with watching } k, x ∈ planned d s k :=
    fun k x hx => planned_mono hx (moved_planned hpreviewed)
  refine h.of_le (fun k x hx => hx.of_slot (.refl _) (hplanned k) fun x hx => ?_) fun k y hy => ?_
  · exact amounts_mono hx (fun t ht => ht) (moved_amount hregister)
  · refine hy.of_le (hplanned k) (fun r hr => hr) fun y hy => ?_
    rcases mem_amounts.mp hy with ⟨t, ht, hamount⟩ | ⟨c', hc', hamount⟩
    · exact ⟨y, .underWay y (mem_amounts.mpr (.inl ⟨t, ht, hamount⟩)), Nat.le_refl y⟩
    · rcases List.mem_or_eq_of_mem_set hc' with hold | rfl
      · exact ⟨y, .underWay y (mem_amounts.mpr (.inr ⟨c', hold, hamount⟩)), Nat.le_refl y⟩
      · rw [TryFill.amount] at hamount
        split at hamount
        case isFalse => cases hamount
        case isTrue hhash =>
        have hhash : c.hash d = k := hhash
        rcases hexecute y hamount with hhad | ⟨r, hr, hle⟩
        · refine ⟨y, .underWay y (mem_amounts.mpr (.inr ⟨c, List.mem_of_getElem? hc, ?_⟩)),
            Nat.le_refl y⟩
          rw [TryFill.amount, if_pos hhash]
          exact hhad
        · exact ⟨r.fillAmount, .locked r (hhash ▸ hr), hle⟩

/-- A decision that agrees with those before. -/
theorem amountLaw_decided {s : State κ W} (h : AmountLaw d wallet s) {i : Nat} {c : TryFill}
    {fillAmount : Nat} (hagrees : Agrees d wallet s (c.hash d) fillAmount) :
    AmountLaw d wallet (moved s i c (.previewing fillAmount)) := by
  have hplanned : ∀ k, ∀ x ∈ planned d (moved s i c (.previewing fillAmount)) k,
      x ∈ planned d s k ∨ k = c.hash d ∧ x = fillAmount := by
    intro k x hx
    obtain ⟨c', hc', hhash, hpreviewed⟩ := mem_planned.mp hx
    rcases List.mem_or_eq_of_mem_set hc' with hold | rfl
    · exact .inl (mem_planned.mpr ⟨c', hold, hhash, hpreviewed⟩)
    · cases hpreviewed
      exact .inr ⟨hhash.symm, rfl⟩
  have hamounts : ∀ purpose k, ∀ x ∈ amounts d (moved s i c (.previewing fillAmount)) purpose k,
      x ∈ amounts d s purpose k :=
    fun purpose k x hx => amounts_mono hx (fun t ht => ht) (moved_amount rfl)
  -- only the decision is new
  have hcandidate : ∀ k x, Candidate d wallet (moved s i c (.previewing fillAmount)) k x →
      Candidate d wallet s k x ∨
        k = c.hash d ∧ x = fillAmount ∧ (slot wallet s k).filler = 0 := by
    intro k x hx
    cases hx with
    | registered hlive => exact .inl (.registered hlive)
    | underWay x hvacant hx =>
        rcases List.mem_append.mp hx with hx | hx
        · rcases hplanned k x hx with hold | ⟨hk, hnew⟩
          · exact .inl (.underWay x hvacant (List.mem_append_left _ hold))
          · exact .inr ⟨hk, hnew, hvacant⟩
        · exact .inl (.underWay x hvacant (List.mem_append_right _ (hamounts _ k x hx)))
  have hheld : ∀ k y, Held d (moved s i c (.previewing fillAmount)) k y →
      Held d s k y ∨ k = c.hash d ∧ y = fillAmount := by
    intro k y hy
    cases hy with
    | decided y hy => exact (hplanned k y hy).imp_left (.decided y)
    | locked r hr => exact .inl (.locked r hr)
    | underWay y hy => exact .inl (.underWay y (hamounts _ k y hy))
  intro k x y hx hy
  rcases hcandidate k x hx with hbefore | ⟨rfl, rfl, hvacant⟩
  · rcases hheld k y hy with hheldBefore | ⟨rfl, rfl⟩
    · exact h k x y hbefore hheldBefore
    · cases hbefore with
      | registered hlive => exact hagrees.registered hlive
      | underWay x hvacant hx => exact Nat.le_of_eq (hagrees.underWay hvacant x hx).symm
  · rcases hheld _ y hy with hheldBefore | ⟨-, rfl⟩
    · cases hheldBefore with
      | decided y hy =>
          exact Nat.le_of_eq (hagrees.underWay hvacant y (List.mem_append_left _ hy))
      | locked r hr => exact hagrees.locked hvacant r hr
      | underWay y hy => exact hagrees.executed hvacant y hy
    · exact Nat.le_refl _

/-- The lock is for an amount that was decided on. -/
theorem amountLaw_locked {s : State κ W} (h : AmountLaw d wallet s) {i stake : Nat} {c : TryFill}
    (hc : s.calls[i]? = some c) {fillAmount : Nat} (hstage : c.stage = .previewing fillAmount) :
    AmountLaw d wallet { moved s i c (.registering fillAmount stake) with
      registered := s.registered.insert (c.hash d) ⟨fillAmount, c.currentBlock⟩ } := by
  have hdecided : fillAmount ∈ planned d s (c.hash d) := by
    refine mem_planned.mpr ⟨c, List.mem_of_getElem? hc, rfl, ?_⟩
    rw [hstage]
    rfl
  have hplanned : ∀ k, ∀ x ∈ planned d (moved s i c (.registering fillAmount stake)) k,
      x ∈ planned d s k := fun k x hx => planned_mono hx (moved_planned rfl)
  refine h.of_le (fun k x hx => ?_) fun k y hy => ?_
  · cases hx with
    | registered hlive => exact .registered hlive
    | underWay x hvacant hx =>
        refine .underWay x hvacant (List.mem_append.mpr ?_)
        rcases List.mem_append.mp hx with hx | hx
        · exact .inl (hplanned k x hx)
        · rcases mem_amounts.mp hx with ⟨t, ht, hamount⟩ | ⟨c', hc', hamount⟩
          · exact .inr (mem_amounts.mpr (.inl ⟨t, ht, hamount⟩))
          · rcases List.mem_or_eq_of_mem_set hc' with hold | rfl
            · exact .inr (mem_amounts.mpr (.inr ⟨c', hold, hamount⟩))
            · rw [TryFill.amount] at hamount
              split at hamount
              case isFalse => cases hamount
              case isTrue hhash =>
                have hhash : c.hash d = k := hhash
                cases hamount
                exact .inl (hhash ▸ hdecided)
  · cases hy with
    | decided y hy => exact ⟨y, .decided y (hplanned k y hy), Nat.le_refl y⟩
    | underWay y hy =>
        have hmoved : y ∈ amounts d (moved s i c (.registering fillAmount stake)) .execute k := hy
        have hbefore : y ∈ amounts d s .execute k :=
          amounts_mono hmoved (fun t ht => ht) (moved_amount rfl)
        exact ⟨y, .underWay y hbefore, Nat.le_refl y⟩
    | locked r hr =>
        by_cases hk : k = c.hash d
        · subst hk
          rw [AList.lookup_insert] at hr
          cases hr
          exact ⟨fillAmount, .decided fillAmount hdecided, Nat.le_refl _⟩
        · rw [AList.lookup_insert_ne hk] at hr
          exact ⟨_, .locked r hr, Nat.le_refl _⟩

/-- The registration of a request that was under way. -/
theorem amountLaw_taken {s : State κ W} (h : AmountLaw d wallet s) {t : Sent κ} (ht : t ∈ s.sent)
    {order : SignedOrder} {fillAmount stake : Nat}
    (hrequest : t.request = .register order fillAmount stake) {chain : World κ W}
    (htaken : SlotTaken s.chain chain wallet (d.hashOrder order.info) fillAmount)
    {sent : List (Sent κ)} (hsent : ∀ t ∈ sent, t ∈ s.sent) {receipts : Nat → Option Bool} :
    AmountLaw d wallet { s with chain, sent, receipts } := by
  refine h.of_le (fun k x hx => ?_) fun k y hy =>
    hy.of_le (fun x hx => hx) (fun r hr => hr) fun y hy => ?_
  · by_cases hk : k = d.hashOrder order.info
    · subst hk
      cases hx with
      | underWay x hvacant hx => exact absurd hvacant htaken.used
      | registered hlive =>
          rw [slot, htaken.fillAmount_eq]
          exact .underWay fillAmount htaken.vacant
            (List.mem_append_right _ (mem_amounts_of_sent ht hrequest))
    · have hslot : slot wallet { s with chain, sent, receipts } k = slot wallet s k :=
        htaken.others k hk
      refine hx.of_slot (hslot ▸ .refl _) (fun x hx => hx) fun x hx => ?_
      exact amounts_mono hx hsent fun c hc => .inl hc
  · exact ⟨y, .underWay y (amounts_mono hy hsent fun c hc => .inl hc), Nat.le_refl y⟩

/-- The step lemma. -/
theorem Effect.amountLaw {s s' : State κ W} {a : Action κ W} (h : Effect d wallet s a s')
    (hlaw : AmountLaw d wallet s) (halike : DecidesAlike d wallet s a) :
    AmountLaw d wallet s' := by
  have hsame : ∀ k, SlotAfter (slot wallet s k) (slot wallet s k) := fun k => .refl _
  cases h with
  | quiet watching hwatching =>
      exact hlaw.ofFewer hsame (fun k r hr => hr) (fun _ _ hx => hx) fun _ _ x hx => hx
  | chain chain hkept =>
      exact hlaw.ofFewer hkept.slots (fun k r hr => hr) (fun _ _ hx => hx) fun _ _ x hx => hx
  | mined t ht turns ha chain ok hmined =>
      rcases hmined.slots with hkept | ⟨order, fillAmount, stake, hrequest, htaken⟩
      · refine hlaw.ofFewer hkept.slots (fun k r hr => hr) (fun _ _ hx => hx)
          fun purpose k x hx => ?_
        exact amounts_mono hx (fun u hu => (List.mem_filter.mp hu).1) fun c hc => .inl hc
      · exact amountLaw_taken hlaw ht hrequest htaken fun u hu => (List.mem_filter.mp hu).1
  | discarded transactionHash =>
      refine hlaw.ofFewer hsame (fun k r hr => hr) (fun _ _ hx => hx) fun purpose k x hx => ?_
      exact amounts_mono hx (fun u hu => (List.mem_filter.mp hu).1) fun c hc => .inl hc
  | started order currentBlock =>
      refine hlaw.ofFewer hsame (fun k r hr => hr) (fun k x hx => ?_) fun purpose k x hx => ?_
      · exact planned_mono hx (started_stage (fun stage => stage.previewed = none) rfl)
      · refine amounts_mono hx (fun t ht => ht) ?_
        exact started_stage (fun stage => stage.amount purpose = none) rfl
  | moved i c hc stage hmoves watching hwatching => exact amountLaw_moved hlaw hc hmoves watching
  | decided i decision ha c hc onChainRemaining hstage hfill =>
      have hdecides : (c.hash d, registerAmount decision.fillAmount onChainRemaining)
          ∈ decisions d s a := by
        simp [ha, decisions, hc, hstage, hfill]
      exact amountLaw_decided hlaw (halike _ hdecides)
  | locked i stake ha c hc fillAmount hstage => exact amountLaw_locked hlaw hc hstage
  | sent i transactionHash c hc request stage hrequest hfresh =>
      have hpreviewed : stage.previewed = none := by
        unfold TryFill.request at hrequest
        split at hrequest <;> cases hrequest <;> rfl
      refine hlaw.ofFewer hsame (fun k r hr => hr) (fun k x hx => ?_)
        fun _ _ x hx => amounts_sent hc hrequest hx
      exact planned_mono hx (moved_planned hpreviewed)
  | unlocked k hk calls hcalls =>
      refine hlaw.ofFewer hsame (fun _ r hr => lookup_erase_sub hr) (fun _ x hx => ?_)
        fun purpose _ x hx => ?_
      · exact planned_mono hx (hcalls.stage (fun stage => stage.previewed = none) rfl)
      · exact amounts_mono hx (fun t ht => ht) (hcalls.amount purpose)
  | dropped k hk calls hcalls =>
      refine hlaw.ofFewer hsame (fun _ r hr => lookup_erase_sub hr) (fun _ x hx => ?_)
        fun purpose _ x hx => ?_
      · exact planned_mono hx (hcalls.stage (fun stage => stage.previewed = none) rfl)
      · exact amounts_mono hx (fun t ht => ht) (hcalls.amount purpose)
  | restarted ha =>
      refine hlaw.ofFewer hsame (fun k r hr => ?_) (fun k x hx => ?_) fun purpose k x hx => ?_
      · cases hr
      · exact planned_mono hx fun c hc => absurd hc List.not_mem_nil
      · exact amounts_mono hx (fun t ht => ht) fun c hc => absurd hc List.not_mem_nil

/-! ## Runs -/

/-- What holds of every consistent run. -/
structure ConsistentLaw (d : Deployment κ W) (wallet : Account) (s : State κ W) : Prop where
  visited : System.Visited d s.chain
  amounts : AmountLaw d wallet s

theorem consistentLaw_step (s : State κ W) (a : Action κ W) (h : ConsistentLaw d wallet s)
    (hconsistent : Consistent d wallet s a) : ConsistentLaw d wallet (step d wallet s a) :=
  ⟨(step_effect s hconsistent.1).visited h.visited,
    (step_effect s hconsistent.1).amountLaw h.amounts hconsistent.2⟩

theorem consistentLaw_init (tokens : W) (block : Block) :
    ConsistentLaw d wallet (init d tokens block) := by
  refine ⟨visited_init tokens block, fun k x y hx hy => ?_⟩
  cases hx with
  | underWay x hvacant hx => cases hx
  | registered hlive => exact absurd rfl hlive.1

/-- The executor calls `executePartialChunk`, or the call it made is not
mined yet. -/
def Asked (d : Deployment κ W) (s : State κ W) (orderHash : κ) (fillAmount : Nat) : Prop :=
  (∃ c ∈ s.calls, c.hash d = orderHash ∧ c.stage = .executing fillAmount) ∨
  ∃ t ∈ s.sent, t.request.amount d .execute orderHash = some fillAmount

instance (s : State κ W) (orderHash : κ) (fillAmount : Nat) :
    Decidable (Asked d s orderHash fillAmount) := inferInstanceAs (Decidable (_ ∨ _))

theorem Asked.held {s : State κ W} {k : κ} {y : Nat} (h : Asked d s k y) : Held d s k y := by
  refine .underWay y (mem_amounts.mpr ?_)
  rcases h with ⟨c, hc, hhash, hstage⟩ | hsent
  · refine .inr ⟨c, hc, ?_⟩
    rw [TryFill.amount, if_pos hhash, hstage]
    rfl
  · exact .inl hsent

/-- **Every chunk is covered**, in runs in which the strategy decides alike,
through restarts and failures: where the account is registered for an order,
a chunk the executor calls for is no larger than the registration, and the
check of the registration rejects it at most for the deadline. -/
theorem chunk_covered (tokens : W) (block : Block) (as : List (Action κ W))
    (h : Along d wallet (Consistent d wallet) (init d tokens block) as) (orderHash : κ)
    (fillAmount : Nat)
    (hasked : Asked d (run d wallet (init d tokens block) as) orderHash fillAmount)
    (hlive : Live (slot wallet (run d wallet (init d tokens block) as) orderHash)) :
    fillAmount ≤ (slot wallet (run d wallet (init d tokens block) as) orderHash).fillAmount ∧
    FillAuction.hasValidRegistration (run d wallet (init d tokens block) as).chain.block
        (run d wallet (init d tokens block) as).chain.auction orderHash wallet fillAmount
      = decide ((run d wallet (init d tokens block) as).chain.block.number
          ≤ (slot wallet (run d wallet (init d tokens block) as) orderHash).deadline) := by
  have hlaw := run_invariant consistentLaw_step (consistentLaw_init tokens block) h
  generalize run d wallet (init d tokens block) as = s at *
  have hle := hlaw.amounts orderHash _ _ (.registered hlive) hasked.held
  refine ⟨hle, ?_⟩
  obtain ⟨info, -, hfor⟩ := hlaw.visited.registered orderHash wallet hlive.1
  have hfiller : (slot wallet s orderHash).filler = wallet := hfor.filler_eq
  have hcast : toUint 128 fillAmount ≤ (slot wallet s orderHash).fillAmount :=
    Nat.le_trans (Nat.mod_le _ _) hle
  obtain ⟨hused, hopen⟩ := hlive
  simp only [NeutronX.Registration.resolved, Bool.or_eq_false_iff] at hopen
  simp only [FillAuction.hasValidRegistration]
  rw [decide_eq_decide]
  exact ⟨fun hvalid => hvalid.2.2.2.2.2,
    fun hnow => ⟨hfiller, hopen.1.1, hopen.1.2, hopen.2, hcast, hnow⟩⟩

/-! ## A restart -/

section Restart

open FallbackWatcher (orderOf1000 filler7 balances)

/-- The strategy fills this much. -/
def profitable (fillAmount : Nat) : FillDecision := ⟨true, fillAmount, 10 ^ 18, "profitable", none⟩

/-- The filler 7 looks at the order of 1000 for the first time, in block 50,
and calls `register`. -/
def locking (fillAmount : Nat) : List (Action OrderInfo Ledger) :=
  [.watch ⟨orderOf1000, [1]⟩, .onBlock orderOf1000 50, .fetchOrder 0 true, .remainingInput 0,
   .decided 0 (profitable fillAmount), .requiredStake 0 200]

/-- The registration is mined. -/
def registering : List (Action OrderInfo Ledger) := [.send 0 1, .mine 1 [], .receipt 0]

/-- After a restart the strategy decides on another amount, and the account
is registered already. -/
def recovering (fillAmount : Nat) : List (Action OrderInfo Ledger) :=
  [.restart] ++ locking fillAmount ++ [.fail 0 true]

/-- In block 51 the chunk is executed. -/
def executing : List (Action OrderInfo Ledger) :=
  [.elapse ⟨1, 0⟩, .onBlock orderOf1000 51, .fetchOrder 1 true, .remainingInput 1, .isCancelled 1,
   .decided 1 (profitable 0), .approved 1]

/-- A run from block 50 on. -/
def after (as : List (Action OrderInfo Ledger)) : State OrderInfo Ledger :=
  run Ledger.deployment filler7 (init Ledger.deployment balances ⟨50, 0⟩) as

/-- **The lock keeps what the strategy says now.** The account is registered
for 400; after the restart it calls for a chunk of 600, and the check of the
registration rejects it, before the deadline. -/
theorem recovered_exceeds :
    Live (slot filler7 (after (locking 400 ++ registering ++ recovering 600 ++ executing))
      orderOf1000) ∧
    (slot filler7 (after (locking 400 ++ registering ++ recovering 600 ++ executing))
      orderOf1000).fillAmount = 400 ∧
    Asked Ledger.deployment (after (locking 400 ++ registering ++ recovering 600 ++ executing))
      orderOf1000 600 ∧
    FillAuction.hasValidRegistration ⟨51, 0⟩
      (after (locking 400 ++ registering ++ recovering 600 ++ executing)).chain.auction
      orderOf1000 filler7 600 = false := by
  decide +kernel

/-- With 300 after the restart the chunk is covered. -/
theorem chunk_covered_recovered :
    Asked Ledger.deployment (after (locking 400 ++ registering ++ recovering 300 ++ executing))
      orderOf1000 300 ∧
    300 ≤ (slot filler7 (after (locking 400 ++ registering ++ recovering 300 ++ executing))
      orderOf1000).fillAmount := by
  have hconsistent : Along Ledger.deployment filler7 (Consistent Ledger.deployment filler7)
      (init Ledger.deployment balances ⟨50, 0⟩)
      (locking 400 ++ registering ++ recovering 300 ++ executing) := by
    decide +kernel
  have hasked : Asked Ledger.deployment
      (after (locking 400 ++ registering ++ recovering 300 ++ executing)) orderOf1000 300 := by
    decide +kernel
  have hlive : Live (slot filler7
      (after (locking 400 ++ registering ++ recovering 300 ++ executing)) orderOf1000) := by
    decide +kernel
  exact ⟨hasked, (chunk_covered _ _ _ hconsistent orderOf1000 300 hasked hlive).1⟩

end Restart

end Executor

end NeutronX
