import NeutronX.FillsLedger
import NeutronX.RegistrationMirror

/-!
# The registrations table is the chain's

A row of the table and a slot of the auction's mapping tell the same story:
the events of one order and filler. They determine what the row records
(`mirrored_story`), so the table agrees with the chain at the block up to
which the events of the registration were processed.
-/

namespace NeutronX

open Evm Function

/-! ## What the chain says of a registration -/

namespace FillAuction

open RegistrationIndexer (Figures RegistrationStatus Event Mirrored Records)

variable {κ : Type}

def registrationStatus (reg : Registration) : RegistrationStatus :=
  if reg.filled = true then .filled
  else if reg.slashed = true then .slashed
  else if reg.released = true then .released
  else .active

/-- A registration, and what was credited out of its stake, the oldest
credit first: the refund and the forfeited part of a fill, the caller's
reward of a slash. -/
def figures (reg : Registration) (credited : List Nat) : Option Figures :=
  if reg.filler = 0 then none
  else some
    { status := registrationStatus reg
      fillAmount := reg.fillAmount
      stakeAmount := reg.stakeAmount
      refundAmount := if reg.filled = true then credited[0]? else none
      forfeitedAmount := if reg.filled = true then credited[1]? else none
      slashedReward := if reg.slashed = true then credited[0]? else none }

def credited (cs : List (Credit κ)) : List Nat := cs.reverse.map Credit.amount

/-- What the chain says under a key. -/
def figuresOf [DecidableEq κ] (s : AuctionState κ) (orderHash : κ) (filler : Address) :
    Option Figures :=
  figures (s.registrations orderHash filler) (credited (creditsOf s.credits orderHash filler))

end FillAuction

/-! ## Rows that tell the same story -/

namespace RegistrationIndexer

variable {κ : Type} {es : List (Event κ)}

theorem ending_injective {status status' : RegistrationStatus}
    (h : status.ending = status'.ending) : status = status' := by
  cases status <;> cases status' <;> first | rfl | cases h

/-- A field is determined when the events give it one value at most. -/
theorem Records.eq {α : Type} {value value' : Option α} {pick : Event κ → Option α}
    (h : Records value pick es) (hpick : es.filterMap pick = value'.toList) : value = value' := by
  cases hvalue : value with
  | some a =>
      obtain ⟨e, he, ha⟩ := h.given a hvalue
      have hmem : a ∈ es.filterMap pick := List.mem_filterMap.mpr ⟨e, he, ha⟩
      rw [hpick, Option.mem_toList] at hmem
      exact hmem.symm
  | none =>
      have hnil : es.filterMap pick = [] := by
        refine List.eq_nil_iff_forall_not_mem.mpr fun a ha => ?_
        obtain ⟨e, he, hsome⟩ := List.mem_filterMap.mp ha
        rw [h.unset hvalue e he] at hsome
        cases hsome
      cases value' with
      | none => rfl
      | some a =>
          rw [hnil] at hpick
          cases hpick

/-- What a row records, given the values in the events. -/
theorem FiguresLaw.eq {g : Figures} (h : FiguresLaw g es) (g' : Figures)
    (hregistered : es.filterMap registeredOf = [(g'.fillAmount, g'.stakeAmount)])
    (hstatus : es.filterMap statusOf = g'.status.ending.toList)
    (hrefund : es.filterMap refundOf = g'.refundAmount.toList)
    (hforfeit : es.filterMap forfeitOf = g'.forfeitedAmount.toList)
    (hreward : es.filterMap rewardOf = g'.slashedReward.toList) : g = g' := by
  obtain ⟨e, he, hthere⟩ := h.registered
  have hmem : (g.fillAmount, g.stakeAmount) ∈ es.filterMap registeredOf :=
    List.mem_filterMap.mpr ⟨e, he, hthere⟩
  rw [hregistered, List.mem_singleton] at hmem
  have hending := ending_injective (h.status.eq hstatus)
  have hrefunded := h.refund.eq hrefund
  have hforfeited := h.forfeit.eq hforfeit
  have hrewarded := h.reward.eq hreward
  obtain ⟨status, fillAmount, stakeAmount, refund, forfeited, reward⟩ := g
  obtain ⟨rfl, rfl⟩ := Prod.mk.inj hmem
  dsimp only at hending hrefunded hforfeited hrewarded
  rw [hending, hrefunded, hforfeited, hrewarded]

/-- Where a registration was applied there is a row. -/
theorem Mirrored.of_registered {g : Option Figures} (h : Mirrored g es) {e : Event κ}
    (he : e ∈ es) (hregistered : isRegistered e = true) :
    ∃ row, g = some row ∧ FiguresLaw row es := by
  cases g with
  | none =>
      have hfalse := h e he
      rw [hregistered] at hfalse
      cases hfalse
  | some row => exact ⟨row, rfl, h⟩

end RegistrationIndexer

namespace FillAuction

open RegistrationIndexer (Event Figures RegistrationStatus Mirrored)

/-- **The story of a slot determines the row.** -/
theorem mirrored_story {κ : Type} {treasury filler : Address} {orderHash : κ}
    {reg : Registration} {cs : List (Credit κ)} {es : List (Event κ)} {g : Option Figures}
    (hrow : Mirrored g es) (h : SlotStory treasury orderHash filler reg cs es) :
    g = figures reg (credited cs) := by
  cases h with
  | unused =>
      cases g with
      | none => rfl
      | some row =>
          obtain ⟨e, he, -⟩ := hrow.registered
          exact absurd he List.not_mem_nil
  | live reg hfresh =>
      obtain ⟨row, rfl, hlaw⟩ := hrow.of_registered (List.mem_singleton_self _) rfl
      have hused : reg.filler ≠ 0 := by
        rw [hfresh.filler_eq]
        exact hfresh.filler_ne
      simp only [figures, if_neg hused, registrationStatus, hfresh.filled, hfresh.slashed,
        hfresh.released, Bool.false_eq_true, if_false]
      exact congrArg some (hlaw.eq _ rfl rfl rfl rfl rfl)
  | ended reg o hfresh hsplit =>
      obtain ⟨row, rfl, hlaw⟩ := hrow.of_registered
        (List.mem_append_right _ (List.mem_singleton_self _)) rfl
      have hused : reg.filler ≠ 0 := by
        rw [hfresh.filler_eq]
        exact hfresh.filler_ne
      cases o with
      | filled refund forfeited =>
          by_cases hpos : 0 < forfeited
          · simp only [Outcome.logs, if_pos hpos] at hlaw
            simp only [figures, Outcome.flag, Outcome.credits, if_neg hused, if_pos hpos,
              registrationStatus, hfresh.slashed, if_true, Bool.false_eq_true, if_false]
            exact congrArg some (hlaw.eq _ rfl rfl rfl rfl rfl)
          · simp only [Outcome.logs, if_neg hpos] at hlaw
            simp only [figures, Outcome.flag, Outcome.credits, if_neg hused, if_neg hpos,
              registrationStatus, hfresh.slashed, if_true, Bool.false_eq_true, if_false]
            exact congrArg some (hlaw.eq _ rfl rfl rfl rfl rfl)
      | slashed caller =>
          simp only [figures, Outcome.flag, Outcome.credits, if_neg hused, registrationStatus,
            hfresh.filled, if_true, Bool.false_eq_true, if_false]
          exact congrArg some (hlaw.eq _ rfl rfl rfl rfl rfl)
      | released =>
          simp only [figures, Outcome.flag, Outcome.credits, if_neg hused, registrationStatus,
            hfresh.filled, hfresh.slashed, if_true, Bool.false_eq_true, if_false]
          exact congrArg some (hlaw.eq _ rfl rfl rfl rfl rfl)

end FillAuction

/-! ## The table at a block -/

namespace RegistrationMirror

open FillAuction (registrationLogs figuresOf mirrored_story)
open RegistrationIndexer (registrationIndexer Event RegistrationRow Watched isRegistered storyOf
  appliedTo mem_appliedTo mem_storyOf)

variable {κ W : Type} [DecidableEq κ] {d : Deployment κ W}

/-- The chain is as block `n` left it. -/
structure AtBlock (n : Nat) (s : State κ W) : Prop where
  final : n < s.indexer.number
  upto : ∀ l ∈ s.indexer.logs, l.blockNumber ≤ n

/-- The blocks up to `n` have been processed for the key, and no later event
of it: a session or the checkpoint has got to `n`, from before the
registration. -/
structure Processed (n : Nat) (x : κ × Address) (s : RegistrationIndexer.State κ) : Prop where
  reached : s.checkpoint () = some n ∨ ∃ session, s.last session () = some n
  started : Watched s x
  upto : ∀ l ∈ s.applied, l.args.key = x → l.blockNumber ≤ n

theorem extends_step {s : State κ W} (h : MirrorLaw d s) (a : Action κ W) :
    Indexer.Extends s.indexer (step d s a).indexer := by
  have hrun : ∃ as, (step d s a).indexer = registrationIndexer.run s.indexer as := by
    cases a with
    | transaction transactionHash call =>
        simp only [step, transaction]
        split
        · exact ⟨[], rfl⟩
        · exact ⟨[.emit _], rfl⟩
    | elapse t => exact ⟨List.replicate t.blocks .mine, rfl⟩
    | index a =>
        simp only [step]
        split
        · exact ⟨[a], rfl⟩
        · exact ⟨[], rfl⟩
    | createOrder hash => exact ⟨[.other hash], rfl⟩
  obtain ⟨as, has⟩ := hrun
  rw [has]
  exact Indexer.run_extends h.indexer.sourced as

theorem extends_run {s : State κ W} (h : MirrorLaw d s) {as : List (Action κ W)}
    (has : Along d Smooth s as) : Indexer.Extends s.indexer (run d s as).indexer := by
  induction as generalizing s with
  | nil => exact ⟨Nat.le_refl _, fun _ hl => hl, fun _ hl => Or.inl hl⟩
  | cons a as ih => exact (extends_step h a).trans (ih (mirrorLaw_step s a h has.1) has.2)

/-- The feed started before every event of the key. -/
theorem started_before {x : κ × Address} {s : State κ W} (h : MirrorLaw d s)
    (hwatched : Watched s.indexer x) {o : Nat} (ho : s.indexer.startBlock () = some o)
    {l : Log (Event κ)} (hl : l ∈ s.indexer.logs) (hkey : l.args.key = x) :
    o < l.blockNumber := by
  cases hcase : isRegistered l.args with
  | true => exact hwatched o ho l hl hkey hcase
  | false =>
      have hmem : l.args ∈ storyOf x (registrationLogs s.chain.auction) := by
        rw [← h.logs]
        exact mem_storyOf.mpr ⟨List.mem_map_of_mem hl, hkey⟩
      obtain ⟨r, hr, hregistered⟩ :=
        (h.storied x.1 x.2).registered_mem (List.ne_nil_of_mem hmem)
      rw [mem_storyOf, ← h.logs, List.mem_map] at hr
      obtain ⟨⟨l', hl', rfl⟩, hkey'⟩ := hr
      have hbefore := hwatched o ho l' hl' hkey' hregistered
      have hle := h.indexer.inOrder.logs l hl l' hl' ⟨hcase, hregistered, hkey.trans hkey'.symm⟩
      omega

/-- The events of a key that are processed are those of the chain at the
block. -/
theorem applied_story {n : Nat} {x : κ × Address} {s s' : State κ W} (h : MirrorLaw d s)
    (h' : MirrorLaw d s') (hextends : Indexer.Extends s.indexer s'.indexer) (hat : AtBlock n s)
    (hprocessed : Processed n x s'.indexer) (e : Event κ) :
    e ∈ appliedTo s'.indexer x ↔ e ∈ storyOf x (registrationLogs s.chain.auction) := by
  rw [mem_appliedTo, mem_storyOf, ← h.logs, List.mem_map]
  constructor
  · rintro ⟨l, hl, rfl, hkey⟩
    refine ⟨⟨l, ?_, rfl⟩, hkey⟩
    have hle := hprocessed.upto l hl hkey
    rcases hextends.new l (h'.indexer.sourced.applied l hl) with hold | hnew
    · exact hold
    · have := hat.final
      omega
  · rintro ⟨⟨l, hl, rfl⟩, hkey⟩
    have hupto : registrationIndexer.Upto s'.indexer () n := by
      rcases hprocessed.reached with hcheckpoint | ⟨session, hlast⟩
      · exact (h'.indexer.covered.checkpoint () n hcheckpoint).2
      · exact (h'.indexer.covered.last session () n hlast).2
    have hlater := hextends.kept l hl
    exact ⟨l, hupto l ⟨hlater, RegistrationIndexer.watches_all _, fun o ho =>
      started_before h' hprocessed.started ho hlater hkey⟩ (hat.upto l hl), rfl, hkey⟩

/-- **The table is the chain's**, in runs in which no statement of a handler
fails, however the blocks are cut into ranges, and however often and by how
many handlers a range is processed: after `as` block `n` is over, and once
the events of a registration up to it are processed, after `bs`, the status
of its row and the amounts in it are the chain's at block `n`. -/
theorem registrations_mirrored (tokens : W) (block : Block) (as bs : List (Action κ W))
    (n : Nat) (hsmooth : Along d Smooth (init d tokens block) (as ++ bs))
    (hat : AtBlock n (run d (init d tokens block) as)) (orderHash : κ) (filler : Address)
    (hprocessed : Processed n (orderHash, filler)
      (run d (init d tokens block) (as ++ bs)).indexer) :
    ((run d (init d tokens block) (as ++ bs)).indexer.db.registrations (orderHash, filler)).map
        RegistrationRow.figures
      = figuresOf (run d (init d tokens block) as).chain.auction orderHash filler := by
  obtain ⟨has, hbs⟩ := hsmooth.append
  have h := mirrorLaw_run has
  have h' := mirrorLaw_run hsmooth
  rw [run_append] at hprocessed h' ⊢
  have hextends := extends_run h hbs
  generalize run d (init d tokens block) as = s at *
  have hrow := h'.indexer.rows _ hprocessed.started
  have hmirrored := hrow.congr (applied_story h h' hextends hat hprocessed)
  exact mirrored_story hmirrored (h.storied orderHash filler)

section Runs

open FallbackWatcher (orderOf1000 filler7 balances)

/-- The order of 1000 is registered for 400 by the filler 7, who delivers
200 of them, in block 10; the indexer started in block 9. -/
def registered : List (Action OrderInfo Ledger) :=
  [.createOrder orderOf1000, .index (.connect 0 () 9),
   .transaction 1 (.leaf (.register filler7 80 ⟨orderOf1000, [1]⟩ 400)), .elapse ⟨1, 0⟩,
   .transaction 2 (.leaf (.executePartialChunk filler7 ⟨orderOf1000, [1]⟩ 200)), .elapse ⟨1, 0⟩]

/-- Two handlers at a time, for blocks 10 and 11; what both of them find is
handled twice. -/
def polled : List (Action OrderInfo Ledger) :=
  [.index (.block 0 0 10), .index (.block 0 1 11), .index (.query 1 true), .index (.query 0 true),
   .index (.take 1), .index (.exec 1 .done), .index (.take 1), .index (.exec 1 .done),
   .index (.take 0), .index (.exec 0 .done), .index (.take 1), .index (.exec 1 .done),
   .index (.advance 1), .index (.store 1 .done)]

/-- The state after a run from block 10 on. -/
def after (as : List (Action OrderInfo Ledger)) : State OrderInfo Ledger :=
  run Ledger.deployment (init Ledger.deployment balances ⟨10, 0⟩) as

/-- Half of the stake of 80 was refunded, the other half forfeited. -/
theorem registrations_mirrored_half :
    ((after (registered ++ polled)).indexer.db.registrations (orderOf1000, 7)).map
        RegistrationRow.figures
      = some ⟨.filled, 400, 80, some 40, some 40, none⟩ := by
  have hsmooth : Along Ledger.deployment Smooth
      (init Ledger.deployment balances ⟨10, 0⟩) (registered ++ polled) := by
    decide +kernel
  have hat : AtBlock 11 (after registered) := ⟨by decide +kernel, by decide +kernel⟩
  have hprocessed : Processed 11 (orderOf1000, (7 : Address))
      (after (registered ++ polled)).indexer :=
    ⟨Or.inl (by decide +kernel), by decide +kernel, by decide +kernel⟩
  have hchain : figuresOf (after registered).chain.auction orderOf1000 7
      = some ⟨.filled, 400, 80, some 40, some 40, none⟩ := by
    decide +kernel
  exact (registrations_mirrored _ _ _ _ 11 hsmooth hat orderOf1000 7 hprocessed).trans hchain

end Runs

end RegistrationMirror

end NeutronX
