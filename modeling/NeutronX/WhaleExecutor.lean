import NeutronX.ExecutorRecovery
import NeutronX.WhaleFiller

/-!
# The executor with the Whale's strategy

The two fillers have the same executor (the Whale's buys its output before
the approval), and it compares no amount with the minimum of a chunk. The
Whale's strategy does, for the whole order, once. That is enough
(`whale_amounts_pass`): whatever the executor registers for, locks or
executes is at least a chunk's minimum or all that is left, and stays so,
because what is left only shrinks (`AmpleLaw`). What others fill meanwhile
can make an amount too large, never too small.
-/

namespace NeutronX

open Evm Function

namespace Executor

open CoWFiller (FillDecision executeAmount registerAmount_eq_min executeAmount_eq_min MinChunkRule
  minChunkRule_iff minChunkRule_later)
open FallbackWatcher (afterCall)
open NeutronX.System (Label elapse unfilled minChunkOf Segments)

variable {κ W : Type} [DecidableEq κ] (d : Deployment κ W) (wallet : Account)

/-! ## The Whale's decisions -/

/-- A decision of the Whale's on the order: its amounts are the signed ones,
its curve and its fills are what the backend says. -/
def Decides (info : NeutronX.OrderInfo) (decision : FillDecision) : Prop :=
  ∃ q order currentBlock r, WhaleFiller.decide q order currentBlock = .ok r ∧
    order.inputAmount = info.inputAmount ∧ order.minFillBps = info.minFillBps ∧
    decision.shouldFill = r.shouldFill ∧ decision.fillAmount = r.fillAmount

theorem Decides.minChunk_le {info : NeutronX.OrderInfo} {decision : FillDecision}
    (h : Decides info decision) (hfill : decision.shouldFill = true) :
    minChunkOf info ≤ decision.fillAmount := by
  obtain ⟨q, order, currentBlock, r, hdecide, hinput, hbps, hshould, hamount⟩ := h
  rw [hshould] at hfill
  obtain ⟨outputBalance, -, -, -, hmin⟩ := WhaleFiller.decide_fills hdecide hfill
  rw [WhaleFiller.minFill, hinput, hbps] at hmin
  rw [hamount]
  exact hmin

/-- The strategy that answers is the Whale's. -/
def WhaleDecides (s : State κ W) : Action κ W → Prop
  | .decided i decision => ∀ c ∈ s.calls[i]?, Decides c.order.info decision
  | _ => True

/-! ## Amounts that are enough -/

/-- At least a chunk's minimum, or all that is left. -/
def Ample (chain : World κ W) (info : NeutronX.OrderInfo) (amount : Nat) : Prop :=
  min (minChunkOf info) (unfilled d chain info) ≤ amount

/-- What a call has read is not below what is left, and its amount is
ample. -/
def Stage.Ample (chain : World κ W) (info : NeutronX.OrderInfo) : Stage → Prop
  | .checking onChainRemaining | .deciding onChainRemaining =>
      unfilled d chain info ≤ onChainRemaining
  | .previewing fillAmount | .registering fillAmount _ | .choosing fillAmount
  | .approving fillAmount | .executing fillAmount => Executor.Ample d chain info fillAmount
  | .fetching | .reading | .registerSent _ | .executeSent _ | .releasing | .releaseSent _
  | .ended => True

def Request.Ample (chain : World κ W) : Request κ → Prop
  | .register order fillAmount _ => Executor.Ample d chain order.info fillAmount
  | .executePartialChunk order fillAmount => Executor.Ample d chain order.info fillAmount
  | .releaseRegistration _ => True

structure AmpleLaw (s : State κ W) : Prop where
  calls : ∀ c ∈ s.calls, c.stage.Ample d s.chain c.order.info
  sent : ∀ t ∈ s.sent, t.request.Ample d s.chain
  locks : ∀ info r, s.registered.lookup (d.hashOrder info) = some r →
    Ample d s.chain info r.fillAmount

variable {d wallet} {s : State κ W}

section Amounts

variable {chain chain' : World κ W} {info : NeutronX.OrderInfo}

omit [DecidableEq κ] in
/-- Capped by a remainder that was read before. -/
theorem Ample.capped {amount onChainRemaining : Nat} (h : Ample d chain info amount)
    (hread : unfilled d chain info ≤ onChainRemaining) :
    Ample d chain info (min amount onChainRemaining) :=
  Nat.le_min.mpr ⟨h, Nat.le_trans (Nat.min_le_right _ _) hread⟩

omit [DecidableEq κ] in
theorem Ample.minChunkRule {amount remaining : Nat} (h : Ample d chain info amount)
    (hle : amount ≤ remaining) (hleft : remaining ≤ unfilled d chain info) :
    MinChunkRule info amount remaining := by
  rw [Ample] at h
  rw [MinChunkRule]
  omega

theorem Ample.later {amount : Nat} (h : Ample d chain info amount)
    (hsegments : Segments d chain chain') : Ample d chain' info amount := by
  have hless := (System.segments_progress hsegments).unfilled info
  rw [Ample] at h ⊢
  omega

theorem Stage.Ample.later {stage : Stage} (h : stage.Ample d chain info)
    (hsegments : Segments d chain chain') : stage.Ample d chain' info := by
  have hless := (System.segments_progress hsegments).unfilled info
  cases stage with
  | checking onChainRemaining => exact Nat.le_trans hless h
  | deciding onChainRemaining => exact Nat.le_trans hless h
  | previewing fillAmount => exact Executor.Ample.later h hsegments
  | registering fillAmount stake => exact Executor.Ample.later h hsegments
  | choosing fillAmount => exact Executor.Ample.later h hsegments
  | approving fillAmount => exact Executor.Ample.later h hsegments
  | executing fillAmount => exact Executor.Ample.later h hsegments
  | fetching | reading | registerSent | executeSent | releasing | releaseSent | ended =>
      exact trivial

theorem Request.Ample.later {request : Request κ} (h : request.Ample d chain)
    (hsegments : Segments d chain chain') : request.Ample d chain' := by
  cases request with
  | register order fillAmount stake => exact Executor.Ample.later h hsegments
  | executePartialChunk order fillAmount => exact Executor.Ample.later h hsegments
  | releaseRegistration orderHash => exact trivial

end Amounts

/-! ## What a step keeps -/

/-- The chain moves on, and fewer transactions wait. -/
theorem AmpleLaw.later (h : AmpleLaw d s) {chain : World κ W}
    (hsegments : Segments d s.chain chain) {sent : List (Sent κ)} (hsent : ∀ t ∈ sent, t ∈ s.sent)
    (receipts : Nat → Option Bool) : AmpleLaw d { s with chain, sent, receipts } where
  calls := fun c hc => (h.calls c hc).later hsegments
  sent := fun t ht => (h.sent t (hsent t ht)).later hsegments
  locks := fun info r hr => (h.locks info r hr).later hsegments

theorem AmpleLaw.moved (h : AmpleLaw d s) {i : Nat} {c : TryFill} {stage : Stage}
    (hstage : stage.Ample d s.chain c.order.info) : AmpleLaw d (moved s i c stage) where
  calls := fun c' hc' => by
    rcases List.mem_or_eq_of_mem_set hc' with hold | rfl
    · exact h.calls c' hold
    · exact hstage
  sent := h.sent
  locks := h.locks

theorem AmpleLaw.ended (h : AmpleLaw d s) (i : Nat) (c : TryFill) :
    AmpleLaw d (Executor.moved s i c .ended) := h.moved trivial

theorem AmpleLaw.watched (h : AmpleLaw d s) (watching : Map κ SignedOrder) :
    AmpleLaw d { s with watching } := ⟨h.calls, h.sent, h.locks⟩

theorem AmpleLaw.unlocked (h : AmpleLaw d s) (hash : κ) :
    AmpleLaw d { s with registered := s.registered.erase hash } where
  calls := h.calls
  sent := h.sent
  locks := fun info r hr => h.locks info r (lookup_erase_sub hr)

theorem AmpleLaw.drop (h : AmpleLaw d s) (hash : κ) : AmpleLaw d (drop s hash) :=
  (h.unlocked hash).watched (s.watching.erase hash)

theorem AmpleLaw.onCall (h : AmpleLaw d s) {i : Nat} {f : TryFill → State κ W}
    (hf : ∀ c, c ∈ s.calls → s.calls[i]? = some c → AmpleLaw d (f c)) :
    AmpleLaw d (onCall s i f) := by
  unfold Executor.onCall
  split
  case h_1 c hc => exact hf c (List.mem_of_getElem? hc) hc
  case h_2 => exact h

theorem AmpleLaw.reclaimStake (h : AmpleLaw d s) (i : Nat) (c : TryFill) :
    AmpleLaw d (reclaimStake d s i c) := by
  unfold Executor.reclaimStake
  split
  case isTrue => exact h.moved trivial
  case isFalse => exact (h.ended i c).drop _

/-- A chunk is for what the lock has, capped by what was read. -/
theorem AmpleLaw.phases (h : AmpleLaw d s) {i : Nat} {c : TryFill} {onChainRemaining : Nat}
    (hread : unfilled d s.chain c.order.info ≤ onChainRemaining) :
    AmpleLaw d (phases d s i c onChainRemaining) := by
  unfold Executor.phases
  split
  case h_1 r hr =>
    have hlocked := (h.locks c.order.info r hr).capped hread
    rw [← executeAmount_eq_min] at hlocked
    exact h.moved hlocked
  case h_2 =>
  split
  case isTrue => exact h.moved hread
  case isFalse => exact h.ended i c

theorem AmpleLaw.decided (h : AmpleLaw d s) {i : Nat} {decision : FillDecision}
    (hwhale : ∀ c ∈ s.calls[i]?, Decides c.order.info decision) :
    AmpleLaw d (decided s i decision) := by
  refine h.onCall fun c hmem hc => ?_
  have hstage := h.calls c hmem
  split
  case h_1 onChainRemaining heq =>
    rw [heq] at hstage
    split
    case isTrue hfill =>
      have hmin := (hwhale c hc).minChunk_le hfill
      have hdecided : Ample d s.chain c.order.info decision.fillAmount :=
        Nat.le_trans (Nat.min_le_left _ _) hmin
      have hregister := hdecided.capped hstage
      rw [← registerAmount_eq_min] at hregister
      exact h.moved hregister
    case isFalse => exact h.ended i c
  case h_2 fillAmount heq =>
    rw [heq] at hstage
    split
    case isTrue => exact h.moved hstage
    case isFalse => exact h.ended i c
  case h_3 => exact h

/-- The lock is for what the call is about to register for. -/
theorem AmpleLaw.requiredStake (h : AmpleLaw d s) (i stake : Nat) :
    AmpleLaw d (requiredStake d s i stake) := by
  refine h.onCall fun c hmem hc => ?_
  have hstage := h.calls c hmem
  split
  case h_1 fillAmount heq =>
    rw [heq] at hstage
    have hmoved : AmpleLaw d (Executor.moved s i c (.registering fillAmount stake)) :=
      h.moved hstage
    refine ⟨hmoved.calls, hmoved.sent, fun info r hr => ?_⟩
    by_cases hsame : d.hashOrder info = c.hash d
    · obtain rfl : info = c.order.info := d.hash_injective hsame
      rw [hsame, AList.lookup_insert] at hr
      cases hr
      exact hstage
    · rw [AList.lookup_insert_ne hsame] at hr
      exact h.locks info r hr
  case h_2 => exact h

theorem AmpleLaw.send (h : AmpleLaw d s) (i transactionHash : Nat) :
    AmpleLaw d (send d wallet s i transactionHash) := by
  refine h.onCall fun c hmem hc => ?_
  have hstage := h.calls c hmem
  split
  case h_2 => exact h
  case h_1 request stage hrequest =>
  split
  case isTrue => exact h
  case isFalse =>
  have hboth : request.Ample d s.chain ∧ stage.Ample d s.chain c.order.info := by
    unfold TryFill.request at hrequest
    split at hrequest
    case h_1 fillAmount stake heq =>
      rw [heq] at hstage
      cases hrequest
      exact ⟨hstage, trivial⟩
    case h_2 fillAmount heq =>
      rw [heq] at hstage
      cases hrequest
      exact ⟨hstage, trivial⟩
    case h_3 =>
      cases hrequest
      exact ⟨trivial, trivial⟩
    case h_4 => cases hrequest
  have hmoved : AmpleLaw d (Executor.moved s i c stage) := h.moved hboth.2
  refine ⟨hmoved.calls, fun t ht => ?_, hmoved.locks⟩
  rcases List.mem_cons.mp ht with rfl | hold
  · exact hboth.1
  · exact h.sent t hold

theorem AmpleLaw.receipt (h : AmpleLaw d s) (i : Nat) : AmpleLaw d (receipt d s i) := by
  refine h.onCall fun c hmem hc => ?_
  split
  case h_1 transactionHash hstage =>
    split
    case h_1 => exact h.ended i c
    case h_2 => exact (h.ended i c).unlocked _
    case h_3 => exact h
  case h_2 transactionHash hstage =>
    split
    case h_1 => exact (h.ended i c).drop _
    case h_2 => exact h.ended i c
    case h_3 => exact h
  case h_3 transactionHash hstage =>
    split
    case h_1 => exact (h.ended i c).drop _
    case h_2 => exact h
  case h_4 => exact h

theorem AmpleLaw.fail (h : AmpleLaw d s) (i : Nat) (alreadyRegistered : Bool) :
    AmpleLaw d (fail d wallet s i alreadyRegistered) := by
  refine h.onCall fun c hmem hc => ?_
  have hregister : AmpleLaw d
      (if alreadyRegistered = true ∧ (slot wallet s (c.hash d)).filler ≠ 0 then
        Executor.moved s i c .ended
      else
        { Executor.moved s i c .ended with registered := s.registered.erase (c.hash d) }) := by
    split
    case isTrue => exact h.ended i c
    case isFalse => exact (h.ended i c).unlocked _
  split
  case h_1 => exact h
  case h_2 => exact hregister
  case h_3 => exact hregister
  case h_4 => exact (h.ended i c).drop _
  case h_5 => exact (h.ended i c).drop _
  case h_6 => exact h.ended i c

theorem AmpleLaw.onBlock (h : AmpleLaw d s) (hash : κ) (currentBlock : Nat) :
    AmpleLaw d (onBlock s hash currentBlock) := by
  unfold Executor.onBlock
  split
  case h_2 => exact h
  case h_1 order hlookup =>
  split
  case isTrue => exact h
  case isFalse =>
  split
  case isTrue => exact h.drop hash
  case isFalse =>
  split
  case isTrue => exact h
  case isFalse =>
  refine ⟨fun c hc => ?_, h.sent, h.locks⟩
  rcases List.mem_append.mp hc with hold | hnew
  · exact h.calls c hold
  · cases List.mem_singleton.mp hnew
    exact trivial

theorem AmpleLaw.mine (h : AmpleLaw d s) (transactionHash : Nat)
    (turns : List (List (Call (Label κ W)))) :
    AmpleLaw d (mine d wallet s transactionHash turns) := by
  unfold Executor.mine
  split
  case h_2 => exact h
  case h_1 t ht =>
  have hsegments : Segments d s.chain
      (afterCall d (.mk (t.request.label wallet) turns) s.chain) :=
    System.run_segments [.call (.mk (t.request.label wallet) turns)] s.chain
  exact h.later hsegments (fun u hu => List.mem_of_mem_filter hu) _

/-- **The step lemma**: the strategy is asked once for an amount, and all
that happens to it until it is sent is that it is capped. -/
theorem ampleLaw_step (s : State κ W) (a : Action κ W) (h : AmpleLaw d s)
    (hwhale : WhaleDecides s a) : AmpleLaw d (step d wallet s a) := by
  cases a with
  | transaction call =>
      have hsegments : Segments d s.chain (afterCall d call s.chain) :=
        System.run_segments [.call call] s.chain
      exact h.later hsegments (fun _ ht => ht) s.receipts
  | elapse t =>
      have hsegments : Segments d s.chain (elapse t s.chain) := .single (.elapse s.chain t)
      exact h.later hsegments (fun _ ht => ht) s.receipts
  | mine transactionHash turns => exact h.mine transactionHash turns
  | discard transactionHash =>
      exact h.later .refl (fun t ht => List.mem_of_mem_filter ht) s.receipts
  | watch order =>
      simp only [step, watch]
      split
      case isTrue => exact h
      case isFalse => exact h.watched _
  | onBlock hash currentBlock => exact h.onBlock hash currentBlock
  | fetchOrder i answered =>
      refine h.onCall fun c hmem hc => ?_
      split
      case h_2 => exact h
      case h_1 =>
      have hreading : AmpleLaw d (Executor.moved s i c .reading) := h.moved trivial
      split
      case isTrue => exact hreading.watched _
      case isFalse => exact hreading
  | remainingInput i =>
      refine h.onCall fun c hmem hc => ?_
      split
      case h_2 => exact h
      case h_1 =>
      dsimp only
      split
      case isTrue => exact h.reclaimStake i c
      case isFalse =>
      split
      case isTrue => exact h.moved (Nat.le_refl _)
      case isFalse => exact h.phases (Nat.le_refl _)
  | isCancelled i =>
      refine h.onCall fun c hmem hc => ?_
      have hstage := h.calls c hmem
      split
      case h_2 => exact h
      case h_1 onChainRemaining heq =>
      rw [heq] at hstage
      split
      case isTrue => exact h.reclaimStake i c
      case isFalse => exact h.phases hstage
  | decided i decision => exact h.decided hwhale
  | requiredStake i stake => exact h.requiredStake i stake
  | approved i =>
      refine h.onCall fun c hmem hc => ?_
      have hstage := h.calls c hmem
      split
      case h_1 fillAmount heq =>
        rw [heq] at hstage
        exact h.moved hstage
      case h_2 => exact h
  | send i transactionHash => exact h.send i transactionHash
  | receipt i => exact h.receipt i
  | fail i alreadyRegistered => exact h.fail i alreadyRegistered
  | restart =>
      refine ⟨fun c hc => absurd hc List.not_mem_nil, h.sent, fun info r hr => ?_⟩
      have hnone : (∅ : Map κ Registration).lookup (d.hashOrder info) = none :=
        AList.lookup_empty _
      cases hnone.symm.trans hr

theorem ampleLaw_init (tokens : W) (block : Block) : AmpleLaw d (init d tokens block) where
  calls := fun c hc => absurd hc List.not_mem_nil
  sent := fun t ht => absurd ht List.not_mem_nil
  locks := fun info r hr => by
    rw [init, AList.lookup_empty] at hr
    cases hr

/-! ## What is under way -/

omit [DecidableEq κ] in
theorem Stage.Ample.amount {chain : World κ W} {info : NeutronX.OrderInfo} {stage : Stage}
    (h : stage.Ample d chain info) {purpose : Purpose} {amount : Nat}
    (hamount : stage.amount purpose = some amount) : Executor.Ample d chain info amount := by
  cases stage with
  | registering fillAmount stake =>
      obtain ⟨-, heq⟩ := Option.ite_none_right_eq_some.mp hamount
      cases heq
      exact h
  | choosing fillAmount | approving fillAmount | executing fillAmount =>
      obtain ⟨-, heq⟩ := Option.ite_none_right_eq_some.mp hamount
      cases heq
      exact h
  | fetching | reading | checking | deciding | previewing | registerSent | executeSent
  | releasing | releaseSent | ended => cases hamount

theorem Request.Ample.amount {chain : World κ W} {request : Request κ}
    (h : request.Ample d chain) {purpose : Purpose} {info : NeutronX.OrderInfo} {amount : Nat}
    (hamount : request.amount d purpose (d.hashOrder info) = some amount) :
    Executor.Ample d chain info amount := by
  cases request with
  | register order fillAmount stake =>
      obtain ⟨hfor, heq⟩ := Option.ite_none_right_eq_some.mp hamount
      cases heq
      obtain rfl := d.hash_injective hfor.1
      exact h
  | executePartialChunk order fillAmount =>
      obtain ⟨hfor, heq⟩ := Option.ite_none_right_eq_some.mp hamount
      cases heq
      obtain rfl := d.hash_injective hfor.1
      exact h
  | releaseRegistration orderHash => cases hamount

theorem AmpleLaw.amount (h : AmpleLaw d s) {purpose : Purpose} {info : NeutronX.OrderInfo}
    {amount : Nat} (hamount : amount ∈ amounts d s purpose (d.hashOrder info)) :
    Ample d s.chain info amount := by
  rcases mem_amounts.mp hamount with ⟨t, ht, hsent⟩ | ⟨c, hc, hcall⟩
  · exact (h.sent t ht).amount hsent
  · rw [TryFill.amount] at hcall
    split at hcall
    case isFalse => cases hcall
    case isTrue hfor =>
    obtain rfl := d.hash_injective hfor
    exact (h.calls c hc).amount hcall

/-- **The Whale's executor stakes for what it can execute.** In every run,
with any restarts, overlapping handlers, failing requests and calls of
others: what the executor registers or executes an order for is refused for
its amount only where others have filled so much that it is more than is
left. And what it keeps for the execute phase, capped by whatever is left
then, passes the reactor's minimum. -/
theorem whale_amounts_pass (tokens : W) (block : Block) {as : List (Action κ W)}
    (h : Along d wallet WhaleDecides (init d tokens block) as) (info : NeutronX.OrderInfo)
    (htotal : (info.inputAmount : Nat) < 2 ^ 128) :
    let s := run d wallet (init d tokens block) as
    (∀ purpose, ∀ amount ∈ amounts d s purpose (d.hashOrder info),
      amount ≤ unfilled d s.chain info →
        onlyIf (amount ≠ unfilled d s.chain info) (PartialFillReactor.checkMinFill info amount)
          = .ok ()) ∧
    ∀ lock, s.registered.lookup (d.hashOrder info) = some lock →
      ∀ later, later ≤ unfilled d s.chain info →
        onlyIf (executeAmount lock.fillAmount later ≠ later)
          (PartialFillReactor.checkMinFill info (executeAmount lock.fillAmount later))
          = .ok () := by
  intro s
  have hlaw : AmpleLaw d s := run_invariant ampleLaw_step (ampleLaw_init tokens block) h
  constructor
  · intro purpose amount hamount hle
    have hample := hlaw.amount hamount
    exact (minChunkRule_iff htotal amount _).mp (hample.minChunkRule hle (Nat.le_refl _))
  · intro lock hlock later hlater
    have hcapped : min lock.fillAmount (unfilled d s.chain info) ≤ unfilled d s.chain info :=
      Nat.min_le_right _ _
    have hrule := ((hlaw.locks info lock hlock).capped (Nat.le_refl _)).minChunkRule hcapped
      (Nat.le_refl _)
    have hlater' := minChunkRule_later hrule hlater
    have hsame : executeAmount (min lock.fillAmount (unfilled d s.chain info)) later
        = executeAmount lock.fillAmount later := by
      rw [executeAmount_eq_min, executeAmount_eq_min]
      omega
    rw [hsame] at hlater'
    exact (minChunkRule_iff htotal _ later).mp hlater'

theorem Along.imp {Ok Ok' : State κ W → Action κ W → Prop} (himp : ∀ s a, Ok s a → Ok' s a) :
    ∀ {as : List (Action κ W)} {s : State κ W}, Along d wallet Ok s as → Along d wallet Ok' s as
  | [], _, _ => trivial
  | _ :: _, _, h => ⟨himp _ _ h.1, Along.imp himp h.2⟩

/-! ## An order that others fill meanwhile -/

section Outrun

open FallbackWatcher (filler7)

/-- 1000 at a price of one, with chunks of at least 300. -/
def orderInChunks : NeutronX.OrderInfo := ⟨1, 2, 1000, 3, 900, 100, 0, 3000, 10 ^ 18, 0, 3000⟩

/-- The order as the Whale reads it, and a wallet that pays for 400. -/
def whaleOrder : WhaleFiller.OrderInfo :=
  ⟨⟨CoWFiller.WETH, CoWFiller.USDC, 1000, 100, 10 ^ 18, 0, []⟩, 3000⟩

def whaleWallet : WhaleFiller.Answers := ⟨fun _ => .ok 800, fun _ _ _ => ""⟩

/-- Every decision is to fill 400 of this order. -/
def FillsFourHundred (s : State OrderInfo Ledger) : Action OrderInfo Ledger → Prop
  | .decided i decision => decision.shouldFill = true ∧ decision.fillAmount = 400 ∧
      ∀ c ∈ s.calls[i]?, c.order.info = orderInChunks
  | _ => True

instance : ∀ s a, Decidable (FillsFourHundred s a) :=
  fun s a => by cases a <;> unfold FillsFourHundred <;> infer_instance

theorem decides_four_hundred {decision : FillDecision} (hfill : decision.shouldFill = true)
    (hamount : decision.fillAmount = 400) : Decides orderInChunks decision := by
  have hreturns : Returns (WhaleFiller.decide whaleWallet whaleOrder 50)
      (fun r => r.shouldFill = true ∧ r.fillAmount = 400) := by decide +kernel
  obtain ⟨r, hdecide, hr⟩ := hreturns
  exact ⟨whaleWallet, whaleOrder, 50, r, hdecide, rfl, rfl, hfill.trans hr.1.symm,
    hamount.trans hr.2.symm⟩

/-- The Whale registers for 400; in the same block another filler registers
for half the order and fills it; in the next the Whale executes. -/
def outrun (other : Account) : List (Action OrderInfo Ledger) :=
  [.watch ⟨orderInChunks, [1]⟩, .onBlock orderInChunks 50, .fetchOrder 0 true, .remainingInput 0,
   .decided 0 (profitable 400), .requiredStake 0 200, .send 0 1, .mine 1 [], .receipt 0,
   .transaction (.leaf (.register other 200 ⟨orderInChunks, [1]⟩ 500)),
   .transaction (.leaf (.executePartialChunk other ⟨orderInChunks, [1]⟩ 500)),
   .elapse ⟨1, 0⟩, .onBlock orderInChunks 51, .fetchOrder 1 true, .remainingInput 1,
   .isCancelled 1, .decided 1 (profitable 400), .approved 1]

/-- What it executes is 400 of the 500 left, and passes. -/
theorem whale_amounts_pass_outrun :
    ∃ s : State OrderInfo Ledger, unfilled Ledger.deployment s.chain orderInChunks = 500 ∧
      400 ∈ amounts Ledger.deployment s .execute orderInChunks ∧
      onlyIf ((400 : Nat) ≠ 500) (PartialFillReactor.checkMinFill orderInChunks 400) = .ok () := by
  let other : Account := ⟨8, by decide⟩
  let ledger : Ledger := update₂ (update₂ (fun _ _ => 0) 2 1 1000) 3 8 500
  have hfills : Along Ledger.deployment filler7 FillsFourHundred
      (init Ledger.deployment ledger ⟨50, 0⟩) (outrun other) := by decide +kernel
  have hwhale : Along Ledger.deployment filler7 WhaleDecides
      (init Ledger.deployment ledger ⟨50, 0⟩) (outrun other) := by
    refine hfills.imp fun s a h => ?_
    cases a with
    | decided i decision =>
        intro c hc
        rw [h.2.2 c hc]
        exact decides_four_hundred h.1 h.2.1
    | _ => exact trivial
  have hleft : unfilled Ledger.deployment
      (run Ledger.deployment filler7 (init Ledger.deployment ledger ⟨50, 0⟩) (outrun other)).chain
      orderInChunks = 500 := by decide +kernel
  have hexecuting : 400 ∈ amounts Ledger.deployment
      (run Ledger.deployment filler7 (init Ledger.deployment ledger ⟨50, 0⟩) (outrun other))
      .execute orderInChunks := by decide +kernel
  have hpasses := (whale_amounts_pass ledger ⟨50, 0⟩ hwhale orderInChunks (by decide)).1
    .execute 400 hexecuting (by rw [hleft]; decide)
  rw [hleft] at hpasses
  exact ⟨_, hleft, hexecuting, hpasses⟩

end Outrun

end Executor

end NeutronX
