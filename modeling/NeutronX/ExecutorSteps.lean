import NeutronX.ExecutorChain

/-!
# What the executor can do

Every step of the executor has one of a few effects (`Effect`): the chain
moves on, a transaction is mined or given up, a `tryFill` moves to its next
stage, the lock on an order is set or lost, an order is dropped. Which
branches lose a lock, and which give an order up, is said of the state
before the step (`unlocked`, `givenUp`). What follows of the executor is
a case analysis on the effect of a step.
-/

namespace NeutronX

open Evm Function

namespace Executor

open CoWFiller (FillDecision registerAmount executeAmount executeAmount_le)
open FallbackWatcher (afterCall)
open NeutronX.System (Label Elapse body elapse unfilled)

variable {κ W : Type} [DecidableEq κ]

/-! ## Amounts -/

/-- What an amount is for. -/
inductive Purpose where
  | register
  | execute
deriving DecidableEq

def Stage.amount (purpose : Purpose) : Stage → Option Nat
  | .registering fillAmount _ => if purpose = .register then some fillAmount else none
  | .choosing fillAmount => if purpose = .execute then some fillAmount else none
  | .approving fillAmount => if purpose = .execute then some fillAmount else none
  | .executing fillAmount => if purpose = .execute then some fillAmount else none
  | _ => none

section Amounts

variable (d : Deployment κ W)

def TryFill.amount (purpose : Purpose) (orderHash : κ) (c : TryFill) : Option Nat :=
  if c.hash d = orderHash then c.stage.amount purpose else none

def Request.amount (purpose : Purpose) (orderHash : κ) : Request κ → Option Nat
  | .register order fillAmount _ =>
      if d.hashOrder order.info = orderHash ∧ purpose = .register then some fillAmount else none
  | .executePartialChunk order fillAmount =>
      if d.hashOrder order.info = orderHash ∧ purpose = .execute then some fillAmount else none
  | .releaseRegistration _ => none

/-- The amounts for an order that calls and transactions carry. -/
def amounts (s : State κ W) (purpose : Purpose) (orderHash : κ) : List Nat :=
  s.sent.filterMap (fun t => t.request.amount d purpose orderHash)
    ++ s.calls.filterMap fun c => c.amount d purpose orderHash

variable {d}

theorem mem_amounts {s : State κ W} {purpose : Purpose} {k : κ} {x : Nat} :
    x ∈ amounts d s purpose k ↔
      (∃ t ∈ s.sent, t.request.amount d purpose k = some x) ∨
      ∃ c ∈ s.calls, c.amount d purpose k = some x := by
  simp only [amounts, List.mem_append, List.mem_filterMap]

/-- A registration that was sent is under way. -/
theorem mem_amounts_of_sent {s : State κ W} {t : Sent κ} (ht : t ∈ s.sent) {order : SignedOrder}
    {fillAmount stake : Nat} (hrequest : t.request = .register order fillAmount stake) :
    fillAmount ∈ amounts d s .register (d.hashOrder order.info) := by
  refine mem_amounts.mpr (.inl ⟨t, ht, ?_⟩)
  rw [hrequest, Request.amount, if_pos ⟨rfl, rfl⟩]

/-- Where transactions and calls are among those before, or without an
amount, amounts are too. -/
theorem amounts_mono {s s' : State κ W} {purpose : Purpose} {k : κ} {x : Nat}
    (h : x ∈ amounts d s' purpose k) (hsent : ∀ t ∈ s'.sent, t ∈ s.sent)
    (hcalls : ∀ c ∈ s'.calls, c ∈ s.calls ∨ c.stage.amount purpose = none) :
    x ∈ amounts d s purpose k := by
  rcases mem_amounts.mp h with ⟨t, ht, hx⟩ | ⟨c, hc, hx⟩
  · exact mem_amounts.mpr (.inl ⟨t, hsent t ht, hx⟩)
  · rcases hcalls c hc with hold | hnone
    · exact mem_amounts.mpr (.inr ⟨c, hold, hx⟩)
    · rw [TryFill.amount, hnone, ite_self] at hx
      cases hx

/-- A request carries what the call for it carried. -/
theorem TryFill.request_amount {c : TryFill} {h : Nat} {request : Request κ} {stage : Stage}
    (hrequest : c.request d h = some (request, stage)) (purpose : Purpose) (k : κ) (x : Nat) :
    (request.amount d purpose k = some x → c.amount d purpose k = some x) ∧
    stage.amount purpose = none := by
  unfold TryFill.request at hrequest
  split at hrequest
  case h_1 fillAmount stake hstage =>
    cases hrequest
    simp [Request.amount, TryFill.amount, TryFill.hash, hstage, Stage.amount, and_assoc]
  case h_2 fillAmount hstage =>
    cases hrequest
    simp [Request.amount, TryFill.amount, TryFill.hash, hstage, Stage.amount, and_assoc]
  case h_3 =>
    cases hrequest
    exact ⟨fun hx => absurd hx (by simp [Request.amount]), rfl⟩
  case h_4 => cases hrequest

end Amounts

/-! ## Branches that forget -/

section Branches

variable (d : Deployment κ W) (wallet : Account) (s : State κ W)

/-- What an answer is for a call of the executor. -/
def ofCall (i : Nat) (f : TryFill → List κ) : List κ :=
  match s.calls[i]? with
  | some c => f c
  | none => []

/-- The orders whose lock the step takes away while they are watched: a
registration that failed, and a restart. -/
def unlocked : Action κ W → List κ
  | .receipt i => ofCall s i fun c =>
      match c.stage with
      | .registerSent transactionHash =>
          if s.receipts transactionHash = some false then [c.hash d] else []
      | _ => []
  | .fail i alreadyRegistered => ofCall s i fun c =>
      match c.stage with
      | .registering _ _ | .registerSent _ =>
          if alreadyRegistered = true ∧ (slot wallet s (c.hash d)).filler ≠ 0 then []
          else [c.hash d]
      | _ => []
  | .restart => s.registered.keys
  | _ => []

/-- The orders the step drops without looking at the chain: one that
expired, and one whose release was answered or failed. -/
def givenUp : Action κ W → List κ
  | .onBlock hash currentBlock =>
      match s.watching.lookup hash with
      | some order =>
          if order.info.deadline < currentBlock ∧ currentBlock ≤ s.chain.block.number then [hash]
          else []
      | none => []
  | .receipt i => ofCall s i fun c =>
      match c.stage with
      | .releaseSent transactionHash =>
          if s.receipts transactionHash = none then [] else [c.hash d]
      | _ => []
  | .fail i _ => ofCall s i fun c =>
      match c.stage with
      | .releasing | .releaseSent _ => [c.hash d]
      | _ => []
  | _ => []

end Branches

/-! ## Effects -/

/-- Calls after some have ended. -/
def Ended (calls calls' : List TryFill) : Prop := ∀ c ∈ calls', c ∈ calls ∨ c.stage = .ended

variable (d : Deployment κ W) (wallet : Account)

/-- The stages a call goes on to without a word to anybody. -/
inductive Moves (s : State κ W) (c : TryFill) : Stage → Prop
  | reading : Moves s c .reading
  | checking (onChainRemaining : Nat) (hlocked : c.hash d ∈ s.registered) :
      Moves s c (.checking onChainRemaining)
  | deciding (onChainRemaining : Nat) : Moves s c (.deciding onChainRemaining)
  | choosing (r : Registration) (onChainRemaining : Nat)
      (hr : s.registered.lookup (c.hash d) = some r) :
      Moves s c (.choosing (executeAmount r.fillAmount onChainRemaining))
  | approving (fillAmount : Nat) (hstage : c.stage = .choosing fillAmount) :
      Moves s c (.approving fillAmount)
  | executing (fillAmount : Nat) (hstage : c.stage = .approving fillAmount) :
      Moves s c (.executing fillAmount)
  | releasing : Moves s c .releasing
  | ended : Moves s c .ended

/-- What mining a request did. -/
structure Mined (chain : World κ W) (request : Request κ) (chain' : World κ W) (ok : Bool) :
    Prop where
  segments : System.Segments d chain chain'
  slots : ChainKept d wallet chain chain' ∨ ∃ order fillAmount stake,
    request = .register order fillAmount stake ∧
    SlotTaken chain chain' wallet (d.hashOrder order.info) fillAmount
  ended : ok = true → ∀ order fillAmount, request = .executePartialChunk order fillAmount →
    System.Visited d chain →
    (chain'.auction.registrations (d.hashOrder order.info) wallet).filler ≠ 0 ∧
    (chain'.auction.registrations (d.hashOrder order.info) wallet).resolved = true

/-- Why an order is dropped. -/
inductive Dropped (s : State κ W) (a : Action κ W) (k : κ) : Prop
  /-- it is over, and there is no lock -/
  | unlocked (c : TryFill) (hc : c ∈ s.calls) (hk : c.hash d = k) (hlock : k ∉ s.registered)
      (hstage : c.stage = .reading ∧ unfilled d s.chain c.order.info = 0 ∨
        ∃ onChainRemaining, c.stage = .checking onChainRemaining)
  | executed (c : TryFill) (hc : c ∈ s.calls) (hk : c.hash d = k) (transactionHash : Nat)
      (hstage : c.stage = .executeSent transactionHash)
      (hreceipt : s.receipts transactionHash = some true)
  | givenUp (hk : k ∈ givenUp d s a)

inductive Effect (s : State κ W) (a : Action κ W) : State κ W → Prop
  /-- at most an order is watched -/
  | quiet (watching : Map κ SignedOrder) (hwatching : ∀ k ∈ s.watching, k ∈ watching) :
      Effect s a { s with watching }
  | chain (chain : World κ W) (h : ChainKept d wallet s.chain chain) : Effect s a { s with chain }
  | mined (t : Sent κ) (ht : t ∈ s.sent) (turns : List (List (Call (Label κ W))))
      (ha : a = .mine t.transactionHash turns) (chain : World κ W) (ok : Bool)
      (h : Mined d wallet s.chain t.request chain ok) :
      Effect s a { s with
        chain
        sent := s.sent.filter fun u => u.transactionHash ≠ t.transactionHash
        receipts := update s.receipts t.transactionHash (some ok) }
  | discarded (transactionHash : Nat) : Effect s a (discard s transactionHash)
  | started (order : SignedOrder) (currentBlock : Nat) :
      Effect s a { s with calls := s.calls ++ [⟨order, currentBlock, .fetching⟩] }
  | moved (i : Nat) (c : TryFill) (hc : s.calls[i]? = some c) (stage : Stage)
      (hmoves : Moves d s c stage) (watching : Map κ SignedOrder)
      (hwatching : ∀ k ∈ s.watching, k ∈ watching) :
      Effect s a { moved s i c stage with watching }
  | decided (i : Nat) (decision : FillDecision) (ha : a = .decided i decision) (c : TryFill)
      (hc : s.calls[i]? = some c) (onChainRemaining : Nat)
      (hstage : c.stage = .deciding onChainRemaining) (hfill : decision.shouldFill = true) :
      Effect s a (moved s i c
        (.previewing (registerAmount decision.fillAmount onChainRemaining)))
  | locked (i stake : Nat) (ha : a = .requiredStake i stake) (c : TryFill)
      (hc : s.calls[i]? = some c) (fillAmount : Nat) (hstage : c.stage = .previewing fillAmount) :
      Effect s a { moved s i c (.registering fillAmount stake) with
        registered := s.registered.insert (c.hash d) ⟨fillAmount, c.currentBlock⟩ }
  | sent (i transactionHash : Nat) (c : TryFill) (hc : s.calls[i]? = some c)
      (request : Request κ) (stage : Stage)
      (hrequest : c.request d transactionHash = some (request, stage))
      (hfresh : transactionHash ∉ s.used) :
      Effect s a { moved s i c stage with
        used := transactionHash :: s.used
        sent := ⟨transactionHash, request⟩ :: s.sent
        released := fun k => s.released k || releases wallet s request k }
  | unlocked (k : κ) (hk : k ∈ unlocked d wallet s a) (calls : List TryFill)
      (hcalls : Ended s.calls calls) :
      Effect s a { s with calls, registered := s.registered.erase k }
  | dropped (k : κ) (hk : Dropped d s a k) (calls : List TryFill)
      (hcalls : Ended s.calls calls) :
      Effect s a { s with
        calls, watching := s.watching.erase k, registered := s.registered.erase k }
  | restarted (ha : a = .restart) :
      Effect s a { s with watching := ∅, registered := ∅, calls := [] }

variable {d wallet} {s : State κ W} {a : Action κ W}

omit [DecidableEq κ] in
/-- A call that is not as before is at the new stage. -/
theorem moved_stage {i : Nat} {c : TryFill} {stage : Stage} (P : Stage → Prop) (hstage : P stage) :
    ∀ c' ∈ s.calls.set i { c with stage }, c' ∈ s.calls ∨ P c'.stage := by
  intro c' hc'
  rcases List.mem_or_eq_of_mem_set hc' with hold | rfl
  · exact .inl hold
  · exact .inr hstage

omit [DecidableEq κ] in
/-- So is one that was just made. -/
theorem started_stage {order : SignedOrder} {currentBlock : Nat} (P : Stage → Prop)
    (hstage : P .fetching) :
    ∀ c ∈ s.calls ++ [⟨order, currentBlock, .fetching⟩], c ∈ s.calls ∨ P c.stage := by
  intro c hc
  rcases List.mem_append.mp hc with hold | hnew
  · exact .inl hold
  · rw [List.mem_singleton.mp hnew]
    exact .inr hstage

omit [DecidableEq κ] in
theorem moved_amount {i : Nat} {c : TryFill} {stage : Stage} {purpose : Purpose}
    (hstage : stage.amount purpose = none) :
    ∀ c' ∈ s.calls.set i { c with stage }, c' ∈ s.calls ∨ c'.stage.amount purpose = none :=
  moved_stage (fun stage => stage.amount purpose = none) hstage

omit [DecidableEq κ] in
theorem Ended.stage {calls calls' : List TryFill} (h : Ended calls calls') (P : Stage → Prop)
    (hended : P .ended) : ∀ c ∈ calls', c ∈ calls ∨ P c.stage := by
  intro c hc
  refine (h c hc).imp_right fun hover => ?_
  rw [hover]
  exact hended

theorem Ended.amount {calls calls' : List TryFill} (h : Ended calls calls') (purpose : Purpose) :
    ∀ c ∈ calls', c ∈ calls ∨ c.stage.amount purpose = none :=
  h.stage (fun stage => stage.amount purpose = none) rfl

/-- An amount a call moves on with is for a chunk, and the call had it, or
takes it from the lock. -/
theorem Moves.amount {c : TryFill} {stage : Stage} (h : Moves d s c stage) :
    stage.amount .register = none ∧ ∀ y, stage.amount .execute = some y →
      c.stage.amount .execute = some y ∨
      ∃ r, s.registered.lookup (c.hash d) = some r ∧ y ≤ r.fillAmount := by
  cases h with
  | choosing r onChainRemaining hr =>
      refine ⟨rfl, fun y hy => .inr ⟨r, hr, ?_⟩⟩
      cases hy
      exact executeAmount_le _ _
  | approving fillAmount hstage => exact ⟨rfl, fun y hy => .inl (by rw [hstage]; exact hy)⟩
  | executing fillAmount hstage => exact ⟨rfl, fun y hy => .inl (by rw [hstage]; exact hy)⟩
  | reading | checking | deciding | releasing | ended => exact ⟨rfl, fun y hy => by cases hy⟩

/-- What a call was sent as was under way before. -/
theorem amounts_sent {i transactionHash : Nat} {c : TryFill} (hc : s.calls[i]? = some c)
    {request : Request κ} {stage : Stage}
    (hrequest : c.request d transactionHash = some (request, stage)) {released : κ → Bool}
    {purpose : Purpose} {k : κ} {x : Nat}
    (h : x ∈ amounts d { moved s i c stage with
      used := transactionHash :: s.used
      sent := ⟨transactionHash, request⟩ :: s.sent
      released } purpose k) : x ∈ amounts d s purpose k := by
  obtain ⟨hamount, hnone⟩ := TryFill.request_amount hrequest purpose k x
  rcases mem_amounts.mp h with ⟨t, ht, hx⟩ | ⟨c', hc', hx⟩
  · rcases List.mem_cons.mp ht with rfl | ht
    · exact mem_amounts.mpr (.inr ⟨c, List.mem_of_getElem? hc, hamount hx⟩)
    · exact mem_amounts.mpr (.inl ⟨t, ht, hx⟩)
  · have hmoved : x ∈ amounts d (moved s i c stage) purpose k :=
      mem_amounts.mpr (.inr ⟨c', hc', hx⟩)
    exact amounts_mono hmoved (fun t ht => ht) (moved_amount hnone)

theorem Effect.idle : Effect d wallet s a s := .quiet s.watching fun _ h => h

/-- A call of the process that went on in silence. -/
theorem Effect.goesOn {i : Nat} {c : TryFill} (hc : s.calls[i]? = some c) {stage : Stage}
    (h : Moves d s c stage) : Effect d wallet s a (Executor.moved s i c stage) :=
  .moved i c hc stage h s.watching fun _ h => h

omit [DecidableEq κ] in
theorem ended_moved {i : Nat} {c : TryFill} :
    Ended s.calls (s.calls.set i { c with stage := .ended }) :=
  moved_stage (fun stage => stage = .ended) rfl

theorem onCall_effect {i : Nat} {f : TryFill → State κ W}
    (h : ∀ c, s.calls[i]? = some c → Effect d wallet s a (f c)) :
    Effect d wallet s a (onCall s i f) := by
  unfold onCall
  split
  case h_1 c hc => exact h c hc
  case h_2 => exact .idle

theorem mine_effect (transactionHash : Nat) {turns : List (List (Call (Label κ W)))}
    (hturns : turnsAll (NotRegistering wallet) turns) :
    Effect d wallet s (.mine transactionHash turns) (mine d wallet s transactionHash turns) := by
  unfold mine
  split
  case h_2 => exact .idle
  case h_1 t hfind =>
  have ht : t ∈ s.sent := List.mem_of_find?_eq_some hfind
  obtain rfl : t.transactionHash = transactionHash := by
    simpa using List.find?_some hfind
  have hkept : NotRegistering wallet (t.request.label wallet : Label κ W) →
      ChainKept d wallet s.chain (afterCall d (.mk (t.request.label wallet) turns) s.chain) := by
    intro hlabel
    have hcall : (Call.mk (t.request.label wallet) turns).All (NotRegistering wallet) :=
      ⟨hlabel, hturns⟩
    exact afterCall_kept hcall s.chain
  refine .mined t ht turns rfl _ _ ⟨System.run_segments (d := d) [.call _] s.chain, ?_, ?_⟩
  · cases hrequest : t.request with
    | executePartialChunk order fillAmount =>
        rw [hrequest] at hkept
        exact .inl (hkept trivial)
    | releaseRegistration orderHash =>
        rw [hrequest] at hkept
        exact .inl (hkept trivial)
    | register order fillAmount stake =>
        rw [afterCall, stepTx]
        cases hexec : exec (body d)
            (.mk ((Request.register order fillAmount stake).label wallet) turns) s.chain with
        | error e => exact .inl (.of_terms .refl (.refl _))
        | ok chain =>
            exact .inr ⟨order, fillAmount, stake, rfl, register_taken (exec_register hexec)⟩
  · intro hok order fillAmount hrequest hvisited
    rw [hrequest] at hok ⊢
    rw [afterCall, stepTx]
    cases hexec : exec (body d)
        (.mk ((Request.executePartialChunk order fillAmount).label wallet) turns) s.chain with
    | error e =>
        rw [hexec] at hok
        cases hok
    | ok chain => exact exec_chunk_ends hvisited hexec

theorem onBlock_effect (hash : κ) (currentBlock : Nat) :
    Effect d wallet s (.onBlock hash currentBlock) (onBlock s hash currentBlock) := by
  unfold onBlock
  split
  case h_2 => exact .idle
  case h_1 order hlookup =>
  split
  case isTrue => exact .idle
  case isFalse hnow =>
  split
  case isTrue hlate =>
    refine .dropped hash (.givenUp ?_) s.calls fun c hc => .inl hc
    rw [givenUp, hlookup]
    dsimp only
    rw [if_pos ⟨hlate, Nat.le_of_not_lt hnow⟩]
    exact List.mem_singleton_self _
  case isFalse =>
  split
  case isTrue => exact .idle
  case isFalse => exact .started order currentBlock

theorem fetchOrder_effect (i : Nat) (answered : Bool) :
    Effect d wallet s a (fetchOrder d s i answered) := by
  refine onCall_effect fun c hc => ?_
  split
  case h_2 => exact .idle
  case h_1 =>
  split
  case isTrue =>
    refine .moved i c hc .reading .reading _ fun k hk => ?_
    exact (AList.mem_insert _).mpr (.inr hk)
  case isFalse => exact .goesOn hc .reading

/-- The order of a call is over. -/
theorem reclaimStake_effect {i : Nat} {c : TryFill} (hc : s.calls[i]? = some c)
    (hstage : c.stage = .reading ∧ unfilled d s.chain c.order.info = 0 ∨
      ∃ onChainRemaining, c.stage = .checking onChainRemaining) :
    Effect d wallet s a (reclaimStake d s i c) := by
  unfold reclaimStake
  split
  case isTrue => exact .goesOn hc .releasing
  case isFalse hlock =>
    exact .dropped (c.hash d) (.unlocked c (List.mem_of_getElem? hc) rfl hlock hstage) _
      ended_moved

theorem phases_effect {i : Nat} {c : TryFill} (hc : s.calls[i]? = some c)
    (onChainRemaining : Nat) : Effect d wallet s a (phases d s i c onChainRemaining) := by
  unfold phases
  split
  case h_1 r hr => exact .goesOn hc (.choosing r onChainRemaining hr)
  case h_2 =>
  split
  case isTrue => exact .goesOn hc (.deciding onChainRemaining)
  case isFalse => exact .goesOn hc .ended

theorem remainingInput_effect (i : Nat) : Effect d wallet s a (remainingInput d s i) := by
  refine onCall_effect fun c hc => ?_
  split
  case h_2 => exact .idle
  case h_1 hstage =>
  dsimp only
  split
  case isTrue hzero => exact reclaimStake_effect hc (.inl ⟨hstage, hzero⟩)
  case isFalse =>
  split
  case isTrue hlocked => exact .goesOn hc (.checking _ hlocked)
  case isFalse => exact phases_effect hc _

theorem isCancelled_effect (i : Nat) : Effect d wallet s a (isCancelled d s i) := by
  refine onCall_effect fun c hc => ?_
  split
  case h_2 => exact .idle
  case h_1 onChainRemaining hstage =>
  split
  case isTrue => exact reclaimStake_effect hc (.inr ⟨onChainRemaining, hstage⟩)
  case isFalse => exact phases_effect hc _

theorem decided_effect (i : Nat) (decision : FillDecision) :
    Effect d wallet s (.decided i decision) (decided s i decision) := by
  refine onCall_effect fun c hc => ?_
  split
  case h_1 onChainRemaining hstage =>
    split
    case isTrue hfill => exact .decided i decision rfl c hc onChainRemaining hstage hfill
    case isFalse => exact .goesOn hc .ended
  case h_2 fillAmount hstage =>
    split
    case isTrue => exact .goesOn hc (.approving fillAmount hstage)
    case isFalse => exact .goesOn hc .ended
  case h_3 => exact .idle

theorem send_effect (i transactionHash : Nat) :
    Effect d wallet s a (send d wallet s i transactionHash) := by
  refine onCall_effect fun c hc => ?_
  split
  case h_2 => exact .idle
  case h_1 request stage hrequest =>
  split
  case isTrue => exact .idle
  case isFalse hfresh => exact .sent i transactionHash c hc request stage hrequest hfresh

theorem receipt_effect (i : Nat) : Effect d wallet s (.receipt i) (receipt d s i) := by
  refine onCall_effect fun c hc => ?_
  split
  case h_1 transactionHash hstage =>
    split
    case h_1 => exact .goesOn hc .ended
    case h_2 hreceipt =>
      refine .unlocked (c.hash d) ?_ _ ended_moved
      simp [unlocked, ofCall, hc, hstage, hreceipt]
    case h_3 => exact .idle
  case h_2 transactionHash hstage =>
    split
    case h_1 hreceipt =>
      exact .dropped (c.hash d)
        (.executed c (List.mem_of_getElem? hc) rfl transactionHash hstage hreceipt) _ ended_moved
    case h_2 => exact .goesOn hc .ended
    case h_3 => exact .idle
  case h_3 transactionHash hstage =>
    split
    case h_1 ok hreceipt =>
      refine .dropped (c.hash d) (.givenUp ?_) _ ended_moved
      simp [givenUp, ofCall, hc, hstage, hreceipt]
    case h_2 => exact .idle
  case h_4 => exact .idle

theorem fail_effect (i : Nat) (alreadyRegistered : Bool) :
    Effect d wallet s (.fail i alreadyRegistered) (fail d wallet s i alreadyRegistered) := by
  refine onCall_effect fun c hc => ?_
  have hregister : (∃ fillAmount stake, c.stage = .registering fillAmount stake) ∨
      (∃ transactionHash, c.stage = .registerSent transactionHash) →
      Effect d wallet s (.fail i alreadyRegistered)
        (if alreadyRegistered = true ∧ (slot wallet s (c.hash d)).filler ≠ 0 then
          Executor.moved s i c .ended
        else
          { Executor.moved s i c .ended with registered := s.registered.erase (c.hash d) }) := by
    intro hstage
    split
    case isTrue => exact .goesOn hc .ended
    case isFalse hnew =>
      refine .unlocked (c.hash d) ?_ _ ended_moved
      rcases hstage with ⟨fillAmount, stake, hstage⟩ | ⟨transactionHash, hstage⟩ <;>
        simp only [unlocked, ofCall, hc, hstage, if_neg hnew, List.mem_singleton]
  have hrelease : c.stage = .releasing ∨
      (∃ transactionHash, c.stage = .releaseSent transactionHash) →
      Effect d wallet s (.fail i alreadyRegistered)
        (drop (Executor.moved s i c .ended) (c.hash d)) := by
    intro hstage
    refine .dropped (c.hash d) (.givenUp ?_) _ ended_moved
    rcases hstage with hstage | ⟨transactionHash, hstage⟩ <;>
      simp only [givenUp, ofCall, hc, hstage, List.mem_singleton]
  split
  case h_1 => exact .idle
  case h_2 fillAmount stake hstage => exact hregister (.inl ⟨_, _, hstage⟩)
  case h_3 transactionHash hstage => exact hregister (.inr ⟨_, hstage⟩)
  case h_4 hstage => exact hrelease (.inl hstage)
  case h_5 transactionHash hstage => exact hrelease (.inr ⟨_, hstage⟩)
  case h_6 => exact .goesOn hc .ended

/-- **The effect of a step**, while the account registers for no order
beside the executor. -/
theorem step_effect (s : State κ W) {a : Action κ W} (hhere : RegistersHere wallet a) :
    Effect d wallet s a (step d wallet s a) := by
  cases a with
  | transaction call => exact .chain _ (afterCall_kept hhere s.chain)
  | elapse t => exact .chain _ (.elapse s.chain t)
  | mine transactionHash turns => exact mine_effect transactionHash hhere
  | discard transactionHash => exact .discarded transactionHash
  | watch order =>
      simp only [step, watch]
      split
      case isTrue => exact .idle
      case isFalse => exact .quiet _ fun k hk => (AList.mem_insert _).mpr (.inr hk)
  | onBlock hash currentBlock => exact onBlock_effect hash currentBlock
  | fetchOrder i answered => exact fetchOrder_effect i answered
  | remainingInput i => exact remainingInput_effect i
  | isCancelled i => exact isCancelled_effect i
  | decided i decision => exact decided_effect i decision
  | requiredStake i stake =>
      refine onCall_effect fun c hc => ?_
      split
      case h_1 fillAmount hstage => exact .locked i stake rfl c hc fillAmount hstage
      case h_2 => exact .idle
  | approved i =>
      refine onCall_effect fun c hc => ?_
      split
      case h_1 fillAmount hstage => exact .goesOn hc (.executing fillAmount hstage)
      case h_2 => exact .idle
  | send i transactionHash => exact send_effect i transactionHash
  | receipt i => exact receipt_effect i
  | fail i alreadyRegistered => exact fail_effect i alreadyRegistered
  | restart => exact .restarted rfl

/-- The chain only moves by the system. -/
theorem Effect.visited {s' : State κ W} (h : Effect d wallet s a s')
    (hvisited : System.Visited d s.chain) : System.Visited d s'.chain := by
  cases h with
  | chain chain hkept => exact hvisited.segments hkept.segments
  | mined t ht turns ha chain ok hmined => exact hvisited.segments hmined.segments
  | quiet | discarded | started | moved | decided | locked => exact hvisited
  | sent | unlocked | dropped | restarted => exact hvisited

theorem visited_init (tokens : W) (block : Block) :
    System.Visited d (init d tokens block).chain := ⟨tokens, block, .refl⟩

end Executor

end NeutronX
