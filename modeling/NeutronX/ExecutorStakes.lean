import NeutronX.ExecutorRecovery
import NeutronX.StakeExit

/-!
# The stakes the executor reclaims

An order that was filled, cancelled or invalidated by others leaves the
account with a stake that only a release returns. The executor releases
what its lock tells it to. A restart takes all locks away, a `register`
whose answer was lost takes one, and an order that expired is dropped
without a look at the chain (`forgotten_stakes`).

In `Careful` runs no lock is lost while there is something to release, or
may come to be, no order expires with something to release, and a release
is sent. No order is dropped then before its release was sent
(`stake_released`). An order past its deadline that is still unfilled may
lose its lock: it cannot be found filled later, and whether it is cancelled
is only asked where there is a lock.
-/

namespace NeutronX

open Evm Function

namespace Executor

open CoWFiller (FillDecision)
open NeutronX.System (unfilled ReleasableOrder)

variable {κ W : Type} [DecidableEq κ] (d : Deployment κ W) (wallet : Account)

/-! ## What is at stake -/

omit [DecidableEq κ] in
instance (s : World κ W) (orderHash : κ) (filler : Address) :
    Decidable (ReleasableOrder s orderHash filler) := inferInstanceAs (Decidable (_ ∨ _ ∨ _))

/-- The account's stake for the order can be released. -/
def Reclaimable (s : State κ W) (orderHash : κ) : Prop :=
  Live (slot wallet s orderHash) ∧ ReleasableOrder s.chain orderHash wallet

/-- No release was sent for a stake that is there, or that a registration
under way may still post. -/
def Exposed (s : State κ W) (orderHash : κ) : Prop :=
  s.released orderHash = false ∧
  (Live (slot wallet s orderHash) ∨
    (slot wallet s orderHash).filler = 0 ∧ amounts d s .register orderHash ≠ [])

def Stage.isChecking : Stage → Bool
  | .checking _ => true
  | _ => false

/-- The order is past its deadline and unfilled, and no call is about to
learn whether it is cancelled. -/
def Overdue (s : State κ W) (orderHash : κ) (info : OrderInfo) : Prop :=
  d.hashOrder info = orderHash ∧ info.deadline < s.chain.block.number ∧
  0 < unfilled d s.chain info ∧ ∀ c ∈ s.calls, c.hash d = orderHash → c.stage.isChecking = false

instance (s : State κ W) (orderHash : κ) : Decidable (Reclaimable wallet s orderHash) :=
  inferInstanceAs (Decidable (_ ∧ _))

instance (s : State κ W) (orderHash : κ) : Decidable (Exposed d wallet s orderHash) :=
  inferInstanceAs (Decidable (_ ∧ _))

instance (s : State κ W) (orderHash : κ) (info : OrderInfo) :
    Decidable (Overdue d s orderHash info) := inferInstanceAs (Decidable (_ ∧ _))

def Stage.isReleaseSent : Stage → Bool
  | .releaseSent _ => true
  | _ => false

/-- A call waits for the release of the order to be mined. -/
def Waiting (s : State κ W) (orderHash : κ) : Prop :=
  ∃ c ∈ s.calls, c.hash d = orderHash ∧ c.stage.isReleaseSent = true

instance (s : State κ W) (orderHash : κ) : Decidable (Waiting d s orderHash) :=
  inferInstanceAs (Decidable (∃ c ∈ s.calls, _))

section Inputs

variable (s : State κ W)

/-- The order that a block past its deadline comes to. -/
def expired : Action κ W → List κ
  | .onBlock hash currentBlock =>
      match s.watching.lookup hash with
      | some order =>
          if order.info.deadline < currentBlock ∧ currentBlock ≤ s.chain.block.number then [hash]
          else []
      | none => []
  | _ => []

/-- The order whose release fails before it is sent. -/
def unsent : Action κ W → List κ
  | .fail i _ => ofCall s i fun c =>
      match c.stage with
      | .releasing => [c.hash d]
      | _ => []
  | _ => []

def Request.registers : Request κ → Option κ
  | .register order _ _ => some (d.hashOrder order.info)
  | .executePartialChunk _ _ => none
  | .releaseRegistration _ => none

/-- The order whose registration is mined. -/
def entered : Action κ W → List κ
  | .mine transactionHash _ =>
      s.sent.filterMap fun t =>
        if t.transactionHash = transactionHash then t.request.registers d else none
  | _ => []

end Inputs

/-- What the chain, the failures and the locks have to be like at a step, for
the executor to remember its stakes. -/
structure Careful (s : State κ W) (a : Action κ W) : Prop where
  own : RegistersHere wallet a
  /-- no lock is lost of a stake that is exposed, unless the order is overdue -/
  locks : ∀ k ∈ unlocked d wallet s a ++ givenUp d s a, k ∈ s.registered →
    Exposed d wallet s k → ∃ order ∈ s.watching.lookup k, Overdue d s k order.info
  /-- at the deadline the registration is over, or the order neither
  completed nor cancelled nor its nonce invalid -/
  expiry : ∀ k ∈ expired s a, ¬Waiting d s k →
    Live (slot wallet s k) → ¬ReleasableOrder s.chain k wallet
  /-- a release does not fail before it is sent while there is something to
  release -/
  sending : ∀ k ∈ unsent d s a, ¬Waiting d s k → ¬Live (slot wallet s k)
  /-- a registration is mined before a release of it is sent -/
  mining : ∀ k ∈ entered d s a, ¬Waiting d s k

instance (s : State κ W) (a : Action κ W) : Decidable (Careful d wallet s a) :=
  decidable_of_iff
    (RegistersHere wallet a ∧
      (∀ k ∈ unlocked d wallet s a ++ givenUp d s a, k ∈ s.registered →
        Exposed d wallet s k → ∃ order ∈ s.watching.lookup k, Overdue d s k order.info) ∧
      (∀ k ∈ expired s a, ¬Waiting d s k →
        Live (slot wallet s k) → ¬ReleasableOrder s.chain k wallet) ∧
      (∀ k ∈ unsent d s a, ¬Waiting d s k → ¬Live (slot wallet s k)) ∧
      ∀ k ∈ entered d s a, ¬Waiting d s k)
    ⟨fun h => ⟨h.1, h.2.1, h.2.2.1, h.2.2.2.1, h.2.2.2.2⟩,
      fun h => ⟨h.own, h.locks, h.expiry, h.sending, h.mining⟩⟩

/-! ## Receipts -/

/-- The registration was made and has ended. -/
def Closed (r : NeutronX.Registration) : Prop := r.filler ≠ 0 ∧ r.resolved = true

theorem Closed.not_live {r : NeutronX.Registration} (h : Closed r) : ¬Live r := by
  intro hlive
  have hopen := hlive.2
  rw [h.2] at hopen
  cases hopen

theorem SlotAfter.closed {r r' : NeutronX.Registration} (h : SlotAfter r r') (hclosed : Closed r) :
    Closed r' := ⟨h.filler_eq ▸ hclosed.1, h.ended hclosed.1 hclosed.2⟩

variable {d wallet}

theorem Mined.closed {chain chain' : World κ W} {request : Request κ} {ok : Bool}
    (h : Mined d wallet chain request chain' ok) {k : κ}
    (hclosed : Closed (chain.auction.registrations k wallet)) :
    Closed (chain'.auction.registrations k wallet) := by
  rcases h.slots with hkept | ⟨order, fillAmount, stake, -, htaken⟩
  · exact (hkept.slots k).closed hclosed
  · have hne : k ≠ d.hashOrder order.info := by
      rintro rfl
      exact hclosed.1 htaken.vacant
    rw [htaken.others k hne]
    exact hclosed

theorem Mined.used {chain chain' : World κ W} {request : Request κ} {ok : Bool}
    (h : Mined d wallet chain request chain' ok) {k : κ}
    (hused : (chain.auction.registrations k wallet).filler ≠ 0) :
    (chain'.auction.registrations k wallet).filler ≠ 0 := by
  rcases h.slots with hkept | ⟨order, fillAmount, stake, -, htaken⟩
  · rw [(hkept.slots k).filler_eq]
    exact hused
  · have hne : k ≠ d.hashOrder order.info := by
      rintro rfl
      exact hused htaken.vacant
    rw [htaken.others k hne]
    exact hused

/-- What a call that waits for its chunk waits for. -/
structure Awaits (d : Deployment κ W) (wallet : Account) (s : State κ W) (c : TryFill)
    (transactionHash : Nat) : Prop where
  used : transactionHash ∈ s.used
  request : ∀ t ∈ s.sent, t.transactionHash = transactionHash →
    ∃ fillAmount, t.request = .executePartialChunk c.order fillAmount
  receipt : s.receipts transactionHash = some true → Closed (slot wallet s (c.hash d))

/-- Transactions have hashes of their own, and a chunk that went through
ended the registration. -/
structure ReceiptLaw (d : Deployment κ W) (wallet : Account) (s : State κ W) : Prop where
  sent : ∀ t ∈ s.sent, t.transactionHash ∈ s.used
  receipts : ∀ transactionHash, s.receipts transactionHash ≠ none → transactionHash ∈ s.used
  awaits : ∀ c ∈ s.calls, ∀ transactionHash, c.stage = .executeSent transactionHash →
    Awaits d wallet s c transactionHash
  /-- what was released was there -/
  released : ∀ k, s.released k = true → (slot wallet s k).filler ≠ 0

omit [DecidableEq κ] in
/-- The chain is the same, no transaction is new, and no call that is new
waits for a chunk. -/
theorem ReceiptLaw.ofFewer {s s' : State κ W} (h : ReceiptLaw d wallet s)
    (hchain : s'.chain = s.chain) (hused : s'.used = s.used) (hreceipts : s'.receipts = s.receipts)
    (hreleased : s'.released = s.released) (hsent : ∀ t ∈ s'.sent, t ∈ s.sent)
    (hcalls : ∀ c ∈ s'.calls, c ∈ s.calls ∨
      ∀ transactionHash, c.stage ≠ .executeSent transactionHash) : ReceiptLaw d wallet s' := by
  have hslot : ∀ k, slot wallet s' k = slot wallet s k := fun k => by rw [slot, slot, hchain]
  refine ⟨fun t ht => ?_, fun transactionHash hne => ?_, fun c hc transactionHash hstage => ?_,
    fun k hk => ?_⟩
  · rw [hused]
    exact h.sent t (hsent t ht)
  · rw [hused]
    exact h.receipts transactionHash (hreceipts ▸ hne)
  · rcases hcalls c hc with hold | hnot
    · have hawaits := h.awaits c hold transactionHash hstage
      refine ⟨hused ▸ hawaits.used, fun t ht => hawaits.request t (hsent t ht), fun hok => ?_⟩
      rw [hslot]
      exact hawaits.receipt (hreceipts ▸ hok)
    · exact absurd hstage (hnot transactionHash)
  · rw [hslot]
    exact h.released k (hreleased ▸ hk)

omit [DecidableEq κ] in
/-- The chain moves on, and may take requests. -/
theorem ReceiptLaw.onChain {s : State κ W} (h : ReceiptLaw d wallet s) {chain : World κ W}
    {sent : List (Sent κ)} {receipts : Nat → Option Bool}
    (hclosed : ∀ k, Closed (slot wallet s k) → Closed (chain.auction.registrations k wallet))
    (hused : ∀ k, (slot wallet s k).filler ≠ 0 →
      (chain.auction.registrations k wallet).filler ≠ 0)
    (hsent : ∀ t ∈ sent, t ∈ s.sent)
    (hreceipts : ∀ transactionHash, receipts transactionHash ≠ s.receipts transactionHash →
      ∃ t ∈ s.sent, t.transactionHash = transactionHash ∧ (receipts transactionHash = some true →
        ∀ order fillAmount, t.request = .executePartialChunk order fillAmount →
          Closed (chain.auction.registrations (d.hashOrder order.info) wallet))) :
    ReceiptLaw d wallet { s with chain, sent, receipts } := by
  refine ⟨fun t ht => h.sent t (hsent t ht), fun transactionHash hne => ?_,
    fun c hc transactionHash hstage => ?_, fun k hk => hused k (h.released k hk)⟩
  · by_cases hsame : receipts transactionHash = s.receipts transactionHash
    · exact h.receipts transactionHash (hsame ▸ hne)
    · obtain ⟨t, ht, rfl, -⟩ := hreceipts transactionHash hsame
      exact h.sent t ht
  · have hawaits := h.awaits c hc transactionHash hstage
    refine ⟨hawaits.used, fun t ht => hawaits.request t (hsent t ht), fun hok => ?_⟩
    by_cases hsame : receipts transactionHash = s.receipts transactionHash
    · exact hclosed _ (hawaits.receipt (hsame ▸ hok))
    · obtain ⟨t, ht, hhash, hended⟩ := hreceipts transactionHash hsame
      obtain ⟨fillAmount, hrequest⟩ := hawaits.request t ht hhash
      exact hended hok c.order fillAmount hrequest

omit [DecidableEq κ] in
theorem moved_awaits {s : State κ W} {i : Nat} {c : TryFill} {stage : Stage}
    (hstage : ∀ transactionHash, stage ≠ .executeSent transactionHash) :
    ∀ c' ∈ s.calls.set i { c with stage }, c' ∈ s.calls ∨
      ∀ transactionHash, c'.stage ≠ .executeSent transactionHash :=
  moved_stage (fun stage => ∀ transactionHash, stage ≠ .executeSent transactionHash) hstage

theorem Ended.awaits {calls calls' : List TryFill} (h : Ended calls calls') :
    ∀ c ∈ calls', c ∈ calls ∨ ∀ transactionHash, c.stage ≠ .executeSent transactionHash :=
  h.stage (fun stage => ∀ transactionHash, stage ≠ .executeSent transactionHash)
    fun _ heq => by cases heq

omit [DecidableEq κ] in
/-- Only a chunk that is called for is sent as one. -/
theorem TryFill.request_chunk {c : TryFill} {transactionHash : Nat} {request : Request κ}
    {stage : Stage} (h : c.request d transactionHash = some (request, stage)) {sent : Nat}
    (hstage : stage = .executeSent sent) :
    sent = transactionHash ∧ ∃ fillAmount, request = .executePartialChunk c.order fillAmount := by
  unfold TryFill.request at h
  subst hstage
  split at h
  case h_2 fillAmount hstage =>
    cases h
    exact ⟨rfl, fillAmount, rfl⟩
  case h_1 | h_3 | h_4 => cases h

theorem receiptLaw_sent {s : State κ W} (h : ReceiptLaw d wallet s) {i transactionHash : Nat}
    {c : TryFill} {request : Request κ} {stage : Stage}
    (hrequest : c.request d transactionHash = some (request, stage))
    (hfresh : transactionHash ∉ s.used) :
    ReceiptLaw d wallet { moved s i c stage with
      used := transactionHash :: s.used
      sent := ⟨transactionHash, request⟩ :: s.sent
      released := fun k => s.released k || releases wallet s request k } := by
  refine ⟨fun t ht => ?_, fun h' hne => List.mem_cons_of_mem _ (h.receipts h' hne),
    fun c' hc' h' hstage => ?_, fun k hk => ?_⟩
  · rcases List.mem_cons.mp ht with rfl | ht
    · exact List.mem_cons_self ..
    · exact List.mem_cons_of_mem _ (h.sent t ht)
  · rcases List.mem_or_eq_of_mem_set hc' with hold | rfl
    · -- a call that waited before waits for another transaction
      have hawaits := h.awaits c' hold h' hstage
      have hne : transactionHash ≠ h' := fun heq => hfresh (heq ▸ hawaits.used)
      refine ⟨List.mem_cons_of_mem _ hawaits.used, fun t ht hhash => ?_, hawaits.receipt⟩
      rcases List.mem_cons.mp ht with rfl | ht
      · exact absurd hhash hne
      · exact hawaits.request t ht hhash
    · obtain ⟨rfl, fillAmount, hchunk⟩ := TryFill.request_chunk hrequest hstage
      refine ⟨List.mem_cons_self .., fun t ht hhash => ?_, fun hok => ?_⟩
      · rcases List.mem_cons.mp ht with rfl | ht
        · exact ⟨fillAmount, hchunk⟩
        · exact absurd (hhash ▸ h.sent t ht) hfresh
      · refine absurd (h.receipts h' ?_) hfresh
        rw [show s.receipts h' = some true from hok]
        exact Option.some_ne_none _
  · rcases Bool.or_eq_true_iff.mp hk with hold | hnew
    · exact h.released k hold
    · unfold releases at hnew
      split at hnew
      case h_1 k' => exact (of_decide_eq_true hnew).2
      case h_2 | h_3 => cases hnew

theorem Effect.receiptLaw {s s' : State κ W} {a : Action κ W} (h : Effect d wallet s a s')
    (hvisited : System.Visited d s.chain) (hlaw : ReceiptLaw d wallet s) :
    ReceiptLaw d wallet s' := by
  have hno : ∀ receipts : Nat → Option Bool, ∀ transactionHash,
      ¬(receipts transactionHash ≠ receipts transactionHash) := fun _ _ hne => hne rfl
  cases h with
  | quiet watching hwatching =>
      exact hlaw.ofFewer rfl rfl rfl rfl (fun t ht => ht) fun c hc => .inl hc
  | chain chain hkept =>
      refine hlaw.onChain (fun k => (hkept.slots k).closed) (fun k hused => ?_) (fun t ht => ht)
        fun h' hne => absurd hne (hno s.receipts h')
      rw [(hkept.slots k).filler_eq]
      exact hused
  | mined t ht turns ha chain ok hmined =>
      refine hlaw.onChain (fun k => hmined.closed) (fun k => hmined.used)
        (fun u hu => (List.mem_filter.mp hu).1) fun h' hne => ?_
      have hhash : h' = t.transactionHash := by
        by_contra hother
        exact hne (update_of_ne hother _ _)
      subst hhash
      refine ⟨t, ht, rfl, fun hok order fillAmount hrequest => ?_⟩
      rw [update_self] at hok
      exact hmined.ended (Option.some.inj hok) order fillAmount hrequest hvisited
  | discarded transactionHash =>
      exact hlaw.ofFewer rfl rfl rfl rfl (fun t ht => (List.mem_filter.mp ht).1)
        fun c hc => .inl hc
  | started order currentBlock =>
      refine hlaw.ofFewer rfl rfl rfl rfl (fun t ht => ht) ?_
      exact started_stage (fun stage => ∀ h', stage ≠ .executeSent h') fun h' heq => by cases heq
  | moved i c hc stage hmoves watching hwatching =>
      refine hlaw.ofFewer rfl rfl rfl rfl (fun t ht => ht) (moved_awaits fun h' heq => ?_)
      subst heq
      cases hmoves
  | decided | locked =>
      refine hlaw.ofFewer rfl rfl rfl rfl (fun t ht => ht) (moved_awaits fun h' heq => ?_)
      cases heq
  | sent i transactionHash c hc request stage hrequest hfresh =>
      exact receiptLaw_sent hlaw hrequest hfresh
  | unlocked k hk calls hcalls =>
      exact hlaw.ofFewer rfl rfl rfl rfl (fun t ht => ht) hcalls.awaits
  | dropped k hk calls hcalls =>
      exact hlaw.ofFewer rfl rfl rfl rfl (fun t ht => ht) hcalls.awaits
  | restarted ha =>
      exact hlaw.ofFewer rfl rfl rfl rfl (fun t ht => ht) fun c hc => absurd hc List.not_mem_nil

/-! ## Locks -/

/-- The order is overdue, whoever watches it. -/
def Late (d : Deployment κ W) (s : State κ W) (orderHash : κ) : Prop :=
  ∃ info, Overdue d s orderHash info

/-- What is exposed is locked, or overdue. -/
def LockLaw (d : Deployment κ W) (wallet : Account) (s : State κ W) : Prop :=
  ∀ k, Exposed d wallet s k → k ∈ s.registered ∨ Late d s k

/-- The order stays overdue while the chain moves on and no call of it comes
to ask whether it is cancelled. -/
theorem Late.keep {s s' : State κ W} {k : κ} (h : Late d s k)
    (hchain : System.Segments d s.chain s'.chain)
    (hcalls : ∀ c ∈ s'.calls, c ∈ s.calls ∨ c.stage.isChecking = false) : Late d s' k := by
  obtain ⟨info, hhash, hlate, hunfilled, hnone⟩ := h
  refine ⟨info, hhash, Nat.lt_of_lt_of_le hlate (System.segments_progress hchain).block, ?_,
    fun c hc hck => ?_⟩
  · rw [unfilled_late hchain hlate]
    exact hunfilled
  · rcases hcalls c hc with hold | hnot
    · exact hnone c hold hck
    · exact hnot

theorem Exposed.of_fewer {s s' : State κ W} {k : κ} (h : Exposed d wallet s' k)
    (hreleased : s'.released k = false → s.released k = false)
    (hslot : SlotAfter (slot wallet s k) (slot wallet s' k))
    (hamounts : ∀ x ∈ amounts d s' .register k, x ∈ amounts d s .register k) :
    Exposed d wallet s k := by
  obtain ⟨hnot, hlive | ⟨hvacant, hne⟩⟩ := h
  · exact ⟨hreleased hnot, .inl (hslot.live hlive)⟩
  · refine ⟨hreleased hnot, .inr ⟨hslot.filler_eq ▸ hvacant, ?_⟩⟩
    obtain ⟨x, hx⟩ := List.exists_mem_of_ne_nil _ hne
    exact List.ne_nil_of_mem (hamounts x hx)

omit [DecidableEq κ] in
theorem moved_checking {s : State κ W} {i : Nat} {c : TryFill} {stage : Stage}
    (hstage : stage.isChecking = false) :
    ∀ c' ∈ s.calls.set i { c with stage }, c' ∈ s.calls ∨ c'.stage.isChecking = false :=
  moved_stage (fun stage => stage.isChecking = false) hstage

theorem Ended.checking {calls calls' : List TryFill} (h : Ended calls calls') :
    ∀ c ∈ calls', c ∈ calls ∨ c.stage.isChecking = false :=
  h.stage (fun stage => stage.isChecking = false) rfl

/-- The locks are there, nothing is exposed anew, and no call comes to ask
whether an order is cancelled. -/
theorem LockLaw.ofFewer {s s' : State κ W} (h : LockLaw d wallet s)
    (hregistered : s'.registered = s.registered)
    (hexposed : ∀ k, Exposed d wallet s' k → Exposed d wallet s k)
    (hchain : System.Segments d s.chain s'.chain)
    (hcalls : ∀ c ∈ s'.calls, c ∈ s.calls ∨ c.stage.isChecking = false) :
    LockLaw d wallet s' := by
  intro k hk
  rw [hregistered]
  exact (h k (hexposed k hk)).imp_right fun hlate => hlate.keep hchain hcalls

/-- The lock of `k` is lost, which was not needed. -/
theorem LockLaw.erase {s s' : State κ W} (h : LockLaw d wallet s) {k : κ}
    (hregistered : s'.registered = s.registered.erase k) (hchain : s'.chain = s.chain)
    (hexposed : ∀ k, Exposed d wallet s' k → Exposed d wallet s k)
    (hcalls : ∀ c ∈ s'.calls, c ∈ s.calls ∨ c.stage.isChecking = false)
    (hk : k ∈ s.registered → Exposed d wallet s k → Late d s k) : LockLaw d wallet s' := by
  have hlater : ∀ k, Late d s k → Late d s' k := by
    intro k hlate
    refine hlate.keep ?_ hcalls
    rw [hchain]
  intro k' hk'
  have hbefore := hexposed k' hk'
  rcases h k' hbefore with hlocked | hlate
  · by_cases heq : k' = k
    · subst heq
      exact .inr (hlater k' (hk hlocked hbefore))
    · left
      rw [hregistered]
      exact AList.mem_erase.mpr ⟨heq, hlocked⟩
  · exact .inr (hlater k' hlate)

theorem lockLaw_moved {s : State κ W} (h : LockLaw d wallet s) {i : Nat} {c : TryFill}
    {stage : Stage} (hmoves : Moves d s c stage) (watching : Map κ SignedOrder) :
    LockLaw d wallet { moved s i c stage with watching } := by
  intro k hk
  have hbefore : Exposed d wallet s k := by
    refine hk.of_fewer id (.refl _) fun x hx => ?_
    exact amounts_mono hx (fun t ht => ht) (moved_amount hmoves.amount.1)
  rcases h k hbefore with hlocked | hlate
  · exact .inl hlocked
  · cases hcheck : stage.isChecking with
    | false => exact .inr (hlate.keep .refl (moved_checking hcheck))
    | true =>
        -- only where there is a lock does a call ask
        cases hmoves with
        | checking onChainRemaining hlocked =>
            by_cases hck : c.hash d = k
            · exact .inl (hck ▸ hlocked)
            · obtain ⟨info, hhash, hdeadline, hunfilled, hnone⟩ := hlate
              refine .inr ⟨info, hhash, hdeadline, hunfilled, fun c' hc' hck' => ?_⟩
              rcases List.mem_or_eq_of_mem_set hc' with hold | rfl
              · exact hnone c' hold hck'
              · exact absurd hck' hck
        | _ => cases hcheck

theorem lockLaw_locked {s : State κ W} (h : LockLaw d wallet s) {i stake : Nat} {c : TryFill}
    (fillAmount : Nat) :
    LockLaw d wallet { moved s i c (.registering fillAmount stake) with
      registered := s.registered.insert (c.hash d) ⟨fillAmount, c.currentBlock⟩ } := by
  intro k hk
  by_cases hck : k = c.hash d
  · exact .inl ((AList.mem_insert _).mpr (.inl hck))
  · have hbefore : Exposed d wallet s k := by
      refine hk.of_fewer id (.refl _) fun x hx => ?_
      rcases mem_amounts.mp hx with ⟨t, ht, hamount⟩ | ⟨c', hc', hamount⟩
      · exact mem_amounts.mpr (.inl ⟨t, ht, hamount⟩)
      · rcases List.mem_or_eq_of_mem_set hc' with hold | rfl
        · exact mem_amounts.mpr (.inr ⟨c', hold, hamount⟩)
        · rw [TryFill.amount, if_neg fun heq => hck heq.symm] at hamount
          cases hamount
    rcases h k hbefore with hlocked | hlate
    · exact .inl ((AList.mem_insert _).mpr (.inr hlocked))
    · exact .inr (hlate.keep .refl (moved_checking rfl))

/-- A registration that was under way is mined. -/
theorem Exposed.of_taken {s : State κ W} {t : Sent κ} (ht : t ∈ s.sent) {order : SignedOrder}
    {fillAmount stake : Nat} (hrequest : t.request = .register order fillAmount stake)
    {chain : World κ W}
    (htaken : SlotTaken s.chain chain wallet (d.hashOrder order.info) fillAmount)
    {sent : List (Sent κ)} (hsent : ∀ t ∈ sent, t ∈ s.sent) {receipts : Nat → Option Bool} {k : κ}
    (h : Exposed d wallet { s with chain, sent, receipts } k) : Exposed d wallet s k := by
  by_cases hk : k = d.hashOrder order.info
  · subst hk
    exact ⟨h.1, .inr ⟨htaken.vacant, List.ne_nil_of_mem (mem_amounts_of_sent ht hrequest)⟩⟩
  · have hslot : slot wallet { s with chain, sent, receipts } k = slot wallet s k :=
      htaken.others k hk
    refine h.of_fewer id (hslot ▸ .refl _) fun x hx => ?_
    exact amounts_mono hx hsent fun c hc => .inl hc

/-- What is exposed after a step without a new lock was before. -/
theorem Careful.late {s : State κ W} {a : Action κ W} (h : Careful d wallet s a) {k : κ}
    (hk : k ∈ unlocked d wallet s a ++ givenUp d s a) (hlocked : k ∈ s.registered)
    (hexposed : Exposed d wallet s k) : Late d s k := by
  obtain ⟨order, -, hoverdue⟩ := h.locks k hk hlocked hexposed
  exact ⟨order.info, hoverdue⟩

/-- The step lemma. -/
theorem Effect.lockLaw {s s' : State κ W} {a : Action κ W} (h : Effect d wallet s a s')
    (hreceipts : ReceiptLaw d wallet s) (hlaw : LockLaw d wallet s)
    (hcareful : Careful d wallet s a) : LockLaw d wallet s' := by
  cases h with
  | quiet watching hwatching => exact hlaw.ofFewer rfl (fun k hk => hk) .refl fun c hc => .inl hc
  | chain chain hkept =>
      refine hlaw.ofFewer rfl (fun k hk => ?_) hkept.segments fun c hc => .inl hc
      exact hk.of_fewer id (hkept.slots k) fun x hx => hx
  | mined t ht turns ha chain ok hmined =>
      have hsent : ∀ u ∈ s.sent.filter fun u => u.transactionHash ≠ t.transactionHash,
          u ∈ s.sent := fun u hu => (List.mem_filter.mp hu).1
      refine hlaw.ofFewer rfl (fun k hk => ?_) hmined.segments fun c hc => .inl hc
      rcases hmined.slots with hkept | ⟨order, fillAmount, stake, hrequest, htaken⟩
      · refine hk.of_fewer id (hkept.slots k) fun x hx => ?_
        exact amounts_mono hx hsent fun c hc => .inl hc
      · exact hk.of_taken ht hrequest htaken hsent
  | discarded transactionHash =>
      refine hlaw.ofFewer rfl (fun k hk => ?_) .refl fun c hc => .inl hc
      refine hk.of_fewer id (.refl _) fun x hx => ?_
      exact amounts_mono hx (fun t ht => (List.mem_filter.mp ht).1) fun c hc => .inl hc
  | started order currentBlock =>
      refine hlaw.ofFewer rfl (fun k hk => ?_) .refl
        (started_stage (fun stage => stage.isChecking = false) rfl)
      refine hk.of_fewer id (.refl _) fun x hx => amounts_mono hx (fun t ht => ht) ?_
      exact started_stage (fun stage => stage.amount .register = none) rfl
  | moved i c hc stage hmoves watching hwatching => exact lockLaw_moved hlaw hmoves watching
  | decided i decision ha c hc onChainRemaining hstage hfill =>
      refine hlaw.ofFewer rfl (fun k hk => ?_) .refl (moved_checking rfl)
      refine hk.of_fewer id (.refl _) fun x hx => ?_
      exact amounts_mono hx (fun t ht => ht) (moved_amount rfl)
  | locked i stake ha c hc fillAmount hstage => exact lockLaw_locked hlaw fillAmount
  | sent i transactionHash c hc request stage hrequest hfresh =>
      have hstage : stage.isChecking = false := by
        unfold TryFill.request at hrequest
        split at hrequest <;> cases hrequest <;> rfl
      refine hlaw.ofFewer rfl (fun k hk => ?_) .refl (moved_checking hstage)
      refine hk.of_fewer (fun hnot => ?_) (.refl _) fun x hx => amounts_sent hc hrequest hx
      exact (Bool.or_eq_false_iff.mp hnot).1
  | unlocked k hk calls hcalls =>
      refine hlaw.erase (k := k) rfl rfl (fun k hk => ?_) hcalls.checking
        (hcareful.late (List.mem_append_left _ hk))
      refine hk.of_fewer id (.refl _) fun x hx => ?_
      exact amounts_mono hx (fun t ht => ht) (hcalls.amount .register)
  | dropped k hk calls hcalls =>
      refine hlaw.erase (k := k) rfl rfl (fun k hk => ?_) hcalls.checking fun hlocked hexposed => ?_
      · refine hk.of_fewer id (.refl _) fun x hx => ?_
        exact amounts_mono hx (fun t ht => ht) (hcalls.amount .register)
      · cases hk with
        | unlocked c hc hk hlock hstage => exact absurd hlocked hlock
        | givenUp hk => exact hcareful.late (List.mem_append_right _ hk) hlocked hexposed
        | executed c hc hk transactionHash hstage hreceipt =>
            subst hk
            have hclosed := (hreceipts.awaits c hc transactionHash hstage).receipt hreceipt
            rcases hexposed.2 with hlive | ⟨hvacant, -⟩
            · exact absurd hlive hclosed.not_live
            · exact absurd hvacant hclosed.1
  | restarted ha =>
      subst ha
      intro k hk
      have hbefore : Exposed d wallet s k := by
        refine hk.of_fewer id (.refl _) fun x hx => ?_
        exact amounts_mono hx (fun t ht => ht) fun c hc => absurd hc List.not_mem_nil
      have hlate : Late d s k := by
        rcases hlaw k hbefore with hlocked | hlate
        · exact hcareful.late (List.mem_append_left _ (AList.mem_keys.mp hlocked)) hlocked hbefore
        · exact hlate
      exact .inr (hlate.keep .refl fun c hc => absurd hc List.not_mem_nil)

/-! ## Releases -/

/-- What a call waits to be released was there when the release was sent, or
is not there yet. -/
def ReleaseLaw (d : Deployment κ W) (wallet : Account) (s : State κ W) : Prop :=
  ∀ c ∈ s.calls, c.stage.isReleaseSent = true →
    s.released (c.hash d) = true ∨ (slot wallet s (c.hash d)).filler = 0

omit [DecidableEq κ] in
theorem ReleaseLaw.of_waiting {s : State κ W} (h : ReleaseLaw d wallet s) {k : κ}
    (hwaiting : Waiting d s k) (hlive : Live (slot wallet s k)) : s.released k = true := by
  obtain ⟨c, hc, rfl, hstage⟩ := hwaiting
  exact (h c hc hstage).resolve_right hlive.1

omit [DecidableEq κ] in
/-- No call has come to wait, and where there was no registration there is
none. -/
theorem ReleaseLaw.ofFewer {s s' : State κ W} (h : ReleaseLaw d wallet s)
    (hreleased : s'.released = s.released)
    (hslot : ∀ c ∈ s.calls, c.stage.isReleaseSent = true →
      (slot wallet s (c.hash d)).filler = 0 → (slot wallet s' (c.hash d)).filler = 0)
    (hcalls : ∀ c ∈ s'.calls, c ∈ s.calls ∨ c.stage.isReleaseSent = false) :
    ReleaseLaw d wallet s' := by
  intro c hc hstage
  rcases hcalls c hc with hold | hnot
  · rw [hreleased]
    exact (h c hold hstage).imp_right (hslot c hold hstage)
  · rw [hnot] at hstage
    cases hstage

omit [DecidableEq κ] in
theorem moved_waits {s : State κ W} {i : Nat} {c : TryFill} {stage : Stage}
    (hstage : stage.isReleaseSent = false) :
    ∀ c' ∈ s.calls.set i { c with stage }, c' ∈ s.calls ∨ c'.stage.isReleaseSent = false :=
  moved_stage (fun stage => stage.isReleaseSent = false) hstage

theorem Ended.waits {calls calls' : List TryFill} (h : Ended calls calls') :
    ∀ c ∈ calls', c ∈ calls ∨ c.stage.isReleaseSent = false :=
  h.stage (fun stage => stage.isReleaseSent = false) rfl

/-- A release is recorded where there is a registration. -/
theorem releaseLaw_sent {s : State κ W} (h : ReleaseLaw d wallet s) {i transactionHash : Nat}
    {c : TryFill} {request : Request κ} {stage : Stage}
    (hrequest : c.request d transactionHash = some (request, stage)) :
    ReleaseLaw d wallet { moved s i c stage with
      used := transactionHash :: s.used
      sent := ⟨transactionHash, request⟩ :: s.sent
      released := fun k => s.released k || releases wallet s request k } := by
  intro c' hc' hstage
  show (s.released (c'.hash d) || releases wallet s request (c'.hash d)) = true ∨
    (slot wallet s (c'.hash d)).filler = 0
  rcases List.mem_or_eq_of_mem_set hc' with hold | rfl
  · exact (h c' hold hstage).imp_left fun hreleased => by rw [hreleased]; rfl
  · unfold TryFill.request at hrequest
    split at hrequest
    case h_3 =>
      cases hrequest
      by_cases hvacant : (slot wallet s (c.hash d)).filler = 0
      · exact .inr hvacant
      · refine .inl (Bool.or_eq_true_iff.mpr (.inr ?_))
        exact decide_eq_true ⟨rfl, hvacant⟩
    case h_1 | h_2 =>
      cases hrequest
      cases hstage
    case h_4 => cases hrequest

/-- The step lemma. -/
theorem Effect.releaseLaw {s s' : State κ W} {a : Action κ W} (h : Effect d wallet s a s')
    (hlaw : ReleaseLaw d wallet s) (hcareful : Careful d wallet s a) :
    ReleaseLaw d wallet s' := by
  cases h with
  | quiet | discarded => exact hlaw.ofFewer rfl (fun _ _ _ hvacant => hvacant) fun c hc => .inl hc
  | chain chain hkept =>
      refine hlaw.ofFewer rfl (fun c _ _ hvacant => ?_) fun c hc => .inl hc
      exact (hkept.slots (c.hash d)).filler_eq.trans hvacant
  | mined t ht turns ha chain ok hmined =>
      refine hlaw.ofFewer rfl (fun c hc hstage hvacant => ?_) fun c hc => .inl hc
      rcases hmined.slots with hkept | ⟨order, fillAmount, stake, hrequest, htaken⟩
      · exact (hkept.slots (c.hash d)).filler_eq.trans hvacant
      · by_cases hk : c.hash d = d.hashOrder order.info
        · have hentered : d.hashOrder order.info ∈ entered d s a := by
            subst ha
            refine List.mem_filterMap.mpr ⟨t, ht, ?_⟩
            rw [if_pos rfl, hrequest]
            rfl
          exact absurd ⟨c, hc, hk, hstage⟩ (hcareful.mining _ hentered)
        · exact (congrArg _ (htaken.others _ hk)).trans hvacant
  | started order currentBlock =>
      exact hlaw.ofFewer rfl (fun _ _ _ hvacant => hvacant)
        (started_stage (fun stage => stage.isReleaseSent = false) rfl)
  | moved i c hc stage hmoves watching hwatching =>
      refine hlaw.ofFewer rfl (fun _ _ _ hvacant => hvacant) (moved_waits ?_)
      cases hmoves <;> rfl
  | decided | locked =>
      exact hlaw.ofFewer rfl (fun _ _ _ hvacant => hvacant) (moved_waits rfl)
  | sent i transactionHash c hc request stage hrequest hfresh => exact releaseLaw_sent hlaw hrequest
  | unlocked k hk calls hcalls | dropped k hk calls hcalls =>
      exact hlaw.ofFewer rfl (fun _ _ _ hvacant => hvacant) hcalls.waits
  | restarted ha =>
      intro c hc
      exact absurd hc List.not_mem_nil

omit [DecidableEq κ] in
theorem mem_ofCall {s : State κ W} {i : Nat} {f : TryFill → List κ} {k : κ}
    (h : k ∈ ofCall s i f) : ∃ c, s.calls[i]? = some c ∧ k ∈ f c := by
  unfold ofCall at h
  split at h
  case h_1 c hc => exact ⟨c, hc, h⟩
  case h_2 => cases h

/-- Why an order is given up. -/
theorem givenUp_cases {s : State κ W} {a : Action κ W} {k : κ} (h : k ∈ givenUp d s a) :
    k ∈ expired s a ∨ k ∈ unsent d s a ∨ Waiting d s k := by
  cases a with
  | onBlock hash currentBlock => exact .inl h
  | receipt i =>
      obtain ⟨c, hc, hk⟩ := mem_ofCall h
      split at hk
      case h_2 => cases hk
      case h_1 transactionHash hstage =>
      split at hk
      case isTrue => cases hk
      case isFalse =>
        refine .inr (.inr ⟨c, List.mem_of_getElem? hc, (List.mem_singleton.mp hk).symm, ?_⟩)
        rw [hstage]
        rfl
  | fail i alreadyRegistered =>
      obtain ⟨c, hc, hk⟩ := mem_ofCall h
      split at hk
      case h_1 hstage =>
        refine .inr (.inl ?_)
        rw [unsent, ofCall, hc]
        dsimp only
        rw [hstage]
        exact hk
      case h_2 transactionHash hstage =>
        refine .inr (.inr ⟨c, List.mem_of_getElem? hc, (List.mem_singleton.mp hk).symm, ?_⟩)
        rw [hstage]
        rfl
      case h_3 => cases hk
  | _ => cases h

/-! ## Runs -/

/-- What holds of every careful run. -/
structure CarefulLaw (d : Deployment κ W) (wallet : Account) (s : State κ W) : Prop where
  visited : System.Visited d s.chain
  receipts : ReceiptLaw d wallet s
  locks : LockLaw d wallet s
  releases : ReleaseLaw d wallet s

theorem carefulLaw_step (s : State κ W) (a : Action κ W) (h : CarefulLaw d wallet s)
    (hcareful : Careful d wallet s a) : CarefulLaw d wallet (step d wallet s a) where
  visited := (step_effect s hcareful.own).visited h.visited
  receipts := (step_effect s hcareful.own).receiptLaw h.visited h.receipts
  locks := (step_effect s hcareful.own).lockLaw h.receipts h.locks hcareful
  releases := (step_effect s hcareful.own).releaseLaw h.releases hcareful

theorem carefulLaw_init (tokens : W) (block : Block) :
    CarefulLaw d wallet (init d tokens block) := by
  refine ⟨visited_init tokens block, ?_, fun k hk => ?_, fun c hc => absurd hc List.not_mem_nil⟩
  · exact ⟨fun t ht => absurd ht List.not_mem_nil, fun _ hne => absurd rfl hne,
      fun c hc => absurd hc List.not_mem_nil, fun k hk => by cases hk⟩
  · rcases hk.2 with hlive | ⟨-, hne⟩
    · exact absurd rfl hlive.1
    · exact absurd rfl hne

/-- A stake that can be released is released before its order is dropped. -/
theorem Effect.released {s s' : State κ W} {a : Action κ W} (h : Effect d wallet s a s')
    (hlaw : CarefulLaw d wallet s) (hcareful : Careful d wallet s a) (ha : a ≠ .restart) {k : κ}
    (hwatched : k ∈ s.watching) (hdropped : k ∉ s'.watching)
    (hreclaimable : Reclaimable wallet s k) : s'.released k = true := by
  cases h with
  | quiet watching hwatching => exact absurd (hwatching k hwatched) hdropped
  | moved i c hc stage hmoves watching hwatching =>
      exact absurd (hwatching k hwatched) hdropped
  | chain | mined | discarded | started | decided | locked | sent | unlocked =>
      exact absurd hwatched hdropped
  | restarted hrestart => exact absurd hrestart ha
  | dropped k' hk calls hcalls =>
      obtain rfl : k = k' := by
        by_contra hne
        exact hdropped (AList.mem_erase.mpr ⟨hne, hwatched⟩)
      show s.released k = true
      cases hk with
      | givenUp hk =>
          by_cases hwaiting : Waiting d s k
          · exact hlaw.releases.of_waiting hwaiting hreclaimable.1
          · rcases givenUp_cases hk with hexpired | hunsent | hanswered
            · exact absurd hreclaimable.2 (hcareful.expiry k hexpired hwaiting hreclaimable.1)
            · exact absurd hreclaimable.1 (hcareful.sending k hunsent hwaiting)
            · exact absurd hanswered hwaiting
      | executed c hc hck transactionHash hstage hreceipt =>
          subst hck
          have hclosed := (hlaw.receipts.awaits c hc transactionHash hstage).receipt hreceipt
          exact absurd hreclaimable.1 hclosed.not_live
      | unlocked c hc hck hlock hstage =>
          by_contra hnot
          have hexposed : Exposed d wallet s k := ⟨by simpa using hnot, .inl hreclaimable.1⟩
          obtain ⟨info, hhash, -, hunfilled, hnone⟩ := (hlaw.locks k hexposed).resolve_left hlock
          rcases hstage with ⟨-, hzero⟩ | ⟨onChainRemaining, hstage⟩
          · obtain rfl : c.order.info = info := d.hash_injective (hck.trans hhash.symm)
            omega
          · have hcheck := hnone c hc hck
            rw [hstage] at hcheck
            cases hcheck

/-- **No stake is forgotten**, in runs in which no lock is lost that is
needed: where a step other than a restart drops an order while the account's
stake for it can be released, a release of it was sent. -/
theorem stake_released (tokens : W) (block : Block) (as : List (Action κ W)) (a : Action κ W)
    (h : Along d wallet (Careful d wallet) (init d tokens block) (as ++ [a])) (ha : a ≠ .restart)
    (orderHash : κ) (hwatched : orderHash ∈ (run d wallet (init d tokens block) as).watching)
    (hdropped : orderHash ∉ (run d wallet (init d tokens block) (as ++ [a])).watching)
    (hreclaimable : Reclaimable wallet (run d wallet (init d tokens block) as) orderHash) :
    (run d wallet (init d tokens block) (as ++ [a])).released orderHash = true := by
  obtain ⟨has, hlast⟩ := h.append
  have hlaw := run_invariant carefulLaw_step (carefulLaw_init tokens block) has
  rw [run_append] at hdropped ⊢
  exact (step_effect _ hlast.1.own).released hlaw hlast.1 ha hwatched hdropped hreclaimable

section Restart

open FallbackWatcher (orderOf1000 filler7 balances)

/-- In block 91 the fallback executes all of the order. -/
def completing : List (Action OrderInfo Ledger) :=
  [.elapse ⟨41, 0⟩, .transaction (.mk (.executeFallback ⟨orderOf1000, [1]⟩ 106 true 0)
    [[.leaf (.tokens fun w => update₂ (update₂ w 2 102 0) 3 1 (w 3 1 + 1000))]])]

/-- The swapper invalidates the nonce of the order. -/
def invalidating : List (Action OrderInfo Ledger) :=
  [.transaction (.leaf (.invalidateNonce ⟨orderOf1000.swapper, by decide⟩ orderOf1000.nonce))]

/-- The executor asks for its stake back, and loses touch with the node
before the release is mined. -/
def reclaiming : List (Action OrderInfo Ledger) :=
  [.onBlock orderOf1000 91, .fetchOrder 1 true, .remainingInput 1, .send 1 2]

/-- **Stakes are forgotten.** The account is registered; after a restart the
order is found filled by others and dropped. And without a restart, an order
whose nonce is invalid is never found to be over, and dropped when it
expires. In both cases the stake can be released, and no release was sent. -/
theorem forgotten_stakes :
    (orderOf1000 ∈ (after (locking 400 ++ registering ++ [.restart, .watch ⟨orderOf1000, [1]⟩]
        ++ completing ++ [.onBlock orderOf1000 91, .fetchOrder 0 true])).watching ∧
      Reclaimable filler7 (after (locking 400 ++ registering
        ++ [.restart, .watch ⟨orderOf1000, [1]⟩] ++ completing
        ++ [.onBlock orderOf1000 91, .fetchOrder 0 true])) orderOf1000 ∧
      orderOf1000 ∉ (after (locking 400 ++ registering ++ [.restart, .watch ⟨orderOf1000, [1]⟩]
        ++ completing
        ++ [.onBlock orderOf1000 91, .fetchOrder 0 true, .remainingInput 0])).watching ∧
      (after (locking 400 ++ registering ++ [.restart, .watch ⟨orderOf1000, [1]⟩] ++ completing
        ++ [.onBlock orderOf1000 91, .fetchOrder 0 true, .remainingInput 0])).released orderOf1000
        = false) ∧
    orderOf1000 ∈ (after (locking 400 ++ registering ++ invalidating
        ++ [.elapse ⟨51, 0⟩])).watching ∧
      Reclaimable filler7 (after (locking 400 ++ registering ++ invalidating
        ++ [.elapse ⟨51, 0⟩])) orderOf1000 ∧
      orderOf1000 ∉ (after (locking 400 ++ registering ++ invalidating
        ++ [.elapse ⟨51, 0⟩, .onBlock orderOf1000 101])).watching ∧
      (after (locking 400 ++ registering ++ invalidating
        ++ [.elapse ⟨51, 0⟩, .onBlock orderOf1000 101])).released orderOf1000 = false := by
  decide +kernel

/-- With its lock the executor sends the release first. -/
theorem stake_released_completed :
    (after (locking 400 ++ registering ++ completing ++ reclaiming ++ [.fail 1 false])).released
      orderOf1000 = true := by
  have hcareful : Along Ledger.deployment filler7 (Careful Ledger.deployment filler7)
      (init Ledger.deployment balances ⟨50, 0⟩)
      (locking 400 ++ registering ++ completing ++ reclaiming ++ [.fail 1 false]) := by
    decide +kernel
  have hwatched : orderOf1000 ∈
      (after (locking 400 ++ registering ++ completing ++ reclaiming)).watching := by
    decide +kernel
  have hdropped : orderOf1000 ∉ (after (locking 400 ++ registering ++ completing ++ reclaiming
      ++ [.fail 1 false])).watching := by
    decide +kernel
  have hreclaimable : Reclaimable filler7
      (after (locking 400 ++ registering ++ completing ++ reclaiming)) orderOf1000 := by
    decide +kernel
  exact stake_released balances ⟨50, 0⟩ _ _ hcareful (fun heq => by cases heq) orderOf1000
    hwatched hdropped hreclaimable

end Restart

end Executor

end NeutronX
