import NeutronX.CrossChain.FillProcessSteps
import NeutronX.CrossChain.Ledger

/-!
# A fill that is driven again

What a program of the fill asks of the destination chain is whether there
is code at the clone's address, and that is all it knows of the programs
before it. The factories make sure that each clone is deployed once. The
transfer in front of the deployment leaves no code: a process that stops
between the two is started over by one that pays again
(`resume_pays_twice`).

Where a process only stops while nothing was sent to the clone or the clone
is there, the fill is paid once (`resume_idempotent`). What a program knows
(`Funding`) then holds of the chain, up to what is still under way
(`Means`).
-/

namespace NeutronX.CrossChain

open Evm Function Script

namespace FillProcess

variable {κ A W : Type} [DecidableEq κ] [Zero A] [DecidableEq A] (n : FillNetwork κ A W)
  (F : QuotedFill κ)

/-! ## Payments -/

omit [DecidableEq κ] in
/-- What a transaction sends to the destination clone. -/
def pays : Ask κ A → Nat
  | .dstTransfer legs _ to_ amount => if legs = F.legs ∧ to_ = dstEscrow n F then amount else 0
  | _ => 0

omit [DecidableEq κ] in
/-- All that was ever sent to it. -/
def paid (s : State κ A W) : Nat := (s.effects.map (pays n F)).sum

omit [DecidableEq κ] in
/-- What transactions still can send to it. -/
def underWay (s : State κ A W) : Nat := (s.sent.map fun t => pays n F t.ask).sum

omit [DecidableEq κ] in
/-- Nothing was sent to the clone, nor is under way to it, or it is there. -/
def Covered (s : State κ A W) : Prop :=
  paid n F s + underWay n F s = 0 ∨ dstDeployed n F s = true

instance (s : State κ A W) : Decidable (Covered n F s) := inferInstanceAs (Decidable (_ ∨ _))

/-- A process only stops where the fill is covered. -/
def Careful (s : State κ A W) (a : Action n) : Prop := Stops s a → Covered n F s

instance (s : State κ A W) (a : Action n) : Decidable (Careful n F s a) :=
  inferInstanceAs (Decidable (_ → _))

/-- The fill was paid at most once, and each of its clones deployed at most
once. -/
structure Idempotent (s : State κ A W) : Prop where
  paid : paid n F s ≤ F.fillAmount
  deploys : s.effects.countP (deploysClone F) ≤ 1
  fillSlots : s.effects.countP (takesSlot F) ≤ 1

variable {n F} {s s' : State κ A W} {P : Prop}

/-! ## What takes effect once -/

/-- What `p` counts happened once at most, and left a mark. -/
def Once {α : Type} (p : α → Bool) (mark : Bool) (l : List α) : Prop :=
  l.countP p = 0 ∨ (l.countP p = 1 ∧ mark = true)

theorem Once.le {α : Type} {p : α → Bool} {mark : Bool} {l : List α} (h : Once p mark l) :
    l.countP p ≤ 1 := by
  rcases h with h | ⟨h, -⟩ <;> omega

theorem Once.kept {α : Type} {p : α → Bool} {mark mark' : Bool} {l : List α}
    (h : Once p mark l) (hkept : mark = true → mark' = true) : Once p mark' l := by
  rcases h with h | ⟨h, hmark⟩
  · exact .inl h
  · exact .inr ⟨h, hkept hmark⟩

/-- It happens only where there is no mark. -/
theorem Once.cons {α : Type} {p : α → Bool} {mark mark' : Bool} {l : List α} {x : α}
    (h : Once p mark l) (hkept : mark = true → mark' = true)
    (hx : p x = true → mark = false ∧ mark' = true) : Once p mark' (x :: l) := by
  by_cases hp : p x = true
  · obtain ⟨hbefore, hafter⟩ := hx hp
    rcases h with h | ⟨-, hmark⟩
    · exact .inr ⟨by rw [List.countP_cons_of_pos hp, h], hafter⟩
    · exact absurd (hbefore.symm.trans hmark) (by simp)
  · have hrest := h.kept hkept
    rwa [Once, List.countP_cons_of_neg hp]

/-- Each of the two clones is deployed once at most. -/
structure Deployments (n : FillNetwork κ A W) (F : QuotedFill κ) (s : State κ A W) : Prop where
  deploys : Once (deploysClone F) (dstDeployed n F s) s.effects
  fillSlots : Once (takesSlot F) (srcFilled F s) s.effects

/-- **Neither takes effect twice**, whatever the processes do. -/
theorem Effect.deployments (h : Effect n F P s s') (hs : Deployments n F s) :
    Deployments n F s' := by
  cases h with
  | world _ hframe hkept hrows =>
      have heffects : s'.effects = s.effects := by rw [hframe]
      refine ⟨?_, ?_⟩ <;> rw [heffects]
      · exact hs.deploys.kept hkept.deployed
      · exact hs.fillSlots.kept hkept.filled
  | mined t ht s₁ h =>
      exact ⟨hs.deploys.cons h.kept.deployed h.deploys, hs.fillSlots.cons h.kept.filled h.fills⟩
  | started | answered | failed | sent | reverted | discarded | confirmed | stopped =>
      exact ⟨hs.deploys, hs.fillSlots⟩

/-! ## Transactions under way -/

/-- Hashes are new, and what the program waits for is what it asked. -/
structure Tracked (s : State κ A W) : Prop where
  sent : ∀ t ∈ s.sent, t.transactionHash ∈ s.used
  receipts : ∀ h b, s.receipts h = some b → h ∈ s.used
  awaits : ∀ h, s.awaiting = some h → ∃ q, s.task.pending = some q ∧ q.isTransaction = true ∧
    ∀ t ∈ s.sent, t.transactionHash = h → t.ask = q

omit [DecidableEq κ] [Zero A] [DecidableEq A] in
theorem Tracked.idle (h : Tracked s) (hidle : s.task.pending = none) : s.awaiting = none := by
  cases hawaiting : s.awaiting with
  | none => rfl
  | some hash =>
      obtain ⟨q, hpending, -⟩ := h.awaits hash hawaiting
      rw [hidle] at hpending
      cases hpending

omit [DecidableEq κ] [Zero A] [DecidableEq A] in
theorem Tracked.question (h : Tracked s) {q : Ask κ A} {k : q.Answer → Task κ A String}
    (htask : s.task = .ask q k) (hquestion : q.isTransaction = false) : s.awaiting = none := by
  cases hawaiting : s.awaiting with
  | none => rfl
  | some hash =>
      obtain ⟨q', hpending, htransaction, -⟩ := h.awaits hash hawaiting
      obtain rfl : q = q' := by simpa [htask, pending] using hpending
      rw [hquestion] at htransaction
      cases htransaction

omit [DecidableEq κ] [Zero A] [DecidableEq A] in
/-- Fewer transactions under way, and a receipt for one that was. -/
theorem Tracked.fewer {sent : List (Sent κ A)} (h : Tracked s) (hsent : ∀ t ∈ sent, t ∈ s.sent)
    {receipts : Nat → Option Bool} (hreceipts : ∀ h b, receipts h = some b → h ∈ s.used) :
    Tracked { s with sent, receipts } where
  sent := fun t ht => h.sent t (hsent t ht)
  receipts := hreceipts
  awaits := fun hash hawaiting => by
    obtain ⟨q, hpending, htransaction, hask⟩ := h.awaits hash hawaiting
    exact ⟨q, hpending, htransaction, fun t ht => hask t (hsent t ht)⟩

omit [DecidableEq κ] [Zero A] [DecidableEq A] in
theorem Tracked.receipt (h : Tracked s) {t : Sent κ A} (ht : t ∈ s.sent) (succeeded : Bool) :
    ∀ hash b, update s.receipts t.transactionHash (some succeeded) hash = some b →
      hash ∈ s.used := by
  intro hash b hb
  by_cases hsame : hash = t.transactionHash
  · subst hsame
    exact h.sent t ht
  · rw [update_of_ne hsame] at hb
    exact h.receipts hash b hb

theorem Effect.tracked (h : Effect n F P s s') (hs : Tracked s) : Tracked s' := by
  cases h with
  | world _ hframe =>
      rw [hframe]
      exact ⟨hs.sent, hs.receipts, hs.awaits⟩
  | started task secrets hidle =>
      refine ⟨hs.sent, hs.receipts, fun hash hawaiting => ?_⟩
      have hnone := hs.idle hidle
      exact absurd (hnone.symm.trans hawaiting) (by simp)
  | answered now other a htask hquestion =>
      refine ⟨hs.sent, hs.receipts, fun hash hawaiting => ?_⟩
      have hnone := hs.question htask hquestion
      exact absurd (hnone.symm.trans hawaiting) (by simp)
  | failed | stopped | confirmed => exact ⟨hs.sent, hs.receipts, nofun⟩
  | @sent q k hash htask htransaction hidle hfresh =>
      refine ⟨fun t ht => ?_, fun h b hb => List.mem_cons_of_mem _ (hs.receipts h b hb),
        fun h hawaiting => ?_⟩
      · rcases List.mem_cons.mp ht with rfl | ht
        · exact List.mem_cons_self ..
        · exact List.mem_cons_of_mem _ (hs.sent t ht)
      · obtain rfl : hash = h := Option.some.inj hawaiting
        refine ⟨q, by simp [htask, pending], htransaction, fun t ht hhash => ?_⟩
        rcases List.mem_cons.mp ht with rfl | ht
        · rfl
        · exact absurd (hhash ▸ hs.sent t ht) hfresh
  | mined t ht s₁ h =>
      have hfewer : Tracked { s with
          sent := s.sent.filter fun x => x.transactionHash ≠ t.transactionHash
          receipts := update s.receipts t.transactionHash (some true) } :=
        hs.fewer (fun x hx => (List.mem_filter.mp hx).1) (hs.receipt ht true)
      rw [h.frame]
      exact ⟨hfewer.sent, hfewer.receipts, hfewer.awaits⟩
  | reverted t ht => exact hs.fewer (fun x hx => (List.mem_filter.mp hx).1) (hs.receipt ht false)
  | discarded hash => exact hs.fewer (fun x hx => (List.mem_filter.mp hx).1) hs.receipts

/-! ## The fill that is driven -/

/-- The backend knows the fill a program is about. -/
structure Quoted (F : QuotedFill κ) (s : State κ A W) : Prop where
  fresh : s.service.db.Fresh
  recorded : s.task.pending ≠ none → Recorded F s

theorem Effect.quoted (h : Effect n F P s s') (hs : Quoted F s) : Quoted F s' := by
  cases h with
  | world _ hframe hkept hrows =>
      obtain ⟨hfresh, hrecorded⟩ := hrows hs.fresh
      refine ⟨hfresh, fun hpending => hrecorded (hs.recorded ?_)⟩
      rwa [hframe] at hpending
  | started task secrets hidle hrecorded => exact ⟨hs.fresh, fun _ => hrecorded⟩
  | answered now other a htask | confirmed _ a htask =>
      exact ⟨hs.fresh, fun _ => hs.recorded (by simp [htask, pending])⟩
  | failed | stopped => exact ⟨hs.fresh, fun hpending => absurd rfl hpending⟩
  | sent | reverted | discarded => exact ⟨hs.fresh, hs.recorded⟩
  | mined t ht s₁ h =>
      rw [h.frame]
      exact ⟨hs.fresh, hs.recorded⟩

omit [DecidableEq κ] in
/-- The backend and the factories answer as the protocol has it. -/
theorem reply_honest {now : Nat} {other : Bool} {q : Ask κ A} {a : q.Answer}
    (hrecorded : Recorded F s) (h : reply n F s now other q = some a) :
    Funding.Honest n F q a := by
  obtain ⟨r, hr, o, ho, hhash, hamount, hchain⟩ := hrecorded
  cases q with
  | getOrder orderHash =>
      rintro rfl
      obtain ⟨o', ho', rfl⟩ := Option.map_eq_some_iff.mp h
      obtain rfl : o = o' := Option.some.inj (ho.symm.trans ho')
      exact hchain
  | getFill fillId =>
      rintro rfl
      obtain ⟨r', hr', rfl⟩ := Option.map_eq_some_iff.mp h
      obtain rfl : r = r' := Option.some.inj (hr.symm.trans hr')
      exact ⟨hhash, hamount⟩
  | dstComputeAddress legs hashlock filler => exact (Option.some.inj h).symm
  | _ => trivial

/-! ## What a program knows -/

/-- What the states of the protocol say of the chain. A transaction that is
waited for can have changed it already. -/
def Means (n : FillNetwork κ A W) (F : QuotedFill κ) (s : State κ A W) : Funding → Prop
  | .covered => Covered n F s
  | .vacant => s.awaiting = none → paid n F s + underWay n F s = 0
  | .funded => ∀ h, s.awaiting = some h → s.receipts h = some true → dstDeployed n F s = true

structure Budget (n : FillNetwork κ A W) (F : QuotedFill κ) (s : State κ A W) : Prop where
  bounded : paid n F s + underWay n F s ≤ F.fillAmount
  knows : ∃ p, Keeps n F s.task p ∧ Means n F s p

/-- No more is sent and under way than before, and the code stays. -/
structure NoMore (n : FillNetwork κ A W) (F : QuotedFill κ) (s s' : State κ A W) : Prop where
  le : paid n F s' + underWay n F s' ≤ paid n F s + underWay n F s
  deployed : dstDeployed n F s = true → dstDeployed n F s' = true

omit [DecidableEq κ] in
theorem NoMore.covered (h : NoMore n F s s') (hs : Covered n F s) : Covered n F s' := by
  rcases hs with hs | hs
  · exact .inl (Nat.le_zero.mp (hs ▸ h.le))
  · exact .inr (h.deployed hs)

omit [DecidableEq κ] in
/-- The program is where it was, and learns nothing of a transaction that it
waits for but that it is mined. -/
theorem NoMore.budget (h : NoMore n F s s') (hs : Budget n F s) (htask : s'.task = s.task)
    (hawaiting : s'.awaiting = s.awaiting)
    (hreceipts : ∀ hash, Keeps n F s.task .funded → s.awaiting = some hash →
      s'.receipts hash = some true →
        s.receipts hash = some true ∨ dstDeployed n F s' = true) : Budget n F s' := by
  obtain ⟨p, hkeeps, hmeans⟩ := hs.knows
  refine ⟨Nat.le_trans h.le hs.bounded, p, by rwa [htask], ?_⟩
  cases p with
  | covered => exact h.covered hmeans
  | vacant =>
      intro hnone
      have hzero := hmeans (hawaiting ▸ hnone)
      exact Nat.le_zero.mp (hzero ▸ h.le)
  | funded =>
      intro hash hsome htrue
      rw [hawaiting] at hsome
      rcases hreceipts hash hkeeps hsome htrue with hbefore | hafter
      · exact h.deployed (hmeans hash hsome hbefore)
      · exact hafter

/-! ### Transactions that are mined or dropped -/

omit [DecidableEq κ] in
theorem underWay_filter (hash : Nat) (sent : List (Sent κ A)) :
    ((sent.filter fun x => x.transactionHash ≠ hash).map fun t => pays n F t.ask).sum
      ≤ (sent.map fun t => pays n F t.ask).sum := by
  induction sent with
  | nil => exact Nat.le_refl _
  | cons t sent ih =>
      by_cases hsame : t.transactionHash = hash
      · simpa [hsame] using Nat.le_add_left_of_le ih
      · simpa [hsame] using ih

omit [DecidableEq κ] in
/-- What is mined is no longer under way. -/
theorem underWay_mined {t : Sent κ A} {sent : List (Sent κ A)} (ht : t ∈ sent) :
    pays n F t.ask +
      ((sent.filter fun x => x.transactionHash ≠ t.transactionHash).map
        fun t => pays n F t.ask).sum ≤ (sent.map fun t => pays n F t.ask).sum := by
  induction sent with
  | nil => cases ht
  | cons x sent ih =>
      rcases List.mem_cons.mp ht with rfl | ht
      · simpa using underWay_filter t.transactionHash sent
      · have hrest := ih ht
        by_cases hsame : x.transactionHash = t.transactionHash
        · simpa [hsame] using Nat.le_add_left_of_le hrest
        · rw [List.filter_cons_of_pos (by simpa using hsame), List.map_cons, List.sum_cons,
            List.map_cons, List.sum_cons]
          omega

omit [DecidableEq κ] in
theorem discarded_noMore (s : State κ A W) (hash : Nat) : NoMore n F s (discard s hash) :=
  ⟨Nat.add_le_add_left (underWay_filter hash s.sent) _, id⟩

theorem mined_noMore {t : Sent κ A} (ht : t ∈ s.sent) {s₁ : State κ A W}
    (h : Executed t.ask n F s s₁) {receipts : Nat → Option Bool} :
    NoMore n F s { s₁ with
      sent := s.sent.filter fun x => x.transactionHash ≠ t.transactionHash
      receipts
      effects := t.ask :: s.effects } := by
  refine ⟨?_, h.kept.deployed⟩
  have hmined := underWay_mined (n := n) (F := F) ht
  simp only [paid, underWay, List.map_cons, List.sum_cons]
  omega

theorem mined_budget {t : Sent κ A} (ht : t ∈ s.sent) {s₁ : State κ A W}
    (h : Executed t.ask n F s s₁) (htracked : Tracked s) (hs : Budget n F s) :
    Budget n F { s₁ with
      sent := s.sent.filter fun x => x.transactionHash ≠ t.transactionHash
      receipts := update s.receipts t.transactionHash (some true)
      effects := t.ask :: s.effects } := by
  have htask : s₁.task = s.task := by rw [h.frame]
  have hawaits : s₁.awaiting = s.awaiting := by rw [h.frame]
  refine (mined_noMore ht h).budget hs htask hawaits fun hash hkeeps hawaiting htrue => ?_
  by_cases hsame : hash = t.transactionHash
  · -- the deployment that the program waits for
    subst hsame
    obtain ⟨q, hpending, -, hask⟩ := htracked.awaits _ hawaiting
    obtain rfl : t.ask = q := hask t ht rfl
    have hdeploys : deploysClone F t.ask = true := by
      cases htask : s.task with
      | done | throw => simp [htask, pending] at hpending
      | ask q k =>
          rw [htask] at hkeeps hpending
          obtain rfl : q = t.ask := by simpa [pending] using hpending
          have hallows := hkeeps.1
          cases hq : t.ask with
          | dstDeploy legs hashlock swapper token amount t2 =>
              rw [hq] at hallows
              obtain ⟨hlegs, hhash⟩ := hallows
              simp [deploysClone, hlegs, hhash]
          | _ =>
              rw [hq] at hallows
              exact hallows.elim
    exact .inr (h.deploys hdeploys).2
  · exact .inl (by simpa [hsame] using htrue)

omit [DecidableEq κ] in
theorem reverted_budget {t : Sent κ A} (hs : Budget n F s) :
    Budget n F { s with
      sent := s.sent.filter fun x => x.transactionHash ≠ t.transactionHash
      receipts := update s.receipts t.transactionHash (some false) } := by
  have hless : NoMore n F s { s with
      sent := s.sent.filter fun x => x.transactionHash ≠ t.transactionHash
      receipts := update s.receipts t.transactionHash (some false) } :=
    ⟨Nat.add_le_add_left (underWay_filter t.transactionHash s.sent) _, id⟩
  refine hless.budget hs rfl rfl fun hash _ _ htrue => .inl ?_
  by_cases hsame : hash = t.transactionHash
  · simp [hsame] at htrue
  · simpa [hsame] using htrue

/-! ### The program -/

omit [DecidableEq κ] in
/-- A program that has ended leaves the fill covered. -/
theorem Budget.ended (hs : Budget n F s) (htracked : Tracked s) (hidle : s.task.pending = none) :
    Covered n F s := by
  obtain ⟨p, hkeeps, hmeans⟩ := hs.knows
  have hfinal : p ≠ .funded := by
    cases htask : s.task with
    | done r => exact (htask ▸ hkeeps : Keeps n F (.done r) p)
    | throw message => exact (htask ▸ hkeeps : Keeps n F (.throw message) p)
    | ask q k => simp [htask, pending] at hidle
  cases p with
  | covered => exact hmeans
  | vacant => exact .inl (hmeans (htracked.idle hidle))
  | funded => exact absurd rfl hfinal

omit [DecidableEq κ] in
/-- And so it is where a program asks a question. -/
theorem Budget.asking (hs : Budget n F s) (htracked : Tracked s) {q : Ask κ A}
    {k : q.Answer → Task κ A String} (htask : s.task = .ask q k)
    (hquestion : q.isTransaction = false) : Covered n F s := by
  obtain ⟨p, hkeeps, hmeans⟩ := hs.knows
  rw [htask] at hkeeps
  cases p with
  | covered => exact hmeans
  | vacant => exact .inl (hmeans (htracked.question htask hquestion))
  | funded =>
      cases q with
      | dstDeploy => cases hquestion
      | _ => exact hkeeps.1.elim

omit [DecidableEq κ] in
theorem stop_budget (hbounded : paid n F s + underWay n F s ≤ F.fillAmount)
    (hcovered : Covered n F s) : Budget n F s.stop :=
  ⟨hbounded, .covered, by rintro ⟨⟩, hcovered⟩

omit [DecidableEq κ] in
/-- A program only learns that nothing was sent to the clone from there being
no code. -/
theorem next_covered {now : Nat} {other : Bool} {q : Ask κ A} {a : q.Answer}
    (hreply : reply n F s now other q = some a) :
    Funding.next n F .covered q a = .covered ∨
      (Funding.next n F .covered q a = .vacant ∧ dstDeployed n F s = false) := by
  cases q with
  | dstHasCode legs escrow =>
      have hcode : (if legs = F.legs ∧ escrow = dstEscrow n F then dstDeployed n F s else other)
          = a := Option.some.inj hreply
      cases a with
      | true => exact .inl rfl
      | false =>
          by_cases hclone : legs = F.legs ∧ escrow = dstEscrow n F
          · rw [if_pos hclone] at hcode
            exact .inr ⟨if_pos hclone, hcode⟩
          · exact .inl (if_neg hclone)
  | _ => exact .inl rfl

omit [DecidableEq κ] in
theorem next_vacant {q : Ask κ A} (hquestion : q.isTransaction = false) (a : q.Answer) :
    Funding.next n F .vacant q a = .vacant := by
  cases q with
  | dstTransfer => cases hquestion
  | _ => rfl

omit [DecidableEq κ] in
theorem answered_budget {q : Ask κ A} {k : q.Answer → Task κ A String} {now : Nat} {other : Bool}
    {a : q.Answer} (htask : s.task = .ask q k) (hquestion : q.isTransaction = false)
    (hreply : reply n F s now other q = some a) (htracked : Tracked s) (hquoted : Quoted F s)
    (hs : Budget n F s) : Budget n F { s with task := k a } := by
  have hhonest := reply_honest (hquoted.recorded (by simp [htask, pending])) hreply
  obtain ⟨p, hkeeps, hmeans⟩ := hs.knows
  rw [htask] at hkeeps
  have hafter : Keeps n F (k a) (Funding.next n F p q a) := hkeeps.2 a hhonest
  cases p with
  | covered =>
      rcases next_covered hreply with hnext | ⟨hnext, hnone⟩
      · exact ⟨hs.bounded, .covered, hnext ▸ hafter, hmeans⟩
      · -- there is no code, so nothing was sent
        refine ⟨hs.bounded, .vacant, hnext ▸ hafter, fun _ => ?_⟩
        rcases hmeans with hzero | hdeployed
        · exact hzero
        · exact absurd (hnone.symm.trans hdeployed) (by simp)
  | vacant =>
      have hzero := hmeans (htracked.question htask hquestion)
      rw [next_vacant hquestion a] at hafter
      exact ⟨hs.bounded, .vacant, hafter, fun _ => hzero⟩
  | funded =>
      cases q with
      | dstDeploy => cases hquestion
      | _ => exact hkeeps.1.elim

omit [DecidableEq κ] in
theorem sent_budget {q : Ask κ A} {k : q.Answer → Task κ A String} {hash : Nat}
    (htask : s.task = .ask q k) (htransaction : q.isTransaction = true)
    (hidle : s.awaiting = none) (hfresh : hash ∉ s.used) (htracked : Tracked s)
    (hs : Budget n F s) :
    Budget n F { s with
      awaiting := some hash
      used := hash :: s.used
      sent := ⟨hash, q⟩ :: s.sent } := by
  obtain ⟨p, hkeeps, hmeans⟩ := hs.knows
  have hallows := (htask ▸ hkeeps : Keeps n F (.ask q k) p).1
  -- all it costs is what a transfer pays, where nothing was paid before
  have hnext : paid n F s + (pays n F q + underWay n F s) ≤ F.fillAmount ∧
      (p ≠ .vacant → pays n F q = 0) := by
    have hbounded := hs.bounded
    cases p with
    | covered =>
        cases q with
        | dstTransfer => exact hallows.elim
        | _ => exact ⟨by simpa [pays] using hbounded, fun _ => rfl⟩
    | vacant =>
        have hzero := hmeans hidle
        cases q with
        | dstTransfer legs token to_ amount =>
            obtain rfl : amount = F.fillAmount := hallows
            refine ⟨?_, fun hne => absurd rfl hne⟩
            have hpays : pays n F (.dstTransfer legs token to_ F.fillAmount : Ask κ A)
                ≤ F.fillAmount := by
              simp only [pays]
              split <;> omega
            omega
        | _ => exact ⟨by simpa [pays] using hbounded, fun _ => rfl⟩
    | funded =>
        cases q with
        | dstDeploy => exact ⟨by simpa [pays] using hbounded, fun _ => rfl⟩
        | _ => exact hallows.elim
  refine ⟨by simpa [paid, underWay] using hnext.1, p, hkeeps, ?_⟩
  cases p with
  | covered =>
      rcases hmeans with hzero | hdeployed
      · left
        have hpays := hnext.2 (by rintro ⟨⟩)
        simp only [paid, underWay, List.map_cons, List.sum_cons] at hzero hpays ⊢
        omega
      · exact .inr hdeployed
  | vacant => exact nofun
  | funded =>
      intro h hawaiting hreceipt
      obtain rfl : hash = h := Option.some.inj hawaiting
      exact absurd (htracked.receipts _ _ hreceipt) hfresh

omit [DecidableEq κ] in
theorem confirmed_budget {q : Ask κ A} {k : q.Answer → Task κ A String} {hash : Nat}
    {a : q.Answer} (htask : s.task = .ask q k) (hawaiting : s.awaiting = some hash)
    (hreceipt : s.receipts hash = some true) (hconfirmed : q.confirmed hash = some a)
    (hs : Budget n F s) : Budget n F { s with task := k a, awaiting := none } := by
  obtain ⟨p, hkeeps, hmeans⟩ := hs.knows
  rw [htask] at hkeeps
  have hhonest : Funding.Honest n F q a := by
    cases q with
    | getOrder | getFill | dstComputeAddress => cases hconfirmed
    | _ => trivial
  refine ⟨hs.bounded, _, hkeeps.2 a hhonest, ?_⟩
  cases p with
  | covered =>
      cases q with
      | dstHasCode => cases hconfirmed
      | _ => exact hmeans
  | vacant =>
      cases q with
      | dstTransfer => exact nofun
      | fillSlot | withdraw | dstDeploy => cases hkeeps.1
      | _ => cases hconfirmed
  | funded =>
      cases q with
      | dstDeploy => exact .inr (hmeans hash hawaiting hreceipt)
      | _ => exact hkeeps.1.elim

/-- **What a step leaves of the fill's amount.** -/
theorem Effect.budget (h : Effect n F (Covered n F s) s s') (htracked : Tracked s)
    (hquoted : Quoted F s) (hs : Budget n F s) : Budget n F s' := by
  cases h with
  | world _ hframe hkept =>
      have hle : paid n F s' + underWay n F s' ≤ paid n F s + underWay n F s := by rw [hframe]; rfl
      refine NoMore.budget ⟨hle, hkept.deployed⟩ hs (by rw [hframe]) (by rw [hframe])
        fun hash _ _ htrue => .inl ?_
      rwa [hframe] at htrue
  | started task secrets hidle hrecorded hkeeps =>
      exact ⟨hs.bounded, .covered, hkeeps, hs.ended htracked hidle⟩
  | answered now other a htask hquestion hreply =>
      exact answered_budget htask hquestion hreply htracked hquoted hs
  | failed htask hquestion =>
      exact stop_budget hs.bounded (hs.asking htracked htask hquestion)
  | sent hash htask htransaction hidle hfresh =>
      exact sent_budget htask htransaction hidle hfresh htracked hs
  | mined t ht s₁ h => exact mined_budget ht h htracked hs
  | reverted t ht => exact reverted_budget hs
  | discarded hash =>
      exact (discarded_noMore s hash).budget hs rfl rfl fun _ _ _ htrue => .inl htrue
  | confirmed hash a htask hawaiting hreceipt hconfirmed =>
      exact confirmed_budget htask hawaiting hreceipt hconfirmed hs
  | stopped hcovered => exact stop_budget hs.bounded hcovered

/-! ## Runs -/

/-- What a careful run keeps. -/
structure Sound (n : FillNetwork κ A W) (F : QuotedFill κ) (s : State κ A W) : Prop where
  tracked : Tracked s
  quoted : Quoted F s
  budget : Budget n F s

omit [DecidableEq κ] in
theorem sound_init (tokens dstTokens : ChainLegs → W) (block : ChainLegs → Block) :
    Sound n F (init tokens dstTokens block : State κ A W) where
  tracked := ⟨nofun, nofun, nofun⟩
  quoted := ⟨Db.fresh_init, fun hpending => absurd rfl hpending⟩
  budget := ⟨Nat.zero_le _, .covered, by rintro ⟨⟩, .inl rfl⟩

theorem sound_step (s : State κ A W) (a : Action n) (hs : Sound n F s) (hok : Careful n F s a) :
    Sound n F (step n F s a) := by
  have heffect : Effect n F (Covered n F s) s (step n F s a) := step_effect s a hok
  exact ⟨heffect.tracked hs.tracked, heffect.quoted hs.quoted,
    heffect.budget hs.tracked hs.quoted hs.budget⟩

/-- In every run, wherever its processes stop. -/
theorem run_deployments (tokens dstTokens : ChainLegs → W) (block : ChainLegs → Block)
    (as : List (Action n)) :
    Deployments n F (runActions (step n F) (init tokens dstTokens block) as) := by
  refine Along.invariant (I := Deployments n F) (fun s a hs _ => ?_) ⟨.inl rfl, .inl rfl⟩
    (along_true as _)
  exact (step_effect (P := True) s a fun _ => trivial).deployments hs

/-- **A fill is driven again without being paid again**, in every run whose
processes only stop where it is covered. -/
theorem resume_idempotent {tokens dstTokens : ChainLegs → W} {block : ChainLegs → Block}
    {as : List (Action n)}
    (h : Along (step n F) (Careful n F) (init tokens dstTokens block) as) :
    Idempotent n F (runActions (step n F) (init tokens dstTokens block) as) := by
  have hsound := h.invariant sound_step (sound_init tokens dstTokens block)
  have hdeployments := run_deployments (n := n) (F := F) tokens dstTokens block as
  exact ⟨Nat.le_trans (Nat.le_add_right ..) hsound.budget.bounded, hdeployments.deploys.le,
    hdeployments.fillSlots.le⟩

/-! ## A crash -/

namespace Crash

def network : FillNetwork (OrderInfo Nat) Nat (Ledger Nat) where
  toCoWFiller := Ledger.cowFiller
  destination := fun _ => Ledger.destinationChain
  service := { Ledger.backend.service with chainIds := [CoWFiller.chainAId, CoWFiller.chainBId] }

def info : OrderInfo Nat := ⟨2, 4, 100, 6, 90, 1000, 0, 3000⟩

def fill : QuotedFill (OrderInfo Nat) := ⟨.chainA, info, 1, 8, 40⟩

def start : State (OrderInfo Nat) Nat (Ledger Nat) :=
  init (fun _ _ _ => 0) (fun _ => update₂ (fun _ _ => 0) 6 14 1000) fun _ => ⟨1, 0⟩

/-- The order is created and signed, the fill quoted, and driven. -/
def driven : List (Action network) :=
  [.service (.request 0 (.createIntent info CoWFiller.chainAId CoWFiller.chainBId)),
    .service (.execute 0), .service (.request 0 (.setOrderSwapperSig info [1])),
    .service (.execute 0), .service (.request 0 (.createFillQuote ⟨info, 14, 40, 8, 100, 200⟩)),
    .service (.execute 0), .drive 2 7 ⟨info, some [1], CoWFiller.chainAId⟩ 200 ⟨none, false⟩]

/-- The process stops, and is started over: it reads the secret, the order
and the fill. -/
def resumed : List (Action network) :=
  [.stop, .resume 2 ⟨none, false⟩, .answer 0 false, .answer 0 false, .answer 0 false]

def mined (transactionHash : Nat) : List (Action network) :=
  [.send transactionHash, .mine transactionHash ⟨fun _ => [], [], true⟩]

/-- The address is asked for, the code there, and the balance; then the
transfer is sent. -/
def transferred (transactionHash : Nat) : List (Action network) :=
  [.answer 0 false, .answer 0 false, .answer 0 false] ++ mined transactionHash

/-- The process stops when the transfer is mined, and the next one sends it
again. -/
theorem resume_pays_twice :
    ¬ ∀ as : List (Action network),
      Idempotent network fill (runActions (step network fill) start as) := by
  intro hall
  have hpaid := (hall (driven ++ transferred 1 ++ resumed ++ transferred 2)).paid
  have htwice : paid network fill (runActions (step network fill) start
      (driven ++ transferred 1 ++ resumed ++ transferred 2)) = 80 := by decide +kernel
  rw [htwice] at hpaid
  exact absurd hpaid (by decide)

/-- It stops when the deployment is mined, and the next one goes on from
there. -/
theorem resume_idempotent_deployed :
    let as := driven ++ transferred 1 ++ [.receipt] ++ mined 2 ++ resumed ++
      [.answer 0 false, .answer 0 false]
    paid network fill (runActions (step network fill) start as) = 40 ∧
      Idempotent network fill (runActions (step network fill) start as) := by
  intro as
  exact ⟨by decide +kernel, resume_idempotent (by decide +kernel)⟩

end Crash

end FillProcess

end NeutronX.CrossChain
