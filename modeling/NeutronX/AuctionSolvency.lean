import NeutronX.AuctionSteps

/-!
# Solvency of the auction

Two laws hold of the books in every reachable state of the auction, in the
middle of a withdrawal as well as between calls.

The custody law: the ETH balance is the stakes that have not ended, plus
what is owed to accounts, plus ETH that was forced in. It is the law of
`Evm.Custody`, which the auction refines (`custody_run`).

The slot law: a slot of the registration mapping is unused, or holds a
registration nothing was credited for, or one that ended by exactly one
outcome, and then the credits on its account are exactly that outcome's.
-/

namespace NeutronX

open Evm Function

namespace FillAuction

variable {κ : Type} [DecidableEq κ]

/-! ## The custody view -/

/-- The stake a registration still holds. -/
def openStake (reg : Registration) : Nat := if reg.resolved then 0 else reg.stakeAmount

def custody (b : Books κ) : Custody (κ × Address) Address where
  locked := fun k => openStake (b.registrations k.1 k.2)
  owed := b.pendingReturns
  held := b.balance
  surplus := b.forcedEth

theorem locked_update₂ (m : κ → Address → Registration) (orderHash : κ) (filler : Address)
    (reg : Registration) :
    (fun k : κ × Address => openStake (update₂ m orderHash filler reg k.1 k.2))
      = update (fun k : κ × Address => openStake (m k.1 k.2)) (orderHash, filler)
          (openStake reg) := by
  funext ⟨k, f⟩
  by_cases h : k = orderHash ∧ f = filler
  · obtain ⟨rfl, rfl⟩ := h
    simp
  · have hne : (k, f) ≠ (orderHash, filler) := fun he => h (by simpa using he)
    simp [update₂_of_ne h, update_of_ne hne]

theorem openStake_fresh {filler : Address} {reg : Registration} (h : Fresh filler reg) :
    openStake reg = reg.stakeAmount := by
  simp [openStake, Registration.resolved, h.filled, h.slashed, h.released]

theorem openStake_flag (o : Outcome) (reg : Registration) : openStake (o.flag reg) = 0 := by
  cases o <;> simp [openStake, Registration.resolved, Outcome.flag]

/-! ## The life of a slot -/

/-- The credits that come out of the stake of one registration. -/
def creditsOf (credits : List (Credit κ)) (orderHash : κ) (filler : Address) :
    List (Credit κ) :=
  credits.filter fun c => decide (c.source = some (orderHash, filler))

inductive SlotLaw (treasury : Address) (orderHash : κ) (filler : Address) :
    Registration → List (Credit κ) → Prop
  | unused : SlotLaw treasury orderHash filler .empty []
  | live (reg : Registration) (hfresh : Fresh filler reg) :
      SlotLaw treasury orderHash filler reg []
  | ended (reg : Registration) (o : Outcome) (hfresh : Fresh filler reg)
      (hsplit : o.Splits reg.stakeAmount) :
      SlotLaw treasury orderHash filler (o.flag reg) (o.credits treasury orderHash filler reg)

section Slots

variable {treasury filler : Address} {orderHash : κ} {reg : Registration} {cs : List (Credit κ)}

omit [DecidableEq κ] in
theorem Outcome.flag_filler (o : Outcome) (reg : Registration) :
    (o.flag reg).filler = reg.filler := by
  cases o <;> rfl

omit [DecidableEq κ] in
theorem Outcome.flag_resolved (o : Outcome) (reg : Registration) :
    (o.flag reg).resolved = true := by
  cases o <;> simp [Outcome.flag, Registration.resolved]

omit [DecidableEq κ] in
theorem SlotLaw.unused_of_filler (h : SlotLaw treasury orderHash filler reg cs)
    (hz : reg.filler = 0) : reg = .empty ∧ cs = [] := by
  cases h with
  | unused => exact ⟨rfl, rfl⟩
  | live reg hfresh => exact absurd (hfresh.filler_eq ▸ hz) hfresh.filler_ne
  | ended reg o hfresh hsplit =>
      rw [o.flag_filler, hfresh.filler_eq] at hz
      exact absurd hz hfresh.filler_ne

omit [DecidableEq κ] in
theorem SlotLaw.live_of_open (h : SlotLaw treasury orderHash filler reg cs)
    (hused : reg ≠ .empty) (hopen : reg.resolved = false) : Fresh filler reg ∧ cs = [] := by
  cases h with
  | unused => exact absurd rfl hused
  | live reg hfresh => exact ⟨hfresh, rfl⟩
  | ended reg o hfresh hsplit =>
      rw [o.flag_resolved] at hopen
      cases hopen

end Slots

theorem creditsOf_append (cs ds : List (Credit κ)) (orderHash : κ) (filler : Address) :
    creditsOf (cs ++ ds) orderHash filler
      = creditsOf cs orderHash filler ++ creditsOf ds orderHash filler :=
  List.filter_append ..

theorem creditsOf_excess (account : Address) (excess : Nat) (orderHash : κ) (filler : Address) :
    creditsOf (excessCredits account excess) orderHash filler = [] := by
  unfold excessCredits
  split <;> simp [creditsOf]

theorem creditsOf_self (o : Outcome) (treasury : Address) (orderHash : κ) (filler : Address)
    (reg : Registration) :
    creditsOf (o.credits treasury orderHash filler reg) orderHash filler
      = o.credits treasury orderHash filler reg :=
  List.filter_eq_self.mpr fun _ hc => by simp [Outcome.mem_credits hc]

theorem creditsOf_other (o : Outcome) (treasury : Address) {orderHash k : κ}
    {filler f : Address} (reg : Registration) (h : ¬(k = orderHash ∧ f = filler)) :
    creditsOf (o.credits treasury orderHash filler reg) k f = [] :=
  List.filter_eq_nil_iff.mpr fun _ hc => by
    rw [Outcome.mem_credits hc]
    simp only [Option.some.injEq, Prod.mk.injEq, decide_eq_true_eq]
    exact fun he => h ⟨he.1.symm, he.2.symm⟩

/-! ## The invariant -/

structure BooksInv (treasury : Address) (b : Books κ) : Prop where
  slots : ∀ k f, SlotLaw treasury k f (b.registrations k f) (creditsOf b.credits k f)
  accounts : ∀ a, b.pendingReturns a + b.withdrawn a = paidTo a (payments b.credits)

/-- A step of the books is a step of the custodian. -/
theorem custody_step {treasury : Address} {b b' : Books κ}
    (hslots : ∀ k f, SlotLaw treasury k f (b.registrations k f) (creditsOf b.credits k f))
    (h : BooksStep treasury b b') : Custody.Step (custody b) (custody b') := by
  cases h with
  | register orderHash filler reg msgValue hfree hfresh hpaid hfits =>
      have hempty := ((hslots orderHash filler).unused_of_filler hfree).1
      have hstep := Custody.Step.lock (custody b) (orderHash, filler) reg.stakeAmount
        (payments (excessCredits (κ := κ) filler (msgValue - reg.stakeAmount)))
        (by simp [custody, hempty, openStake, Registration.resolved, Registration.empty])
      have hheld : b.balance + reg.stakeAmount + (msgValue - reg.stakeAmount)
          = b.balance + msgValue := by omega
      rw [amounts_excessCredits] at hstep
      simp only [custody, locked_update₂, openStake_fresh hfresh] at hstep ⊢
      rwa [hheld] at hstep
  | settle orderHash filler o hused hopen hsplit =>
      have hfresh := ((hslots orderHash filler).live_of_open hused hopen).1
      have hstep := Custody.Step.dissolve (custody b) (orderHash, filler)
        (payments (o.credits treasury orderHash filler (b.registrations orderHash filler)))
        (by rw [Outcome.amounts_credits hsplit]; exact (openStake_fresh hfresh).symm)
      simpa only [custody, locked_update₂, openStake_flag] using hstep
  | pay account hle => exact Custody.Step.collect (custody b) account hle
  | force amount hfits => exact Custody.Step.gift (custody b) amount

theorem slots_step {treasury : Address} {b b' : Books κ}
    (hslots : ∀ k f, SlotLaw treasury k f (b.registrations k f) (creditsOf b.credits k f))
    (h : BooksStep treasury b b') :
    ∀ k f, SlotLaw treasury k f (b'.registrations k f) (creditsOf b'.credits k f) := by
  intro k f
  have hkf := hslots k f
  cases h with
  | register orderHash filler reg msgValue hfree hfresh hpaid hfits =>
      simp only [creditsOf_append, creditsOf_excess, List.nil_append, update₂_apply]
      split
      · rename_i heq
        obtain ⟨rfl, rfl⟩ := heq
        rw [(hkf.unused_of_filler hfree).2]
        exact .live reg hfresh
      · exact hkf
  | settle orderHash filler o hused hopen hsplit =>
      simp only [creditsOf_append, update₂_apply]
      split
      · rename_i heq
        obtain ⟨rfl, rfl⟩ := heq
        obtain ⟨hfresh, hnil⟩ := hkf.live_of_open hused hopen
        rw [creditsOf_self, hnil, List.append_nil]
        exact .ended _ o hfresh hsplit
      · rename_i hne
        rw [creditsOf_other o treasury _ hne, List.nil_append]
        exact hkf
  | pay account hle => exact hkf
  | force amount hfits => exact hkf

theorem accounts_step {treasury : Address} {b b' : Books κ}
    (hacc : ∀ a, b.pendingReturns a + b.withdrawn a = paidTo a (payments b.credits))
    (h : BooksStep treasury b b') (a : Address) :
    b'.pendingReturns a + b'.withdrawn a = paidTo a (payments b'.credits) := by
  have ha := hacc a
  cases h with
  | register orderHash filler reg msgValue hfree hfresh hpaid hfits =>
      simp only [payments_append, paidTo_append, addTo]
      omega
  | settle orderHash filler o hused hopen hsplit =>
      simp only [payments_append, paidTo_append, addTo]
      omega
  | pay account hle =>
      by_cases h : a = account
      · subst h
        simp only [update_self]
        omega
      · simp only [update_of_ne h]
        exact ha
  | force amount hfits => exact ha

theorem booksInv_step {treasury : Address} {b b' : Books κ} (hinv : BooksInv treasury b)
    (h : BooksStep treasury b b') : BooksInv treasury b' :=
  ⟨slots_step hinv.slots h, accounts_step hinv.accounts h⟩

theorem booksInv_deployed (treasury admin : Address) :
    BooksInv treasury (books (deployed (κ := κ) admin)) :=
  ⟨fun _ _ => .unused, fun _ => rfl⟩

/-- The step lemma of the auction's books. -/
theorem booksInv_auctionStep {p : AuctionParams} {s s' : AuctionState κ}
    (hinv : BooksInv p.treasury (books s)) (h : AuctionStep p s s') :
    BooksInv p.treasury (books s') := by
  rcases step_books h with heq | hstep
  · rwa [heq]
  · exact booksInv_step hinv hstep

/-- The run lemma of the auction's books. -/
theorem booksInv_run {p : AuctionParams} {s s' : AuctionState κ}
    (hinv : BooksInv p.treasury (books s)) (h : AuctionRun p s s') :
    BooksInv p.treasury (books s') := by
  induction h with
  | refl => exact hinv
  | tail _ hstep ih => exact booksInv_auctionStep ih hstep

/-- The balance of the auction is a word in every reachable state. -/
theorem balance_lt_run {p : AuctionParams} {s s' : AuctionState κ}
    (hlt : s.balance < wordSize) (h : AuctionRun p s s') : s'.balance < wordSize := by
  induction h with
  | refl => exact hlt
  | @tail b c _ hstep ih =>
      rcases step_books hstep with heq | hbooks
      · rw [show c.balance = b.balance from congrArg Books.balance heq]
        exact ih
      · generalize hb : books b = x at hbooks
        generalize hc : books c = y at hbooks
        have hx : x.balance = b.balance := by rw [← hb]; rfl
        have hy : y.balance = c.balance := by rw [← hc]; rfl
        rw [← hy]
        cases hbooks with
        | register orderHash filler reg msgValue hfree hfresh hpaid hfits => exact hfits
        | settle orderHash filler o hused hopen hsplit => exact hx ▸ ih
        | pay account hle =>
            show x.balance - _ < wordSize
            omega
        | force amount hfits => exact hfits

/-! ## The auction as a custodian -/

/-- **The auction refines the custodian**: every run of its steps is a run
of custody steps of its books. -/
theorem custody_run {p : AuctionParams} {s s' : AuctionState κ}
    (hinv : BooksInv p.treasury (books s)) (h : AuctionRun p s s') :
    Relation.ReflTransGen Custody.Step (custody (books s)) (custody (books s')) := by
  induction h with
  | refl => exact .refl
  | @tail b c hrun hstep ih =>
      rcases step_books hstep with heq | hbooks
      · rwa [heq]
      · exact ih.tail (custody_step (booksInv_run hinv hrun).slots hbooks)

omit [DecidableEq κ] in
theorem balanced_deployed [Fintype κ] (admin : Address) :
    (custody (books (deployed (κ := κ) admin))).Balanced := by
  have hlocked : total id (custody (books (deployed (κ := κ) admin))).locked = 0 :=
    total_const_zero fun _ => rfl
  have howed : total id (custody (books (deployed (κ := κ) admin))).owed = 0 :=
    total_const_zero fun _ => rfl
  simp only [Custody.Balanced, hlocked, howed]
  rfl

/-- The custody law of every reachable state. -/
theorem balanced_reachable [Fintype κ] {p : AuctionParams} {admin : Address}
    {s : AuctionState κ} (h : AuctionRun p (deployed admin) s) : (custody (books s)).Balanced :=
  Custody.balanced_run (balanced_deployed admin)
    (custody_run (booksInv_deployed p.treasury admin) h)

/-! ## Solvency -/

/-- What the credits of one registration say: the three outcomes exclude
each other, and the one that happened credited the whole stake, once. -/
structure StakeAccounted (treasury : Address) (s : AuctionState κ) (orderHash : κ)
    (filler : Address) : Prop where
  not_filled_slashed : ¬((s.registrations orderHash filler).filled = true ∧
    (s.registrations orderHash filler).slashed = true)
  not_filled_released : ¬((s.registrations orderHash filler).filled = true ∧
    (s.registrations orderHash filler).released = true)
  not_slashed_released : ¬((s.registrations orderHash filler).slashed = true ∧
    (s.registrations orderHash filler).released = true)
  unresolved : (s.registrations orderHash filler).resolved = false →
    creditsOf s.credits orderHash filler = []
  /-- refund and forfeited part; a forfeit of 0 is not credited -/
  filled : (s.registrations orderHash filler).filled = true → ∃ refund forfeited,
    refund + forfeited = (s.registrations orderHash filler).stakeAmount ∧
    creditsOf s.credits orderHash filler =
      (if 0 < forfeited then [⟨treasury, forfeited, some (orderHash, filler)⟩] else [])
        ++ [⟨filler, refund, some (orderHash, filler)⟩]
  /-- a tenth for whoever called, the rest for the treasury -/
  slashed : (s.registrations orderHash filler).slashed = true → ∃ caller reward toTreasury,
    reward + toTreasury = (s.registrations orderHash filler).stakeAmount ∧
    creditsOf s.credits orderHash filler =
      [⟨treasury, toTreasury, some (orderHash, filler)⟩,
       ⟨caller, reward, some (orderHash, filler)⟩]
  released : (s.registrations orderHash filler).released = true →
    creditsOf s.credits orderHash filler =
      [⟨filler, (s.registrations orderHash filler).stakeAmount, some (orderHash, filler)⟩]
  /-- resolved either way, the credits add up to the stake -/
  whole : (s.registrations orderHash filler).resolved = true →
    amounts (payments (creditsOf s.credits orderHash filler))
      = (s.registrations orderHash filler).stakeAmount

theorem stakeAccounted_of_slotLaw {treasury : Address} {s : AuctionState κ} {orderHash : κ}
    {filler : Address}
    (h : SlotLaw treasury orderHash filler (s.registrations orderHash filler)
      (creditsOf s.credits orderHash filler)) :
    StakeAccounted treasury s orderHash filler := by
  generalize hreg : s.registrations orderHash filler = reg at h
  generalize hcs : creditsOf s.credits orderHash filler = cs at h
  cases h with
  | unused =>
      constructor <;> simp [hreg, hcs, Registration.empty, Registration.resolved]
  | live _ hfresh =>
      constructor <;>
        simp [hreg, hcs, Registration.resolved, hfresh.filled, hfresh.slashed, hfresh.released]
  | ended reg o hfresh hsplit =>
      have hwhole := o.amounts_credits hsplit treasury orderHash filler
      cases o with
      | filled refund forfeited =>
          constructor <;>
            simp only [hreg, hcs, Outcome.flag, hfresh.slashed, hfresh.released,
              Registration.resolved, Bool.true_or]
          · simp
          · simp
          · simp
          · simp
          · exact fun _ => ⟨refund, forfeited, hsplit, rfl⟩
          · simp
          · simp
          · exact fun _ => hwhole
      | slashed caller =>
          constructor <;>
            simp only [hreg, hcs, Outcome.flag, hfresh.filled, hfresh.released,
              Registration.resolved, Bool.true_or, Bool.or_true]
          · simp
          · simp
          · simp
          · simp
          · simp
          · exact fun _ => ⟨caller, _, _, by omega, rfl⟩
          · simp
          · exact fun _ => hwhole
      | released =>
          constructor <;>
            simp only [hreg, hcs, Outcome.flag, hfresh.filled, hfresh.slashed,
              Registration.resolved, Bool.or_true]
          · simp
          · simp
          · simp
          · simp
          · simp
          · simp
          · exact fun _ => by rw [Outcome.credits, hfresh.filler_eq]
          · exact fun _ => hwhole

/-- **Solvency.** After any interleaving of the entry points the auction
holds the stakes that have not ended, what it owes, and forced ETH, and
nothing else; what an account was credited is what it can still collect
and what it collected; and every registration's stake is accounted for. -/
theorem auction_solvent [Fintype κ] {p : AuctionParams} {admin : Address} {s : AuctionState κ}
    (h : AuctionRun p (deployed admin) s) :
    (s.balance = (∑ x : κ × Address, openStake (s.registrations x.1 x.2))
      + (∑ a, s.pendingReturns a) + s.forcedEth) ∧
    (∀ a, s.pendingReturns a + s.withdrawn a = paidTo a (payments s.credits)) ∧
    ∀ orderHash filler, StakeAccounted p.treasury s orderHash filler := by
  have hinv := booksInv_run (booksInv_deployed p.treasury admin) h
  refine ⟨?_, hinv.accounts, fun k f => stakeAccounted_of_slotLaw (hinv.slots k f)⟩
  have hbal := balanced_reachable h
  simpa only [Custody.Balanced, total, custody, books, id_eq] using hbal

/-- A stake of 200 paid for with 250, and slashed after the deadline. -/
theorem auction_solvent_slashed :
    ∃ s : AuctionState Unit, AuctionRun ⟨100, 101⟩ (deployed 1) s ∧
      ((s.registrations () 7).slashed = true ∧ s.pendingReturns 7 = 50 ∧
        s.pendingReturns 9 = 20) ∧
      s.balance = (∑ x : Unit × Address, openStake (s.registrations x.1 x.2))
        + (∑ a, s.pendingReturns a) + s.forcedEth := by
  have hreturns : Returns (do
      let s ← setReactor ⟨1, 1⟩ (deployed (κ := Unit) 1) 1 5
      let s ← register none ⟨1, 1⟩ s 5 250 ⟨7, (), 1000, 1000, 100, 0, 0⟩
      slash ⟨100, 101⟩ ⟨fun _ n => n, fun _ => false, fun _ => false⟩ ⟨151, 1⟩ s 9 () 7)
      (fun s => (s.registrations () 7).slashed = true ∧ s.pendingReturns 7 = 50 ∧
        s.pendingReturns 9 = 20) := by
    decide +kernel
  obtain ⟨s₃, hok, hs⟩ := hreturns
  simp only [bind_eq_ok] at hok
  obtain ⟨s₁, h₁, s₂, h₂, h₃⟩ := hok
  have hrun : AuctionRun ⟨100, 101⟩ (deployed 1) s₃ :=
    ((Relation.ReflTransGen.single (.setReactor _ _ _ h₁)).tail
      (.register _ _ _ _ _ (by decide) h₂)).tail (.slash _ _ _ _ _ h₃)
  exact ⟨s₃, hrun, hs, (auction_solvent hrun).1⟩

end FillAuction

end NeutronX
