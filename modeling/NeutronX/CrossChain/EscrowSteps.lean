import Mathlib.Algebra.BigOperators.Group.Finset.Basic
import Mathlib.Algebra.Order.BigOperators.Group.Finset
import NeutronX.CrossChain.EscrowSrc

/-!
# What one escrow can do

`CloneStep` is the transition relation of a single clone, with the guards
each step passed: the pieces of its functions are the steps, so whatever
is called between two pieces is an interleaving. `CloneLaw` is what every
interleaving keeps (`cloneLaw_step`): the tokens are sent once, to the
party the flags name and on its side of the expiry; the deposit follows
them once; and the ETH balance covers the deposit that is still due
together with everything credited.
-/

namespace NeutronX.CrossChain

open Evm Function

namespace EscrowSrc

variable {κ A : Type}

/-! ## One spec lemma for each piece -/

@[simp] theorem nonReentrant_eq_ok {c : EscrowSrc κ A} {u : Unit} :
    nonReentrant c = .ok u ↔ c.mutex = none := by
  simp [nonReentrant]

@[simp] theorem initialized_eq_ok {c : EscrowSrc κ A} {t : Terms κ A} :
    initialized c = .ok t ↔ c.terms = some t := by
  unfold initialized
  cases c.terms <;> simp

theorem receiveEth_eq_ok {c c' : EscrowSrc κ A} {value : Nat} :
    receiveEth c value = .ok c' ↔
      c.balance + value < wordSize ∧ { c with balance := c.balance + value } = c' := by
  simp only [receiveEth, bind_eq_ok, checkedAdd_eq_ok, pure_eq_ok]
  constructor
  · rintro ⟨_, ⟨hlt, rfl⟩, rfl⟩
    exact ⟨hlt, rfl⟩
  · rintro ⟨hlt, rfl⟩
    exact ⟨_, ⟨hlt, rfl⟩, rfl⟩

/-- The guards of `initialize`. -/
structure InitGuards [Zero A] (blk : Block) (c : EscrowSrc κ A) (msgValue held : Nat)
    (a : InitArgs κ A) : Prop where
  fits : c.balance + msgValue < wordSize
  fresh : c.terms = none
  swapper : a.swapper ≠ 0
  filler : a.filler ≠ 0
  amount : 0 < a.amount
  expiry : blk.timestamp < a.expiry
  hashlock : a.hashlock ≠ 0
  factory : a.factory ≠ 0
  deposit : 0 < msgValue
  funded : a.amount ≤ held

/-- What `initialize` leaves. -/
def opened (c : EscrowSrc κ A) (t : Terms κ A) : EscrowSrc κ A :=
  { c with terms := some t, balance := c.balance + t.safetyDeposit }

theorem initializeClone_eq_ok [Zero A] [DecidableEq A] {blk : Block} {c c' : EscrowSrc κ A}
    {msgValue held : Nat} {a : InitArgs κ A} :
    initializeClone blk c msgValue held a = .ok c' ↔
      InitGuards blk c msgValue held a ∧
        opened c { a with safetyDeposit := msgValue } = c' := by
  simp only [initializeClone, bind_eq_ok, receiveEth_eq_ok, require_eq_ok, pure_eq_ok,
    Option.isNone_iff_eq_none]
  constructor
  · rintro ⟨_, ⟨hfits, rfl⟩, _, hfresh, _, hswapper, _, hfiller, _, hamount, _, hexpiry, _,
      hhashlock, _, hfactory, _, hdeposit, _, hfunded, rfl⟩
    exact ⟨⟨hfits, hfresh, hswapper, hfiller, hamount, hexpiry, hhashlock, hfactory, hdeposit,
      hfunded⟩, rfl⟩
  · rintro ⟨hg, rfl⟩
    exact ⟨_, ⟨hg.fits, rfl⟩, (), hg.fresh, (), hg.swapper, (), hg.filler, (), hg.amount, (),
      hg.expiry, (), hg.hashlock, (), hg.factory, (), hg.deposit, (), hg.funded, rfl⟩

/-- A clone that can still be settled, with its terms. -/
structure Unsettled (c : EscrowSrc κ A) (t : Terms κ A) : Prop where
  terms : c.terms = some t
  claimed : c.claimed = false
  cancelled : c.cancelled = false

/-- What the first piece of `withdraw` leaves. -/
def withdrawing (blk : Block) (c : EscrowSrc κ A) (t : Terms κ A) (secret : Bytes32) :
    EscrowSrc κ A :=
  { c with
    mutex := some (.withdrawing secret)
    claimed := true
    payouts := ⟨t.filler, t.amount, blk.timestamp, some secret⟩ :: c.payouts }

/-- What the first piece of `cancel` leaves. -/
def cancelling (blk : Block) (c : EscrowSrc κ A) (t : Terms κ A) : EscrowSrc κ A :=
  { c with
    mutex := some .cancelling
    cancelled := true
    payouts := ⟨t.swapper, t.amount, blk.timestamp, none⟩ :: c.payouts }

theorem withdrawStart_eq_ok {keccak : Bytes32 → Bytes32} {blk : Block} {c c' : EscrowSrc κ A}
    {secret : Bytes32} {t : Terms κ A} :
    withdrawStart keccak blk c secret = .ok (c', t) ↔
      (c.mutex = none ∧ Unsettled c t ∧ blk.timestamp ≤ t.expiry ∧ keccak secret = t.hashlock) ∧
        withdrawing blk c t secret = c' := by
  simp only [withdrawStart, bind_eq_ok, nonReentrant_eq_ok, initialized_eq_ok, require_eq_ok,
    pure_eq_ok, Prod.mk.injEq]
  constructor
  · rintro ⟨_, hfree, t', hterms, _, ⟨hclaimed, hcancelled⟩, _, htime, _, hsecret, rfl, rfl⟩
    exact ⟨⟨hfree, ⟨hterms, hclaimed, hcancelled⟩, htime, hsecret⟩, rfl⟩
  · rintro ⟨⟨hfree, hopen, htime, hsecret⟩, rfl⟩
    exact ⟨(), hfree, t, hopen.terms, (), ⟨hopen.claimed, hopen.cancelled⟩, (), htime, (),
      hsecret, rfl, rfl⟩

theorem cancelStart_eq_ok {blk : Block} {c c' : EscrowSrc κ A} {t : Terms κ A} :
    cancelStart blk c = .ok (c', t) ↔
      (c.mutex = none ∧ Unsettled c t ∧ t.expiry < blk.timestamp) ∧ cancelling blk c t = c' := by
  simp only [cancelStart, bind_eq_ok, nonReentrant_eq_ok, initialized_eq_ok, require_eq_ok,
    pure_eq_ok, Prod.mk.injEq]
  constructor
  · rintro ⟨_, hfree, t', hterms, _, ⟨hclaimed, hcancelled⟩, _, htime, rfl, rfl⟩
    exact ⟨⟨hfree, ⟨hterms, hclaimed, hcancelled⟩, htime⟩, rfl⟩
  · rintro ⟨⟨hfree, hopen, htime⟩, rfl⟩
    exact ⟨(), hfree, t, hopen.terms, (), ⟨hopen.claimed, hopen.cancelled⟩, (), htime, rfl, rfl⟩

section Eth

variable [DecidableEq A]

/-- A push moves the amount out, or into the receiver's credit. -/
inductive EthPaid (c : EscrowSrc κ A) (to_ : A) (amt : Nat) : EscrowSrc κ A → Prop
  | pushed (hle : amt ≤ c.balance) : EthPaid c to_ amt { c with balance := c.balance - amt }
  | credited (hfits : c.pendingEth to_ + amt < wordSize) :
      EthPaid c to_ amt { c with
        pendingEth := update c.pendingEth to_ (c.pendingEth to_ + amt) }

theorem payEth_spec {c c' : EscrowSrc κ A} {to_ : A} {amt : Nat} {accepted : Bool}
    (h : payEth c to_ amt accepted = .ok c') : EthPaid c to_ amt c' := by
  unfold payEth at h
  split at h
  case isTrue hpush =>
      obtain rfl := pure_eq_ok.mp h
      exact .pushed hpush.2
  case isFalse =>
      simp only [bind_eq_ok, checkedAdd_eq_ok, pure_eq_ok] at h
      obtain ⟨_, ⟨hfits, rfl⟩, rfl⟩ := h
      exact .credited hfits

/-- Only a credit that does not fit a word fails. -/
theorem payEth_succeeds {c : EscrowSrc κ A} {to_ : A} {amt : Nat}
    (hfits : c.pendingEth to_ + amt < wordSize) (accepted : Bool) :
    ∃ c', payEth c to_ amt accepted = .ok c' := by
  unfold payEth
  split
  · exact ⟨_, rfl⟩
  · exact bind_succeeds (checkedAdd_eq_ok.mpr ⟨hfits, rfl⟩) ⟨_, rfl⟩

/-- A payment of the deposit touches the ETH and the stage of a clone. -/
structure Kept (c : EscrowSrc κ A) (next : Stage) (c' : EscrowSrc κ A) : Prop where
  fill : c'.fill = c.fill
  terms : c'.terms = c.terms
  claimed : c'.claimed = c.claimed
  cancelled : c'.cancelled = c.cancelled
  payouts : c'.payouts = c.payouts
  mutex : c'.mutex = some next

theorem payDeposit_kept {c c' : EscrowSrc κ A} {next : Stage} {to_ : A} {deposit : Nat}
    {accepted : Bool} (h : payDeposit c next to_ deposit accepted = .ok c') :
    Kept c next c' := by
  simp only [payDeposit] at h
  split at h
  · obtain rfl := pure_eq_ok.mp h
    exact ⟨rfl, rfl, rfl, rfl, rfl, rfl⟩
  · simp only [bind_eq_ok, pure_eq_ok] at h
    obtain ⟨c₁, hpay, rfl⟩ := h
    cases payEth_spec hpay <;> exact ⟨rfl, rfl, rfl, rfl, rfl, rfl⟩

theorem payDeposit_spec {c c' : EscrowSrc κ A} {next : Stage} {to_ : A} {deposit : Nat}
    {accepted : Bool} (hpos : 0 < deposit)
    (h : payDeposit c next to_ deposit accepted = .ok c') :
    ∃ c₁, EthPaid c to_ deposit c₁ ∧
      c' = { c₁ with mutex := some next, deposits := (to_, deposit) :: c₁.deposits } := by
  simp only [payDeposit, hpos.ne', if_false, bind_eq_ok, pure_eq_ok] at h
  obtain ⟨c₁, hpay, rfl⟩ := h
  exact ⟨c₁, payEth_spec hpay, rfl⟩

theorem payDeposit_succeeds {c : EscrowSrc κ A} {next : Stage} {to_ : A} {deposit : Nat}
    (hfits : c.pendingEth to_ + deposit < wordSize) (accepted : Bool) :
    ∃ c', payDeposit c next to_ deposit accepted = .ok c' := by
  unfold payDeposit
  split
  · exact ⟨_, rfl⟩
  · obtain ⟨c₁, hpay⟩ := payEth_succeeds hfits accepted
    exact bind_succeeds hpay ⟨_, rfl⟩

end Eth

/-- What the push of `claimEth` leaves. -/
def claiming [DecidableEq A] (c : EscrowSrc κ A) (msgSender : A) : EscrowSrc κ A :=
  { c with
    mutex := some .claimingEth
    pendingEth := update c.pendingEth msgSender 0
    balance := c.balance - c.pendingEth msgSender }

theorem claimStart_spec [Zero A] [DecidableEq A] {c c' : EscrowSrc κ A} {msgSender to_ : A}
    (h : claimStart c msgSender to_ = .ok c') :
    c.mutex = none ∧ 0 < c.pendingEth msgSender ∧ c.pendingEth msgSender ≤ c.balance ∧
      c' = claiming c msgSender := by
  simp only [claimStart, bind_eq_ok, nonReentrant_eq_ok, require_eq_ok, pure_eq_ok] at h
  obtain ⟨_, hfree, _, -, _, hpos, _, hle, rfl⟩ := h
  exact ⟨hfree, hpos, hle, rfl⟩

theorem claimReturn_spec {c c' : EscrowSrc κ A} {accepted : Bool}
    (h : claimReturn c accepted = .ok c') : c' = release c := by
  simp only [claimReturn, bind_eq_ok, pure_eq_ok] at h
  obtain ⟨_, -, rfl⟩ := h
  rfl

/-! ## The transition relation of a clone -/

/-- The stage after the deposit is paid, and who it is paid to. -/
inductive PaysTo (t : Terms κ A) : Stage → Stage → A → Prop
  | withdraw (secret : Bytes32) : PaysTo t (.withdrawing secret) (.withdrawn secret) t.filler
  | cancel : PaysTo t .cancelling .refunded t.swapper

/-- The stages after which a call has nothing left to do. -/
inductive Ends : Stage → Prop
  | withdrawn (secret : Bytes32) : Ends (.withdrawn secret)
  | refunded : Ends .refunded
  | claimingEth : Ends .claimingEth

section Steps

variable [DecidableEq A]

/-- A step of the code at an address, or ETH that arrives there. -/
inductive CloneStep (keccak : Bytes32 → Bytes32) (blk : Block) :
    EscrowSrc κ A → EscrowSrc κ A → Prop
  | start (c) (t : Terms κ A) (hcode : c.fill.isSome = true) (hfresh : c.terms = none)
      (hfits : c.balance + t.safetyDeposit < wordSize) (hdeposit : 0 < t.safetyDeposit)
      (hamount : 0 < t.amount) (hexpiry : blk.timestamp < t.expiry) :
      CloneStep keccak blk c (opened c t)
  | withdrawStart (c) (t : Terms κ A) (secret : Bytes32) (hfree : c.mutex = none)
      (hopen : Unsettled c t) (htime : blk.timestamp ≤ t.expiry)
      (hsecret : keccak secret = t.hashlock) :
      CloneStep keccak blk c (withdrawing blk c t secret)
  | cancelStart (c) (t : Terms κ A) (hfree : c.mutex = none) (hopen : Unsettled c t)
      (htime : t.expiry < blk.timestamp) : CloneStep keccak blk c (cancelling blk c t)
  | pay (c c') (t : Terms κ A) (stage next : Stage) (payee : A) (accepted : Bool)
      (hstage : c.mutex = some stage) (hterms : c.terms = some t)
      (hpays : PaysTo t stage next payee)
      (h : payDeposit c next payee t.safetyDeposit accepted = .ok c') :
      CloneStep keccak blk c c'
  | release (c) (stage : Stage) (hstage : c.mutex = some stage) (hends : Ends stage) :
      CloneStep keccak blk c (release c)
  | claimStart (c) (msgSender : A) (hfree : c.mutex = none)
      (hpos : 0 < c.pendingEth msgSender) (hle : c.pendingEth msgSender ≤ c.balance) :
      CloneStep keccak blk c (claiming c msgSender)
  | receive (c) (value : Nat) (hfits : c.balance + value < wordSize) :
      CloneStep keccak blk c { c with balance := c.balance + value }

end Steps

/-! ## The law of a clone -/

/-- No settlement is under way. -/
def Idle (c : EscrowSrc κ A) : Prop := c.mutex = none ∨ c.mutex = some .claimingEth

/-- The deposit went to `payee`, or is about to: it still waits at stage
`waiting`, and a call that has just paid it stands at `paid`. -/
def DepositFollows (c : EscrowSrc κ A) (waiting paid : Stage) (payee : A) (deposit : Nat) :
    Prop :=
  (c.mutex = some waiting ∧ c.deposits = []) ∨
    ((Idle c ∨ c.mutex = some paid) ∧ c.deposits = [(payee, deposit)])

/-- How a clone with terms `t` stands: untouched, or settled to one party
on that party's side of the expiry. -/
inductive Standing (keccak : Bytes32 → Bytes32) (t : Terms κ A) (c : EscrowSrc κ A) : Prop
  | unsettled (hclaimed : c.claimed = false) (hcancelled : c.cancelled = false)
      (hpayouts : c.payouts = []) (hdeposits : c.deposits = []) (hidle : Idle c)
  | withdrawn (time : Nat) (secret : Bytes32) (hclaimed : c.claimed = true)
      (hcancelled : c.cancelled = false) (htime : time ≤ t.expiry)
      (hsecret : keccak secret = t.hashlock)
      (hpayouts : c.payouts = [⟨t.filler, t.amount, time, some secret⟩])
      (hdeposit : DepositFollows c (.withdrawing secret) (.withdrawn secret) t.filler
        t.safetyDeposit)
  | cancelled (time : Nat) (hclaimed : c.claimed = false) (hcancelled : c.cancelled = true)
      (htime : t.expiry < time) (hpayouts : c.payouts = [⟨t.swapper, t.amount, time, none⟩])
      (hdeposit : DepositFollows c .cancelling .refunded t.swapper t.safetyDeposit)

/-- The deposit a clone still owes to one of the parties. -/
def depositDue (c : EscrowSrc κ A) : Nat :=
  match c.terms with
  | none => 0
  | some t => if c.deposits.isEmpty then t.safetyDeposit else 0

/-- The address as it is before `initialize`, but for its code and balance. -/
structure Untouched (c : EscrowSrc κ A) : Prop where
  mutex : c.mutex = none
  claimed : c.claimed = false
  cancelled : c.cancelled = false
  payouts : c.payouts = []
  deposits : c.deposits = []
  pendingEth : c.pendingEth = fun _ => 0

structure CloneLaw (keccak : Bytes32 → Bytes32) (c : EscrowSrc κ A) : Prop where
  untouched : c.terms = none → Untouched c
  code : ∀ t, c.terms = some t → c.fill.isSome = true
  deposit : ∀ t, c.terms = some t → 0 < t.safetyDeposit
  amount : ∀ t, c.terms = some t → 0 < t.amount
  standing : ∀ t, c.terms = some t → Standing keccak t c
  /-- the balance covers the deposit due and the credits of any accounts -/
  covered : ∀ owed : Finset A, ∑ a ∈ owed, c.pendingEth a + depositDue c ≤ c.balance
  word : c.balance < wordSize

theorem cloneLaw_vacant (keccak : Bytes32 → Bytes32) :
    CloneLaw keccak (vacant : EscrowSrc κ A) where
  untouched := fun _ => ⟨rfl, rfl, rfl, rfl, rfl, rfl⟩
  code := fun t h => nomatch h
  deposit := fun t h => nomatch h
  amount := fun t h => nomatch h
  standing := fun t h => nomatch h
  covered := by simp [vacant, depositDue]
  word := by simp [vacant, wordSize]

namespace CloneLaw

variable {keccak : Bytes32 → Bytes32} {c : EscrowSrc κ A}

/-- One credit alone is covered. -/
theorem pendingEth_le (h : CloneLaw keccak c) (a : A) :
    c.pendingEth a + depositDue c ≤ c.balance := by
  simpa using h.covered {a}

/-- A busy clone has terms. -/
theorem terms_of_mutex (h : CloneLaw keccak c) {stage : Stage} (hstage : c.mutex = some stage) :
    ∃ t, c.terms = some t := by
  cases hterms : c.terms with
  | none => simp [(h.untouched hterms).mutex] at hstage
  | some t => exact ⟨t, rfl⟩

end CloneLaw

section LawSteps

variable [DecidableEq A] {keccak : Bytes32 → Bytes32} {blk : Block}

/-- A sum of credits after the one of `a` changed to `n`. -/
theorem sum_update_add_le (f : A → Nat) (a : A) (n : Nat) (owed : Finset A) :
    ∑ b ∈ owed, update f a n b + f a ≤ ∑ b ∈ insert a owed, f b + n := by
  have hrest : ∑ b ∈ owed.erase a, update f a n b = ∑ b ∈ owed.erase a, f b :=
    Finset.sum_congr rfl fun b hb => by rw [update_of_ne (Finset.ne_of_mem_erase hb)]
  have hle : ∑ b ∈ owed, update f a n b ≤ ∑ b ∈ insert a owed, update f a n b :=
    Finset.sum_le_sum_of_subset (Finset.subset_insert a owed)
  have hall : ∀ g : A → Nat, ∑ b ∈ insert a owed, g b = ∑ b ∈ owed.erase a, g b + g a :=
    fun g => by
      rw [← Finset.sum_erase_add _ _ (Finset.mem_insert_self a owed),
        Finset.erase_insert_eq_erase]
  rw [hall, hrest, update_self] at hle
  rw [hall]
  omega

variable {c c' : EscrowSrc κ A}

/-- A payment of the deposit keeps the ETH covered, and takes nothing from
the books but what was due. -/
theorem covered_pay {t : Terms κ A} {payee : A} (hlaw : CloneLaw keccak c)
    (hterms : c.terms = some t) (hdeposits : c.deposits = [])
    (hpaid : EthPaid c payee t.safetyDeposit c') (owed : Finset A) :
    ∑ a ∈ owed, c'.pendingEth a ≤ c'.balance ∧ c'.balance ≤ c.balance := by
  have hdue : depositDue c = t.safetyDeposit := by simp [depositDue, hterms, hdeposits]
  cases hpaid with
  | pushed hle =>
      have hcovered := hlaw.covered owed
      refine ⟨?_, Nat.sub_le ..⟩
      dsimp only
      omega
  | credited hfits =>
      have hcovered := hlaw.covered (insert payee owed)
      have hsum := sum_update_add_le c.pendingEth payee
        (c.pendingEth payee + t.safetyDeposit) owed
      refine ⟨?_, Nat.le_refl _⟩
      dsimp only
      omega

omit [DecidableEq A] in
/-- The deposit that a stage waits with is not paid yet. -/
theorem standing_pay {t : Terms κ A} {stage next : Stage} {payee : A}
    (hstanding : Standing keccak t c) (hstage : c.mutex = some stage)
    (hpays : PaysTo t stage next payee) : c.deposits = [] := by
  cases hpays with
  | withdraw secret =>
      cases hstanding with
      | unsettled _ _ _ hdeposits _ => exact hdeposits
      | withdrawn _ _ _ _ _ _ _ hdeposit =>
          rcases hdeposit with ⟨-, h⟩ | ⟨hidle, -⟩
          · exact h
          · simp [Idle, hstage] at hidle
      | cancelled _ _ _ _ _ hdeposit => simp [DepositFollows, Idle, hstage] at hdeposit
  | cancel =>
      cases hstanding with
      | unsettled _ _ _ hdeposits _ => exact hdeposits
      | withdrawn _ _ _ _ _ _ _ hdeposit => simp [DepositFollows, Idle, hstage] at hdeposit
      | cancelled _ _ _ _ _ hdeposit =>
          rcases hdeposit with ⟨-, h⟩ | ⟨hidle, -⟩
          · exact h
          · simp [Idle, hstage] at hidle

/-- The code and the fill of a clone are there for good. -/
theorem CloneStep.fill (h : CloneStep keccak blk c c') : c'.fill = c.fill := by
  cases h with
  | pay _ t stage next payee accepted hstage hterms hpays h => exact (payDeposit_kept h).fill
  | start | withdrawStart | cancelStart | release | claimStart | receive => rfl

/-- Terms are written once. -/
theorem CloneStep.terms {t : Terms κ A} (h : CloneStep keccak blk c c')
    (hterms : c.terms = some t) : c'.terms = some t := by
  cases h with
  | withdrawStart | cancelStart | release | claimStart | receive => exact hterms
  | start t' _ hfresh _ _ _ _ => exact absurd (hfresh.symm.trans hterms) (by simp)
  | pay _ t' stage next payee accepted hstage hterms' hpays h =>
      exact (payDeposit_kept h).terms.trans hterms

theorem standing_step {t : Terms κ A} (hlaw : CloneLaw keccak c) (hterms : c.terms = some t)
    (h : CloneStep keccak blk c c') : Standing keccak t c' := by
  have hstanding := hlaw.standing t hterms
  have same : ∀ {t' : Terms κ A}, c.terms = some t' → t' = t := fun ht' =>
    Option.some.inj (ht'.symm.trans hterms)
  cases h with
  | receive =>
      cases hstanding with
      | unsettled h₁ h₂ h₃ h₄ h₅ => exact .unsettled h₁ h₂ h₃ h₄ h₅
      | withdrawn time secret h₁ h₂ h₃ h₄ h₅ h₆ => exact .withdrawn time secret h₁ h₂ h₃ h₄ h₅ h₆
      | cancelled time h₁ h₂ h₃ h₄ h₅ => exact .cancelled time h₁ h₂ h₃ h₄ h₅
  | start t' _ hfresh _ _ _ _ => exact absurd (hfresh.symm.trans hterms) (by simp)
  | withdrawStart t' secret hfree hopen htime hsecret =>
      obtain rfl := same hopen.terms
      cases hstanding with
      | unsettled _ hcancelled hpayouts hdeposits _ =>
          exact .withdrawn blk.timestamp secret rfl hcancelled htime hsecret
            (by simp [withdrawing, hpayouts]) (.inl ⟨rfl, hdeposits⟩)
      | withdrawn _ _ hclaimed => simp [hopen.claimed] at hclaimed
      | cancelled _ _ hcancelled => simp [hopen.cancelled] at hcancelled
  | cancelStart t' hfree hopen htime =>
      obtain rfl := same hopen.terms
      cases hstanding with
      | unsettled hclaimed _ hpayouts hdeposits _ =>
          exact .cancelled blk.timestamp hclaimed rfl htime (by simp [cancelling, hpayouts])
            (.inl ⟨rfl, hdeposits⟩)
      | withdrawn _ _ hclaimed => simp [hopen.claimed] at hclaimed
      | cancelled _ _ hcancelled => simp [hopen.cancelled] at hcancelled
  | pay _ t' stage next payee accepted hstage hterms' hpays h =>
      obtain rfl := same hterms'
      have hnone := standing_pay hstanding hstage hpays
      obtain ⟨c₁, hpaid, rfl⟩ := payDeposit_spec (hlaw.deposit _ hterms) h
      have hkept : c₁.claimed = c.claimed ∧ c₁.cancelled = c.cancelled ∧
          c₁.payouts = c.payouts ∧ c₁.deposits = [] := by
        cases hpaid <;> exact ⟨rfl, rfl, rfl, hnone⟩
      obtain ⟨h₁, h₂, h₃, h₄⟩ := hkept
      cases hpays with
      | withdraw secret =>
          cases hstanding with
          | unsettled _ _ _ _ hidle => simp [Idle, hstage] at hidle
          | withdrawn time secret' hclaimed hcancelled htime hsecret hpayouts hdeposit =>
              rcases hdeposit with ⟨hwait, -⟩ | ⟨hidle, -⟩
              · obtain rfl : secret = secret' := by simpa [hstage] using hwait
                exact .withdrawn time secret (h₁.trans hclaimed) (h₂.trans hcancelled) htime
                  hsecret (h₃.trans hpayouts) (.inr ⟨.inr rfl, by simp [h₄]⟩)
              · simp [Idle, hstage] at hidle
          | cancelled _ _ _ _ _ hdeposit => simp [DepositFollows, Idle, hstage] at hdeposit
      | cancel =>
          cases hstanding with
          | unsettled _ _ _ _ hidle => simp [Idle, hstage] at hidle
          | withdrawn _ _ _ _ _ _ _ hdeposit => simp [DepositFollows, Idle, hstage] at hdeposit
          | cancelled time hclaimed hcancelled htime hpayouts hdeposit =>
              exact .cancelled time (h₁.trans hclaimed) (h₂.trans hcancelled) htime
                (h₃.trans hpayouts) (.inr ⟨.inr rfl, by simp [h₄]⟩)
  | release stage hstage hends =>
      cases hstanding with
      | unsettled h₁ h₂ h₃ h₄ _ => exact .unsettled h₁ h₂ h₃ h₄ (.inl rfl)
      | withdrawn time secret h₁ h₂ h₃ h₄ h₅ hdeposit =>
          rcases hdeposit with ⟨hwait, -⟩ | ⟨-, hpaid⟩
          · cases hends <;> simp [hstage] at hwait
          · exact .withdrawn time secret h₁ h₂ h₃ h₄ h₅ (.inr ⟨.inl (.inl rfl), hpaid⟩)
      | cancelled time h₁ h₂ h₃ h₄ hdeposit =>
          rcases hdeposit with ⟨hwait, -⟩ | ⟨-, hpaid⟩
          · cases hends <;> simp [hstage] at hwait
          · exact .cancelled time h₁ h₂ h₃ h₄ (.inr ⟨.inl (.inl rfl), hpaid⟩)
  | claimStart msgSender hfree _ _ =>
      cases hstanding with
      | unsettled h₁ h₂ h₃ h₄ _ => exact .unsettled h₁ h₂ h₃ h₄ (.inr rfl)
      | withdrawn time secret h₁ h₂ h₃ h₄ h₅ hdeposit =>
          rcases hdeposit with ⟨hwait, -⟩ | ⟨-, hpaid⟩
          · simp [hfree] at hwait
          · exact .withdrawn time secret h₁ h₂ h₃ h₄ h₅ (.inr ⟨.inl (.inr rfl), hpaid⟩)
      | cancelled time h₁ h₂ h₃ h₄ hdeposit =>
          rcases hdeposit with ⟨hwait, -⟩ | ⟨-, hpaid⟩
          · simp [hfree] at hwait
          · exact .cancelled time h₁ h₂ h₃ h₄ (.inr ⟨.inl (.inr rfl), hpaid⟩)

/-- Only ETH arrives at an address without terms. -/
theorem untouched_step (hlaw : CloneLaw keccak c) (h : CloneStep keccak blk c c')
    (hterms : c'.terms = none) : Untouched c' := by
  have hnone : c.terms = none := by
    cases hc : c.terms with
    | none => rfl
    | some t => exact absurd ((h.terms hc).symm.trans hterms) (by simp)
  have hfresh := hlaw.untouched hnone
  cases h with
  | receive =>
      exact ⟨hfresh.mutex, hfresh.claimed, hfresh.cancelled, hfresh.payouts, hfresh.deposits,
        hfresh.pendingEth⟩
  | start => exact absurd hterms (by simp [opened])
  | withdrawStart t _ _ hopen => exact absurd (hopen.terms.symm.trans hnone) (by simp)
  | cancelStart t _ hopen => exact absurd (hopen.terms.symm.trans hnone) (by simp)
  | pay _ t _ _ _ _ hstage => exact absurd (hstage.symm.trans hfresh.mutex) (by simp)
  | release _ hstage => exact absurd (hstage.symm.trans hfresh.mutex) (by simp)
  | claimStart msgSender _ hpos => simp [hfresh.pendingEth] at hpos

/-- Every step keeps the ETH of a clone covered. -/
theorem covered_step (hlaw : CloneLaw keccak c) (h : CloneStep keccak blk c c') :
    (∀ owed : Finset A, ∑ a ∈ owed, c'.pendingEth a + depositDue c' ≤ c'.balance) ∧
      c'.balance < wordSize := by
  have hcovered := hlaw.covered
  have hword := hlaw.word
  cases h with
  | withdrawStart | cancelStart | release => exact ⟨hcovered, hword⟩
  | start t _ hfresh hfits hdeposit _ _ =>
      have hnone := hlaw.untouched hfresh
      refine ⟨fun owed => ?_, hfits⟩
      simp [opened, depositDue, hnone.pendingEth, hnone.deposits]
  | pay _ t stage next payee accepted hstage hterms hpays h =>
      obtain ⟨c₁, hpaid, rfl⟩ := payDeposit_spec (hlaw.deposit t hterms) h
      have hdeposits := standing_pay (hlaw.standing t hterms) hstage hpays
      have hpay := covered_pay hlaw hterms hdeposits hpaid
      have hdue : depositDue { c₁ with
          mutex := some next, deposits := (payee, t.safetyDeposit) :: c₁.deposits } = 0 := by
        unfold depositDue
        dsimp only
        split <;> simp
      refine ⟨fun owed => ?_, Nat.lt_of_le_of_lt (hpay ∅).2 hword⟩
      rw [hdue]
      exact (hpay owed).1
  | claimStart msgSender hfree hpos hle =>
      refine ⟨fun owed => ?_, Nat.lt_of_le_of_lt (Nat.sub_le ..) hword⟩
      have hsum := sum_update_add_le c.pendingEth msgSender 0 owed
      have hall := hcovered (insert msgSender owed)
      change ∑ a ∈ owed, update c.pendingEth msgSender 0 a + depositDue c
        ≤ c.balance - c.pendingEth msgSender
      omega
  | receive value hfits =>
      refine ⟨fun owed => ?_, hfits⟩
      have hall := hcovered owed
      change ∑ a ∈ owed, c.pendingEth a + depositDue c ≤ c.balance + value
      omega

omit [DecidableEq A] in
/-- So does the deployment of its code. -/
theorem cloneLaw_deploy (hlaw : CloneLaw keccak c) (hvacant : c.fill = none) (fill : Fill κ A) :
    CloneLaw keccak { c with fill := some fill } := by
  have hnone : c.terms = none := by
    cases hterms : c.terms with
    | none => rfl
    | some t => exact absurd (hlaw.code t hterms) (by simp [hvacant])
  have hfresh := hlaw.untouched hnone
  have absent : ∀ {t : Terms κ A} {p : Prop}, c.terms = some t → p := fun ht =>
    absurd (hnone.symm.trans ht) (by simp)
  exact ⟨fun _ => ⟨hfresh.mutex, hfresh.claimed, hfresh.cancelled, hfresh.payouts,
    hfresh.deposits, hfresh.pendingEth⟩, fun _ => absent, fun _ => absent, fun _ => absent,
    fun _ => absent, hlaw.covered, hlaw.word⟩

/-- **Every step of a clone keeps its law.** -/
theorem cloneLaw_step (hlaw : CloneLaw keccak c) (h : CloneStep keccak blk c c') :
    CloneLaw keccak c' := by
  have hcases : ∀ t, c'.terms = some t →
      (c.terms = some t ∨ (c.terms = none ∧ 0 < t.safetyDeposit ∧ 0 < t.amount ∧
        c.fill.isSome = true ∧ c' = opened c t)) := by
    intro t ht
    cases hc : c.terms with
    | some t' =>
        obtain rfl := Option.some.inj ((h.terms hc).symm.trans ht)
        exact .inl rfl
    | none =>
        -- the terms appeared in this step, so it was `initialize`
        refine .inr ⟨rfl, ?_⟩
        cases h with
        | start t' hcode _ _ hdeposit hamount _ =>
            obtain rfl : t' = t := by simpa [opened] using ht
            exact ⟨hdeposit, hamount, hcode, rfl⟩
        | pay _ t' _ _ _ _ _ hterms => exact absurd (hterms.symm.trans hc) (by simp)
        | withdrawStart | cancelStart | release | claimStart | receive =>
            exact absurd (ht.symm.trans hc) (by simp)
  refine ⟨untouched_step hlaw h, fun t ht => ?_, fun t ht => ?_, fun t ht => ?_,
    fun t ht => ?_, (covered_step hlaw h).1, (covered_step hlaw h).2⟩
  · rw [h.fill]
    rcases hcases t ht with hold | ⟨-, -, -, hsome, -⟩
    · exact hlaw.code t hold
    · exact hsome
  · rcases hcases t ht with hold | ⟨-, hpos, -⟩
    · exact hlaw.deposit t hold
    · exact hpos
  · rcases hcases t ht with hold | ⟨-, -, hpos, -⟩
    · exact hlaw.amount t hold
    · exact hpos
  · rcases hcases t ht with hold | ⟨hnone, -, -, -, rfl⟩
    · exact standing_step hlaw hold h
    · have hfresh := hlaw.untouched hnone
      exact .unsettled hfresh.claimed hfresh.cancelled hfresh.payouts hfresh.deposits
        (.inl hfresh.mutex)

end LawSteps

end EscrowSrc

end NeutronX.CrossChain
