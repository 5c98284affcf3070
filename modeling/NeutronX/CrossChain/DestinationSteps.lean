import NeutronX.CrossChain.EscrowDst

/-!
# What the destination chain can do

The same layers as on the source chain, on fewer entry points: the steps
of one escrow and the law they keep (`DstLaw`), the segments of the chain,
and runs as sequences of segments. `P` holds of the labels of a run, so
that an assumption on them, on what is done to tokens or on who knows a
preimage, reaches the segments.
-/

namespace NeutronX.CrossChain

open Evm Function

/-! ## One escrow -/

namespace EscrowDst

variable {A : Type}

@[simp] theorem nonReentrant_eq_ok {e : EscrowDst A} {u : Unit} :
    nonReentrant e = .ok u ↔ e.mutex = false := by
  simp [nonReentrant]

@[simp] theorem initialized_eq_ok {e : EscrowDst A} {t : DstTerms A} :
    initialized e = .ok t ↔ e.terms = some t := by
  unfold initialized
  cases e.terms <;> simp

/-- An escrow that can still be settled, with its terms. -/
structure Unsettled (e : EscrowDst A) (t : DstTerms A) : Prop where
  terms : e.terms = some t
  claimed : e.claimed = false
  refunded : e.refunded = false

/-- What the first piece of `claim` leaves. -/
def claiming (blk : Block) (e : EscrowDst A) (t : DstTerms A) (secret : Bytes32) :
    EscrowDst A :=
  { e with
    mutex := true
    claimed := true
    payouts := ⟨t.recipient, t.amount, blk.timestamp, some secret⟩ :: e.payouts }

/-- What the first piece of `refund` leaves. -/
def refunding (blk : Block) (e : EscrowDst A) (t : DstTerms A) : EscrowDst A :=
  { e with
    mutex := true
    refunded := true
    payouts := ⟨t.filler, t.amount, blk.timestamp, none⟩ :: e.payouts }

theorem claimStart_eq_ok {keccak : Bytes32 → Bytes32} {blk : Block} {e e' : EscrowDst A}
    {secret : Bytes32} {t : DstTerms A} :
    claimStart keccak blk e secret = .ok (e', t) ↔
      (e.mutex = false ∧ Unsettled e t ∧ blk.timestamp ≤ t.expiry ∧ keccak secret = t.hashlock) ∧
        claiming blk e t secret = e' := by
  simp only [claimStart, bind_eq_ok, nonReentrant_eq_ok, initialized_eq_ok, require_eq_ok,
    pure_eq_ok, Prod.mk.injEq]
  constructor
  · rintro ⟨_, hfree, t', hterms, _, ⟨hclaimed, hrefunded⟩, _, htime, _, hsecret, rfl, rfl⟩
    exact ⟨⟨hfree, ⟨hterms, hclaimed, hrefunded⟩, htime, hsecret⟩, rfl⟩
  · rintro ⟨⟨hfree, hopen, htime, hsecret⟩, rfl⟩
    exact ⟨(), hfree, t, hopen.terms, (), ⟨hopen.claimed, hopen.refunded⟩, (), htime, (),
      hsecret, rfl, rfl⟩

theorem refundStart_eq_ok [DecidableEq A] {blk : Block} {e e' : EscrowDst A} {msgSender : A}
    {t : DstTerms A} :
    refundStart blk e msgSender = .ok (e', t) ↔
      (e.mutex = false ∧ Unsettled e t ∧ t.expiry < blk.timestamp ∧ msgSender = t.filler) ∧
        refunding blk e t = e' := by
  simp only [refundStart, bind_eq_ok, nonReentrant_eq_ok, initialized_eq_ok, require_eq_ok,
    pure_eq_ok, Prod.mk.injEq]
  constructor
  · rintro ⟨_, hfree, t', hterms, _, ⟨hclaimed, hrefunded⟩, _, htime, _, hsender, rfl, rfl⟩
    exact ⟨⟨hfree, ⟨hterms, hclaimed, hrefunded⟩, htime, hsender⟩, rfl⟩
  · rintro ⟨⟨hfree, hopen, htime, hsender⟩, rfl⟩
    exact ⟨(), hfree, t, hopen.terms, (), ⟨hopen.claimed, hopen.refunded⟩, (), htime, (),
      hsender, rfl, rfl⟩

inductive Step (keccak : Bytes32 → Bytes32) (blk : Block) : EscrowDst A → EscrowDst A → Prop
  | start (e) (t : DstTerms A) (hvacant : e.terms = none) (hamount : 0 < t.amount)
      (hexpiry : blk.timestamp < t.expiry) : Step keccak blk e { e with terms := some t }
  | claimStart (e) (t : DstTerms A) (secret : Bytes32) (hfree : e.mutex = false)
      (hopen : Unsettled e t) (htime : blk.timestamp ≤ t.expiry)
      (hsecret : keccak secret = t.hashlock) : Step keccak blk e (claiming blk e t secret)
  | refundStart (e) (t : DstTerms A) (hfree : e.mutex = false) (hopen : Unsettled e t)
      (htime : t.expiry < blk.timestamp) : Step keccak blk e (refunding blk e t)
  | release (e) : Step keccak blk e (release e)

/-- How an escrow with terms `t` stands: untouched, or settled to one party
on that party's side of the expiry. -/
inductive Standing (keccak : Bytes32 → Bytes32) (t : DstTerms A) (e : EscrowDst A) : Prop
  | unsettled (hclaimed : e.claimed = false) (hrefunded : e.refunded = false)
      (hpayouts : e.payouts = [])
  | claimed (time : Nat) (secret : Bytes32) (hclaimed : e.claimed = true)
      (hrefunded : e.refunded = false) (htime : time ≤ t.expiry)
      (hsecret : keccak secret = t.hashlock)
      (hpayouts : e.payouts = [⟨t.recipient, t.amount, time, some secret⟩])
  | refunded (time : Nat) (hclaimed : e.claimed = false) (hrefunded : e.refunded = true)
      (htime : t.expiry < time) (hpayouts : e.payouts = [⟨t.filler, t.amount, time, none⟩])

structure DstLaw (keccak : Bytes32 → Bytes32) (e : EscrowDst A) : Prop where
  untouched : e.terms = none → e.claimed = false ∧ e.refunded = false ∧ e.payouts = []
  standing : ∀ t, e.terms = some t → Standing keccak t e

theorem dstLaw_vacant (keccak : Bytes32 → Bytes32) : DstLaw keccak (vacant : EscrowDst A) :=
  ⟨fun _ => ⟨rfl, rfl, rfl⟩, fun _ h => nomatch h⟩

variable {keccak : Bytes32 → Bytes32} {blk : Block} {e e' : EscrowDst A}

/-- An escrow is not both claimed and refunded. -/
theorem DstLaw.not_refunded (h : DstLaw keccak e) (hclaimed : e.claimed = true) :
    e.refunded = false := by
  cases hterms : e.terms with
  | none => exact (h.untouched hterms).2.1
  | some t =>
      cases h.standing t hterms with
      | unsettled _ hrefunded | claimed _ _ _ hrefunded => exact hrefunded
      | refunded _ hopen => exact absurd (hclaimed.symm.trans hopen) (by simp)

theorem Step.terms {t : DstTerms A} (h : Step keccak blk e e') (hterms : e.terms = some t) :
    e'.terms = some t := by
  cases h with
  | start t' hvacant => exact absurd (hvacant.symm.trans hterms) (by simp)
  | claimStart | refundStart | release => exact hterms

theorem Step.claimed (h : Step keccak blk e e') (hclaimed : e.claimed = true) :
    e'.claimed = true := by
  cases h with
  | start | refundStart | release => exact hclaimed
  | claimStart => rfl

/-- A refund comes after the expiry. -/
theorem Step.refund_late (h : Step keccak blk e e')
    (hbefore : e.refunded = true → ∃ t, e.terms = some t ∧ t.expiry < blk.timestamp)
    (hrefunded : e'.refunded = true) : ∃ t, e'.terms = some t ∧ t.expiry < blk.timestamp := by
  cases h with
  | start t hvacant =>
      obtain ⟨t', hterms, -⟩ := hbefore hrefunded
      exact absurd (hvacant.symm.trans hterms) (by simp)
  | claimStart t secret hfree hopen => exact absurd (hopen.refunded.symm.trans hrefunded) (by simp)
  | refundStart t hfree hopen htime => exact ⟨t, hopen.terms, htime⟩
  | release => exact hbefore hrefunded

/-- A settled escrow stays settled. -/
theorem Step.unsettled {t : DstTerms A} (h : Step keccak blk e e') (hterms : e.terms = some t)
    (hopen : Unsettled e' t) : Unsettled e t := by
  cases h with
  | start t' hvacant => exact absurd (hvacant.symm.trans hterms) (by simp)
  | claimStart => exact absurd hopen.claimed (by simp [claiming])
  | refundStart => exact absurd hopen.refunded (by simp [refunding])
  | release => exact ⟨hterms, hopen.claimed, hopen.refunded⟩

/-- **Every step of an escrow keeps its law.** -/
theorem dstLaw_step (hlaw : DstLaw keccak e) (h : Step keccak blk e e') : DstLaw keccak e' := by
  cases h with
  | start t hvacant =>
      obtain ⟨hclaimed, hrefunded, hpayouts⟩ := hlaw.untouched hvacant
      exact ⟨(fun hnone => nomatch hnone), fun _ _ => .unsettled hclaimed hrefunded hpayouts⟩
  | claimStart t secret hfree hopen htime hsecret =>
      refine ⟨fun hnone => absurd (hopen.terms.symm.trans hnone) (by simp), fun t' ht' => ?_⟩
      obtain rfl : t = t' := Option.some.inj (hopen.terms.symm.trans ht')
      cases hlaw.standing t hopen.terms with
      | unsettled _ hrefunded hpayouts =>
          exact .claimed blk.timestamp secret rfl hrefunded htime hsecret
            (by simp [claiming, hpayouts])
      | claimed _ _ hclaimed => simp [hopen.claimed] at hclaimed
      | refunded _ _ hrefunded => simp [hopen.refunded] at hrefunded
  | refundStart t hfree hopen htime =>
      refine ⟨fun hnone => absurd (hopen.terms.symm.trans hnone) (by simp), fun t' ht' => ?_⟩
      obtain rfl : t = t' := Option.some.inj (hopen.terms.symm.trans ht')
      cases hlaw.standing t hopen.terms with
      | unsettled hclaimed _ hpayouts =>
          exact .refunded blk.timestamp hclaimed rfl htime (by simp [refunding, hpayouts])
      | claimed _ _ hclaimed => simp [hopen.claimed] at hclaimed
      | refunded _ _ hrefunded => simp [hopen.refunded] at hrefunded
  | release =>
      refine ⟨hlaw.untouched, fun t ht => ?_⟩
      cases hlaw.standing t ht with
      | unsettled h₁ h₂ h₃ => exact .unsettled h₁ h₂ h₃
      | claimed time secret h₁ h₂ h₃ h₄ h₅ => exact .claimed time secret h₁ h₂ h₃ h₄ h₅
      | refunded time h₁ h₂ h₃ h₄ => exact .refunded time h₁ h₂ h₃ h₄

end EscrowDst

/-! ## One spec lemma for each piece -/

namespace DestinationChain

open EscrowDst (DstLaw dstLaw_vacant dstLaw_step)

variable {A W : Type} [DecidableEq A] [Zero A] {d : DestinationChain A W}

/-- A step of one escrow; the tokens stay, or the escrow sends some. -/
structure Moved (d : DestinationChain A W) (s : DestinationState A W) (hl : Bytes32) (f : A)
    (s' : DestinationState A W) : Prop where
  step : EscrowDst.Step d.keccak s.block (s.escrows hl f) (s'.escrows hl f)
  terms : (s'.escrows hl f).terms = (s.escrows hl f).terms
  escrows : s'.escrows = update₂ s.escrows hl f (s'.escrows hl f)
  block : s'.block = s.block
  tokens : s'.tokens = s.tokens ∨ ∃ t to_, EscrowDst.Unsettled (s.escrows hl f) t ∧
    ¬EscrowDst.Unsettled (s'.escrows hl f) t ∧
    d.safeTransfer s.tokens (d.computeAddress hl f) t.token to_ t.amount = .ok s'.tokens

/-- What `deploy` did. -/
structure Deployed (d : DestinationChain A W) (s : DestinationState A W) (t : DstTerms A)
    (s' : DestinationState A W) : Prop where
  vacant : (s.escrows t.hashlock t.filler).terms = none
  recipient : t.recipient ≠ 0
  amount : 0 < t.amount
  expiry : s.block.timestamp < t.expiry
  funded : t.amount ≤ d.balanceOf s.tokens t.token (d.computeAddress t.hashlock t.filler)
  eq : s' = emit (setEscrow s t.hashlock t.filler
      { s.escrows t.hashlock t.filler with terms := some t })
    (.escrowCreated (d.computeAddress t.hashlock t.filler) t.filler t.hashlock t.recipient t.token
      t.amount t.expiry)

theorem deploy_spec {s s' : DestinationState A W} {msgSender : A} {hashlock : Bytes32}
    {recipient token : A} {amount expiry : Nat}
    (h : deploy d s msgSender hashlock recipient token amount expiry = .ok s') :
    Deployed d s ⟨hashlock, msgSender, recipient, token, amount, expiry⟩ s' := by
  simp only [deploy, EscrowDst.initializeClone, bind_eq_ok, requireCustom_eq_ok, require_eq_ok,
    pure_eq_ok, Option.isNone_iff_eq_none] at h
  obtain ⟨_, hvacant, _, ⟨_, -, _, hrecipient, _, -, _, hamount, _, hexpiry, _, -, _, hfunded,
    rfl⟩, rfl⟩ := h
  exact ⟨hvacant, hrecipient, hamount, hexpiry, hfunded, rfl⟩

theorem claimStart_moved {s s' : DestinationState A W} {hl secret : Bytes32} {f : A}
    (h : claimStart d s hl f secret = .ok s') :
    Moved d s hl f s' ∧ (s.escrows hl f).mutex = false ∧ (s'.escrows hl f).mutex = true := by
  simp only [claimStart, payOut, bind_eq_ok, pure_eq_ok] at h
  obtain ⟨⟨e', t⟩, hstart, tokens, hsend, rfl⟩ := h
  obtain ⟨⟨hfree, hopen, htime, hsecret⟩, rfl⟩ := EscrowDst.claimStart_eq_ok.mp hstart
  refine ⟨⟨?_, ?_, ?_, rfl, .inr ⟨t, t.recipient, hopen, fun hun => ?_, hsend⟩⟩, hfree, ?_⟩
  · simpa [setEscrow] using .claimStart _ t secret hfree hopen htime hsecret
  · simp [setEscrow, EscrowDst.claiming]
  · simp [setEscrow]
  · simpa [setEscrow, EscrowDst.claiming] using hun.claimed
  · simp [setEscrow, EscrowDst.claiming]

theorem refundStart_moved {s s' : DestinationState A W} {hl : Bytes32} {msgSender f : A}
    (h : refundStart d s msgSender hl f = .ok s') :
    Moved d s hl f s' ∧ (s.escrows hl f).mutex = false ∧ (s'.escrows hl f).mutex = true := by
  simp only [refundStart, payOut, bind_eq_ok, pure_eq_ok] at h
  obtain ⟨⟨e', t⟩, hstart, tokens, hsend, rfl⟩ := h
  obtain ⟨⟨hfree, hopen, htime, -⟩, rfl⟩ := EscrowDst.refundStart_eq_ok.mp hstart
  refine ⟨⟨?_, ?_, ?_, rfl, .inr ⟨t, t.filler, hopen, fun hun => ?_, hsend⟩⟩, hfree, ?_⟩
  · simpa [setEscrow] using .refundStart _ t hfree hopen htime
  · simp [setEscrow, EscrowDst.refunding]
  · simp [setEscrow]
  · simpa [setEscrow, EscrowDst.refunding] using hun.refunded
  · simp [setEscrow, EscrowDst.refunding]

/-- The end of `claim` or `refund`. -/
structure Released (s : DestinationState A W) (hl : Bytes32) (f : A)
    (s' : DestinationState A W) : Prop where
  escrows : s'.escrows = update₂ s.escrows hl f (s.escrows hl f).release
  tokens : s'.tokens = s.tokens
  block : s'.block = s.block

omit [Zero A] in
theorem Released.mutex {s s' : DestinationState A W} {hl : Bytes32} {f : A}
    (h : Released s hl f s') : (s'.escrows hl f).mutex = false := by
  rw [h.escrows, update₂_self]
  rfl

theorem Released.moved {s s' : DestinationState A W} {hl : Bytes32} {f : A}
    (h : Released s hl f s') : Moved d s hl f s' := by
  have hself : s'.escrows hl f = (s.escrows hl f).release := by rw [h.escrows, update₂_self]
  exact ⟨hself ▸ .release _, by rw [hself]; rfl, by rw [hself, h.escrows], h.block, .inl h.tokens⟩

theorem claimEnd_released {s s' : DestinationState A W} {msgSender : A} {hl secret : Bytes32}
    {f : A} (h : claimEnd d s msgSender hl f secret = .ok s') : Released s hl f s' := by
  simp only [claimEnd, pure_eq_ok] at h
  obtain rfl := h
  exact ⟨rfl, rfl, rfl⟩

theorem refundEnd_released {s s' : DestinationState A W} {hl : Bytes32} {f : A}
    (h : refundEnd d s hl f = .ok s') : Released s hl f s' := by
  simp only [refundEnd, bind_eq_ok, pure_eq_ok] at h
  obtain ⟨t, -, rfl⟩ := h
  exact ⟨rfl, rfl, rfl⟩

/-! ## The transition relation -/

/-- A piece of a body that succeeded, something done to tokens, or time. `P`
holds of the labels of claims and of what is done to tokens. -/
inductive Segment (d : DestinationChain A W) (P : Label A W → Prop) :
    DestinationState A W → DestinationState A W → Prop
  | deploy {s s'} (t : DstTerms A) (h : Deployed d s t s') : Segment d P s s'
  | claimStart {s s'} (msgSender : A) (hl : Bytes32) (f : A) (secret : Bytes32)
      (hP : P (.claim msgSender hl f secret)) (h : claimStart d s hl f secret = .ok s') :
      Segment d P s s'
  | refundStart {s s'} (msgSender : A) (hl : Bytes32) (f : A)
      (h : refundStart d s msgSender hl f = .ok s') : Segment d P s s'
  | release {s s'} (hl : Bytes32) (f : A) (h : Released s hl f s') : Segment d P s s'
  | tokens (s) (f : W → W) (hP : P (.tokens f)) : Segment d P s { s with tokens := f s.tokens }
  | elapse (s) (t : SourceChain.Elapse) : Segment d P s (elapse t s)

theorem Segment.mono {P Q : Label A W → Prop} {s s' : DestinationState A W}
    (hPQ : ∀ l, P l → Q l) (h : Segment d P s s') : Segment d Q s s' := by
  cases h with
  | deploy t h => exact .deploy t h
  | claimStart msgSender hl f secret hP h => exact .claimStart msgSender hl f secret (hPQ _ hP) h
  | refundStart msgSender hl f h => exact .refundStart msgSender hl f h
  | release hl f h => exact .release hl f h
  | tokens f hP => exact .tokens s f (hPQ _ hP)
  | elapse t => exact .elapse s t

/-- Any number of segments. -/
abbrev Segments (d : DestinationChain A W) (P : Label A W → Prop) :
    DestinationState A W → DestinationState A W → Prop :=
  Relation.ReflTransGen (Segment d P)

variable {P : Label A W → Prop}

/-- What a segment does: an escrow is deployed or moves, or nothing but
tokens and time. -/
theorem Segment.effect {s s' : DestinationState A W} (h : Segment d P s s') :
    (∃ t, Deployed d s t s') ∨ (∃ hl f, Moved d s hl f s') ∨
      (s'.escrows = s.escrows ∧
        ((s'.block = s.block ∧ ∃ f, P (.tokens f) ∧ s'.tokens = f s.tokens) ∨
          (s'.tokens = s.tokens ∧ s.block.timestamp ≤ s'.block.timestamp))) := by
  cases h with
  | deploy t h => exact .inl ⟨t, h⟩
  | claimStart msgSender hl f secret hP h => exact .inr (.inl ⟨hl, f, (claimStart_moved h).1⟩)
  | refundStart msgSender hl f h => exact .inr (.inl ⟨hl, f, (refundStart_moved h).1⟩)
  | release hl f h => exact .inr (.inl ⟨hl, f, h.moved⟩)
  | tokens f hP => exact .inr (.inr ⟨rfl, .inl ⟨rfl, f, hP, rfl⟩⟩)
  | elapse t => exact .inr (.inr ⟨rfl, .inr ⟨rfl, Nat.le_add_right ..⟩⟩)

/-- Seen from one address, a segment is a step of its escrow or nothing. -/
theorem Segment.escrow {s s' : DestinationState A W} (h : Segment d P s s') (hl : Bytes32)
    (f : A) : s'.escrows hl f = s.escrows hl f ∨
      EscrowDst.Step d.keccak s.block (s.escrows hl f) (s'.escrows hl f) := by
  rcases h.effect with ⟨t, h⟩ | ⟨hl', f', h⟩ | ⟨hsame, -⟩
  · obtain rfl := h.eq
    by_cases hown : hl = t.hashlock ∧ f = t.filler
    · obtain ⟨rfl, rfl⟩ := hown
      right
      simpa [emit, setEscrow] using .start _ t h.vacant h.amount h.expiry
    · left
      simp [emit, setEscrow, update₂_of_ne hown]
  · by_cases hown : hl = hl' ∧ f = f'
    · obtain ⟨rfl, rfl⟩ := hown
      exact .inr h.step
    · exact .inl (by rw [h.escrows, update₂_of_ne hown])
  · exact .inl (by rw [hsame])

theorem Segment.terms {s s' : DestinationState A W} (h : Segment d P s s') {hl : Bytes32}
    {f : A} {t : DstTerms A} (hterms : (s.escrows hl f).terms = some t) :
    (s'.escrows hl f).terms = some t := by
  rcases h.escrow hl f with hsame | hstep
  · rwa [hsame]
  · exact hstep.terms hterms

theorem Segments.terms {s s' : DestinationState A W} (h : Segments d P s s') {hl : Bytes32}
    {f : A} {t : DstTerms A} (hterms : (s.escrows hl f).terms = some t) :
    (s'.escrows hl f).terms = some t := by
  induction h with
  | refl => exact hterms
  | tail _ hseg ih => exact hseg.terms ih

/-! ## Runs -/

/-- What a finished call leaves for the call that was waiting for it: the
clock, every mutex, and segments in between. -/
structure Turn (d : DestinationChain A W) (P : Label A W → Prop) (own : Bytes32 → A → Prop)
    (s s' : DestinationState A W) : Prop where
  block : s'.block = s.block
  segments : Segments d P s s'
  locks : ∀ hl f, ¬own hl f → (s'.escrows hl f).mutex = (s.escrows hl f).mutex

abbrev FullTurn (d : DestinationChain A W) (P : Label A W → Prop) :
    DestinationState A W → DestinationState A W → Prop :=
  Turn d P fun _ _ => False

namespace Turn

variable {own : Bytes32 → A → Prop} {s s₁ s₂ : DestinationState A W}

theorem refl (s : DestinationState A W) : Turn d P own s s := ⟨rfl, .refl, fun _ _ _ => rfl⟩

theorem trans (h₁ : Turn d P own s s₁) (h₂ : Turn d P own s₁ s₂) : Turn d P own s s₂ where
  block := h₂.block.trans h₁.block
  segments := h₁.segments.trans h₂.segments
  locks := fun hl f hown => (h₂.locks hl f hown).trans (h₁.locks hl f hown)

theorem of_full (h : FullTurn d P s s₁) : Turn d P own s s₁ :=
  ⟨h.block, h.segments, fun hl f _ => h.locks hl f id⟩

/-- A call that leaves the lock of its escrow as it found it. -/
theorem full {hl : Bytes32} {f : A} (hturn : Turn d P (fun hl' f' => hl' = hl ∧ f' = f) s s₁)
    (hmutex : (s₁.escrows hl f).mutex = (s.escrows hl f).mutex) : FullTurn d P s s₁ where
  block := hturn.block
  segments := hturn.segments
  locks := fun hl' f' _ => by
    by_cases hsame : hl' = hl ∧ f' = f
    · obtain ⟨rfl, rfl⟩ := hsame
      exact hmutex
    · exact hturn.locks hl' f' hsame

end Turn

theorem Moved.turn {s s' : DestinationState A W} {hl : Bytes32} {f : A}
    (h : Moved d s hl f s') (hseg : Segment d P s s') :
    Turn d P (fun hl' f' => hl' = hl ∧ f' = f) s s' where
  block := h.block
  segments := .single hseg
  locks := fun hl' f' hown => by rw [h.escrows, update₂_of_ne hown]

theorem Deployed.turn {s s' : DestinationState A W} {t : DstTerms A} (h : Deployed d s t s') :
    FullTurn d P s s' := by
  have hseg : Segments d P s s' := .single (.deploy t h)
  obtain rfl := h.eq
  refine ⟨rfl, hseg, fun hl f _ => ?_⟩
  simp only [emit, setEscrow, update₂_apply]
  split
  case isTrue hsame => rw [hsame.1, hsame.2]
  case isFalse => rfl

/-- **Every body makes a turn**, provided the code it calls does. -/
theorem body_turn (l : Label A W) (hl : P l) (s : DestinationState A W) :
    (body d l s).Sat (FullTurn d P) s := by
  cases l with
  | deploy msgSender hashlock recipient token amount expiry =>
      exact Prog.sat_attempt fun s' h => (deploy_spec h).turn
  | claim msgSender hashlock filler secret =>
      refine Prog.sat_attempt fun s₁ hstart s₂ h₂ => Prog.sat_attempt fun s₃ hend => ?_
      obtain ⟨h₁, hfree, -⟩ := claimStart_moved hstart
      have h₃ := claimEnd_released hend
      exact ((h₁.turn (.claimStart msgSender hashlock filler secret hl hstart)).trans
        ((Turn.of_full h₂).trans (h₃.moved.turn (.release hashlock filler h₃)))).full
          (h₃.mutex.trans hfree.symm)
  | refund msgSender hashlock filler =>
      refine Prog.sat_attempt fun s₁ hstart s₂ h₂ => Prog.sat_attempt fun s₃ hend => ?_
      obtain ⟨h₁, hfree, -⟩ := refundStart_moved hstart
      have h₃ := refundEnd_released hend
      exact ((h₁.turn (.refundStart msgSender hashlock filler hstart)).trans
        ((Turn.of_full h₂).trans (h₃.moved.turn (.release hashlock filler h₃)))).full
          (h₃.mutex.trans hfree.symm)
  | tokens f => exact ⟨rfl, .single (.tokens s f hl), fun _ _ _ => rfl⟩

theorem exec_turn {c : Call (Label A W)} {s s' : DestinationState A W} (hc : c.All P)
    (h : exec (body d) c s = .ok s') : FullTurn d P s s' :=
  exec_sat (fun _ => .refl _) (fun h h' => h.trans h') (fun l hl s => body_turn l hl s) hc h

/-- A `deploy` that goes through, whatever is called back. -/
theorem exec_deployed {msgSender : A} {hashlock : Bytes32} {recipient token : A}
    {amount expiry : Nat} {turns : List (List (Call (Label A W)))} {s s' : DestinationState A W}
    (h : exec (body d) (.mk (.deploy msgSender hashlock recipient token amount expiry) turns) s
      = .ok s') :
    Deployed d s ⟨hashlock, msgSender, recipient, token, amount, expiry⟩ s' := by
  refine resume_ensures (R := fun _ _ => True) (fun _ => trivial) (fun _ _ => trivial) ?_
    (by simpa [exec] using h)
  exact Prog.ensures_attempt fun _ hdeploy => deploy_spec hdeploy

/-- A state that some sequence of segments reaches from the deployment. -/
def Moment (d : DestinationChain A W) (P : Label A W → Prop) (s : DestinationState A W) : Prop :=
  ∃ tokens block, Segments d P (deployed tokens block) s

theorem Moment.segments {Q : Label A W → Prop} {s s' : DestinationState A W} (hs : Moment d Q s)
    (h : Segments d P s s') : Moment d (fun _ => True) s' := by
  obtain ⟨tokens, block, hsegments⟩ := hs
  exact ⟨tokens, block, (hsegments.lift id fun _ _ hseg => hseg.mono fun _ _ => trivial).trans
    (h.lift id fun _ _ hseg => hseg.mono fun _ _ => trivial)⟩

theorem Moment.invariant {I : DestinationState A W → Prop} {s : DestinationState A W}
    (h : Moment d P s) (hinit : ∀ tokens block, I (deployed tokens block))
    (hstep : ∀ {s s' : DestinationState A W}, I s → Segment d P s s' → I s') : I s := by
  obtain ⟨tokens, block, hsegments⟩ := h
  induction hsegments with
  | refl => exact hinit tokens block
  | tail _ hseg ih => exact hstep ih hseg

theorem Moment.law {s : DestinationState A W} (h : Moment d P s) (hl : Bytes32) (f : A) :
    DstLaw d.keccak (s.escrows hl f) :=
  h.invariant (I := fun s => DstLaw d.keccak (s.escrows hl f)) (fun _ _ => dstLaw_vacant _)
    fun hs hseg => by
      rcases hseg.escrow hl f with hsame | hstep
      · rwa [hsame]
      · exact dstLaw_step hs hstep

theorem Segment.timestamp_le {s s' : DestinationState A W} (h : Segment d P s s') :
    s.block.timestamp ≤ s'.block.timestamp := by
  rcases h.effect with ⟨t, h⟩ | ⟨hl, f, h⟩ | ⟨-, ⟨h, -⟩ | ⟨-, h⟩⟩
  · obtain rfl := h.eq
    exact Nat.le_refl _
  · exact Nat.le_of_eq (by rw [h.block])
  · exact Nat.le_of_eq (by rw [h])
  · exact h

/-- An escrow that was refunded has expired. -/
theorem Moment.refund_late {s : DestinationState A W} (h : Moment d P s) :
    ∀ hl f, (s.escrows hl f).refunded = true →
      ∃ t, (s.escrows hl f).terms = some t ∧ t.expiry < s.block.timestamp :=
  h.invariant (I := fun s => ∀ hl f, (s.escrows hl f).refunded = true →
      ∃ t, (s.escrows hl f).terms = some t ∧ t.expiry < s.block.timestamp)
    (fun _ _ _ _ hrefunded => nomatch hrefunded) fun {s s'} hs hseg hl f hrefunded => by
      have hlate : ∃ t, (s'.escrows hl f).terms = some t ∧ t.expiry < s.block.timestamp := by
        rcases hseg.escrow hl f with hsame | hstep
        · rw [hsame] at hrefunded ⊢
          exact hs hl f hrefunded
        · exact hstep.refund_late (hs hl f) hrefunded
      obtain ⟨t, hterms, hexpiry⟩ := hlate
      exact ⟨t, hterms, Nat.lt_of_lt_of_le hexpiry hseg.timestamp_le⟩

/-- The terms at an address are the ones it was derived from. -/
structure Located (hl : Bytes32) (f : A) (t : DstTerms A) : Prop where
  hashlock : t.hashlock = hl
  filler : t.filler = f
  recipient : t.recipient ≠ 0

theorem Moment.located {s : DestinationState A W} (h : Moment d P s) :
    ∀ hl f t, (s.escrows hl f).terms = some t → Located hl f t :=
  h.invariant (I := fun s => ∀ hl f t, (s.escrows hl f).terms = some t → Located hl f t)
    (fun _ _ _ _ _ hterms => nomatch hterms) fun {s s'} hs hseg hl f t hterms => by
      rcases hseg.effect with ⟨t', h⟩ | ⟨hl', f', h⟩ | ⟨hsame, -⟩
      · obtain rfl := h.eq
        by_cases hown : hl = t'.hashlock ∧ f = t'.filler
        · obtain ⟨rfl, rfl⟩ := hown
          obtain rfl : t' = t := by simpa [emit, setEscrow] using hterms
          exact ⟨rfl, rfl, h.recipient⟩
        · exact hs hl f t (by simpa [emit, setEscrow, update₂_of_ne hown] using hterms)
      · refine hs hl f t ?_
        by_cases hown : hl = hl' ∧ f = f'
        · obtain ⟨rfl, rfl⟩ := hown
          rwa [h.terms] at hterms
        · rwa [h.escrows, update₂_of_ne hown] at hterms
      · exact hs hl f t (by rwa [hsame] at hterms)

/-- No call is under way. -/
def Between (s : DestinationState A W) : Prop := ∀ hl f, (s.escrows hl f).mutex = false

/-- A transaction is a sequence of segments at one time, and leaves no
escrow locked if it finds none locked. -/
theorem stepTx_call {c : Call (Label A W)} {s : DestinationState A W} (hc : c.All P)
    (hfree : Between s) :
    Segments d P s (stepTx (body d) elapse (.call c) s) ∧
      (stepTx (body d) elapse (.call c) s).block = s.block ∧
      Between (stepTx (body d) elapse (.call c) s) := by
  simp only [stepTx]
  cases hx : exec (body d) c s with
  | error e => exact ⟨.refl, rfl, hfree⟩
  | ok s' =>
      have hturn := exec_turn hc hx
      exact ⟨hturn.segments, hturn.block, fun hl f => (hturn.locks hl f id).trans (hfree hl f)⟩

/-- What a transaction, or time, leaves of a state between transactions. -/
structure Passed (d : DestinationChain A W) (s s' : DestinationState A W) : Prop where
  segments : Segments d (fun _ => True) s s'
  between : Between s'

theorem exec_passed {c : Call (Label A W)} {s s' : DestinationState A W} (hfree : Between s)
    (h : exec (body d) c s = .ok s') : Passed d s s' := by
  have hturn := exec_turn c.all_true h
  exact ⟨hturn.segments, fun hl f => (hturn.locks hl f id).trans (hfree hl f)⟩

theorem stepTx_passed (tx : Tx (Label A W) SourceChain.Elapse) {s : DestinationState A W}
    (hfree : Between s) : Passed d s (stepTx (body d) elapse tx s) := by
  cases tx with
  | tick t => exact ⟨.single (.elapse s t), hfree⟩
  | call c =>
      obtain ⟨hsegments, -, hend⟩ := stepTx_call (d := d) c.all_true hfree
      exact ⟨hsegments, hend⟩

/-- **Every run is a sequence of segments.** -/
theorem run_segments :
    ∀ {txs : List (Tx (Label A W) SourceChain.Elapse)} {s : DestinationState A W},
      (∀ tx ∈ txs, tx.All P) → Between s →
        Segments d P s (run d txs s) ∧ Between (run d txs s)
  | [], s, _, hfree => ⟨.refl, hfree⟩
  | tx :: txs, s, hall, hfree => by
      have hstep : Segments d P s (stepTx (body d) elapse tx s) ∧
          Between (stepTx (body d) elapse tx s) := by
        cases tx with
        | tick t => exact ⟨.single (.elapse s t), hfree⟩
        | call c =>
            obtain ⟨hsegments, -, hend⟩ :=
              stepTx_call (d := d) (hall _ (List.mem_cons_self ..)) hfree
            exact ⟨hsegments, hend⟩
      obtain ⟨hrest, hend⟩ :=
        run_segments (fun tx htx => hall tx (List.mem_cons_of_mem _ htx)) hstep.2
      exact ⟨hstep.1.trans hrest, hend⟩

theorem Reachable.moment {s : DestinationState A W} (h : Reachable d s) :
    Moment d (fun _ => True) s ∧ Between s := by
  obtain ⟨tokens, block, txs, rfl⟩ := h
  have hall : ∀ tx ∈ txs, tx.All fun _ : Label A W => True := fun tx _ => tx.all_true
  have hidle : Between (deployed tokens block : DestinationState A W) := fun _ _ => rfl
  obtain ⟨hsegments, hfree⟩ := run_segments (d := d) hall hidle
  exact ⟨⟨tokens, block, hsegments⟩, hfree⟩

end DestinationChain

end NeutronX.CrossChain
