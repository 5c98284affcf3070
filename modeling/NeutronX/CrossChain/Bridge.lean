import NeutronX.CrossChain.DestinationSteps
import NeutronX.CrossChain.SourceLaw
import NeutronX.Evm.Swap

/-!
# The two chains of a swap

A source chain and a destination chain that hash alike, under one clock.
Their transactions interleave in any order. What is assumed of the
accounts is `Permitted`, for one source escrow: a preimage of its hashlock
is in no claim before the escrow has been withdrawn from (until then only
the filler knows one, and uses it there), and nobody but an escrow of the
destination chain moves what it holds.

`view` forgets everything but where the two sums stand, and what the two
chains do is then what two conditional payments do (`Step.simulates`).
-/

namespace NeutronX.CrossChain

open Evm Function

/-- The parameters of the two chains. -/
structure Bridge (κ A W A' W' : Type) [Zero A] [Zero A'] where
  source : SourceChain κ A W
  destination : DestinationChain A' W'
  keccak_eq : destination.keccak = source.keccak

structure BridgeState (κ A W A' W' : Type) where
  source : SourceState κ A W
  destination : DestinationState A' W'

/-- The source escrow a swap is about, and the token it is paid in on the
destination chain. -/
structure Subject (κ A' : Type) where
  orderHash : κ
  hashlock : Bytes32
  token : A'

namespace Bridge

variable {κ A W A' W' : Type}

abbrev sourceEscrow (subject : Subject κ A') (s : BridgeState κ A W A' W') : EscrowSrc κ A :=
  s.source.escrows subject.orderHash subject.hashlock

/-- The escrow that `filler` deployed under the hashlock. -/
abbrev destinationEscrow (subject : Subject κ A') (filler : A') (s : BridgeState κ A W A' W') :
    EscrowDst A' :=
  s.destination.escrows subject.hashlock filler

def deployed (tokens : W) (tokens' : W') (number number' timestamp : Nat) :
    BridgeState κ A W A' W' where
  source := SourceChain.deployed tokens ⟨number, timestamp⟩
  destination := DestinationChain.deployed tokens' ⟨number', timestamp⟩

variable [Zero A] [Zero A']

/-- A transaction of either chain, or time. -/
inductive Action (b : Bridge κ A W A' W') where
  | source (c : Call (SourceChain.Label b.source))
  | destination (c : Call (DestinationChain.Label A' W'))
  | elapse (blocks blocks' seconds : Nat)

/-- What a call on the destination chain may carry when the source chain is
in state `s`. -/
def Permitted (b : Bridge κ A W A' W') (subject : Subject κ A') (s : SourceState κ A W) :
    DestinationChain.Label A' W' → Prop
  | .claim _ _ _ secret => b.destination.keccak secret = subject.hashlock →
      (s.escrows subject.orderHash subject.hashlock).claimed = true
  | .tokens f => ∀ w hashlock filler,
      b.destination.balanceOf w subject.token (b.destination.computeAddress hashlock filler)
        ≤ b.destination.balanceOf (f w) subject.token
          (b.destination.computeAddress hashlock filler)
  | _ => True

def Action.Permitted {b : Bridge κ A W A' W'} (subject : Subject κ A')
    (s : BridgeState κ A W A' W') : Action b → Prop
  | .destination c => c.All (Bridge.Permitted b subject s.source)
  | _ => True

variable [DecidableEq κ] [DecidableEq A] [DecidableEq A']

def act {b : Bridge κ A W A' W'} : Action b → BridgeState κ A W A' W' → BridgeState κ A W A' W'
  | .source c, s =>
      ⟨stepTx (SourceChain.body b.source) SourceChain.elapse (.call c) s.source, s.destination⟩
  | .destination c, s =>
      ⟨s.source, stepTx (DestinationChain.body b.destination) DestinationChain.elapse (.call c)
        s.destination⟩
  | .elapse blocks blocks' seconds, s =>
      ⟨SourceChain.elapse ⟨blocks, seconds⟩ s.source,
        DestinationChain.elapse ⟨blocks', seconds⟩ s.destination⟩

inductive Step (b : Bridge κ A W A' W') (subject : Subject κ A') :
    BridgeState κ A W A' W' → BridgeState κ A W A' W' → Prop
  | act (s : BridgeState κ A W A' W') (a : Action b) (ha : a.Permitted subject s) :
      Step b subject s (act a s)

abbrev Steps (b : Bridge κ A W A' W') (subject : Subject κ A') :
    BridgeState κ A W A' W' → BridgeState κ A W A' W' → Prop :=
  Relation.ReflTransGen (Step b subject)

def Reachable (b : Bridge κ A W A' W') (subject : Subject κ A') (s : BridgeState κ A W A' W') :
    Prop :=
  ∃ tokens tokens' number number' timestamp,
    Steps b subject (deployed tokens tokens' number number' timestamp) s

end Bridge

/-! ## Legs -/

/-- Where the escrowed sum stands. -/
def EscrowSrc.leg {κ A : Type} (c : EscrowSrc κ A) : Leg :=
  if c.claimed then .paid else if c.cancelled then .returned
  else if c.fill.isSome then .locked else .vacant

/-- Where the escrowed sum stands. -/
def EscrowDst.leg {A : Type} (e : EscrowDst A) : Leg :=
  if e.claimed then .paid else if e.refunded then .returned
  else if e.terms.isSome then .locked else .vacant

namespace EscrowSrc

variable {κ A : Type} [DecidableEq A] {keccak : Bytes32 → Bytes32} {blk : Block}
  {c c' : EscrowSrc κ A}

/-- A step of a clone is a step of its leg, or none, for the expiry that it
has afterwards. -/
theorem CloneStep.leg (hlaw : CloneLaw keccak c) (h : CloneStep keccak blk c c') {e : Nat}
    (hexpiry : ∀ t, c'.terms = some t → t.expiry = e) :
    c'.leg = c.leg ∨ Leg.Step True e blk.timestamp c.leg c'.leg := by
  cases h with
  | start | release | claimStart | receive => exact .inl rfl
  | pay _ t stage next payee accepted hstage hterms hpays h =>
      have hkept := payDeposit_kept h
      left
      simp only [EscrowSrc.leg, hkept.claimed, hkept.cancelled, hkept.fill]
  | withdrawStart t secret hfree hopen htime hsecret =>
      obtain rfl := hexpiry t hopen.terms
      right
      simpa [EscrowSrc.leg, withdrawing, hopen.claimed, hopen.cancelled,
        hlaw.code t hopen.terms] using .pay trivial htime
  | cancelStart t hfree hopen htime =>
      obtain rfl := hexpiry t hopen.terms
      right
      simpa [EscrowSrc.leg, cancelling, hopen.claimed, hopen.cancelled,
        hlaw.code t hopen.terms] using .giveBack htime

omit [DecidableEq A] in
theorem leg_eq_paid : c.leg = .paid ↔ c.claimed = true := by
  unfold leg
  cases c.claimed <;> cases c.cancelled <;> cases c.fill <;> simp

omit [DecidableEq A] in
theorem leg_eq_returned : c.leg = .returned ↔ c.claimed = false ∧ c.cancelled = true := by
  unfold leg
  cases c.claimed <;> cases c.cancelled <;> cases c.fill <;> simp

end EscrowSrc

namespace EscrowDst

variable {A : Type} {e : EscrowDst A}

theorem leg_eq_paid : e.leg = .paid ↔ e.claimed = true := by
  unfold leg
  cases e.claimed <;> cases e.refunded <;> cases e.terms <;> simp

theorem leg_eq_returned : e.leg = .returned ↔ e.claimed = false ∧ e.refunded = true := by
  unfold leg
  cases e.claimed <;> cases e.refunded <;> cases e.terms <;> simp

end EscrowDst

/-! ## The source chain moves the first leg -/

namespace SourceChain

variable {κ A W : Type} [DecidableEq κ] [Zero A] [DecidableEq A] {d : SourceChain κ A W}
  {P : Fill κ A → Prop} {s s' : SourceState κ A W}

theorem Effect.timestamp_le (h : Effect d P s s') : s.block.timestamp ≤ s'.block.timestamp := by
  cases h with
  | opened fill hP h => exact Nat.le_of_eq (by rw [h.block])
  | closed fill hfilling hfill h => exact Nat.le_of_eq (by rw [h.block])
  | moved k hl hmoved => exact Nat.le_of_eq (by rw [hmoved.block])
  | withdrawn k hl secret t hmoved => exact Nat.le_of_eq (by rw [hmoved.block])
  | handedBack k hl hback => exact Nat.le_of_eq (by rw [hback.moved.block])
  | idled h => exact h.timestamp

/-- Terms are written once, seen from the chain. -/
theorem Effect.terms (h : Effect d P s s') {k : κ} {hl : Bytes32} {t : Terms κ A}
    (hterms : (s.escrows k hl).terms = some t) : (s'.escrows k hl).terms = some t := by
  rcases h.clone k hl with hsame | ⟨fill, -, hdeployed⟩ | hstep
  · rwa [hsame]
  · rwa [hdeployed]
  · exact hstep.terms hterms

theorem Segments.terms (h : Segments d P s s') {k : κ} {hl : Bytes32} {t : Terms κ A}
    (hterms : (s.escrows k hl).terms = some t) : (s'.escrows k hl).terms = some t := by
  induction h with
  | refl => exact hterms
  | tail _ hseg ih => exact hseg.effect.terms ih

/-- The two sums, seen from the source chain. -/
def view (s : SourceState κ A W) (k : κ) (hl : Bytes32) (second : Leg) : Swap :=
  ⟨s.block.timestamp, (s.escrows k hl).leg, second⟩

/-- A segment is a step of the first leg or none, and time. -/
theorem Segment.simulates (hlaw : SourceLaw d s) (h : Segment d P s s') {k : κ} {hl : Bytes32}
    {e₁ e₂ : Nat} (hexpiry : ∀ t, (s'.escrows k hl).terms = some t → t.expiry = e₁)
    (second : Leg) : Swap.Steps e₁ e₂ (view s k hl second) (view s' k hl second) := by
  have hleg : (s'.escrows k hl).leg = (s.escrows k hl).leg ∨
      Leg.Step True e₁ s.block.timestamp (s.escrows k hl).leg (s'.escrows k hl).leg := by
    rcases h.effect.clone k hl with hsame | ⟨fill, hvacant, hdeployed⟩ | hstep
    · exact .inl (by rw [hsame])
    · have hfresh := (hlaw.untouched hvacant).2
      right
      simpa [hdeployed, EscrowSrc.leg, hfresh.claimed, hfresh.cancelled, hvacant] using .lock
    · exact hstep.leg (hlaw.clone k hl) hexpiry
  -- the leg moves at the time before, then the clock
  have hmove : Swap.Steps e₁ e₂ (view s k hl second)
      { view s k hl second with first := (s'.escrows k hl).leg } := by
    rcases hleg with hsame | hstep
    · rw [hsame]
      exact .refl
    · exact .single (.first _ _ hstep)
  have hclock : view s' k hl second =
      ⟨s.block.timestamp + (s'.block.timestamp - s.block.timestamp), (s'.escrows k hl).leg,
        second⟩ := by
    simp [view, Nat.add_sub_cancel' h.effect.timestamp_le]
  rw [hclock]
  exact hmove.tail (.wait _ _)

theorem Segments.simulates (hlaw : SourceLaw d s) (h : Segments d P s s') {k : κ} {hl : Bytes32}
    {e₁ e₂ : Nat} (second : Leg) :
    (∀ t, (s'.escrows k hl).terms = some t → t.expiry = e₁) →
      Swap.Steps e₁ e₂ (view s k hl second) (view s' k hl second) := by
  induction h with
  | refl => exact fun _ => .refl
  | tail hsegments hseg ih =>
      exact fun hexpiry => (ih fun t ht => hexpiry t (hseg.effect.terms ht)).trans
        (hseg.simulates (Segments.keep sourceLaw_step hsegments hlaw) hexpiry second)

end SourceChain

/-! ## The destination chain moves the second leg -/

namespace DestinationChain

variable {A W : Type} [DecidableEq A] [Zero A] {d : DestinationChain A W}
  {P Q : Label A W → Prop} {s s' : DestinationState A W}

/-- A segment is a step of the leg of every escrow, or none. It pays only
by a claim whose label satisfies `P`. -/
theorem Segment.leg (hs : Moment d Q s) (h : Segment d P s s') {hl : Bytes32} {f : A}
    {Shown : Prop} {e : Nat}
    (hshown : ∀ msgSender secret, P (.claim msgSender hl f secret) → d.keccak secret = hl → Shown)
    (hexpiry : ∀ t, (s'.escrows hl f).terms = some t → t.expiry = e) :
    (s'.escrows hl f).leg = (s.escrows hl f).leg ∨
      Leg.Step Shown e s.block.timestamp (s.escrows hl f).leg (s'.escrows hl f).leg := by
  cases h with
  | tokens | elapse => exact .inl rfl
  | deploy t h =>
      obtain rfl := h.eq
      by_cases hown : hl = t.hashlock ∧ f = t.filler
      · obtain ⟨rfl, rfl⟩ := hown
        obtain ⟨hclaimed, hrefunded, -⟩ := (hs.law t.hashlock t.filler).untouched h.vacant
        right
        simpa [emit, setEscrow, EscrowDst.leg, hclaimed, hrefunded, h.vacant] using .lock
      · left
        simp [emit, setEscrow, update₂_of_ne hown]
  | claimStart msgSender hl' f' secret hP h =>
      by_cases hown : hl = hl' ∧ f = f'
      · obtain ⟨rfl, rfl⟩ := hown
        have hterms := (claimStart_moved h).1.terms
        simp only [DestinationChain.claimStart, payOut, bind_eq_ok, pure_eq_ok] at h
        obtain ⟨⟨e', t⟩, hstart, tokens, -, rfl⟩ := h
        obtain ⟨⟨-, hopen, htime, hsecret⟩, rfl⟩ := EscrowDst.claimStart_eq_ok.mp hstart
        obtain rfl := hexpiry t (hterms.trans hopen.terms)
        have hhash := (hs.located hl f t hopen.terms).hashlock
        right
        simpa [setEscrow, EscrowDst.leg, EscrowDst.claiming, hopen.claimed, hopen.refunded,
          hopen.terms] using .pay (hshown msgSender secret hP (hsecret.trans hhash)) htime
      · exact .inl (by rw [(claimStart_moved h).1.escrows, update₂_of_ne hown])
  | refundStart msgSender hl' f' h =>
      by_cases hown : hl = hl' ∧ f = f'
      · obtain ⟨rfl, rfl⟩ := hown
        have hterms := (refundStart_moved h).1.terms
        simp only [DestinationChain.refundStart, payOut, bind_eq_ok, pure_eq_ok] at h
        obtain ⟨⟨e', t⟩, hstart, tokens, -, rfl⟩ := h
        obtain ⟨⟨-, hopen, htime, -⟩, rfl⟩ := EscrowDst.refundStart_eq_ok.mp hstart
        obtain rfl := hexpiry t (hterms.trans hopen.terms)
        right
        simpa [setEscrow, EscrowDst.leg, EscrowDst.refunding, hopen.claimed, hopen.refunded,
          hopen.terms] using .giveBack htime
      · exact .inl (by rw [(refundStart_moved h).1.escrows, update₂_of_ne hown])
  | release hl' f' h =>
      left
      rw [h.escrows, update₂_apply]
      split
      case isTrue hsame => rw [hsame.1, hsame.2]; rfl
      case isFalse => rfl

/-- The two sums, seen from the destination chain. -/
def view (s : DestinationState A W) (hl : Bytes32) (f : A) (first : Leg) : Swap :=
  ⟨s.block.timestamp, first, (s.escrows hl f).leg⟩

theorem Segment.simulates (hs : Moment d Q s) (h : Segment d P s s') {hl : Bytes32} {f : A}
    {first : Leg} {e₁ e₂ : Nat}
    (hshown : ∀ msgSender secret, P (.claim msgSender hl f secret) → d.keccak secret = hl →
      first = .paid)
    (hexpiry : ∀ t, (s'.escrows hl f).terms = some t → t.expiry = e₂) :
    Swap.Steps e₁ e₂ (view s hl f first) (view s' hl f first) := by
  have hmove : Swap.Steps e₁ e₂ (view s hl f first)
      { view s hl f first with second := (s'.escrows hl f).leg } := by
    rcases h.leg hs hshown hexpiry with hsame | hstep
    · rw [hsame]
      exact .refl
    · exact .single (.second _ _ hstep)
  have hclock : view s' hl f first =
      ⟨s.block.timestamp + (s'.block.timestamp - s.block.timestamp), first,
        (s'.escrows hl f).leg⟩ := by
    simp [view, Nat.add_sub_cancel' h.timestamp_le]
  rw [hclock]
  exact hmove.tail (.wait _ _)

theorem Segments.simulates (hs : Moment d Q s) (h : Segments d P s s') {hl : Bytes32} {f : A}
    {first : Leg} {e₁ e₂ : Nat}
    (hshown : ∀ msgSender secret, P (.claim msgSender hl f secret) → d.keccak secret = hl →
      first = .paid) :
    (∀ t, (s'.escrows hl f).terms = some t → t.expiry = e₂) →
      Swap.Steps e₁ e₂ (view s hl f first) (view s' hl f first) := by
  induction h with
  | refl => exact fun _ => .refl
  | tail hsegments hseg ih =>
      exact fun hexpiry => (ih fun t ht => hexpiry t (hseg.terms ht)).trans
        (hseg.simulates (hs.segments hsegments) hshown hexpiry)

end DestinationChain

/-! ## Runs of both chains -/

namespace Bridge

variable {κ A W A' W' : Type} [DecidableEq κ] [Zero A] [DecidableEq A] [Zero A'] [DecidableEq A']
  {b : Bridge κ A W A' W'} {subject : Subject κ A'} {s s' : BridgeState κ A W A' W'}

/-- Both chains between transactions of runs of theirs, at the same time. -/
structure Sound (b : Bridge κ A W A' W') (s : BridgeState κ A W A' W') : Prop where
  source : SourceChain.Moment b.source s.source
  sourceFree : SourceChain.Between s.source
  destination : DestinationChain.Moment b.destination (fun _ => True) s.destination
  destinationFree : DestinationChain.Between s.destination
  clock : s.destination.block.timestamp = s.source.block.timestamp

theorem sound_deployed (tokens : W) (tokens' : W') (number number' timestamp : Nat) :
    Sound b (deployed tokens tokens' number number' timestamp) :=
  ⟨⟨_, _, .refl⟩, ⟨rfl, fun _ _ => rfl⟩, ⟨_, _, .refl⟩, fun _ _ => rfl, rfl⟩

theorem sound_act (hs : Sound b s) (a : Action b) : Sound b (act a s) := by
  cases a with
  | source c =>
      obtain ⟨hsegments, hblock, hfree⟩ := SourceChain.stepTx_call (P := fun _ => True)
        (SourceChain.all_opens c) hs.sourceFree
      exact ⟨hs.source.segments hsegments, hfree, hs.destination, hs.destinationFree,
        hs.clock.trans (congrArg Block.timestamp hblock).symm⟩
  | destination c =>
      obtain ⟨hsegments, hblock, hfree⟩ := DestinationChain.stepTx_call (d := b.destination)
        (P := fun _ => True) c.all_true hs.destinationFree
      exact ⟨hs.source, hs.sourceFree, hs.destination.segments hsegments, hfree,
        (congrArg Block.timestamp hblock).trans hs.clock⟩
  | elapse blocks blocks' seconds =>
      exact ⟨hs.source.segments (P := fun _ => True)
          (.single (.elapse _ _ hs.sourceFree.filling)),
        ⟨hs.sourceFree.filling, hs.sourceFree.free⟩,
        hs.destination.segments (P := fun _ => True) (.single (.elapse _ _)), hs.destinationFree,
        congrArg (· + seconds) hs.clock⟩

theorem Steps.sound (hs : Sound b s) (h : Steps b subject s s') : Sound b s' := by
  induction h with
  | refl => exact hs
  | tail _ hstep ih =>
      cases hstep with
      | act a ha => exact sound_act ih a

theorem Reachable.sound (h : Reachable b subject s) : Sound b s := by
  obtain ⟨tokens, tokens', number, number', timestamp, hsteps⟩ := h
  exact Steps.sound (sound_deployed ..) hsteps

/-- Where the two sums stand. -/
def view (subject : Subject κ A') (filler : A') (s : BridgeState κ A W A' W') : Swap :=
  ⟨s.source.block.timestamp, (sourceEscrow subject s).leg, (destinationEscrow subject filler s).leg⟩

omit [DecidableEq κ] [Zero A] [DecidableEq A] [Zero A'] [DecidableEq A'] in
theorem view_eq_destination {filler : A'}
    (hclock : s.destination.block.timestamp = s.source.block.timestamp) :
    view subject filler s = DestinationChain.view s.destination subject.hashlock filler
      (sourceEscrow subject s).leg := by
  simp [view, DestinationChain.view, hclock]

/-- The two expiries, of whatever terms there are. -/
structure Expiries (subject : Subject κ A') (filler : A') (e₁ e₂ : Nat)
    (s : BridgeState κ A W A' W') : Prop where
  source : ∀ t, (sourceEscrow subject s).terms = some t → t.expiry = e₁
  destination : ∀ t, (destinationEscrow subject filler s).terms = some t → t.expiry = e₂

variable {filler : A'} {e₁ e₂ : Nat}

/-- Terms stay, so the expiries of a later state are those of an earlier one. -/
theorem Expiries.before (hs : Sound b s) (h : Step b subject s s')
    (hexpiry : Expiries subject filler e₁ e₂ s') : Expiries subject filler e₁ e₂ s := by
  cases h with
  | act a ha =>
      cases a with
      | source c =>
          obtain ⟨hsegments, -, -⟩ := SourceChain.stepTx_call (P := fun _ => True)
            (SourceChain.all_opens c) hs.sourceFree
          exact ⟨fun t ht => hexpiry.source t (hsegments.terms ht), hexpiry.destination⟩
      | destination c =>
          obtain ⟨hsegments, -, -⟩ := DestinationChain.stepTx_call (d := b.destination)
            (P := fun _ => True) c.all_true hs.destinationFree
          exact ⟨hexpiry.source, fun t ht => hexpiry.destination t (hsegments.terms ht)⟩
      | elapse blocks blocks' seconds => exact ⟨hexpiry.source, hexpiry.destination⟩

/-- **What the two chains do is what two conditional payments do.** -/
theorem Step.simulates (hs : Sound b s) (h : Step b subject s s')
    (hexpiry : Expiries subject filler e₁ e₂ s') :
    Swap.Steps e₁ e₂ (view subject filler s) (view subject filler s') := by
  cases h with
  | act a ha =>
      cases a with
      | source c =>
          obtain ⟨hsegments, -, -⟩ := SourceChain.stepTx_call (P := fun _ => True)
            (SourceChain.all_opens c) hs.sourceFree
          exact hsegments.simulates hs.source.law _ hexpiry.source
      | destination c =>
          obtain ⟨hsegments, -, -⟩ :=
            DestinationChain.stepTx_call (d := b.destination) ha hs.destinationFree
          rw [view_eq_destination hs.clock,
            view_eq_destination (sound_act hs (.destination c)).clock]
          exact hsegments.simulates hs.destination
            (fun _ _ hP hsecret => EscrowSrc.leg_eq_paid.mpr (hP hsecret)) hexpiry.destination
      | elapse blocks blocks' seconds => exact .single (.wait _ seconds)

theorem Steps.simulates (hs : Sound b s) (h : Steps b subject s s') :
    Expiries subject filler e₁ e₂ s' →
      Swap.Steps e₁ e₂ (view subject filler s) (view subject filler s') := by
  induction h with
  | refl => exact fun _ => .refl
  | tail hsteps hstep ih =>
      have hsound := Steps.sound hs hsteps
      exact fun hexpiry => (ih (hexpiry.before hsound hstep)).trans
        (hstep.simulates hsound hexpiry)

/-- **Every run keeps the two payments together.** -/
theorem Reachable.atomic (h : Reachable b subject s)
    (hexpiry : Expiries subject filler e₁ e₂ s) :
    Swap.Atomic e₁ e₂ (view subject filler s) := by
  obtain ⟨tokens, tokens', number, number', timestamp, hsteps⟩ := h
  have hinit : Swap.Atomic e₁ e₂
      (view subject filler
        (deployed tokens tokens' number number' timestamp : BridgeState κ A W A' W')) :=
    ⟨nofun, nofun, nofun⟩
  exact Swap.atomic_steps hinit (Steps.simulates (sound_deployed ..) hsteps hexpiry)

end Bridge

end NeutronX.CrossChain
