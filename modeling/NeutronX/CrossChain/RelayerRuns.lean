import NeutronX.CrossChain.RelayerSteps
import NeutronX.CrossChain.RevealRelay

/-!
# Runs of the relayer

A fill that is called claimed has been paid (`claimed_paid`), and claims
are sent in turn (`claims_in_turn`). The converse of the first fails: a
round leaves an escrow that is settled already, so a claim that somebody
else made, or whose record a restart lost, is never recorded
(`settled_stays`).
-/

namespace NeutronX.CrossChain

open Evm Sql Function

namespace Backend

variable {κ A W H : Type} [Zero A] [DecidableEq κ] [DecidableEq A] [DecidableEq H]
  {b : Backend κ A W H} {s : BackendState κ A W H} {label : Nat → String}
  {x x' : RelayState κ A W H}

/-! ## From the start -/

omit [Zero A] [DecidableEq κ] [DecidableEq A] [DecidableEq H] in
theorem quiet_init {source : Nat → SourceState κ A W} {destination : Nat → DestinationState A W} :
    Quiet (.init source destination : BackendState κ A W H) where
  pending := fun _ _ => List.not_mem_nil
  source := fun _ _ _ hwork => by cases hwork
  destination := fun _ _ _ hwork => by cases hwork

theorem relayLaw_steps (h : RelayLaw b label x) (hsteps : b.RelaySteps label x x') :
    RelayLaw b label x' := by
  induction hsteps with
  | refl => exact h
  | tail _ hstep ih =>
      obtain ⟨m, rfl⟩ := hstep
      exact relayLaw_step ih m

/-- A schedule of instructions. -/
def runRelay (b : Backend κ A W H) (label : Nat → String) (ms : List b.RelayMove)
    (x : RelayState κ A W H) : RelayState κ A W H :=
  ms.foldl (b.relayStep label) x

theorem runRelay_steps (label : Nat → String) :
    ∀ (ms : List b.RelayMove) (x : RelayState κ A W H), b.RelaySteps label x (b.runRelay label ms x)
  | [], _ => .refl
  | m :: ms, x => .head ⟨m, rfl⟩ (runRelay_steps label ms (b.relayStep label x m))

omit [DecidableEq H] in
theorem relayLaw_init {source : Nat → SourceState κ A W} {destination : Nat → DestinationState A W}
    (hsource : ∀ c, SourceChain.Reachable (b.source c) (source c))
    (hdestination : ∀ c, DestinationChain.Reachable (b.destination c) (destination c)) :
    RelayLaw b label (.init (.init source destination)) where
  regular := regular_init hsource hdestination
  backed := backed_init
  quiet := quiet_init
  serial := SerialQueue.serial_init
  jobs := fun id j hj => by simp [RelayState.init, SerialQueue.init] at hj
  account := ⟨fun c => Nat.le_refl _, fun c n tx hn => by simp [RelayState.init] at hn⟩
  rounds := fun rd hrd => by simp [RelayState.init] at hrd
  settled := fun id r hr => by
    simp [RelayState.init, BackendState.init, ServiceState.init, Db.init, Table.empty] at hr

theorem RelayReachable.law (h : b.RelayReachable label x) : RelayLaw b label x := by
  obtain ⟨source, destination, hsource, hdestination, hsteps⟩ := h
  exact relayLaw_steps (relayLaw_init hsource hdestination) hsteps

/-! ## A fill that is relayed -/

/-- The fill of 40 is authorised, its source escrow opened and its secret
revealed. -/
def toReveal : List Ledger.backend.Move :=
  Ledger.authorisedFill 90 ++ [.srcWatcher 1 (.connect 9 false)] ++
    Leg.lockedBy (CoWFiller.account Ledger.cowFiller .chainA)

/-- A round claims it on chain 2. -/
def toClaim : List Ledger.backend.RelayMove :=
  [.poll 2 [1], .consider 0 0, .readClaimed 0 8 14, .readRefunded 0 8 14, .resume 0, .start 0,
    .work 0, .work 0, .mine 2 8 14 [], .work 0, .resume 0, .record 0]

def revealedState : RelayState (OrderInfo Nat) Nat (Ledger Nat) Bytes32 :=
  Ledger.backend.runRelay (fun _ => "dst") (toReveal.map .backend) (.init (Ledger.launched
    (update₂ (fun _ _ => 0) 6 (Ledger.destinationChain.computeAddress 8 14) 40)))

theorem revealedState_reachable : Ledger.backend.RelayReachable (fun _ => "dst") revealedState :=
  ⟨_, _, fun _ => ⟨_, _, [], rfl⟩, fun _ => ⟨_, _, [], rfl⟩, runRelay_steps _ _ _⟩

/-! ## What a claimed fill has been paid -/

/-- The escrow of the fill paid the swapper once, for the secret, by T2. -/
structure PaidFill (b : Backend κ A W H) (s : BackendState κ A W H) (r : FillRow κ A H)
    (o : OrderRow A) (h : Bytes32) (f : A) (t : DstTerms A) (time : Nat) (secret : Bytes32) :
    Prop where
  backs : Backs b s r o h f t
  escrow : r.escrowDstAddr = some ((b.destination o.dstChainId).computeAddress h f)
  payouts : ((s.destination o.dstChainId).escrows h f).payouts =
    [⟨o.info.swapper, t.amount, time, some secret⟩]
  secret : (b.destination o.dstChainId).keccak secret = h
  time : time ≤ r.t2

/-- **A fill is called claimed only if its swapper has been paid**, whatever
the rounds, the claims and the backend did in between. -/
theorem RelayReachable.claimed_paid (hx : b.RelayReachable label x) {id : Nat}
    {r : FillRow κ A H} (hr : x.backend.db.fills id = some r) (hclaimed : r.status = .claimed) :
    ∃ o h f t time secret, PaidFill b x.backend r o h f t time secret := by
  have hlaw := hx.law
  obtain ⟨o, a, ho, ha, h, f, haddress, hdone⟩ := hlaw.settled id r hr hclaimed
  obtain ⟨o', h', f', t, hback, haddress'⟩ := hlaw.backed.genuine id r a hr ha
  obtain rfl := Option.some.inj (ho.symm.trans hback.order)
  obtain ⟨rfl, rfl⟩ := b.dstAddress_injective (haddress.trans haddress')
  have hmoment := (hlaw.regular.destination o.dstChainId).1
  have hlocated := hmoment.located h f t hback.terms
  cases (hmoment.law h f).standing t hback.terms with
  | unsettled hopen | refunded _ hopen => exact absurd (hdone.symm.trans hopen) (by simp)
  | claimed time secret _ _ htime hsecret hpayouts =>
      refine ⟨o, h, f, t, time, secret, hback, by rw [ha, haddress'], ?_, ?_, ?_⟩
      · rw [hpayouts, hback.recipient]
      · rw [hsecret, hlocated.hashlock]
      · exact hback.expiry ▸ htime

theorem claimed_paid_relayed :
    ∃ (x : RelayState (OrderInfo Nat) Nat (Ledger Nat) Bytes32)
      (r : FillRow (OrderInfo Nat) Nat Bytes32), x.backend.db.fills 1 = some r ∧ r.fillAmount = 40 ∧
      ∃ o h f t time secret, PaidFill Ledger.backend x.backend r o h f t time secret := by
  let x := Ledger.backend.runRelay (fun _ => "dst") toClaim revealedState
  have hx : Ledger.backend.RelayReachable (fun _ => "dst") x := by
    obtain ⟨source, destination, hsource, hdestination, hsteps⟩ := revealedState_reachable
    exact ⟨source, destination, hsource, hdestination, hsteps.trans (runRelay_steps _ _ _)⟩
  obtain ⟨r, hr, hrow⟩ : ∃ r, x.backend.db.fills 1 = some r ∧
      (r.status, r.fillAmount) = (.claimed, 40) := Option.map_eq_some_iff.mp (by decide +kernel)
  simp only [Prod.mk.injEq] at hrow
  exact ⟨x, r, hr, hrow.2, hx.claimed_paid hr hrow.1⟩

/-! ## Claims in turn -/

omit [DecidableEq κ] [DecidableEq A] [DecidableEq H] in
theorem resume_sent (x : RelayState κ A W H) (i : Nat) (rd : RelayRound κ A H) :
    (b.resume label x i rd).sent = x.sent := by
  unfold resume
  split
  case h_1 => split <;> rfl
  case h_2 => split <;> rfl
  case h_3 => rfl

omit [DecidableEq κ] [DecidableEq H] in
theorem answer_sent (x : RelayState κ A W H) (i : Nat) (hashlock : Bytes32) (filler : A)
    (set : EscrowDst A → RelayRound κ A H → RelayRound κ A H) :
    (b.answer x i hashlock filler set).sent = x.sent := by
  unfold answer
  split
  case h_1 => rfl
  case h_2 => split <;> rfl

omit [DecidableEq H] in
/-- A broadcast adds to what is sent, and nothing else changes it. -/
theorem work_sent (h : RelayLaw b label x) {id : Nat}
    {j : Job String (ClaimCall A) Sending Bool} (hj : x.claimQueues.jobs[id]? = some j) (c : Nat) :
    x.sent c <+: (work x id j).sent c := by
  unfold work
  simp only
  split
  case h_1 => exact List.prefix_refl _
  case h_2 nonce secret hstage hsecret =>
      rw [h.accepted hj hstage]
      by_cases hc : c = j.data.dstChainId
      · subst hc
        simp only [update_self]
        exact List.prefix_append _ _
      · simp only [update_of_ne hc]
        exact List.prefix_refl _
  case h_3 => split <;> exact List.prefix_refl _
  case h_4 => exact List.prefix_refl _

theorem sent_step (h : RelayLaw b label x) (m : b.RelayMove) (c : Nat) :
    x.sent c <+: (b.relayStep label x m).sent c := by
  cases m with
  | work id =>
      simp only [relayStep]
      cases hj : x.claimQueues.jobs[id]? with
      | none => exact List.prefix_refl _
      | some j => exact work_sent h hj c
  | backend | poll =>
      simp only [relayStep]
      split <;> exact List.prefix_refl _
  | consider i now =>
      simp only [relayStep]
      cases x.rounds[i]? with
      | none => exact List.prefix_refl _
      | some rd => exact List.prefix_refl _
  | readClaimed i hashlock filler | readRefunded i hashlock filler =>
      simp only [relayStep, answer_sent, List.prefix_refl]
  | resume i =>
      simp only [relayStep]
      cases x.rounds[i]? with
      | none => exact List.prefix_refl _
      | some rd =>
          show x.sent c <+: (b.resume label x i rd).sent c
          rw [resume_sent]
  | record i =>
      simp only [relayStep]
      cases x.rounds[i]? with
      | none => exact List.prefix_refl _
      | some rd =>
          simp only [Option.map_some, Option.getD_some, record]
          split <;> exact List.prefix_refl _
  | fail i =>
      simp only [relayStep]
      cases x.rounds[i]? with
      | none => exact List.prefix_refl _
      | some rd =>
          simp only [Option.map_some, Option.getD_some, fail]
          split <;> exact List.prefix_refl _
  | start id =>
      simp only [relayStep]
      split
      case h_1 => split <;> exact List.prefix_refl _
      case h_2 => exact List.prefix_refl _
  | reject id =>
      simp only [relayStep]
      split <;> exact List.prefix_refl _
  | mine c' hashlock filler turns =>
      simp only [relayStep]
      cases (x.sent c')[(x.mined c').length]? with
      | none => exact List.prefix_refl _
      | some tx =>
          simp only [Option.map_some, Option.getD_some, mine]
          split <;> exact List.prefix_refl _
  | restart => exact List.prefix_refl _

/-- Failing attempts, as instructions. -/
theorem attempts_steps {q : ClaimQueues A}
    (h : SerialQueue.Attempts Sending.called false x.claimQueues q) :
    b.RelaySteps label x { x with claimQueues := q } := by
  induction h with
  | refl => exact .refl
  | tail _ hattempt ih =>
      refine ih.tail ?_
      cases hattempt with
      | start id j hj hstage hready =>
          refine ⟨.start id, ?_⟩
          simp only [relayStep, hj, hstage, hready, true_and, if_true]
          rfl
      | settle id j p hj hstage =>
          refine ⟨.reject id, ?_⟩
          simp only [relayStep, hj, Option.map_some, hstage]
          rfl

/-- **Claims in turn**: what the relayer has broadcast stays broadcast under
its nonce, the claims of one chain are sent one after the other in the
order in which they were queued, and none waits for ever, even if all
before it fail. -/
theorem RelayReachable.claims_in_turn (hx : b.RelayReachable label x)
    (hsteps : b.RelaySteps label x x') :
    (∀ c, x.sent c <+: x'.sent c) ∧
      (∀ (i id : Nat) (ji j : Job String (ClaimCall A) Sending Bool), i < id →
        x'.claimQueues.jobs[i]? = some ji → x'.claimQueues.jobs[id]? = some j →
        ji.data.dstChainId = j.data.dstChainId → j.stage ≠ .waiting →
        ∃ status, ji.stage = .settled status) ∧
      ∀ (id : Nat) (j : Job String (ClaimCall A) Sending Bool),
        x'.claimQueues.jobs[id]? = some j →
        ∃ x'', b.RelaySteps label x' x'' ∧ x''.claimQueues.IsSettled id := by
  have hlaw' := relayLaw_steps hx.law hsteps
  refine ⟨fun c => ?_, fun i id ji j hlt hi hid hc hstarted => ?_, fun id j hj => ?_⟩
  · have hlaw := hx.law
    clear hlaw' hx
    induction hsteps with
    | refl => exact List.prefix_refl _
    | tail hrun hstep ih =>
        obtain ⟨m, rfl⟩ := hstep
        exact ih.trans (sent_step (relayLaw_steps hlaw hrun) m c)
  · have hkey : ji.key = j.key := by
      rw [(hlaw'.jobs i ji hi).1, (hlaw'.jobs id j hid).1, hc]
    obtain ⟨j', status, hj', hsettled⟩ := hlaw'.serial.order id j hid hstarted i hlt ⟨ji, hi, hkey⟩
    obtain rfl := Option.some.inj (hi.symm.trans hj')
    exact ⟨status, hsettled⟩
  · obtain ⟨q, hattempts, hsettled⟩ :=
      SerialQueue.settles Sending.called false id hlaw'.serial hj
    exact ⟨_, attempts_steps hattempts, hsettled⟩

theorem claims_in_turn_relayed :
    ∃ x x' : RelayState (OrderInfo Nat) Nat (Ledger Nat) Bytes32,
      (x'.sent 2).length = 1 ∧ x.sent 2 <+: x'.sent 2 ∧
      ∃ x'', Ledger.backend.RelaySteps (fun _ => "dst") x' x'' ∧ x''.claimQueues.IsSettled 0 := by
  have hsteps := runRelay_steps (fun _ => "dst") toClaim revealedState
  have hone :
      ((Ledger.backend.runRelay (fun _ => "dst") toClaim revealedState).sent 2).length = 1 := by
    decide +kernel
  obtain ⟨j, hj⟩ : ∃ j, (Ledger.backend.runRelay (fun _ => "dst") toClaim
      revealedState).claimQueues.jobs[0]? = some j :=
    Option.isSome_iff_exists.mp (by decide +kernel)
  generalize Ledger.backend.runRelay (fun _ => "dst") toClaim revealedState = x' at hsteps hone hj
  obtain ⟨hsent, -, hsettles⟩ := revealedState_reachable.claims_in_turn hsteps
  exact ⟨revealedState, x', hone, hsent 2, hsettles 0 j hj⟩

/-! ## Claims that are never recorded -/

/-- The stage will not record the fill `(k, h)`, unless it still has to read
that its escrow is open. -/
def Passes (k : κ) (h : H) : RoundStage κ A H → Prop
  | .next => True
  | .asking row _ claimed _ => row.orderHash = k → row.hashlock = h → claimed ≠ some false
  | .queued row _ | .recording row => ¬(row.orderHash = k ∧ row.hashlock = h)

/-- No round has got past its reads with the fill. -/
def Unattended (x : RelayState κ A W H) (k : κ) (h : H) : Prop :=
  ∀ rd ∈ x.rounds, Passes k h rd.stage

/-- The fill with the id `id` is not recorded, and its escrow on `c` is
claimed. -/
structure Missed (b : Backend κ A W H) (x : RelayState κ A W H) (id : Nat) (k : κ) (h : H)
    (c : Nat) (a : A) : Prop where
  row : ∃ r o, x.backend.db.fills id = some r ∧ x.backend.db.orders k = some o ∧
    r.orderHash = k ∧ r.hashlock = h ∧ o.dstChainId = c ∧ r.escrowDstAddr = some a ∧
    r.status ≠ .quoted ∧ r.status ≠ .claimed
  claimed : ClaimedAt b x.backend c a
  unattended : Unattended x k h

variable {id c : Nat} {k : κ} {h : H} {a : A}

omit [Zero A] [DecidableEq κ] [DecidableEq A] [DecidableEq H] in
theorem Unattended.setRound (hx : Unattended x k h) (i : Nat) {rd : RelayRound κ A H}
    (hrd : Passes k h rd.stage) : Unattended (x.setRound i rd) k h := by
  intro rd' hrd'
  rcases List.mem_or_eq_of_mem_set hrd' with hold | rfl
  · exact hx rd' hold
  · exact hrd

/-- The row and its escrow, over an instruction of the backend. -/
theorem Missed.backend (hx : Missed b x id k h c a) (hlaw : RelayLaw b label x) {m : b.Move}
    (hrun : ∀ st, b.runs x.backend m = some st → st ≠ .recordClaimed k h) :
    Missed b { x with backend := b.step x.backend m } id k h c a := by
  obtain ⟨r, o, hr, ho, rfl, rfl, hc, ha, hfunded, hopen⟩ := hx.row
  refine ⟨?_, claimedAt_step hlaw.regular m hx.claimed, hx.unattended⟩
  obtain ⟨o', ho', hsame⟩ := (lasting_step hlaw.regular m).orders _ o ho
  obtain ⟨r', hr', rfl | ⟨st, hst, hstep⟩⟩ := step_row hlaw.regular m hr
  · exact ⟨r', o', hr', ho', rfl, rfl, hsame.dstChainId.trans hc, ha, hfunded, hopen⟩
  · have hkey := hstep.sameKey
    refine ⟨r', o', hr', ho', hkey.orderHash, hkey.hashlock, hsame.dstChainId.trans hc,
      (hstep.escrowDstAddr hfunded).trans ha, fun hquoted => hfunded (hstep.quoted hquoted),
      fun hclaimed => ?_⟩
    rcases hstep.claimed_cases hclaimed with hold | ⟨rfl, -⟩
    · exact hopen hold
    · exact hrun _ hst rfl

omit [DecidableEq H] in
/-- Whoever asks the escrow is told that it is claimed. -/
theorem Missed.told (hx : Missed b x id k h c a) (hlaw : RelayLaw b label x)
    {row : RevealedRow κ A H} {dst : Nat} {escrow filler : A} {hashlock : Bytes32}
    {e : EscrowDst A} (htracked : Tracked x.backend dst row)
    (hescrow : row.escrowDstAddr = some escrow) (horder : row.orderHash = k)
    (hhash : row.hashlock = h) (he : b.cloneAt x.backend dst escrow hashlock filler = some e) :
    e.claimed = true := by
  obtain ⟨r, o, hr, ho, rfl, rfl, rfl, ha, -, -⟩ := hx.row
  obtain ⟨id₀, r₀, o₀, hr₀, ho₀, rfl, hk, hh, -, hescrow₀⟩ := htracked
  obtain rfl := hlaw.regular.unique id₀ id r₀ r hr₀ hr (hk.trans horder) (hh.trans hhash)
  obtain rfl := Option.some.inj (hr₀.symm.trans hr)
  obtain rfl := Option.some.inj (ho₀.symm.trans ho)
  obtain rfl := Option.some.inj (ha.symm.trans (hescrow₀.trans hescrow))
  obtain ⟨hl, f, haddress, hclaimed⟩ := hx.claimed
  unfold cloneAt at he
  simp only at he
  split at he
  case isFalse => cases he
  case isTrue hclone =>
      obtain rfl := Option.some.inj he
      obtain ⟨rfl, rfl⟩ := b.dstAddress_injective (hclone.1.trans haddress.symm)
      exact hclaimed

/-! A round that has the fill leaves it, or asks. -/

omit [Zero A] [DecidableEq κ] [DecidableEq A] [DecidableEq H] in
theorem passes_consider {rd : RelayRound κ A H} (hrd : Passes k h rd.stage) (now : Nat) :
    Passes k h (rd.consider now).stage := by
  unfold RelayRound.consider
  split
  case h_2 => exact hrd
  case h_1 row rows _ _ =>
      split
      case h_1 => exact hrd
      case h_2 escrow _ =>
          split
          case isTrue => exact hrd
          case isFalse => exact fun _ _ hread => by cases hread

omit [DecidableEq H] in
theorem Missed.answerClaimed (hx : Missed b x id k h c a) (hlaw : RelayLaw b label x) (i : Nat)
    (hashlock : Bytes32) (filler : A) :
    Missed b (b.answer x i hashlock filler fun e => RelayRound.answerClaimed e.claimed)
      id k h c a := by
  unfold answer
  split
  case h_1 => exact hx
  case h_2 rd hi =>
      have hmem := List.mem_of_getElem? hi
      split
      case h_2 => exact hx
      case h_1 e he =>
          refine ⟨hx.row, hx.claimed, hx.unattended.setRound i ?_⟩
          show Passes k h (rd.answerClaimed e.claimed).stage
          unfold RelayRound.answerClaimed
          split
          case h_2 => exact hx.unattended rd hmem
          case h_1 row escrow refunded hstage =>
              have hround := (hlaw.rounds rd hmem).stage
              rw [hstage] at hround
              simp only [RelayRound.asked, hstage, Option.bind_some] at he
              intro horder hhash
              rw [hx.told hlaw hround.1 hround.2 horder hhash he]
              simp

omit [DecidableEq κ] [DecidableEq H] in
theorem Missed.answerRefunded (hx : Missed b x id k h c a) (i : Nat) (hashlock : Bytes32)
    (filler : A) :
    Missed b (b.answer x i hashlock filler fun e => RelayRound.answerRefunded e.refunded)
      id k h c a := by
  unfold answer
  split
  case h_1 => exact hx
  case h_2 rd hi =>
      have hpasses := hx.unattended rd (List.mem_of_getElem? hi)
      split
      case h_2 => exact hx
      case h_1 e he =>
          refine ⟨hx.row, hx.claimed, hx.unattended.setRound i ?_⟩
          show Passes k h (rd.answerRefunded e.refunded).stage
          unfold RelayRound.answerRefunded
          split
          case h_2 => exact hpasses
          case h_1 row escrow claimed hstage =>
              rw [hstage] at hpasses
              exact hpasses

omit [DecidableEq κ] [DecidableEq A] [DecidableEq H] in
theorem Missed.resume (hx : Missed b x id k h c a) {i : Nat} {rd : RelayRound κ A H}
    (hrd : rd ∈ x.rounds) : Missed b (b.resume label x i rd) id k h c a := by
  have hpasses := hx.unattended rd hrd
  unfold Backend.resume
  split
  case h_1 row escrow claimed refunded hstage =>
      rw [hstage] at hpasses
      split
      case isTrue => exact ⟨hx.row, hx.claimed, hx.unattended.setRound i trivial⟩
      case isFalse hopen =>
          refine ⟨hx.row, hx.claimed, hx.unattended.setRound i ?_⟩
          rintro ⟨horder, hhash⟩
          refine hpasses horder hhash ?_
          simp only [Bool.or_eq_true, not_or, Bool.not_eq_true] at hopen
          rw [hopen.1]
  case h_2 row job hstage =>
      rw [hstage] at hpasses
      split
      case h_1 => exact ⟨hx.row, hx.claimed, hx.unattended.setRound i hpasses⟩
      case h_2 => exact ⟨hx.row, hx.claimed, hx.unattended.setRound i trivial⟩
      case h_3 => exact hx
  case h_3 => exact hx

theorem Missed.record (hx : Missed b x id k h c a) (hlaw : RelayLaw b label x) {i : Nat}
    {rd : RelayRound κ A H} (hrd : rd ∈ x.rounds) : Missed b (record x i rd) id k h c a := by
  have hpasses := hx.unattended rd hrd
  unfold Backend.record
  split
  case h_2 => exact hx
  case h_1 row hstage =>
      rw [hstage] at hpasses
      obtain ⟨r, o, hr, ho, rfl, rfl, hc, ha, hfunded, hopen⟩ := hx.row
      have honward := onward_recorded hlaw.regular row.orderHash row.hashlock
      refine ⟨⟨r, o, ?_, ho, rfl, rfl, hc, ha, hfunded, hopen⟩, honward.claimed _ _ hx.claimed,
        hx.unattended.setRound i trivial⟩
      -- the statement is for another row
      have hother : ¬(r.orderHash = row.orderHash ∧ r.hashlock = row.hashlock) :=
        fun hsame => hpasses ⟨hsame.1.symm, hsame.2.symm⟩
      simp [Db.execute, Db.recordClaimed, Db.record, Table.updateWhere, hr, hother]

/-- **Such a fill stays as it is.** -/
theorem missed_step (hlaw : RelayLaw b label x) (hx : Missed b x id k h c a) (m : b.RelayMove) :
    Missed b (b.relayStep label x m) id k h c a := by
  cases m with
  | backend m =>
      simp only [relayStep]
      split
      case isTrue =>
          exact hx.backend hlaw fun st hst heq => hlaw.quiet.runs (heq ▸ hst)
      case isFalse => exact hx
  | restart =>
      have hstep := hx.backend hlaw (m := .restart) fun st hst => by cases hst
      exact ⟨hstep.row, hstep.claimed, fun rd hrd => by simp [relayStep] at hrd⟩
  | poll c' ids =>
      simp only [relayStep]
      split
      case isFalse => exact hx
      case isTrue =>
          refine ⟨hx.row, hx.claimed, fun rd hrd => ?_⟩
          rcases List.mem_append.mp hrd with hold | hnew
          · exact hx.unattended rd hold
          · rw [List.mem_singleton.mp hnew]
            trivial
  | consider i now =>
      simp only [relayStep]
      cases hi : x.rounds[i]? with
      | none => exact hx
      | some rd =>
          have hpasses := hx.unattended rd (List.mem_of_getElem? hi)
          exact ⟨hx.row, hx.claimed, hx.unattended.setRound i (passes_consider hpasses now)⟩
  | readClaimed i hashlock filler => exact hx.answerClaimed hlaw i hashlock filler
  | readRefunded i hashlock filler => exact hx.answerRefunded i hashlock filler
  | resume i =>
      simp only [relayStep]
      cases hi : x.rounds[i]? with
      | none => exact hx
      | some rd => exact hx.resume (List.mem_of_getElem? hi)
  | record i =>
      simp only [relayStep]
      cases hi : x.rounds[i]? with
      | none => exact hx
      | some rd => exact hx.record hlaw (List.mem_of_getElem? hi)
  | fail i =>
      simp only [relayStep]
      cases hi : x.rounds[i]? with
      | none => exact hx
      | some rd =>
          simp only [Option.map_some, Option.getD_some, fail]
          split
          case h_1 | h_2 => exact ⟨hx.row, hx.claimed, hx.unattended.setRound i trivial⟩
          case h_3 => exact hx
  | start id' =>
      simp only [relayStep]
      split
      case h_1 =>
          split
          case isTrue => exact ⟨hx.row, hx.claimed, hx.unattended⟩
          case isFalse => exact hx
      case h_2 => exact hx
  | work id' =>
      simp only [relayStep]
      cases x.claimQueues.jobs[id']? with
      | none => exact hx
      | some j =>
          simp only [Option.map_some, Option.getD_some, work]
          split
          case h_1 => exact ⟨hx.row, hx.claimed, hx.unattended⟩
          case h_2 | h_3 =>
              split
              case h_1 => exact ⟨hx.row, hx.claimed, hx.unattended⟩
              case h_2 => exact hx
          case h_4 => exact hx
  | reject id' =>
      simp only [relayStep]
      split
      case h_1 => exact ⟨hx.row, hx.claimed, hx.unattended⟩
      case h_2 => exact hx
  | mine c' hashlock filler turns =>
      simp only [relayStep]
      cases (x.sent c')[(x.mined c').length]? with
      | none => exact hx
      | some tx =>
          simp only [Option.map_some, Option.getD_some, mine]
          split
          case isFalse => exact hx
          case isTrue =>
              have hstep := hx.backend hlaw (m := .destination c' (.call (.mk
                (.claim b.relayer hashlock filler tx.secret) turns))) fun st hst => by cases hst
              exact ⟨hstep.row, hstep.claimed, hstep.unattended⟩

/-- **A claim that the relayer did not wait for is never recorded**: once the
escrow of a revealed fill is claimed and no round is past its reads with
the fill, its row is not called claimed whatever happens. -/
theorem RelayReachable.settled_stays (hx : b.RelayReachable label x) {r : FillRow κ A H}
    {o : OrderRow A} (hr : x.backend.db.fills id = some r)
    (ho : x.backend.db.orders r.orderHash = some o) (hstatus : r.status = .revealed)
    (ha : r.escrowDstAddr = some a) (hclaimed : ClaimedAt b x.backend o.dstChainId a)
    (hun : Unattended x r.orderHash r.hashlock) (hsteps : b.RelaySteps label x x') :
    ∃ r', x'.backend.db.fills id = some r' ∧ r'.status ≠ .claimed := by
  have hlaw := hx.law
  have hmissed : Missed b x id r.orderHash r.hashlock o.dstChainId a :=
    ⟨⟨r, o, hr, ho, rfl, rfl, rfl, ha, by simp [hstatus], by simp [hstatus]⟩, hclaimed, hun⟩
  have hend : Missed b x' id r.orderHash r.hashlock o.dstChainId a := by
    induction hsteps with
    | refl => exact hmissed
    | tail hrun hstep ih =>
        obtain ⟨m, rfl⟩ := hstep
        exact missed_step (relayLaw_steps hlaw hrun) ih m
  obtain ⟨r', o', hr', -, -, -, -, -, -, hopen⟩ := hend.row
  exact ⟨r', hr', hopen⟩

/-- The swapper claims himself, and then the relayer's round comes by. -/
theorem settled_stays_swapper :
    ∃ x : RelayState (OrderInfo Nat) Nat (Ledger Nat) Bytes32,
      Ledger.backend.RelaySteps (fun _ => "dst") revealedState x ∧
      ∃ r', x.backend.db.fills 1 = some r' ∧ r'.status ≠ .claimed := by
  let claim : Ledger.backend.RelayMove :=
    .backend (.destination 2 (.call (.leaf (.claim 2 8 14 7))))
  let x := Ledger.backend.runRelay (fun _ => "dst") [claim] revealedState
  have hx : Ledger.backend.RelayReachable (fun _ => "dst") x := by
    obtain ⟨source, destination, hsource, hdestination, hsteps⟩ := revealedState_reachable
    exact ⟨source, destination, hsource, hdestination, hsteps.trans (runRelay_steps _ _ _)⟩
  let info : OrderInfo Nat := ⟨2, 4, 100, 6, 90, 1000, 0, 3000⟩
  let escrow := Ledger.destinationChain.computeAddress 8 14
  obtain ⟨r, hr, hrow⟩ : ∃ r, x.backend.db.fills 1 = some r ∧
      (r.orderHash, r.status, r.escrowDstAddr) = (info, .revealed, some escrow) :=
    Option.map_eq_some_iff.mp (by decide +kernel)
  obtain ⟨o, ho, hchain⟩ : ∃ o, x.backend.db.orders info = some o ∧ o.dstChainId = 2 :=
    Option.map_eq_some_iff.mp (by decide +kernel)
  simp only [Prod.mk.injEq] at hrow
  obtain ⟨horder, hstatus, ha⟩ := hrow
  have hclaimed : ClaimedAt Ledger.backend x.backend o.dstChainId escrow :=
    hchain ▸ ⟨8, 14, rfl, by decide +kernel⟩
  have hnobody : x.rounds = [] := List.isEmpty_iff.mp (by decide +kernel)
  have hun : Unattended x r.orderHash r.hashlock := fun rd hrd => by simp [hnobody] at hrd
  have hrounds := runRelay_steps (fun _ => "dst") toClaim x
  exact ⟨_, (runRelay_steps _ [claim] revealedState).trans hrounds,
    hx.settled_stays hr (horder ▸ ho) hstatus ha hclaimed hun hrounds⟩

end Backend

end NeutronX.CrossChain
