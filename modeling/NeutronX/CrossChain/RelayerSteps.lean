import NeutronX.CrossChain.Atomicity
import NeutronX.CrossChain.DstBacking
import NeutronX.CrossChain.Relayer

/-!
# What the relayer relies on

A round knows a fill by what it has selected, and by the time it records a
claim the tables have moved on. What it can rely on is that a funded fill
keeps its escrow and that a settled escrow stays settled (`Onward`).
`RelayLaw` says what every row, job and transaction in hand stands for: a
nonce that was counted is still the next one, because the queue lets no
other claim of the chain go between, and a round that is about to record a
claim has one on the chain.
-/

namespace NeutronX.CrossChain

open Evm Sql Function

theorem RowStep.escrowDstAddr {κ A H : Type} {id : Nat} {r r' : FillRow κ A H}
    {st : Statement κ A H} (h : RowStep id r st r') (hfunded : r.status ≠ .quoted) :
    r'.escrowDstAddr = r.escrowDstAddr := by
  cases h with
  | dstFunded escrow hstatus => exact absurd hstatus hfunded
  | same | signed | srcLocked | revealed | claimed | slashed => rfl

/-- Only its own statement makes a row claimed. -/
theorem RowStep.claimed_cases {κ A H : Type} {id : Nat} {r r' : FillRow κ A H}
    {st : Statement κ A H} (h : RowStep id r st r') (hclaimed : r'.status = .claimed) :
    r.status = .claimed ∨ (st = .recordClaimed r.orderHash r.hashlock ∧ r.status = .revealed) := by
  cases h with
  | same => exact .inl hclaimed
  | claimed hstatus => exact .inr ⟨rfl, hstatus⟩
  | signed | dstFunded | srcLocked | revealed | slashed => cases hclaimed

/-- A `claim` that goes through, whatever is called back. -/
theorem DestinationChain.exec_claimed {A W : Type} [Zero A] [DecidableEq A]
    {d : DestinationChain A W} {msgSender f : A} {hl secret : Bytes32}
    {turns : List (List (Call (DestinationChain.Label A W)))} {s s' : DestinationState A W}
    (h : exec (body d) (.mk (.claim msgSender hl f secret) turns) s = .ok s') :
    (s'.escrows hl f).claimed = true := by
  refine resume_ensures (R := FullTurn d fun _ => True)
    (Q := fun s' => (s'.escrows hl f).claimed = true) (fun _ => .refl _)
    (fun cs s => runCalls_sat (fun _ => .refl _) (fun h h' => h.trans h')
      (fun l hl s => body_turn l hl s) (callsAll_true cs)) ?_ (by simpa [exec] using h)
  refine Prog.ensures_attempt fun s₁ hstart => fun s₂ h₂ => Prog.ensures_attempt fun s₃ hend => ?_
  have hclaiming : (s₁.escrows hl f).claimed = true := by
    simp only [claimStart, payOut, bind_eq_ok, pure_eq_ok] at hstart
    obtain ⟨⟨e, t⟩, hclaim, tokens, -, rfl⟩ := hstart
    obtain ⟨-, rfl⟩ := EscrowDst.claimStart_eq_ok.mp hclaim
    simp [setEscrow, EscrowDst.claiming]
  have hmeanwhile := h₂.segments.claimed hclaiming
  show (s₃.escrows hl f).claimed = true
  rw [(claimEnd_released hend).escrows, update₂_self]
  exact hmeanwhile

namespace Backend

variable {κ A W H : Type} [Zero A] {b : Backend κ A W H} {s s' : BackendState κ A W H}

/-! ## What lasts -/

/-- The clone at `a` has been claimed. -/
def ClaimedAt (b : Backend κ A W H) (s : BackendState κ A W H) (c : Nat) (a : A) : Prop :=
  ∃ h f, (b.destination c).computeAddress h f = a ∧
    ((s.destination c).escrows h f).claimed = true

/-- The fill a row was selected from, which settles on `c`. -/
def Tracked (s : BackendState κ A W H) (c : Nat) (row : RevealedRow κ A H) : Prop :=
  ∃ id r o, s.db.fills id = some r ∧ s.db.orders r.orderHash = some o ∧ o.dstChainId = c ∧
    r.orderHash = row.orderHash ∧ r.hashlock = row.hashlock ∧ r.status ≠ .quoted ∧
    r.escrowDstAddr = row.escrowDstAddr

/-- The escrow of a fill has been claimed. -/
def SettledRow (b : Backend κ A W H) (s : BackendState κ A W H) (r : FillRow κ A H) : Prop :=
  ∃ o a, s.db.orders r.orderHash = some o ∧ r.escrowDstAddr = some a ∧
    ClaimedAt b s o.dstChainId a

structure Onward (b : Backend κ A W H) (s s' : BackendState κ A W H) : Prop where
  tracked : ∀ c row, Tracked s c row → Tracked s' c row
  claimed : ∀ c a, ClaimedAt b s c a → ClaimedAt b s' c a

theorem Onward.refl (s : BackendState κ A W H) : Onward b s s :=
  ⟨fun _ _ h => h, fun _ _ h => h⟩

/-- No claim is about to be recorded. -/
structure Quiet (s : BackendState κ A W H) : Prop where
  pending : ∀ k h, .recordClaimed k h ∉ s.service.pending
  source : ∀ c k h, (s.srcWatcher c).work ≠ some (.recordClaimed k h)
  destination : ∀ c k h, (s.dstWatcher c).work ≠ some (.writing (.recordClaimed k h))

theorem Quiet.runs (hs : Quiet s) {m : b.Move} {k : κ} {h : H} :
    b.runs s m ≠ some (.recordClaimed k h) := by
  intro hrun
  rcases runs_cases hrun with hpending | ⟨c, hwork⟩ | ⟨c, hwork⟩
  · exact hs.pending k h hpending
  · exact hs.source c k h hwork
  · exact hs.destination c k h hwork

variable [DecidableEq κ] [DecidableEq A] [DecidableEq H]

theorem claimedAt_step (hreg : Regular b s) (m : b.Move) {c : Nat} {a : A}
    (h : ClaimedAt b s c a) : ClaimedAt b (b.step s m) c a := by
  obtain ⟨hl, f, haddress, hclaimed⟩ := h
  exact ⟨hl, f, haddress, (hreg.step_destination m c).segments.claimed hclaimed⟩

/-- Over one statement, or none. -/
theorem tracked_step (hreg : Regular b s) (m : b.Move) {c : Nat} {row : RevealedRow κ A H}
    (h : Tracked s c row) : Tracked (b.step s m) c row := by
  obtain ⟨id, r, o, hr, ho, hc, hk, hh, hfunded, hescrow⟩ := h
  obtain ⟨o', ho', hsame⟩ := (lasting_step hreg m).orders _ o ho
  obtain ⟨r', hr', rfl | ⟨st, -, hstep⟩⟩ := step_row hreg m hr
  · exact ⟨id, r', o', hr', ho', by rw [hsame.dstChainId, hc], hk, hh, hfunded, hescrow⟩
  · have hkey := hstep.sameKey
    exact ⟨id, r', o', hr', by rw [hkey.orderHash, ho'], by rw [hsame.dstChainId, hc],
      by rw [hkey.orderHash, hk], by rw [hkey.hashlock, hh],
      fun hquoted => hfunded (hstep.quoted hquoted),
      by rw [hstep.escrowDstAddr hfunded, hescrow]⟩

theorem onward_step (hreg : Regular b s) (m : b.Move) : Onward b s (b.step s m) :=
  ⟨fun _ _ h => tracked_step hreg m h, fun _ _ h => claimedAt_step hreg m h⟩

theorem settledRow_step (hreg : Regular b s) (m : b.Move) {r r' : FillRow κ A H}
    (h : SettledRow b s r) (horder : r'.orderHash = r.orderHash)
    (hescrow : r'.escrowDstAddr = r.escrowDstAddr) : SettledRow b (b.step s m) r' := by
  obtain ⟨o, a, ho, ha, hclaimed⟩ := h
  obtain ⟨o', ho', hsame⟩ := (lasting_step hreg m).orders _ o ho
  refine ⟨o', a, by rw [horder, ho'], by rw [hescrow, ha], ?_⟩
  rw [hsame.dstChainId]
  exact claimedAt_step hreg m hclaimed

/-! ## Claims are recorded by the relayer alone -/

omit [DecidableEq κ] [DecidableEq H] in
theorem select_not_claimed {now : Nat} {req : Request κ A H} {k : κ} {h : H} :
    b.service.select now s.db req ≠ .ok (.recordClaimed k h) := by
  intro hselect
  cases Service.select_checked hselect

omit [DecidableEq κ] [DecidableEq H] in
theorem handleSrc_not_claimed {x : SourceState κ A W} {c choice : Nat} {e : SourceEvent κ A}
    {k : κ} {h : H} : b.handleSrc x s.db c choice e ≠ some (.recordClaimed k h) := by
  intro hread
  unfold handleSrc at hread
  split at hread
  case h_1 =>
      unfold handleFilled at hread
      split at hread <;> cases hread
  case h_2 | h_3 =>
      obtain ⟨r, -, hst⟩ := Option.map_eq_some_iff.mp hread
      cases hst
  case h_4 => cases hread

theorem quiet_step (hs : Quiet s) {m : b.Move} (hm : m.besideRelayer = true ∨ m = .restart) :
    Quiet (b.step s m) := by
  constructor
  case pending =>
      intro k h hst
      cases m with
      | relay => rcases hm with hm | hm <;> cases hm
      | request now req =>
          simp only [step, Service.move] at hst
          split at hst
          case h_2 => exact hs.pending k h hst
          case h_1 st hselect =>
              rcases List.mem_cons.mp hst with rfl | hold
              · exact select_not_claimed hselect
              · exact hs.pending k h hold
      | execute place =>
          simp only [step, Service.move] at hst
          split at hst
          case h_2 => exact hs.pending k h hst
          case h_1 => exact hs.pending k h (List.mem_of_mem_eraseIdx hst)
      | source | destination | srcWatcher | dstWatcher => exact hs.pending k h hst
      | restart => simp [step] at hst
  case source =>
      intro c k h hwork
      rcases step_srcWork hwork with hold | ⟨choice, e, -, hread⟩
      · exact hs.source c k h hold
      · exact handleSrc_not_claimed hread
  case destination =>
      intro c k h hwork
      rcases step_dstWork hwork with hold | ⟨choice, e, -, hread⟩ | ⟨q, st, -, hcheck, heq⟩
      · exact hs.destination c k h hold
      · obtain ⟨q, hq⟩ := handleDst_found hread
        cases hq
      · unfold checkQuote at hcheck
        split at hcheck
        · obtain rfl := Option.some.inj hcheck
          cases heq
        · cases hcheck

/-- What a claimed row stands for, over an instruction beside the relayer. -/
theorem settledRows_step (hreg : Regular b s) (hquiet : Quiet s)
    (hs : ∀ id r, s.db.fills id = some r → r.status = .claimed → SettledRow b s r) (m : b.Move) :
    ∀ id r', (b.step s m).db.fills id = some r' → r'.status = .claimed →
      SettledRow b (b.step s m) r' := by
  intro id r' hr' hclaimed
  rcases step_back hreg m hr' with ⟨r, hr, rfl | ⟨st, hst, hstep⟩⟩ | ⟨-, q, -, -, rfl⟩
  · exact settledRow_step hreg m (hs id r' hr hclaimed) rfl rfl
  · rcases hstep.claimed_cases hclaimed with hold | ⟨rfl, -⟩
    · exact settledRow_step hreg m (hs id r hr hold) hstep.sameKey.orderHash
        (hstep.escrowDstAddr (by simp [hold]))
    · exact absurd hst hquiet.runs
  · cases hclaimed

/-! ## The round's own statement -/

/-- The statement a round runs, as one that waited. -/
def waitingFor (s : BackendState κ A W H) (k : κ) (h : H) : BackendState κ A W H :=
  { s with service := ⟨s.db, .recordClaimed k h :: s.service.pending⟩ }

def recorded (s : BackendState κ A W H) (k : κ) (h : H) : BackendState κ A W H :=
  { s with service := { s.service with db := s.db.execute (.recordClaimed k h) } }

omit [DecidableEq H] in
theorem regular_waitingFor (hs : Regular b s) (k : κ) (h : H) : Regular b (waitingFor s k h) :=
  ⟨hs.fresh, hs.unique, hs.referenced, hs.source, hs.destination⟩

theorem regular_recorded (hs : Regular b s) (k : κ) (h : H) : Regular b (recorded s k h) :=
  regular_step (regular_waitingFor hs k h) (.execute 0)

theorem backed_recorded (hreg : Regular b s) (hs : Backed b s) (k : κ) (h : H) :
    Backed b (recorded s k h) := by
  have hlast : Lasting s (waitingFor s k h) :=
    ⟨fun _ r hr => ⟨r, hr, .refl r, fun h => h⟩, fun _ o ho => ⟨o, ho, .refl o⟩,
      fun _ _ _ _ h => h, fun _ _ _ _ h => h, fun _ _ _ h => h, fun _ => List.suffix_refl _⟩
  have hwaiting : Backed b (waitingFor s k h) := by
    constructor
    case pending =>
        intro st hst
        rcases List.mem_cons.mp hst with rfl | hold
        · trivial
        · exact (hs.pending st hold).later hlast
    case source => exact fun c st hst => (hs.source c st hst).later hlast
    case found => exact fun c q hq => (hs.found c q hq).later hlast
    case writing => exact fun c st hst => (hs.writing c st hst).later hlast
    case genuine => exact fun id r a hr ha => (hs.genuine id r a hr ha).later hlast (.refl r)
    case funded => exact hs.funded
  exact backed_step (regular_waitingFor hreg k h) hwaiting (.execute 0)

theorem onward_recorded (hreg : Regular b s) (k : κ) (h : H) : Onward b s (recorded s k h) :=
  have hstep := onward_step (regular_waitingFor hreg k h) (.execute 0)
  ⟨fun c row htracked => hstep.tracked c row htracked,
    fun c a hclaimed => hstep.claimed c a hclaimed⟩

/-! ## What is in hand -/

variable {label : Nat → String} {x x' : RelayState κ A W H}

omit [DecidableEq κ] [DecidableEq A] [DecidableEq H] in
/-- A job has its chain's key, and a claim that went well is on the chain. -/
def JobLaw (b : Backend κ A W H) (label : Nat → String) (x : RelayState κ A W H)
    (j : Job String (ClaimCall A) Sending Bool) : Prop :=
  j.key = b.queueKey label j.data.dstChainId ∧
    match j.stage with
    | .waiting | .running .called => True
    | .running (.counted nonce) => nonce = (x.sent j.data.dstChainId).length
    | .running (.sent nonce) =>
        ∃ tx, (x.sent j.data.dstChainId)[nonce]? = some tx ∧ tx.escrow = j.data.escrow
    | .settled status => status = true → ClaimedAt b x.backend j.data.dstChainId j.data.escrow

omit [DecidableEq κ] [DecidableEq A] [DecidableEq H] in
def StageLaw (b : Backend κ A W H) (x : RelayState κ A W H) (c : Nat) :
    RoundStage κ A H → Prop
  | .next => True
  | .asking row escrow _ _ => Tracked x.backend c row ∧ row.escrowDstAddr = some escrow
  | .queued row job => Tracked x.backend c row ∧ ∃ j, x.claimQueues.jobs[job]? = some j ∧
      j.data.dstChainId = c ∧ row.escrowDstAddr = some j.data.escrow
  | .recording row => Tracked x.backend c row ∧
      ∃ a, row.escrowDstAddr = some a ∧ ClaimedAt b x.backend c a

omit [DecidableEq κ] [DecidableEq A] [DecidableEq H] in
structure RoundLaw (b : Backend κ A W H) (x : RelayState κ A W H) (rd : RelayRound κ A H) :
    Prop where
  rows : ∀ row ∈ rd.rows, Tracked x.backend rd.dstChainId row
  stage : StageLaw b x rd.dstChainId rd.stage

omit [DecidableEq κ] [DecidableEq A] [DecidableEq H] in
/-- A transaction that went well has claimed its escrow. -/
structure AccountLaw (b : Backend κ A W H) (x : RelayState κ A W H) : Prop where
  mined_le : ∀ c, (x.mined c).length ≤ (x.sent c).length
  claimed : ∀ (c n : Nat) (tx : ClaimTx A), (x.mined c)[n]? = some true →
    (x.sent c)[n]? = some tx → ClaimedAt b x.backend c tx.escrow

structure RelayLaw (b : Backend κ A W H) (label : Nat → String) (x : RelayState κ A W H) :
    Prop where
  regular : Regular b x.backend
  backed : Backed b x.backend
  quiet : Quiet x.backend
  serial : x.claimQueues.Serial
  jobs : ∀ (id : Nat) (j : Job String (ClaimCall A) Sending Bool),
    x.claimQueues.jobs[id]? = some j → JobLaw b label x j
  account : AccountLaw b x
  rounds : ∀ rd ∈ x.rounds, RoundLaw b x rd
  settled : ∀ id r, x.backend.db.fills id = some r → r.status = .claimed →
    SettledRow b x.backend r

omit [DecidableEq κ] [DecidableEq A] [DecidableEq H] in
theorem JobLaw.later {j : Job String (ClaimCall A) Sending Bool} (h : JobLaw b label x j)
    (honward : Onward b x.backend x'.backend)
    (hsent : x'.sent j.data.dstChainId = x.sent j.data.dstChainId) : JobLaw b label x' j := by
  refine ⟨h.1, ?_⟩
  have hstage := h.2
  rw [hsent]
  split at hstage
  case h_1 | h_2 => trivial
  case h_3 => exact hstage
  case h_4 => exact hstage
  case h_5 status _ => exact fun hstatus => honward.claimed _ _ (hstage hstatus)

omit [DecidableEq κ] [DecidableEq A] [DecidableEq H] in
theorem RoundLaw.later {rd : RelayRound κ A H} (h : RoundLaw b x rd)
    (honward : Onward b x.backend x'.backend)
    (hjobs : SerialQueue.Later x.claimQueues x'.claimQueues) : RoundLaw b x' rd := by
  refine ⟨fun row hrow => honward.tracked _ _ (h.rows row hrow), ?_⟩
  have hstage := h.stage
  cases hrd : rd.stage with
  | next => trivial
  | asking row escrow claimed refunded =>
      rw [hrd] at hstage
      exact ⟨honward.tracked _ _ hstage.1, hstage.2⟩
  | queued row job =>
      rw [hrd] at hstage
      obtain ⟨htracked, j, hj, hc, hescrow⟩ := hstage
      obtain ⟨j', hj', hkept⟩ := hjobs job j hj
      exact ⟨honward.tracked _ _ htracked, j', hj', by rw [hkept.data, hc],
        by rw [hkept.data, hescrow]⟩
  | recording row =>
      rw [hrd] at hstage
      obtain ⟨htracked, a, ha, hclaimed⟩ := hstage
      exact ⟨honward.tracked _ _ htracked, a, ha, honward.claimed _ _ hclaimed⟩

omit [DecidableEq κ] [DecidableEq A] [DecidableEq H] in
theorem AccountLaw.later (h : AccountLaw b x) (honward : Onward b x.backend x'.backend)
    (hsent : x'.sent = x.sent) (hmined : x'.mined = x.mined) : AccountLaw b x' := by
  refine ⟨fun c => by rw [hsent, hmined]; exact h.mined_le c, fun c n tx hn htx => ?_⟩
  rw [hmined] at hn
  rw [hsent] at htx
  exact honward.claimed c _ (h.claimed c n tx hn htx)

omit [DecidableEq κ] [DecidableEq A] [DecidableEq H] in
theorem AccountLaw.append (h : AccountLaw b x) (c : Nat) (tx : ClaimTx A) :
    AccountLaw b { x with sent := update x.sent c (x.sent c ++ [tx]) } := by
  refine ⟨fun c' => ?_, fun c' n tx' hn htx => ?_⟩
  · by_cases hc : c' = c
    · subst hc
      simpa using Nat.le_succ_of_le (h.mined_le c')
    · simpa [update_of_ne hc] using h.mined_le c'
  · by_cases hc : c' = c
    · subst hc
      obtain ⟨hlt, -⟩ := List.getElem?_eq_some_iff.mp hn
      have hin : n < (x.sent c').length := Nat.lt_of_lt_of_le hlt (h.mined_le c')
      exact h.claimed c' n tx' hn (by simpa [List.getElem?_append_left hin] using htx)
    · exact h.claimed c' n tx' hn (by simpa [update_of_ne hc] using htx)

/-! ## One lemma for each part of the state -/

omit [DecidableEq H] in
/-- The backend goes on. -/
theorem RelayLaw.backend (h : RelayLaw b label x) {y : BackendState κ A W H}
    (hreg : Regular b y) (hbacked : Backed b y) (hquiet : Quiet y)
    (honward : Onward b x.backend y)
    (hsettled : ∀ id r, y.db.fills id = some r → r.status = .claimed → SettledRow b y r) :
    RelayLaw b label { x with backend := y } where
  regular := hreg
  backed := hbacked
  quiet := hquiet
  serial := h.serial
  jobs := fun id j hj => (h.jobs id j hj).later honward rfl
  account := h.account.later honward rfl rfl
  rounds := fun rd hrd => (h.rounds rd hrd).later honward (.refl _)
  settled := hsettled

theorem RelayLaw.step (h : RelayLaw b label x) {m : b.Move}
    (hm : m.besideRelayer = true ∨ m = .restart) :
    RelayLaw b label { x with backend := b.step x.backend m } :=
  h.backend (regular_step h.regular m) (backed_step h.regular h.backed m) (quiet_step h.quiet hm)
    (onward_step h.regular m) (settledRows_step h.regular h.quiet h.settled m)

omit [DecidableEq H] in
/-- A round goes on. -/
theorem RelayLaw.setRound (h : RelayLaw b label x) (i : Nat) {rd : RelayRound κ A H}
    (hrd : RoundLaw b x rd) : RelayLaw b label (x.setRound i rd) where
  regular := h.regular
  backed := h.backed
  quiet := h.quiet
  serial := h.serial
  jobs := fun id j hj => (h.jobs id j hj).later (.refl _) rfl
  account := h.account.later (.refl _) rfl rfl
  rounds := fun rd' hrd' => by
    have hlaw : RoundLaw b x rd' := by
      rcases List.mem_or_eq_of_mem_set hrd' with hold | rfl
      · exact h.rounds rd' hold
      · exact hrd
    exact hlaw.later (.refl _) (.refl _)
  settled := h.settled

omit [DecidableEq H] in
/-- A job goes on. -/
theorem RelayLaw.turn (h : RelayLaw b label x) {q : ClaimQueues A}
    (hturn : SerialQueue.Turn x.claimQueues q)
    (hjobs : ∀ (id : Nat) (j : Job String (ClaimCall A) Sending Bool),
      q.jobs[id]? = some j → JobLaw b label x j) :
    RelayLaw b label { x with claimQueues := q } where
  regular := h.regular
  backed := h.backed
  quiet := h.quiet
  serial := SerialQueue.serial_turn h.serial hturn
  jobs := fun id j hj => (hjobs id j hj).later (.refl _) rfl
  account := h.account.later (.refl _) rfl rfl
  rounds := fun rd hrd => (h.rounds rd hrd).later (.refl _) hturn.later
  settled := h.settled

omit [DecidableEq H] in
/-- One job is set, to what the law asks of it. -/
theorem RelayLaw.put (h : RelayLaw b label x) {id : Nat}
    {j : Job String (ClaimCall A) Sending Bool} {st : JobStage Sending Bool}
    (hj : x.claimQueues.jobs[id]? = some j)
    (hturn : SerialQueue.Turn x.claimQueues (x.claimQueues.put id st))
    (hlaw : JobLaw b label x { j with stage := st }) : RelayLaw b label (x.setStage id st) := by
  refine h.turn hturn fun i j' hj' => ?_
  by_cases hi : id = i
  · subst hi
    obtain rfl := Option.some.inj ((SerialQueue.put_self hj).symm.trans hj')
    exact hlaw
  · rw [SerialQueue.put_of_ne hi] at hj'
    exact h.jobs i j' hj'

omit [DecidableEq H] in
/-- A nonce that was counted is still the next one. -/
theorem RelayLaw.accepted (h : RelayLaw b label x) {id nonce : Nat}
    {j : Job String (ClaimCall A) Sending Bool} (hj : x.claimQueues.jobs[id]? = some j)
    (hstage : j.stage = .running (.counted nonce)) (tx : ClaimTx A) :
    accepted (x.sent j.data.dstChainId) (x.mined j.data.dstChainId).length nonce tx =
      some (x.sent j.data.dstChainId ++ [tx]) := by
  have hlaw := (h.jobs id j hj).2
  rw [hstage] at hlaw
  rw [CrossChain.accepted, if_pos hlaw]

omit [DecidableEq H] in
/-- The claim of a job is broadcast. -/
theorem RelayLaw.broadcast (h : RelayLaw b label x) {id nonce : Nat}
    {j : Job String (ClaimCall A) Sending Bool} (hj : x.claimQueues.jobs[id]? = some j)
    (hstage : j.stage = .running (.counted nonce)) (secret : Bytes32) :
    RelayLaw b label { x.setStage id (.running (.sent nonce)) with
      sent := update x.sent j.data.dstChainId
        (x.sent j.data.dstChainId ++ [⟨j.data.escrow, secret⟩]) } := by
  obtain ⟨c, hc⟩ : ∃ c, c = j.data.dstChainId := ⟨_, rfl⟩
  have hnonce : nonce = (x.sent c).length := by
    have hlaw := (h.jobs id j hj).2
    rw [hstage] at hlaw
    rw [hc]
    exact hlaw
  have hturn : SerialQueue.Turn x.claimQueues (x.claimQueues.put id (.running (.sent nonce))) :=
    .goOn _ id j (.counted nonce) (.sent nonce) hj hstage
  rw [← hc]
  refine ⟨h.regular, h.backed, h.quiet, SerialQueue.serial_turn h.serial hturn, ?_, ?_,
    fun rd hrd => (h.rounds rd hrd).later (.refl _) hturn.later, h.settled⟩
  case refine_1 =>
      intro i j' hj'
      by_cases hi : id = i
      · subst hi
        obtain rfl := Option.some.inj ((SerialQueue.put_self hj).symm.trans hj')
        refine ⟨(h.jobs id j hj).1, ⟨j.data.escrow, secret⟩, ?_, rfl⟩
        simp [← hc, hnonce]
      · have hold : x.claimQueues.jobs[i]? = some j' := (SerialQueue.put_of_ne hi).symm.trans hj'
        have hlaw := h.jobs i j' hold
        by_cases hchain : j'.data.dstChainId = c
        · refine ⟨hlaw.1, ?_⟩
          have hstage' := hlaw.2
          cases hst : j'.stage with
          | waiting => trivial
          | settled status =>
              rw [hst] at hstage'
              exact hstage'
          | running p =>
              -- two claims of one chain are not under way at once
              have hkey : j.key = j'.key := by
                rw [(h.jobs id j hj).1, hlaw.1, ← hc, hchain]
              exact absurd (h.serial.exclusive hj hold hstage hst hkey) hi
        · exact hlaw.later (.refl _) (update_of_ne hchain ..)
  case refine_2 => exact (h.account.append c ⟨j.data.escrow, secret⟩).later (.refl _) rfl rfl

omit [DecidableEq H] in
theorem RelayLaw.work (h : RelayLaw b label x) {id : Nat}
    {j : Job String (ClaimCall A) Sending Bool} (hj : x.claimQueues.jobs[id]? = some j) :
    RelayLaw b label (work x id j) := by
  have hlaw := h.jobs id j hj
  unfold Backend.work
  simp only
  split
  case h_1 hstage =>
      exact h.put hj (.goOn _ id j .called _ hj hstage) ⟨hlaw.1, rfl⟩
  case h_2 nonce secret hstage hsecret =>
      rw [h.accepted hj hstage]
      exact h.broadcast hj hstage secret
  case h_3 nonce hstage =>
      split
      case h_2 => exact h
      case h_1 status hstatus =>
          have hsent := hlaw.2
          rw [hstage] at hsent
          obtain ⟨tx, htx, hescrow⟩ := hsent
          refine h.put hj (.settle _ id j (.sent nonce) status hj hstage) ⟨hlaw.1, fun heq => ?_⟩
          subst heq
          exact hescrow ▸ h.account.claimed _ nonce tx hstatus htx
  case h_4 => exact h

omit [DecidableEq H] in
/-- The next transaction is mined. -/
theorem RelayLaw.mined (h : RelayLaw b label x) {c : Nat} {tx : ClaimTx A} {status : Bool}
    (hnext : (x.sent c)[(x.mined c).length]? = some tx)
    (hstatus : status = true → ClaimedAt b x.backend c tx.escrow) :
    RelayLaw b label { x with mined := update x.mined c (x.mined c ++ [status]) } where
  regular := h.regular
  backed := h.backed
  quiet := h.quiet
  serial := h.serial
  jobs := fun id j hj => (h.jobs id j hj).later (.refl _) rfl
  rounds := fun rd hrd => (h.rounds rd hrd).later (.refl _) (.refl _)
  settled := h.settled
  account := by
    obtain ⟨hlt, -⟩ := List.getElem?_eq_some_iff.mp hnext
    refine ⟨fun c' => ?_, fun c' n tx' hn htx => ?_⟩
    · by_cases hc : c' = c
      · subst hc
        simpa using Nat.succ_le_of_lt hlt
      · simpa [update_of_ne hc] using h.account.mined_le c'
    · by_cases hc : c' = c
      · subst hc
        simp only [update_self, List.getElem?_append] at hn
        split at hn
        · exact h.account.claimed c' n tx' hn htx
        · -- the one that was mined now
          have hn' : n = (x.mined c').length ∧ status = true := by
            rw [List.getElem?_singleton] at hn
            split at hn
            · exact ⟨by omega, Option.some.inj hn⟩
            · cases hn
          obtain ⟨rfl, hok⟩ := hn'
          obtain rfl := Option.some.inj (hnext.symm.trans htx)
          exact hstatus hok
      · simp only [update_of_ne hc] at hn
        exact h.account.claimed c' n tx' hn htx

theorem RelayLaw.mine (h : RelayLaw b label x) {c : Nat} {hashlock : Bytes32} {filler : A}
    {turns : List (List (Call (DestinationChain.Label A W)))} {tx : ClaimTx A}
    (hnext : (x.sent c)[(x.mined c).length]? = some tx) :
    RelayLaw b label (b.mine x c hashlock filler turns tx) := by
  unfold Backend.mine
  split
  case isFalse => exact h
  case isTrue haddress =>
      let call : Call (DestinationChain.Label A W) :=
        .mk (.claim b.relayer hashlock filler tx.secret) turns
      have hstep := h.step (m := .destination c (.call call)) (.inl rfl)
      refine hstep.mined hnext fun hok => ⟨hashlock, filler, haddress, ?_⟩
      cases hexec : exec (DestinationChain.body (b.destination c)) call
        (x.backend.destination c) with
      | error e =>
          rw [hexec] at hok
          cases hok
      | ok d =>
          have hd : ((b.step x.backend (.destination c (.call call))).destination c) = d := by
            simp [Backend.step, BackendState.setDestination, stepTx, hexec]
          rw [hd]
          exact DestinationChain.exec_claimed hexec

/-! ## Rounds -/

omit [DecidableEq κ] [DecidableEq A] [DecidableEq H] in
theorem RoundLaw.rejected {rd : RelayRound κ A H} (h : RoundLaw b x rd) :
    RoundLaw b x rd.rejected :=
  ⟨h.rows, trivial⟩

omit [DecidableEq κ] [DecidableEq A] [DecidableEq H] in
theorem RoundLaw.consider {rd : RelayRound κ A H} (h : RoundLaw b x rd) (now : Nat) :
    RoundLaw b x (rd.consider now) := by
  unfold RelayRound.consider
  split
  case h_2 => exact h
  case h_1 row rows _ hrows =>
      have hrow : Tracked x.backend rd.dstChainId row := h.rows row (by simp [hrows])
      have hrest : ∀ row' ∈ rows, Tracked x.backend rd.dstChainId row' :=
        fun row' hrow' => h.rows row' (by simp [hrows, hrow'])
      split
      case h_1 => exact ⟨hrest, h.stage⟩
      case h_2 escrow hescrow =>
          split
          · exact ⟨hrest, h.stage⟩
          · exact ⟨hrest, hrow, hescrow⟩

omit [DecidableEq κ] [DecidableEq A] [DecidableEq H] in
theorem RoundLaw.answerClaimed {rd : RelayRound κ A H} (h : RoundLaw b x rd) (v : Bool) :
    RoundLaw b x (rd.answerClaimed v) := by
  unfold RelayRound.answerClaimed
  split
  case h_2 => exact h
  case h_1 row escrow refunded hstage =>
      have hlaw := h.stage
      rw [hstage] at hlaw
      exact ⟨h.rows, hlaw⟩

omit [DecidableEq κ] [DecidableEq A] [DecidableEq H] in
theorem RoundLaw.answerRefunded {rd : RelayRound κ A H} (h : RoundLaw b x rd) (v : Bool) :
    RoundLaw b x (rd.answerRefunded v) := by
  unfold RelayRound.answerRefunded
  split
  case h_2 => exact h
  case h_1 row escrow claimed hstage =>
      have hlaw := h.stage
      rw [hstage] at hlaw
      exact ⟨h.rows, hlaw⟩

omit [DecidableEq H] in
theorem RelayLaw.answer (h : RelayLaw b label x) (i : Nat) (hashlock : Bytes32) (filler : A)
    {set : EscrowDst A → RelayRound κ A H → RelayRound κ A H}
    (hset : ∀ e rd, RoundLaw b x rd → RoundLaw b x (set e rd)) :
    RelayLaw b label (b.answer x i hashlock filler set) := by
  unfold Backend.answer
  split
  case h_1 => exact h
  case h_2 rd hi =>
      split
      case h_1 e _ => exact h.setRound i (hset e rd (h.rounds rd (List.mem_of_getElem? hi)))
      case h_2 => exact h

omit [DecidableEq H] in
/-- A call joins the queue. -/
theorem RelayLaw.enqueue (h : RelayLaw b label x) (call : ClaimCall A) :
    RelayLaw b label { x with
      claimQueues := x.claimQueues.enqueue (b.queueKey label call.dstChainId) call } where
  regular := h.regular
  backed := h.backed
  quiet := h.quiet
  serial := SerialQueue.serial_enqueue h.serial _ _
  jobs := fun id j hj => by
    rcases SerialQueue.enqueue_eq_some.mp hj with hold | ⟨-, rfl⟩
    · exact (h.jobs id j hold).later (.refl _) rfl
    · exact ⟨rfl, trivial⟩
  account := h.account.later (.refl _) rfl rfl
  rounds := fun rd hrd => (h.rounds rd hrd).later (.refl _) (SerialQueue.later_enqueue _ _)
  settled := h.settled

omit [DecidableEq H] in
theorem RelayLaw.resume (h : RelayLaw b label x) {i : Nat} {rd : RelayRound κ A H}
    (hrd : RoundLaw b x rd) : RelayLaw b label (b.resume label x i rd) := by
  have hlaw := hrd.stage
  unfold Backend.resume
  split
  case h_1 row escrow claimed refunded hstage =>
      rw [hstage] at hlaw
      obtain ⟨htracked, hescrow⟩ := hlaw
      split
      case isTrue => exact h.setRound i hrd.rejected
      case isFalse =>
          let call : ClaimCall A := ⟨rd.dstChainId, escrow, row.secret⟩
          have hnew := SerialQueue.enqueue_eq_some (q := x.claimQueues) (d := call)
            (k := b.queueKey label rd.dstChainId) |>.mpr (.inr ⟨rfl, rfl⟩)
          exact (h.enqueue call).setRound i ⟨hrd.rows, htracked, _, hnew, rfl, hescrow⟩
  case h_2 row job hstage =>
      rw [hstage] at hlaw
      obtain ⟨htracked, j, hj, hc, hescrow⟩ := hlaw
      split
      case h_1 hsettled =>
          rw [hj] at hsettled
          have hjob := (h.jobs job j hj).2
          rw [Option.some.inj hsettled] at hjob
          refine h.setRound i ⟨hrd.rows, htracked, _, hescrow, ?_⟩
          rw [← hc]
          exact hjob rfl
      case h_2 => exact h.setRound i hrd.rejected
      case h_3 => exact h
  case h_3 => exact h

omit [DecidableEq κ] [DecidableEq A] [DecidableEq H] in
/-- A row by its key is the one that is tracked. -/
theorem Tracked.settledRow {c : Nat} {row : RevealedRow κ A H} {id : Nat} {r : FillRow κ A H}
    {a : A} (htracked : Tracked s c row) (hunique : s.db.Unique) (hr : s.db.fills id = some r)
    (horder : r.orderHash = row.orderHash) (hhash : r.hashlock = row.hashlock)
    (ha : row.escrowDstAddr = some a) (hclaimed : ClaimedAt b s c a) : SettledRow b s r := by
  obtain ⟨id₀, r₀, o, hr₀, ho, rfl, hk, hh, -, hescrow⟩ := htracked
  obtain rfl := hunique id₀ id r₀ r hr₀ hr (hk.trans horder.symm) (hh.trans hhash.symm)
  obtain rfl := Option.some.inj (hr₀.symm.trans hr)
  exact ⟨o, a, ho, hescrow.trans ha, hclaimed⟩

theorem RelayLaw.record (h : RelayLaw b label x) {i : Nat} {rd : RelayRound κ A H}
    (hrd : RoundLaw b x rd) : RelayLaw b label (record x i rd) := by
  have hlaw := hrd.stage
  unfold Backend.record
  split
  case h_2 => exact h
  case h_1 row hstage =>
      rw [hstage] at hlaw
      obtain ⟨htracked, a, ha, hclaimed⟩ := hlaw
      have honward := onward_recorded h.regular row.orderHash row.hashlock
      have hbackend : RelayLaw b label
          { x with backend := recorded x.backend row.orderHash row.hashlock } := by
        refine h.backend (regular_recorded h.regular _ _) (backed_recorded h.regular h.backed _ _)
          ⟨h.quiet.pending, h.quiet.source, h.quiet.destination⟩ honward fun id r' hr' hdone => ?_
        have hkeep : ∀ {r : FillRow κ A H}, SettledRow b x.backend r →
            r'.orderHash = r.orderHash → r'.escrowDstAddr = r.escrowDstAddr →
            SettledRow b (recorded x.backend row.orderHash row.hashlock) r' :=
          fun hsettled => settledRow_step (s := waitingFor x.backend row.orderHash row.hashlock)
            (regular_waitingFor h.regular _ _) (.execute 0) hsettled
        change (x.backend.db.execute (.recordClaimed row.orderHash row.hashlock)).fills id = some r'
          at hr'
        rcases Db.execute_back h.regular.fresh hr' with ⟨r, hr, hstep⟩ | ⟨-, q, hq, -⟩
        case inr => cases hq
        case inl =>
            rcases hstep.claimed_cases hdone with hold | ⟨heq, hrevealed⟩
            · exact hkeep (h.settled id r hr hold) hstep.sameKey.orderHash
                (hstep.escrowDstAddr (by simp [hold]))
            · obtain ⟨horder, hhash⟩ := Statement.recordClaimed.inj heq
              have hsettled : SettledRow b x.backend r :=
                htracked.settledRow h.regular.unique hr horder.symm hhash.symm ha hclaimed
              exact hkeep hsettled hstep.sameKey.orderHash
                (hstep.escrowDstAddr (by simp [hrevealed]))
      exact hbackend.setRound i (hrd.rejected.later honward (.refl _))

omit [DecidableEq H] in
theorem RelayLaw.fail (h : RelayLaw b label x) {i : Nat} {rd : RelayRound κ A H}
    (hrd : RoundLaw b x rd) : RelayLaw b label (fail x i rd) := by
  unfold Backend.fail
  split
  case h_1 | h_2 => exact h.setRound i hrd.rejected
  case h_3 => exact h

omit [DecidableEq H] in
theorem RelayLaw.poll (h : RelayLaw b label x) {c : Nat} {ids : List Nat}
    (hids : ids.Perm (x.backend.db.fillsWhere (selects x.backend.db c))) :
    RelayLaw b label { x with
      rounds := x.rounds ++ [⟨c, .next, ids.filterMap (selectRow x.backend.db)⟩] } where
  regular := h.regular
  backed := h.backed
  quiet := h.quiet
  serial := h.serial
  jobs := fun id j hj => (h.jobs id j hj).later (.refl _) rfl
  account := h.account.later (.refl _) rfl rfl
  settled := h.settled
  rounds := fun rd hrd => by
    rcases List.mem_append.mp hrd with hold | hnew
    · exact (h.rounds rd hold).later (.refl _) (.refl _)
    · obtain rfl := List.mem_singleton.mp hnew
      refine ⟨fun row hrow => ?_, trivial⟩
      obtain ⟨id, hid, hselect⟩ := List.mem_filterMap.mp hrow
      obtain ⟨r, hr, hp⟩ := (Db.mem_fillsWhere h.regular.fresh).mp (hids.mem_iff.mp hid)
      obtain ⟨r', hr', rfl⟩ := Option.map_eq_some_iff.mp hselect
      obtain rfl := Option.some.inj (hr.symm.trans hr')
      simp only [selects, Bool.and_eq_true, beq_iff_eq, Option.any_eq_true] at hp
      obtain ⟨hstatus, o, ho, hc⟩ := hp
      exact ⟨id, r, o, hr, ho, hc, rfl, rfl, by simp [hstatus], rfl⟩

/-! ## One instruction -/

/-- **Every instruction keeps the law.** -/
theorem relayLaw_step (h : RelayLaw b label x) (m : b.RelayMove) :
    RelayLaw b label (b.relayStep label x m) := by
  cases m with
  | backend m =>
      simp only [relayStep]
      split
      case isTrue hm => exact h.step (.inl hm)
      case isFalse => exact h
  | poll c ids =>
      simp only [relayStep]
      split
      case isTrue hids => exact h.poll hids.2
      case isFalse => exact h
  | restart =>
      have hstep := h.step (m := .restart) (.inr rfl)
      exact ⟨hstep.regular, hstep.backed, hstep.quiet, SerialQueue.serial_init,
        fun id j hj => by simp [relayStep, SerialQueue.init] at hj,
        hstep.account.later (.refl _) rfl rfl, fun rd hrd => by simp [relayStep] at hrd,
        hstep.settled⟩
  | consider i now =>
      simp only [relayStep]
      cases hi : x.rounds[i]? with
      | none => exact h
      | some rd => exact h.setRound i ((h.rounds rd (List.mem_of_getElem? hi)).consider now)
  | readClaimed i hashlock filler =>
      exact h.answer i hashlock filler fun e rd hrd => hrd.answerClaimed e.claimed
  | readRefunded i hashlock filler =>
      exact h.answer i hashlock filler fun e rd hrd => hrd.answerRefunded e.refunded
  | resume i =>
      simp only [relayStep]
      cases hi : x.rounds[i]? with
      | none => exact h
      | some rd => exact h.resume (h.rounds rd (List.mem_of_getElem? hi))
  | record i =>
      simp only [relayStep]
      cases hi : x.rounds[i]? with
      | none => exact h
      | some rd => exact h.record (h.rounds rd (List.mem_of_getElem? hi))
  | fail i =>
      simp only [relayStep]
      cases hi : x.rounds[i]? with
      | none => exact h
      | some rd => exact h.fail (h.rounds rd (List.mem_of_getElem? hi))
  | start id =>
      simp only [relayStep]
      cases hid : x.claimQueues.jobs[id]? with
      | none => exact h
      | some j =>
          simp only
          split
          case isFalse => exact h
          case isTrue hready =>
              exact h.put hid (.start _ id j .called hid hready.1 hready.2)
                ⟨(h.jobs id j hid).1, trivial⟩
  | work id =>
      simp only [relayStep]
      cases hid : x.claimQueues.jobs[id]? with
      | none => exact h
      | some j => exact h.work hid
  | reject id =>
      simp only [relayStep]
      split
      case h_2 => exact h
      case h_1 p hrunning =>
          obtain ⟨j, hj, hstage⟩ := Option.map_eq_some_iff.mp hrunning
          exact h.put hj (.settle _ id j p false hj hstage)
            ⟨(h.jobs id j hj).1, fun hfalse => by cases hfalse⟩
  | mine c hashlock filler turns =>
      simp only [relayStep]
      cases hnext : (x.sent c)[(x.mined c).length]? with
      | none => exact h
      | some tx => exact h.mine hnext

end Backend

end NeutronX.CrossChain
