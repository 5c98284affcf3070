import NeutronX.CrossChain.DestinationSteps
import NeutronX.CrossChain.FillFunding
import NeutronX.CrossChain.ServiceSteps
import NeutronX.CrossChain.SourceRuns

/-!
# What the process of a fill can do

Every step has one of a few effects (`Effect`): the chains and the backend
move on, a program starts, hears an answer or ends, a transaction is sent,
mined or dropped. Neither clone of the fill ever loses its code, and a
transaction that creates one only goes through where there was none.
-/

namespace NeutronX.CrossChain

open Evm Function

namespace FillProcess

variable {κ A W : Type} [DecidableEq κ] [Zero A] [DecidableEq A] (n : FillNetwork κ A W)
  (F : QuotedFill κ)

/-! ## The two clones -/

omit [Zero A] [DecidableEq A] [DecidableEq κ] in
/-- The slot of the fill is taken. -/
def srcFilled (s : State κ A W) : Bool :=
  ((s.source F.legs).escrows F.orderHash F.hashlock).fill.isSome

/-- Code stays. -/
structure Kept (s s' : State κ A W) : Prop where
  deployed : dstDeployed n F s = true → dstDeployed n F s' = true
  filled : srcFilled F s = true → srcFilled F s' = true

omit [Zero A] [DecidableEq A] in
def deploysClone : Ask κ A → Bool
  | .dstDeploy legs hashlock _ _ _ _ => legs = F.legs ∧ hashlock = F.hashlock
  | _ => false

omit [Zero A] [DecidableEq A] in
def takesSlot : Ask κ A → Bool
  | .fillSlot legs _ _ auth _ _ =>
      legs = F.legs ∧ auth.orderHash = F.orderHash ∧ auth.hashlock = F.hashlock
  | _ => false

variable {n F} {s s' : State κ A W}

omit [DecidableEq κ] [DecidableEq A] in
theorem Kept.refl (s : State κ A W) : Kept n F s s := ⟨id, id⟩

omit [DecidableEq κ] [DecidableEq A] in
theorem kept_setSource {legs : ChainLegs} {c : SourceState κ A W}
    (h : ∀ k hl fill, ((s.source legs).escrows k hl).fill = some fill →
      (c.escrows k hl).fill = some fill) : Kept n F s (s.setSource legs c) := by
  refine ⟨id, fun hfilled => ?_⟩
  by_cases hsame : F.legs = legs
  · subst hsame
    obtain ⟨fill, hfill⟩ := Option.isSome_iff_exists.mp hfilled
    simp only [srcFilled, State.setSource, update_self]
    exact Option.isSome_iff_exists.mpr ⟨fill, h _ _ fill hfill⟩
  · simpa [srcFilled, State.setSource, hsame] using hfilled

omit [DecidableEq κ] in
theorem kept_setDestination {legs : ChainLegs} {c : DestinationState A W}
    (h : DestinationChain.Segments (n.destination legs) (fun _ => True) (s.destination legs) c) :
    Kept n F s (s.setDestination legs c) := by
  refine ⟨fun hdeployed => ?_, id⟩
  by_cases hsame : F.legs = legs
  · subst hsame
    obtain ⟨t, ht⟩ := Option.isSome_iff_exists.mp hdeployed
    simp only [dstDeployed, State.setDestination, update_self]
    exact Option.isSome_iff_exists.mpr ⟨t, h.terms ht⟩
  · simpa [dstDeployed, State.setDestination, hsame] using hdeployed

theorem stepTx_source_kept (legs : ChainLegs)
    (tx : Tx (SourceChain.Label (n.chain legs)) SourceChain.Elapse) (s : State κ A W) :
    Kept n F s (s.setSource legs
      (stepTx (SourceChain.body (n.chain legs)) SourceChain.elapse tx (s.source legs))) := by
  refine kept_setSource fun k hl fill hfill => ?_
  cases tx with
  | tick t => exact hfill
  | call c =>
      simp only [stepTx]
      cases hx : exec (SourceChain.body (n.chain legs)) c (s.source legs) with
      | error e => exact hfill
      | ok c' => exact (SourceChain.exec_turn (SourceChain.all_opens c) hx).fills k hl fill hfill

omit [DecidableEq κ] in
theorem stepTx_destination_kept (legs : ChainLegs)
    (tx : Tx (DestinationChain.Label A W) SourceChain.Elapse) (s : State κ A W) :
    Kept n F s (s.setDestination legs
      (stepTx (DestinationChain.body (n.destination legs)) DestinationChain.elapse tx
        (s.destination legs))) := by
  refine kept_setDestination ?_
  cases tx with
  | tick t => exact .single (.elapse _ t)
  | call c =>
      simp only [stepTx]
      cases hx : exec (DestinationChain.body (n.destination legs)) c (s.destination legs) with
      | error e => exact .refl
      | ok c' => exact (DestinationChain.exec_turn c.all_true hx).segments

/-! ## Transactions -/

/-- What a transaction of the wallet that went through did. -/
structure Executed (q : Ask κ A) (n : FillNetwork κ A W) (F : QuotedFill κ) (s s' : State κ A W) :
    Prop where
  frame : s' = { s with source := s'.source, destination := s'.destination }
  kept : Kept n F s s'
  deploys : deploysClone F q = true → dstDeployed n F s = false ∧ dstDeployed n F s' = true
  fills : takesSlot F q = true → srcFilled F s = false ∧ srcFilled F s' = true

theorem transfer_segments {d : DestinationChain A W} {c c' : DestinationState A W}
    {msgSender token to_ : A} {amount : Nat}
    {turns : List (List (Call (DestinationChain.Label A W)))}
    (h : Evm.resume (DestinationChain.body d) turns (transfer d c msgSender token to_ amount)
      = .ok c') : DestinationChain.Segments d (fun _ => True) c c' := by
  have hsat : (transfer d c msgSender token to_ amount).Sat
      (DestinationChain.FullTurn d fun _ => True) c := by
    refine Prog.sat_attempt fun tokens _ => fun c₁ h₁ => ?_
    have hpaid : DestinationChain.FullTurn d (fun _ => True) c { c with tokens } :=
      ⟨rfl, .single (.tokens c (fun _ => tokens) trivial), fun _ _ _ => rfl⟩
    exact hpaid.trans h₁
  have hturn := resume_sat (R := DestinationChain.FullTurn d fun _ => True)
    (P := fun _ => True) (fun _ => .refl _) (fun h h' => h.trans h')
    (fun l hl s => DestinationChain.body_turn l hl s) (turnsAll_true turns) hsat h
  exact hturn.segments

theorem callSource_kept {called : Callbacks n} {legs : ChainLegs}
    {label : SourceChain.Label (n.chain legs)} (h : callSource n s called legs label = .ok s') :
    s' = { s with source := s'.source } ∧ Kept n F s s' := by
  simp only [callSource, bind_eq_ok, pure_eq_ok] at h
  obtain ⟨c, hexec, rfl⟩ := h
  exact ⟨rfl, kept_setSource
    (SourceChain.exec_turn (SourceChain.all_opens _) hexec).fills⟩

theorem callSource_fills {called : Callbacks n} {info : OrderInfo A} {swapperSig perFillSig : Bytes}
    {auth : FillAuth κ} {value : Nat} (horder : auth.orderHash = F.orderHash)
    (hhash : auth.hashlock = F.hashlock)
    (h : callSource n s called F.legs
      (.fillSlot (n.account F.legs) value info swapperSig auth perFillSig) = .ok s') :
    srcFilled F s = false ∧ srcFilled F s' = true := by
  simp only [callSource, bind_eq_ok, pure_eq_ok] at h
  obtain ⟨c, hexec, rfl⟩ := h
  have hvacant := SourceChain.fillSlot_vacant hexec
  have hfilled := SourceChain.fillSlot_deploys hexec
  rw [horder, hhash] at hvacant hfilled
  simp [srcFilled, State.setSource, hvacant, hfilled]

omit [DecidableEq A] in
/-- It deployed neither clone. -/
theorem Executed.aside {q : Ask κ A} (hframe : s' = { s with
      source := s'.source, destination := s'.destination }) (hkept : Kept n F s s')
    (hdeploys : deploysClone F q = false) (hfills : takesSlot F q = false) :
    Executed q n F s s' :=
  ⟨hframe, hkept, fun h => absurd (hdeploys.symm.trans h) (by simp),
    fun h => absurd (hfills.symm.trans h) (by simp)⟩

theorem execute_executed {called : Callbacks n} {q : Ask κ A}
    (h : execute n F s called q = .ok s') : Executed q n F s s' := by
  cases q with
  | fillSlot legs info swapperSig auth perFillSig value =>
      obtain ⟨hframe, hkept⟩ := callSource_kept (F := F) h
      refine ⟨by rw [hframe], hkept, fun h => absurd h (by simp [deploysClone]), fun htakes => ?_⟩
      obtain ⟨rfl, horder, hhash⟩ : legs = F.legs ∧ auth.orderHash = F.orderHash ∧
        auth.hashlock = F.hashlock := by simpa [takesSlot] using htakes
      exact callSource_fills horder hhash h
  | withdraw legs escrow secret =>
      simp only [execute] at h
      split at h
      · obtain ⟨hframe, hkept⟩ := callSource_kept (F := F) h
        exact .aside (by rw [hframe]) hkept rfl rfl
      · obtain rfl := pure_eq_ok.mp h
        exact .aside rfl (.refl s) rfl rfl
  | dstTransfer legs token to_ amount =>
      simp only [execute, bind_eq_ok, pure_eq_ok] at h
      obtain ⟨c, hresume, rfl⟩ := h
      exact .aside rfl (kept_setDestination (transfer_segments hresume)) rfl rfl
  | dstDeploy legs hashlock swapper token amount t2 =>
      simp only [execute, bind_eq_ok, pure_eq_ok] at h
      obtain ⟨c, hexec, rfl⟩ := h
      have hturn := DestinationChain.exec_turn (Call.all_true _) hexec
      refine ⟨rfl, kept_setDestination hturn.segments, fun hdeploys => ?_,
        fun h => absurd h (by simp [takesSlot])⟩
      obtain ⟨rfl, rfl⟩ : legs = F.legs ∧ hashlock = F.hashlock := by
        simpa [deploysClone] using hdeploys
      have hdeployed := DestinationChain.exec_deployed hexec
      refine ⟨by simpa [dstDeployed] using hdeployed.vacant, ?_⟩
      rw [hdeployed.eq]
      simp [dstDeployed, State.setDestination, DestinationChain.emit, DestinationChain.setEscrow]
  | _ =>
      obtain rfl := pure_eq_ok.mp h
      exact .aside rfl (.refl s) rfl rfl

/-! ## The backend -/

omit [Zero A] [DecidableEq A] [DecidableEq κ] in
/-- What was quoted stays as it was. -/
def RowsKept (F : QuotedFill κ) (s s' : State κ A W) : Prop :=
  s.service.db.Fresh → s'.service.db.Fresh ∧ (Recorded F s → Recorded F s')

omit [Zero A] [DecidableEq A] [DecidableEq κ] in
theorem RowsKept.of_eq (h : s'.service = s.service) : RowsKept F s s' := by
  unfold RowsKept Recorded
  rw [h]
  exact fun hfresh => ⟨hfresh, id⟩

omit [Zero A] in
theorem execute_recorded {st : Statement κ A Bytes32} (hfresh : s.service.db.Fresh)
    (hservice : s'.service.db = s.service.db.execute st) (h : Recorded F s) : Recorded F s' := by
  obtain ⟨r, hr, o, ho, hhash, hamount, hchain⟩ := h
  obtain ⟨r', hr', hrow⟩ := Db.execute_evolves hfresh st F.fillId r hr
  obtain ⟨o', ho', horder⟩ := Db.execute_orders st F.orderHash o ho
  have hkey := hrow.sameKey
  refine ⟨r', ?_, o', ?_, hkey.hashlock.trans hhash, ?_, horder.chainAId.trans hchain⟩
  · rw [hservice]
    exact hr'
  · rw [hservice]
    exact ho'
  · rw [hkey.fillAmount]
    exact hamount

theorem move_rowsKept (m : Service.Move κ A Bytes32) (s : State κ A W) :
    RowsKept F s { s with service := n.service.move s.service m } := by
  intro hfresh
  have hruns : m.Runs (fun _ _ => True) s.service := by
    cases m with
    | request | record => trivial
    | execute place => exact fun _ _ => trivial
  have hmove : n.service.move s.service m = s.service ∨
      Service.Step n.service (fun _ _ => True) s.service (n.service.move s.service m) :=
    Service.move_step hruns
  rcases hmove with hsame | hstep
  · exact RowsKept.of_eq hsame hfresh
  · generalize hnext : n.service.move s.service m = next at hstep
    cases hstep with
    | request now req st h => exact ⟨hfresh, id⟩
    | execute st before after hpending =>
        exact ⟨Db.execute_fresh hfresh st, execute_recorded hfresh rfl⟩
    | record st hrecord =>
        exact ⟨Db.execute_fresh hfresh st, execute_recorded hfresh rfl⟩

/-! ## Steps -/

/-- `P` holds where the process stops, or finds that a transaction of its was
reverted. -/
inductive Effect (n : FillNetwork κ A W) (F : QuotedFill κ) (P : Prop) (s : State κ A W) :
    State κ A W → Prop
  | world (s₁ : State κ A W)
      (hframe : s₁ = { s with
        service := s₁.service
        source := s₁.source
        destination := s₁.destination
        secrets := s₁.secrets })
      (hkept : Kept n F s s₁) (hrows : RowsKept F s s₁) : Effect n F P s s₁
  | started (task : Task κ A String) (secrets : Nat → Option Bytes32)
      (hidle : s.task.pending = none) (hrecorded : Recorded F s)
      (hkeeps : Keeps n F task .covered) : Effect n F P s { s with task, secrets }
  | answered {q : Ask κ A} {k : q.Answer → Task κ A String} (now : Nat) (other : Bool)
      (a : q.Answer) (htask : s.task = .ask q k) (hquestion : q.isTransaction = false)
      (hreply : reply n F s now other q = some a) : Effect n F P s { s with task := k a }
  | failed {q : Ask κ A} {k : q.Answer → Task κ A String} (htask : s.task = .ask q k)
      (hquestion : q.isTransaction = false) : Effect n F P s s.stop
  | sent {q : Ask κ A} {k : q.Answer → Task κ A String} (transactionHash : Nat)
      (htask : s.task = .ask q k) (htransaction : q.isTransaction = true)
      (hidle : s.awaiting = none) (hfresh : transactionHash ∉ s.used) :
      Effect n F P s { s with
        awaiting := some transactionHash
        used := transactionHash :: s.used
        sent := ⟨transactionHash, q⟩ :: s.sent }
  | mined (t : Sent κ A) (ht : t ∈ s.sent) (s₁ : State κ A W) (h : Executed t.ask n F s s₁) :
      Effect n F P s { s₁ with
        sent := s.sent.filter fun x => x.transactionHash ≠ t.transactionHash
        receipts := update s.receipts t.transactionHash (some true)
        effects := t.ask :: s.effects }
  | reverted (t : Sent κ A) (ht : t ∈ s.sent) :
      Effect n F P s { s with
        sent := s.sent.filter fun x => x.transactionHash ≠ t.transactionHash
        receipts := update s.receipts t.transactionHash (some false) }
  | discarded (transactionHash : Nat) : Effect n F P s (discard s transactionHash)
  | confirmed {q : Ask κ A} {k : q.Answer → Task κ A String} (transactionHash : Nat)
      (a : q.Answer) (htask : s.task = .ask q k) (hawaiting : s.awaiting = some transactionHash)
      (hreceipt : s.receipts transactionHash = some true)
      (hconfirmed : q.confirmed transactionHash = some a) :
      Effect n F P s { s with task := k a, awaiting := none }
  | stopped (hP : P) : Effect n F P s s.stop

theorem Effect.idle {P : Prop} : Effect n F P s s := .world s rfl (.refl s) (.of_eq rfl)

theorem mine_effect {P : Prop} (s : State κ A W) (transactionHash : Nat) (called : Callbacks n) :
    Effect n F P s (mine n F s transactionHash called) := by
  unfold mine
  split
  case h_2 => exact .idle
  case h_1 t hfind =>
      have ht := List.mem_of_find?_eq_some hfind
      obtain rfl : t.transactionHash = transactionHash := by
        simpa using List.find?_some hfind
      dsimp only
      split
      case h_1 s' hexecute =>
          exact .mined t ht s' (execute_executed hexecute)
      case h_2 => exact .reverted t ht

theorem answer_effect {P : Prop} (s : State κ A W) (now : Nat) (other : Bool) :
    Effect n F P s (answer n F s now other) := by
  unfold answer
  split
  case h_2 => exact .idle
  case h_1 q k htask =>
      by_cases htransaction : q.isTransaction = true
      · rw [if_pos htransaction]
        exact .idle
      · rw [if_neg htransaction]
        have hquestion : q.isTransaction = false := by simpa using htransaction
        split
        case h_1 a hreply => exact .answered now other a htask hquestion hreply
        case h_2 => exact .failed htask hquestion

theorem send_effect {P : Prop} (s : State κ A W) (transactionHash : Nat) :
    Effect n F P s (send s transactionHash) := by
  unfold send
  split
  case h_2 => exact .idle
  case h_1 q k htask =>
      split
      case isFalse => exact .idle
      case isTrue hsend =>
          exact .sent transactionHash htask hsend.1 hsend.2.1 hsend.2.2

omit [DecidableEq κ] [Zero A] [DecidableEq A] in
theorem outcome_eq_some {transactionHash : Nat} {succeeded : Bool} :
    outcome s = some (transactionHash, succeeded) ↔
      s.awaiting = some transactionHash ∧ s.receipts transactionHash = some succeeded := by
  simp only [outcome, Option.bind_eq_some_iff, Option.map_eq_some_iff, Prod.mk.injEq]
  constructor
  · rintro ⟨_, hawaiting, _, hreceipt, rfl, rfl⟩
    exact ⟨hawaiting, hreceipt⟩
  · rintro ⟨hawaiting, hreceipt⟩
    exact ⟨_, hawaiting, _, hreceipt, rfl, rfl⟩

theorem receipt_effect {P : Prop} (s : State κ A W)
    (hP : ∀ transactionHash, outcome s = some (transactionHash, false) → P) :
    Effect n F P s (receipt s) := by
  unfold receipt
  split
  case h_1 transactionHash q k houtcome htask =>
      obtain ⟨hawaiting, hreceipt⟩ := outcome_eq_some.mp houtcome
      split
      case h_1 a hconfirmed =>
          exact .confirmed transactionHash a htask hawaiting hreceipt hconfirmed
      case h_2 => exact .idle
  case h_2 transactionHash houtcome => exact .stopped (hP transactionHash houtcome)
  case h_3 => exact .idle

theorem start_effect {P : Prop} (s : State κ A W) (secrets : Nat → Option Bytes32)
    {task : Task κ A String} (hkeeps : Keeps n F task .covered) :
    Effect n F P s (start F { s with secrets } task) := by
  unfold start
  split
  case isTrue hstart => exact .started task secrets hstart.1 hstart.2 hkeeps
  case isFalse => exact .world _ rfl ⟨id, id⟩ (.of_eq rfl)

/-- The process stops here, or finds that a transaction was reverted. -/
def Stops (s : State κ A W) : Action n → Prop
  | .stop => True
  | .receipt => (outcome s).map Prod.snd = some false
  | _ => False

instance (s : State κ A W) (a : Action n) : Decidable (Stops s a) := by
  cases a <;> unfold Stops <;> infer_instance

/-- **What a step can do.** -/
theorem step_effect {P : Prop} (s : State κ A W) (a : Action n) (hP : Stops s a → P) :
    Effect n F P s (step n F s a) := by
  cases a with
  | source legs tx =>
      exact .world _ rfl (stepTx_source_kept legs tx s) (.of_eq rfl)
  | destination legs tx =>
      exact .world _ rfl (stepTx_destination_kept legs tx s) (.of_eq rfl)
  | service m => exact .world _ rfl ⟨id, id⟩ (move_rowsKept m s)
  | lost => exact .world _ rfl ⟨id, id⟩ (.of_eq rfl)
  | drive polls secret order t2 opts =>
      exact start_effect s _ (driveToCompletion_keeps polls secret order t2 opts)
  | resume polls opts => exact start_effect s s.secrets (crossChainResume_keeps polls opts)
  | answer now other => exact answer_effect s now other
  | send transactionHash => exact send_effect s transactionHash
  | mine transactionHash called => exact mine_effect s transactionHash called
  | discard transactionHash => exact .discarded transactionHash
  | receipt =>
      exact receipt_effect s fun h houtcome => hP (by simp [Stops, houtcome])
  | stop => exact .stopped (hP trivial)

end FillProcess

end NeutronX.CrossChain
