import NeutronX.CrossChain.SourceSteps

/-!
# Runs of the source chain

A `Turn` is what a finished call leaves of the world for the call that was
waiting for it: the reentrancy guard of `fillSlot` and the clock as they
were, code and fills where they were, every lock of a clone still held,
and segments in between. A body that has turns at its external calls makes
a turn itself (`body_turn`), so every run is a sequence of segments
(`run_segments`). `Moment` is a state some sequence of segments reaches:
every state of every run, the middle of a transaction included.
-/

namespace NeutronX.CrossChain

open Evm Function

namespace SourceChain

open EscrowSrc (CloneStep Unsettled InitGuards)

variable {κ A W : Type}

/-! ## Turns -/

variable [DecidableEq κ] [Zero A] [DecidableEq A] {d : SourceChain κ A W}
  {P : Fill κ A → Prop}

/-- What a call leaves alone; the locks of its `own` clone may change. -/
structure Turn (d : SourceChain κ A W) (P : Fill κ A → Prop) (own : κ → Bytes32 → Prop)
    (s s' : SourceState κ A W) : Prop where
  filling : s'.filling = s.filling
  block : s'.block = s.block
  segments : Segments d P s s'
  fills : ∀ k h fill, (s.escrows k h).fill = some fill → (s'.escrows k h).fill = some fill
  locks : ∀ k h, ¬own k h → (s'.escrows k h).mutex = (s.escrows k h).mutex

/-- The turn of a finished call. -/
abbrev FullTurn (d : SourceChain κ A W) (P : Fill κ A → Prop) :
    SourceState κ A W → SourceState κ A W → Prop :=
  Turn d P fun _ _ => False

namespace Turn

variable {own : κ → Bytes32 → Prop} {s s₁ s₂ : SourceState κ A W}

theorem refl (s : SourceState κ A W) : Turn d P own s s :=
  ⟨rfl, rfl, .refl, fun _ _ _ h => h, fun _ _ _ => rfl⟩

theorem trans (h₁ : Turn d P own s s₁) (h₂ : Turn d P own s₁ s₂) : Turn d P own s s₂ where
  filling := h₂.filling.trans h₁.filling
  block := h₂.block.trans h₁.block
  segments := h₁.segments.trans h₂.segments
  fills := fun k h fill hf => h₂.fills k h fill (h₁.fills k h fill hf)
  locks := fun k h hown => (h₂.locks k h hown).trans (h₁.locks k h hown)

theorem mono {own' : κ → Bytes32 → Prop} (h : Turn d P own s s₁)
    (hsub : ∀ k h, own k h → own' k h) : Turn d P own' s s₁ where
  filling := h.filling
  block := h.block
  segments := h.segments
  fills := h.fills
  locks := fun k hl hown => h.locks k hl fun hin => hown (hsub k hl hin)

/-- A finished call, in the turn of the call that made it. -/
theorem of_full (h : FullTurn d P s s₁) : Turn d P own s s₁ := h.mono fun _ _ => False.elim

/-- A call that leaves the lock of its clone as it found it disturbs no
lock at all. -/
theorem full {k : κ} {h : Bytes32} (hturn : Turn d P (fun k' h' => k' = k ∧ h' = h) s s₁)
    (hmutex : (s₁.escrows k h).mutex = (s.escrows k h).mutex) : FullTurn d P s s₁ where
  filling := hturn.filling
  block := hturn.block
  segments := hturn.segments
  fills := hturn.fills
  locks := fun k' h' _ => by
    by_cases hsame : k' = k ∧ h' = h
    · obtain ⟨rfl, rfl⟩ := hsame
      exact hmutex
    · exact hturn.locks k' h' hsame

end Turn

/-- A step of one clone is a turn of that clone's call. -/
theorem Moved.turn {s s' : SourceState κ A W} {k : κ} {h : Bytes32}
    (hmoved : Moved d s k h s') (hseg : Segment d P s s') :
    Turn d P (fun k' h' => k' = k ∧ h' = h) s s' where
  filling := hmoved.filling
  block := hmoved.block
  segments := .single hseg
  fills := fun k' h' fill hfill => by
    rw [hmoved.escrows]
    by_cases hsame : k' = k ∧ h' = h
    · obtain ⟨rfl, rfl⟩ := hsame
      rw [update₂_self]
      exact hmoved.step.fill.trans hfill
    · rw [update₂_of_ne hsame]
      exact hfill
  locks := fun k' h' hown => by rw [hmoved.escrows, update₂_of_ne hown]

theorem initializeAt_turn {s s' : SourceState κ A W} {k : κ} {h : Bytes32} {msgValue : Nat}
    {args : InitArgs κ A} (hok : initializeAt d s k h msgValue args = .ok s') :
    FullTurn d P s s' :=
  ((initializeAt_moved hok).1.turn (.initializeAt k h msgValue args hok)).full
    (initializeAt_mutex hok)

theorem forceEth_turn {s s' : SourceState κ A W} {k : κ} {h : Bytes32} {value : Nat}
    (hok : forceEth s k h value = .ok s') : FullTurn d P s s' :=
  ((forceEth_moved hok).1.turn (.forceEth k h value hok)).full (forceEth_mutex hok)

/-! ## Bodies -/

theorem withdraw_turn (s : SourceState κ A W) (k : κ) (h secret : Bytes32) (accepted : Bool) :
    (withdraw d s k h secret accepted).Sat (FullTurn d P) s := by
  refine Prog.sat_attempt fun s₁ hstart => ?_
  obtain ⟨hfree, hlock₁⟩ := withdrawStart_mutex hstart
  have h₁ := (withdrawStart_moved hstart).1.turn (P := P) (.withdrawStart k h secret hstart)
  intro s₂ h₂
  have hlock₂ := (h₂.locks k h id).trans hlock₁
  refine Prog.sat_attempt fun s₃ hpay => ?_
  have h₃ := (withdrawPay_moved (d := d) hlock₂ hpay).1.turn (P := P)
    (.withdrawPay k h secret accepted hlock₂ hpay)
  have hlock₃ := withdrawPay_mutex hpay
  refine Prog.sat_yieldIf (fun _ => .refl _) fun s₄ h₄ => ?_
  have hlock₄ := (h₄.locks k h id).trans hlock₃
  refine Prog.sat_attempt fun s₅ hend => ?_
  have h₅ := (withdrawEnd_moved hlock₄ hend).1.turn (P := P)
    (.withdrawEnd k h secret hlock₄ hend)
  exact (h₁.trans (.trans (.of_full h₂) (h₃.trans (.trans (.of_full h₄) h₅)))).full
    ((withdrawEnd_mutex hend).trans hfree.symm)

theorem cancel_turn (s : SourceState κ A W) (msgSender : A) (k : κ) (h : Bytes32)
    (accepted : Bool) : (cancel d s msgSender k h accepted).Sat (FullTurn d P) s := by
  refine Prog.sat_attempt fun s₁ hstart => ?_
  obtain ⟨hfree, hlock₁⟩ := cancelStart_mutex hstart
  have h₁ := (cancelStart_moved hstart).1.turn (P := P) (.cancelStart k h hstart)
  intro s₂ h₂
  have hlock₂ := (h₂.locks k h id).trans hlock₁
  refine Prog.sat_attempt fun s₃ hpay => ?_
  have h₃ := (cancelPay_moved (d := d) hlock₂ hpay).1.turn (P := P)
    (.cancelPay k h accepted hlock₂ hpay)
  have hlock₃ := cancelPay_mutex hpay
  refine Prog.sat_yieldIf (fun _ => .refl _) fun s₄ h₄ => ?_
  have hlock₄ := (h₄.locks k h id).trans hlock₃
  refine Prog.sat_attempt fun s₅ hend => ?_
  have hback := cancelEnd_handedBack hlock₄ hend
  have h₅ := hback.moved.turn (P := P) (.cancelEnd msgSender k h hlock₄ hend)
  have hlock₅ : (s₅.escrows k h).mutex = none := by rw [hback.escrow]; rfl
  exact (h₁.trans (.trans (.of_full h₂) (h₃.trans (.trans (.of_full h₄) h₅)))).full
    (hlock₅.trans hfree.symm)

theorem claimEth_turn (s : SourceState κ A W) (k : κ) (h : Bytes32) (msgSender to_ : A)
    (accepted : Bool) :
    (claimEth s k h msgSender to_ accepted).Sat (FullTurn d P) s := by
  refine Prog.sat_attempt fun s₁ hstart => ?_
  obtain ⟨hfree, hlock₁⟩ := claimStart_mutex hstart
  have h₁ := (claimStart_moved (d := d) hstart).1.turn (P := P)
    (.claimStart k h msgSender to_ hstart)
  intro s₂ h₂
  have hlock₂ := (h₂.locks k h id).trans hlock₁
  refine Prog.sat_attempt fun s₃ hreturn => ?_
  have h₃ := (claimReturn_moved (d := d) hlock₂ hreturn).1.turn (P := P)
    (.claimReturn k h accepted hlock₂ hreturn)
  exact (h₁.trans (.trans (.of_full h₂) h₃)).full ((claimReturn_mutex hreturn).trans hfree.symm)

/-- Deployment and `initialize` of the clone of a fill keep every lock and
every fill that was there. -/
theorem fillSlot_turn (s : SourceState κ A W) (msgSender : A) (msgValue : Nat)
    (info : OrderInfo A) (swapperSig : Bytes) (auth : FillAuth κ) (perFillSig : Bytes)
    (hP : P ⟨info, auth, msgSender, msgValue⟩) :
    (fillSlot d s msgSender msgValue info swapperSig auth perFillSig).Sat (FullTurn d P) s := by
  refine Prog.sat_attempt fun s₁ hopen => ?_
  have ho := fillOpen_spec hopen
  intro s₂ h₂
  refine Prog.sat_attempt fun s₃ hclose => ?_
  have hc := fillClose_spec hclose
  have hfill₂ := h₂.fills _ _ _ (show (s₁.escrows (d.hashOrder info) auth.hashlock).fill = _ by
    rw [ho.escrows, update₂_self])
  have hseg₃ : Segment d P s₂ s₃ :=
    .fillClose _ (h₂.filling.trans ho.filling) hfill₂ hclose
  refine ⟨hc.filling.trans ho.free.symm, hc.block.trans (h₂.block.trans ho.block),
    (Relation.ReflTransGen.single (.fillOpen _ swapperSig perFillSig hP hopen)).trans
      (h₂.segments.tail hseg₃), fun k h fill hfill => ?_, fun k h _ => ?_⟩
  · have hopened : (s₁.escrows k h).fill = some fill := by
      rw [ho.escrows]
      by_cases hsame : k = d.hashOrder info ∧ h = auth.hashlock
      · obtain ⟨rfl, rfl⟩ := hsame
        exact absurd (ho.vacant.symm.trans hfill) (by simp)
      · rw [update₂_of_ne hsame]
        exact hfill
    have hclosed := h₂.fills k h fill hopened
    rw [hc.escrows, update₂_apply]
    split
    case isTrue hsame =>
        obtain ⟨rfl, rfl⟩ := hsame
        exact hclosed
    case isFalse => exact hclosed
  · have hopened : (s₁.escrows k h).mutex = (s.escrows k h).mutex := by
      rw [ho.escrows, update₂_apply]
      split
      case isTrue hsame =>
          obtain ⟨rfl, rfl⟩ := hsame
          rfl
      case isFalse => rfl
    have hclosed : (s₃.escrows k h).mutex = (s₂.escrows k h).mutex := by
      rw [hc.escrows, update₂_apply]
      split
      case isTrue hsame =>
          obtain ⟨rfl, rfl⟩ := hsame
          rfl
      case isFalse => rfl
    exact hclosed.trans ((h₂.locks k h id).trans hopened)

/-- The fill a label opens satisfies `P`. -/
def Label.Opens (P : Fill κ A → Prop) : Label d → Prop
  | .fillSlot msgSender msgValue info _ auth _ => P ⟨info, auth, msgSender, msgValue⟩
  | _ => True

omit [DecidableEq κ] [DecidableEq A] in
theorem opens_true : (Label.Opens fun _ => True) = fun _ : Label d => True := by
  funext l
  cases l <;> rfl

omit [DecidableEq κ] [DecidableEq A] in
theorem all_opens (c : Call (Label d)) : c.All (Label.Opens fun _ => True) := by
  rw [opens_true]
  exact c.all_true

/-- **Every body makes a turn**, provided the code it calls does. -/
theorem body_turn (l : Label d) (hl : l.Opens P) (s : SourceState κ A W) :
    (body d l s).Sat (FullTurn d P) s := by
  cases l with
  | fillSlot msgSender msgValue info swapperSig auth perFillSig =>
      exact fillSlot_turn s msgSender msgValue info swapperSig auth perFillSig hl
  | restoreRemaining msgSender k h amount =>
      -- an account that is not a clone is turned away
      refine Prog.sat_attempt fun s' hok => ?_
      obtain ⟨⟨hsender, -⟩, -⟩ := restoreRemaining_eq_ok.mp hok
      exact absurd hsender.symm (msgSender.2.2 k h)
  | initializeClone k h msgValue args =>
      exact Prog.sat_attempt fun s' hok => initializeAt_turn hok
  | withdraw k h secret accepted => exact withdraw_turn s k h secret accepted
  | cancel msgSender k h accepted => exact cancel_turn s msgSender k h accepted
  | claimEth msgSender k h to_ accepted => exact claimEth_turn s k h msgSender to_ accepted
  | forceEth k h value => exact Prog.sat_attempt fun s' hok => forceEth_turn hok
  | tokens f =>
      exact ⟨rfl, rfl, .single (.tokens s f), fun _ _ _ h => h, fun _ _ _ => rfl⟩

theorem exec_turn {c : Call (Label d)} {s s' : SourceState κ A W}
    (hc : c.All (Label.Opens P)) (h : exec (body d) c s = .ok s') : FullTurn d P s s' :=
  exec_sat (fun _ => .refl _) (fun h h' => h.trans h') (fun l hl s => body_turn l hl s) hc h

/-! ## Runs -/

/-- No call is under way. -/
structure Between (s : SourceState κ A W) : Prop where
  filling : s.filling = none
  free : ∀ k h, (s.escrows k h).mutex = none

theorem FullTurn.between {s s' : SourceState κ A W} (h : FullTurn d P s s') (hs : Between s) :
    Between s' :=
  ⟨h.filling.trans hs.filling, fun k hl => (h.locks k hl id).trans (hs.free k hl)⟩

/-- A transaction is a sequence of segments at one time, and ends between
transactions if it starts there. -/
theorem stepTx_call {c : Call (Label d)} {s : SourceState κ A W} (hc : c.All (Label.Opens P))
    (hfree : Between s) :
    Segments d P s (stepTx (body d) elapse (.call c) s) ∧
      (stepTx (body d) elapse (.call c) s).block = s.block ∧
      Between (stepTx (body d) elapse (.call c) s) := by
  simp only [stepTx]
  cases hx : exec (body d) c s with
  | error e => exact ⟨.refl, rfl, hfree⟩
  | ok s' =>
      have hturn := exec_turn hc hx
      exact ⟨hturn.segments, hturn.block, hturn.between hfree⟩

/-- What a transaction, or time, leaves of a state between transactions. -/
structure Passed (d : SourceChain κ A W) (s s' : SourceState κ A W) : Prop where
  segments : Segments d (fun _ => True) s s'
  between : Between s'
  fills : ∀ k h fill, (s.escrows k h).fill = some fill → (s'.escrows k h).fill = some fill

theorem exec_passed {c : Call (Label d)} {s s' : SourceState κ A W} (hfree : Between s)
    (h : exec (body d) c s = .ok s') : Passed d s s' := by
  have hturn := exec_turn (all_opens c) h
  exact ⟨hturn.segments, hturn.between hfree, hturn.fills⟩

theorem stepTx_passed (tx : Tx (Label d) Elapse) {s : SourceState κ A W} (hfree : Between s) :
    Passed d s (stepTx (body d) elapse tx s) := by
  cases tx with
  | tick t => exact ⟨.single (.elapse s t hfree.filling), ⟨hfree.filling, hfree.free⟩,
      fun _ _ _ h => h⟩
  | call c =>
      simp only [stepTx]
      cases hx : exec (body d) c s with
      | error e => exact ⟨.refl, hfree, fun _ _ _ h => h⟩
      | ok s' => exact exec_passed hfree hx

/-- A `fillSlot` that goes through leaves the clone of its fill behind. -/
theorem fillSlot_deploys {msgSender : Outsider d} {msgValue : Nat} {info : OrderInfo A}
    {swapperSig : Bytes} {auth : FillAuth κ} {perFillSig : Bytes}
    {turns : List (List (Call (Label d)))} {s s' : SourceState κ A W}
    (h : exec (body d) (.mk (.fillSlot msgSender msgValue info swapperSig auth perFillSig) turns) s
      = .ok s') :
    (s'.escrows auth.orderHash auth.hashlock).fill = some ⟨info, auth, msgSender, msgValue⟩ := by
  refine resume_ensures (R := FullTurn d fun _ => True)
    (Q := fun s' => (s'.escrows auth.orderHash auth.hashlock).fill =
      some ⟨info, auth, msgSender, msgValue⟩) (fun _ => .refl _)
    (fun cs s => runCalls_sat (fun _ => .refl _) (fun h h' => h.trans h')
      (fun l hl s => body_turn l hl s) (P := Label.Opens fun _ => True)
      (opens_true (d := d) ▸ callsAll_true cs)) ?_ (by simpa [exec] using h)
  refine Prog.ensures_attempt fun s₁ hopen => fun s₂ h₂ => ?_
  have ho := fillOpen_spec hopen
  refine Prog.ensures_attempt fun s₃ hclose => ?_
  have hc := fillClose_spec hclose
  have hfill₂ := h₂.fills _ _ _ (show (s₁.escrows (d.hashOrder info) auth.hashlock).fill = _ by
    rw [ho.escrows, update₂_self])
  show (s₃.escrows auth.orderHash auth.hashlock).fill = _
  rw [ho.orderHash, hc.escrows, update₂_self]
  exact hfill₂

/-- It only goes through where there was none. -/
theorem fillSlot_vacant {msgSender : Outsider d} {msgValue : Nat} {info : OrderInfo A}
    {swapperSig : Bytes} {auth : FillAuth κ} {perFillSig : Bytes}
    {turns : List (List (Call (Label d)))} {s s' : SourceState κ A W}
    (h : exec (body d) (.mk (.fillSlot msgSender msgValue info swapperSig auth perFillSig) turns) s
      = .ok s') : (s.escrows auth.orderHash auth.hashlock).fill = none := by
  refine resume_ensures (R := fun _ _ => True)
    (Q := fun _ => (s.escrows auth.orderHash auth.hashlock).fill = none) (fun _ => trivial)
    (fun _ _ => trivial) ?_ (by simpa [exec] using h)
  refine Prog.ensures_attempt fun s₁ hopen => fun s₂ _ => Prog.ensures_attempt fun s₃ _ => ?_
  have ho := fillOpen_spec hopen
  show (s.escrows auth.orderHash auth.hashlock).fill = none
  rw [ho.orderHash]
  exact ho.vacant

/-- **Every run is a sequence of segments**, and ends between transactions
if it starts there. -/
theorem run_segments :
    ∀ {txs : List (Tx (Label d) Elapse)} {s : SourceState κ A W},
      (∀ tx ∈ txs, tx.All (Label.Opens P)) → Between s →
        Segments d P s (run d txs s) ∧ Between (run d txs s)
  | [], s, _, hfree => ⟨.refl, hfree⟩
  | tx :: txs, s, hall, hfree => by
      have hstep : Segments d P s (stepTx (body d) elapse tx s) ∧
          Between (stepTx (body d) elapse tx s) := by
        cases tx with
        | tick t => exact ⟨.single (.elapse s t hfree.filling), ⟨hfree.filling, hfree.free⟩⟩
        | call c =>
            obtain ⟨hsegments, -, hend⟩ := stepTx_call (hall _ (List.mem_cons_self ..)) hfree
            exact ⟨hsegments, hend⟩
      obtain ⟨hrest, hend⟩ :=
        run_segments (fun tx htx => hall tx (List.mem_cons_of_mem _ htx)) hstep.2
      exact ⟨hstep.1.trans hrest, hend⟩

/-- A state that some sequence of segments reaches from the deployment:
every state of every run, also in the middle of a transaction. -/
def Moment (d : SourceChain κ A W) (s : SourceState κ A W) : Prop :=
  ∃ tokens block, Segments d (fun _ => True) (deployed tokens block) s

/-- What every segment keeps, every sequence of segments keeps. -/
theorem Segments.keep {I : SourceState κ A W → Prop} {s s' : SourceState κ A W}
    (hstep : ∀ {s s' : SourceState κ A W}, I s → Segment d P s s' → I s')
    (h : Segments d P s s') (hs : I s) : I s' := by
  induction h with
  | refl => exact hs
  | tail _ hseg ih => exact hstep ih hseg

theorem Moment.segments {s s' : SourceState κ A W} (hs : Moment d s) (h : Segments d P s s') :
    Moment d s' := by
  obtain ⟨tokens, block, hsegments⟩ := hs
  exact ⟨tokens, block, hsegments.trans (h.mono fun _ _ => trivial)⟩

theorem Moment.invariant {I : SourceState κ A W → Prop} {s : SourceState κ A W}
    (h : Moment d s) (hinit : ∀ tokens block, I (deployed tokens block))
    (hstep : ∀ {s s' : SourceState κ A W}, I s → Segment d (fun _ => True) s s' → I s') :
    I s := by
  obtain ⟨tokens, block, hseg⟩ := h
  exact Segments.keep hstep hseg (hinit tokens block)

theorem Reachable.moment {s : SourceState κ A W} (h : Reachable d s) :
    Moment d s ∧ Between s := by
  obtain ⟨tokens, block, txs, rfl⟩ := h
  have hall : ∀ tx ∈ txs, tx.All (Label.Opens (d := d) fun _ => True) := fun tx _ => by
    rw [opens_true]
    exact tx.all_true
  obtain ⟨hsegments, hfree⟩ :=
    run_segments hall (⟨rfl, fun _ _ => rfl⟩ : Between (deployed tokens block))
  exact ⟨⟨tokens, block, hsegments⟩, hfree⟩

end SourceChain

end NeutronX.CrossChain
