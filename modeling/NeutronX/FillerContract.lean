import NeutronX.Evm.Extension
import NeutronX.Ledger
import NeutronX.SystemSteps

/-!
# A filler contract

The base contract of fillers that source the output on chain. Its owner
registers it and fills through it; in the chunk the reactor calls it back,
and it makes the calls that its owner composed, each to a target that the
owner has vetted, before it approves the reactor for the output.

The contract stands beside the system, and everyone may call it. A call it
makes of code outside is an external call like any other: whoever is in
control may call any entry point again, also as a step of the contract
itself. It is one more third party (`filler_projects`): what happens to
the system in a run with it is a run of the system.
-/

namespace NeutronX

open Evm Function

namespace PartialFillFillerBase

/-- One leg of the list of actions in `callbackData`. -/
structure Step where
  target : Address
  callData : Bytes
  /-- zero where the step needs no approval -/
  approveToken : Address
  approveAmount : Uint 256
deriving DecidableEq

/-- The immutables of a filler contract. -/
structure FillerContract where
  address : Account
  owner : Address
  /-- the owner is the account that deployed it -/
  owner_ne : owner ≠ address
  /-- `abi.encode` -/
  encode : List Step → Bytes
  encode_pos : ∀ steps, 0 < (encode steps).length

/-- A chunk through the contract, when its callback has ended. -/
structure Fill where
  order : SignedOrder
  fillAmount : Nat
  steps : List Step
  outputAmount : Nat

/-- What the contract did; all but the first are history. -/
inductive FillerEvent where
  | targetAllowed (target : Address) (allowed : Bool)
  /-- an approval, and a call, that a callback made -/
  | approved (token spender : Address) (amount : Nat)
  | called (target : Address) (callData : Bytes)
  | filled (fill : Fill)
  | tokenWithdrawn (token : Address) (amount : Nat) (to_ : Address)
  | ethWithdrawn (amount : Nat) (to_ : Address)

structure FillerState where
  /-- the reentrancy guard -/
  entered : Bool
  allowedTargets : Address → Bool
  /-- newest first -/
  events : List FillerEvent

structure FillerWorld (κ W : Type) where
  system : World κ W
  filler : FillerState

variable {κ W : Type} [DecidableEq κ] (d : Deployment κ W) (f : FillerContract)

def FillerWorld.log (s : FillerWorld κ W) (e : FillerEvent) : FillerWorld κ W :=
  { s with filler := { s.filler with events := e :: s.filler.events } }

def onlyOwner (msgSender : Account) : Except Revert Unit :=
  require ((msgSender : Address) = f.owner) "not owner"

omit [DecidableEq κ] in
def setTargetAllowed (s : FillerWorld κ W) (msgSender : Account) (target : Address)
    (allowed : Bool) : Except Revert (FillerWorld κ W) := do
  onlyOwner f msgSender
  require (target ≠ 0) "zero target"
  let s := s.log (.targetAllowed target allowed)
  return { s with
    filler := { s.filler with
      allowedTargets := update s.filler.allowedTargets target allowed } }

def doRegister (s : FillerWorld κ W) (msgSender : Account) (msgValue : Nat) (order : SignedOrder)
    (fillAmount : Nat) : Except Revert (FillerWorld κ W) := do
  onlyOwner f msgSender
  let system ← System.register d s.system f.address msgValue order fillAmount
  return { s with system }

/-! ## The callback -/

section Callback

variable {κ W : Type} (d : Deployment κ W) (s : FillerWorld κ W)

def approve (token spender : Address) (amount : Nat) : Except Revert (FillerWorld κ W) := do
  let tokens ← d.forceApprove s.system.tokens f.address token spender amount
  return { s with system := { s.system with tokens } }.log (.approved token spender amount)

def approveStep (step : Step) : Except Revert (FillerWorld κ W) :=
  if step.approveToken ≠ 0 then approve f d s step.approveToken step.target step.approveAmount
  else .ok s

/-- A step up to its call. -/
def openStep (step : Step) : Except Revert (FillerWorld κ W) := do
  require (s.filler.allowedTargets step.target = true) "target not allowed"
  let s ← approveStep f d s step
  return s.log (.called step.target step.callData)

/-- The steps one after the other. Which of the calls succeed is up to the
targets. -/
def runSteps : List Step → (outcomes : List Bool) → FillerWorld κ W →
    (FillerWorld κ W → Prog (FillerWorld κ W) Revert) → Prog (FillerWorld κ W) Revert
  | [], _, s, k => k s
  | step :: steps, outcomes, s, k =>
      .attempt (openStep f d s step) fun s =>
      .yield s fun s =>
      .attempt (require (outcomes.headD true = true) "step failed") fun _ =>
      runSteps steps outcomes.tail s k

def openCallback (msgSender : Address) : Except Revert (FillerWorld κ W) := do
  nonReentrant s.filler.entered
  require (msgSender = d.reactor) "not reactor"
  return { s with filler := { s.filler with entered := true } }

def closeCallback (outputToken : Address) (fill : Fill) : Except Revert (FillerWorld κ W) := do
  let s ← approve f d s outputToken d.reactor fill.outputAmount
  let s := s.log (.filled fill)
  return { s with filler := { s.filler with entered := false } }

/-- `data` is `none` where it does not decode. -/
def partialFillCallback (msgSender : Address) (order : SignedOrder) (fillAmount : Nat)
    (outputAmount : Nat) (data : Option (List Step)) (outcomes : List Bool)
    (k : FillerWorld κ W → Prog (FillerWorld κ W) Revert) : Prog (FillerWorld κ W) Revert :=
  .attempt (openCallback d s msgSender) fun s =>
  match data with
  | none => .revert (.external "abi.decode")
  | some steps =>
      runSteps f d steps outcomes s fun s =>
      .attempt (closeCallback f d s order.info.outputToken
        ⟨order, fillAmount, steps, outputAmount⟩) k

end Callback

/-! ## Chunks -/

/-- `executePartialChunkWithCallback`, sent by the contract. -/
def executeChunk (s : FillerWorld κ W) (order : SignedOrder) (fillAmount : Nat)
    (data : Option (List Step)) (outcomes : List Bool) : Prog (FillerWorld κ W) Revert :=
  let info := order.info
  .attempt (System.chunkOpen d s.system f.address order fillAmount) fun (system, c) =>
  .yieldIf (d.hasHooks info.inputToken) { s with system } fun s =>
  partialFillCallback f d s d.reactor order fillAmount c.outputAmount data outcomes fun s =>
  .attempt (System.chunkPay d s.system f.address info c) fun (system, balBefore) =>
  .yieldIf (d.hasHooks info.outputToken) { s with system } fun s =>
  .attempt (System.chunkClose d s.system f.address info fillAmount c balBefore) fun system =>
  .done { s with system }

def doFill (s : FillerWorld κ W) (msgSender : Account) (order : SignedOrder) (fillAmount : Nat)
    (steps : List Step) (outcomes : List Bool) : Prog (FillerWorld κ W) Revert :=
  .attempt (onlyOwner f msgSender) fun _ =>
  executeChunk d f s order fillAmount (some steps) outcomes

omit [DecidableEq κ] in
def withdrawToken (s : FillerWorld κ W) (msgSender : Account) (token : Address) (amount : Nat)
    (to_ : Address) : Prog (FillerWorld κ W) Revert :=
  .attempt (onlyOwner f msgSender) fun _ =>
  .attempt (d.safeTransfer s.system.tokens f.address token to_ amount) fun tokens =>
  .yieldIf (d.hasHooks token)
    ({ s with system := { s.system with tokens } }.log (.tokenWithdrawn token amount to_)) fun s =>
  .done s

omit [DecidableEq κ] in
def withdrawEth (s : FillerWorld κ W) (msgSender : Account) (amount : Nat) (to_ : Address)
    (accepted : Bool) : Prog (FillerWorld κ W) Revert :=
  .attempt (onlyOwner f msgSender) fun _ =>
  .yield (s.log (.ethWithdrawn amount to_)) fun s =>
  .attempt (require (accepted = true) "eth transfer failed") fun _ => .done s

/-! ## Calls and runs -/

/-- Who sends a call of the system, where its body asks for it. -/
def sender : System.Label κ W → Option Account
  | .register msgSender _ _ _ => some msgSender
  | .executePartialChunk msgSender _ _ => some msgSender
  | .executePartialChunkWithCallback msgSender _ _ _ => some msgSender
  | .executeFallback .. => none
  | .cancelOrder msgSender _ => some msgSender
  | .invalidateNonce msgSender _ => some msgSender
  | .slash msgSender _ _ => some msgSender
  | .releaseRegistration _ _ => none
  | .withdraw msgSender _ _ => some msgSender
  | .auctionOp (.grantRole msgSender _ _) => some msgSender
  | .auctionOp (.revokeRole msgSender _ _) => some msgSender
  | .auctionOp (.renounceRole msgSender _ _) => some msgSender
  | .auctionOp (.setStakeConfig msgSender _) => some msgSender
  | .auctionOp .commitPending => none
  | .auctionOp (.cancelPendingConfig msgSender) => some msgSender
  | .auctionOp (.rollback msgSender) => some msgSender
  | .auctionOp (.forceEth _) => none
  | .setRouterAllowed msgSender _ _ _ => some msgSender
  | .tokens _ => none

inductive Label (κ W : Type) where
  | system (l : System.Label κ W)
  | setTargetAllowed (msgSender : Account) (target : Address) (allowed : Bool)
  | doRegister (msgSender : Account) (msgValue : Nat) (order : SignedOrder) (fillAmount : Nat)
  | doFill (msgSender : Account) (order : SignedOrder) (fillAmount : Nat) (steps : List Step)
      (outcomes : List Bool)
  | withdrawToken (msgSender : Account) (token : Address) (amount : Nat) (to_ : Address)
  | withdrawEth (msgSender : Account) (amount : Nat) (to_ : Address) (accepted : Bool)
  /-- sent by anyone but the reactor, whose callbacks are part of its chunks -/
  | partialFillCallback (msgSender : Account) (order : SignedOrder) (fillAmount : Nat)
      (outputAmount : Nat) (data : Option (List Step)) (outcomes : List Bool)

/-- The system as the part of the world. -/
def systemPart : Part (FillerWorld κ W) (World κ W) where
  get := FillerWorld.system
  set s system := { s with system }
  get_set _ _ := rfl

/-- Nobody chooses `msg.sender`: a call from the contract is a step of it,
and a call from the reactor is none of these. -/
def Sendable (s : FillerWorld κ W) : Label κ W → Prop
  | .system l => sender l = some f.address → s.filler.entered = true
  | .partialFillCallback msgSender _ _ _ _ _ => (msgSender : Address) ≠ d.reactor
  | .setTargetAllowed .. => True
  | .doRegister .. => True
  | .doFill .. => True
  | .withdrawToken .. => True
  | .withdrawEth .. => True

instance (s : FillerWorld κ W) : ∀ l, Decidable (Sendable d f s l)
  | .system l => inferInstanceAs (Decidable (sender l = some f.address → s.filler.entered = true))
  | .partialFillCallback msgSender _ _ _ _ _ =>
      inferInstanceAs (Decidable ((msgSender : Address) ≠ d.reactor))
  | .setTargetAllowed .. => isTrue trivial
  | .doRegister .. => isTrue trivial
  | .doFill .. => isTrue trivial
  | .withdrawToken .. => isTrue trivial
  | .withdrawEth .. => isTrue trivial

def bodyOf : Label κ W → FillerWorld κ W → Prog (FillerWorld κ W) Revert
  | .system (.executePartialChunkWithCallback msgSender order fillAmount callbackData), s =>
      if msgSender = f.address then
        -- its steps would be those of the data, but the guard is entered
        .attempt (require (0 < callbackData.length) "empty callback data") fun _ =>
        executeChunk d f s order fillAmount none []
      else
        (System.body d (.executePartialChunkWithCallback msgSender order fillAmount callbackData)
          s.system).within systemPart s
  | .system l, s => (System.body d l s.system).within systemPart s
  | .setTargetAllowed msgSender target allowed, s =>
      .attempt (setTargetAllowed f s msgSender target allowed) .done
  | .doRegister msgSender msgValue order fillAmount, s =>
      .attempt (doRegister d f s msgSender msgValue order fillAmount) .done
  | .doFill msgSender order fillAmount steps outcomes, s =>
      doFill d f s msgSender order fillAmount steps outcomes
  | .withdrawToken msgSender token amount to_, s => withdrawToken d f s msgSender token amount to_
  | .withdrawEth msgSender amount to_ accepted, s => withdrawEth f s msgSender amount to_ accepted
  | .partialFillCallback msgSender order fillAmount outputAmount data outcomes, s =>
      partialFillCallback f d s msgSender order fillAmount outputAmount data outcomes .done

def body (l : Label κ W) (s : FillerWorld κ W) : Prog (FillerWorld κ W) Revert :=
  .attempt (require (Sendable d f s l) "no such sender") fun _ => bodyOf d f l s

omit [DecidableEq κ] in
def elapse (t : System.Elapse) (s : FillerWorld κ W) : FillerWorld κ W :=
  { s with system := System.elapse t s.system }

def run (txs : List (Tx (Label κ W) System.Elapse)) (s : FillerWorld κ W) : FillerWorld κ W :=
  runTxs (body d f) elapse txs s

/-- The contract is new, with no target allowed. -/
def deployed (system : World κ W) : FillerWorld κ W := ⟨system, false, fun _ => false, []⟩

/-! ## What the pieces do -/

section Pieces

variable {κ W : Type} {d : Deployment κ W} {f : FillerContract} {s s' : FillerWorld κ W}

theorem setTargetAllowed_spec {msgSender : Account} {target : Address} {allowed : Bool}
    (h : setTargetAllowed f s msgSender target allowed = .ok s') :
    (msgSender : Address) = f.owner ∧ s'.system = s.system ∧
      s'.filler = ⟨s.filler.entered, update s.filler.allowedTargets target allowed,
        .targetAllowed target allowed :: s.filler.events⟩ := by
  simp only [setTargetAllowed, onlyOwner, bind_eq_ok, require_eq_ok, pure_eq_ok] at h
  obtain ⟨_, howner, _, -, rfl⟩ := h
  exact ⟨howner, rfl, rfl⟩

theorem approve_spec {token spender : Address} {amount : Nat}
    (h : approve f d s token spender amount = .ok s') :
    ∃ tokens, s' = { s with system := { s.system with tokens } }.log
      (.approved token spender amount) := by
  simp only [approve, bind_eq_ok, pure_eq_ok] at h
  obtain ⟨tokens, -, rfl⟩ := h
  exact ⟨tokens, rfl⟩

/-- What a step leaves in the history, newest first. -/
def stepEvents (step : Step) : List FillerEvent :=
  .called step.target step.callData ::
    if step.approveToken ≠ 0 then
      [.approved step.approveToken step.target step.approveAmount]
    else []

theorem openStep_spec {step : Step} (h : openStep f d s step = .ok s') :
    s.filler.allowedTargets step.target = true ∧
      ∃ tokens, s' = ⟨{ s.system with tokens },
        { s.filler with events := stepEvents step ++ s.filler.events }⟩ := by
  simp only [openStep, bind_eq_ok, require_eq_ok, pure_eq_ok] at h
  obtain ⟨_, hallowed, s₁, happrove, rfl⟩ := h
  refine ⟨hallowed, ?_⟩
  by_cases htoken : step.approveToken ≠ 0
  · rw [approveStep, if_pos htoken] at happrove
    obtain ⟨tokens, rfl⟩ := approve_spec happrove
    refine ⟨tokens, ?_⟩
    rw [stepEvents, if_pos htoken]
    rfl
  · rw [approveStep, if_neg htoken] at happrove
    cases happrove
    refine ⟨s.system.tokens, ?_⟩
    rw [stepEvents, if_neg htoken]
    rfl

theorem openCallback_spec {msgSender : Address} (h : openCallback d s msgSender = .ok s') :
    s.filler.entered = false ∧ msgSender = d.reactor ∧
      s' = { s with filler := { s.filler with entered := true } } := by
  simp only [openCallback, bind_eq_ok, nonReentrant_eq_ok, require_eq_ok, pure_eq_ok] at h
  obtain ⟨_, hfree, _, hsender, rfl⟩ := h
  exact ⟨hfree, hsender, rfl⟩

theorem closeCallback_spec {outputToken : Address} {fill : Fill}
    (h : closeCallback f d s outputToken fill = .ok s') :
    ∃ tokens, s' = ⟨{ s.system with tokens },
      ⟨false, s.filler.allowedTargets,
        .filled fill :: .approved outputToken d.reactor fill.outputAmount :: s.filler.events⟩⟩ := by
  simp only [closeCallback, bind_eq_ok, pure_eq_ok] at h
  obtain ⟨s₁, happrove, rfl⟩ := h
  obtain ⟨tokens, rfl⟩ := approve_spec happrove
  exact ⟨tokens, rfl⟩

/-- **The rule for the steps.** `I` holds of the steps that are left and the
state before the first of them; the code that a step calls keeps `R`. -/
theorem sat_runSteps {R : FillerWorld κ W → FillerWorld κ W → Prop} {s₀ : FillerWorld κ W}
    {I : List Step → FillerWorld κ W → Prop}
    (hstep : ∀ {step steps s s' s''}, I (step :: steps) s → openStep f d s step = .ok s' →
      R s' s'' → I steps s'')
    {k : FillerWorld κ W → Prog (FillerWorld κ W) Revert} (hk : ∀ s, I [] s → (k s).Sat R s₀) :
    ∀ {steps : List Step} {outcomes : List Bool} {s : FillerWorld κ W}, I steps s →
      (runSteps f d steps outcomes s k).Sat R s₀ := by
  intro steps
  induction steps with
  | nil =>
      intro outcomes s hI
      rw [runSteps]
      exact hk s hI
  | cons step steps ih =>
      intro outcomes s hI
      rw [runSteps]
      refine Prog.sat_attempt fun s' hopen => ?_
      intro s'' hkept
      exact Prog.sat_attempt fun _ _ => ih (hstep hI hopen hkept)

end Pieces

/-! ## A third party of the system -/

section Projection

variable {d} {f}

/-- What happened to the system is what calls of it do. -/
def Through (d : Deployment κ W) (s s' : FillerWorld κ W) : Prop :=
  Reaches (System.body d) s.system s'.system

theorem Through.trans {s s' s'' : FillerWorld κ W} (h : Through d s s') (h' : Through d s' s'') :
    Through d s s'' := Reaches.trans h h'

theorem Through.ofSame {s s' : FillerWorld κ W} (h : s'.system = s.system) : Through d s s' := by
  rw [Through, h]
  exact .refl _

/-- What the contract does to a token is what someone does to tokens. -/
theorem Through.ofTokens {s s' : FillerWorld κ W} (tokens : W)
    (h : s'.system = { s.system with tokens }) : Through d s s' := by
  rw [Through, h]
  exact Reaches.call (l := .tokens fun _ => tokens) (mayEnd_done _)

theorem sat_callback_through {s₀ s : FillerWorld κ W} {msgSender : Address} {order : SignedOrder}
    {fillAmount outputAmount : Nat} {data : Option (List Step)} {outcomes : List Bool}
    {k : FillerWorld κ W → Prog (FillerWorld κ W) Revert}
    (hk : ∀ s', Through d s s' → (k s').Sat (Through d) s₀) :
    (partialFillCallback f d s msgSender order fillAmount outputAmount data outcomes k).Sat
      (Through d) s₀ := by
  refine Prog.sat_attempt fun s₁ hopen => ?_
  obtain ⟨-, -, rfl⟩ := openCallback_spec hopen
  cases data with
  | none => trivial
  | some steps =>
      refine sat_runSteps (I := fun _ s' => Through d s s') ?_ ?_ (.ofSame rfl)
      · intro step steps s₁ s₂ s₃ hI hstep hkept
        obtain ⟨-, tokens, hs₂⟩ := openStep_spec hstep
        exact (hI.trans (.ofTokens tokens (congrArg FillerWorld.system hs₂))).trans hkept
      · intro s₁ hI
        refine Prog.sat_attempt fun s₂ hclose => hk s₂ ?_
        obtain ⟨tokens, hs₂⟩ := closeCallback_spec hclose
        exact hI.trans (.ofTokens tokens (congrArg FillerWorld.system hs₂))

/-- A chunk of the contract is a chunk of the reactor, in whose callback
the calls of the steps are made. -/
theorem sat_chunk_through (s : FillerWorld κ W) (order : SignedOrder) (fillAmount : Nat)
    (data : Option (List Step)) (outcomes : List Bool) :
    (executeChunk d f s order fillAmount data outcomes).Sat (Through d) s := by
  refine Prog.sat_attempt fun ⟨system₁, c⟩ hopen => ?_
  refine Prog.sat_yieldIf_of (fun s => .ofSame rfl) fun s₂ h₂ hsame₂ => ?_
  refine sat_callback_through fun s₃ h₃ => ?_
  refine Prog.sat_attempt fun ⟨system₄, balBefore⟩ hpay => ?_
  refine Prog.sat_yieldIf_of (fun s => .ofSame rfl) fun s₅ h₅ hsame₅ => ?_
  refine Prog.sat_attempt fun system₆ hclose => ?_
  refine Reaches.call (l := .executePartialChunkWithCallback f.address order fillAmount
    (f.encode [])) ?_
  refine mayEnd_attempt (a := ()) (require_eq_ok.mpr (f.encode_pos [])) ?_
  refine mayEnd_attempt hopen ?_
  refine mayEnd_yieldIf h₂ (fun hno => congrArg FillerWorld.system (hsame₂ hno)) ?_
  refine mayEnd_yieldIf h₃ (fun hno => absurd (f.encode_pos []) (of_decide_eq_false hno)) ?_
  refine mayEnd_attempt hpay ?_
  refine mayEnd_yieldIf h₅ (fun hno => congrArg FillerWorld.system (hsame₅ hno)) ?_
  exact mayEnd_attempt hclose (mayEnd_done _)

theorem sat_within_through (l : System.Label κ W) (s : FillerWorld κ W) :
    ((System.body d l s.system).within systemPart s).Sat (Through d) s :=
  Prog.sat_within_reaches systemPart rfl fun _ hend => Reaches.call hend

/-- The step lemma. -/
theorem body_through (l : Label κ W) (s : FillerWorld κ W) :
    (body d f l s).Sat (Through d) s := by
  refine Prog.sat_attempt fun _ _ => ?_
  cases l with
  | system l =>
      cases l with
      | executePartialChunkWithCallback msgSender order fillAmount callbackData =>
          rw [bodyOf]
          split
          · exact Prog.sat_attempt fun _ _ => sat_chunk_through s order fillAmount none []
          · exact sat_within_through _ s
      | _ => exact sat_within_through _ s
  | setTargetAllowed msgSender target allowed =>
      exact Prog.sat_attempt fun s' h => .ofSame (setTargetAllowed_spec h).2.1
  | doRegister msgSender msgValue order fillAmount =>
      refine Prog.sat_attempt fun s' h => ?_
      simp only [doRegister, bind_eq_ok, pure_eq_ok] at h
      obtain ⟨_, -, system, hregister, rfl⟩ := h
      exact Reaches.call (l := .register f.address msgValue order fillAmount)
        (mayEnd_attempt hregister (mayEnd_done _))
  | doFill msgSender order fillAmount steps outcomes =>
      exact Prog.sat_attempt fun _ _ => sat_chunk_through s order fillAmount (some steps) outcomes
  | withdrawToken msgSender token amount to_ =>
      refine Prog.sat_attempt fun _ _ => ?_
      refine Prog.sat_attempt fun tokens _ => ?_
      refine Prog.sat_yieldIf (fun s => .ofSame rfl) fun s₂ h₂ => ?_
      have h₁ : Through d s ({ s with system := { s.system with tokens } }.log
          (.tokenWithdrawn token amount to_)) := .ofTokens tokens rfl
      exact h₁.trans h₂
  | withdrawEth msgSender amount to_ accepted =>
      refine Prog.sat_attempt fun _ _ => ?_
      intro s₁ h₁
      refine Prog.sat_attempt fun _ _ => ?_
      have h₀ : Through d s (s.log (.ethWithdrawn amount to_)) := .ofSame rfl
      exact h₀.trans h₁
  | partialFillCallback msgSender order fillAmount outputAmount data outcomes =>
      exact sat_callback_through fun s' h => h

/-- **A filler contract is a third party.** What a run with the contract
does to the system is what a run of the system does, so that the world
around a filler contract is always one that the system can be in. -/
theorem filler_projects (f : FillerContract) {system : World κ W} (hs : System.Reachable d system)
    (txs : List (Tx (Label κ W) System.Elapse)) :
    System.Reachable d (run d f txs (deployed system)).system := by
  obtain ⟨tokens, block, before, rfl⟩ := hs
  let system := System.run d before (System.deployed d tokens block)
  have hproject : ∃ after, (run d f txs (deployed system)).system = System.run d after system :=
    runTxs_reaches systemPart body_through (fun _ _ => rfl) (deployed system) txs
  obtain ⟨after, hafter⟩ := hproject
  refine ⟨tokens, block, before ++ after, ?_⟩
  exact hafter.trans (runTxs_append before after _).symm

/-- A contract that holds the output fills 400 of 1001. -/
theorem filler_projects_filled :
    ∃ t : World OrderInfo Ledger, t.trace.length = 4 ∧ t.tokens 3 1 = 400 ∧
      System.Reachable Ledger.deployment t := by
  let info : OrderInfo := ⟨1, 2, 1001, 3, 900, 100, 0, 0, 10 ^ 18, 0, 3000⟩
  let owner : Account := ⟨9, by decide⟩
  let f : FillerContract := ⟨⟨7, by decide⟩, 9, by decide, fun _ => [0], fun _ => by decide⟩
  let ledger : Ledger := update₂ (update₂ (fun _ _ => 0) 2 1 1001) 3 7 400
  let system := System.deployed Ledger.deployment ledger ⟨10, 0⟩
  let txs : List (Tx (Label OrderInfo Ledger) System.Elapse) :=
    [.call (.leaf (.doRegister owner 80 ⟨info, [1]⟩ 400)),
     .call (.leaf (.doFill owner ⟨info, [1]⟩ 400 [] []))]
  exact ⟨(run Ledger.deployment f txs (deployed system)).system, by decide +kernel,
    by decide +kernel, filler_projects f ⟨ledger, ⟨10, 0⟩, [], rfl⟩ txs⟩

end Projection

end PartialFillFillerBase

end NeutronX
