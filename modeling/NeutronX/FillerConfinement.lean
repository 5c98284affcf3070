import NeutronX.FillerContract

/-!
# Confinement of a filler contract

A filler contract approves and calls others only in its callback, and the
callback is open to the reactor alone. The reactor calls back whoever sent
the chunk, so the steps that are run are those of a chunk that the contract
sent, and it sends chunks with steps for its owner only. In between, at
every external call, everyone can try to come back in.

The history of the contract says it without mentioning who calls whom:
what it did in callbacks is, in order, what the scripts of its completed
fills say (`filler_confined`), these are fills its owner asked for, and each
target was on the list at that moment.
-/

namespace NeutronX

open Evm Function

namespace PartialFillFillerBase

variable {κ W : Type} {d : Deployment κ W} {f : FillerContract}

/-! ## The history of the contract -/

/-- Done in a callback. -/
def isSent : FillerEvent → Bool
  | .approved _ _ _ => true
  | .called _ _ => true
  | .targetAllowed _ _ => false
  | .filled _ => false
  | .tokenWithdrawn _ _ _ => false
  | .ethWithdrawn _ _ => false

def sends (events : List FillerEvent) : List FillerEvent := events.filter isSent

def fills (events : List FillerEvent) : List Fill :=
  events.filterMap fun
    | .filled fill => some fill
    | _ => none

/-- Whether the owner's last word on the target was to allow it. -/
def listed : List FillerEvent → Address → Bool
  | [], _ => false
  | .targetAllowed target allowed :: before, t => if t = target then allowed else listed before t
  | .approved _ _ _ :: before, t => listed before t
  | .called _ _ :: before, t => listed before t
  | .filled _ :: before, t => listed before t
  | .tokenWithdrawn _ _ _ :: before, t => listed before t
  | .ethWithdrawn _ _ :: before, t => listed before t

/-- What was approved or called was on the list, or is the reactor. -/
def Vetted (reactor : Address) : List FillerEvent → Prop
  | [] => True
  | .approved _ spender _ :: before =>
      (spender = reactor ∨ listed before spender = true) ∧ Vetted reactor before
  | .called target _ :: before => listed before target = true ∧ Vetted reactor before
  | .targetAllowed _ _ :: before => Vetted reactor before
  | .filled _ :: before => Vetted reactor before
  | .tokenWithdrawn _ _ _ :: before => Vetted reactor before
  | .ethWithdrawn _ _ :: before => Vetted reactor before

/-- What the callback of a fill does, newest first. -/
def script (reactor : Address) (fill : Fill) : List FillerEvent :=
  .approved fill.order.info.outputToken reactor fill.outputAmount ::
    fill.steps.reverse.flatMap stepEvents

theorem sends_append (events events' : List FillerEvent) :
    sends (events ++ events') = sends events ++ sends events' := List.filter_append ..

theorem fills_append (events events' : List FillerEvent) :
    fills (events ++ events') = fills events ++ fills events' := List.filterMap_append ..

theorem mem_stepEvents {step : Step} {e : FillerEvent} (h : e ∈ stepEvents step) :
    isSent e = true := by
  rw [stepEvents] at h
  split at h
  · simp only [List.mem_cons, List.not_mem_nil, or_false] at h
    rcases h with rfl | rfl <;> rfl
  · rw [List.mem_singleton] at h
    subst h
    rfl

theorem sends_stepEvents (step : Step) : sends (stepEvents step) = stepEvents step :=
  List.filter_eq_self.mpr fun _ he => mem_stepEvents he

theorem fills_stepEvents (step : Step) : fills (stepEvents step) = [] := by
  rw [stepEvents, fills]
  split <;> rfl

theorem listed_stepEvents (step : Step) (before : List FillerEvent) :
    listed (stepEvents step ++ before) = listed before := by
  funext t
  rw [stepEvents]
  split <;> rfl

theorem vetted_stepEvents {reactor : Address} {step : Step} {before : List FillerEvent}
    (hlisted : listed before step.target = true) (h : Vetted reactor before) :
    Vetted reactor (stepEvents step ++ before) := by
  rw [stepEvents]
  split
  · exact ⟨hlisted, Or.inr hlisted, h⟩
  · exact ⟨hlisted, h⟩

/-! ## What a call keeps -/

/-- The list is what the owner's calls made it, and was always obeyed. -/
structure Obeyed (d : Deployment κ W) (s : FillerState) : Prop where
  list : s.allowedTargets = listed s.events
  vetted : Vetted d.reactor s.events

/-- From `s` to `s'`, the callbacks did what the scripts of `done` say, and
all else is allowed by `A`. -/
structure Follows (d : Deployment κ W) (A : FillerEvent → Prop) (s s' : FillerState)
    (sent : List FillerEvent) (done : List Fill) : Prop where
  obeyed : Obeyed d s → Obeyed d s'
  sent : sends s'.events = sent ++ sends s.events
  fills : fills s'.events = done ++ fills s.events
  asked : ∃ new, s'.events = new ++ s.events ∧ ∀ e ∈ new, isSent e = false → A e

theorem Follows.refl (A : FillerEvent → Prop) (s : FillerState) : Follows d A s s [] [] :=
  ⟨id, rfl, rfl, [], rfl, fun _ he => absurd he List.not_mem_nil⟩

theorem Follows.trans {A : FillerEvent → Prop} {s s' s'' : FillerState}
    {sent sent' : List FillerEvent} {done done' : List Fill} (h : Follows d A s s' sent done)
    (h' : Follows d A s' s'' sent' done') :
    Follows d A s s'' (sent' ++ sent) (done' ++ done) := by
  obtain ⟨new, hnew, hasked⟩ := h.asked
  obtain ⟨new', hnew', hasked'⟩ := h'.asked
  refine ⟨h'.obeyed ∘ h.obeyed, ?_, ?_, new' ++ new, ?_, fun e he => ?_⟩
  · rw [h'.sent, h.sent, List.append_assoc]
  · rw [h'.fills, h.fills, List.append_assoc]
  · rw [hnew', hnew, List.append_assoc]
  · rcases List.mem_append.mp he with he | he
    · exact hasked' e he
    · exact hasked e he

/-- What a call keeps: the guard is as it was, and while it is entered no
fill completes. -/
def Kept (d : Deployment κ W) (A : FillerEvent → Prop) (s s' : FillerWorld κ W) : Prop :=
  s'.filler.entered = s.filler.entered ∧
    ∃ done, (s.filler.entered = true → done = []) ∧
      Follows d A s.filler s'.filler (done.flatMap (script d.reactor)) done

theorem Kept.ofSame {A : FillerEvent → Prop} {s s' : FillerWorld κ W}
    (h : s'.filler = s.filler) : Kept d A s s' := by
  rw [Kept, h]
  exact ⟨rfl, [], fun _ => rfl, .refl A s.filler⟩

theorem Kept.trans {A : FillerEvent → Prop} {s s' s'' : FillerWorld κ W} (h : Kept d A s s')
    (h' : Kept d A s' s'') : Kept d A s s'' := by
  obtain ⟨hentered, done, hnone, hdone⟩ := h
  obtain ⟨hentered', done', hnone', hdone'⟩ := h'
  refine ⟨hentered'.trans hentered, done' ++ done, fun htrue => ?_, ?_⟩
  · rw [hnone htrue, hnone' (hentered.trans htrue), List.append_nil]
  · rw [List.flatMap_append]
    exact hdone.trans hdone'

/-- What the code outside does while the guard is entered. -/
theorem Kept.inside {A : FillerEvent → Prop} {s s' : FillerWorld κ W} (h : Kept d A s s')
    (hentered : s.filler.entered = true) :
    s'.filler.entered = true ∧ Follows d A s.filler s'.filler [] [] := by
  obtain ⟨hsame, done, hnone, hdone⟩ := h
  rw [hnone hentered] at hdone
  exact ⟨hsame.trans hentered, hdone⟩

/-- An event outside the callbacks. -/
theorem Kept.logged {A : FillerEvent → Prop} {s s' : FillerWorld κ W} {e : FillerEvent}
    (hs' : s'.filler = { s.filler with events := e :: s.filler.events }) (hsent : isSent e = false)
    (hfill : fills [e] = []) (hlisted : ∀ before, listed (e :: before) = listed before)
    (hvetted : ∀ before, Vetted d.reactor before → Vetted d.reactor (e :: before)) (hA : A e) :
    Kept d A s s' := by
  rw [Kept, hs']
  refine ⟨rfl, [], fun _ => rfl, fun hobeyed => ⟨?_, hvetted _ hobeyed.vetted⟩, ?_, ?_, [e], rfl,
    ?_⟩
  · exact hobeyed.list.trans (hlisted _).symm
  · exact List.filter_cons_of_neg (by rw [hsent]; exact Bool.false_ne_true)
  · exact (fills_append [e] _).trans (by rw [hfill])
  · intro e' he' _
    rw [List.mem_singleton] at he'
    rw [he']
    exact hA

/-- The list is changed. -/
theorem Kept.allowed {A : FillerEvent → Prop} {s s' : FillerWorld κ W} {target : Address}
    {allowed : Bool}
    (hs' : s'.filler = ⟨s.filler.entered, update s.filler.allowedTargets target allowed,
      .targetAllowed target allowed :: s.filler.events⟩)
    (hA : A (.targetAllowed target allowed)) : Kept d A s s' := by
  rw [Kept, hs']
  refine ⟨rfl, [], fun _ => rfl, fun hobeyed => ⟨?_, hobeyed.vetted⟩, rfl, rfl, [_], rfl, ?_⟩
  · funext t
    change update s.filler.allowedTargets target allowed t
      = if t = target then allowed else listed s.filler.events t
    rw [← hobeyed.list, update_apply]
  · intro e he _
    rw [List.mem_singleton] at he
    rw [he]
    exact hA

/-! ## The callback -/

theorem openStep_follows {A : FillerEvent → Prop} {s s' : FillerWorld κ W} {step : Step}
    (h : openStep f d s step = .ok s') :
    s'.filler.entered = s.filler.entered ∧
      Follows d A s.filler s'.filler (stepEvents step) [] := by
  obtain ⟨hallowed, tokens, rfl⟩ := openStep_spec h
  refine ⟨rfl, fun hobeyed => ⟨?_, ?_⟩, ?_, ?_, stepEvents step, rfl, fun e he hfalse => ?_⟩
  · exact hobeyed.list.trans (listed_stepEvents step _).symm
  · refine vetted_stepEvents ?_ hobeyed.vetted
    rw [← hobeyed.list]
    exact hallowed
  · rw [sends_append, sends_stepEvents]
  · rw [fills_append, fills_stepEvents]
  · rw [mem_stepEvents he] at hfalse
    cases hfalse

theorem closeCallback_follows {A : FillerEvent → Prop} {s s' : FillerWorld κ W} {fill : Fill}
    (hA : A (.filled fill)) (h : closeCallback f d s fill.order.info.outputToken fill = .ok s') :
    s'.filler.entered = false ∧ Follows d A s.filler s'.filler
      [.approved fill.order.info.outputToken d.reactor fill.outputAmount] [fill] := by
  obtain ⟨tokens, rfl⟩ := closeCallback_spec h
  refine ⟨rfl, fun hobeyed => ⟨?_, Or.inl rfl, hobeyed.vetted⟩, rfl, rfl, [.filled fill,
    .approved fill.order.info.outputToken d.reactor fill.outputAmount], rfl, ?_⟩
  · rw [hobeyed.list]
    rfl
  · intro e he hsent
    simp only [List.mem_cons, List.not_mem_nil, or_false] at he
    rcases he with rfl | rfl
    · exact hA
    · cases hsent

/-- The guard is entered, and the steps that are not `left` were run. -/
def Running (d : Deployment κ W) (A : FillerEvent → Prop) (s : FillerState)
    (steps left : List Step) (s' : FillerWorld κ W) : Prop :=
  s'.filler.entered = true ∧
    ∃ ran, ran ++ left = steps ∧ Follows d A s s'.filler (ran.reverse.flatMap stepEvents) []

/-- A step lemma for the steps: whatever its target does meanwhile. -/
theorem Running.step {A : FillerEvent → Prop} {s : FillerState} {steps left : List Step}
    {step : Step} {s₁ s₂ s₃ : FillerWorld κ W} (h : Running d A s steps (step :: left) s₁)
    (hstep : openStep f d s₁ step = .ok s₂) (hkept : Kept d A s₂ s₃) :
    Running d A s steps left s₃ := by
  obtain ⟨hentered, ran, hsteps, hran⟩ := h
  obtain ⟨hsame, hfollows⟩ := openStep_follows (A := A) hstep
  obtain ⟨hentered', hquiet⟩ := hkept.inside (hsame.trans hentered)
  refine ⟨hentered', ran ++ [step], ?_, ?_⟩
  · rw [List.append_assoc]
    exact hsteps
  · rw [List.reverse_append, List.flatMap_append, List.reverse_singleton, List.flatMap_singleton]
    exact (hran.trans hfollows).trans hquiet

/-- A callback that comes to its end has run its script. -/
theorem Running.close {A : FillerEvent → Prop} {s s₁ s₂ : FillerWorld κ W} {fill : Fill}
    (h : Running d A s.filler fill.steps [] s₁) (hfree : s.filler.entered = false)
    (hA : A (.filled fill))
    (hclose : closeCallback f d s₁ fill.order.info.outputToken fill = .ok s₂) : Kept d A s s₂ := by
  obtain ⟨-, ran, hsteps, hran⟩ := h
  rw [List.append_nil] at hsteps
  subst hsteps
  obtain ⟨hleft, hfollows⟩ := closeCallback_follows hA hclose
  refine ⟨hleft.trans hfree.symm, [fill], fun htrue => ?_, ?_⟩
  · rw [hfree] at htrue
    cases htrue
  · rw [List.flatMap_singleton]
    exact hran.trans hfollows

theorem sat_callback_kept {A : FillerEvent → Prop} {s₀ s : FillerWorld κ W}
    {msgSender : Address} {order : SignedOrder} {fillAmount outputAmount : Nat}
    {data : Option (List Step)} {outcomes : List Bool}
    {k : FillerWorld κ W → Prog (FillerWorld κ W) Revert}
    (hA : msgSender = d.reactor → s.filler.entered = false →
      ∀ steps, data = some steps → A (.filled ⟨order, fillAmount, steps, outputAmount⟩))
    (hk : ∀ s', Kept d A s s' → (k s').Sat (Kept d A) s₀) :
    (partialFillCallback f d s msgSender order fillAmount outputAmount data outcomes k).Sat
      (Kept d A) s₀ := by
  refine Prog.sat_attempt fun s₁ hopen => ?_
  obtain ⟨hfree, hsender, rfl⟩ := openCallback_spec hopen
  cases data with
  | none => trivial
  | some steps =>
      refine sat_runSteps (I := Running d A s.filler steps) ?_ ?_ ?_
      · intro step left s₁ s₂ s₃ hI hstep hkept
        exact hI.step hstep hkept
      · intro s₁ hI
        refine Prog.sat_attempt fun s₂ hclose => hk s₂ ?_
        exact hI.close hfree (hA hsender hfree steps rfl) hclose
      · exact ⟨rfl, [], rfl, fun h => ⟨h.list, h.vetted⟩, rfl, rfl, [], rfl,
          fun _ he => absurd he List.not_mem_nil⟩

/-! ## Calls and runs -/

variable [DecidableEq κ]

theorem sat_chunk_kept {A : FillerEvent → Prop} {s : FillerWorld κ W} {order : SignedOrder}
    {fillAmount : Nat} {data : Option (List Step)} {outcomes : List Bool}
    (hA : s.filler.entered = false → ∀ steps outputAmount, data = some steps →
      A (.filled ⟨order, fillAmount, steps, outputAmount⟩)) :
    (executeChunk d f s order fillAmount data outcomes).Sat (Kept d A) s := by
  have hrefl : ∀ s : FillerWorld κ W, Kept d A s s := fun _ => .ofSame rfl
  refine Prog.sat_attempt fun ⟨system₁, c⟩ _ => ?_
  refine Prog.sat_yieldIf hrefl fun s₂ h₂ => ?_
  have h₁ : Kept d A s { s with system := system₁ } := .ofSame rfl
  refine sat_callback_kept (fun _ hfree steps hdata => ?_) fun s₃ h₃ => ?_
  · exact hA (h₂.1.symm.trans hfree) steps _ hdata
  · refine Prog.sat_attempt fun ⟨system₄, balBefore⟩ _ => ?_
    refine Prog.sat_yieldIf hrefl fun s₅ h₅ => ?_
    refine Prog.sat_attempt fun system₆ _ => ?_
    have h₄ : Kept d A s₃ { s₃ with system := system₄ } := .ofSame rfl
    have h₆ : Kept d A s₅ { s₅ with system := system₆ } := .ofSame rfl
    exact ((((h₁.trans h₂).trans h₃).trans h₄).trans h₅).trans h₆

/-- `A` allows what the owner asks for. -/
def Asked (f : FillerContract) (A : FillerEvent → Prop) : Label κ W → Prop
  | .setTargetAllowed msgSender target allowed =>
      (msgSender : Address) = f.owner → A (.targetAllowed target allowed)
  | .doFill msgSender order fillAmount steps _ =>
      (msgSender : Address) = f.owner →
        ∀ outputAmount, A (.filled ⟨order, fillAmount, steps, outputAmount⟩)
  | .withdrawToken msgSender token amount to_ =>
      (msgSender : Address) = f.owner → A (.tokenWithdrawn token amount to_)
  | .withdrawEth msgSender amount to_ _ =>
      (msgSender : Address) = f.owner → A (.ethWithdrawn amount to_)
  | .system _ => True
  | .doRegister .. => True
  | .partialFillCallback .. => True

theorem sat_within_kept {A : FillerEvent → Prop} (l : System.Label κ W) (s : FillerWorld κ W) :
    ((System.body d l s.system).within systemPart s).Sat (Kept d A) s :=
  Prog.sat_within systemPart .trans (fun _ _ => .ofSame rfl) (.ofSame rfl)

/-- The step lemma. -/
theorem body_kept {A : FillerEvent → Prop} {l : Label κ W} (hl : Asked f A l)
    (s : FillerWorld κ W) : (body d f l s).Sat (Kept d A) s := by
  have hrefl : ∀ s : FillerWorld κ W, Kept d A s s := fun _ => .ofSame rfl
  refine Prog.sat_attempt fun _ hsendable => ?_
  rw [require_eq_ok] at hsendable
  cases l with
  | system l =>
      cases l with
      | executePartialChunkWithCallback msgSender order fillAmount callbackData =>
          rw [bodyOf]
          split
          · refine Prog.sat_attempt fun _ _ => sat_chunk_kept fun _ _ _ hnone => ?_
            cases hnone
          · exact sat_within_kept _ s
      | _ => exact sat_within_kept _ s
  | setTargetAllowed msgSender target allowed =>
      refine Prog.sat_attempt fun s' h => ?_
      obtain ⟨howner, -, hs'⟩ := setTargetAllowed_spec h
      exact .allowed hs' (hl howner)
  | doRegister msgSender msgValue order fillAmount =>
      refine Prog.sat_attempt fun s' h => .ofSame ?_
      simp only [doRegister, bind_eq_ok, pure_eq_ok] at h
      obtain ⟨_, -, system, -, rfl⟩ := h
      rfl
  | doFill msgSender order fillAmount steps outcomes =>
      refine Prog.sat_attempt fun _ howner => sat_chunk_kept fun _ steps' outputAmount hsteps => ?_
      cases hsteps
      exact hl (require_eq_ok.mp howner) outputAmount
  | withdrawToken msgSender token amount to_ =>
      refine Prog.sat_attempt fun _ howner => ?_
      refine Prog.sat_attempt fun tokens _ => ?_
      refine Prog.sat_yieldIf hrefl fun s₂ h₂ => ?_
      have h₁ : Kept d A s ({ s with system := { s.system with tokens } }.log
          (.tokenWithdrawn token amount to_)) :=
        .logged rfl rfl rfl (fun _ => rfl) (fun _ h => h) (hl (require_eq_ok.mp howner))
      exact h₁.trans h₂
  | withdrawEth msgSender amount to_ accepted =>
      refine Prog.sat_attempt fun _ howner => ?_
      intro s₁ h₁
      refine Prog.sat_attempt fun _ _ => ?_
      have h₀ : Kept d A s (s.log (.ethWithdrawn amount to_)) :=
        .logged rfl rfl rfl (fun _ => rfl) (fun _ h => h) (hl (require_eq_ok.mp howner))
      exact h₀.trans h₁
  | partialFillCallback msgSender order fillAmount outputAmount data outcomes =>
      -- nobody but the reactor gets past the guard
      refine sat_callback_kept (fun hreactor => absurd hreactor hsendable) fun s' h => h

/-- **A filler contract does what its owner asked for.** Whatever runs from
its deployment, at whatever depth anyone calls it: the approvals and calls
it made in callbacks are those of its completed fills, in order and each in
full; whom it approved or called was at that moment on its list, or the
reactor; and the list, the fills and the withdrawals are as its owner's
calls say. -/
theorem filler_confined (A : FillerEvent → Prop) (system : World κ W)
    (txs : List (Tx (Label κ W) System.Elapse)) (hasked : ∀ tx ∈ txs, tx.All (Asked f A)) :
    let t := (run d f txs (deployed system)).filler
    sends t.events = (fills t.events).flatMap (script d.reactor) ∧
      Vetted d.reactor t.events ∧ t.allowedTargets = listed t.events ∧
      ∀ e ∈ t.events, isSent e = false → A e := by
  intro t
  have hrun : Kept d A (deployed system) (run d f txs (deployed system)) :=
    runTxs_sat (R := Kept d A) (fun _ => .ofSame rfl) .trans (fun _ hl s => body_kept hl s)
      (fun x s => (.ofSame rfl : Kept d A s (elapse x s))) (deployed system) hasked
  obtain ⟨-, done, -, hdone⟩ := hrun
  have hobeyed : Obeyed d t := hdone.obeyed ⟨rfl, trivial⟩
  obtain ⟨new, hnew, hA⟩ := hdone.asked
  have hfills : fills t.events = done := by
    rw [hdone.fills]
    exact List.append_nil done
  refine ⟨?_, hobeyed.vetted, hobeyed.list, fun e he => hA e ?_⟩
  · rw [hfills, hdone.sent]
    exact List.append_nil _
  · rw [hnew] at he
    exact (List.append_nil new).subst he

/-- The owner fills a chunk over one step. Its target delivers the output,
and tries meanwhile to open a callback, to fill for the contract and to put
another address on the list. -/
theorem filler_confined_attacked :
    ∃ t : FillerState, (fills t.events).length = 1 ∧ (sends t.events).length = 3 ∧
      sends t.events = (fills t.events).flatMap (script Ledger.deployment.reactor) ∧
      t.allowedTargets 50 = true ∧ t.allowedTargets 51 = false ∧
      t.allowedTargets = listed t.events := by
  let info : OrderInfo := ⟨1, 2, 1001, 3, 900, 100, 0, 0, 10 ^ 18, 0, 3000⟩
  let order : SignedOrder := ⟨info, [1]⟩
  let owner : Account := ⟨9, by decide⟩
  let target : Account := ⟨50, by decide⟩
  let f : FillerContract := ⟨⟨7, by decide⟩, 9, by decide, fun _ => [0], fun _ => by decide⟩
  let step : Step := ⟨50, [1, 2], 2, 400⟩
  let ledger : Ledger := update₂ (update₂ (fun _ _ => 0) 2 1 1001) 3 50 400
  let deliver : Ledger → Ledger := fun w => update₂ (update₂ w 3 50 0) 3 7 400
  let system := System.deployed Ledger.deployment ledger ⟨10, 0⟩
  let txs : List (Tx (Label OrderInfo Ledger) System.Elapse) :=
    [.call (.leaf (.setTargetAllowed owner 50 true)),
     .call (.leaf (.doRegister owner 80 order 400)),
     .call (.mk (.doFill owner order 400 [step] [true])
       [[.leaf (.partialFillCallback target order 400 0 (some [step]) []),
         .leaf (.doFill target order 400 [step] []),
         .leaf (.setTargetAllowed target 51 true),
         .leaf (.system (.tokens deliver))]])]
  let A : FillerEvent → Prop := fun e =>
    match e with
    | .targetAllowed t allowed => t = 50 ∧ allowed = true
    | .filled fill => fill.steps = [step]
    | _ => False
  have hasked : ∀ tx ∈ txs, tx.All (Asked f A) := by
    intro tx htx
    simp only [txs, List.mem_cons, List.not_mem_nil, or_false] at htx
    rcases htx with rfl | rfl | rfl
    · exact ⟨fun _ => ⟨rfl, rfl⟩, trivial⟩
    · exact ⟨trivial, trivial⟩
    · have hforeign : (target : Address) ≠ f.owner := by decide
      exact ⟨fun _ _ => rfl, ⟨⟨trivial, trivial⟩, ⟨fun h => absurd h hforeign, trivial⟩,
        ⟨fun h => absurd h hforeign, trivial⟩, ⟨trivial, trivial⟩, trivial⟩, trivial⟩
  obtain ⟨hscripts, -, hlist, -⟩ := filler_confined A system txs hasked
  exact ⟨(run Ledger.deployment f txs (deployed system)).filler, by decide +kernel,
    by decide +kernel, hscripts, by decide +kernel, by decide +kernel, hlist⟩

end PartialFillFillerBase

end NeutronX
