import NeutronX.AuctionSteps
import NeutronX.ConfigGuard

/-!
# The governance of the configuration

Three configurations are on record: the one that is live, the one it
replaced, and one that may be waiting. `ConfigEffect` says what a call does
to them and to the two clocks; everything about the configuration is a case
analysis on it.

A configuration is validated before it is recorded, and a waiting one was
compared with the live one it will replace: while it waits nothing else can
go live, because setting another is refused and a rollback discards it. So
what was checked when it was queued still holds when it is committed
(`config_governed`).
-/

namespace NeutronX

open Evm Function

namespace FillAuction

open DynamicStakeLib

variable {κ : Type}

/-! ## What a call does to the configuration -/

/-- The part of the state that governs the configuration. -/
structure Governance where
  config : StakeConfig
  previousConfig : StakeConfig
  pending : StakeConfig
  pendingEffective : Nat
  lastChange : Nat

def governance (s : AuctionState κ) : Governance where
  config := s.config
  previousConfig := s.previousConfig
  pending := s.pending
  pendingEffective := s.pendingEffective
  lastChange := s.lastChange

/-- A new configuration goes live: `setStakeConfig` where the guard sees no
loosening, or `commitPending`. -/
inductive Application (blk : Block) (s s' : AuctionState κ) : Prop
  | tightened (msgSender : Address) (c : StakeConfig)
      (h : setStakeConfig blk s msgSender c = .ok s')
      (hnow : guardCheck blk s.config c guardBounds = .ok false)
  | committed (h : commitPending blk s = .ok s')

/-- The last change is `CHANGE_COOLDOWN` ago, or there was none. -/
def Governance.Cooled (blk : Block) (g : Governance) : Prop :=
  g.lastChange ≠ 0 → g.lastChange + CHANGE_COOLDOWN ≤ blk.timestamp

/-- `cfg` may go live in block `blk`: it tightens, or it waited. -/
inductive Ready (blk : Block) (g : Governance) : StakeConfig → Prop
  | tightened (c : StakeConfig) (hcooled : g.Cooled blk) (hfree : isEmptyConfig g.pending = true)
      (hvalid : validateConfig c = .ok ())
      (hguard : guardCheck blk g.config c guardBounds = .ok false) : Ready blk g c
  | waited (hpending : isEmptyConfig g.pending = false)
      (hready : g.pendingEffective ≤ blk.timestamp) : Ready blk g g.pending

/-- What an application in block `blk` does. -/
structure Applied (blk : Block) (g : Governance) (cfg : StakeConfig) (g' : Governance) :
    Prop where
  ready : Ready blk g cfg
  config : g'.config = cfg
  previousConfig : g'.previousConfig = g.config
  free : isEmptyConfig g'.pending = true
  lastChange : g'.lastChange = blk.timestamp

/-- What any other call in block `blk` does. -/
inductive ConfigEffect (blk : Block) (g : Governance) : Governance → Prop
  | same : ConfigEffect blk g g
  | queued (c : StakeConfig) (hcooled : g.Cooled blk) (hfree : isEmptyConfig g.pending = true)
      (hvalid : validateConfig c = .ok ())
      (hguard : guardCheck blk g.config c guardBounds = .ok true) :
      ConfigEffect blk g
        { g with
          pending := c
          pendingEffective := blk.timestamp + LOOSEN_DELAY
          lastChange := blk.timestamp }
  | cancelled : ConfigEffect blk g { g with pending := emptyConfig }
  | rolledBack (hprevious : isEmptyConfig g.previousConfig = false) :
      ConfigEffect blk g { g with config := g.previousConfig, pending := emptyConfig }

theorem checkCooldown_spec {blk : Block} {s : AuctionState κ} {u : Unit}
    (h : checkCooldown blk s = .ok u) : (governance s).Cooled blk := by
  intro hne
  unfold checkCooldown at h
  rw [if_neg (show s.lastChange ≠ 0 from hne)] at h
  simp only [bind_eq_ok, checkedAdd_eq_ok, requireCustom_eq_ok] at h
  obtain ⟨_, ⟨-, rfl⟩, hready⟩ := h
  exact hready

theorem setStakeConfig_effect {blk : Block} {s s' : AuctionState κ} {msgSender : Address}
    {c : StakeConfig} (h : setStakeConfig blk s msgSender c = .ok s') :
    Application blk s s' ∨ ConfigEffect blk (governance s) (governance s') := by
  have hset := h
  simp only [setStakeConfig, bind_eq_ok, requireCustom_eq_ok] at h
  obtain ⟨_, -, _, hcooldown, _, hfree, _, hvalid, loosening, hguard, h⟩ := h
  cases loosening with
  | true =>
      simp only [queueConfig, if_true, bind_eq_ok, checkedAdd_eq_ok, pure_eq_ok] at h
      obtain ⟨_, ⟨-, rfl⟩, rfl⟩ := h
      exact Or.inr (.queued c (checkCooldown_spec hcooldown) hfree hvalid hguard)
  | false => exact Or.inl (.tightened msgSender c hset hguard)

theorem rollback_effect {blk : Block} {s s' : AuctionState κ} {msgSender : Address}
    (h : rollback blk s msgSender = .ok s') :
    isEmptyConfig s.previousConfig = false ∧
      governance s' =
        { governance s with config := s.previousConfig, pending := emptyConfig } := by
  simp only [rollback, bind_eq_ok, requireCustom_eq_ok, pure_eq_ok] at h
  obtain ⟨_, -, _, hprevious, rfl⟩ := h
  exact ⟨hprevious, rfl⟩

theorem Application.applied {blk : Block} {s s' : AuctionState κ} (h : Application blk s s') :
    ∃ cfg, Applied blk (governance s) cfg (governance s') := by
  cases h with
  | tightened msgSender c h hnow =>
      simp only [setStakeConfig, bind_eq_ok, requireCustom_eq_ok] at h
      obtain ⟨_, -, _, hcooldown, _, hfree, _, hvalid, loosening, hguard, h⟩ := h
      obtain rfl : loosening = false := Except.ok.inj (hguard.symm.trans hnow)
      obtain rfl := pure_eq_ok.mp h
      exact ⟨c, .tightened c (checkCooldown_spec hcooldown) hfree hvalid hnow, rfl, rfl, hfree,
        rfl⟩
  | committed h =>
      simp only [commitPending, bind_eq_ok, requireCustom_eq_ok, pure_eq_ok] at h
      obtain ⟨_, hpending, _, hready, rfl⟩ := h
      exact ⟨s.pending, .waited hpending hready, rfl, rfl, rfl, rfl⟩

variable [DecidableEq κ]

/-- The step lemma of the governance: every call applies a configuration or
has one of the other effects. -/
theorem step_governance {p : AuctionParams} {s s' : AuctionState κ} (h : AuctionStep p s s') :
    ∃ blk, Application blk s s' ∨ ConfigEffect blk (governance s) (governance s') := by
  have hsame : governance s' = governance s →
      ∃ blk, Application blk s s' ∨ ConfigEffect blk (governance s) (governance s') := fun heq =>
    ⟨⟨0, 0⟩, Or.inr (by rw [heq]; exact .same)⟩
  cases h with
  | setReactor blk msgSender reactor_ h =>
      obtain ⟨-, rfl⟩ := setReactor_spec h
      exact hsame rfl
  | register oracle blk msgSender msgValue a hfiller h =>
      obtain ⟨snap, -, rfl⟩ := register_spec h
      exact hsame rfl
  | onFillSuccess blk msgSender orderHash filler actual remainingAtFill h =>
      obtain ⟨-, -, refund, forfeited, evs, -, -, rfl⟩ := onFillSuccess_spec h
      exact hsame rfl
  | slash view blk msgSender orderHash filler h =>
      obtain ⟨-, -, -, rfl⟩ := slash_eq_ok.mp h
      exact hsame rfl
  | releaseRegistration view blk orderHash filler h =>
      obtain ⟨-, -, rfl⟩ := (releaseRegistration_eq_ok (p := p)).mp h
      exact hsame rfl
  | withdrawSend msgSender to_ h =>
      obtain ⟨-, -, rfl⟩ := withdrawSend_spec h
      exact hsame rfl
  | withdrawReturn accepted h =>
      obtain rfl := withdrawReturn_spec h
      exact hsame rfl
  | grantRole msgSender role account h =>
      obtain rfl := grantRole_spec h
      exact hsame rfl
  | revokeRole msgSender role account h =>
      obtain rfl := revokeRole_spec h
      exact hsame rfl
  | renounceRole msgSender role callerConfirmation h =>
      obtain rfl := renounceRole_spec h
      exact hsame rfl
  | setStakeConfig blk msgSender c h => exact ⟨blk, setStakeConfig_effect h⟩
  | commitPending blk h => exact ⟨blk, Or.inl (.committed h)⟩
  | cancelPendingConfig blk msgSender h =>
      obtain rfl := cancelPendingConfig_spec h
      exact ⟨blk, Or.inr .cancelled⟩
  | rollback blk msgSender h =>
      obtain ⟨hprevious, heq⟩ := rollback_effect h
      exact ⟨blk, Or.inr (by rw [heq]; exact .rolledBack hprevious)⟩
  | forceEth amount h =>
      obtain ⟨-, rfl⟩ := forceEth_spec h
      exact hsame rfl

/-! ## What is on record was validated, and what waits was compared -/

/-- The law of the governance. `Sampled` is what the guard needs of the
configuration it compares with. -/
structure GovernanceLaw (g : Governance) : Prop where
  config : validateConfig g.config = .ok () ∧ Sampled g.config
  previousConfig : isEmptyConfig g.previousConfig = false →
    validateConfig g.previousConfig = .ok () ∧ Sampled g.previousConfig
  pending : isEmptyConfig g.pending = false → validateConfig g.pending = .ok () ∧
    ∃ blk loosening, guardCheck blk g.config g.pending guardBounds = .ok loosening

/-- Whatever goes live passed the guard against what it replaces. -/
theorem Ready.guarded {blk : Block} {g : Governance} {cfg : StakeConfig} (hlaw : GovernanceLaw g)
    (h : Ready blk g cfg) : validateConfig cfg = .ok () ∧
      ∃ blk' loosening, guardCheck blk' g.config cfg guardBounds = .ok loosening := by
  cases h with
  | tightened c hcooled hfree hvalid hguard => exact ⟨hvalid, blk, false, hguard⟩
  | waited hpending hready => exact hlaw.pending hpending

theorem GovernanceLaw.applied {blk : Block} {g g' : Governance} {cfg : StakeConfig}
    (hlaw : GovernanceLaw g) (h : Applied blk g cfg g') : GovernanceLaw g' := by
  obtain ⟨hvalid, _, _, hguard⟩ := h.ready.guarded hlaw
  refine ⟨?_, fun _ => ?_, fun hpending => ?_⟩
  · rw [h.config]
    exact ⟨hvalid, guardCheck_sampled hguard⟩
  · rw [h.previousConfig]
    exact hlaw.config
  · rw [h.free] at hpending
    exact nomatch hpending

theorem GovernanceLaw.effect {blk : Block} {g g' : Governance} (hlaw : GovernanceLaw g)
    (h : ConfigEffect blk g g') : GovernanceLaw g' := by
  cases h with
  | same => exact hlaw
  | queued c hcooled hfree hvalid hguard =>
      exact ⟨hlaw.config, hlaw.previousConfig, fun _ => ⟨hvalid, blk, true, hguard⟩⟩
  | cancelled => exact ⟨hlaw.config, hlaw.previousConfig, fun hpending => nomatch hpending⟩
  | rolledBack hprevious =>
      exact ⟨hlaw.previousConfig hprevious, hlaw.previousConfig,
        fun hpending => nomatch hpending⟩

theorem governanceLaw_step {p : AuctionParams} {s s' : AuctionState κ}
    (hlaw : GovernanceLaw (governance s)) (h : AuctionStep p s s') :
    GovernanceLaw (governance s') := by
  obtain ⟨blk, happ | heffect⟩ := step_governance h
  · obtain ⟨cfg, happlied⟩ := happ.applied
    exact hlaw.applied happlied
  · exact hlaw.effect heffect

omit [DecidableEq κ] in
theorem validateConfig_default : validateConfig defaultStakeConfig = .ok () := by
  decide +kernel

omit [DecidableEq κ] in
theorem sampled_default : Sampled defaultStakeConfig := by
  have hreturns : ∀ notional ∈ sampleNotionals,
      Returns (sampledCollateral defaultStakeConfig notional) fun _ => True := by
    decide +kernel
  intro notional hmem
  obtain ⟨coll, hcoll, -⟩ := hreturns notional hmem
  exact ⟨coll, hcoll⟩

omit [DecidableEq κ] in
theorem governanceLaw_deployed (admin : Address) :
    GovernanceLaw (governance (deployed (κ := κ) admin)) where
  config := ⟨validateConfig_default, sampled_default⟩
  previousConfig := fun hprevious => nomatch hprevious
  pending := fun hpending => nomatch hpending

theorem governanceLaw_run {p : AuctionParams} {s s' : AuctionState κ}
    (hlaw : GovernanceLaw (governance s)) (h : AuctionRun p s s') :
    GovernanceLaw (governance s') := by
  induction h with
  | refl => exact hlaw
  | tail _ hstep ih => exact governanceLaw_step ih hstep

/-! ## Rolling back -/

/-- A step that puts no new configuration in place. -/
def Unapplied (p : AuctionParams) (s s' : AuctionState κ) : Prop :=
  AuctionStep p s s' ∧ ∀ blk, ¬Application blk s s'

omit [DecidableEq κ] in
theorem ConfigEffect.previousConfig {blk : Block} {g g' : Governance}
    (h : ConfigEffect blk g g') : g'.previousConfig = g.previousConfig := by
  cases h <;> rfl

omit [DecidableEq κ] in
/-- Only a rollback changes what is live, and to what was replaced. -/
theorem ConfigEffect.config {blk : Block} {g g' : Governance} (h : ConfigEffect blk g g') :
    g'.config = g.config ∨
      isEmptyConfig g.previousConfig = false ∧ g'.config = g.previousConfig := by
  cases h with
  | same => exact Or.inl rfl
  | queued => exact Or.inl rfl
  | cancelled => exact Or.inl rfl
  | rolledBack hprevious => exact Or.inr ⟨hprevious, rfl⟩

/-- Since the last application the replaced configuration stays on record. -/
theorem previousConfig_unapplied {p : AuctionParams} {s s' : AuctionState κ}
    (h : Relation.ReflTransGen (Unapplied p) s s') : s'.previousConfig = s.previousConfig := by
  induction h with
  | refl => rfl
  | tail _ hstep ih =>
      obtain ⟨blk, happ | heffect⟩ := step_governance hstep.1
      · exact absurd happ (hstep.2 blk)
      · exact heffect.previousConfig.trans ih

/-- **Stake-config governance.** In every state reachable from the
constructor, whatever is live, replaced or waiting was validated; what
waits passes the guard against the live configuration when it is committed;
and a rollback brings back what the last application replaced, drops what
waits, and repeated does nothing more. -/
theorem config_governed {p : AuctionParams} {admin : Address} {s : AuctionState κ}
    (h : AuctionRun p (deployed admin) s) :
    (validateConfig s.config = .ok () ∧
      (isEmptyConfig s.previousConfig = false → validateConfig s.previousConfig = .ok ()) ∧
      (isEmptyConfig s.pending = false → validateConfig s.pending = .ok ())) ∧
    (∀ blk s', blk.number + refBlocks < wordSize → commitPending blk s = .ok s' →
      ∃ loosening, guardCheck blk s.config s.pending guardBounds = .ok loosening) ∧
    (∀ blk s₁ s₂ blk' guardian s₃, Application blk s s₁ →
      Relation.ReflTransGen (Unapplied p) s₁ s₂ → rollback blk' s₂ guardian = .ok s₃ →
      s₃.config = s.config ∧ s₃.pending = emptyConfig ∧
      ∀ blk'' guardian' s₄, rollback blk'' s₃ guardian' = .ok s₄ →
        governance s₄ = governance s₃) := by
  have hlaw : GovernanceLaw (governance s) := governanceLaw_run (governanceLaw_deployed admin) h
  refine ⟨⟨hlaw.config.1, fun hne => (hlaw.previousConfig hne).1,
    fun hne => (hlaw.pending hne).1⟩, fun blk s' hfits hcommit => ?_,
    fun blk s₁ s₂ blk' guardian s₃ happ hrun hback => ?_⟩
  · simp only [commitPending, bind_eq_ok, requireCustom_eq_ok, pure_eq_ok] at hcommit
    obtain ⟨_, hpending, -⟩ := hcommit
    obtain ⟨-, blk', loosening, hguard⟩ := hlaw.pending hpending
    exact ⟨loosening, guardCheck_later hguard hfits⟩
  · obtain ⟨cfg, happlied⟩ := happ.applied
    obtain ⟨-, heq⟩ := rollback_effect hback
    have hprevious : s₂.previousConfig = s.config :=
      (previousConfig_unapplied hrun).trans happlied.previousConfig
    refine ⟨?_, congrArg Governance.pending heq, fun blk'' guardian' s₄ hagain => ?_⟩
    · exact (congrArg Governance.config heq).trans hprevious
    · obtain ⟨-, heq'⟩ := rollback_effect hagain
      rw [heq']
      -- the second rollback installs what is live and drops nothing
      have hlive : s₃.config = s₃.previousConfig :=
        (congrArg Governance.config heq).trans
          (congrArg Governance.previousConfig heq).symm
      have hnone : s₃.pending = emptyConfig := congrArg Governance.pending heq
      simp only [governance, hlive, hnone]

/-- A floor of 1 wei goes live at once, and a rollback takes it back. -/
theorem config_governed_rollback :
    ∃ s₁ s₃ : AuctionState Unit,
      s₁.config.minCollateral = 1 ∧ s₃.config = defaultStakeConfig := by
  let floored : StakeConfig := { defaultStakeConfig with minCollateral := 1 }
  have hreturns : Returns (do
      let a ← grantRole (deployed (κ := Unit) 1) 1 .paramAdmin 2
      let s ← grantRole a 1 .guardian 3
      let loosening ← guardCheck ⟨2, 100⟩ s.config floored guardBounds
      let s₁ ← setStakeConfig ⟨2, 100⟩ s 2 floored
      let s₃ ← rollback ⟨3, 112⟩ s₁ 3
      pure (loosening, s₁, s₃, s.config))
      (fun t => t.1 = false ∧ t.2.1.config.minCollateral = 1 ∧
        t.2.2.2 = defaultStakeConfig) := by
    decide +kernel
  obtain ⟨⟨loosening, s₁, s₃, cfg⟩, hok, rfl, hfloor, rfl⟩ := hreturns
  simp only [bind_eq_ok, pure_eq_ok, Prod.mk.injEq] at hok
  obtain ⟨a, ha, s, hs, _, hguard, _, hset, _, hback, rfl, rfl, rfl, hconfig⟩ := hok
  have hrun : AuctionRun ⟨100, 101⟩ (deployed (κ := Unit) 1) s :=
    (Relation.ReflTransGen.single (.grantRole _ _ _ ha)).tail (.grantRole _ _ _ hs)
  obtain ⟨-, -, hroll⟩ := config_governed hrun
  obtain ⟨hrestored, -, -⟩ := hroll _ _ _ _ _ _ (.tightened _ _ hset hguard) .refl hback
  exact ⟨_, _, hfloor, hrestored.trans hconfig⟩

end FillAuction

end NeutronX
