import Mathlib.Algebra.Order.Field.Rat
import Mathlib.Data.Rat.Cast.Order
import Mathlib.Tactic.Positivity
import NeutronX.Evm.Drift
import NeutronX.StakeLib

/-!
# What the change guard lets through

`guardCheck` compares two configurations at a fixed grid of notionals and a
deadline a fixed number of blocks away. So what it samples is a function of
the configurations alone (`sampledCollateral`), and its verdict is the same
in every block (`guardCheck_later`). A configuration that passes requires,
at each notional of the grid, a collateral that differs from that of the
one it was compared with by at most `maxDeltaBps` of it.
-/

namespace NeutronX

open Evm

namespace DynamicStakeLib

/-- How far ahead the guard puts its reference deadline. -/
def refBlocks : Nat := 10000000

/-- The collateral the guard samples: the required stake of a registration
with `refBlocks` blocks left. -/
def sampledCollateral (cfg : StakeConfig) (notional : Nat) : Except Revert Nat :=
  requiredStake ⟨0, 0⟩ cfg notional refBlocks

/-- Every notional of the grid has a sampled collateral. -/
def Sampled (cfg : StakeConfig) : Prop :=
  ∀ notional ∈ sampleNotionals, ∃ coll, sampledCollateral cfg notional = .ok coll

theorem getTimeBucket_ahead (blk blk' : Block) (d : Nat) (thresholds : List Nat) :
    getTimeBucket blk (blk.number + d) thresholds
      = getTimeBucket blk' (blk'.number + d) thresholds := by
  by_cases hd : d = 0
  · simp [getTimeBucket, hd]
  · have hblk : ¬blk.number + d ≤ blk.number := by omega
    have hblk' : ¬blk'.number + d ≤ blk'.number := by omega
    simp only [getTimeBucket, if_neg hblk, if_neg hblk', Nat.add_sub_cancel_left]

/-- A required stake depends on the blocks left and not on the block. -/
theorem requiredStake_ahead (blk blk' : Block) (d : Nat) (cfg : StakeConfig) (notional : Nat) :
    requiredStake blk cfg notional (blk.number + d)
      = requiredStake blk' cfg notional (blk'.number + d) := by
  simp only [requiredStake, computeCollateral, getTimeBucket_ahead blk blk']

theorem checkNotionals_ahead (blk blk' : Block) (d : Nat) (oldCfg newCfg : StakeConfig)
    (g : GuardBounds) (points : List (Nat × Bool)) :
    ∀ (notionals : List Nat) (loosening : Bool),
      checkNotionals blk (blk.number + d) oldCfg newCfg g points notionals loosening
        = checkNotionals blk' (blk'.number + d) oldCfg newCfg g points notionals loosening
  | [], loosening => rfl
  | notional :: rest, loosening => by
      simp only [checkNotionals, requiredStake_ahead blk blk',
        checkNotionals_ahead blk blk' d oldCfg newCfg g points rest]

/-- The verdict of the guard is the same in any block whose reference
deadline fits a word. -/
theorem guardCheck_later {blk blk' : Block} {oldCfg newCfg : StakeConfig} {g : GuardBounds}
    {loosening : Bool} (h : guardCheck blk oldCfg newCfg g = .ok loosening)
    (hfits : blk'.number + refBlocks < wordSize) :
    guardCheck blk' oldCfg newCfg g = .ok loosening := by
  simp only [guardCheck, bind_eq_ok, checkedAdd_eq_ok] at h ⊢
  obtain ⟨_, ⟨-, rfl⟩, hchecked⟩ := h
  refine ⟨_, ⟨hfits, rfl⟩, ?_⟩
  rw [← hchecked]
  exact checkNotionals_ahead blk' blk refBlocks oldCfg newCfg g _ _ _

/-! ## The collateral moves by a bounded fraction -/

theorem withinMaxDelta_drift {newV oldV maxDeltaBps : Nat}
    (h : withinMaxDelta newV oldV maxDeltaBps = .ok true) :
    Drift ((maxDeltaBps : ℚ) / 10000) 1 (oldV : ℚ) (oldV : ℚ) (newV : ℚ) := by
  unfold withinMaxDelta at h
  split at h
  · rename_i hzero
    have hnew : newV = 0 := by simpa [pure, Except.pure] using h
    subst hzero
    subst hnew
    constructor <;> simp
  · simp only [bind_eq_ok, checkedMul_eq_ok, pure_eq_ok, decide_eq_true_eq] at h
    obtain ⟨_, ⟨-, rfl⟩, _, ⟨-, rfl⟩, hle⟩ := h
    have hdelta : (0 : ℚ) ≤ (oldV : ℚ) * maxDeltaBps := by positivity
    split at hle
    · rename_i hlt
      have hQ : ((newV : ℚ) - oldV) * 10000 ≤ oldV * maxDeltaBps := by
        rw [← Nat.cast_sub hlt.le]
        exact_mod_cast hle
      have hltQ : (oldV : ℚ) < newV := by exact_mod_cast hlt
      constructor
      · linarith
      · linarith
    · rename_i hnlt
      have hQ : ((oldV : ℚ) - newV) * 10000 ≤ oldV * maxDeltaBps := by
        rw [← Nat.cast_sub (Nat.le_of_not_lt hnlt)]
        exact_mod_cast hle
      have hleQ : (newV : ℚ) ≤ oldV := by exact_mod_cast Nat.le_of_not_lt hnlt
      constructor
      · linarith
      · linarith

/-! ## What the guard computed -/

theorem checkFillPoints_spec {oldCfg newCfg : StakeConfig} {notional collOld collNew : Nat}
    {g : GuardBounds} :
    ∀ {points : List (Nat × Bool)} {before after : Bool},
      checkFillPoints oldCfg newCfg notional collOld collNew g points before = .ok after →
      (after = false → before = false) ∧ ∀ point ∈ points, ∃ looser,
        checkFillPoint oldCfg newCfg notional point.1 collOld collNew g point.2 = .ok looser ∧
        (after = false → looser = false)
  | [], before, after, h => by
      obtain rfl := pure_eq_ok.mp h
      exact ⟨id, fun _ hmem => absurd hmem List.not_mem_nil⟩
  | (fillBps, floorAlways) :: rest, before, after, h => by
      simp only [checkFillPoints, bind_eq_ok] at h
      obtain ⟨looser, hlooser, hrest⟩ := h
      obtain ⟨hflag, hpoints⟩ := checkFillPoints_spec hrest
      have hor : after = false → before = false ∧ looser = false := fun hafter => by
        simpa using hflag hafter
      refine ⟨fun hafter => (hor hafter).1, fun point hmem => ?_⟩
      rcases List.mem_cons.mp hmem with rfl | hmem
      · exact ⟨looser, hlooser, fun hafter => (hor hafter).2⟩
      · exact hpoints point hmem

/-- What a guard with verdict `loosening` found at one notional, for a
deadline `d` blocks away. -/
structure Compared (d : Nat) (oldCfg newCfg : StakeConfig) (g : GuardBounds)
    (points : List (Nat × Bool)) (loosening : Bool) (notional collOld collNew : Nat) : Prop where
  old : requiredStake ⟨0, 0⟩ oldCfg notional d = .ok collOld
  new : requiredStake ⟨0, 0⟩ newCfg notional d = .ok collNew
  within : withinMaxDelta collNew collOld g.maxDeltaBps = .ok true
  tighter : loosening = false → collOld ≤ collNew
  points : ∀ point ∈ points, ∃ looser,
    checkFillPoint oldCfg newCfg notional point.1 collOld collNew g point.2 = .ok looser ∧
    (loosening = false → looser = false)

theorem Compared.mono {d : Nat} {oldCfg newCfg : StakeConfig} {g : GuardBounds}
    {points : List (Nat × Bool)} {loosening later : Bool} {notional collOld collNew : Nat}
    (h : Compared d oldCfg newCfg g points loosening notional collOld collNew)
    (hlater : later = false → loosening = false) :
    Compared d oldCfg newCfg g points later notional collOld collNew where
  old := h.old
  new := h.new
  within := h.within
  tighter := fun hfalse => h.tighter (hlater hfalse)
  points := fun point hmem => by
    obtain ⟨looser, hlooser, hflag⟩ := h.points point hmem
    exact ⟨looser, hlooser, fun hfalse => hflag (hlater hfalse)⟩

theorem checkNotionals_spec {blk : Block} {d : Nat} {oldCfg newCfg : StakeConfig}
    {g : GuardBounds} {points : List (Nat × Bool)} :
    ∀ {notionals : List Nat} {before after : Bool},
      checkNotionals blk (blk.number + d) oldCfg newCfg g points notionals before = .ok after →
      (after = false → before = false) ∧ ∀ notional ∈ notionals, ∃ collOld collNew,
        Compared d oldCfg newCfg g points after notional collOld collNew
  | [], before, after, h => by
      obtain rfl := pure_eq_ok.mp h
      exact ⟨id, fun _ hmem => absurd hmem List.not_mem_nil⟩
  | first :: rest, before, after, h => by
      simp only [checkNotionals, bind_eq_ok, require_eq_ok] at h
      obtain ⟨collOld, hold, collNew, hnew, _, hwithin, _, rfl, loosening, hpoints, hrest⟩ := h
      rw [requiredStake_ahead blk ⟨0, 0⟩, Nat.zero_add] at hold hnew
      obtain ⟨hbefore, hpoints⟩ := checkFillPoints_spec hpoints
      obtain ⟨hloosening, hothers⟩ := checkNotionals_spec hrest
      have hor : loosening = false → before = false ∧ collOld ≤ collNew := fun hfalse => by
        simpa using hbefore hfalse
      have hfirst : Compared d oldCfg newCfg g points loosening first collOld collNew :=
        ⟨hold, hnew, hwithin, fun hfalse => (hor hfalse).2, hpoints⟩
      refine ⟨fun hafter => (hor (hloosening hafter)).1, fun notional hmem => ?_⟩
      rcases List.mem_cons.mp hmem with rfl | hmem
      · exact ⟨collOld, collNew, hfirst.mono hloosening⟩
      · exact hothers notional hmem

/-- The fill points the guard samples for a pair of configurations. -/
def guardPoints (oldCfg newCfg : StakeConfig) : List (Nat × Bool) :=
  fillPoints (bucketEdgePoints oldCfg.ratioThresholds newCfg.ratioThresholds)

/-- The verdict of the guard, in terms of the configurations alone. -/
theorem guardCheck_spec {blk : Block} {oldCfg newCfg : StakeConfig} {g : GuardBounds}
    {loosening : Bool} (h : guardCheck blk oldCfg newCfg g = .ok loosening) :
    ∀ notional ∈ sampleNotionals, ∃ collOld collNew,
      Compared refBlocks oldCfg newCfg g (guardPoints oldCfg newCfg) loosening notional collOld
        collNew := by
  simp only [guardCheck, bind_eq_ok, checkedAdd_eq_ok] at h
  obtain ⟨_, ⟨-, rfl⟩, hchecked⟩ := h
  exact (checkNotionals_spec hchecked).2

/-- The reference deadline of a guard that returned was a word. -/
theorem guardCheck_block {blk : Block} {oldCfg newCfg : StakeConfig} {g : GuardBounds}
    {loosening : Bool} (h : guardCheck blk oldCfg newCfg g = .ok loosening) :
    blk.number + refBlocks < wordSize := by
  simp only [guardCheck, bind_eq_ok, checkedAdd_eq_ok] at h
  obtain ⟨_, ⟨hfits, -⟩, -⟩ := h
  exact hfits

/-- At each notional of the grid the collateral of a configuration that
passes the guard is within `maxDeltaBps` of the collateral of the other. -/
theorem guardCheck_drift {blk : Block} {oldCfg newCfg : StakeConfig} {g : GuardBounds}
    {loosening : Bool} (h : guardCheck blk oldCfg newCfg g = .ok loosening) :
    ∀ notional ∈ sampleNotionals, ∃ collOld collNew,
      sampledCollateral oldCfg notional = .ok collOld ∧
      sampledCollateral newCfg notional = .ok collNew ∧
      Drift ((g.maxDeltaBps : ℚ) / 10000) 1 (collOld : ℚ) (collOld : ℚ) (collNew : ℚ) := by
  intro notional hmem
  obtain ⟨collOld, collNew, hcompared⟩ := guardCheck_spec h notional hmem
  exact ⟨collOld, collNew, hcompared.old, hcompared.new, withinMaxDelta_drift hcompared.within⟩

theorem guardCheck_sampled {blk : Block} {oldCfg newCfg : StakeConfig} {g : GuardBounds}
    {loosening : Bool} (h : guardCheck blk oldCfg newCfg g = .ok loosening) :
    Sampled newCfg := fun notional hmem => by
  obtain ⟨_, collNew, -, hnew, -⟩ := guardCheck_drift h notional hmem
  exact ⟨collNew, hnew⟩

end DynamicStakeLib

end NeutronX
