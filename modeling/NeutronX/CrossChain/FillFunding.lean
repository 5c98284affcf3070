import NeutronX.CrossChain.FillerQuestions
import NeutronX.CrossChain.FillProcess
import NeutronX.Evm.Protocol

/-!
# How a fill is funded

The order in which the programs of a fill touch its destination escrow, as a
protocol: the transfer is only sent after there was no code at the address,
only the deployment follows it, and nothing ends the program in between but
the process itself. Both programs keep to it.
-/

namespace NeutronX.CrossChain

open Evm Script

namespace FillProcess

open CoWFiller

variable {κ A W : Type} [Zero A] (n : FillNetwork κ A W) (F : QuotedFill κ)

/-- What a program of the fill knows of the clone. -/
inductive Funding where
  /-- if anything was sent to it, it is deployed -/
  | covered
  /-- nothing was sent to it -/
  | vacant
  /-- it was sent the fill's amount -/
  | funded
deriving DecidableEq

namespace Funding

omit [Zero A] in
def Allows (F : QuotedFill κ) : Funding → Ask κ A → Prop
  | .covered, .dstTransfer .. => False
  | .covered, .dstDeploy .. => False
  | .covered, _ => True
  | .vacant, .dstTransfer _ _ _ amount => amount = F.fillAmount
  | .vacant, q => q.isTransaction = false
  | .funded, .dstDeploy legs hashlock _ _ _ _ => legs = F.legs ∧ hashlock = F.hashlock
  | .funded, _ => False

variable [DecidableEq A]

def next : Funding → (q : Ask κ A) → q.Answer → Funding
  | .covered, .dstHasCode legs escrow, false =>
      if legs = F.legs ∧ escrow = dstEscrow n F then .vacant else .covered
  | .vacant, .dstTransfer .., _ => .funded
  | .funded, .dstDeploy .., _ => .covered
  | p, _, _ => p

/-- The answers of the backend are those of the fill, and an address is the
one the factory computes. -/
def Honest : (q : Ask κ A) → q.Answer → Prop
  | .getOrder orderHash, o => orderHash = F.orderHash → o.chainAId = F.legs.chainAId
  | .getFill fillId, r => fillId = F.fillId →
      r.hashlock = F.hashlock ∧ (r.fillAmount : Nat) = F.fillAmount
  | .dstComputeAddress legs hashlock filler, a =>
      a = (n.destination legs).computeAddress hashlock filler
  | _, _ => True

end Funding

variable [DecidableEq A]

def protocol : Protocol (Ask κ A) Ask.Answer Funding where
  Final := fun p => p ≠ .funded
  Allows := Funding.Allows F
  Honest := Funding.Honest n F
  next := Funding.next n F

/-- A program of the fill, from what it knows at its start. -/
abbrev Keeps (x : Task κ A String) (p : Funding) : Prop :=
  x.Obeys (protocol n F) (fun _ p => p ≠ .funded) p

/-! ## The programs -/

omit [Zero A] [DecidableEq A] in
/-- A question that has nothing to do with the funding. -/
def Unrelated : Ask κ A → Prop
  | .dstHasCode .. | .dstTransfer .. | .dstDeploy .. => False
  | _ => True

variable {n F}

theorem Unrelated.covered {q : Ask κ A} (h : Unrelated q) :
    (protocol n F).Allows .covered q ∧ ∀ a, (protocol n F).next .covered q a = .covered := by
  cases q with
  | dstHasCode | dstTransfer | dstDeploy => exact h.elim
  | _ => exact ⟨trivial, fun _ => rfl⟩

/-- A piece that has nothing to do with the funding, in front of another. -/
theorem obeys_after {α β : Type} {x : Task κ A α} {f : α → Task κ A β} {Post : β → Funding → Prop}
    (hx : x.Quiet Unrelated) (hf : ∀ a, (f a).Obeys (protocol n F) Post .covered) :
    (x >>= f).Obeys (protocol n F) Post .covered :=
  hx.obeys_bind (by rintro ⟨⟩) (fun _ hq => hq.covered) hf

theorem ensureDstEscrowDeployed_obeys (outputToken swapper : A) (t2 : Nat) :
    (n.ensureDstEscrowDeployed F.legs outputToken F.hashlock swapper F.fillAmount t2).Obeys
      (protocol n F) (fun _ p => p = .covered) .covered := by
  refine obeys_call trivial fun escrow hescrow => ?_
  obtain rfl : escrow = dstEscrow n F := hescrow
  refine obeys_call trivial fun deployed _ => ?_
  cases deployed with
  | true => rfl
  | false =>
      have hvacant : Funding.next n F .covered (.dstHasCode F.legs (dstEscrow n F)) false
          = .vacant := if_pos ⟨rfl, rfl⟩
      change Obeys _ _ _ (Funding.next n F .covered (.dstHasCode F.legs (dstEscrow n F)) false)
      rw [hvacant]
      refine obeys_call rfl fun bal _ => obeys_bind ?_
      unfold ensure
      split
      case isFalse => rintro ⟨⟩
      case isTrue =>
          exact obeys_call rfl fun _ _ => obeys_call ⟨rfl, rfl⟩ fun _ _ => rfl

omit [Zero A] [DecidableEq A] in
theorem fillSlotOnSrc_quiet (legs : ChainLegs) (order : OrderData A) (fill : FillData)
    (fillId : Nat) (orderHash : κ) (hashlock : Bytes32) :
    (fillSlotOnSrc legs order fill fillId orderHash hashlock).Quiet Unrelated := by
  refine quiet_bind (fun escrow => quiet_bind (fun alreadyFilled => ?_) (quiet_call trivial))
    (quiet_call trivial)
  cases alreadyFilled with
  | true => trivial
  | false =>
      cases hper : fill.swapperSig with
      | none => trivial
      | some perFillSig =>
          cases hsig : order.swapperSig with
          | none => trivial
          | some swapperSig =>
              refine quiet_bind (fun required => quiet_bind (fun _ => ?_) (quiet_call trivial))
                (quiet_call trivial)
              trivial

theorem driveToCompletion_keeps (polls : Nat) (secret : Bytes32) (order : OrderData A) (t2 : Nat)
    (opts : CrossChainFillOptions) :
    Keeps n F (n.driveToCompletion polls F.orderHash F.fillId F.hashlock secret order F.legs
      F.fillAmount t2 opts) .covered := by
  refine obeys_bind (Obeys.mono ?_ (ensureDstEscrowDeployed_obeys order.info.outputToken
    order.info.swapper t2))
  rintro _ _ rfl
  refine obeys_after (waitForFillStatus_quiet trivial trivial trivial ..) fun _ => ?_
  refine obeys_after (waitForFillStatus_quiet trivial trivial trivial ..) fun fill => ?_
  refine obeys_after (assertTimeMargin_quiet trivial ..) fun _ => ?_
  refine obeys_after (fillSlotOnSrc_quiet ..) fun escrowAddrSrc => ?_
  refine obeys_after (assertTimeMargin_quiet trivial ..) fun _ => ?_
  exact ⟨trivial, fun _ _ => by rintro ⟨⟩⟩

omit [Zero A] [DecidableEq A] in
theorem resolveLegs_chainAId (legs : ChainLegs) :
    (resolveLegs legs.chainAId : Task κ A ChainLegs) = .done legs := by
  cases legs <;> rfl

theorem crossChainResume_keeps (polls : Nat) (opts : CrossChainFillOptions) :
    Keeps n F (n.crossChainResume polls F.orderHash F.fillId opts) .covered := by
  refine obeys_after (quiet_ensure _ _) fun _ => ?_
  refine obeys_call trivial fun stored _ => ?_
  cases stored with
  | none => rintro ⟨⟩
  | some secret =>
      refine obeys_call trivial fun order horder => obeys_call trivial fun fill hfill => ?_
      by_cases hclaimed : fill.status = .claimed
      · simp only [hclaimed, if_true]
        rintro ⟨⟩
      · simp only [hclaimed, if_false]
        -- the backend's order and fill are the ones that were quoted
        rw [horder rfl, resolveLegs_chainAId, (hfill rfl).1, (hfill rfl).2]
        exact driveToCompletion_keeps polls secret order fill.t2 opts

end FillProcess

end NeutronX.CrossChain
