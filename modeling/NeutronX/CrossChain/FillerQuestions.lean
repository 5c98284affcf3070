import NeutronX.CrossChain.Filler

/-!
# What the pieces of the filler's program ask

The pieces of `driveToCompletion` that only look, for any class of
questions that contains theirs.
-/

namespace NeutronX.CrossChain

open Evm

namespace CoWFiller

open Script

variable {κ A : Type} {free : Ask κ A → Prop}

theorem assertTimeMargin_quiet (hclock : free .dateNow) (label : String) (targetSec : Nat)
    (opts : CrossChainFillOptions) :
    (assertTimeMargin label targetSec opts : Task κ A Unit).Quiet free :=
  quiet_bind (fun _ => quiet_ensure _ _) (quiet_call hclock)

theorem resolveLegs_quiet (id : Nat) : (resolveLegs id : Task κ A ChainLegs).Quiet free := by
  unfold resolveLegs
  split
  · trivial
  · split <;> trivial

theorem pollFillStatus_quiet {fillId : Nat} (hclock : free .dateNow)
    (hfill : free (.getFill fillId)) (hsleep : free (.sleep statusPollIntervalMs))
    (deadline : Nat) (predicate : FillStatus → Bool) :
    ∀ polls, (pollFillStatus fillId deadline predicate polls : Task κ A FillData).Quiet free
  | 0 => trivial
  | polls + 1 => by
      refine quiet_bind (fun _ => quiet_bind (fun _ => quiet_bind (fun fill => ?_)
        (quiet_call hfill)) (quiet_ensure _ _)) (quiet_call hclock)
      split
      · trivial
      · exact quiet_bind
          (fun _ => pollFillStatus_quiet hclock hfill hsleep deadline predicate polls)
          (quiet_call hsleep)

theorem waitForFillStatus_quiet {fillId : Nat} (hclock : free .dateNow)
    (hfill : free (.getFill fillId)) (hsleep : free (.sleep statusPollIntervalMs)) (polls : Nat)
    (predicate : FillStatus → Bool) :
    (waitForFillStatus polls fillId predicate : Task κ A FillData).Quiet free :=
  quiet_bind (fun _ => pollFillStatus_quiet hclock hfill hsleep _ predicate polls)
    (quiet_call hclock)

end CoWFiller

end NeutronX.CrossChain
