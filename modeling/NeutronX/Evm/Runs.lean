import Mathlib.Logic.Basic

/-!
# Runs of actions

A run is a list of actions, and `Along` an assumption about each of them in
the state it is taken in.
-/

namespace Evm

section Runs

variable {S Act : Type} (step : S → Act → S)

def runActions (s : S) (as : List Act) : S := as.foldl step s

/-- All actions of a run, each in the state it is taken in. -/
def Along (Ok : S → Act → Prop) : S → List Act → Prop
  | _, [] => True
  | s, a :: as => Ok s a ∧ Along Ok (step s a) as

instance decidableAlong {Ok : S → Act → Prop} [∀ s a, Decidable (Ok s a)] :
    ∀ s as, Decidable (Along step Ok s as)
  | _, [] => isTrue trivial
  | s, a :: as => @instDecidableAnd _ _ _ (decidableAlong (step s a) as)

variable {step}

theorem runActions_append (s : S) (as bs : List Act) :
    runActions step s (as ++ bs) = runActions step (runActions step s as) bs :=
  List.foldl_append

theorem along_true : ∀ (as : List Act) (s : S), Along step (fun _ _ => True) s as
  | [], _ => trivial
  | _ :: as, _ => ⟨trivial, along_true as _⟩

/-- What the actions that are all right keep, a run of them keeps. -/
theorem Along.invariant {Ok : S → Act → Prop} {I : S → Prop}
    (hstep : ∀ s a, I s → Ok s a → I (step s a)) {as : List Act} {s : S} (hs : I s)
    (h : Along step Ok s as) : I (runActions step s as) := by
  induction as generalizing s with
  | nil => exact hs
  | cons a as ih => exact ih (hstep s a hs h.1) h.2

end Runs

end Evm
