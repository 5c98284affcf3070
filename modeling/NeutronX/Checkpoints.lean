import NeutronX.EventIndexer
import NeutronX.RegistrationIndexer

/-!
# What a checkpoint promises

Both indexers store a checkpoint after the logs up to its block, and resume
there. In runs in which no statement of a handler fails, a checkpoint means
that the logs up to it were all applied, whatever else fails and however
handlers, sessions and crashes interleave.

A handler catches what its statements throw, though, and the loop over the
logs goes on: a single statement that fails is enough for a checkpoint past
a log that was never applied.
-/

namespace NeutronX

open Evm

/-! ## Registrations stay -/

namespace RegistrationIndexer

variable {κ : Type} [DecidableEq κ]

/-- Every registration of one database is in another. -/
def KeepsRows (db db' : Database κ) : Prop :=
  ∀ k, (db.registrations k).isSome = true → (db'.registrations k).isSome = true

theorem keepsRows_update (db : Database κ) (orderHash : κ) (filler : Address)
    (set : RegistrationRow → RegistrationRow) :
    KeepsRows db (db.update orderHash filler set) := by
  intro k hk
  simp only [Database.update, Sql.Table.updateWhere, Option.isSome_map]
  exact hk

theorem insertRegistration_spec {db db' : Database κ} {orderHash : κ} {filler : Address}
    {fillAmount stake blockNumber : Nat}
    (h : db.insertRegistration orderHash filler fillAmount stake blockNumber = some db') :
    KeepsRows db db' ∧ (db'.registrations (orderHash, filler)).isSome = true := by
  unfold Database.insertRegistration at h
  split at h
  · rename_i hthere
    cases h
    exact ⟨fun _ hk => hk, hthere⟩
  · split at h
    · cases h
      refine ⟨fun k hk => ?_, by simp [Sql.Table.insert]⟩
      simp only [Sql.Table.insert, Function.update_apply]
      split
      · rfl
      · exact hk
    · cases h

/-- Every statement is the last of its log, and keeps the rows. -/
theorem exec_spec {l : Log (Event κ)} {db db' : Database κ} {next : Option (Log (Event κ))}
    (h : exec l db = some (db', next)) :
    next = none ∧ KeepsRows db db' ∧
    ∀ filler orderHash fillAmount stake, l.args = .registered filler orderHash fillAmount stake →
      (db'.registrations (orderHash, filler)).isSome = true := by
  unfold exec at h
  split at h
  · rename_i filler orderHash fillAmount stake hargs
    obtain ⟨db₁, hinsert, heq⟩ := Option.map_eq_some_iff.mp h
    cases heq
    obtain ⟨hkeeps, hrow⟩ := insertRegistration_spec hinsert
    refine ⟨rfl, hkeeps, fun _ _ _ _ h => ?_⟩
    rw [hargs] at h
    cases h
    exact hrow
  all_goals
    rename_i hargs
    cases h
    refine ⟨rfl, keepsRows_update _ _ _ _, fun _ _ _ _ h => ?_⟩
    rw [hargs] at h
    cases h

/-- A handler in hand has its only statement to do, and the registrations
that were applied are there. -/
structure RowLaw (s : State κ) : Prop where
  works : ∀ l j, Indexer.Works s l j → j = l
  applied : ∀ l ∈ s.applied, ∀ filler orderHash fillAmount stake,
    l.args = .registered filler orderHash fillAmount stake →
      (s.db.registrations (orderHash, filler)).isSome = true

omit [DecidableEq κ] in
theorem RowLaw.keep {s s' : State κ} (h : RowLaw s) (hkeeps : KeepsRows s.db s'.db)
    (happlied : s'.applied = s.applied)
    (hworks : ∀ l j, Indexer.Works s' l j → Indexer.Works s l j ∨ l ∈ s.logs ∧ j = l) :
    RowLaw s' := by
  refine ⟨fun l j hj => ?_, fun l hl filler orderHash fillAmount stake hargs => ?_⟩
  · rcases hworks l j hj with hold | ⟨-, hnew⟩
    · exact h.works l j hold
    · exact hnew
  · rw [happlied] at hl
    exact hkeeps _ (h.applied l hl filler orderHash fillAmount stake hargs)

theorem rowLaw_change {s s' : State κ} {a : Indexer.Action Unit (Event κ) κ} (h : RowLaw s)
    (hchange : Indexer.Change registrationIndexer s a s') : RowLaw s' := by
  cases hchange with
  | quiet number logs db applied works =>
      exact h.keep (by rw [db]; exact fun _ hk => hk) applied works
  | emitted events action ids fresh number logs db applied works =>
      exact h.keep (by rw [db]; exact fun _ hk => hk) applied fun l j hj => Or.inl (works l j hj)
  | other w action hs' =>
      subst hs'
      exact h.keep (fun _ hk => hk) rfl fun _ _ hj => Or.inl hj
  | executed i outcome action answered l j next hand number logs exec applied works =>
      obtain rfl := h.works l j ⟨i, hand⟩
      obtain ⟨hnext, hkeeps, hrow⟩ := exec_spec exec
      refine ⟨fun l' j' hj' => ?_, fun l' hl' filler orderHash fillAmount stake hargs => ?_⟩
      · rcases works l' j' hj' with hold | ⟨-, hnew⟩
        · exact h.works l' j' hold
        · rw [hnext] at hnew
          cases hnew
      · rcases applied with hsame | ⟨-, hadded⟩
        · rw [hsame] at hl'
          exact hkeeps _ (h.applied l' hl' _ _ _ _ hargs)
        · rw [hadded] at hl'
          rcases List.mem_cons.mp hl' with rfl | hl'
          · exact hrow _ _ _ _ hargs
          · exact hkeeps _ (h.applied l' hl' _ _ _ _ hargs)

omit [DecidableEq κ] in
theorem rowLaw_init (number : Nat) (db : Database κ) :
    RowLaw (Indexer.State.init number db : State κ) := by
  refine ⟨fun l j hj => ?_, fun _ hl => absurd hl List.not_mem_nil⟩
  obtain ⟨i, hi⟩ := hj
  cases hi

end RegistrationIndexer

/-! ## The promise -/

namespace Checkpoints

variable {κ : Type} [DecidableEq κ]

open EventIndexer (eventIndexer)
open RegistrationIndexer (registrationIndexer)

/-- **Checkpoints are complete**, of both indexers, in runs in which the
statements of the handlers are executed and answered: whatever queries and
checkpoint writes fail, and however handlers, sessions and crashes
interleave, a checkpoint that is stored means that every log of its feed
since the start block, up to the checkpoint, was applied. The rows of
partial fills and of registrations are there. -/
theorem checkpoints_complete (number : Nat) (db : EventIndexer.Database κ)
    (db' : RegistrationIndexer.Database κ) :
    (∀ as, eventIndexer.Along eventIndexer.Smooth (.init number db) as →
      ∀ f n, (eventIndexer.run (.init number db) as).checkpoint f = some n →
      ∀ l, eventIndexer.Owed (eventIndexer.run (.init number db) as) f l → l.blockNumber ≤ n →
        l ∈ (eventIndexer.run (.init number db) as).applied ∧
        ∀ hash filler fillAmount outputAmount,
          l.args = .partialFillExecuted hash filler fillAmount outputAmount →
          ∃ row ∈ (eventIndexer.run (.init number db) as).db.fills, row.id = l.id) ∧
    (∀ as, registrationIndexer.Along registrationIndexer.Smooth (.init number db') as →
      ∀ f n, (registrationIndexer.run (.init number db') as).checkpoint f = some n →
      ∀ l, registrationIndexer.Owed (registrationIndexer.run (.init number db') as) f l →
        l.blockNumber ≤ n →
        l ∈ (registrationIndexer.run (.init number db') as).applied ∧
        ∀ filler hash fillAmount stake, l.args = .registered filler hash fillAmount stake →
          ((registrationIndexer.run (.init number db') as).db.registrations
            (hash, filler)).isSome = true) := by
  constructor
  · intro as h f n hn l howed hl
    have happlied := ((Indexer.run_covered h).checkpoint f n hn).2 l howed hl
    have hstored : EventIndexer.StoredLaw (eventIndexer.run (.init number db) as) :=
      (Indexer.init_invariant_of_change (EventIndexer.storedLaw_init number db)
        (fun _ => EventIndexer.storedLaw_change) as).2
    exact ⟨happlied, hstored.applied l happlied⟩
  · intro as h f n hn l howed hl
    have happlied := ((Indexer.run_covered h).checkpoint f n hn).2 l howed hl
    have hrows : RegistrationIndexer.RowLaw (registrationIndexer.run (.init number db') as) :=
      (Indexer.init_invariant_of_change (RegistrationIndexer.rowLaw_init number db')
        (fun _ => RegistrationIndexer.rowLaw_change) as).2
    exact ⟨happlied, hrows.applied l happlied⟩

section Runs

/-- An order of 10, alone in the tables. -/
def order : OrderInfo := ⟨1, 2, 10, 3, 0, 100, 0, 0, 10 ^ 18, 0, 3000⟩

def tables : EventIndexer.Database Unit where
  orders _ := some ⟨order, true, .pending, false⟩
  fills := []
  ticks := []

def noRegistrations : RegistrationIndexer.Database Unit := ⟨fun _ => true, fun _ => none⟩

/-- The indexer starts in block 4, the order is filled in block 5, and the
handler of block 5 runs; the first statement ends as `outcome` says. -/
def fillInBlock5 (outcome : Indexer.Outcome) : List (EventIndexer.Action Unit) :=
  [.connect 0 .partialFill 4, .connect 0 .fallback 4, .connect 0 .cancel 4,
   .emit [(⟨1, 0⟩, .partialFillExecuted () 7 10 10)], .mine, .block 0 0 5, .query 0 true, .take 0,
   .exec 0 outcome, .exec 0 .done, .exec 0 .done, .advance 0, .store 0 .done]

theorem checkpoints_complete_fill :
    (eventIndexer.run (.init 5 tables) (fillInBlock5 .done)).checkpoint .partialFill = some 5 ∧
    ∃ row ∈ (eventIndexer.run (.init 5 tables) (fillInBlock5 .done)).db.fills,
      row.id = ⟨1, 0⟩ := by
  have hsmooth : eventIndexer.Along eventIndexer.Smooth (.init 5 tables) (fillInBlock5 .done) := by
    decide +kernel
  have hcheckpoint : (eventIndexer.run (.init 5 tables) (fillInBlock5 .done)).checkpoint
      .partialFill = some 5 := by
    decide +kernel
  obtain ⟨hevents, -⟩ := checkpoints_complete 5 tables noRegistrations
  have howed : eventIndexer.Owed (eventIndexer.run (.init 5 tables) (fillInBlock5 .done))
      .partialFill ⟨⟨1, 0⟩, 5, .partialFillExecuted () 7 10 10⟩ := by
    refine ⟨by decide +kernel, ⟨_, List.mem_singleton_self _, rfl⟩, fun o ho => ?_⟩
    have hstart : (eventIndexer.run (.init 5 tables) (fillInBlock5 .done)).startBlock
        .partialFill = some 4 := by
      decide +kernel
    obtain rfl : 4 = o := Option.some.inj (hstart.symm.trans ho)
    decide
  obtain ⟨-, hrow⟩ := hevents _ hsmooth _ _ hcheckpoint _ howed (by decide)
  exact ⟨hcheckpoint, hrow _ _ _ _ rfl⟩

/-- The insert of the only fill fails, and block 5 is checked off all the
same. -/
theorem checkpoint_past_lost_fill :
    (eventIndexer.run (.init 5 tables) (fillInBlock5 .failed)).checkpoint .partialFill = some 5 ∧
    (eventIndexer.run (.init 5 tables) (fillInBlock5 .failed)).startBlock .partialFill = some 4 ∧
    (eventIndexer.run (.init 5 tables) (fillInBlock5 .failed)).logs
      = [⟨⟨1, 0⟩, 5, .partialFillExecuted () 7 10 10⟩] ∧
    (eventIndexer.run (.init 5 tables) (fillInBlock5 .failed)).applied = [] ∧
    (eventIndexer.run (.init 5 tables) (fillInBlock5 .failed)).db.fills = [] := by
  decide +kernel

end Runs

end Checkpoints

end NeutronX
