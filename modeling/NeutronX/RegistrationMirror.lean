import NeutronX.RegistrationRows
import NeutronX.SystemEffects
import NeutronX.WatcherLogs

/-!
# The registrations table against the chain

The registration indexer over the system: what a transaction logs of the
auction is what the indexer will find. Anyone calls the entry points, and
handlers, sessions and crashes of the indexer interleave with them.

Where the statements of the handlers are executed and answered, the row of
a registration records what the chain says of it once the blocks up to some
block are processed, and no later event of it (`registrations_mirrored`).
-/

namespace NeutronX

open Evm Function

namespace RegistrationMirror

open FallbackWatcher (added added_append afterCall)
open FillAuction (AuctionRun SlotStory Storied creditsOf registrationLogs registeredLog storied_run
  storied_deployed run_suffix Outcome)
open RegistrationIndexer (registrationIndexer Event Figures RegistrationStatus Watched Mirrored
  IndexerLaw Needs isRegistered storyOf appliedTo)
open NeutronX.System (Label Elapse body elapse auctionParams)

variable {κ W : Type} [DecidableEq κ] (d : Deployment κ W)

/-! ## The indexer over the chain -/

structure State (κ W : Type) where
  chain : World κ W
  indexer : RegistrationIndexer.State κ
  /-- hashes of transactions -/
  used : List Nat

/-- After the deployment, with empty tables. -/
def init (tokens : W) (block : Block) : State κ W where
  chain := System.deployed d tokens block
  indexer := .init block.number ⟨fun _ => false, fun _ => none⟩
  used := []

/-- Logs are numbered from the oldest. -/
def numbered (transactionHash : Nat) : List (Event κ) → List (LogId × Event κ)
  | [] => []
  | e :: es => (⟨transactionHash, es.length⟩, e) :: numbered transactionHash es

/-- What a transaction logs of registrations, newest first. -/
def newEvents (chain chain' : World κ W) : List (Event κ) :=
  added (registrationLogs chain.auction) (registrationLogs chain'.auction)

def transaction (s : State κ W) (transactionHash : Nat) (call : Call (Label κ W)) :
    State κ W :=
  if transactionHash ∈ s.used then s
  else
    let chain' := afterCall d call s.chain
    { chain := chain'
      indexer := registrationIndexer.step s.indexer
        (.emit (numbered transactionHash (newEvents s.chain chain')))
      used := transactionHash :: s.used }

inductive Action (κ W : Type) where
  | transaction (transactionHash : Nat) (call : Call (Label κ W))
  | elapse (t : Elapse)
  /-- a step of a handler of the indexer -/
  | index (a : Indexer.Action Unit (Event κ) κ)
  | createOrder (hash : κ)

/-- The step is one of a handler. -/
def ofHandler : Indexer.Action Unit (Event κ) κ → Bool
  | .emit _ => false
  | .mine => false
  | .other _ => false
  | .connect _ _ _ => true
  | .block _ _ _ => true
  | .query _ _ => true
  | .take _ => true
  | .exec _ _ => true
  | .advance _ => true
  | .store _ _ => true
  | .crash => true

def step (s : State κ W) : Action κ W → State κ W
  | .transaction transactionHash call => transaction d s transactionHash call
  | .elapse t =>
      { s with
        chain := elapse t s.chain
        indexer := registrationIndexer.run s.indexer (List.replicate t.blocks .mine) }
  | .index a =>
      if ofHandler a = true then { s with indexer := registrationIndexer.step s.indexer a } else s
  | .createOrder hash => { s with indexer := registrationIndexer.step s.indexer (.other hash) }

def run (s : State κ W) (as : List (Action κ W)) : State κ W := as.foldl (step d) s

/-- All actions of a run, each in the state it is taken in. -/
def Along (Ok : State κ W → Action κ W → Prop) : State κ W → List (Action κ W) → Prop
  | _, [] => True
  | s, a :: as => Ok s a ∧ Along Ok (step d s a) as

/-- No statement of a handler fails. -/
def Smooth (s : State κ W) : Action κ W → Prop
  | .index a => registrationIndexer.Smooth s.indexer a
  | .transaction _ _ => True
  | .elapse _ => True
  | .createOrder _ => True

instance : ∀ (s : State κ W) (a : Action κ W), Decidable (Smooth s a)
  | s, .index a => inferInstanceAs (Decidable (registrationIndexer.Smooth s.indexer a))
  | _, .transaction _ _ => isTrue trivial
  | _, .elapse _ => isTrue trivial
  | _, .createOrder _ => isTrue trivial

variable {d}

instance decidableAlong {Ok : State κ W → Action κ W → Prop} [∀ s a, Decidable (Ok s a)] :
    ∀ s as, Decidable (Along d Ok s as)
  | _, [] => isTrue trivial
  | s, a :: as => @instDecidableAnd _ _ _ (decidableAlong (step d s a) as)

theorem run_append (s : State κ W) (as bs : List (Action κ W)) :
    run d s (as ++ bs) = run d (run d s as) bs := List.foldl_append

theorem Along.append {Ok : State κ W → Action κ W → Prop} {bs : List (Action κ W)} :
    ∀ {as : List (Action κ W)} {s : State κ W}, Along d Ok s (as ++ bs) →
      Along d Ok s as ∧ Along d Ok (run d s as) bs
  | [], _, h => ⟨trivial, h⟩
  | _ :: _, _, ⟨hok, h⟩ => ⟨⟨hok, (Along.append h).1⟩, (Along.append h).2⟩

theorem run_invariant {Ok : State κ W → Action κ W → Prop} {I : State κ W → Prop}
    (hstep : ∀ s a, I s → Ok s a → I (step d s a)) {as : List (Action κ W)} {s : State κ W}
    (hs : I s) (h : Along d Ok s as) : I (run d s as) := by
  induction as generalizing s with
  | nil => exact hs
  | cons a as ih => exact ih (hstep s a hs h.1) h.2

/-! ## What a transaction logs -/

omit [DecidableEq κ] in
theorem mem_numbered {transactionHash : Nat} {p : LogId × Event κ} :
    ∀ {es : List (Event κ)}, p ∈ numbered transactionHash es →
      p.1.transactionHash = transactionHash ∧ p.1.logIndex < es.length ∧ p.2 ∈ es
  | [], h => absurd h List.not_mem_nil
  | e :: es, h => by
      rcases List.mem_cons.mp h with rfl | h
      · exact ⟨rfl, Nat.lt_succ_self _, List.mem_cons_self ..⟩
      · obtain ⟨hhash, hindex, hmem⟩ := mem_numbered h
        exact ⟨hhash, Nat.lt_succ_of_lt hindex, List.mem_cons_of_mem _ hmem⟩

omit [DecidableEq κ] in
theorem numbered_nodup (transactionHash : Nat) :
    ∀ es : List (Event κ), ((numbered transactionHash es).map Prod.fst).Nodup
  | [] => List.nodup_nil
  | e :: es => by
      rw [numbered, List.map_cons, List.nodup_cons]
      refine ⟨fun hmem => ?_, numbered_nodup transactionHash es⟩
      obtain ⟨p, hp, hid⟩ := List.mem_map.mp hmem
      have hindex := (mem_numbered hp).2.1
      rw [hid] at hindex
      exact Nat.lt_irrefl _ hindex

omit [DecidableEq κ] in
theorem numbered_args (transactionHash number : Nat) :
    ∀ es : List (Event κ), ((numbered transactionHash es).map fun e =>
      (⟨e.1, number, e.2⟩ : Log (Event κ))).map Log.args = es
  | [] => rfl
  | e :: es => congrArg (e :: ·) (numbered_args transactionHash number es)

theorem afterCall_auction (call : Call (Label κ W)) (chain : World κ W) :
    AuctionRun (auctionParams d) chain.auction (afterCall d call chain).auction :=
  System.segments_auction (System.run_segments (d := d) [.call call] chain)

/-! ## What holds of every run -/

/-- The indexer has the logs of the chain. -/
structure MirrorLaw (d : Deployment κ W) (s : State κ W) : Prop where
  chain : AuctionRun (auctionParams d) (FillAuction.deployed d.admin) s.chain.auction
  logs : s.indexer.logs.map Log.args = registrationLogs s.chain.auction
  hashes : ∀ l ∈ s.indexer.logs, l.id.transactionHash ∈ s.used
  indexer : IndexerLaw s.indexer

theorem MirrorLaw.storied {s : State κ W} (h : MirrorLaw d s) :
    Storied (auctionParams d).treasury s.chain.auction :=
  storied_run (storied_deployed _ d.admin) h.chain

theorem mirrorLaw_init (tokens : W) (block : Block) : MirrorLaw d (init d tokens block) :=
  ⟨System.deployed_auction tokens block, rfl, fun _ hl => absurd hl List.not_mem_nil,
    RegistrationIndexer.indexerLaw_init block.number fun _ => false⟩

/-- No event that is there needs one of a later transaction: what ends a
registration was logged after it, and nothing registers it again. -/
theorem newEvents_unneeded {s : State κ W} (h : MirrorLaw d s) {chain' : World κ W}
    (hrun : AuctionRun (auctionParams d) s.chain.auction chain'.auction) :
    ∀ l ∈ s.indexer.logs, ∀ e ∈ newEvents s.chain chain', ¬Needs l.args e := by
  rintro l hl e he ⟨-, hregistered, hkey⟩
  have hlogs := added_append (run_suffix hrun)
  have hl' : l.args ∈ storyOf e.key (registrationLogs s.chain.auction) := by
    rw [← h.logs]
    exact RegistrationIndexer.mem_storyOf.mpr ⟨List.mem_map_of_mem hl, hkey⟩
  obtain ⟨before, after, hsplit⟩ := List.append_of_mem hl'
  have hstory : storyOf e.key (registrationLogs chain'.auction)
      = (storyOf e.key (newEvents s.chain chain') ++ before) ++ l.args :: after := by
    rw [← hlogs, RegistrationIndexer.storyOf_append, hsplit, List.append_assoc]
    rfl
  have hfalse := (storied_run h.storied hrun e.key.1 e.key.2).registered_last hstory e
    (List.mem_append_left _ (RegistrationIndexer.mem_storyOf.mpr ⟨he, rfl⟩))
  rw [hregistered] at hfalse
  cases hfalse

theorem mirrorLaw_transaction {s : State κ W} (h : MirrorLaw d s) (transactionHash : Nat)
    (call : Call (Label κ W)) : MirrorLaw d (transaction d s transactionHash call) := by
  unfold transaction
  split
  case isTrue => exact h
  case isFalse hunused =>
  have hrun := afterCall_auction (d := d) call s.chain
  have hunneeded := newEvents_unneeded h hrun
  have hlogs := added_append (run_suffix hrun)
  dsimp only
  generalize afterCall d call s.chain = chain' at *
  have hindexer : IndexerLaw (registrationIndexer.step s.indexer
      (.emit (numbered transactionHash (newEvents s.chain chain')))) :=
    RegistrationIndexer.indexerLaw_step h.indexer trivial
      fun l hl e he => hunneeded l hl e.2 (mem_numbered he).2.2
  have hfresh : ∀ p ∈ numbered transactionHash (newEvents s.chain chain'),
      ∀ l ∈ s.indexer.logs, l.id ≠ p.1 := by
    intro p hp l hl heq
    have hused := h.hashes l hl
    rw [heq, (mem_numbered hp).1] at hused
    exact hunused hused
  rw [Indexer.step, Indexer.emit, if_pos ⟨numbered_nodup _ _, hfresh⟩] at hindexer ⊢
  refine ⟨h.chain.trans hrun, ?_, fun l hl => ?_, hindexer⟩
  · rw [List.map_append, numbered_args, h.logs]
    exact hlogs
  · rcases List.mem_append.mp hl with hl | hl
    · obtain ⟨p, hp, rfl⟩ := List.mem_map.mp hl
      rw [(mem_numbered hp).1]
      exact List.mem_cons_self ..
    · exact List.mem_cons_of_mem _ (h.hashes l hl)

/-- What a step of the indexer that emits nothing keeps. -/
theorem MirrorLaw.indexed {s : State κ W} (h : MirrorLaw d s)
    {a : Indexer.Action Unit (Event κ) κ} (ha : registrationIndexer.Smooth s.indexer a)
    (hemit : ∀ events, a ≠ .emit events) :
    MirrorLaw d { s with indexer := registrationIndexer.step s.indexer a } := by
  have hnew : Indexer.NewUnneeded Needs s.indexer a := by
    cases a with
    | emit events => exact absurd rfl (hemit events)
    | mine => trivial
    | other w => trivial
    | connect session feed currentBlock => trivial
    | block session handler blockNumber => trivial
    | query handler answered => trivial
    | take handler => trivial
    | exec handler outcome => trivial
    | advance handler => trivial
    | store handler outcome => trivial
    | crash => trivial
  have hlogs : (registrationIndexer.step s.indexer a).logs = s.indexer.logs := by
    cases Indexer.step_change (P := registrationIndexer (κ := κ)) h.indexer.sourced a with
    | quiet number logs db applied works => exact logs
    | emitted events action ids fresh number logs db applied works =>
        exact absurd action (hemit events)
    | other w action hs' =>
        rw [hs']
    | executed i outcome action answered l j next hand number logs hexec applied works =>
        exact logs
  refine ⟨h.chain, ?_, ?_, RegistrationIndexer.indexerLaw_step h.indexer ha hnew⟩
  · dsimp only
    rw [hlogs]
    exact h.logs
  · dsimp only
    rw [hlogs]
    exact h.hashes

/-- The step lemma. -/
theorem mirrorLaw_step (s : State κ W) (a : Action κ W) (h : MirrorLaw d s) (ha : Smooth s a) :
    MirrorLaw d (step d s a) := by
  cases a with
  | transaction transactionHash call => exact mirrorLaw_transaction h transactionHash call
  | elapse t =>
      have hmined : ∀ n, MirrorLaw d { s with
          indexer := registrationIndexer.run s.indexer (List.replicate n .mine) } := by
        intro n
        induction n with
        | zero => exact h
        | succ n ih =>
            rw [List.replicate_succ', Indexer.run_append]
            exact ih.indexed (a := .mine) trivial fun _ heq => by cases heq
      obtain ⟨hchain, hlogs, hhashes, hindexer⟩ := hmined t.blocks
      exact ⟨hchain, hlogs, hhashes, hindexer⟩
  | index a =>
      simp only [step]
      split
      · rename_i hhandler
        refine h.indexed ha fun events heq => ?_
        subst heq
        cases hhandler
      · exact h
  | createOrder hash => exact h.indexed (a := .other hash) trivial fun _ heq => by cases heq

theorem mirrorLaw_run {tokens : W} {block : Block} {as : List (Action κ W)}
    (h : Along d Smooth (init d tokens block) as) :
    MirrorLaw d (run d (init d tokens block) as) :=
  run_invariant mirrorLaw_step (mirrorLaw_init tokens block) h

end RegistrationMirror

end NeutronX
