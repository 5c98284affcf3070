import NeutronX.Evm.Poller

/-!
# Logs that need others

An indexer of a single feed handles the answers to its filters one filter
after the other, so not in the order of the chain. A log may need another
one that was logged before it: a row has to be there before it is written
to. When the filter that finds what is needed comes before the filters that
find what needs it, the order is right in every run whose statements are
executed and answered, although ranges are polled more than once, and by
several handlers at a time (`inOrder_step`).
-/

namespace Evm

namespace Indexer

variable {A J W D : Type}

/-- The logs that are left to a handler, the one in hand first. -/
def Phase.queue : Phase A J → List (Log A)
  | .handling left work => (work.map Prod.fst).toList ++ left
  | .polling => []
  | .storing => []

theorem Phase.Sourced.queue {logs : List (Log A)} {phase : Phase A J} (h : phase.Sourced logs) :
    ∀ l ∈ phase.queue, l ∈ logs := by
  cases phase with
  | polling => exact fun _ hl => absurd hl List.not_mem_nil
  | storing => exact fun _ hl => absurd hl List.not_mem_nil
  | handling left work =>
      intro l hl
      rcases List.mem_append.mp hl with hl | hl
      · obtain ⟨⟨l', j⟩, hwork, rfl⟩ := Option.map_eq_some_iff.mp (Option.mem_toList.mp hl)
        exact h.2 l' j hwork
      · exact h.1 l hl

variable (P : Indexer Unit A J W D) (Needs : A → A → Prop)

/-- Every log of the queue comes after the logs it needs. -/
def Queued (s : State Unit A J D) (queue : List (Log A)) : Prop :=
  ∀ before t after, queue = before ++ t :: after →
    ∀ r, Needs t.args r.args → P.Owed s () r → r ∈ s.applied ∨ r ∈ before

structure InOrder (s : State Unit A J D) : Prop where
  logs : ∀ t ∈ s.logs, ∀ r ∈ s.logs, Needs t.args r.args → r.blockNumber ≤ t.blockNumber
  applied : ∀ t ∈ s.applied, ∀ r, Needs t.args r.args → P.Owed s () r → r ∈ s.applied
  handlers : ∀ i h, s.handlers i = some h → P.Queued Needs s h.phase.queue

/-- What is needed is found by an earlier filter. -/
def FilteredFirst : Prop :=
  ∀ t r, Needs t r → ∃ fs fs', P.filters () = fs ++ fs' ∧ (∃ filter ∈ fs, filter r = true) ∧
    ∀ filter ∈ fs, filter t = false

variable {P Needs} {s s' : State Unit A J D}

/-! ## What stays in order -/

theorem Queued.nil : P.Queued Needs s [] := by
  intro before t after h
  exact absurd h.symm (by simp)

/-- The log in front may go once it is applied. -/
theorem Queued.tail {l : Log A} {queue : List (Log A)} (h : P.Queued Needs s (l :: queue))
    (hl : l ∈ s.applied) : P.Queued Needs s queue := by
  intro before t after hqueue r hneeds howed
  rcases h (l :: before) t after (by rw [hqueue]; rfl) r hneeds howed with happlied | hbefore
  · exact Or.inl happlied
  · rcases List.mem_cons.mp hbefore with rfl | hbefore
    · exact Or.inl hl
    · exact Or.inr hbefore

/-- What a log in front needs has been applied. -/
theorem Queued.head {l r : Log A} {queue : List (Log A)} (h : P.Queued Needs s (l :: queue))
    (hneeds : Needs l.args r.args) (howed : P.Owed s () r) : r ∈ s.applied :=
  (h [] l queue rfl r hneeds howed).resolve_right List.not_mem_nil

/-- What a state owes was owed before, and what was applied stays. -/
theorem Queued.grow {queue : List (Log A)} (h : P.Queued Needs s queue)
    (howed : ∀ t ∈ queue, ∀ r, Needs t.args r.args → P.Owed s' () r → P.Owed s () r)
    (happlied : ∀ l ∈ s.applied, l ∈ s'.applied) : P.Queued Needs s' queue := by
  intro before t after hqueue r hneeds hr
  have ht : t ∈ queue := by
    rw [hqueue]
    exact List.mem_append_right _ (List.mem_cons_self ..)
  exact (h before t after hqueue r hneeds (howed t ht r hneeds hr)).imp_left (happlied r)

theorem Owed.ofSame {r : Log A} (h : P.Owed s' () r) (hlogs : s'.logs = s.logs)
    (hstart : ∀ o, s.startBlock () = some o → s'.startBlock () = some o) : P.Owed s () r := by
  obtain ⟨hr, hwatches, hafter⟩ := h
  refine ⟨?_, hwatches, fun o ho => hafter o (hstart o ho)⟩
  rwa [← hlogs]

/-- No log is new. -/
theorem InOrder.keep (h : P.InOrder Needs s) (hlogs : s'.logs = s.logs)
    (hstart : ∀ o, s.startBlock () = some o → s'.startBlock () = some o)
    (happlied : s'.applied = s.applied)
    (hhandlers : ∀ i hd, s'.handlers i = some hd → P.Queued Needs s hd.phase.queue) :
    P.InOrder Needs s' := by
  refine ⟨?_, ?_, fun i hd hi => ?_⟩
  · rw [hlogs]
    exact h.logs
  · rw [happlied]
    exact fun t ht r hneeds howed => h.applied t ht r hneeds (howed.ofSame hlogs hstart)
  · exact (hhandlers i hd hi).grow (fun t _ r _ howed => howed.ofSame hlogs hstart)
      fun l hl => by rwa [happlied]

/-- A handler goes on, and nothing else changes. -/
theorem InOrder.setHandler (h : P.InOrder Needs s) {i : Nat} {hd : Handler Unit A J}
    (hqueue : P.Queued Needs s hd.phase.queue) : P.InOrder Needs (s.setHandler i hd) :=
  h.keep rfl (fun _ ho => ho) rfl (forall_setHandler h.handlers hqueue)

/-! ## The steps -/

/-- The answers to the filters are in order. -/
theorem queued_select (hfirst : P.FilteredFirst Needs)
    (hlogs : ∀ t ∈ s.logs, ∀ r ∈ s.logs, Needs t.args r.args → r.blockNumber ≤ t.blockNumber)
    {lastBlock n : Nat} (hupto : P.Upto s () lastBlock) :
    P.Queued Needs s (P.select s.logs () (lastBlock + 1) n) := by
  intro before t after hqueue r hneeds howed
  by_cases hbefore : r.blockNumber ≤ lastBlock
  · exact Or.inl (hupto r howed hbefore)
  · have ht : t ∈ P.select s.logs () (lastBlock + 1) n := by
      rw [hqueue]
      exact List.mem_append_right _ (List.mem_cons_self ..)
    obtain ⟨_, _, hanswer⟩ := List.mem_flatMap.mp ht
    obtain ⟨htlogs, -, hto, -⟩ := (mem_queryFilterChunked P.chunk_pos).mp hanswer
    have hle := hlogs t htlogs r howed.1 hneeds
    obtain ⟨fs, fs', hfilters, ⟨filter, hfilter, hpass⟩, hnone⟩ := hfirst t.args r.args hneeds
    -- the answers to the filters in `fs` hold `r`, and not `t`
    have hr : r ∈ fs.flatMap fun filter =>
        queryFilterChunked (queryFilter s.logs filter) P.chunk (lastBlock + 1) n := by
      refine List.mem_flatMap.mpr ⟨filter, hfilter, ?_⟩
      exact (mem_queryFilterChunked P.chunk_pos).mpr ⟨howed.1, by omega, by omega, hpass⟩
    rw [select, hfilters, List.flatMap_append] at hqueue
    rcases List.append_eq_append_iff.mp hqueue with ⟨mid, hmid, -⟩ | ⟨mid, hmid, hrest⟩
    · rw [hmid]
      exact Or.inr (List.mem_append_left _ hr)
    · cases mid with
      | nil =>
          rw [List.append_nil] at hmid
          rw [← hmid]
          exact Or.inr hr
      | cons l mid =>
          -- `t` would be among the answers to `fs`
          obtain rfl : t = l := (List.cons.inj hrest).1
          have hthere : t ∈ before ++ t :: mid :=
            List.mem_append_right _ (List.mem_cons_self ..)
          rw [← hmid] at hthere
          obtain ⟨filter', hfilter', ht'⟩ := List.mem_flatMap.mp hthere
          have hpass' := ((mem_queryFilterChunked P.chunk_pos).mp ht').2.2.2
          rw [hnone filter' hfilter'] at hpass'
          cases hpass'

/-- No log that is there needs a new one. -/
def NewUnneeded (Needs : A → A → Prop) (s : State Unit A J D) : Action Unit A W → Prop
  | .emit events => ∀ t ∈ s.logs, ∀ e ∈ events, ¬Needs t.args e.2
  | _ => True

theorem inOrder_emit (hs : Sourced s) (h : P.InOrder Needs s) {events : List (LogId × A)}
    (hnew : ∀ t ∈ s.logs, ∀ e ∈ events, ¬Needs t.args e.2) :
    P.InOrder Needs (emit s events) := by
  unfold emit
  split
  case isFalse => exact h
  case isTrue =>
  have howed : ∀ t ∈ s.logs, ∀ r, Needs t.args r.args →
      P.Owed { s with logs := events.map (fun e => ⟨e.1, s.number, e.2⟩) ++ s.logs } () r →
      P.Owed s () r := by
    intro t ht r hneeds howed
    obtain ⟨hr, hwatches, hafter⟩ := howed
    refine ⟨?_, hwatches, hafter⟩
    rcases List.mem_append.mp hr with hr | hr
    · obtain ⟨e, he, rfl⟩ := List.mem_map.mp hr
      exact absurd hneeds (hnew t ht e he)
    · exact hr
  refine ⟨fun t ht r hr hneeds => ?_, fun t ht r hneeds hr => ?_, fun i hd hi => ?_⟩
  · rcases List.mem_append.mp ht with ht | ht
    · -- nothing is in a later block than what is new
      obtain ⟨e, -, rfl⟩ := List.mem_map.mp ht
      rcases List.mem_append.mp hr with hr | hr
      · obtain ⟨e', -, rfl⟩ := List.mem_map.mp hr
        exact Nat.le_refl _
      · exact hs.number r hr
    · rcases List.mem_append.mp hr with hr | hr
      · obtain ⟨e, he, rfl⟩ := List.mem_map.mp hr
        exact absurd hneeds (hnew t ht e he)
      · exact h.logs t ht r hr hneeds
  · exact h.applied t ht r hneeds (howed t (hs.applied t ht) r hneeds hr)
  · exact (h.handlers i hd hi).grow
      (fun t ht => howed t ((hs.handlers i hd hi).queue t ht)) fun _ hl => hl

/-- A handler with nothing in hand executes nothing. -/
theorem execute_of_idle {i : Nat} (h : s.inHand i = none) (outcome : Outcome) :
    P.execute s i outcome = s := by
  unfold execute
  split
  · rename_i session n fs left l j hi
    rw [State.inHand, hi] at h
    cases h
  · rfl

/-- What the handler of a statement that is executed and answered did. -/
theorem execute_done {i : Nat} {outcome : Outcome} {l : Log A} {j : J}
    (hsmooth : P.Smooth s (.exec i outcome)) (hand : s.inHand i = some (l, j)) :
    ∃ session n fs left db next,
      s.handlers i = some ⟨session, n, fs, .handling left (some (l, j))⟩ ∧
      P.exec j s.db = some (db, next) ∧
      P.execute s i outcome =
        { s.setHandler i ⟨session, n, fs, .handling left (next.map fun j' => (l, j'))⟩ with
          db
          applied := if next.isNone then l :: s.applied else s.applied } := by
  obtain ⟨rfl, hexec⟩ := hsmooth
  rw [hand] at hexec
  obtain ⟨⟨db, next⟩, hexec⟩ := Option.isSome_iff_exists.mp hexec
  obtain ⟨⟨session, n, fs, phase⟩, hi, hwork⟩ := Option.bind_eq_some_iff.mp hand
  cases phase with
  | polling => cases hwork
  | storing => cases hwork
  | handling left work =>
      obtain rfl : work = some (l, j) := hwork
      refine ⟨session, n, fs, left, db, next, hi, hexec, ?_⟩
      simp only [execute, hi, hexec]
      cases next with
      | none => rfl
      | some j' => rfl

theorem inOrder_execute (h : P.InOrder Needs s) {i : Nat} {outcome : Outcome}
    (hsmooth : P.Smooth s (.exec i outcome)) : P.InOrder Needs (P.execute s i outcome) := by
  cases hand : s.inHand i with
  | none =>
      rw [execute_of_idle hand]
      exact h
  | some work =>
    obtain ⟨l, j⟩ := work
    obtain ⟨session, n, fs, left, db, next, hi, -, heq⟩ := execute_done hsmooth hand
    rw [heq]
    have hqueue : P.Queued Needs s (l :: left) := h.handlers i _ hi
    have hgrow : ∀ l' ∈ s.applied, l' ∈ if next.isNone then l :: s.applied else s.applied := by
      intro l' hl'
      split
      · exact List.mem_cons_of_mem _ hl'
      · exact hl'
    refine ⟨h.logs, fun t ht r hneeds howed => ?_, fun k hd hk => ?_⟩
    · refine hgrow r ?_
      have hthere : t ∈ l :: s.applied := by
        dsimp only at ht
        split at ht
        · exact ht
        · exact List.mem_cons_of_mem _ ht
      rcases List.mem_cons.mp hthere with rfl | hold
      · exact hqueue.head hneeds howed
      · exact h.applied t hold r hneeds howed
    · by_cases heq : k = i
      · subst heq
        obtain rfl : ⟨session, n, fs, .handling left (next.map fun j' => (l, j'))⟩ = hd := by
          simpa [State.setHandler] using hk
        cases next with
        | none =>
            have hall : P.Queued Needs { s with db, applied := l :: s.applied } (l :: left) :=
              hqueue.grow (fun _ _ _ _ howed => howed) fun _ hl' => List.mem_cons_of_mem _ hl'
            exact hall.tail (List.mem_cons_self ..)
        | some j' => exact hqueue
      · have hk' : s.handlers k = some hd := by
          simpa [State.setHandler, Function.update_of_ne heq] using hk
        exact (h.handlers k hd hk').grow (fun _ _ _ _ howed => howed) hgrow

/-- **The order is kept**, step by step. -/
theorem inOrder_step (hfirst : P.FilteredFirst Needs) (hs : Sourced s) (hcovered : P.Covered s)
    (h : P.InOrder Needs s) {a : Action Unit A W} (ha : P.Smooth s a)
    (hnew : NewUnneeded Needs s a) : P.InOrder Needs (P.step s a) := by
  cases a with
  | emit events => exact inOrder_emit hs h hnew
  | mine => exact h.keep rfl (fun _ ho => ho) rfl h.handlers
  | other w => exact h.keep rfl (fun _ ho => ho) rfl h.handlers
  | connect session feed currentBlock =>
      simp only [step, connect]
      split
      · exact h.keep rfl (fun o ho => (grows_resume hcovered session feed _).started () o ho) rfl
          h.handlers
      · exact h
  | block session i blockNumber =>
      simp only [step, block]
      split
      · exact h.setHandler .nil
      · exact h
  | query i answered =>
      simp only [step, query]
      split
      · rename_i session n f fs hi
        split
        · rename_i lastBlock hlast
          split
          · exact h.setHandler (queued_select hfirst h.logs (hcovered.last session f _ hlast).2)
          · exact h.setHandler .nil
        · exact h
      · exact h
  | take i =>
      simp only [step, take]
      split
      · rename_i session n fs l logs hi
        have hqueue : P.Queued Needs s (l :: logs) := h.handlers i _ hi
        exact h.setHandler hqueue
      · exact h
  | exec i outcome => exact inOrder_execute h ha
  | advance i =>
      simp only [step, advance]
      split
      · rename_i session n f fs hi
        exact h.keep rfl (fun _ ho => ho) rfl (forall_setHandler h.handlers .nil)
      · exact h
  | store i outcome =>
      simp only [step, store]
      split
      · rename_i session n f fs hi
        exact h.keep rfl (fun _ ho => ho) rfl (forall_setHandler h.handlers .nil)
      · exact h
  | crash => exact h.keep rfl (fun _ ho => ho) rfl fun _ _ hi => by cases hi

/-- The block a feed started with stays. -/
theorem startBlock_step (hcovered : P.Covered s) (a : Action Unit A W) {o : Nat}
    (ho : s.startBlock () = some o) : (P.step s a).startBlock () = some o := by
  cases a with
  | emit events =>
      simp only [step, emit]
      split <;> exact ho
  | mine => exact ho
  | other w => exact ho
  | connect session feed currentBlock =>
      simp only [step, connect]
      split
      · exact (grows_resume hcovered session feed _).started () o ho
      · exact ho
  | block session i blockNumber =>
      simp only [step, block]
      split <;> exact ho
  | query i answered =>
      simp only [step, query]
      split
      · split
        · split <;> exact ho
        · exact ho
      · exact ho
  | take i =>
      simp only [step, take]
      split <;> exact ho
  | exec i outcome =>
      simp only [step, execute]
      split
      · split <;> exact ho
      · exact ho
  | advance i =>
      simp only [step, advance]
      split <;> exact ho
  | store i outcome =>
      simp only [step, store]
      split <;> exact ho
  | crash => exact ho

theorem inOrder_init (number : Nat) (db : D) :
    P.InOrder Needs (State.init number db : State Unit A J D) :=
  ⟨fun _ ht => absurd ht List.not_mem_nil, fun _ ht => absurd ht List.not_mem_nil,
    fun _ _ hi => by cases hi⟩

end Indexer

end Evm
