import Mathlib.Logic.Function.Basic
import Mathlib.Logic.Relation

/-!
# A queue made of promises

A map holds one promise for each key, and a call is chained to it:
`next = prev.then(f, f)`, and `next` is what the following call with that
key is chained to. Nothing else orders the calls.

A call is a job. It remembers what it was chained to, starts once that is
settled, whatever the result, and settles in its own time. `Serial` is
what this comes to: of the jobs with one key, those before any that has
started are settled. So at most one runs, they run in the order of the
calls, and one that fails holds up nobody (`settles`).
-/

namespace Evm

open Function

/-- How far a job is: `P` is what a running one has reached, `R` a result. -/
inductive JobStage (P R : Type) where
  | waiting
  | running (p : P)
  | settled (r : R)
deriving DecidableEq

structure Job (K D P R : Type) where
  key : K
  data : D
  /-- the job whose promise it is chained to -/
  after : Option Nat
  stage : JobStage P R
deriving DecidableEq

/-- The jobs in the order of their calls, and the last one of every key. -/
structure SerialQueue (K D P R : Type) where
  jobs : List (Job K D P R)
  tails : K → Option Nat

namespace SerialQueue

variable {K D P R : Type} {q q' : SerialQueue K D P R} {i id : Nat} {j j' : Job K D P R}

def init : SerialQueue K D P R := ⟨[], fun _ => none⟩

/-- The promise of job `i` is settled. -/
def IsSettled (q : SerialQueue K D P R) (i : Nat) : Prop :=
  ∃ j r, q.jobs[i]? = some j ∧ j.stage = .settled r

/-- What the job is chained to is settled. -/
def Ready (q : SerialQueue K D P R) (j : Job K D P R) : Prop := ∀ a ∈ j.after, q.IsSettled a

instance (q : SerialQueue K D P R) (i : Nat) : Decidable (q.IsSettled i) :=
  match h : q.jobs[i]? with
  | some j =>
      match hstage : j.stage with
      | .settled r => .isTrue ⟨j, r, h, hstage⟩
      | .waiting | .running _ => .isFalse fun ⟨j', r, hj', hr⟩ => by simp_all
  | none => .isFalse fun ⟨j', r, hj', hr⟩ => by simp_all

instance (q : SerialQueue K D P R) (j : Job K D P R) : Decidable (q.Ready j) :=
  inferInstanceAs (Decidable (∀ a ∈ j.after, q.IsSettled a))

def enqueue [DecidableEq K] (q : SerialQueue K D P R) (k : K) (d : D) : SerialQueue K D P R :=
  ⟨q.jobs ++ [⟨k, d, q.tails k, .waiting⟩], update q.tails k (some q.jobs.length)⟩

def put (q : SerialQueue K D P R) (id : Nat) (st : JobStage P R) : SerialQueue K D P R :=
  { q with jobs := q.jobs.modify id fun j => { j with stage := st } }

/-- What happens to the jobs that are there: one starts, goes on, or
settles. -/
inductive Turn : SerialQueue K D P R → SerialQueue K D P R → Prop
  | start (q : SerialQueue K D P R) (id : Nat) (j : Job K D P R) (p : P)
      (hj : q.jobs[id]? = some j) (hstage : j.stage = .waiting) (hready : q.Ready j) :
      Turn q (q.put id (.running p))
  | goOn (q : SerialQueue K D P R) (id : Nat) (j : Job K D P R) (p p' : P)
      (hj : q.jobs[id]? = some j) (hstage : j.stage = .running p) : Turn q (q.put id (.running p'))
  | settle (q : SerialQueue K D P R) (id : Nat) (j : Job K D P R) (p : P) (r : R)
      (hj : q.jobs[id]? = some j) (hstage : j.stage = .running p) : Turn q (q.put id (.settled r))

/-! ## Jobs over time -/

theorem put_eq_some {st : JobStage P R} :
    (q.put id st).jobs[i]? = some j' ↔
      ∃ j, q.jobs[i]? = some j ∧ j' = if id = i then { j with stage := st } else j := by
  simp only [put, List.getElem?_modify, Option.map_eq_map, Option.map_eq_some_iff]
  exact exists_congr fun j => and_congr_right fun _ => by split <;> exact eq_comm

theorem put_self {st : JobStage P R} (hj : q.jobs[id]? = some j) :
    (q.put id st).jobs[id]? = some { j with stage := st } :=
  put_eq_some.mpr ⟨j, hj, (if_pos rfl).symm⟩

theorem put_of_ne {st : JobStage P R} (hne : id ≠ i) : (q.put id st).jobs[i]? = q.jobs[i]? := by
  simp [put, hne]

@[simp] theorem put_length (st : JobStage P R) : (q.put id st).jobs.length = q.jobs.length := by
  simp [put]

/-- Job `i` has the key `k`. -/
def Has (q : SerialQueue K D P R) (k : K) (i : Nat) : Prop :=
  ∃ j, q.jobs[i]? = some j ∧ j.key = k

theorem has_put {st : JobStage P R} {k : K} : (q.put id st).Has k i ↔ q.Has k i := by
  constructor
  · rintro ⟨j', hj', rfl⟩
    obtain ⟨j, hj, rfl⟩ := put_eq_some.mp hj'
    exact ⟨j, hj, by split <;> rfl⟩
  · rintro ⟨j, hj, rfl⟩
    exact ⟨_, put_eq_some.mpr ⟨j, hj, rfl⟩, by split <;> rfl⟩

/-- `o` is the last job before the `n`th that has the key `k`. -/
def Last (q : SerialQueue K D P R) (k : K) (n : Nat) : Option Nat → Prop
  | none => ∀ i < n, ¬q.Has k i
  | some a => a < n ∧ q.Has k a ∧ ∀ i < n, q.Has k i → i ≤ a

theorem Last.congr {k : K} {n : Nat} {o : Option Nat} (h : q.Last k n o)
    (hhas : ∀ i < n, q'.Has k i ↔ q.Has k i) : q'.Last k n o := by
  cases o with
  | none => exact fun i hi hk => h i hi ((hhas i hi).mp hk)
  | some a =>
      obtain ⟨ha, hk, hlast⟩ := h
      exact ⟨ha, (hhas a ha).mpr hk, fun i hi hki => hlast i hi ((hhas i hi).mp hki)⟩

section Enqueue

variable [DecidableEq K] {k : K} {d : D}

/-- A job is one from before, or the call itself. -/
theorem enqueue_eq_some :
    (q.enqueue k d).jobs[i]? = some j ↔
      q.jobs[i]? = some j ∨ i = q.jobs.length ∧ j = ⟨k, d, q.tails k, .waiting⟩ := by
  simp only [enqueue, List.getElem?_append]
  by_cases hi : i < q.jobs.length
  · simp [hi, Nat.ne_of_lt hi]
  · have hnone : q.jobs[i]? = none := List.getElem?_eq_none (Nat.le_of_not_lt hi)
    simp only [hi, if_false, hnone, List.getElem?_singleton, reduceCtorEq, false_or]
    have hzero : i - q.jobs.length = 0 ↔ i = q.jobs.length := by omega
    by_cases heq : i = q.jobs.length
    · simp [heq, eq_comm]
    · simp [heq, hzero]

theorem enqueue_old (hj : q.jobs[i]? = some j) : (q.enqueue k d).jobs[i]? = some j :=
  enqueue_eq_some.mpr (.inl hj)

theorem has_enqueue {k' : K} :
    (q.enqueue k d).Has k' i ↔ q.Has k' i ∨ i = q.jobs.length ∧ k = k' := by
  constructor
  · rintro ⟨j, hj, rfl⟩
    rcases enqueue_eq_some.mp hj with hold | ⟨hi, rfl⟩
    · exact .inl ⟨j, hold, rfl⟩
    · exact .inr ⟨hi, rfl⟩
  · rintro (⟨j, hj, hk⟩ | ⟨rfl, rfl⟩)
    · exact ⟨j, enqueue_old hj, hk⟩
    · exact ⟨_, enqueue_eq_some.mpr (.inr ⟨rfl, rfl⟩), rfl⟩

end Enqueue

/-- What no step takes back: the job, and how it ended. -/
structure Kept (j j' : Job K D P R) : Prop where
  key : j'.key = j.key
  data : j'.data = j.data
  after : j'.after = j.after
  settled : ∀ r, j.stage = .settled r → j'.stage = .settled r

def Later (q q' : SerialQueue K D P R) : Prop :=
  ∀ (i : Nat) (j : Job K D P R), q.jobs[i]? = some j → ∃ j', q'.jobs[i]? = some j' ∧ Kept j j'

theorem Kept.refl (j : Job K D P R) : Kept j j := ⟨rfl, rfl, rfl, fun _ h => h⟩

theorem Later.refl (q : SerialQueue K D P R) : Later q q := fun _ j hj => ⟨j, hj, .refl j⟩

theorem Later.trans {q'' : SerialQueue K D P R} (h : Later q q') (h' : Later q' q'') :
    Later q q'' := by
  intro i j hj
  obtain ⟨j', hj', hkept⟩ := h i j hj
  obtain ⟨j'', hj'', hkept'⟩ := h' i j' hj'
  exact ⟨j'', hj'', hkept'.key.trans hkept.key, hkept'.data.trans hkept.data,
    hkept'.after.trans hkept.after, fun r hr => hkept'.settled r (hkept.settled r hr)⟩

theorem later_enqueue [DecidableEq K] (k : K) (d : D) : Later q (q.enqueue k d) :=
  fun _ j hj => ⟨j, enqueue_old hj, .refl j⟩

theorem later_put {st : JobStage P R} (hj : q.jobs[id]? = some j)
    (hopen : ∀ r, j.stage ≠ .settled r) : Later q (q.put id st) := by
  intro i ji hji
  by_cases hi : id = i
  · subst hi
    obtain rfl : j = ji := Option.some.inj (hj.symm.trans hji)
    exact ⟨_, put_self hj, rfl, rfl, rfl, fun r hr => absurd hr (hopen r)⟩
  · exact ⟨ji, by rw [put_of_ne hi, hji], .refl ji⟩

theorem Turn.later (h : Turn q q') : Later q q' := by
  cases h with
  | start id j p hj hstage => exact later_put hj (by simp [hstage])
  | goOn id j p p' hj hstage => exact later_put hj (by simp [hstage])
  | settle id j p r hj hstage => exact later_put hj (by simp [hstage])

theorem Later.isSettled (h : Later q q') (hi : q.IsSettled i) : q'.IsSettled i := by
  obtain ⟨j, r, hj, hr⟩ := hi
  obtain ⟨j', hj', hkept⟩ := h i j hj
  exact ⟨j', r, hj', hkept.settled r hr⟩

/-! ## One at a time, in order -/

structure Serial (q : SerialQueue K D P R) : Prop where
  tails : ∀ k, q.Last k q.jobs.length (q.tails k)
  chained : ∀ i j, q.jobs[i]? = some j → q.Last j.key i j.after
  order : ∀ i j, q.jobs[i]? = some j → j.stage ≠ .waiting → ∀ i' < i, q.Has j.key i' →
    q.IsSettled i'

theorem serial_init : (init : SerialQueue K D P R).Serial where
  tails := fun _ _ hi => nomatch hi
  chained := fun _ _ hj => by simp [init] at hj
  order := fun _ _ hj => by simp [init] at hj

theorem serial_enqueue [DecidableEq K] (hq : q.Serial) (k : K) (d : D) :
    (q.enqueue k d).Serial := by
  have hlength : (q.enqueue k d).jobs.length = q.jobs.length + 1 := by simp [enqueue]
  have hbefore : ∀ k', ∀ i < q.jobs.length, (q.enqueue k d).Has k' i ↔ q.Has k' i := by
    intro k' i hi
    rw [has_enqueue, or_iff_left]
    exact fun h => absurd h.1 (Nat.ne_of_lt hi)
  have hlt : ∀ {i j}, q.jobs[i]? = some j → i < q.jobs.length := fun hj => by
    by_contra hi
    simp [List.getElem?_eq_none (Nat.le_of_not_lt hi)] at hj
  constructor
  case tails =>
      intro k'
      rw [hlength]
      by_cases hk : k' = k
      · subst hk
        rw [show (q.enqueue k' d).tails k' = some q.jobs.length from update_self ..]
        exact ⟨Nat.lt_succ_self _, has_enqueue.mpr (.inr ⟨rfl, rfl⟩),
          fun i hi _ => Nat.le_of_lt_succ hi⟩
      · have hold := (hq.tails k').congr (hbefore k')
        have hnew : ¬(q.enqueue k d).Has k' q.jobs.length := by
          rw [has_enqueue]
          rintro (⟨j, hj, -⟩ | ⟨-, rfl⟩)
          · exact absurd (hlt hj) (Nat.lt_irrefl _)
          · exact hk rfl
        have hin : ∀ i < q.jobs.length + 1, (q.enqueue k d).Has k' i → i < q.jobs.length :=
          fun i hi hhas => Nat.lt_of_le_of_ne (Nat.le_of_lt_succ hi) fun heq => hnew (heq ▸ hhas)
        rw [show (q.enqueue k d).tails k' = q.tails k' from update_of_ne hk ..]
        cases htail : q.tails k' with
        | none =>
            rw [htail] at hold
            exact fun i hi hhas => hold i (hin i hi hhas) hhas
        | some a =>
            rw [htail] at hold
            obtain ⟨ha, hk, hlast⟩ := hold
            exact ⟨Nat.lt_succ_of_lt ha, hk, fun i hi hhas => hlast i (hin i hi hhas) hhas⟩
  case chained =>
      intro i j hj
      rcases enqueue_eq_some.mp hj with hold | ⟨rfl, rfl⟩
      · exact (hq.chained i j hold).congr fun i' hi' =>
          hbefore _ i' (Nat.lt_trans hi' (hlt hold))
      · exact (hq.tails k).congr (hbefore k)
  case order =>
      intro i j hj hstarted i' hi' hhas
      rcases enqueue_eq_some.mp hj with hold | ⟨-, rfl⟩
      · have hhas' := (hbefore _ i' (Nat.lt_trans hi' (hlt hold))).mp hhas
        exact (later_enqueue k d).isSettled (hq.order i j hold hstarted i' hi' hhas')
      · exact absurd rfl hstarted

/-- The start of a job is the only step that has to wait. -/
theorem serial_put {st : JobStage P R} (hq : q.Serial) (hj : q.jobs[id]? = some j)
    (hopen : ∀ r, j.stage ≠ .settled r)
    (hturn : ∀ i < id, q.Has j.key i → q.IsSettled i) : (q.put id st).Serial := by
  have hlater : Later q (q.put id st) := later_put hj hopen
  constructor
  case tails =>
      intro k
      rw [put_length]
      exact (hq.tails k).congr fun _ _ => has_put
  case chained =>
      intro i ji hji
      obtain ⟨j₀, hj₀, rfl⟩ := put_eq_some.mp hji
      have hlast : (q.put id st).Last j₀.key i j₀.after :=
        (hq.chained i j₀ hj₀).congr fun _ _ => has_put
      split <;> exact hlast
  case order =>
      intro i ji hji hstarted i' hi' hhas
      rw [has_put] at hhas
      by_cases hi : id = i
      · subst hi
        obtain rfl := Option.some.inj ((put_self hj).symm.trans hji)
        exact hlater.isSettled (hturn i' hi' hhas)
      · rw [put_of_ne hi] at hji
        exact hlater.isSettled (hq.order i ji hji hstarted i' hi' hhas)

/-- Whoever is at its turn has all its predecessors settled. -/
theorem Serial.ready (hq : q.Serial) (hj : q.jobs[id]? = some j) (hready : q.Ready j) :
    ∀ i < id, q.Has j.key i → q.IsSettled i := by
  intro i hi hhas
  have hlast := hq.chained id j hj
  cases hafter : j.after with
  | none =>
      rw [hafter] at hlast
      exact absurd hhas (hlast i hi)
  | some a =>
      rw [hafter] at hlast
      obtain ⟨-, ⟨ja, hja, hkey⟩, hmax⟩ := hlast
      have hsettled : q.IsSettled a := hready a hafter
      rcases Nat.lt_or_eq_of_le (hmax i hi hhas) with hlt | rfl
      · obtain ⟨ja', r, hja', hr⟩ := hsettled
        obtain rfl := Option.some.inj (hja.symm.trans hja')
        exact hq.order a ja hja (by simp [hr]) i hlt (hkey ▸ hhas)
      · exact hsettled

theorem serial_turn (hq : q.Serial) (h : Turn q q') : q'.Serial := by
  cases h with
  | start id j p hj hstage hready =>
      exact serial_put hq hj (by simp [hstage]) (hq.ready hj hready)
  | goOn id j p p' hj hstage =>
      exact serial_put hq hj (by simp [hstage]) (hq.order id j hj (by simp [hstage]))
  | settle id j p r hj hstage =>
      exact serial_put hq hj (by simp [hstage]) (hq.order id j hj (by simp [hstage]))

/-- **No two jobs of one key run at once.** -/
theorem Serial.exclusive (hq : q.Serial) {p p' : P} (hj : q.jobs[i]? = some j)
    (hj' : q.jobs[id]? = some j') (hp : j.stage = .running p) (hp' : j'.stage = .running p')
    (hkey : j.key = j'.key) : i = id := by
  have hopen : ∀ {i id : Nat} {j j' : Job K D P R} {p p' : P}, q.jobs[i]? = some j →
      q.jobs[id]? = some j' → j.stage = .running p → j'.stage = .running p' → j.key = j'.key →
      ¬i < id := by
    intro i id j j' p p' hj hj' hp hp' hkey hlt
    obtain ⟨j₀, r, hj₀, hr⟩ := hq.order id j' hj' (by simp [hp']) i hlt ⟨j, hj, hkey⟩
    obtain rfl := Option.some.inj (hj.symm.trans hj₀)
    simp [hp] at hr
  exact Nat.le_antisymm (Nat.le_of_not_lt (hopen hj' hj hp' hp hkey.symm))
    (Nat.le_of_not_lt (hopen hj hj' hp hp' hkey))

/-! ## Every job gets its turn -/

/-- Turns that only start a job, or settle it with the result `r`. -/
inductive Attempt (p₀ : P) (r : R) : SerialQueue K D P R → SerialQueue K D P R → Prop
  | start (q : SerialQueue K D P R) (id : Nat) (j : Job K D P R) (hj : q.jobs[id]? = some j)
      (hstage : j.stage = .waiting) (hready : q.Ready j) : Attempt p₀ r q (q.put id (.running p₀))
  | settle (q : SerialQueue K D P R) (id : Nat) (j : Job K D P R) (p : P)
      (hj : q.jobs[id]? = some j) (hstage : j.stage = .running p) :
      Attempt p₀ r q (q.put id (.settled r))

abbrev Attempts (p₀ : P) (r : R) : SerialQueue K D P R → SerialQueue K D P R → Prop :=
  Relation.ReflTransGen (Attempt p₀ r)

variable {p₀ : P} {r : R}

theorem Attempt.turn (h : Attempt p₀ r q q') : Turn q q' := by
  cases h with
  | start id j hj hstage hready => exact .start q id j p₀ hj hstage hready
  | settle id j p hj hstage => exact .settle q id j p r hj hstage

theorem Attempts.later (h : Attempts p₀ r q q') : Later q q' := by
  induction h with
  | refl => exact .refl _
  | tail _ hattempt ih => exact ih.trans hattempt.turn.later

/-- A job that is ready can settle. -/
theorem settles_ready (hj : q.jobs[id]? = some j) (hready : q.Ready j) :
    ∃ q', Attempts p₀ r q q' ∧ q'.IsSettled id := by
  cases hstage : j.stage with
  | waiting =>
      have hstart : Attempt p₀ r q (q.put id (.running p₀)) := .start q id j hj hstage hready
      have hrunning : (q.put id (.running p₀)).jobs[id]? = some { j with stage := .running p₀ } :=
        put_self hj
      exact ⟨_, .tail (.single hstart) (.settle _ id _ p₀ hrunning rfl), _, r, put_self hrunning,
        rfl⟩
  | running p => exact ⟨_, .single (.settle q id j p hj hstage), _, r, put_self hj, rfl⟩
  | settled r' => exact ⟨q, .refl, j, r', hj, hstage⟩

/-- **The queue never blocks**: every job can settle, even if all those
before it settle with `r`. -/
theorem settles (p₀ : P) (r : R) :
    ∀ (id : Nat) {q : SerialQueue K D P R} {j : Job K D P R}, q.Serial →
      q.jobs[id]? = some j → ∃ q', Attempts p₀ r q q' ∧ q'.IsSettled id := by
  intro id
  induction id using Nat.strongRecOn with
  | ind id ih =>
      intro q j hq hj
      cases hafter : j.after with
      | none => exact settles_ready hj fun a ha => by simp [hafter] at ha
      | some a =>
          have hlast := hq.chained id j hj
          rw [hafter] at hlast
          obtain ⟨ha, ⟨ja, hja, -⟩, -⟩ := hlast
          obtain ⟨q₁, hattempts, hsettled⟩ := ih a ha hq hja
          obtain ⟨j₁, hj₁, hkept⟩ := hattempts.later id j hj
          have hready : q₁.Ready j₁ := fun a' ha' => by
            rw [hkept.after, hafter] at ha'
            exact Option.some.inj ha' ▸ hsettled
          obtain ⟨q₂, hattempts', hdone⟩ := settles_ready hj₁ hready
          exact ⟨q₂, hattempts.trans hattempts', hdone⟩

end SerialQueue

end Evm
