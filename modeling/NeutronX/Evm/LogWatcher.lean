import Mathlib.Data.List.Basic

/-!
# Watching the logs of a chain

A watcher drains the logs of a growing range of blocks and handles them
one by one, each handler with some work between its first step and its
last. The range starts a few blocks before the last one drained, but not
before the block the watcher began with; a restart begins at the
checkpoint. `Covers` is what such a watcher guarantees when nothing fails:
a log of a block it has drained is done, and one of a block it is draining
is done, in hand or still to come.
-/

namespace Evm

variable {E J : Type}

/-- The logs of a range of blocks, oldest first, out of all logs with the
numbers of their blocks, newest first. -/
def logsBetween (events : List (Nat × E)) (fromBlock toBlock : Nat) : List E :=
  (events.reverse.filter fun e => fromBlock ≤ e.1 ∧ e.1 ≤ toBlock).map fun e => e.2

theorem mem_logsBetween {events : List (Nat × E)} {fromBlock toBlock : Nat} {e : E} :
    e ∈ logsBetween events fromBlock toBlock ↔
      ∃ n, (n, e) ∈ events ∧ fromBlock ≤ n ∧ n ≤ toBlock := by
  simp [logsBetween]

/-- A drain that is under way: the end of its range, the logs that are left,
and the work on the log before them. -/
structure Drain (E J : Type) where
  toBlock : Nat
  logs : List E
  work : Option J

structure Watcher (E J : Type) where
  /-- survives a restart -/
  checkpoint : Option Nat
  /-- `none` until the watcher is connected -/
  lastBlock : Option Nat
  floorBlock : Nat
  latestSeen : Option Nat
  drain : Option (Drain E J)

namespace Watcher

def rescanLag : Nat := 30

def init : Watcher E J := ⟨none, none, 0, none, none⟩

def restart (w : Watcher E J) : Watcher E J := { init with checkpoint := w.checkpoint }

/-- Where to go on, at the tip `current`; a checkpoint ahead of the tip is
discarded, and one of another chain or too far behind can be. -/
def resolveCheckpoint (checkpoint : Option Nat) (current : Nat) (discard : Bool) : Nat :=
  match checkpoint with
  | none => current
  | some last => if discard = true ∨ current < last then current else last

def connect (w : Watcher E J) (current : Nat) (discard : Bool) : Watcher E J :=
  if w.lastBlock.isSome then w
  else
    let last := resolveCheckpoint w.checkpoint current discard
    { w with checkpoint := some last, lastBlock := some last, floorBlock := min last current }

/-- A new block. -/
def see (w : Watcher E J) (blockNumber : Nat) : Watcher E J :=
  { w with latestSeen := some (max blockNumber (w.latestSeen.getD blockNumber)) }

/-- The start of a drain, which reads the logs with `select`. -/
def fetch (w : Watcher E J) (select : (fromBlock toBlock : Nat) → List E) : Watcher E J :=
  match w.drain, w.lastBlock, w.latestSeen with
  | none, some last, some seen =>
      if last < seen then
        { w with drain := some ⟨seen, select (max w.floorBlock (last + 1 - rescanLag)) seen, none⟩ }
      else w
  | _, _, _ => w

/-- The next log, if none is in hand. -/
def next (w : Watcher E J) : Option E :=
  match w.drain with
  | some ⟨_, e :: _, none⟩ => some e
  | _ => none

/-- Takes the next log in hand, with what there is to do. -/
def take (w : Watcher E J) (work : Option J) : Watcher E J :=
  match w.drain with
  | some ⟨toBlock, _ :: logs, none⟩ => { w with drain := some ⟨toBlock, logs, work⟩ }
  | _ => w

def work (w : Watcher E J) : Option J := w.drain.bind fun dr => dr.work

/-- Goes on with the log in hand, or is done with it. -/
def goOn (w : Watcher E J) (work : Option J) : Watcher E J :=
  match w.drain with
  | some ⟨toBlock, logs, some _⟩ => { w with drain := some ⟨toBlock, logs, work⟩ }
  | _ => w

/-- A handler that throws is given up. -/
def fail (w : Watcher E J) : Watcher E J := (w.take none).goOn none

/-- The end of a drain; writing the checkpoint can fail. -/
def finish (w : Watcher E J) (stored : Bool) : Watcher E J :=
  match w.drain with
  | some ⟨toBlock, [], none⟩ =>
      { w with
        lastBlock := some toBlock
        checkpoint := if stored then some toBlock else w.checkpoint
        drain := none }
  | _ => w

/-! ## What is in hand -/

@[simp] theorem work_init : (init : Watcher E J).work = none := rfl

@[simp] theorem work_restart (w : Watcher E J) : w.restart.work = none := rfl

@[simp] theorem work_connect (w : Watcher E J) (current : Nat) (discard : Bool) :
    (w.connect current discard).work = w.work := by
  unfold connect
  split <;> rfl

@[simp] theorem work_see (w : Watcher E J) (n : Nat) : (w.see n).work = w.work := rfl

@[simp] theorem work_fetch (w : Watcher E J) (select : Nat → Nat → List E) :
    (w.fetch select).work = w.work := by
  unfold fetch
  split
  case h_2 => rfl
  case h_1 hdrain _ _ =>
      split
      · simp [work, hdrain]
      · rfl

@[simp] theorem work_finish (w : Watcher E J) (stored : Bool) :
    (w.finish stored).work = w.work := by
  unfold finish
  split
  case h_2 => rfl
  case h_1 hdrain => simp [work, hdrain]

theorem work_take {w : Watcher E J} {j : Option J} {i : J} (h : (w.take j).work = some i) :
    w.work = some i ∨ j = some i := by
  unfold take at h
  split at h
  case h_1 => exact .inr h
  case h_2 => exact .inl h

theorem work_goOn {w : Watcher E J} {j : Option J} {i : J} (h : (w.goOn j).work = some i) :
    j = some i := by
  unfold goOn at h
  split at h
  case h_1 => exact h
  case h_2 hno =>
      obtain ⟨dr, hdr, hi⟩ := Option.bind_eq_some_iff.mp h
      obtain ⟨toBlock, logs, work⟩ := dr
      obtain rfl : work = some i := hi
      exact absurd hdr (hno toBlock logs i)

theorem work_fail (w : Watcher E J) : w.fail.work = none := by
  cases hwork : w.fail.work with
  | none => rfl
  | some i => exact nomatch work_goOn hwork

/-! ## The checkpoint -/

@[simp] theorem checkpoint_take (w : Watcher E J) (j : Option J) :
    (w.take j).checkpoint = w.checkpoint := by
  unfold take
  split <;> rfl

@[simp] theorem checkpoint_goOn (w : Watcher E J) (j : Option J) :
    (w.goOn j).checkpoint = w.checkpoint := by
  unfold goOn
  split <;> rfl

@[simp] theorem checkpoint_see (w : Watcher E J) (n : Nat) :
    (w.see n).checkpoint = w.checkpoint := rfl

@[simp] theorem checkpoint_fetch (w : Watcher E J) (select : Nat → Nat → List E) :
    (w.fetch select).checkpoint = w.checkpoint := by
  unfold fetch
  split
  case h_2 => rfl
  case h_1 => split <;> rfl

@[simp] theorem checkpoint_restart (w : Watcher E J) : w.restart.checkpoint = w.checkpoint := rfl

/-- A watcher that has a checkpoint goes on having one. -/
theorem checkpoint_connect {w : Watcher E J} (h : w.checkpoint.isSome = true) (current : Nat)
    (discard : Bool) : (w.connect current discard).checkpoint.isSome = true := by
  unfold connect
  split
  · exact h
  · rfl

theorem checkpoint_finish {w : Watcher E J} (h : w.checkpoint.isSome = true) (stored : Bool) :
    (w.finish stored).checkpoint.isSome = true := by
  unfold finish
  split
  case h_2 => exact h
  case h_1 =>
      cases stored with
      | true => rfl
      | false => exact h

/-! ## How far a watcher is -/

/-- The watcher is behind the block `number`, and began no later than where
it goes on. -/
structure Behind (w : Watcher E J) (number : Nat) : Prop where
  checkpoint : ∀ p ∈ w.checkpoint, p < number
  lastBlock : ∀ p ∈ w.lastBlock, p < number
  latestSeen : ∀ p ∈ w.latestSeen, p < number
  drain : ∀ dr ∈ w.drain, w.floorBlock ≤ dr.toBlock ∧ dr.toBlock < number
  floorBlock : ∀ p ∈ w.lastBlock, w.floorBlock ≤ p
  idle : w.lastBlock = none → w.drain = none

variable {w : Watcher E J} {number : Nat}

theorem behind_init (number : Nat) : (init : Watcher E J).Behind number :=
  ⟨nofun, nofun, nofun, nofun, nofun, fun _ => rfl⟩

theorem Behind.mono (h : w.Behind number) {number' : Nat} (hle : number ≤ number') :
    w.Behind number' :=
  ⟨fun p hp => Nat.lt_of_lt_of_le (h.checkpoint p hp) hle,
    fun p hp => Nat.lt_of_lt_of_le (h.lastBlock p hp) hle,
    fun p hp => Nat.lt_of_lt_of_le (h.latestSeen p hp) hle,
    fun dr hdr => ⟨(h.drain dr hdr).1, Nat.lt_of_lt_of_le (h.drain dr hdr).2 hle⟩, h.floorBlock,
    h.idle⟩

theorem Behind.restart (h : w.Behind number) : w.restart.Behind number :=
  ⟨h.checkpoint, nofun, nofun, nofun, nofun, fun _ => rfl⟩

theorem resolveCheckpoint_lt {checkpoint : Option Nat} {current : Nat} {discard : Bool}
    (hcheckpoint : ∀ p ∈ checkpoint, p < number) (hcurrent : current < number) :
    resolveCheckpoint checkpoint current discard < number := by
  unfold resolveCheckpoint
  cases checkpoint with
  | none => exact hcurrent
  | some last =>
      have hlast := hcheckpoint last rfl
      simp only
      split <;> assumption

theorem Behind.connect (h : w.Behind number) {current : Nat} (hcurrent : current < number)
    (discard : Bool) : (w.connect current discard).Behind number := by
  have hlast : resolveCheckpoint w.checkpoint current discard < number :=
    resolveCheckpoint_lt h.checkpoint hcurrent
  unfold Watcher.connect
  split
  case isTrue => exact h
  case isFalse hfresh =>
      have hidle := h.idle (by simpa using hfresh)
      exact ⟨by simpa using hlast, by simpa using hlast, h.latestSeen, by simp [hidle],
        by simpa using Nat.min_le_left _ _, nofun⟩

theorem Behind.see (h : w.Behind number) {n : Nat} (hn : n < number) :
    (w.see n).Behind number := by
  refine ⟨h.checkpoint, h.lastBlock, fun p hp => ?_, h.drain, h.floorBlock, h.idle⟩
  obtain rfl : p = max n (w.latestSeen.getD n) := by simpa [Watcher.see] using hp.symm
  cases hseen : w.latestSeen with
  | none => simpa using hn
  | some seen => exact Nat.max_lt.mpr ⟨hn, h.latestSeen seen hseen⟩

theorem Behind.fetch (h : w.Behind number) (select : Nat → Nat → List E) :
    (w.fetch select).Behind number := by
  unfold Watcher.fetch
  split
  case h_2 => exact h
  case h_1 last seen hdrain hlast hseen =>
      split
      case isFalse => exact h
      case isTrue =>
          have hfloor := h.floorBlock last hlast
          have hseen := h.latestSeen seen hseen
          refine ⟨h.checkpoint, h.lastBlock, h.latestSeen, fun dr hdr => ?_, h.floorBlock,
            fun hnone => by simp [hlast] at hnone⟩
          obtain rfl := Option.some.inj hdr
          exact ⟨by simp only; omega, hseen⟩

theorem Behind.take (h : w.Behind number) (work : Option J) : (w.take work).Behind number := by
  unfold Watcher.take
  split
  case h_2 => exact h
  case h_1 toBlock e logs hdrain =>
      refine ⟨h.checkpoint, h.lastBlock, h.latestSeen, fun dr hdr => ?_, h.floorBlock,
        fun hnone => by simp [h.idle hnone] at hdrain⟩
      obtain rfl := Option.some.inj hdr
      exact (h.drain _ hdrain :)

theorem Behind.goOn (h : w.Behind number) (work : Option J) : (w.goOn work).Behind number := by
  unfold Watcher.goOn
  split
  case h_2 => exact h
  case h_1 toBlock logs j hdrain =>
      refine ⟨h.checkpoint, h.lastBlock, h.latestSeen, fun dr hdr => ?_, h.floorBlock,
        fun hnone => by simp [h.idle hnone] at hdrain⟩
      obtain rfl := Option.some.inj hdr
      exact (h.drain _ hdrain :)

theorem Behind.finish (h : w.Behind number) (stored : Bool) : (w.finish stored).Behind number := by
  unfold Watcher.finish
  split
  case h_2 => exact h
  case h_1 toBlock hdrain =>
      obtain ⟨hfloor, hto⟩ := h.drain _ hdrain
      refine ⟨?_, by simpa using hto, h.latestSeen, nofun, by simpa using hfloor, nofun⟩
      cases stored with
      | true => simpa using hto
      | false => exact h.checkpoint

/-! ## What is left of a drain -/

/-- The logs that are left of a drain up to some block have the property `P`. -/
def Left (w : Watcher E J) (P : Nat → List E → Prop) : Prop :=
  ∀ dr ∈ w.drain, P dr.toBlock dr.logs

variable {P : Nat → List E → Prop}

theorem left_init : (init : Watcher E J).Left P := nofun

theorem left_restart (w : Watcher E J) : w.restart.Left P := nofun

theorem next_eq_some {e : E} (h : w.next = some e) :
    ∃ toBlock logs, w.drain = some ⟨toBlock, e :: logs, none⟩ := by
  unfold next at h
  split at h
  case h_1 toBlock e' logs hdrain =>
      obtain rfl := Option.some.inj h
      exact ⟨toBlock, logs, hdrain⟩
  case h_2 => cases h

theorem Left.mono (h : w.Left P) {P' : Nat → List E → Prop}
    (hP : ∀ toBlock logs, P toBlock logs → P' toBlock logs) : w.Left P' :=
  fun dr hdr => hP _ _ (h dr hdr)

theorem Left.connect (h : w.Left P) (current : Nat) (discard : Bool) :
    (w.connect current discard).Left P := by
  unfold Watcher.connect
  split <;> exact h

theorem Left.see (h : w.Left P) (n : Nat) : (w.see n).Left P := h

theorem Left.fetch (h : w.Left P) {select : Nat → Nat → List E}
    (hselect : ∀ fromBlock toBlock, P toBlock (select fromBlock toBlock)) :
    (w.fetch select).Left P := by
  unfold Watcher.fetch
  split
  case h_2 => exact h
  case h_1 =>
      split
      case isFalse => exact h
      case isTrue =>
          intro dr hdr
          obtain rfl := Option.some.inj hdr
          exact hselect _ _

theorem Left.take (h : w.Left P) (htail : ∀ toBlock e logs, P toBlock (e :: logs) → P toBlock logs)
    (work : Option J) : (w.take work).Left P := by
  unfold Watcher.take
  split
  case h_2 => exact h
  case h_1 toBlock e logs hdrain =>
      intro dr hdr
      obtain rfl := Option.some.inj hdr
      exact htail toBlock e logs (h _ hdrain)

theorem Left.goOn (h : w.Left P) (work : Option J) : (w.goOn work).Left P := by
  unfold Watcher.goOn
  split
  case h_2 => exact h
  case h_1 toBlock logs j hdrain =>
      intro dr hdr
      obtain rfl := Option.some.inj hdr
      exact (h _ hdrain :)

theorem Left.finish (h : w.Left P) (stored : Bool) : (w.finish stored).Left P := by
  unfold Watcher.finish
  split
  case h_2 => exact h
  case h_1 => exact nofun

/-! ## What a watcher has covered -/

/-- Logs of drained blocks are done; those of the blocks being drained are
done, in hand (`Doing`) or left. -/
structure Covers (w : Watcher E J) (events : List (Nat × E)) (Done : E → Prop)
    (Doing : J → E → Prop) : Prop where
  checkpoint : ∀ p ∈ w.checkpoint, ∀ n e, (n, e) ∈ events → n ≤ p → Done e
  lastBlock : ∀ p ∈ w.lastBlock, ∀ n e, (n, e) ∈ events → n ≤ p → Done e
  drain : ∀ dr ∈ w.drain, ∀ n e, (n, e) ∈ events → n ≤ dr.toBlock →
    Done e ∨ e ∈ dr.logs ∨ ∃ j ∈ dr.work, Doing j e

variable {events : List (Nat × E)} {Done : E → Prop} {Doing : J → E → Prop}

theorem Covers.mono (h : w.Covers events Done Doing) {Done' : E → Prop} {Doing' : J → E → Prop}
    (hdone : ∀ e, Done e → Done' e) (hdoing : ∀ j e, Doing j e → Doing' j e) :
    w.Covers events Done' Doing' :=
  ⟨fun p hp n e he hle => hdone e (h.checkpoint p hp n e he hle),
    fun p hp n e he hle => hdone e (h.lastBlock p hp n e he hle),
    fun dr hdr n e he hle => (h.drain dr hdr n e he hle).imp (hdone e)
      (Or.imp_right fun ⟨j, hj, hin⟩ => ⟨j, hj, hdoing j e hin⟩)⟩

/-- Logs of blocks the watcher has not reached. -/
theorem Covers.grow (h : w.Covers events Done Doing) (hw : w.Behind number)
    {events' : List (Nat × E)}
    (hgrow : ∀ n e, (n, e) ∈ events' → (n, e) ∈ events ∨ number ≤ n) :
    w.Covers events' Done Doing := by
  have hold : ∀ {n e p}, (n, e) ∈ events' → p < number → n ≤ p → (n, e) ∈ events :=
    fun hin hp hn => (hgrow _ _ hin).resolve_right fun hlate => by omega
  exact ⟨fun p hp n e he hle => h.checkpoint p hp n e (hold he (hw.checkpoint p hp) hle) hle,
    fun p hp n e he hle => h.lastBlock p hp n e (hold he (hw.lastBlock p hp) hle) hle,
    fun dr hdr n e he hle => h.drain dr hdr n e (hold he (hw.drain dr hdr).2 hle) hle⟩

theorem Covers.restart (h : w.Covers events Done Doing) :
    w.restart.Covers events Done Doing := ⟨h.checkpoint, nofun, nofun⟩

/-- A watcher that has a checkpoint and keeps it. -/
theorem Covers.connect (h : w.Covers events Done Doing) (hkeeps : w.checkpoint.isSome = true)
    (current : Nat) : (w.connect current false).Covers events Done Doing := by
  obtain ⟨last, hlast⟩ := Option.isSome_iff_exists.mp hkeeps
  have hresolved : resolveCheckpoint w.checkpoint current false ≤ last := by
    simp only [resolveCheckpoint, hlast, Bool.false_eq_true, false_or]
    split <;> omega
  have hdone : ∀ p ∈ some (resolveCheckpoint w.checkpoint current false), ∀ n e,
      (n, e) ∈ events → n ≤ p → Done e := fun p hp n e he hle => by
    obtain rfl := Option.some.inj hp
    exact h.checkpoint last hlast n e he (Nat.le_trans hle hresolved)
  unfold Watcher.connect
  split
  · exact h
  · exact ⟨hdone, hdone, h.drain⟩

theorem Covers.see (h : w.Covers events Done Doing) (n : Nat) :
    (w.see n).Covers events Done Doing := ⟨h.checkpoint, h.lastBlock, h.drain⟩

/-- The range of a drain leaves no block out. -/
theorem Covers.fetch (h : w.Covers events Done Doing) (hw : w.Behind number)
    {select : Nat → Nat → List E}
    (hselect : ∀ n e fromBlock toBlock, (n, e) ∈ events → fromBlock ≤ n → n ≤ toBlock →
      Done e ∨ e ∈ select fromBlock toBlock) :
    (w.fetch select).Covers events Done Doing := by
  unfold Watcher.fetch
  split
  case h_2 => exact h
  case h_1 last seen hdrain hlast hseen =>
      split
      case isFalse => exact h
      case isTrue =>
          refine ⟨h.checkpoint, h.lastBlock, fun dr hdr n e he hle => ?_⟩
          obtain rfl := Option.some.inj hdr
          by_cases hbefore : n ≤ last
          · exact .inl (h.lastBlock last hlast n e he hbefore)
          · have hfloor := hw.floorBlock last hlast
            have hfrom : max w.floorBlock (last + 1 - rescanLag) ≤ n := by
              unfold rescanLag
              omega
            exact (hselect n e _ _ he hfrom hle).imp_right .inl

/-- The log that is taken is done already, or is what the work is about. -/
theorem Covers.take (h : w.Covers events Done Doing) {e : E} (hnext : w.next = some e)
    {work : Option J} (hwork : (∃ n, (n, e) ∈ events) → Done e ∨ ∃ j ∈ work, Doing j e) :
    (w.take work).Covers events Done Doing := by
  unfold Watcher.take
  split
  case h_2 => exact h
  case h_1 toBlock e₀ logs hdrain =>
      obtain rfl : e₀ = e := by simpa [next, hdrain] using hnext
      refine ⟨h.checkpoint, h.lastBlock, fun dr hdr n e he hle => ?_⟩
      obtain rfl := Option.some.inj hdr
      rcases h.drain _ hdrain n e he hle with hdone | hleft | ⟨j, hj, -⟩
      · exact .inl hdone
      · rcases List.mem_cons.mp hleft with rfl | hleft
        · exact (hwork ⟨n, he⟩).imp_right .inr
        · exact .inr (.inl hleft)
      · cases hj

/-- What the work was about is done, or goes on. -/
theorem Covers.goOn (h : w.Covers events Done Doing) {work : Option J}
    (hwork : ∀ j ∈ w.work, ∀ e, Doing j e → Done e ∨ ∃ j ∈ work, Doing j e) :
    (w.goOn work).Covers events Done Doing := by
  unfold Watcher.goOn
  split
  case h_2 => exact h
  case h_1 toBlock logs j hdrain =>
      refine ⟨h.checkpoint, h.lastBlock, fun dr hdr n e he hle => ?_⟩
      obtain rfl := Option.some.inj hdr
      rcases h.drain _ hdrain n e he hle with hdone | hleft | ⟨j', hj', hdoing⟩
      · exact .inl hdone
      · exact .inr (.inl hleft)
      · exact (hwork j' (by simpa [Watcher.work, hdrain] using hj') e hdoing).imp_right .inr

theorem Covers.finish (h : w.Covers events Done Doing) (stored : Bool) :
    (w.finish stored).Covers events Done Doing := by
  unfold Watcher.finish
  split
  case h_2 => exact h
  case h_1 toBlock hdrain =>
      have hdone : ∀ n e, (n, e) ∈ events → n ≤ toBlock → Done e := fun n e he hle => by
        simpa using h.drain _ hdrain n e he hle
      refine ⟨fun p hp => ?_, fun p hp => ?_, nofun⟩
      · cases stored with
        | true =>
            obtain rfl := Option.some.inj hp
            exact hdone
        | false => exact h.checkpoint p hp
      · obtain rfl := Option.some.inj hp
        exact hdone

end Watcher

end Evm
