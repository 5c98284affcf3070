import Mathlib.Algebra.Order.Ring.Nat

/-!
# Bisection with someone to ask

A bisection over indices asks about the middle of what is open and goes on
in one of the halves. Whom it asks may keep a state (a cache, a count, a
network), so a question is a step of that state, and what was said before
stays said. Without any assumption on the answers it ends at a cut: the
last index below it was said to pass and the one at it was said not to
(`bisect_cut`). It asks once for each time what is open can be halved
(`bisect_questions`).
-/

namespace Evm

section Bisection

variable {σ : Type}

/-- The loop, over the indices from `lo` up to but not including `hi`;
`best` is the last one that passed. -/
def bisect (ask : Nat → σ → Bool × σ) : Nat → Nat → Nat → Option Nat → σ → Option Nat × σ
  | 0, _, _, best, s => (best, s)
  | fuel + 1, lo, hi, best, s =>
      if lo < hi then
        let mid := (lo + hi - 1) / 2
        match ask mid s with
        | (true, s') => bisect ask fuel (mid + 1) hi (some mid) s'
        | (false, s') => bisect ask fuel lo mid best s'
      else (best, s)

/-- The last index below a cut. -/
def lastBelow : Nat → Option Nat
  | 0 => none
  | n + 1 => some n

/-- The index before the cut passes, the one at the cut does not. -/
structure Cut (said : Nat → Bool → Prop) (n cut : Nat) : Prop where
  le : cut ≤ n
  below : ∀ i, lastBelow cut = some i → said i true
  above : cut < n → said cut false

/-- **The loop ends at a cut**, by induction on its rounds: what was said
below `lo` and at `hi` was said of the two sides. -/
theorem bisect_cut {ask : Nat → σ → Bool × σ} (said : σ → Nat → Bool → Prop) {n : Nat}
    (hask : ∀ i s, said (ask i s).2 i (ask i s).1)
    (hkeep : ∀ i s j b, said s j b → said (ask i s).2 j b) :
    ∀ (fuel lo hi : Nat) (s : σ), hi - lo ≤ fuel → lo ≤ hi → hi ≤ n →
      (∀ i, lastBelow lo = some i → said s i true) → (hi < n → said s hi false) →
      ∃ cut, Cut (said (bisect ask fuel lo hi (lastBelow lo) s).2) n cut ∧
        (bisect ask fuel lo hi (lastBelow lo) s).1 = lastBelow cut := by
  intro fuel
  induction fuel with
  | zero =>
      intro lo hi s hfuel hle hhi hbelow habove
      obtain rfl : hi = lo := by omega
      exact ⟨hi, ⟨hhi, hbelow, habove⟩, rfl⟩
  | succ fuel ih =>
      intro lo hi s hfuel hle hhi hbelow habove
      unfold bisect
      split
      · rename_i hopen
        have hmid : lo ≤ (lo + hi - 1) / 2 ∧ (lo + hi - 1) / 2 < hi := by omega
        generalize (lo + hi - 1) / 2 = mid at hmid
        dsimp only
        have hsaid := hask mid s
        have hkept := hkeep mid s
        generalize ask mid s = answer at hsaid hkept
        obtain ⟨passes, s'⟩ := answer
        cases passes with
        | true =>
            refine ih (mid + 1) hi s' (by omega) (by omega) hhi (fun i h => ?_)
              fun h => hkept hi false (habove h)
            cases h
            exact hsaid
        | false =>
            exact ih lo mid s' (by omega) hmid.1 (by omega)
              (fun i h => hkept i true (hbelow i h)) fun _ => hsaid
      · obtain rfl : hi = lo := by omega
        exact ⟨hi, ⟨hhi, hbelow, habove⟩, rfl⟩

theorem bisect_inv {ask : Nat → σ → Bool × σ} {I : σ → Prop}
    (hask : ∀ i s, I s → I (ask i s).2) :
    ∀ (fuel lo hi : Nat) (best : Option Nat) (s : σ), I s → I (bisect ask fuel lo hi best s).2 := by
  intro fuel
  induction fuel with
  | zero => exact fun lo hi best s h => h
  | succ fuel ih =>
      intro lo hi best s h
      unfold bisect
      split
      · have hasked := hask ((lo + hi - 1) / 2) s h
        dsimp only
        generalize ask ((lo + hi - 1) / 2) s = answer at hasked
        obtain ⟨passes, s'⟩ := answer
        cases passes with
        | true => exact ih _ _ _ s' hasked
        | false => exact ih _ _ _ s' hasked
      · exact h

/-- Each round halves what is open, so `k` questions are enough for less
than `2 ^ k` indices. -/
theorem bisect_questions {ask : Nat → σ → Bool × σ} (asked : σ → Nat)
    (hask : ∀ i s, asked (ask i s).2 ≤ asked s + 1) :
    ∀ (fuel k lo hi : Nat) (best : Option Nat) (s : σ), hi - lo < 2 ^ k →
      asked (bisect ask fuel lo hi best s).2 ≤ asked s + k := by
  intro fuel
  induction fuel with
  | zero => exact fun k lo hi best s hk => Nat.le_add_right _ _
  | succ fuel ih =>
      intro k lo hi best s hk
      unfold bisect
      split
      · rename_i hopen
        cases k with
        | zero => omega
        | succ k =>
            rw [Nat.pow_succ] at hk
            have hasked := hask ((lo + hi - 1) / 2) s
            dsimp only
            generalize ask ((lo + hi - 1) / 2) s = answer at hasked
            obtain ⟨passes, s'⟩ := answer
            change asked s' ≤ asked s + 1 at hasked
            have hone : asked s' + k ≤ asked s + (k + 1) := by
              rw [Nat.add_comm k 1, ← Nat.add_assoc]
              exact Nat.add_le_add_right hasked k
            have hupper : hi - ((lo + hi - 1) / 2 + 1) < 2 ^ k := by omega
            have hlower : (lo + hi - 1) / 2 - lo < 2 ^ k := by omega
            cases passes with
            | true => exact Nat.le_trans (ih k _ hi (some ((lo + hi - 1) / 2)) s' hupper) hone
            | false => exact Nat.le_trans (ih k lo _ best s' hlower) hone
      · exact Nat.le_add_right _ _

end Bisection

end Evm
