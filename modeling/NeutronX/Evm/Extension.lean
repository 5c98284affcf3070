import NeutronX.Evm.Reentrant

/-!
# A contract on top of a system

A contract that uses a system of contracts is put beside it: the state of
the larger world has the state of the system as a part, and the bodies of
the new entry points run pieces of the system's bodies on that part.

The larger world refines the system when all that happens to the part is
what calls of the system, made one after the other, do to it (`Reaches`).
The pieces of a body are not calls, but the whole body is: `MayEnd`
collects, for each external call of the system's body, the calls that
were made meanwhile, and `Reaches.call` makes one call tree of them. Then
every run of the larger world is a run of the system (`runTxs_reaches`).
-/

namespace Evm

section Reach

variable {S ε L : Type} (body : L → S → Prog S ε)

/-- Calls, made one after the other, lead from one state to the other. -/
def Reaches (s s' : S) : Prop := ∃ cs, s' = runCalls body cs s

/-- The rest of a body ends in `s'` when the code outside makes the right
calls. -/
def MayEnd (p : Prog S ε) (s' : S) : Prop := ∃ turns, resume body turns p = .ok s'

variable {body}

theorem runCalls_append :
    ∀ (cs cs' : List (Call L)) (s : S),
      runCalls body (cs ++ cs') s = runCalls body cs' (runCalls body cs s)
  | [], cs', s => by rw [List.nil_append, runCalls]
  | c :: cs, cs', s => by
      rw [List.cons_append, runCalls, runCalls]
      cases exec body c s with
      | ok s' => exact runCalls_append cs cs' s'
      | error e => exact runCalls_append cs cs' s

theorem Reaches.refl (s : S) : Reaches body s s := ⟨[], by rw [runCalls]⟩

theorem Reaches.trans {s s' s'' : S} (h : Reaches body s s') (h' : Reaches body s' s'') :
    Reaches body s s'' := by
  obtain ⟨cs, rfl⟩ := h
  obtain ⟨cs', rfl⟩ := h'
  exact ⟨cs ++ cs', (runCalls_append cs cs' s).symm⟩

/-- A whole body is one call. -/
theorem Reaches.call {l : L} {s s' : S} (h : MayEnd body (body l s) s') : Reaches body s s' := by
  obtain ⟨turns, hturns⟩ := h
  refine ⟨[.mk l turns], ?_⟩
  rw [runCalls, exec, hturns]
  change s' = runCalls body [] s'
  rw [runCalls]

theorem mayEnd_done (s : S) : MayEnd body (.done s) s := ⟨[], by rw [resume]; rfl⟩

theorem mayEnd_attempt {α : Type} {x : Except ε α} {k : α → Prog S ε} {a : α} {s' : S}
    (hx : x = .ok a) (h : MayEnd body (k a) s') : MayEnd body (.attempt x k) s' := by
  rw [hx]
  exact h

theorem mayEnd_yield {s t s' : S} {k : S → Prog S ε} (hreach : Reaches body s t)
    (h : MayEnd body (k t) s') : MayEnd body (.yield s k) s' := by
  obtain ⟨cs, rfl⟩ := hreach
  obtain ⟨turns, hturns⟩ := h
  exact ⟨cs :: turns, by rw [resume]; exact hturns⟩

/-- Where no external call is made, nothing happens meanwhile. -/
theorem mayEnd_yieldIf {b : Bool} {s t s' : S} {k : S → Prog S ε} (hreach : Reaches body s t)
    (hsame : b = false → t = s) (h : MayEnd body (k t) s') :
    MayEnd body (.yieldIf b s k) s' := by
  cases b with
  | true => exact mayEnd_yield hreach h
  | false =>
      obtain rfl := hsame rfl
      exact h

end Reach

/-! ## The part -/

/-- The state of a system as a part of a larger state. -/
structure Part (T S : Type) where
  get : T → S
  set : T → S → T
  get_set : ∀ t s, get (set t s) = s

namespace Prog

variable {S T ε L : Type}

/-- A body of the system, run on the part. -/
def within (part : Part T S) (t : T) : Prog S ε → Prog T ε
  | .done s => .done (part.set t s)
  | .revert e => .revert e
  | .yield s k => .yield (part.set t s) fun t' => (k (part.get t')).within part t'

/-- A body of the system only writes the part. -/
theorem sat_within (part : Part T S) {R : T → T → Prop} {t₀ : T}
    (htrans : ∀ {a b c : T}, R a b → R b c → R a c) (hset : ∀ t s, R t (part.set t s)) :
    ∀ {p : Prog S ε} {t : T}, R t₀ t → (p.within part t).Sat R t₀
  | .done s, t, h => htrans h (hset t s)
  | .revert _, _, _ => trivial
  | .yield s _, t, h => fun _ h' =>
      sat_within part (R := R) htrans hset (htrans (htrans h (hset t s)) h')

/-- Its end is an end of the body, whatever happens to the part
meanwhile. -/
theorem sat_within_reaches (part : Part T S) {body : L → S → Prog S ε} {s₀ : S} {t₀ : T}
    (ht₀ : part.get t₀ = s₀) :
    ∀ {p : Prog S ε} {t : T}, (∀ s', MayEnd body p s' → Reaches body s₀ s') →
      (p.within part t).Sat (fun t t' => Reaches body (part.get t) (part.get t')) t₀
  | .done s, t, h => by
      change Reaches body (part.get t₀) (part.get (part.set t s))
      rw [ht₀, part.get_set]
      exact h s (mayEnd_done s)
  | .revert _, _, _ => trivial
  | .yield s k, t, h => by
      intro t' hreach
      rw [part.get_set] at hreach
      exact sat_within_reaches part ht₀ fun s' hend => h s' (mayEnd_yield hreach hend)

end Prog

section Runs

variable {S T ε L M Θ : Type} (part : Part T S) {body : L → S → Prog S ε} {tick : Θ → S → S}
  {body' : M → T → Prog T ε} {tick' : Θ → T → T}

/-- What calls do is what transactions do that make them one by one. -/
theorem runTxs_calls (s : S) :
    ∀ cs : List (Call L), runTxs body tick (cs.map Tx.call) s = runCalls body cs s := by
  intro cs
  induction cs generalizing s with
  | nil => rw [List.map_nil, runTxs, runCalls]
  | cons c cs ih =>
      rw [List.map_cons, runTxs, runCalls, ih, stepTx]
      cases exec body c s with
      | ok s' => rfl
      | error e => rfl

/-- **Runs of the larger world are runs of the system.** -/
theorem runTxs_reaches
    (hbody : ∀ m t, (body' m t).Sat (fun t t' => Reaches body (part.get t) (part.get t')) t)
    (htick : ∀ x t, part.get (tick' x t) = tick x (part.get t)) (t : T) :
    ∀ txs : List (Tx M Θ),
      ∃ txs' : List (Tx L Θ),
        part.get (runTxs body' tick' txs t) = runTxs body tick txs' (part.get t) := by
  intro txs
  induction txs generalizing t with
  | nil => exact ⟨[], by rw [runTxs, runTxs]⟩
  | cons tx txs ih =>
      obtain ⟨rest, hrest⟩ := ih (stepTx body' tick' tx t)
      have hstep : ∃ first : List (Tx L Θ),
          part.get (stepTx body' tick' tx t) = runTxs body tick first (part.get t) := by
        cases tx with
        | tick x => exact ⟨[.tick x], by rw [stepTx, htick, runTxs, runTxs, stepTx]⟩
        | call c =>
            have hreach : Reaches body (part.get t)
                (part.get (stepTx body' tick' (.call c) t)) := by
              rw [stepTx]
              cases hexec : exec body' c t with
              | ok t' =>
                  exact exec_sat (R := fun t t' => Reaches body (part.get t) (part.get t'))
                    (fun _ => .refl _) .trans (fun m _ t => hbody m t) c.all_true hexec
              | error e => exact .refl _
            obtain ⟨cs, hcs⟩ := hreach
            exact ⟨cs.map Tx.call, hcs.trans (runTxs_calls _ cs).symm⟩
      obtain ⟨first, hfirst⟩ := hstep
      refine ⟨first ++ rest, ?_⟩
      rw [runTxs, hrest, runTxs_append, hfirst]

end Runs

end Evm
