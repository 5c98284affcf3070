import Mathlib.Logic.Relation

/-!
# Re-entrant calls

A contract call runs until it hands control to code it does not know
(a token, a router, the receiver of a payment), and that code may call
back in before the first call has ended. `Prog` is such a body: finished,
reverted, or stopped at an external call with the rest of the body as a
continuation of the state the external code leaves behind.

What the unknown code does is data: a `Call` is a label (which entry
point, with which arguments) and, for each external call its body makes,
the list of calls made while it is out of control. `exec` runs the tree.
A nested call that reverts is rolled back and the code that made it goes
on; a call that reverts after its nested calls takes them with it. Since
an adversary's choices along one execution are some tree, a statement
about every tree is a statement about every adversary.

`exec_sat` is the rule the proofs use: a reflexive and transitive
relation that every body keeps, provided the code it calls keeps it,
relates the start and the end of every tree.
-/

namespace Evm

/-! ## Bodies -/

/-- What remains of a call: states `S`, reverts `ε`. -/
inductive Prog (S ε : Type) where
  | done (s : S)
  | revert (e : ε)
  /-- an external call from state `s`, resumed by `k` -/
  | yield (s : S) (k : S → Prog S ε)

namespace Prog

variable {S ε α : Type}

/-- Run a piece of a body that makes no external call. -/
def attempt (x : Except ε α) (k : α → Prog S ε) : Prog S ε :=
  match x with
  | .ok a => k a
  | .error e => .revert e

/-- An external call that only happens under condition `b`. -/
def yieldIf (b : Bool) (s : S) (k : S → Prog S ε) : Prog S ε :=
  if b then .yield s k else k s

/-- The rest of a body when no external code calls back. -/
def finish : Prog S ε → Except ε S
  | .done s => .ok s
  | .revert e => .error e
  | .yield s k => (k s).finish

/-- The body that started in `s₀` ends in a state related to it, provided
every piece of external code it calls keeps the relation. -/
def Sat (R : S → S → Prop) (s₀ : S) : Prog S ε → Prop
  | .done s => R s₀ s
  | .revert _ => True
  | .yield s k => ∀ s', R s s' → (k s').Sat R s₀

variable {R : S → S → Prop} {s₀ : S}

theorem sat_attempt {x : Except ε α} {k : α → Prog S ε}
    (h : ∀ a, x = .ok a → (k a).Sat R s₀) : (attempt x k).Sat R s₀ := by
  cases x with
  | ok a => exact h a rfl
  | error e => trivial

theorem sat_yieldIf {b : Bool} {s : S} {k : S → Prog S ε} (hrefl : ∀ s, R s s)
    (h : ∀ s', R s s' → (k s').Sat R s₀) : (yieldIf b s k).Sat R s₀ := by
  cases b with
  | true => exact h
  | false => exact h s (hrefl s)

/-- The same, for a body that goes on to use that nothing happened when no
call was made. -/
theorem sat_yieldIf_of {b : Bool} {s : S} {k : S → Prog S ε} (hrefl : ∀ s, R s s)
    (h : ∀ s', R s s' → (b = false → s' = s) → (k s').Sat R s₀) : (yieldIf b s k).Sat R s₀ := by
  cases b with
  | true => exact fun s' hs' => h s' hs' fun hfalse => nomatch hfalse
  | false => exact h s (hrefl s) fun _ => rfl

theorem Sat.finish (hrefl : ∀ s, R s s) :
    ∀ {p : Prog S ε} {s' : S}, p.Sat R s₀ → p.finish = .ok s' → R s₀ s'
  | .done s, s', h, hp => by
      obtain rfl : s = s' := by simpa [Prog.finish] using hp
      exact h
  | .revert e, s', _, hp => by simp [Prog.finish] at hp
  | .yield s k, s', h, hp => (h s (hrefl s)).finish hrefl hp

/-- The body reaches its end, in a state with `Q`, provided every piece of
external code it calls keeps the relation. -/
def Completes (R : S → S → Prop) (Q : S → Prop) : Prog S ε → Prop
  | .done s => Q s
  | .revert _ => False
  | .yield s k => ∀ s', R s s' → (k s').Completes R Q

variable {Q : S → Prop}

theorem completes_attempt {x : Except ε α} {k : α → Prog S ε} {a : α} (hx : x = .ok a)
    (h : (k a).Completes R Q) : (attempt x k).Completes R Q := by
  rw [hx]
  exact h

theorem completes_yieldIf {b : Bool} {s : S} {k : S → Prog S ε} (hrefl : ∀ s, R s s)
    (h : ∀ s', R s s' → (k s').Completes R Q) : (yieldIf b s k).Completes R Q := by
  cases b with
  | true => exact h
  | false => exact h s (hrefl s)

theorem Completes.finish (hrefl : ∀ s, R s s) :
    ∀ {p : Prog S ε}, p.Completes R Q → ∃ s', p.finish = .ok s' ∧ Q s'
  | .done s, h => ⟨s, rfl, h⟩
  | .revert _, h => h.elim
  | .yield s _, h => (h s (hrefl s)).finish hrefl

/-- Where the body reaches its end it is in a state with `Q`, provided every
piece of external code it calls keeps the relation. -/
def Ensures (R : S → S → Prop) (Q : S → Prop) : Prog S ε → Prop
  | .done s => Q s
  | .revert _ => True
  | .yield s k => ∀ s', R s s' → (k s').Ensures R Q

theorem ensures_attempt {x : Except ε α} {k : α → Prog S ε}
    (h : ∀ a, x = .ok a → (k a).Ensures R Q) : (attempt x k).Ensures R Q := by
  cases x with
  | ok a => exact h a rfl
  | error e => trivial

theorem ensures_yieldIf {b : Bool} {s : S} {k : S → Prog S ε} (hrefl : ∀ s, R s s)
    (h : ∀ s', R s s' → (k s').Ensures R Q) : (yieldIf b s k).Ensures R Q := by
  cases b with
  | true => exact h
  | false => exact h s (hrefl s)

theorem Ensures.finish (hrefl : ∀ s, R s s) :
    ∀ {p : Prog S ε} {s' : S}, p.Ensures R Q → p.finish = .ok s' → Q s'
  | .done s, s', h, hp => by
      obtain rfl : s = s' := by simpa [Prog.finish] using hp
      exact h
  | .revert e, s', _, hp => by simp [Prog.finish] at hp
  | .yield s k, s', h, hp => (h s (hrefl s)).finish hrefl hp

/-- Where the body reverts it is for a reason in `E`, provided every piece of
external code it calls keeps the relation. -/
def RevertsIn (R : S → S → Prop) (E : ε → Prop) : Prog S ε → Prop
  | .done _ => True
  | .revert e => E e
  | .yield s k => ∀ s', R s s' → (k s').RevertsIn R E

variable {E : ε → Prop}

theorem revertsIn_attempt {x : Except ε α} {k : α → Prog S ε} (herror : ∀ e, x = .error e → E e)
    (h : ∀ a, x = .ok a → (k a).RevertsIn R E) : (attempt x k).RevertsIn R E := by
  cases x with
  | ok a => exact h a rfl
  | error e => exact herror e rfl

theorem revertsIn_yieldIf {b : Bool} {s : S} {k : S → Prog S ε} (hrefl : ∀ s, R s s)
    (h : ∀ s', R s s' → (k s').RevertsIn R E) : (yieldIf b s k).RevertsIn R E := by
  cases b with
  | true => exact h
  | false => exact h s (hrefl s)

theorem RevertsIn.finish (hrefl : ∀ s, R s s) :
    ∀ {p : Prog S ε} {e : ε}, p.RevertsIn R E → p.finish = .error e → E e
  | .done s, e, _, hp => by simp [Prog.finish] at hp
  | .revert e', e, h, hp => by
      obtain rfl : e' = e := by simpa [Prog.finish] using hp
      exact h
  | .yield s k, e, h, hp => (h s (hrefl s)).finish hrefl hp

@[simp] theorem attempt_ok (a : α) (k : α → Prog S ε) : attempt (.ok a) k = k a := rfl

@[simp] theorem attempt_error (e : ε) (k : α → Prog S ε) :
    attempt (.error e) k = .revert e := rfl

@[simp] theorem finish_done (s : S) : (Prog.done s : Prog S ε).finish = .ok s := rfl

@[simp] theorem finish_revert (e : ε) : (Prog.revert e : Prog S ε).finish = .error e := rfl

@[simp] theorem finish_yieldIf (b : Bool) (s : S) (k : S → Prog S ε) :
    (yieldIf b s k).finish = (k s).finish := by
  cases b <;> rfl

theorem finish_attempt_eq_ok {x : Except ε α} {k : α → Prog S ε} {s' : S} :
    (attempt x k).finish = .ok s' ↔ ∃ a, x = .ok a ∧ (k a).finish = .ok s' := by
  cases x <;> simp

theorem finish_attempt_eq_error {x : Except ε α} {k : α → Prog S ε} {e : ε} :
    (attempt x k).finish = .error e ↔ x = .error e ∨ ∃ a, x = .ok a ∧ (k a).finish = .error e := by
  cases x <;> simp

end Prog

/-! ## Call trees -/

/-- An entry point with its arguments, and for each external call of its
body the calls made meanwhile. -/
inductive Call (L : Type) where
  | mk (label : L) (turns : List (List (Call L)))

section Exec

variable {S ε L : Type} (body : L → S → Prog S ε)

mutual

def exec : Call L → S → Except ε S
  | .mk l turns, s => resume turns (body l s)

/-- Drive a body through its external calls, one list of nested calls for
each; a body that makes more external calls than there are lists is not
called back in the rest of them. -/
def resume : List (List (Call L)) → Prog S ε → Except ε S
  | [], p => p.finish
  | cs :: turns, p =>
      match p with
      | .done s => .ok s
      | .revert e => .error e
      | .yield s k => resume turns (k (runCalls cs s))

/-- Calls one after the other; a call that reverts changes nothing. -/
def runCalls : List (Call L) → S → S
  | [], s => s
  | c :: cs, s =>
      match exec c s with
      | .ok s' => runCalls cs s'
      | .error _ => runCalls cs s

end

mutual

/-- Every label of the tree satisfies `P`. -/
def Call.All (P : L → Prop) : Call L → Prop
  | .mk l turns => P l ∧ turnsAll P turns

def turnsAll (P : L → Prop) : List (List (Call L)) → Prop
  | [] => True
  | cs :: turns => callsAll P cs ∧ turnsAll P turns

def callsAll (P : L → Prop) : List (Call L) → Prop
  | [] => True
  | c :: cs => c.All P ∧ callsAll P cs

end

variable {P : L → Prop}

mutual

def Call.decidableAll [DecidablePred P] : ∀ c : Call L, Decidable (c.All P)
  | .mk _ turns => @instDecidableAnd _ _ inferInstance (decidableTurnsAll turns)

def decidableTurnsAll [DecidablePred P] :
    ∀ turns : List (List (Call L)), Decidable (turnsAll P turns)
  | [] => isTrue trivial
  | cs :: turns => @instDecidableAnd _ _ (decidableCallsAll cs) (decidableTurnsAll turns)

def decidableCallsAll [DecidablePred P] : ∀ cs : List (Call L), Decidable (callsAll P cs)
  | [] => isTrue trivial
  | c :: cs => @instDecidableAnd _ _ c.decidableAll (decidableCallsAll cs)

end

instance [DecidablePred P] (c : Call L) : Decidable (c.All P) := c.decidableAll

instance [DecidablePred P] (turns : List (List (Call L))) : Decidable (turnsAll P turns) :=
  decidableTurnsAll turns

/-- A call whose external code never calls back. -/
def Call.leaf (l : L) : Call L := .mk l []

@[simp] theorem exec_leaf (l : L) (s : S) : exec body (Call.leaf l) s = (body l s).finish := by
  simp [Call.leaf, exec, resume]

theorem resume_done (s : S) :
    ∀ turns : List (List (Call L)), resume body turns (.done s) = .ok s
  | [] => by rw [resume, Prog.finish]
  | _ :: _ => by rw [resume]

theorem resume_revert (e : ε) :
    ∀ turns : List (List (Call L)), resume body turns (.revert e) = .error e
  | [] => by rw [resume, Prog.finish]
  | _ :: _ => by rw [resume]

variable {body} {R : S → S → Prop}

mutual

/-- **The rule for call trees.** A reflexive and transitive relation kept
by every body whose label satisfies `P`, under the assumption that the
code it calls keeps it, holds between the start and the end of every call
tree over such labels. -/
theorem exec_sat (hrefl : ∀ s, R s s) (htrans : ∀ {a b c}, R a b → R b c → R a c)
    (hbody : ∀ l, P l → ∀ s, (body l s).Sat R s) :
    ∀ {c : Call L} {s s' : S}, c.All P → exec body c s = .ok s' → R s s'
  | .mk l turns, s, s', hall, h => by
      obtain ⟨hl, hturns⟩ := hall
      exact resume_sat hrefl htrans hbody hturns (hbody l hl s) (by simpa [exec] using h)

theorem resume_sat (hrefl : ∀ s, R s s) (htrans : ∀ {a b c}, R a b → R b c → R a c)
    (hbody : ∀ l, P l → ∀ s, (body l s).Sat R s) :
    ∀ {turns : List (List (Call L))} {p : Prog S ε} {s₀ s' : S}, turnsAll P turns →
      p.Sat R s₀ → resume body turns p = .ok s' → R s₀ s'
  | [], p, s₀, s', _, hp, h => hp.finish hrefl (by simpa [resume] using h)
  | cs :: turns, .done s, s₀, s', _, hp, h => by
      obtain rfl : s = s' := by simpa [resume] using h
      exact hp
  | cs :: turns, .revert e, s₀, s', _, _, h => by simp [resume] at h
  | cs :: turns, .yield s k, s₀, s', hall, hp, h => by
      obtain ⟨hcs, hturns⟩ := hall
      exact resume_sat hrefl htrans hbody hturns
        (hp _ (runCalls_sat hrefl htrans hbody hcs)) (by simpa [resume] using h)

theorem runCalls_sat (hrefl : ∀ s, R s s) (htrans : ∀ {a b c}, R a b → R b c → R a c)
    (hbody : ∀ l, P l → ∀ s, (body l s).Sat R s) :
    ∀ {cs : List (Call L)} {s : S}, callsAll P cs → R s (runCalls body cs s)
  | [], s, _ => by simpa [runCalls] using hrefl s
  | c :: cs, s, hall => by
      obtain ⟨hc, hcs⟩ := hall
      rw [runCalls]
      cases hx : exec body c s with
      | ok s' =>
          exact htrans (exec_sat hrefl htrans hbody hc hx) (runCalls_sat hrefl htrans hbody hcs)
      | error e => exact runCalls_sat hrefl htrans hbody hcs

end

/-- **The rule for calls that cannot fail.** A body that reaches its end over
code that keeps the relation reaches its end over every list of calls. -/
theorem resume_completes {Q : S → Prop} (hrefl : ∀ s, R s s)
    (hcalls : ∀ cs s, R s (runCalls body cs s)) :
    ∀ {turns : List (List (Call L))} {p : Prog S ε}, p.Completes R Q →
      ∃ s', resume body turns p = .ok s' ∧ Q s'
  | [], _, h => h.finish hrefl
  | _ :: _, .done s, h => ⟨s, by simp [resume], h⟩
  | _ :: _, .revert _, h => h.elim
  | cs :: turns, .yield s k, h => by
      have hrest : ∃ s', resume body turns (k (runCalls body cs s)) = .ok s' ∧ Q s' :=
        resume_completes hrefl hcalls (h _ (hcalls cs s))
      simpa [resume] using hrest

/-- **The rule for the end of a call.** -/
theorem resume_ensures {Q : S → Prop} (hrefl : ∀ s, R s s)
    (hcalls : ∀ cs s, R s (runCalls body cs s)) :
    ∀ {turns : List (List (Call L))} {p : Prog S ε} {s' : S}, p.Ensures R Q →
      resume body turns p = .ok s' → Q s'
  | [], _, _, hp, h => hp.finish hrefl (by simpa [resume] using h)
  | _ :: _, .done s, s', hp, h => by
      obtain rfl : s = s' := by simpa [resume] using h
      exact hp
  | _ :: _, .revert _, _, _, h => by simp [resume] at h
  | cs :: turns, .yield s k, s', hp, h =>
      resume_ensures hrefl hcalls (hp _ (hcalls cs s)) (by simpa [resume] using h)

/-- **The rule for the reasons of a revert.** -/
theorem resume_revertsIn {E : ε → Prop} (hrefl : ∀ s, R s s)
    (hcalls : ∀ cs s, R s (runCalls body cs s)) :
    ∀ {turns : List (List (Call L))} {p : Prog S ε} {e : ε}, p.RevertsIn R E →
      resume body turns p = .error e → E e
  | [], _, _, hp, h => hp.finish hrefl (by simpa [resume] using h)
  | _ :: _, .done _, _, _, h => by simp [resume] at h
  | _ :: _, .revert e', e, hp, h => by
      obtain rfl : e' = e := by simpa [resume] using h
      exact hp
  | cs :: turns, .yield s k, e, hp, h =>
      resume_revertsIn hrefl hcalls (hp _ (hcalls cs s)) (by simpa [resume] using h)

mutual

theorem Call.all_true : ∀ c : Call L, c.All fun _ => True
  | .mk _ turns => ⟨trivial, turnsAll_true turns⟩

theorem turnsAll_true : ∀ turns : List (List (Call L)), turnsAll (fun _ => True) turns
  | [] => trivial
  | cs :: turns => ⟨callsAll_true cs, turnsAll_true turns⟩

theorem callsAll_true : ∀ cs : List (Call L), callsAll (fun _ => True) cs
  | [] => trivial
  | c :: cs => ⟨c.all_true, callsAll_true cs⟩

end

end Exec

/-! ## Runs of transactions -/

/-- A step of the outermost level: a transaction, or the passing of time
(and whatever else only happens between transactions). -/
inductive Tx (L T : Type) where
  | call (c : Call L)
  | tick (t : T)

section Runs

variable {S ε L T : Type} (body : L → S → Prog S ε) (tick : T → S → S)

def Tx.All (P : L → Prop) : Tx L T → Prop
  | .call c => c.All P
  | .tick _ => True

/-- One step; a transaction that reverts changes nothing. -/
def stepTx : Tx L T → S → S
  | .call c, s =>
      match exec body c s with
      | .ok s' => s'
      | .error _ => s
  | .tick t, s => tick t s

def runTxs : List (Tx L T) → S → S
  | [], s => s
  | tx :: txs, s => runTxs txs (stepTx body tick tx s)

variable {body tick} {R : S → S → Prop} {P : L → Prop}

theorem runTxs_append :
    ∀ (txs txs' : List (Tx L T)) (s : S),
      runTxs body tick (txs ++ txs') s = runTxs body tick txs' (runTxs body tick txs s)
  | [], _, _ => rfl
  | tx :: txs, txs', s => by simp [runTxs, runTxs_append txs txs']

theorem stepTx_sat (hrefl : ∀ s, R s s) (htrans : ∀ {a b c}, R a b → R b c → R a c)
    (hbody : ∀ l, P l → ∀ s, (body l s).Sat R s) (htick : ∀ t s, R s (tick t s))
    {tx : Tx L T} (htx : tx.All P) (s : S) : R s (stepTx body tick tx s) := by
  cases tx with
  | call c =>
      simp only [stepTx]
      cases hx : exec body c s with
      | ok s' => exact exec_sat hrefl htrans hbody htx hx
      | error e => exact hrefl s
  | tick t => exact htick t s

/-- The rule for runs: what every body and every tick keeps, every run
keeps. -/
theorem runTxs_sat (hrefl : ∀ s, R s s) (htrans : ∀ {a b c}, R a b → R b c → R a c)
    (hbody : ∀ l, P l → ∀ s, (body l s).Sat R s) (htick : ∀ t s, R s (tick t s)) :
    ∀ {txs : List (Tx L T)} (s : S), (∀ tx ∈ txs, tx.All P) →
      R s (runTxs body tick txs s)
  | [], s, _ => hrefl s
  | tx :: txs, s, hall => by
      have hstep := stepTx_sat hrefl htrans hbody htick (hall tx (List.mem_cons_self ..)) s
      exact htrans hstep
        (runTxs_sat hrefl htrans hbody htick _ fun t ht => hall t (List.mem_cons_of_mem _ ht))

theorem Tx.all_true (tx : Tx L T) : tx.All fun _ => True := by
  cases tx with
  | call c => exact c.all_true
  | tick t => trivial

end Runs

end Evm
