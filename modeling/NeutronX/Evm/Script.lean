import Mathlib.Logic.Relation

/-!
# Programs that ask

A program that runs beside a world it does not own: it asks one question
at a time and goes on with the answer. A question may change the world,
and the world moves on between any two of them. Any number of such
programs run at once, and each can stop at any question (`Running`).

A `Setting` says what the world keeps, what can have happened by the time
of the next question, which answers there are, and which questions may be
asked when. `Safe` is then a property of a program and a world:
whatever happens and whatever is answered, each question is asked when it
may be. `Running.safe` lifts it to all programs of a run.
-/

namespace Evm

/-- Questions `Q`, their answers, and a result. -/
inductive Script (Q : Type) (Ans : Q → Type) (ρ : Type) where
  | done (r : ρ)
  | throw (message : String)
  | ask (q : Q) (k : Ans q → Script Q Ans ρ)

namespace Script

variable {W Q α β : Type} {Ans : Q → Type}

def bind (x : Script Q Ans α) (f : α → Script Q Ans β) : Script Q Ans β :=
  match x with
  | .done a => f a
  | .throw message => .throw message
  | .ask q k => .ask q fun a => (k a).bind f

instance : Monad (Script Q Ans) where
  pure := .done
  bind := bind

/-- One question. -/
def call (q : Q) : Script Q Ans (Ans q) := .ask q .done

def ensure (c : Prop) [Decidable c] (message : String) : Script Q Ans Unit :=
  if c then .done () else .throw message

/-- The question the program waits with. -/
def pending : Script Q Ans α → Option Q
  | .ask q _ => some q
  | _ => none

/-- The program after a dialogue, if these were its questions. -/
def feed [DecidableEq Q] : Script Q Ans α → List (Sigma Ans) → Option (Script Q Ans α)
  | x, [] => some x
  | .ask q k, ⟨q', a⟩ :: dialogue => if h : q' = q then (k (h ▸ a)).feed dialogue else none
  | _, _ :: _ => none

/-! ## Settings -/

structure Setting (W Q : Type) (Ans : Q → Type) where
  Inv : W → Prop
  /-- what other programs and the world itself may have made of it -/
  Later : W → W → Prop
  Answers : W → (q : Q) → Ans q → W → Prop
  /-- the question may be asked -/
  Asked : W → Q → Prop

structure Setting.Lawful (S : Setting W Q Ans) : Prop where
  refl : ∀ w, S.Later w w
  trans : ∀ {w w₁ w₂}, S.Later w w₁ → S.Later w₁ w₂ → S.Later w w₂
  answers : ∀ {w q a w'}, S.Inv w → S.Answers w q a w' → S.Inv w' ∧ S.Later w w'

/-- Every question is asked when it may be, and the result satisfies `Post`. -/
def Safe (S : Setting W Q Ans) (Post : α → W → Prop) : Script Q Ans α → W → Prop
  | .done r, w => Post r w
  | .throw _, _ => True
  | .ask q k, w => ∀ w₁, S.Later w w₁ → S.Inv w₁ →
      S.Asked w₁ q ∧ ∀ a w₂, S.Answers w₁ q a w₂ → (k a).Safe S Post w₂

variable {S : Setting W Q Ans} {Post : α → W → Prop} {w w' : W}

theorem Safe.mono {Post' : α → W → Prop} (hpost : ∀ a w, Post a w → Post' a w) :
    ∀ {x : Script Q Ans α} {w : W}, x.Safe S Post w → x.Safe S Post' w
  | .done a, w, h => hpost a w h
  | .throw _, _, _ => trivial
  | .ask _ _, _, h => fun w₁ hlater hinv =>
      ⟨(h w₁ hlater hinv).1, fun a w₂ ha => Safe.mono hpost ((h w₁ hlater hinv).2 a w₂ ha)⟩

theorem safe_bind {Post : β → W → Prop} {f : α → Script Q Ans β} :
    ∀ {x : Script Q Ans α} {w : W}, x.Safe S (fun a w => (f a).Safe S Post w) w →
      (x >>= f).Safe S Post w
  | .done _, _, h => h
  | .throw _, _, _ => trivial
  | .ask _ _, _, h => fun w₁ hlater hinv =>
      ⟨(h w₁ hlater hinv).1, fun a w₂ ha => safe_bind ((h w₁ hlater hinv).2 a w₂ ha)⟩

/-- Every question of the program satisfies `free`. -/
def Quiet (free : Q → Prop) : Script Q Ans α → Prop
  | .done _ => True
  | .throw _ => True
  | .ask q k => free q ∧ ∀ a, (k a).Quiet free

variable {free : Q → Prop}

theorem quiet_bind {f : α → Script Q Ans β} (hf : ∀ a, (f a).Quiet free) :
    ∀ {x : Script Q Ans α}, x.Quiet free → (x >>= f).Quiet free
  | .done a, _ => hf a
  | .throw _, _ => trivial
  | .ask _ _, h => ⟨h.1, fun a => quiet_bind hf (h.2 a)⟩

theorem quiet_call {q : Q} (hq : free q) : (call q : Script Q Ans _).Quiet free :=
  ⟨hq, fun _ => trivial⟩

theorem quiet_ensure (c : Prop) [Decidable c] (message : String) :
    (ensure c message : Script Q Ans Unit).Quiet free := by
  unfold ensure
  split <;> trivial

/-- **The frame rule.** A quiet program in front of one that starts from
what time keeps. -/
theorem Quiet.safe_bind (hS : S.Lawful) (hfree : ∀ w q, free q → S.Asked w q) {F : W → Prop}
    (hF : ∀ {w w'}, F w → S.Later w w' → F w') {Post : β → W → Prop} {f : α → Script Q Ans β}
    (hf : ∀ a w, F w → (f a).Safe S Post w) :
    ∀ {x : Script Q Ans α} {w : W}, x.Quiet free → F w → (x >>= f).Safe S Post w
  | .done a, w, _, hw => hf a w hw
  | .throw _, _, _, _ => trivial
  | .ask q _, _, h, hw => fun w₁ hlater hinv =>
      ⟨hfree w₁ q h.1, fun a _ ha => Quiet.safe_bind hS hfree hF hf (h.2 a)
        (hF (hF hw hlater) (hS.answers hinv ha).2)⟩

end Script

/-! ## Programs at once -/

/-- A world and the programs that run beside it. -/
structure Running (W Q : Type) (Ans : Q → Type) (ρ : Type) where
  world : W
  tasks : List (Script Q Ans ρ)

namespace Running

open Script

variable {W Q ρ : Type} {Ans : Q → Type}

/-- The world moves, a program starts, a question is answered, or programs
stop where they are. -/
inductive Step (Env : W → W → Prop) (Answers : W → (q : Q) → Ans q → W → Prop)
    (Starts : Script Q Ans ρ → Prop) : Running W Q Ans ρ → Running W Q Ans ρ → Prop
  | world (s) (w : W) (h : Env s.world w) : Step Env Answers Starts s ⟨w, s.tasks⟩
  | start (s) (x : Script Q Ans ρ) (h : Starts x) :
      Step Env Answers Starts s ⟨s.world, x :: s.tasks⟩
  | answer (s) (before after : List (Script Q Ans ρ)) (q : Q) (k : Ans q → Script Q Ans ρ)
      (a : Ans q) (w : W) (htasks : s.tasks = before ++ .ask q k :: after)
      (h : Answers s.world q a w) : Step Env Answers Starts s ⟨w, before ++ k a :: after⟩
  | stop (s) (tasks : List (Script Q Ans ρ)) (h : tasks.Sublist s.tasks) :
      Step Env Answers Starts s ⟨s.world, tasks⟩

/-- The answers of a dialogue, one after the other. -/
def Heard (Answers : W → (q : Q) → Ans q → W → Prop) : W → List (Sigma Ans) → W → Prop
  | w, [], w' => w' = w
  | w, ⟨q, a⟩ :: dialogue, w' => ∃ w₁, Answers w q a w₁ ∧ Heard Answers w₁ dialogue w'

/-- A dialogue with the newest program is a run. -/
theorem feed_steps [DecidableEq Q] {Env : W → W → Prop}
    {Answers : W → (q : Q) → Ans q → W → Prop} {Starts : Script Q Ans ρ → Prop}
    {tasks : List (Script Q Ans ρ)} :
    ∀ {dialogue : List (Sigma Ans)} {x y : Script Q Ans ρ} {w w' : W},
      x.feed dialogue = some y → Heard Answers w dialogue w' →
        Relation.ReflTransGen (Step Env Answers Starts) ⟨w, x :: tasks⟩ ⟨w', y :: tasks⟩
  | [], x, y, w, w', hfeed, hheard => by
      obtain rfl : x = y := by simpa [feed] using hfeed
      obtain rfl : w' = w := hheard
      exact .refl
  | ⟨q', a⟩ :: dialogue, .ask q k, y, w, w', hfeed, hheard => by
      obtain ⟨w₁, hanswer, hrest⟩ := hheard
      by_cases hq : q' = q
      · subst hq
        exact .head (.answer ⟨w, .ask q' k :: tasks⟩ [] tasks q' k a w₁ rfl hanswer)
          (feed_steps (by simpa [feed] using hfeed) hrest)
      · simp [feed, hq] at hfeed
  | _ :: _, .done _, _, _, _, hfeed, _ => by simp [feed] at hfeed
  | _ :: _, .throw _, _, _, _, hfeed, _ => by simp [feed] at hfeed

/-- The invariant of the world, and every program is safe in it. -/
def Sound (S : Setting W Q Ans) (s : Running W Q Ans ρ) : Prop :=
  S.Inv s.world ∧ ∀ x ∈ s.tasks, x.Safe S (fun _ _ => True) s.world

variable {S : Setting W Q Ans} {Env : W → W → Prop} {Starts : Script Q Ans ρ → Prop}
  {s s' : Running W Q Ans ρ}

theorem safe_later (hS : S.Lawful) {w w' : W} (hlater : S.Later w w') {x : Script Q Ans ρ}
    (h : x.Safe S (fun _ _ => True) w) : x.Safe S (fun _ _ => True) w' := by
  cases x with
  | done | throw => trivial
  | ask q k => exact fun w₁ hnext hinv => h w₁ (hS.trans hlater hnext) hinv

/-- **The rule for programs at once.** -/
theorem sound_step (hS : S.Lawful)
    (henv : ∀ {w w'}, S.Inv w → Env w w' → S.Inv w' ∧ S.Later w w')
    (hstarts : ∀ {x w}, Starts x → S.Inv w → x.Safe S (fun _ _ => True) w)
    (hs : Sound S s) (h : Step Env S.Answers Starts s s') : Sound S s' := by
  obtain ⟨hinv, hsafe⟩ := hs
  cases h with
  | world w h =>
      obtain ⟨hinv', hlater⟩ := henv hinv h
      exact ⟨hinv', fun x hx => safe_later hS hlater (hsafe x hx)⟩
  | start x h =>
      refine ⟨hinv, fun y hy => ?_⟩
      rcases List.mem_cons.mp hy with rfl | hy
      · exact hstarts h hinv
      · exact hsafe y hy
  | answer before after q k a w htasks h =>
      obtain ⟨hinv', hlater⟩ := hS.answers hinv h
      have hasked := hsafe (.ask q k) (by simp [htasks]) s.world (hS.refl _) hinv
      refine ⟨hinv', fun x hx => ?_⟩
      simp only [List.mem_append, List.mem_cons] at hx
      rcases hx with hx | rfl | hx
      · exact safe_later hS hlater (hsafe x (by simp [htasks, hx]))
      · exact hasked.2 a w h
      · exact safe_later hS hlater (hsafe x (by simp [htasks, hx]))
  | stop tasks h => exact ⟨hinv, fun x hx => hsafe x (h.subset hx)⟩

theorem sound_steps (hS : S.Lawful)
    (henv : ∀ {w w'}, S.Inv w → Env w w' → S.Inv w' ∧ S.Later w w')
    (hstarts : ∀ {x w}, Starts x → S.Inv w → x.Safe S (fun _ _ => True) w)
    (hs : Sound S s) (h : Relation.ReflTransGen (Step Env S.Answers Starts) s s') :
    Sound S s' := by
  induction h with
  | refl => exact hs
  | tail _ hstep ih => exact sound_step hS henv hstarts ih hstep

/-- A question that waits may be asked. -/
theorem Sound.asked (hS : S.Lawful) (hs : Sound S s) {x : Script Q Ans ρ} {q : Q}
    (htask : x ∈ s.tasks) (hq : x.pending = some q) : S.Asked s.world q := by
  cases x with
  | done | throw => simp [pending] at hq
  | ask q' k =>
      obtain rfl : q' = q := by simpa [pending] using hq
      exact (hs.2 _ htask s.world (hS.refl _) hs.1).1

end Running

end Evm
