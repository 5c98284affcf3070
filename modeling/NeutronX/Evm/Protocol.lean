import NeutronX.Evm.Script

/-!
# Protocols of programs

Which question a program may ask can depend on what it asked before and
what it was told. A `Protocol` is an automaton over questions and answers:
its states say which questions they allow and whether a program may end in
them. A program that `Obeys` one does so whatever it is told, so long as
the answers are `Honest`; there is no world in this, and what the states
mean in one is for an invariant of its runs to say.
-/

namespace Evm

/-- States `P`, moved by answers. -/
structure Protocol (Q : Type) (Ans : Q → Type) (P : Type) where
  /-- a program may end here -/
  Final : P → Prop
  Allows : P → Q → Prop
  Honest : (q : Q) → Ans q → Prop
  next : P → (q : Q) → Ans q → P

namespace Script

variable {Q P α β : Type} {Ans : Q → Type}

/-- Every question is allowed where it is asked, an error ends the program
where it may end, and the result satisfies `Post`. -/
def Obeys (A : Protocol Q Ans P) (Post : α → P → Prop) : Script Q Ans α → P → Prop
  | .done r, p => Post r p
  | .throw _, p => A.Final p
  | .ask q k, p => A.Allows p q ∧ ∀ a, A.Honest q a → (k a).Obeys A Post (A.next p q a)

variable {A : Protocol Q Ans P} {p : P}

theorem Obeys.mono {Post Post' : α → P → Prop} (hpost : ∀ a p, Post a p → Post' a p) :
    ∀ {x : Script Q Ans α} {p : P}, x.Obeys A Post p → x.Obeys A Post' p
  | .done a, p, h => hpost a p h
  | .throw _, _, h => h
  | .ask _ _, _, h => ⟨h.1, fun a ha => Obeys.mono hpost (h.2 a ha)⟩

theorem obeys_bind {Post : β → P → Prop} {f : α → Script Q Ans β} :
    ∀ {x : Script Q Ans α} {p : P}, x.Obeys A (fun a p => (f a).Obeys A Post p) p →
      (x >>= f).Obeys A Post p
  | .done _, _, h => h
  | .throw _, _, h => h
  | .ask _ _, _, h => ⟨h.1, fun a ha => obeys_bind (h.2 a ha)⟩

/-- A question in front of what depends on its answer. -/
theorem obeys_call {Post : β → P → Prop} {q : Q} {f : Ans q → Script Q Ans β}
    (hallows : A.Allows p q) (h : ∀ a, A.Honest q a → (f a).Obeys A Post (A.next p q a)) :
    (call q >>= f).Obeys A Post p :=
  obeys_bind ⟨hallows, h⟩

/-- **The frame rule.** Questions that a state allows and that leave it where
it is. -/
theorem Quiet.obeys_bind {free : Q → Prop} {Post : β → P → Prop} {f : α → Script Q Ans β}
    (hfinal : A.Final p) (hfree : ∀ q, free q → A.Allows p q ∧ ∀ a, A.next p q a = p)
    (hf : ∀ a, (f a).Obeys A Post p) :
    ∀ {x : Script Q Ans α}, x.Quiet free → (x >>= f).Obeys A Post p
  | .done a, _ => hf a
  | .throw _, _ => hfinal
  | .ask q _, h => ⟨(hfree q h.1).1, fun a _ => by
      rw [(hfree q h.1).2 a]
      exact Quiet.obeys_bind hfinal hfree hf (h.2 a)⟩

end Script

end Evm
