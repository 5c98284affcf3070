import NeutronX.Checkpoints
import NeutronX.Evm.Precedence
import NeutronX.RegistrationLogs

/-!
# The rows of the registration indexer

What a row records of a registration is what the events say that were
applied to its key (`Mirrored`): the amounts it was registered with, and of
each kind of event that ended it the amount of that kind. An update of a row
that is not there yet would be lost, but none is: the events that end a
registration are applied after it (`InOrder`), though they are not handled in
the order of the chain.
-/

namespace NeutronX

open Evm Function

namespace RegistrationIndexer

variable {κ : Type}

/-! ## What a row records -/

/-- The status of a row, and its amounts. -/
structure Figures where
  status : RegistrationStatus
  fillAmount : Nat
  stakeAmount : Nat
  refundAmount : Option Nat
  forfeitedAmount : Option Nat
  slashedReward : Option Nat
deriving DecidableEq

def RegistrationRow.figures (r : RegistrationRow) : Figures :=
  ⟨r.status, r.fillAmount, r.stakeAmount, r.refundAmount, r.forfeitedAmount, r.slashedReward⟩

def registeredOf : Event κ → Option (Nat × Nat)
  | .registered _ _ fillAmount stake => some (fillAmount, stake)
  | .slashed .. => none
  | .stakeReturned .. => none
  | .stakeForfeited .. => none
  | .stakeReleased .. => none

def statusOf : Event κ → Option RegistrationStatus
  | .registered .. => none
  | .slashed .. => some .slashed
  | .stakeReturned .. => some .filled
  | .stakeForfeited .. => none
  | .stakeReleased .. => some .released

def refundOf : Event κ → Option Nat
  | .registered .. => none
  | .slashed .. => none
  | .stakeReturned _ _ refund => some refund
  | .stakeForfeited .. => none
  | .stakeReleased .. => none

def forfeitOf : Event κ → Option Nat
  | .registered .. => none
  | .slashed .. => none
  | .stakeReturned .. => none
  | .stakeForfeited _ _ amount => some amount
  | .stakeReleased .. => none

def rewardOf : Event κ → Option Nat
  | .registered .. => none
  | .slashed _ _ _ _ reward => some reward
  | .stakeReturned .. => none
  | .stakeForfeited .. => none
  | .stakeReleased .. => none

/-- A new row. -/
def Figures.fresh (fillAmount stake : Nat) : Figures :=
  ⟨.active, fillAmount, stake, none, none, none⟩

def Figures.after (g : Figures) (e : Event κ) : Figures :=
  { g with
    status := (statusOf e).getD g.status
    refundAmount := (refundOf e).or g.refundAmount
    forfeitedAmount := (forfeitOf e).or g.forfeitedAmount
    slashedReward := (rewardOf e).or g.slashedReward }

/-- What the statement for an event makes of the row of its key. -/
def written (e : Event κ) : Option Figures → Option Figures
  | some g => some (g.after e)
  | none => (registeredOf e).map fun a => .fresh a.1 a.2

section Statements

variable [DecidableEq κ]

/-- What is recorded under a key. -/
def Database.figures (db : Database κ) (x : κ × Address) : Option Figures :=
  (db.registrations x).map RegistrationRow.figures

/-- A statement writes to the row of its key. -/
theorem exec_figures {l : Log (Event κ)} {db db' : Database κ} {next : Option (Log (Event κ))}
    (h : exec l db = some (db', next)) :
    db'.figures l.args.key = written l.args (db.figures l.args.key) ∧
    ∀ x, x ≠ l.args.key → db'.figures x = db.figures x := by
  have hupdate : ∀ (orderHash : κ) (filler : Address) (set : RegistrationRow → RegistrationRow),
      (db.update orderHash filler set).figures (orderHash, filler)
        = ((db.registrations (orderHash, filler)).map set).map RegistrationRow.figures ∧
      ∀ x, x ≠ (orderHash, filler) →
        (db.update orderHash filler set).figures x = db.figures x := by
    intro orderHash filler set
    refine ⟨by simp [Database.figures, Database.update, Sql.Table.updateWhere], fun x hx => ?_⟩
    simp [Database.figures, Database.update, Sql.Table.updateWhere, hx]
  obtain ⟨id, blockNumber, args⟩ := l
  cases args with
  | registered filler orderHash fillAmount stake =>
      obtain ⟨db₁, hinsert, heq⟩ := Option.map_eq_some_iff.mp h
      cases heq
      simp only [Event.key]
      unfold Database.insertRegistration at hinsert
      split at hinsert
      · rename_i hthere
        cases hinsert
        obtain ⟨r, hr⟩ := Option.isSome_iff_exists.mp hthere
        refine ⟨?_, fun _ _ => rfl⟩
        rw [Database.figures, hr]
        rfl
      · rename_i hnone
        split at hinsert
        · cases hinsert
          rw [Option.not_isSome_iff_eq_none] at hnone
          refine ⟨?_, fun x hx => ?_⟩
          · simp [Database.figures, Sql.Table.insert, hnone]
            rfl
          · simp [Database.figures, Sql.Table.insert, update_of_ne hx]
        · cases hinsert
  | slashed filler orderHash stake caller reward =>
      cases h
      refine ⟨(hupdate orderHash filler _).1.trans ?_, (hupdate orderHash filler _).2⟩
      rw [Database.figures, Event.key]
      cases db.registrations (orderHash, filler) <;> rfl
  | stakeReturned filler orderHash refund =>
      cases h
      refine ⟨(hupdate orderHash filler _).1.trans ?_, (hupdate orderHash filler _).2⟩
      rw [Database.figures, Event.key]
      cases db.registrations (orderHash, filler) <;> rfl
  | stakeForfeited filler orderHash amount =>
      cases h
      refine ⟨(hupdate orderHash filler _).1.trans ?_, (hupdate orderHash filler _).2⟩
      rw [Database.figures, Event.key]
      cases db.registrations (orderHash, filler) <;> rfl
  | stakeReleased filler orderHash amount =>
      cases h
      refine ⟨(hupdate orderHash filler _).1.trans ?_, (hupdate orderHash filler _).2⟩
      rw [Database.figures, Event.key]
      cases db.registrations (orderHash, filler) <;> rfl

end Statements

/-! ## Rows and events -/

/-- A field has the value one of the events gives it, or none of them does. -/
structure Records {α : Type} (value : Option α) (pick : Event κ → Option α)
    (es : List (Event κ)) : Prop where
  given : ∀ a, value = some a → ∃ e ∈ es, pick e = some a
  unset : value = none → ∀ e ∈ es, pick e = none

theorem Records.cons {α : Type} {value : Option α} {pick : Event κ → Option α}
    {es : List (Event κ)} (h : Records value pick es) (e : Event κ) :
    Records ((pick e).or value) pick (e :: es) := by
  cases hpick : pick e with
  | some a =>
      refine ⟨fun b hb => ⟨e, List.mem_cons_self .., hpick.trans hb⟩, fun hnone => ?_⟩
      cases hnone
  | none =>
      rw [Option.none_or]
      refine ⟨fun a ha => ?_, fun hnone e' he' => ?_⟩
      · obtain ⟨e', he', ha'⟩ := h.given a ha
        exact ⟨e', List.mem_cons_of_mem _ he', ha'⟩
      · rcases List.mem_cons.mp he' with rfl | he'
        · exact hpick
        · exact h.unset hnone e' he'

theorem Records.congr {α : Type} {value : Option α} {pick : Event κ → Option α}
    {es es' : List (Event κ)} (h : Records value pick es) (heq : ∀ e, e ∈ es ↔ e ∈ es') :
    Records value pick es' := by
  refine ⟨fun a ha => ?_, fun hnone e he => h.unset hnone e ((heq e).mpr he)⟩
  obtain ⟨e, he, hpick⟩ := h.given a ha
  exact ⟨e, (heq e).mp he, hpick⟩

/-- How a registration ended. -/
def RegistrationStatus.ending : RegistrationStatus → Option RegistrationStatus
  | .active => none
  | .filled => some .filled
  | .slashed => some .slashed
  | .released => some .released

theorem ending_getD (e : Event κ) (status : RegistrationStatus) :
    ((statusOf e).getD status).ending = (statusOf e).or status.ending := by
  cases e <;> rfl

/-- What a row records are the events of its key. -/
structure FiguresLaw (g : Figures) (es : List (Event κ)) : Prop where
  registered : ∃ e ∈ es, registeredOf e = some (g.fillAmount, g.stakeAmount)
  status : Records g.status.ending statusOf es
  refund : Records g.refundAmount refundOf es
  forfeit : Records g.forfeitedAmount forfeitOf es
  reward : Records g.slashedReward rewardOf es

/-- There is a row if the registration was applied, and it records what
was. -/
def Mirrored : Option Figures → List (Event κ) → Prop
  | none, es => ∀ e ∈ es, isRegistered e = false
  | some g, es => FiguresLaw g es

theorem Mirrored.congr {g : Option Figures} {es es' : List (Event κ)} (h : Mirrored g es)
    (heq : ∀ e, e ∈ es ↔ e ∈ es') : Mirrored g es' := by
  cases g with
  | none => exact fun e he => h e ((heq e).mpr he)
  | some g =>
      obtain ⟨e, he, hregistered⟩ := h.registered
      exact ⟨⟨e, (heq e).mp he, hregistered⟩, h.status.congr heq, h.refund.congr heq,
        h.forfeit.congr heq, h.reward.congr heq⟩

/-- A registration is applied before anything else of its key. -/
theorem Mirrored.written {g : Option Figures} {es : List (Event κ)} (h : Mirrored g es)
    {e : Event κ}
    (hfirst : g = none → isRegistered e = true → ∀ e' ∈ es, isRegistered e' = true) :
    Mirrored (written e g) (e :: es) := by
  cases g with
  | some g =>
      obtain ⟨e', he', hregistered⟩ := h.registered
      refine ⟨⟨e', List.mem_cons_of_mem _ he', hregistered⟩, ?_, h.refund.cons e,
        h.forfeit.cons e, h.reward.cons e⟩
      simp only [Figures.after, ending_getD]
      exact h.status.cons e
  | none =>
      cases hcase : isRegistered e with
      | true =>
          -- nothing was applied, registrations or others
          have hnil : es = [] := by
            refine List.eq_nil_iff_forall_not_mem.mpr fun e' he' => ?_
            have htrue := hfirst rfl hcase e' he'
            rw [h e' he'] at htrue
            cases htrue
          subst hnil
          cases e with
          | registered filler orderHash fillAmount stake =>
              have hnone : ∀ {α : Type} {pick : Event κ → Option α},
                  pick (.registered filler orderHash fillAmount stake) = none →
                  Records none pick [.registered filler orderHash fillAmount stake] := by
                intro α pick hpick
                refine ⟨fun a ha => (by cases ha), fun _ e he => ?_⟩
                rw [List.mem_singleton.mp he]
                exact hpick
              exact ⟨⟨_, List.mem_singleton_self _, rfl⟩, hnone rfl, hnone rfl, hnone rfl,
                hnone rfl⟩
          | slashed filler orderHash stake caller reward => cases hcase
          | stakeReturned filler orderHash refund => cases hcase
          | stakeForfeited filler orderHash amount => cases hcase
          | stakeReleased filler orderHash amount => cases hcase
      | false =>
          have hwritten : RegistrationIndexer.written e none = none := by
            cases e with
            | registered filler orderHash fillAmount stake => cases hcase
            | slashed filler orderHash stake caller reward => rfl
            | stakeReturned filler orderHash refund => rfl
            | stakeForfeited filler orderHash amount => rfl
            | stakeReleased filler orderHash amount => rfl
          rw [hwritten]
          intro e' he'
          rcases List.mem_cons.mp he' with rfl | he'
          · exact hcase
          · exact h e' he'

/-! ## The order of the events -/

/-- What ends a registration needs it. -/
def Needs (t r : Event κ) : Prop :=
  isRegistered t = false ∧ isRegistered r = true ∧ t.key = r.key

variable [DecidableEq κ]

theorem filteredFirst : (registrationIndexer (κ := κ)).FilteredFirst Needs := by
  rintro t r ⟨ht, hr, -⟩
  refine ⟨[isRegistered], [isStakeReturned, isStakeForfeited, isSlashed, isStakeReleased], rfl,
    ⟨isRegistered, List.mem_singleton_self _, hr⟩, fun filter hfilter => ?_⟩
  rw [List.mem_singleton.mp hfilter]
  exact ht

theorem watches_all (e : Event κ) : (registrationIndexer (κ := κ)).Watches () e := by
  cases e with
  | registered filler orderHash fillAmount stake =>
      exact ⟨isRegistered, by simp [registrationIndexer], rfl⟩
  | slashed filler orderHash stake caller reward =>
      exact ⟨isSlashed, by simp [registrationIndexer], rfl⟩
  | stakeReturned filler orderHash refund =>
      exact ⟨isStakeReturned, by simp [registrationIndexer], rfl⟩
  | stakeForfeited filler orderHash amount =>
      exact ⟨isStakeForfeited, by simp [registrationIndexer], rfl⟩
  | stakeReleased filler orderHash amount =>
      exact ⟨isStakeReleased, by simp [registrationIndexer], rfl⟩

/-- The feed started before the registration of the key. -/
def Watched (s : State κ) (x : κ × Address) : Prop :=
  ∀ o, s.startBlock () = some o → ∀ l ∈ s.logs, l.args.key = x → isRegistered l.args = true →
    o < l.blockNumber

instance (s : State κ) (x : κ × Address) : Decidable (Watched s x) :=
  match h : s.startBlock () with
  | none => isTrue fun o ho => by
      rw [h] at ho
      cases ho
  | some o =>
      decidable_of_iff (∀ l ∈ s.logs, l.args.key = x → isRegistered l.args = true →
          o < l.blockNumber) (by
        constructor
        · intro hall o' ho'
          obtain rfl : o = o' := Option.some.inj (h.symm.trans ho')
          exact hall
        · exact fun hall => hall o h)

/-- The events of a key that were applied. -/
def appliedTo (s : State κ) (x : κ × Address) : List (Event κ) :=
  storyOf x (s.applied.map Log.args)

theorem mem_appliedTo {s : State κ} {x : κ × Address} {e : Event κ} :
    e ∈ appliedTo s x ↔ ∃ l ∈ s.applied, l.args = e ∧ e.key = x := by
  simp only [appliedTo, mem_storyOf, List.mem_map]
  constructor
  · rintro ⟨⟨l, hl, heq⟩, hkey⟩
    exact ⟨l, hl, heq, hkey⟩
  · rintro ⟨l, hl, heq, hkey⟩
    exact ⟨⟨l, hl, heq⟩, hkey⟩

/-- What holds of the indexer in runs whose statements are executed and
answered. -/
structure IndexerLaw (s : State κ) : Prop where
  sourced : Indexer.Sourced s
  covered : registrationIndexer.Covered s
  inOrder : registrationIndexer.InOrder Needs s
  statements : RowLaw s
  rows : ∀ x, Watched s x → Mirrored (s.db.figures x) (appliedTo s x)

theorem indexerLaw_init (number : Nat) (orders : κ → Bool) :
    IndexerLaw (.init number ⟨orders, fun _ => none⟩ : State κ) :=
  ⟨Indexer.sourced_init _ _, Indexer.covered_init _ _, Indexer.inOrder_init _ _,
    rowLaw_init _ _, fun _ _ _ he => absurd he List.not_mem_nil⟩

/-- The rows after a statement. -/
theorem rows_executed {s : State κ} (h : IndexerLaw s) {l : Log (Event κ)} (hlogs : l ∈ s.logs)
    {db : Database κ} {next : Option (Log (Event κ))} (hexec : exec l s.db = some (db, next))
    {x : κ × Address} (hwatched : Watched s x) :
    Mirrored (db.figures x) (storyOf x ((l :: s.applied).map Log.args)) := by
  obtain ⟨hthere, hothers⟩ := exec_figures hexec
  have hrow := h.rows x hwatched
  rw [List.map_cons]
  by_cases hkey : l.args.key = x
  · subst hkey
    rw [hthere, storyOf_cons_self rfl]
    refine hrow.written fun hnone hregistered e he => ?_
    -- what needs the registration was not applied before it
    obtain ⟨l', hl', rfl, hkey'⟩ := mem_appliedTo.mp he
    by_contra hends
    rw [Bool.not_eq_true] at hends
    have happlied := h.inOrder.applied l' hl' l ⟨hends, hregistered, hkey'⟩
      ⟨hlogs, watches_all _, fun o ho => hwatched o ho l hlogs rfl hregistered⟩
    rw [hnone] at hrow
    have hfalse := hrow _ (mem_appliedTo.mpr ⟨l, happlied, rfl, rfl⟩)
    rw [hregistered] at hfalse
    cases hfalse
  · rw [hothers x (Ne.symm hkey), storyOf_cons_of_ne hkey]
    exact hrow

/-- The step lemma of the rows. -/
theorem indexerLaw_step {s : State κ} (h : IndexerLaw s)
    {a : Indexer.Action Unit (Event κ) κ} (ha : registrationIndexer.Smooth s a)
    (hnew : Indexer.NewUnneeded Needs s a) : IndexerLaw (registrationIndexer.step s a) := by
  have hchange := Indexer.step_change (P := registrationIndexer (κ := κ)) h.sourced a
  have hstarted : ∀ x, Watched (registrationIndexer.step s a) x →
      (∀ l ∈ s.logs, l ∈ (registrationIndexer.step s a).logs) → Watched s x := by
    intro x hwatched hlogs o ho l hl
    exact hwatched o (Indexer.startBlock_step h.covered a ho) l (hlogs l hl)
  refine ⟨Indexer.sourced_step h.sourced a, Indexer.covered_step s a h.covered ha,
    Indexer.inOrder_step filteredFirst h.sourced h.covered h.inOrder ha hnew,
    rowLaw_change h.statements hchange, fun x hwatched => ?_⟩
  have hsame : (∀ l ∈ s.logs, l ∈ (registrationIndexer.step s a).logs) →
      (registrationIndexer.step s a).db.registrations = s.db.registrations →
      (registrationIndexer.step s a).applied = s.applied →
      Mirrored ((registrationIndexer.step s a).db.figures x)
        (appliedTo (registrationIndexer.step s a) x) := by
    intro hlogs hdb happlied
    rw [Database.figures, hdb, appliedTo, happlied]
    exact h.rows x (hstarted x hwatched hlogs)
  cases hchange with
  | quiet number logs db applied works =>
      exact hsame (by rw [logs]; exact fun _ hl => hl) (by rw [db]) applied
  | emitted events action ids fresh number logs db applied works =>
      exact hsame (by rw [logs]; exact fun _ hl => List.mem_append_right _ hl) (by rw [db]) applied
  | other w action hs' =>
      rw [hs'] at hsame ⊢
      exact hsame (fun _ hl => hl) rfl rfl
  | executed i outcome action answered l j next hand number logs hexec applied works =>
      obtain rfl := h.statements.works l j ⟨i, hand⟩
      have hlogs : j ∈ s.logs := h.sourced.works ⟨i, hand⟩
      have hw := hstarted x hwatched (by rw [logs]; exact fun _ hl => hl)
      have hadded : (registrationIndexer.step s a).applied = j :: s.applied := by
        subst action
        obtain ⟨_, _, _, _, db, next', -, hexec', heq⟩ := Indexer.execute_done ha hand
        obtain rfl := (exec_spec hexec').1
        rw [Indexer.step, heq]
        rfl
      rw [appliedTo, hadded]
      exact rows_executed h hlogs hexec hw

end RegistrationIndexer

end NeutronX
