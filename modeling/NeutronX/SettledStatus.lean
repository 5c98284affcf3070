import NeutronX.ProcessingOrder

/-!
# The status an order settles on

In runs that process the fills of an order before what closes it, its
status is a function of its logs (`settledStatus`) once all of them are
processed, whatever the order of processing was otherwise: a fallback or a
completing fill makes it filled, else an invalidation in time makes it
cancelled, else a tick past the deadline makes it expired.
-/

namespace NeutronX

open Evm

namespace EventIndexer

variable {κ : Type} [DecidableEq κ] {hash : κ} {printed : Bool} {info : OrderInfo}

/-- The input of an order that its partial fills took. -/
def filledAmount (hash : κ) (logs : List (Log (Event κ))) : Nat :=
  ((loggedFills logs hash).map FillRow.fillAmount).sum

/-- What the events of an order make its status. -/
def settledStatus (hash : κ) (printed : Bool) (info : OrderInfo) (logs : List (Log (Event κ)))
    (expired : Bool) : OrderStatus :=
  if logs.any (isFallback hash) ||
      logs.any (isFill hash) && decide ((info.inputAmount : Nat) ≤ filledAmount hash logs) then
    .filled
  else if logs.any (cancelsInTime printed info) then .cancelled
  else if expired then .expired
  else if logs.any (isFill hash) then .active
  else .pending

/-- The order is stored, and nothing of it was processed yet. -/
structure New (hash : κ) (printed : Bool) (info : OrderInfo) (s : State κ) : Prop where
  row : HasStatus s.db hash printed info .pending
  fills : s.db.fillsOf hash = []
  applied : ∀ l ∈ s.applied, concerns hash printed info l = false

/-- A tick past the deadline of the order, since the state `s₀`. -/
def tickedPast (info : OrderInfo) (s₀ s : State κ) : Bool :=
  (s.db.ticks.take (s.db.ticks.length - s₀.db.ticks.length)).any fun t =>
    decide ((info.deadline : Nat) < t)

theorem concerns_iff {l : Log (Event κ)} : concerns hash printed info l = true ↔
    isFill hash l = true ∨ isFallback hash l = true ∨ isCancel printed info l = true := by
  simp [concerns, or_assoc]

/-- No fill of a new order has a row. -/
theorem New.unstored {s : State κ} (h : New hash printed info s) (hlaw : FillsLaw s)
    {l : Log (Event κ)} (hl : l ∈ s.logs) {filler : Address} {fillAmount outputAmount : Nat}
    (hargs : l.args = .partialFillExecuted hash filler fillAmount outputAmount) :
    ¬Stored s.db l := by
  intro hstored
  have hmem : fillRow l hash filler fillAmount outputAmount ∈ s.db.fillsOf hash :=
    Database.mem_fillsOf.mpr ⟨hlaw.row_mem hl hargs hstored, rfl⟩
  rw [h.fills] at hmem
  exact absurd hmem List.not_mem_nil

/-- Nor does a handler know their sum. -/
theorem New.tracks {s : State κ} (h : New hash printed info s) (hsourced : Indexer.Sourced s)
    (hlaw : FillsLaw s) : Tracks hash .start s .pending := by
  refine ⟨rfl, fun i l status hhand hfill => ?_⟩
  have hworks : Indexer.Works s l (.updateStatus hash status) := ⟨i, hhand⟩
  rcases (hlaw.stored.works l _ hworks).update_inv with
    ⟨_, _, _, hargs, hstored⟩ | ⟨amountIn, amountOut, hargs, -⟩
  · exact absurd hstored (h.unstored hlaw (hsourced.works hworks) hargs)
  · obtain ⟨_, _, _, hown⟩ := isFill_iff.mp hfill
    rw [hargs] at hown
    cases hown

/-- A new order obeys the law of its status. -/
theorem New.settling {s : State κ} (h : New hash printed info s) (hsourced : Indexer.Sourced s)
    (hlaw : FillsLaw s) : Settling hash printed info s.db.ticks [] s .pending := by
  refine ⟨h.row, fun l status hworks => ?_, fun l hl => ?_, trivial, rfl,
    fun _ ht => absurd ht List.not_mem_nil, ?_⟩
  · have hl := hsourced.works hworks
    rcases (hlaw.stored.works l _ hworks).update_inv with
      ⟨_, _, _, hargs, hstored⟩ | ⟨amountIn, amountOut, hargs, rfl⟩
    · exact absurd hstored (h.unstored hlaw hl hargs)
    · exact Or.inr ⟨rfl, Or.inr ⟨l, hl, isFallback_iff.mpr ⟨amountIn, amountOut, hargs⟩⟩⟩
  · have hnone : ¬concerns hash printed info l = true := by
      rw [h.applied l hl]
      exact Bool.false_ne_true
    rw [concerns_iff] at hnone
    exact appliedAs_of_not (fun hfill => hnone (Or.inl hfill))
      (fun hfallback => hnone (Or.inr (Or.inl hfallback)))
      fun hcancel => hnone (Or.inr (Or.inr hcancel))
  · rintro ⟨t, ht, -⟩
    exact absurd ht List.not_mem_nil

/-- In order, every step is prudent. -/
theorem InOrder.prudent {old : List Nat} :
    ∀ {as : List (Action κ)} {h : History} {s : State κ} {ticks : List Nat} {status : OrderStatus},
      Indexer.Sourced s → FillsLaw s → Settling hash printed info old ticks s status →
      Tracks hash h s status → InOrder hash printed info h s as →
      eventIndexer.Along (Prudent hash printed info) s as := by
  intro as
  induction as with
  | nil => exact fun _ _ _ _ _ => trivial
  | cons a as ih =>
      intro h s ticks status hsourced hlaw hsettling htracks ⟨hturn, horder⟩
      have hprudent := htracks.prudent hlaw.stored hsettling.row hturn
      have hchange := Indexer.step_change (P := eventIndexer) hsourced a
      obtain ⟨ticks', status', hsettling', -⟩ :=
        settling_change hsourced hlaw hsettling hprudent hchange
      have htracks' := htracks.step hlaw.stored hsettling.row hturn hsettling'.row
      exact ⟨hprudent, ih (Indexer.sourced_step hsourced a) (fillsLaw_change hsourced hlaw hchange)
        hsettling' htracks' horder⟩

/-- The run lemma of a status: a law of a status stays one, and a closed
order stays closed. -/
theorem settling_run {old ticks : List Nat} {s : State κ} {status : OrderStatus}
    {as : List (Action κ)} (hsourced : Indexer.Sourced s) (hlaw : FillsLaw s)
    (h : Settling hash printed info old ticks s status)
    (hprudent : eventIndexer.Along (Prudent hash printed info) s as) :
    Indexer.Sourced (eventIndexer.run s as) ∧ FillsLaw (eventIndexer.run s as) ∧
      Settles hash printed info old (eventIndexer.run s as) status := by
  refine Indexer.run_invariant_of_change
    (I := fun s => FillsLaw s ∧ Settles hash printed info old s status) ?_ hsourced
    ⟨hlaw, h.settles⟩ hprudent
  rintro s a s' hs ⟨hl, ticks', status', hsettling, hclosed⟩ hok hchange
  obtain ⟨ticks'', status'', hsettling', hclosed'⟩ := settling_change hs hl hsettling hok hchange
  exact ⟨fillsLaw_change hs hl hchange, ticks'', status'', hsettling',
    fun hwas => hclosed' (hclosed hwas)⟩

section Settled

variable {old ticks : List Nat} {s : State κ} {status : OrderStatus}

/-- All events of the order are processed. -/
def Processed (hash : κ) (printed : Bool) (info : OrderInfo) (s : State κ) : Prop :=
  ∀ l ∈ s.logs, concerns hash printed info l = true → l ∈ s.applied

/-- Without a fallback, the rows of the order are those of its fills. -/
theorem fills_perm_of_processed (hlaw : FillsLaw s)
    (hprocessed : Processed hash printed info s)
    (hfallback : s.logs.any (isFallback hash) = false) :
    (s.db.fillsOf hash).Perm (loggedFills s.logs hash) := by
  have hsource : ∀ r ∈ s.db.fillsOf hash, r.source = .filler := by
    intro r hr
    obtain ⟨hmem, hhash⟩ := Database.mem_fillsOf.mp hr
    cases hlaw.rows r hmem with
    | filler l orderHash filler fillAmount outputAmount mem args row =>
        subst row
        rfl
    | fallback logged source =>
        obtain ⟨l, hl, -, hargs⟩ := fallbackLogged_iff.mp logged
        rw [hhash] at hargs
        exact absurd (isFallback_iff.mpr hargs) (List.any_eq_false.mp hfallback l hl)
  have hall : (s.db.fillsOf hash).filter (fun r => r.source = .filler) = s.db.fillsOf hash :=
    List.filter_eq_self.mpr fun r hr => decide_eq_true (hsource r hr)
  rw [← hall]
  refine hlaw.fills_perm (fun _ hl => hl) hlaw.logIds (fun l hl hfill => ?_) fun r hr _ => ?_
  · obtain ⟨filler, fillAmount, outputAmount, hargs⟩ := isFill_iff.mp hfill
    exact hlaw.stored.applied l (hprocessed l hl (concerns_iff.mpr (Or.inl hfill))) _ _ _ _ hargs
  · exact (hlaw.rows r (Database.mem_fillsOf.mp hr).1).logged

/-- The newest fill saw all fills. -/
theorem filled_of_complete (h : Settling hash printed info old ticks s status)
    (hlaw : FillsLaw s) (hprocessed : Processed hash printed info s)
    (hperm : (s.db.fillsOf hash).Perm (loggedFills s.logs hash))
    (hfill : s.logs.any (isFill hash) = true)
    (hcomplete : (info.inputAmount : Nat) ≤ filledAmount hash s.logs) : status = .filled := by
  obtain ⟨l₀, hl₀, hfill₀⟩ := List.any_eq_true.mp hfill
  have htotal : filledAmount hash s.logs = s.db.totalFilled hash :=
    ((hperm.map _).sum_eq).symm
  cases hrows : s.db.fillsOf hash with
  | nil =>
      rw [hrows] at hperm
      obtain ⟨r, hr⟩ := Option.isSome_iff_exists.mp hfill₀
      have hmem : r ∈ loggedFills s.logs hash := List.mem_filterMap.mpr ⟨l₀, hl₀, hr⟩
      exact absurd (hperm.mem_iff.mpr hmem) List.not_mem_nil
  | cons r rest =>
      have hmem : r ∈ loggedFills s.logs hash :=
        hperm.mem_iff.mp (by rw [hrows]; exact List.mem_cons_self ..)
      obtain ⟨l, hl, hrow⟩ := List.mem_filterMap.mp hmem
      have hown : isFill hash l = true := by
        rw [isFill, hrow]
        rfl
      have happlied := hprocessed l hl (concerns_iff.mpr (Or.inl hown))
      rcases (h.applied l happlied).fill hown with
        hfilled | ⟨-, newer, older, hsplit, ⟨r', hr', hid⟩, hsum⟩
      · exact hfilled
      · -- the row of the newest fill is the first
        have hid' : r'.id = r.id := by
          obtain ⟨filler, fillAmount, outputAmount, -, rfl⟩ := fillOf_eq_some.mp hrow
          exact hid
        have hnodup : (newer ++ older).map FillRow.id |>.Nodup := by
          rw [← hsplit]
          exact hlaw.rowIds.sublist ((List.filter_sublist).map _)
        rw [hrows] at hsplit
        cases newer with
        | nil =>
            rw [List.nil_append] at hsplit
            rw [htotal, Database.totalFilled, hrows, hsplit] at hcomplete
            omega
        | cons r₁ newer =>
            obtain ⟨rfl, -⟩ := List.cons.inj hsplit
            rw [List.cons_append, List.map_cons, List.nodup_cons] at hnodup
            refine absurd (List.mem_map.mpr ⟨r', List.mem_append_right _ hr', hid'⟩) hnodup.1

/-- Without a fallback, the fills of a filled order complete it. -/
theorem complete_of_filled (h : Settling hash printed info old ticks s .filled)
    (hperm : (s.db.fillsOf hash).Perm (loggedFills s.logs hash))
    (hfallback : s.logs.any (isFallback hash) = false) :
    (s.logs.any (isFill hash) &&
      decide ((info.inputAmount : Nat) ≤ filledAmount hash s.logs)) = true := by
  rcases h.means with ⟨hne, htotal⟩ | ⟨l, hl, hown⟩
  · refine Bool.and_eq_true_iff.mpr ⟨?_, decide_eq_true ?_⟩
    · obtain ⟨r, hr⟩ := List.exists_mem_of_ne_nil _ hne
      obtain ⟨l, hl, hrow⟩ := List.mem_filterMap.mp (hperm.mem_iff.mp hr)
      exact List.any_eq_true.mpr ⟨l, hl, by rw [isFill, hrow]; rfl⟩
    · rw [filledAmount, ← (hperm.map FillRow.fillAmount).sum_eq]
      exact htotal
  · exact absurd hown (List.any_eq_false.mp hfallback l hl)

/-- Once all events of an order are processed, its status is settled. -/
theorem Settling.settled (h : Settling hash printed info old ticks s status)
    (hlaw : FillsLaw s) (hprocessed : Processed hash printed info s) :
    status = settledStatus hash printed info s.logs
      (ticks.any fun t => decide ((info.deadline : Nat) < t)) := by
  have hsaid : ∀ l ∈ s.logs, concerns hash printed info l = true →
      AppliedAs hash printed info s.db status l :=
    fun l hl hconcerns => h.applied l (hprocessed l hl hconcerns)
  unfold settledStatus
  cases hfallback : s.logs.any (isFallback hash) with
  | true =>
      obtain ⟨l, hl, hown⟩ := List.any_eq_true.mp hfallback
      rw [Bool.true_or, if_pos rfl]
      exact (hsaid l hl (concerns_iff.mpr (Or.inr (Or.inl hown)))).fallback hown
  | false =>
  have hperm := fills_perm_of_processed hlaw hprocessed hfallback
  rw [Bool.false_or]
  split
  case isTrue hcomplete =>
    rw [Bool.and_eq_true, decide_eq_true_eq] at hcomplete
    exact filled_of_complete h hlaw hprocessed hperm hcomplete.1 hcomplete.2
  case isFalse hpartial =>
  have hunfilled : status ≠ .filled := by
    rintro rfl
    exact hpartial (complete_of_filled h hperm hfallback)
  split
  case isTrue hcancels =>
    obtain ⟨l, hl, hintime⟩ := List.any_eq_true.mp hcancels
    obtain ⟨hcancel, hearly⟩ := Bool.and_eq_true_iff.mp hintime
    have hclosed := (hsaid l hl (concerns_iff.mpr (Or.inr (Or.inr hcancel)))).cancel hcancel
    have hmeans := h.means
    cases status with
    | pending => cases hclosed
    | active => cases hclosed
    | filled => exact absurd rfl hunfilled
    | cancelled => rfl
    | expired =>
        have hlate := hmeans.2 l hl hcancel
        have := of_decide_eq_true hearly
        omega
  case isFalse hcancels =>
  have huncancelled : status ≠ .cancelled := by
    rintro rfl
    obtain ⟨l, hl, hintime⟩ := h.means
    exact hcancels (List.any_eq_true.mpr ⟨l, hl, hintime⟩)
  split
  case isTrue hexpired =>
    obtain ⟨t, ht, hlate⟩ := List.any_eq_true.mp hexpired
    have hclosed := h.late ⟨t, ht, of_decide_eq_true hlate⟩
    cases status with
    | pending => cases hclosed
    | active => cases hclosed
    | filled => exact absurd rfl hunfilled
    | cancelled => exact absurd rfl huncancelled
    | expired => rfl
  case isFalse hexpired =>
  have hunexpired : status ≠ .expired := by
    rintro rfl
    obtain ⟨⟨t, ht, hlate⟩, -⟩ := h.means
    exact hexpired (List.any_eq_true.mpr ⟨t, ht, decide_eq_true hlate⟩)
  split
  case isTrue hfill =>
    obtain ⟨l, hl, hown⟩ := List.any_eq_true.mp hfill
    have hunpending : status ≠ .pending := by
      rcases (hsaid l hl (concerns_iff.mpr (Or.inl hown))).fill hown with hfilled | ⟨hmoved, -⟩
      · exact absurd hfilled hunfilled
      · exact hmoved
    cases status with
    | pending => exact absurd rfl hunpending
    | active => rfl
    | filled => exact absurd rfl hunfilled
    | cancelled => exact absurd rfl huncancelled
    | expired => exact absurd rfl hunexpired
  case isFalse hfill =>
    cases status with
    | pending => rfl
    | active =>
        obtain ⟨l, hl, hown⟩ := h.means
        exact absurd (List.any_eq_true.mpr ⟨l, hl, hown⟩) hfill
    | filled => exact absurd rfl hunfilled
    | cancelled => exact absurd rfl huncancelled
    | expired => exact absurd rfl hunexpired

end Settled

/-- **The status of an order settles**, in runs that process its fills
before what closes it. A closed order stays closed, and once all events of
the order are processed its status is the one its events make it, however
the feeds, the timer and the other writers took turns. -/
theorem status_settles {s₀ : State κ} (hreachable : Reachable s₀) {hash : κ} {printed : Bool}
    {info : OrderInfo} (hnew : New hash printed info s₀) (as bs : List (Action κ))
    (horder : InOrder hash printed info .start s₀ (as ++ bs)) :
    (∀ status, HasStatus (eventIndexer.run s₀ as).db hash printed info status →
      status.isOpen = false →
      ∃ status', HasStatus (eventIndexer.run s₀ (as ++ bs)).db hash printed info status' ∧
        status'.isOpen = false) ∧
    (Processed hash printed info (eventIndexer.run s₀ (as ++ bs)) →
      HasStatus (eventIndexer.run s₀ (as ++ bs)).db hash printed info
        (settledStatus hash printed info (eventIndexer.run s₀ (as ++ bs)).logs
          (tickedPast info s₀ (eventIndexer.run s₀ (as ++ bs))))) := by
  obtain ⟨hsourced, hlaw⟩ := hreachable.laws
  have hprudent := InOrder.prudent hsourced hlaw (hnew.settling hsourced hlaw)
    (hnew.tracks hsourced hlaw) horder
  obtain ⟨has, hbs⟩ := Indexer.Along.append hprudent
  rw [Indexer.run_append]
  obtain ⟨hsourced₁, hlaw₁, ticks₁, status₁, hsettling₁, -⟩ :=
    settling_run hsourced hlaw (hnew.settling hsourced hlaw) has
  obtain ⟨-, hlaw₂, ticks₂, status₂, hsettling₂, hclosed⟩ :=
    settling_run hsourced₁ hlaw₁ hsettling₁ hbs
  refine ⟨fun status hrow hwas => ⟨status₂, hsettling₂.row, hclosed ?_⟩, fun hprocessed => ?_⟩
  · rw [(hrow.unique hsettling₁.row).2]
    exact hwas
  · have hticks : tickedPast info s₀ (eventIndexer.run (eventIndexer.run s₀ as) bs)
        = ticks₂.any fun t => decide ((info.deadline : Nat) < t) := by
      simp [tickedPast, hsettling₂.ticks_eq]
    rw [hticks, ← hsettling₂.settled hlaw₂ hprocessed]
    exact hsettling₂.row

section Runs

/-- An order of 10, which can be filled up to block 100. -/
def orderOf10 : OrderInfo := ⟨1, 2, 10, 3, 0, 100, 0, 0, 10 ^ 18, 0, 3000⟩

def justStored : State Unit :=
  eventIndexer.run (.init 5 ⟨fun _ => none, [], []⟩) [.other (.createOrder () orderOf10 true)]

/-- The indexer starts in block 4, and in block 5 four tenths of the order
are filled and then its nonce is invalidated. -/
def filledAndCancelled : List (Action Unit) :=
  [.connect 0 .partialFill 4, .connect 0 .fallback 4, .connect 0 .cancel 4,
   .emit [(⟨2, 0⟩, .nonceInvalidated 1 0), (⟨1, 0⟩, .partialFillExecuted () 7 4 4)], .mine]

/-- The handler `i` finds nothing new in its feed. -/
def pollNothing (i : Nat) : List (Action Unit) := [.query i true, .advance i, .store i .done]

def pollFill (i : Nat) : List (Action Unit) :=
  [.query i true, .take i, .exec i .done, .exec i .done, .exec i .done, .advance i, .store i .done]

def pollCancel (i : Nat) : List (Action Unit) :=
  [.query i true, .take i, .exec i .done, .advance i, .store i .done]

/-- The handler of block 5 gets all answers. -/
def fillFirst : List (Action Unit) :=
  filledAndCancelled ++ .block 0 0 5 :: (pollFill 0 ++ pollNothing 0 ++ pollCancel 0)

/-- The handler of block 5 gets no fills. -/
def cancelFirst : List (Action Unit) :=
  filledAndCancelled ++ .block 0 0 5 :: .query 0 false :: (pollNothing 0 ++ pollCancel 0)

/-- The handler of block 6 gets the fill of block 5. -/
def thenFill : List (Action Unit) := .mine :: .block 0 1 6 :: pollFill 1

theorem status_settles_cancelled :
    HasStatus (eventIndexer.run justStored (fillFirst ++ [])).db () true orderOf10
      .cancelled := by
  have hnew : New () true orderOf10 justStored :=
    ⟨⟨false, by decide +kernel⟩, by decide +kernel, fun _ hl => absurd hl List.not_mem_nil⟩
  have horder : InOrder () true orderOf10 .start justStored (fillFirst ++ []) := by
    decide +kernel
  have hprocessed :
      Processed () true orderOf10 (eventIndexer.run justStored (fillFirst ++ [])) := by
    unfold Processed
    decide +kernel
  obtain ⟨-, hsettled⟩ := status_settles ⟨5, _, rfl⟩ hnew fillFirst [] horder
  have hstatus : settledStatus () true orderOf10
      (eventIndexer.run justStored (fillFirst ++ [])).logs
      (tickedPast orderOf10 justStored (eventIndexer.run justStored (fillFirst ++ [])))
        = .cancelled := by
    decide +kernel
  rw [← hstatus]
  exact hsettled hprocessed

/-- The same events leave the order cancelled when they are processed in
the order they were logged in, and active, though it was cancelled before,
when the poll for the fill fails once. All queries but that one, and all
statements, are answered. -/
theorem cancelled_order_active_again :
    (eventIndexer.run justStored fillFirst).db.orders ()
      = some ⟨orderOf10, true, .cancelled, false⟩ ∧
    (eventIndexer.run justStored cancelFirst).db.orders ()
      = some ⟨orderOf10, true, .cancelled, false⟩ ∧
    (eventIndexer.run justStored (cancelFirst ++ thenFill)).db.orders ()
      = some ⟨orderOf10, true, .active, false⟩ ∧
    (eventIndexer.run justStored (cancelFirst ++ thenFill)).logs
      = (eventIndexer.run justStored fillFirst).logs ∧
    (∀ l ∈ (eventIndexer.run justStored fillFirst).logs,
      l ∈ (eventIndexer.run justStored fillFirst).applied ∧
      l ∈ (eventIndexer.run justStored (cancelFirst ++ thenFill)).applied) := by
  decide +kernel

end Runs

end EventIndexer

end NeutronX
