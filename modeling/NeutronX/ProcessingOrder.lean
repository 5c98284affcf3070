import NeutronX.StatusSteps

/-!
# The order in which events are processed

What decides whether a closed order becomes active again is which events of
it were processed before which. A `History` records that beside a run: was
an event processed that closes the order, and is the sum that a handler has
read of its fills older than that? The row is not asked.

Where fills come before what closes their order (`InOrder`), the history
tells whether the row is open (`Tracks`), and every step is prudent.
-/

namespace NeutronX

open Evm Function

namespace EventIndexer

variable {κ : Type} [DecidableEq κ]

/-- What was processed of an order. -/
structure History where
  /-- an event that closes it -/
  closed : Bool
  /-- the sum this handler has read is below the order's input -/
  below : Nat → Bool
  /-- since it was read, an event that closes the order was processed -/
  outdated : Nat → Bool

namespace History

def start : History := ⟨false, fun _ => false, fun _ => false⟩

def close (h : History) : History := { h with closed := true, outdated := fun _ => true }

/-- A handler reads the sum of the fills. -/
def read (h : History) (i : Nat) (below : Bool) : History :=
  { h with below := update h.below i below, outdated := update h.outdated i false }

end History

section Order

variable (hash : κ) (printed : Bool) (info : OrderInfo)

/-- The statement a handler executes. A fallback closes the order, and so do
an invalidation of its nonce and a fill after which the sum has reached the
input. -/
def History.executed (h : History) (s : State κ) (i : Nat) : History :=
  match s.inHand i with
  | some (_, .selectFilled orderHash) =>
      if orderHash = hash then h.read i (decide (s.db.totalFilled hash < info.inputAmount)) else h
  | some (l, .updateStatus orderHash _) =>
      if orderHash = hash ∧ (isFallback hash l = true ∨ h.below i = false) then h.close else h
  | some (l, .cancelNonce _ _) => if isCancel printed info l = true then h.close else h
  | some (_, .insertFill _) => h
  | none => h

/-- The history after an action. -/
def History.next (h : History) (s : State κ) : Action κ → History
  | .exec i outcome => if outcome = .failed then h else h.executed hash printed info s i
  | .other (.expire currentBlock) =>
      if currentBlock < s.number ∧ (info.deadline : Nat) < currentBlock then h.close else h
  | .other (.setFallback orderHash id) =>
      if orderHash = hash ∧ fallbackLogged s.logs orderHash id = true then h.close else h
  | .other (.cancelOrder orderHash) => if orderHash = hash then h.close else h
  | _ => h

/-- The statement is not late. The sum of the fills is read before the order
was closed, or is the whole input; if it was below the input, its handler
writes a status before the order is closed. An invalidation that was logged
after the deadline is processed after another event closed the order. -/
def OnTime (h : History) (s : State κ) (i : Nat) : Log (Event κ) × Statement κ → Prop
  | (_, .selectFilled orderHash) => orderHash = hash → h.closed = true →
      (info.inputAmount : Nat) ≤ s.db.totalFilled hash
  | (l, .updateStatus _ _) => isFill hash l = true → h.outdated i = true → h.below i = false
  | (l, .cancelNonce _ _) => isCancel printed info l = true →
      (info.deadline : Nat) < l.blockNumber → h.closed = true
  | (_, .insertFill _) => True

instance (h : History) (s : State κ) (i : Nat) :
    ∀ work, Decidable (OnTime hash printed info h s i work)
  | (_, .selectFilled _) => inferInstanceAs (Decidable (_ → _))
  | (_, .updateStatus _ _) => inferInstanceAs (Decidable (_ → _))
  | (_, .cancelNonce _ _) => inferInstanceAs (Decidable (_ → _))
  | (_, .insertFill _) => isTrue trivial

/-- Handlers are on time; a tick that closes the order comes after the
invalidations that were logged up to the deadline; and nobody cancels the
order through the order service. -/
def InTurn (h : History) (s : State κ) : Action κ → Prop
  | .exec i outcome => outcome ≠ .failed → ∀ work ∈ s.inHand i, OnTime hash printed info h s i work
  | .other (.expire currentBlock) => currentBlock < s.number →
      (info.deadline : Nat) < currentBlock → h.closed = false →
      ∀ l ∈ s.logs, cancelsInTime printed info l = true → l ∈ s.applied
  | .other (.cancelOrder orderHash) => orderHash ≠ hash
  | _ => True

instance (h : History) (s : State κ) :
    ∀ a : Action κ, Decidable (InTurn hash printed info h s a)
  | .exec _ outcome => inferInstanceAs (Decidable (outcome ≠ .failed → _))
  | .other (.expire currentBlock) => inferInstanceAs (Decidable (currentBlock < s.number → _))
  | .other (.cancelOrder orderHash) => inferInstanceAs (Decidable (orderHash ≠ hash))
  | .other (.createOrder _ _ _) => isTrue trivial
  | .other (.setFallback _ _) => isTrue trivial
  | .other (.insertFallback _) => isTrue trivial
  | .emit _ => isTrue trivial
  | .mine => isTrue trivial
  | .connect _ _ _ => isTrue trivial
  | .block _ _ _ => isTrue trivial
  | .query _ _ => isTrue trivial
  | .take _ => isTrue trivial
  | .advance _ => isTrue trivial
  | .store _ _ => isTrue trivial
  | .crash => isTrue trivial

/-- All actions of a run come in turn. -/
def InOrder : History → State κ → List (Action κ) → Prop
  | _, _, [] => True
  | h, s, a :: as => InTurn hash printed info h s a ∧
      InOrder (h.next hash printed info s a) (eventIndexer.step s a) as

instance decidableInOrder : ∀ (h : History) (s : State κ) (as : List (Action κ)),
    Decidable (InOrder hash printed info h s as)
  | _, _, [] => isTrue trivial
  | h, s, a :: as =>
      @instDecidableAnd _ _ _ (decidableInOrder (h.next hash printed info s a)
        (eventIndexer.step s a) as)

end Order

variable {hash : κ} {printed : Bool} {info : OrderInfo}

/-! ## What the history tells -/

/-- What a handler of a fill is about to write is what the sum it has read
gives. -/
inductive Reads (h : History) (i : Nat) : OrderStatus → Prop
  | complete (hbelow : h.below i = false) : Reads h i .filled
  | partly (hbelow : h.below i = true) (houtdated : h.closed = true → h.outdated i = true) :
      Reads h i .active

structure Tracks (hash : κ) (h : History) (s : State κ) (status : OrderStatus) : Prop where
  closed : h.closed = !status.isOpen
  reads : ∀ i l status', s.inHand i = some (l, .updateStatus hash status') →
    isFill hash l = true → Reads h i status'

/-- An action closes the order, reads the sum of its fills, or adds nothing. -/
inductive Adds (hash : κ) (info : OrderInfo) (h : History) (s : State κ) :
    Action κ → History → Prop
  | nothing {a : Action κ} : Adds hash info h s a h
  | closing {a : Action κ} : Adds hash info h s a h.close
  | reading (i : Nat) (outcome : Indexer.Outcome) (l : Log (Event κ))
      (hhand : s.inHand i = some (l, .selectFilled hash)) :
      Adds hash info h s (.exec i outcome)
        (h.read i (decide (s.db.totalFilled hash < info.inputAmount)))

theorem next_adds (h : History) (s : State κ) (a : Action κ) :
    Adds hash info h s a (h.next hash printed info s a) := by
  have hite : ∀ (P : Prop) [Decidable P], Adds hash info h s a (if P then h.close else h) := by
    intro P _
    split
    · exact .closing
    · exact .nothing
  cases a with
  | exec i outcome =>
      simp only [History.next]
      split
      case isTrue => exact .nothing
      case isFalse =>
        unfold History.executed
        split
        case h_1 l orderHash hhand =>
          split
          case isTrue heq =>
            subst heq
            exact .reading i outcome l hhand
          case isFalse => exact .nothing
        case h_2 => exact hite _
        case h_3 => exact hite _
        case h_4 | h_5 => exact .nothing
  | other w =>
      cases w with
      | expire currentBlock => exact hite _
      | setFallback orderHash id => exact hite _
      | cancelOrder orderHash => exact hite _
      | createOrder | insertFallback => exact .nothing
  | emit | mine | connect | block | query | take | advance | store | crash => exact .nothing

/-- What a handler has read stays so, while it waits to write a status. -/
theorem Reads.next {h : History} {s : State κ} {i : Nat} {l : Log (Event κ)}
    {status : OrderStatus} (hreads : Reads h i status)
    (hhand : s.inHand i = some (l, .updateStatus hash status)) (a : Action κ) :
    Reads (h.next hash printed info s a) i status := by
  have hadds : Adds hash info h s a (h.next hash printed info s a) := next_adds h s a
  generalize h.next hash printed info s a = h' at hadds
  cases hadds with
  | nothing => exact hreads
  | closing =>
      cases hreads with
      | complete hbelow => exact .complete hbelow
      | partly hbelow houtdated => exact .partly hbelow fun _ => rfl
  | reading k outcome l' hhand' =>
      have hne : i ≠ k := by
        rintro rfl
        rw [hhand] at hhand'
        cases hhand'
      cases hreads with
      | complete hbelow => exact .complete (by simpa [History.read, hne] using hbelow)
      | partly hbelow houtdated =>
          refine .partly (by simpa [History.read, hne] using hbelow) fun hclosed => ?_
          simpa [History.read, hne] using houtdated hclosed

/-- The sum was just read. -/
theorem reads_newStatus {h : History} {s : State κ} {i : Nat} {status : OrderStatus}
    (hrow : HasStatus s.db hash printed info status)
    (htime : h.closed = true → (info.inputAmount : Nat) ≤ s.db.totalFilled hash) :
    Reads (h.read i (decide (s.db.totalFilled hash < info.inputAmount))) i
      (s.db.newStatus hash) := by
  obtain ⟨fb, hrow⟩ := hrow
  simp only [Database.newStatus, hrow]
  split
  case isTrue htotal => exact .complete (by simpa [History.read] using htotal)
  case isFalse htotal =>
    refine .partly (by simpa [History.read] using Nat.lt_of_not_le htotal) fun hclosed => ?_
    exact absurd (htime hclosed) htotal

section Steps

variable {h : History} {s : State κ} {status : OrderStatus} {a : Action κ}

/-- A step in turn is prudent. -/
theorem Tracks.prudent (htracks : Tracks hash h s status) (hstored : StoredLaw s)
    (hrow : HasStatus s.db hash printed info status)
    (hturn : InTurn hash printed info h s a) : Prudent hash printed info s a := by
  have hopen : isOpenIn s.db hash = status.isOpen := hrow.isOpenIn_eq
  have hclosed : ∀ b, h.closed = b → isOpenIn s.db hash = !b := by
    intro b hb
    rw [hopen, ← hb, htracks.closed, Bool.not_not]
  cases a with
  | exec i outcome =>
      rintro hanswered ⟨l, j⟩ hhand
      have htime := hturn hanswered (l, j) hhand
      have hstage := hstored.works l j ⟨i, hhand⟩
      constructor
      · rintro rfl
        -- only a fill makes an order active
        rcases hstage.update_inv with ⟨filler, fillAmount, outputAmount, hargs, -⟩ | ⟨-, -, -, hst⟩
        · have hfill := isFill_iff.mpr ⟨filler, fillAmount, outputAmount, hargs⟩
          cases htracks.reads i l _ hhand hfill with
          | partly hbelow houtdated =>
              refine hclosed false ?_
              by_contra hnot
              have hlate := htime hfill (houtdated (by simpa using hnot))
              rw [hbelow] at hlate
              cases hlate
        · cases hst
      · intro hcancel hdeadline
        obtain ⟨-, hargs⟩ := isCancel_iff.mp hcancel
        cases hstage with
        | start =>
            rw [handle, hargs] at htime
            exact hclosed true (htime hcancel hdeadline)
        | select hargs' | update _ hargs' =>
            rw [hargs] at hargs'
            cases hargs'
  | other w =>
      cases w with
      | expire currentBlock =>
          intro hpast hdeadline hisopen
          refine hturn hpast hdeadline ?_
          rw [htracks.closed, ← hopen, hisopen]
          rfl
      | cancelOrder orderHash => exact hturn
      | createOrder | setFallback | insertFallback => exact trivial
  | emit | mine | connect | block | query | take | advance | store | crash => exact trivial

/-- A row that is what it was. -/
theorem Tracks.same (htracks : Tracks hash h s status) {db : Database κ} {status' : OrderStatus}
    (hkept : HasStatus db hash printed info status)
    (hrow' : HasStatus db hash printed info status') : h.closed = !status'.isOpen := by
  rw [(hkept.unique hrow').2]
  exact htracks.closed

/-- A statement of another writer. -/
theorem Tracks.other (htracks : Tracks hash h s status)
    (hrow : HasStatus s.db hash printed info status) (w : Write κ)
    (hturn : InTurn hash printed info h s (.other w)) {status' : OrderStatus}
    (hrow' : HasStatus (EventIndexer.other w s.number s.logs s.db) hash printed info status') :
    (h.next hash printed info s (.other w)).closed = !status'.isOpen := by
  cases w with
  | createOrder hash' info' printed' => exact htracks.same (hrow.createOrder ..) hrow'
  | cancelOrder orderHash =>
      have hkept := hrow.setStatus orderHash .cancelled
      rw [if_neg (Ne.symm hturn)] at hkept
      simp only [History.next, if_neg (show ¬orderHash = hash from hturn)]
      exact htracks.same hkept hrow'
  | expire currentBlock =>
      simp only [EventIndexer.other] at hrow'
      by_cases hpast : currentBlock < s.number
      case neg =>
        rw [if_neg hpast] at hrow'
        simp only [History.next]
        rw [if_neg fun hboth => hpast hboth.1]
        exact htracks.same hrow hrow'
      case pos =>
        rw [if_pos hpast] at hrow'
        have hexpired := hrow.expire currentBlock
        rw [(hexpired.unique hrow').2]
        simp only [History.next, hpast, true_and]
        by_cases hdeadline : (info.deadline : Nat) < currentBlock
        · rw [if_pos hdeadline]
          cases status <;> simp [History.close, hdeadline, OrderStatus.isOpen]
        · rw [if_neg hdeadline, if_neg fun hboth => hdeadline hboth.2]
          exact htracks.closed
  | setFallback orderHash id =>
      simp only [EventIndexer.other] at hrow'
      by_cases hlogged : fallbackLogged s.logs orderHash id = true
      case neg =>
        rw [if_neg hlogged] at hrow'
        simp only [History.next]
        rw [if_neg fun hboth => hlogged hboth.2]
        exact htracks.same hrow hrow'
      case pos =>
        rw [if_pos hlogged] at hrow'
        have hmarked := hrow.setFallback orderHash
        rw [(hmarked.unique hrow').2]
        simp only [History.next, hlogged, and_true]
        by_cases heq : hash = orderHash
        · rw [if_pos heq.symm, if_pos heq]
          rfl
        · rw [if_neg (Ne.symm heq), if_neg heq]
          exact htracks.closed
  | insertFallback row =>
      refine htracks.same ?_ hrow'
      simp only [EventIndexer.other]
      split
      · cases hinsert : s.db.insertFill row.row with
        | none => exact hrow
        | some db' => exact hrow.insertFill hinsert
      · exact hrow

/-- A statement of a handler. -/
theorem Tracks.executes (htracks : Tracks hash h s status) (hstored : StoredLaw s)
    (hrow : HasStatus s.db hash printed info status) {i : Nat} {l : Log (Event κ)}
    {j : Statement κ} (hhand : s.inHand i = some (l, j))
    (htime : OnTime hash printed info h s i (l, j)) {db : Database κ}
    {next : Option (Statement κ)} (hexec : Executes s.db db j next) {status' : OrderStatus}
    (hrow' : HasStatus db hash printed info status') :
    (h.executed hash printed info s i).closed = !status'.isOpen := by
  have hstage := hstored.works l j ⟨i, hhand⟩
  cases hexec with
  | insertFill row hinsert =>
      simp only [History.executed, hhand]
      exact htracks.same (hrow.insertFill hinsert) hrow'
  | selectFilled hash' hdb =>
      have hread : (h.executed hash printed info s i).closed = h.closed := by
        simp only [History.executed, hhand]
        split <;> rfl
      rw [hread]
      exact htracks.same (hdb ▸ hrow) hrow'
  | updateStatus hash' st hdb =>
      simp only [History.executed, hhand]
      have hwritten := hrow.setStatus hash' st
      rw [← hdb] at hwritten
      rw [(hwritten.unique hrow').2]
      by_cases heq : hash' = hash
      case neg =>
        rw [if_neg fun hboth => heq hboth.1, if_neg (Ne.symm heq)]
        exact htracks.closed
      case pos =>
        subst heq
        rw [if_pos rfl]
        rcases hstage.update_inv with ⟨filler, fillAmount, outputAmount, hargs, -⟩
          | ⟨amountIn, amountOut, hargs, rfl⟩
        · have hfill := isFill_iff.mpr ⟨filler, fillAmount, outputAmount, hargs⟩
          cases htracks.reads i l _ hhand hfill with
          | complete hbelow =>
              rw [if_pos ⟨rfl, Or.inr hbelow⟩]
              rfl
          | partly hbelow houtdated =>
              have hfallback : ¬isFallback hash' l = true := by
                intro hown
                obtain ⟨_, _, hother⟩ := isFallback_iff.mp hown
                rw [hargs] at hother
                cases hother
              rw [if_neg (by simp [hfallback, hbelow])]
              have hnot : ¬h.closed = true := by
                intro hclosed
                have hlate := htime hfill (houtdated hclosed)
                rw [hbelow] at hlate
                cases hlate
              exact Bool.eq_false_iff.mpr hnot
        · rw [if_pos ⟨rfl, Or.inl (isFallback_iff.mpr ⟨amountIn, amountOut, hargs⟩)⟩]
          rfl
  | cancelNonce swapper nonce hdb =>
      simp only [History.executed, hhand]
      have hargs := hstage.cancel_inv
      have hwritten := hrow.cancelNonce swapper nonce
      rw [← hdb] at hwritten
      rw [(hwritten.unique hrow').2]
      by_cases hcancel : isCancel printed info l = true
      case pos =>
        obtain ⟨hprinted, hown⟩ := isCancel_iff.mp hcancel
        rw [hargs] at hown
        cases hown
        rw [if_pos hcancel]
        cases status <;> simp [History.close, hprinted, OrderStatus.isOpen]
      case neg =>
        rw [if_neg hcancel, if_neg]
        · exact htracks.closed
        · rintro ⟨hprinted, rfl, rfl, -⟩
          exact hcancel (isCancel_iff.mpr ⟨hprinted, hargs⟩)

/-- **The history keeps track of the row.** -/
theorem Tracks.step (htracks : Tracks hash h s status) (hstored : StoredLaw s)
    (hrow : HasStatus s.db hash printed info status) (hturn : InTurn hash printed info h s a)
    {status' : OrderStatus}
    (hrow' : HasStatus (eventIndexer.step s a).db hash printed info status') :
    Tracks hash (h.next hash printed info s a) (eventIndexer.step s a) status' := by
  constructor
  case closed =>
    cases a with
    | other w => exact htracks.other hrow w hturn hrow'
    | exec i outcome =>
        rcases Indexer.execute_db (P := eventIndexer) s i outcome with
          ⟨hdb, hidle⟩ | ⟨hanswered, l, j, next, hhand, hexec⟩
        · have hnothing : h.next hash printed info s (.exec i outcome) = h := by
            simp only [History.next]
            split
            case isTrue => rfl
            case isFalse hanswered =>
              have hrefused := hidle.resolve_left hanswered
              unfold History.executed
              split
              case h_1 hhand => exact absurd (hrefused _ _ hhand) (by simp [eventIndexer, exec])
              case h_2 hhand => exact absurd (hrefused _ _ hhand) (by simp [eventIndexer, exec])
              case h_3 hhand => exact absurd (hrefused _ _ hhand) (by simp [eventIndexer, exec])
              case h_4 | h_5 => rfl
          rw [hnothing]
          exact htracks.same (hdb.symm ▸ hrow) hrow'
        · simp only [History.next, if_neg hanswered]
          exact htracks.executes hstored hrow hhand (hturn hanswered (l, j) hhand)
            (exec_spec hexec) hrow'
    | emit | mine | connect | block | query | take | advance | store | crash =>
        rcases Indexer.step_db (P := eventIndexer) (s := s) _ with hdb | ⟨w, hw⟩ | ⟨i, o, ho⟩
        · exact htracks.same (hdb.symm ▸ hrow) hrow'
        · cases hw
        · cases ho
  case reads =>
    intro k l st hhand hfill
    rcases Indexer.step_inHand a hhand with hold | hstart | ⟨rfl, j₀, db, hold, hexec⟩
    · exact (htracks.reads k l st hold hfill).next hold a
    · obtain ⟨⟨amountIn, amountOut, hargs⟩, -⟩ := handle_eq_updateStatus hstart.symm
      obtain ⟨_, _, _, hown⟩ := isFill_iff.mp hfill
      rw [hargs] at hown
      cases hown
    · have hexec := exec_spec hexec
      cases hexec with
      | selectFilled hash' hdb =>
          have htime := hturn (by decide) (l, .selectFilled hash) hold
          have hnext : h.next hash printed info s (.exec k .done)
              = h.read k (decide (s.db.totalFilled hash < info.inputAmount)) := by
            simp [History.next, History.executed, hold]
          rw [hnext]
          exact reads_newStatus hrow (htime rfl)

end Steps

end EventIndexer

end NeutronX
