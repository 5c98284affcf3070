import NeutronX.FillRows

/-!
# Steps of the status of an order

Three feeds and a timer write the status of an order with separate
statements. Cancellation and expiry leave a closed order alone, a fallback
or a completing fill is final, but any other partial fill sets `active`
whatever the status is.

`Prudent` excludes the writes that depend on what is yet to be processed:
`active` over a closed order, the expiry of an order and its late
cancellation in either order, and a cancellation over the order service,
which no log tells of. `Settling` relates the status to the logs that were
processed, and every prudent step keeps it and keeps a closed order closed.
Which runs have prudent steps only is another matter.
-/

namespace NeutronX

open Evm

namespace EventIndexer

variable {κ : Type} [DecidableEq κ]

/-! ## The events of an order -/

def isFill (hash : κ) (l : Log (Event κ)) : Bool := (fillOf hash l).isSome

def isFallback (hash : κ) (l : Log (Event κ)) : Bool :=
  match l.args with
  | .fallbackExecuted orderHash _ _ => decide (orderHash = hash)
  | .partialFillExecuted _ _ _ _ => false
  | .nonceInvalidated _ _ => false

/-- The log invalidates the nonce of the order, and the row of the order has
the texts it is looked up by. -/
def isCancel (printed : Bool) (info : OrderInfo) (l : Log (Event κ)) : Bool :=
  match l.args with
  | .nonceInvalidated swapper nonce =>
      printed && decide (swapper = info.swapper ∧ nonce = info.nonce)
  | .partialFillExecuted _ _ _ _ => false
  | .fallbackExecuted _ _ _ => false

/-- The log is about the order. -/
def concerns (hash : κ) (printed : Bool) (info : OrderInfo) (l : Log (Event κ)) : Bool :=
  isFill hash l || isFallback hash l || isCancel printed info l

/-- An invalidation while the order could still be filled. -/
def cancelsInTime (printed : Bool) (info : OrderInfo) (l : Log (Event κ)) : Bool :=
  isCancel printed info l && decide (l.blockNumber ≤ info.deadline)

/-! ## The row of an order -/

/-- The order is stored, with this status. -/
def HasStatus (db : Database κ) (hash : κ) (printed : Bool) (info : OrderInfo)
    (status : OrderStatus) : Prop :=
  ∃ fallbackInitiated, db.orders hash = some ⟨info, printed, status, fallbackInitiated⟩

section Rows

variable {db : Database κ} {hash : κ} {printed : Bool} {info : OrderInfo} {status : OrderStatus}

theorem HasStatus.setStatus (h : HasStatus db hash printed info status) (hash' : κ)
    (status' : OrderStatus) :
    HasStatus (db.setStatus hash' status') hash printed info
      (if hash = hash' then status' else status) := by
  obtain ⟨fb, hrow⟩ := h
  refine ⟨fb, ?_⟩
  simp only [Database.setStatus, Sql.Table.updateWhere, hrow, Option.map_some, decide_eq_true_eq]
  split <;> rfl

omit [DecidableEq κ] in
theorem HasStatus.cancelNonce (h : HasStatus db hash printed info status) (swapper : Address)
    (nonce : Uint 256) :
    HasStatus (db.cancelNonce swapper nonce) hash printed info
      (if printed = true ∧ info.swapper = swapper ∧ info.nonce = nonce ∧ status.isOpen = true then
        .cancelled else status) := by
  obtain ⟨fb, hrow⟩ := h
  refine ⟨fb, ?_⟩
  simp only [Database.cancelNonce, Sql.Table.updateWhere, hrow, Option.map_some,
    decide_eq_true_eq]
  split <;> rfl

omit [DecidableEq κ] in
theorem HasStatus.expire (h : HasStatus db hash printed info status) (currentBlock : Nat) :
    HasStatus (db.expire currentBlock) hash printed info
      (if status.isOpen = true ∧ (info.deadline : Nat) < currentBlock then .expired
        else status) := by
  obtain ⟨fb, hrow⟩ := h
  refine ⟨fb, ?_⟩
  simp only [Database.expire, Sql.Table.updateWhere, hrow, Option.map_some, decide_eq_true_eq]
  split <;> rfl

theorem HasStatus.setFallback (h : HasStatus db hash printed info status) (hash' : κ) :
    HasStatus (db.setFallback hash') hash printed info
      (if hash = hash' then .filled else status) := by
  obtain ⟨fb, hrow⟩ := h
  refine ⟨if hash = hash' then true else fb, ?_⟩
  simp only [Database.setFallback, Sql.Table.updateWhere, hrow, Option.map_some,
    decide_eq_true_eq]
  split <;> rfl

theorem HasStatus.createOrder (h : HasStatus db hash printed info status) (hash' : κ)
    (info' : OrderInfo) (printed' : Bool) :
    HasStatus (db.createOrder hash' info' printed') hash printed info status := by
  unfold Database.createOrder
  split
  · exact h
  · rename_i hfree
    obtain ⟨fb, hrow⟩ := h
    refine ⟨fb, ?_⟩
    have hne : hash ≠ hash' := by
      rintro rfl
      rw [hrow] at hfree
      exact hfree rfl
    simpa [Sql.Table.insert, Function.update_of_ne hne] using hrow

omit [DecidableEq κ] in
theorem HasStatus.insertFill (h : HasStatus db hash printed info status) {row : FillRow κ}
    {db' : Database κ} (hinsert : db.insertFill row = some db') :
    HasStatus db' hash printed info status := by
  rcases insertFill_spec hinsert with ⟨-, rfl⟩ | ⟨-, -, rfl⟩
  · exact h
  · exact h

omit [DecidableEq κ] in
theorem HasStatus.unique {printed' : Bool} {info' : OrderInfo} {status' : OrderStatus}
    (h : HasStatus db hash printed info status) (h' : HasStatus db hash printed' info' status') :
    info' = info ∧ status' = status := by
  obtain ⟨fb, hrow⟩ := h
  obtain ⟨fb', hrow'⟩ := h'
  rw [hrow] at hrow'
  cases hrow'
  exact ⟨rfl, rfl⟩

end Rows

/-! ## Steps that are all right for an order -/

/-- The order is stored and open. -/
def isOpenIn (db : Database κ) (hash : κ) : Bool :=
  (db.orders hash).any fun r => r.status.isOpen

/-- No `active` is written over a closed order, no late cancellation over
an open one, and the order does not expire while an invalidation in time
is still to be processed, and is not cancelled through the order service. -/
def Prudent (hash : κ) (printed : Bool) (info : OrderInfo) (s : State κ) : Action κ → Prop
  | .exec i outcome => outcome ≠ .failed → ∀ work ∈ s.inHand i,
      (work.2 = .updateStatus hash .active → isOpenIn s.db hash = true) ∧
      (isCancel printed info work.1 = true → (info.deadline : Nat) < work.1.blockNumber →
        isOpenIn s.db hash = false)
  | .other (.expire currentBlock) => currentBlock < s.number →
      (info.deadline : Nat) < currentBlock → isOpenIn s.db hash = true →
      ∀ l ∈ s.logs, cancelsInTime printed info l = true → l ∈ s.applied
  | .other (.cancelOrder orderHash) => orderHash ≠ hash
  | _ => True

omit [DecidableEq κ] in
theorem HasStatus.isOpenIn_eq {db : Database κ} {hash : κ} {printed : Bool} {info : OrderInfo}
    {status : OrderStatus} (h : HasStatus db hash printed info status) :
    isOpenIn db hash = status.isOpen := by
  obtain ⟨fb, hrow⟩ := h
  simp [isOpenIn, hrow]

/-! ## The law of a status -/

variable (hash : κ) (printed : Bool) (info : OrderInfo)

/-- When this fill was inserted, or later, the fills did not complete the
order. -/
def Early (db : Database κ) (id : LogId) : Prop :=
  ∃ newer older, db.fillsOf hash = newer ++ older ∧ (∃ r ∈ older, r.id = id) ∧
    (older.map FillRow.fillAmount).sum < info.inputAmount

/-- The order is finished. -/
def Done (s : State κ) : Prop :=
  (s.db.fillsOf hash ≠ [] ∧ (info.inputAmount : Nat) ≤ s.db.totalFilled hash) ∨
    ∃ l ∈ s.logs, isFallback hash l = true

/-- What a handler that is about to write a status knows. -/
def Due (s : State κ) (l : Log (Event κ)) (status : OrderStatus) : Prop :=
  (status = .active ∧ isFill hash l = true ∧ Early hash info s.db l.id) ∨
    (status = .filled ∧ Done hash info s)

/-- What an applied log says of the status. -/
structure AppliedAs (db : Database κ) (status : OrderStatus) (l : Log (Event κ)) : Prop where
  fill : isFill hash l = true →
    status = .filled ∨ status ≠ .pending ∧ Early hash info db l.id
  fallback : isFallback hash l = true → status = .filled
  cancel : isCancel printed info l = true → status.isOpen = false

/-- What the status says of the logs, and of the ticks so far. -/
def Means (s : State κ) (ticks : List Nat) : OrderStatus → Prop
  | .pending => True
  | .active => ∃ l ∈ s.logs, isFill hash l = true
  | .filled => Done hash info s
  | .cancelled => ∃ l ∈ s.logs, cancelsInTime printed info l = true
  | .expired => (∃ t ∈ ticks, (info.deadline : Nat) < t) ∧
      ∀ l ∈ s.logs, isCancel printed info l = true → (info.deadline : Nat) < l.blockNumber

/-- The law of the status of an order, since the ticks `old`. -/
structure Settling (old ticks : List Nat) (s : State κ) (status : OrderStatus) : Prop where
  row : HasStatus s.db hash printed info status
  due : ∀ l status', Indexer.Works s l (.updateStatus hash status') → Due hash info s l status'
  applied : ∀ l ∈ s.applied, AppliedAs hash printed info s.db status l
  means : Means hash printed info s ticks status
  ticks_eq : s.db.ticks = ticks ++ old
  past : ∀ t ∈ ticks, t < s.number
  late : (∃ t ∈ ticks, (info.deadline : Nat) < t) → status.isOpen = false

variable {hash printed info}

theorem Early.grow {db db' : Database κ} {id : LogId} (h : Early hash info db id)
    (hfills : ∃ newer, db'.fillsOf hash = newer ++ db.fillsOf hash) :
    Early hash info db' id := by
  obtain ⟨newer, older, hsplit, hid, hsum⟩ := h
  obtain ⟨newest, hgrow⟩ := hfills
  exact ⟨newest ++ newer, older, by rw [hgrow, hsplit, List.append_assoc], hid, hsum⟩

theorem Done.grow {s s' : State κ} (h : Done hash info s)
    (hfills : ∃ newer, s'.db.fillsOf hash = newer ++ s.db.fillsOf hash)
    (hlogs : ∀ l ∈ s.logs, l ∈ s'.logs) : Done hash info s' := by
  rcases h with ⟨hne, htotal⟩ | ⟨l, hl, hfallback⟩
  · obtain ⟨newer, hgrow⟩ := hfills
    refine Or.inl ⟨?_, Nat.le_trans htotal ?_⟩
    · rw [hgrow]
      exact fun hnil => hne (List.append_eq_nil_iff.mp hnil).2
    · simp only [Database.totalFilled, hgrow, List.map_append, List.sum_append]
      exact Nat.le_add_left _ _
  · exact Or.inr ⟨l, hlogs l hl, hfallback⟩

theorem Due.grow {s s' : State κ} {l : Log (Event κ)} {status : OrderStatus}
    (h : Due hash info s l status)
    (hfills : ∃ newer, s'.db.fillsOf hash = newer ++ s.db.fillsOf hash)
    (hlogs : ∀ l ∈ s.logs, l ∈ s'.logs) : Due hash info s' l status := by
  rcases h with ⟨hactive, hfill, hearly⟩ | ⟨hfilled, hdone⟩
  · exact Or.inl ⟨hactive, hfill, hearly.grow hfills⟩
  · exact Or.inr ⟨hfilled, hdone.grow hfills hlogs⟩

theorem AppliedAs.grow {db db' : Database κ} {status : OrderStatus} {l : Log (Event κ)}
    (h : AppliedAs hash printed info db status l)
    (hfills : ∃ newer, db'.fillsOf hash = newer ++ db.fillsOf hash) :
    AppliedAs hash printed info db' status l :=
  ⟨fun hl => (h.fill hl).imp_right (And.imp_right fun hearly => hearly.grow hfills),
    h.fallback, h.cancel⟩

theorem appliedAs_filled (db : Database κ) (l : Log (Event κ)) :
    AppliedAs hash printed info db .filled l :=
  ⟨fun _ => Or.inl rfl, fun _ => rfl, fun _ => rfl⟩

/-- An open order leaves the status it started with. -/
theorem AppliedAs.move {db : Database κ} {status status' : OrderStatus} {l : Log (Event κ)}
    (h : AppliedAs hash printed info db status l) (hopen : status.isOpen = true)
    (hmoved : status' ≠ .pending) : AppliedAs hash printed info db status' l := by
  have hunfilled : status ≠ .filled := by
    rintro rfl
    cases hopen
  refine ⟨fun hl => ?_, fun hl => absurd (h.fallback hl) hunfilled, fun hl => ?_⟩
  · rcases h.fill hl with hfilled | ⟨-, hearly⟩
    · exact absurd hfilled hunfilled
    · exact Or.inr ⟨hmoved, hearly⟩
  · have hclosed := h.cancel hl
    rw [hopen] at hclosed
    cases hclosed

theorem Means.grow {s s' : State κ} {ticks : List Nat} {status : OrderStatus}
    (h : Means hash printed info s ticks status)
    (hfills : ∃ newer, s'.db.fillsOf hash = newer ++ s.db.fillsOf hash)
    (hlogs : ∀ l ∈ s.logs, l ∈ s'.logs) (hpast : ∀ t ∈ ticks, t < s.number)
    (hnew : ∀ l ∈ s'.logs, l ∈ s.logs ∨ s.number ≤ l.blockNumber) :
    Means hash printed info s' ticks status := by
  cases status with
  | pending => trivial
  | active =>
      obtain ⟨l, hl, hfill⟩ := h
      exact ⟨l, hlogs l hl, hfill⟩
  | filled => exact Done.grow h hfills hlogs
  | cancelled =>
      obtain ⟨l, hl, hcancel⟩ := h
      exact ⟨l, hlogs l hl, hcancel⟩
  | expired =>
      obtain ⟨⟨t, ht, hlate⟩, hcancels⟩ := h
      refine ⟨⟨t, ht, hlate⟩, fun l hl hcancel => ?_⟩
      rcases hnew l hl with hold | hnew
      · exact hcancels l hold hcancel
      · have := hpast t ht
        omega

/-- The status is kept while fills and logs may be added. -/
theorem Settling.keep {old ticks : List Nat} {s s' : State κ} {status : OrderStatus}
    (h : Settling hash printed info old ticks s status)
    (hrow : HasStatus s'.db hash printed info status)
    (hnumber : s.number ≤ s'.number) (hlogs : ∀ l ∈ s.logs, l ∈ s'.logs)
    (hnew : ∀ l ∈ s'.logs, l ∈ s.logs ∨ s.number ≤ l.blockNumber)
    (hfills : ∃ newer, s'.db.fillsOf hash = newer ++ s.db.fillsOf hash)
    (hticks : s'.db.ticks = s.db.ticks)
    (hworks : ∀ l status', Indexer.Works s' l (.updateStatus hash status') →
      Indexer.Works s l (.updateStatus hash status') ∨ Due hash info s' l status')
    (happlied : ∀ l ∈ s'.applied, l ∈ s.applied ∨ AppliedAs hash printed info s'.db status l) :
    Settling hash printed info old ticks s' status where
  row := hrow
  due := fun l status' hl => (hworks l status' hl).elim
    (fun hold => (h.due l status' hold).grow hfills hlogs) id
  applied := fun l hl => (happlied l hl).elim (fun hold => (h.applied l hold).grow hfills) id
  means := h.means.grow hfills hlogs h.past hnew
  ticks_eq := hticks.trans h.ticks_eq
  past := fun t ht => Nat.lt_of_lt_of_le (h.past t ht) hnumber
  late := h.late

/-- Others may add fills. -/
theorem Settling.keepDb {old ticks : List Nat} {s : State κ} {status : OrderStatus}
    (h : Settling hash printed info old ticks s status) {db : Database κ}
    (hrow : HasStatus db hash printed info status)
    (hfills : ∃ newer, db.fillsOf hash = newer ++ s.db.fillsOf hash)
    (hticks : db.ticks = s.db.ticks) : Settling hash printed info old ticks { s with db } status :=
  h.keep hrow (Nat.le_refl _) (fun _ hl => hl) (fun _ => Or.inl) hfills hticks
    (fun _ _ => Or.inl) fun _ => Or.inl

/-- The status moves on, to a final one or from an open order. -/
theorem Settling.move {old ticks : List Nat} {s s' : State κ} {status status' : OrderStatus}
    (h : Settling hash printed info old ticks s status)
    (hrow : HasStatus s'.db hash printed info status')
    (hnumber : s'.number = s.number) (hlogs : s'.logs = s.logs)
    (hfills : s'.db.fillsOf hash = s.db.fillsOf hash) (hticks : s'.db.ticks = s.db.ticks)
    (hworks : ∀ l status', Indexer.Works s' l (.updateStatus hash status') →
      Indexer.Works s l (.updateStatus hash status'))
    (happlied : ∀ l ∈ s'.applied, l ∈ s.applied ∨ AppliedAs hash printed info s'.db status' l)
    (hmoves : status' = .filled ∨ status.isOpen = true ∧ status' ≠ .pending)
    (hmeans : Means hash printed info s' ticks status') :
    Settling hash printed info old ticks s' status' := by
  have hgrow : ∃ newer, s'.db.fillsOf hash = newer ++ s.db.fillsOf hash := ⟨[], hfills⟩
  have hsame : ∀ l ∈ s.logs, l ∈ s'.logs := by
    rw [hlogs]
    exact fun _ hl => hl
  refine ⟨hrow, fun l st hl => (h.due l st (hworks l st hl)).grow hgrow hsame, fun l hl => ?_,
    hmeans, hticks.trans h.ticks_eq, by rw [hnumber]; exact h.past, fun hlate => ?_⟩
  · rcases happlied l hl with hold | hnew
    · rcases hmoves with rfl | ⟨hopen, hmoved⟩
      · exact appliedAs_filled _ _
      · exact ((h.applied l hold).move hopen hmoved).grow hgrow
    · exact hnew
  · rcases hmoves with rfl | ⟨hopen, -⟩
    · rfl
    · have hclosed := h.late hlate
      rw [hopen] at hclosed
      cases hclosed

/-! ## The step -/

theorem FillsGrow.fillsOf {logs : List (Log (Event κ))} {db db' : Database κ}
    (h : FillsGrow logs db db') (hash : κ) :
    ∃ newer, db'.fillsOf hash = newer ++ db.fillsOf hash := by
  cases h with
  | same h => exact ⟨[], by rw [Database.fillsOf, h]; rfl⟩
  | added r fresh genuine h =>
      rw [Database.fillsOf, h, List.filter_cons]
      split
      · exact ⟨[r], rfl⟩
      · exact ⟨[], rfl⟩

theorem isFill_iff {l : Log (Event κ)} : isFill hash l = true ↔
    ∃ filler fillAmount outputAmount,
      l.args = .partialFillExecuted hash filler fillAmount outputAmount := by
  rw [isFill, Option.isSome_iff_exists]
  constructor
  · rintro ⟨r, hr⟩
    obtain ⟨filler, fillAmount, outputAmount, hargs, -⟩ := fillOf_eq_some.mp hr
    exact ⟨filler, fillAmount, outputAmount, hargs⟩
  · rintro ⟨filler, fillAmount, outputAmount, hargs⟩
    exact ⟨_, fillOf_eq_some.mpr ⟨filler, fillAmount, outputAmount, hargs, rfl⟩⟩

theorem isFallback_iff {l : Log (Event κ)} : isFallback hash l = true ↔
    ∃ amountIn amountOut, l.args = .fallbackExecuted hash amountIn amountOut := by
  unfold isFallback
  split
  · rename_i orderHash amountIn amountOut hargs
    rw [decide_eq_true_eq, hargs]
    constructor
    · rintro rfl
      exact ⟨amountIn, amountOut, rfl⟩
    · rintro ⟨_, _, h⟩
      cases h
      rfl
  all_goals
    rename_i hargs
    rw [hargs]
    refine ⟨fun h => (by cases h), ?_⟩
    rintro ⟨_, _, h⟩
    cases h

omit [DecidableEq κ] in
theorem isCancel_iff {l : Log (Event κ)} :
    isCancel printed info l = true ↔
      printed = true ∧ l.args = .nonceInvalidated info.swapper info.nonce := by
  unfold isCancel
  split
  · rename_i swapper nonce hargs
    rw [Bool.and_eq_true, decide_eq_true_eq, hargs]
    simp
  all_goals
    rename_i hargs
    rw [hargs]
    simp

/-- A log that is not about the order says nothing of its status. -/
theorem appliedAs_of_not {db : Database κ} {status : OrderStatus} {l : Log (Event κ)}
    (hfill : ¬isFill hash l = true) (hfallback : ¬isFallback hash l = true)
    (hcancel : ¬isCancel printed info l = true) : AppliedAs hash printed info db status l :=
  ⟨fun h => absurd h hfill, fun h => absurd h hfallback, fun h => absurd h hcancel⟩

/-- Right after the sum was read, the status it gives is due. -/
theorem due_newStatus {s s' : State κ} {status : OrderStatus} {l : Log (Event κ)}
    (hlaw : FillsLaw s) (hl : l ∈ s.logs) (hrow : HasStatus s.db hash printed info status)
    {filler : Address} {fillAmount outputAmount : Nat}
    (hargs : l.args = .partialFillExecuted hash filler fillAmount outputAmount)
    (hstored : Stored s.db l) (hdb : s'.db = s.db) :
    Due hash info s' l (s.db.newStatus hash) := by
  have hmem : fillRow l hash filler fillAmount outputAmount ∈ s.db.fillsOf hash :=
    Database.mem_fillsOf.mpr ⟨hlaw.row_mem hl hargs hstored, rfl⟩
  obtain ⟨fb, hrow⟩ := hrow
  simp only [Due, Done, hdb, Database.newStatus, hrow]
  split
  · rename_i htotal
    exact Or.inr ⟨rfl, Or.inl ⟨List.ne_nil_of_mem hmem, htotal⟩⟩
  · rename_i htotal
    refine Or.inl ⟨rfl, isFill_iff.mpr ⟨filler, fillAmount, outputAmount, hargs⟩, [], _, rfl,
      ⟨_, hmem, rfl⟩, ?_⟩
    exact Nat.lt_of_not_le htotal

omit [DecidableEq κ] in
/-- Only a fallback starts with a status. -/
theorem handle_eq_updateStatus {l : Log (Event κ)} {hash' : κ} {status : OrderStatus}
    (h : handle l = .updateStatus hash' status) :
    (∃ amountIn amountOut, l.args = .fallbackExecuted hash' amountIn amountOut) ∧
      status = .filled := by
  unfold handle at h
  split at h
  · cases h
  · rename_i hargs
    cases h
    exact ⟨⟨_, _, hargs⟩, rfl⟩
  · cases h

omit [DecidableEq κ] in
theorem Stage.select_inv {db : Database κ} {l : Log (Event κ)} {hash' : κ}
    (h : Stage db l (.selectFilled hash')) :
    ∃ filler fillAmount outputAmount,
      l.args = .partialFillExecuted hash' filler fillAmount outputAmount ∧ Stored db l := by
  generalize hj : Statement.selectFilled hash' = j at h
  cases h with
  | select args stored =>
      cases hj
      exact ⟨_, _, _, args, stored⟩
  | update _ args stored => cases hj
  | start =>
      unfold handle at hj
      split at hj <;> cases hj

omit [DecidableEq κ] in
theorem Stage.update_inv {db : Database κ} {l : Log (Event κ)} {hash' : κ} {status : OrderStatus}
    (h : Stage db l (.updateStatus hash' status)) :
    (∃ filler fillAmount outputAmount,
      l.args = .partialFillExecuted hash' filler fillAmount outputAmount ∧ Stored db l) ∨
    ∃ amountIn amountOut, l.args = .fallbackExecuted hash' amountIn amountOut ∧
      status = .filled := by
  generalize hj : Statement.updateStatus hash' status = j at h
  cases h with
  | select args stored => cases hj
  | update _ args stored =>
      cases hj
      exact Or.inl ⟨_, _, _, args, stored⟩
  | start =>
      obtain ⟨⟨amountIn, amountOut, hargs⟩, rfl⟩ := handle_eq_updateStatus hj.symm
      exact Or.inr ⟨amountIn, amountOut, hargs, rfl⟩

omit [DecidableEq κ] in
theorem Stage.cancel_inv {db : Database κ} {l : Log (Event κ)} {swapper : Address}
    {nonce : Uint 256} (h : Stage db l (.cancelNonce swapper nonce)) :
    l.args = .nonceInvalidated swapper nonce := by
  generalize hj : Statement.cancelNonce swapper nonce = j at h
  cases h with
  | select args stored => cases hj
  | update _ args stored => cases hj
  | start =>
      unfold handle at hj
      split at hj
      · cases hj
      · cases hj
      · rename_i hargs
        cases hj
        exact hargs

section Steps

variable {old ticks : List Nat} {s s' : State κ} {status : OrderStatus}

/-- What a step makes of the status, and that it keeps a closed order
closed. -/
def Settles (hash : κ) (printed : Bool) (info : OrderInfo) (old : List Nat) (s' : State κ)
    (status : OrderStatus) : Prop :=
  ∃ ticks' status', Settling hash printed info old ticks' s' status' ∧
    (status.isOpen = false → status'.isOpen = false)

theorem Settling.settles (h : Settling hash printed info old ticks s' status) :
    Settles hash printed info old s' status := ⟨ticks, status, h, id⟩

theorem Settling.settlesOpen {status' : OrderStatus}
    (h : Settling hash printed info old ticks s' status')
    (hmoves : status' = .filled ∨ status.isOpen = true) :
    Settles hash printed info old s' status := by
  refine ⟨ticks, status', h, fun hclosed => ?_⟩
  rcases hmoves with rfl | hopen
  · rfl
  · rw [hopen] at hclosed
    cases hclosed

/-- A tick of the expiry timer. -/
theorem settling_expire (h : Settling hash printed info old ticks s status) {currentBlock : Nat}
    (hpast : currentBlock < s.number)
    (hprudent : (info.deadline : Nat) < currentBlock → status.isOpen = true →
      ∀ l ∈ s.logs, cancelsInTime printed info l = true → l ∈ s.applied)
    (hs' : s' = { s with db := s.db.expire currentBlock }) :
    Settles hash printed info old s' status := by
  have hrow := h.row.expire currentBlock
  have hfills : (s.db.expire currentBlock).fillsOf hash = s.db.fillsOf hash := rfl
  have hticks : ∀ t ∈ currentBlock :: ticks, t < s.number := by
    intro t ht
    rcases List.mem_cons.mp ht with rfl | ht
    · exact hpast
    · exact h.past t ht
  subst hs'
  by_cases hexpires : status.isOpen = true ∧ (info.deadline : Nat) < currentBlock
  · obtain ⟨hopen, hdeadline⟩ := hexpires
    rw [if_pos ⟨hopen, hdeadline⟩] at hrow
    have hcancels : ∀ l ∈ s.logs, isCancel printed info l = true →
        (info.deadline : Nat) < l.blockNumber := by
      intro l hl hcancel
      by_contra hearly
      have hintime : cancelsInTime printed info l = true := by
        simp only [cancelsInTime, hcancel, Bool.true_and, decide_eq_true_eq]
        exact Nat.le_of_not_lt hearly
      have hclosed := (h.applied l (hprudent hdeadline hopen l hl hintime)).cancel hcancel
      rw [hopen] at hclosed
      cases hclosed
    refine ⟨currentBlock :: ticks, .expired, ⟨hrow, h.due, fun l hl => ?_, ?_, ?_, hticks,
      fun _ => rfl⟩, fun _ => rfl⟩
    · exact ((h.applied l hl).move hopen (by decide)).grow ⟨[], hfills⟩
    · exact ⟨⟨currentBlock, List.mem_cons_self .., hdeadline⟩, hcancels⟩
    · exact congrArg (currentBlock :: ·) h.ticks_eq
  · rw [if_neg hexpires] at hrow
    refine ⟨currentBlock :: ticks, status, ⟨hrow, h.due, fun l hl => ?_, ?_, ?_, hticks,
      fun hlate => ?_⟩, id⟩
    · exact (h.applied l hl).grow ⟨[], hfills⟩
    · have hmeans := h.means
      cases status with
      | expired =>
          obtain ⟨⟨t, ht, hlate⟩, hcancels⟩ := hmeans
          exact ⟨⟨t, List.mem_cons_of_mem _ ht, hlate⟩, hcancels⟩
      | pending => trivial
      | active => exact hmeans
      | filled => exact hmeans
      | cancelled => exact hmeans
    · exact congrArg (currentBlock :: ·) h.ticks_eq
    · obtain ⟨t, ht, hdeadline⟩ := hlate
      rcases List.mem_cons.mp ht with rfl | ht
      · by_contra hopen
        exact hexpires ⟨by simpa using hopen, hdeadline⟩
      · exact h.late ⟨t, ht, hdeadline⟩

/-- What others write. -/
theorem settling_other (h : Settling hash printed info old ticks s status) (w : Write κ)
    (hprudent : Prudent hash printed info s (.other w))
    (hs' : s' = { s with db := other w s.number s.logs s.db }) :
    Settles hash printed info old s' status := by
  have hfills := (fillsGrow_other w s.number s.logs s.db).fillsOf hash
  cases w with
  | createOrder hash' info' printed' =>
      subst hs'
      refine (h.keepDb (h.row.createOrder hash' info' printed') hfills ?_).settles
      simp only [Database.createOrder]
      split <;> rfl
  | cancelOrder hash' =>
      subst hs'
      have hrow := h.row.setStatus hash' .cancelled
      rw [if_neg (Ne.symm hprudent)] at hrow
      exact (h.keepDb hrow hfills rfl).settles
  | expire currentBlock =>
      by_cases hpast : currentBlock < s.number
      · refine settling_expire h hpast (fun hlate hopen => ?_) (by simpa [other, hpast] using hs')
        exact hprudent hpast hlate (h.row.isOpenIn_eq.trans hopen)
      · have hsame : s' = s := by simpa [other, hpast] using hs'
        rw [hsame]
        exact h.settles
  | setFallback hash' id =>
      by_cases hlogged : fallbackLogged s.logs hash' id = true
      · have hs' : s' = { s with db := s.db.setFallback hash' } := by
          simpa [other, hlogged] using hs'
        have hrow := h.row.setFallback hash'
        subst hs'
        by_cases heq : hash = hash'
        · subst heq
          rw [if_pos rfl] at hrow
          obtain ⟨l, hl, -, hargs⟩ := fallbackLogged_iff.mp hlogged
          have hmoved : Settling hash printed info old ticks { s with db := s.db.setFallback hash }
              .filled :=
            h.move hrow rfl rfl rfl rfl (fun _ _ hw => hw) (fun _ => Or.inl) (Or.inl rfl)
              (Or.inr ⟨l, hl, isFallback_iff.mpr hargs⟩)
          exact hmoved.settlesOpen (Or.inl rfl)
        · rw [if_neg heq] at hrow
          exact (h.keepDb hrow ⟨[], rfl⟩ rfl).settles
      · have hsame : s' = s := by simpa [other, hlogged] using hs'
        rw [hsame]
        exact h.settles
  | insertFallback row =>
      subst hs'
      have hrow :
          HasStatus (other (.insertFallback row) s.number s.logs s.db) hash printed info status ∧
          (other (.insertFallback row) s.number s.logs s.db).ticks = s.db.ticks := by
        simp only [other]
        split
        · cases hinsert : s.db.insertFill row.row with
          | none => exact ⟨h.row, rfl⟩
          | some db' =>
              refine ⟨h.row.insertFill hinsert, ?_⟩
              rcases insertFill_spec hinsert with ⟨-, rfl⟩ | ⟨-, -, rfl⟩ <;> rfl
        · exact ⟨h.row, rfl⟩
      exact (h.keepDb hrow.1 hfills hrow.2).settles

/-- The write of a status, by the handler of a fill or of a fallback. -/
theorem settling_updateStatus (h : Settling hash printed info old ticks s status)
    (hsourced : Indexer.Sourced s) (hlaw : FillsLaw s) {l : Log (Event κ)} {hash' : κ}
    {status' : OrderStatus} (hworks : Indexer.Works s l (.updateStatus hash' status'))
    (hprudent : hash' = hash → status' = .active → status.isOpen = true)
    (hnumber : s'.number = s.number) (hlogs : s'.logs = s.logs)
    (hdb : s'.db = s.db.setStatus hash' status')
    (happlied : ∀ l' ∈ s'.applied, l' ∈ s.applied ∨ l' = l)
    (hworks' : ∀ l' j', Indexer.Works s' l' j' → Indexer.Works s l' j') :
    Settles hash printed info old s' status := by
  have hfills : s'.db.fillsOf hash = s.db.fillsOf hash := by
    rw [hdb]
    rfl
  have hticks : s'.db.ticks = s.db.ticks := by
    rw [hdb]
    rfl
  have hrow := h.row.setStatus hash' status'
  rw [← hdb] at hrow
  by_cases heq : hash = hash'
  · subst heq
    rw [if_pos rfl] at hrow
    rcases h.due l status' hworks with ⟨rfl, hfill, hearly⟩ | ⟨rfl, hdone⟩
    · -- a fill that did not complete the order, over an open one
      have hopen := hprudent rfl rfl
      obtain ⟨filler, fillAmount, outputAmount, hargs⟩ := isFill_iff.mp hfill
      have hnew : AppliedAs hash printed info s'.db .active l := by
        refine ⟨fun _ => Or.inr ⟨by decide, hearly.grow ⟨[], hfills⟩⟩, fun hl => ?_, fun hl => ?_⟩
        · obtain ⟨_, _, hother⟩ := isFallback_iff.mp hl
          rw [hargs] at hother
          cases hother
        · obtain ⟨-, hother⟩ := isCancel_iff.mp hl
          rw [hargs] at hother
          cases hother
      refine (h.move hrow hnumber hlogs hfills hticks (fun l' _ => hworks' l' _) (fun l' hl' => ?_)
        (Or.inr ⟨hopen, by decide⟩) ⟨l, ?_, hfill⟩).settlesOpen (Or.inr hopen)
      · rcases happlied l' hl' with hold | rfl
        · exact Or.inl hold
        · exact Or.inr hnew
      · rw [hlogs]
        exact hsourced.works hworks
    · exact (h.move hrow hnumber hlogs hfills hticks (fun l' _ => hworks' l' _)
        (fun l' _ => Or.inr (appliedAs_filled _ l')) (Or.inl rfl)
        (hdone.grow ⟨[], hfills⟩ (by rw [hlogs]; exact fun _ hl => hl))).settlesOpen (Or.inl rfl)
  · rw [if_neg heq] at hrow
    -- the log is about the other order
    have hnew : AppliedAs hash printed info s'.db status l := by
      have hargs := (hlaw.stored.works l _ hworks).update_inv
      refine appliedAs_of_not (fun hl => ?_) (fun hl => ?_) fun hl => ?_
      · obtain ⟨_, _, _, hown⟩ := isFill_iff.mp hl
        rcases hargs with ⟨_, _, _, hargs, -⟩ | ⟨_, _, hargs, -⟩
        all_goals
          rw [hargs] at hown
          cases hown
        exact heq rfl
      · obtain ⟨_, _, hown⟩ := isFallback_iff.mp hl
        rcases hargs with ⟨_, _, _, hargs, -⟩ | ⟨_, _, hargs, -⟩
        all_goals
          rw [hargs] at hown
          cases hown
        exact heq rfl
      · obtain ⟨-, hown⟩ := isCancel_iff.mp hl
        rcases hargs with ⟨_, _, _, hargs, -⟩ | ⟨_, _, hargs, -⟩
        all_goals
          rw [hargs] at hown
          cases hown
    exact (h.keep hrow (Nat.le_of_eq hnumber.symm) (by rw [hlogs]; exact fun _ hl => hl)
      (by rw [hlogs]; exact fun _ => Or.inl) ⟨[], hfills⟩ hticks
      (fun l' _ hw => Or.inl (hworks' l' _ hw))
      fun l' hl' => (happlied l' hl').imp_right (by rintro rfl; exact hnew)).settles

/-- A cancellation. -/
theorem settling_cancelNonce (h : Settling hash printed info old ticks s status)
    (hsourced : Indexer.Sourced s) (hlaw : FillsLaw s) {l : Log (Event κ)} {swapper : Address}
    {nonce : Uint 256} (hworks : Indexer.Works s l (.cancelNonce swapper nonce))
    (hprudent : isCancel printed info l = true → (info.deadline : Nat) < l.blockNumber →
      status.isOpen = false)
    (hnumber : s'.number = s.number) (hlogs : s'.logs = s.logs)
    (hdb : s'.db = s.db.cancelNonce swapper nonce)
    (happlied : ∀ l' ∈ s'.applied, l' ∈ s.applied ∨ l' = l)
    (hworks' : ∀ l' j', Indexer.Works s' l' j' → Indexer.Works s l' j') :
    Settles hash printed info old s' status := by
  have hargs := (hlaw.stored.works l _ hworks).cancel_inv
  have hfill : ¬isFill hash l = true := fun hl => by
    obtain ⟨_, _, _, hown⟩ := isFill_iff.mp hl
    rw [hargs] at hown
    cases hown
  have hfallback : ¬isFallback hash l = true := fun hl => by
    obtain ⟨_, _, hown⟩ := isFallback_iff.mp hl
    rw [hargs] at hown
    cases hown
  have hfills : s'.db.fillsOf hash = s.db.fillsOf hash := by
    rw [hdb]
    rfl
  have hticks : s'.db.ticks = s.db.ticks := by
    rw [hdb]
    rfl
  have hrow := h.row.cancelNonce swapper nonce
  rw [← hdb] at hrow
  -- with the status as it was, if the log says nothing against it
  have hkept : HasStatus s'.db hash printed info status →
      (isCancel printed info l = true → status.isOpen = false) →
      Settles hash printed info old s' status := by
    intro hrow hclosed
    have hnew : AppliedAs hash printed info s'.db status l :=
      ⟨fun hl => absurd hl hfill, fun hl => absurd hl hfallback, hclosed⟩
    exact (h.keep hrow (Nat.le_of_eq hnumber.symm) (by rw [hlogs]; exact fun _ hl => hl)
      (by rw [hlogs]; exact fun _ => Or.inl) ⟨[], hfills⟩ hticks
      (fun l' _ hw => Or.inl (hworks' l' _ hw))
      fun l' hl' => (happlied l' hl').imp_right (by rintro rfl; exact hnew)).settles
  by_cases hown : printed = true ∧ info.swapper = swapper ∧ info.nonce = nonce
  · obtain ⟨rfl, rfl, rfl⟩ := hown
    have hcancel : isCancel true info l = true := isCancel_iff.mpr ⟨rfl, hargs⟩
    cases hopen : status.isOpen with
    | false =>
        rw [if_neg (by simp [hopen])] at hrow
        rw [hopen] at hkept
        exact hkept hrow fun _ => rfl
    | true =>
        rw [if_pos ⟨rfl, rfl, rfl, hopen⟩] at hrow
        have hintime : cancelsInTime true info l = true := by
          simp only [cancelsInTime, hcancel, Bool.true_and, decide_eq_true_eq]
          by_contra hlate
          have hclosed := hprudent hcancel (Nat.lt_of_not_le hlate)
          rw [hopen] at hclosed
          cases hclosed
        have hnew : AppliedAs hash true info s'.db .cancelled l :=
          ⟨fun hl => absurd hl hfill, fun hl => absurd hl hfallback, fun _ => rfl⟩
        refine (h.move hrow hnumber hlogs hfills hticks (fun l' _ => hworks' l' _)
          (fun l' hl' => (happlied l' hl').imp_right (by rintro rfl; exact hnew))
          (Or.inr ⟨hopen, by decide⟩) ⟨l, ?_, hintime⟩).settlesOpen (Or.inr hopen)
        rw [hlogs]
        exact hsourced.works hworks
  · rw [if_neg fun hmatch => hown ⟨hmatch.1, hmatch.2.1, hmatch.2.2.1⟩] at hrow
    refine hkept hrow fun hcancel => ?_
    obtain ⟨hprinted, hother⟩ := isCancel_iff.mp hcancel
    rw [hargs] at hother
    cases hother
    exact absurd ⟨hprinted, rfl, rfl⟩ hown

/-- The step lemma of a status. -/
theorem settling_change {a : Action κ} (hsourced : Indexer.Sourced s) (hlaw : FillsLaw s)
    (h : Settling hash printed info old ticks s status) (hprudent : Prudent hash printed info s a)
    (hchange : Indexer.Change eventIndexer s a s') : Settles hash printed info old s' status := by
  cases hchange with
  | quiet number logs db applied works =>
      have hsame : ∀ l ∈ s.logs, l ∈ s'.logs := by
        rw [logs]
        exact fun _ hl => hl
      refine (h.keep (by rw [db]; exact h.row) number hsame (by rw [logs]; exact fun _ => Or.inl)
        ⟨[], by rw [db]; rfl⟩ (by rw [db]) (fun l status' hl => ?_)
        (by rw [applied]; exact fun _ => Or.inl)).settles
      rcases works l _ hl with hold | ⟨hmem, hstart⟩
      · exact Or.inl hold
      · -- the first statement of a fallback
        obtain ⟨⟨amountIn, amountOut, hargs⟩, rfl⟩ := handle_eq_updateStatus hstart.symm
        exact Or.inr (Or.inr
          ⟨rfl, Or.inr ⟨l, hsame l hmem, isFallback_iff.mpr ⟨amountIn, amountOut, hargs⟩⟩⟩)
  | emitted events action ids fresh number logs db applied works =>
      refine (h.keep (by rw [db]; exact h.row) (Nat.le_of_eq number.symm) (fun l hl => ?_)
        (fun l hl => ?_) ⟨[], by rw [db]; rfl⟩ (by rw [db]) (fun l _ hl => Or.inl (works l _ hl))
        (by rw [applied]; exact fun _ => Or.inl)).settles
      · rw [logs]
        exact List.mem_append_right _ hl
      · rw [logs] at hl
        rcases List.mem_append.mp hl with hl | hl
        · obtain ⟨e, -, rfl⟩ := List.mem_map.mp hl
          exact Or.inr (Nat.le_refl _)
        · exact Or.inl hl
  | other w action hs' =>
      subst action
      exact settling_other h w hprudent hs'
  | executed i outcome action answered l j next hand number logs exec applied works =>
      subst action
      obtain ⟨hactive, hcancel⟩ := hprudent answered (l, j) hand
      rw [h.row.isOpenIn_eq] at hactive hcancel
      have hworks : Indexer.Works s l j := ⟨i, hand⟩
      have hexec := exec_spec exec
      have hfills := (fillsGrow_executes (hsourced.works hworks) (hlaw.stored.works l j hworks)
        hexec).fillsOf hash
      -- the database a statement leaves without the order's row
      have hkeep : HasStatus s'.db hash printed info status →
          s'.db.ticks = s.db.ticks → next ≠ none →
          (∀ status', next = some (.updateStatus hash status') → Due hash info s' l status') →
          Settles hash printed info old s' status := by
        intro hrow hticks hnext hdue
        refine (h.keep hrow (Nat.le_of_eq number.symm) (by rw [logs]; exact fun _ hl => hl)
          (by rw [logs]; exact fun _ => Or.inl) hfills hticks (fun l' status' hl' => ?_)
          fun l' hl' => ?_).settles
        · rcases works l' _ hl' with hold | ⟨rfl, hnew⟩
          · exact Or.inl hold
          · exact Or.inr (hdue status' hnew)
        · rcases applied with hsame | ⟨hnone, -⟩
          · rw [hsame] at hl'
            exact Or.inl hl'
          · exact absurd hnone hnext
      have happlied : ∀ l' ∈ s'.applied, l' ∈ s.applied ∨ l' = l := by
        intro l' hl'
        rcases applied with hsame | ⟨-, hadded⟩
        · rw [hsame] at hl'
          exact Or.inl hl'
        · rw [hadded] at hl'
          exact (List.mem_cons.mp hl').symm
      cases hexec with
      | insertFill row hinsert =>
          refine hkeep (h.row.insertFill hinsert) ?_ (by simp) fun _ hnext => (by cases hnext)
          rcases insertFill_spec hinsert with ⟨-, hdb⟩ | ⟨-, -, hdb⟩ <;> rw [hdb]
      | selectFilled hash' hdb =>
          refine hkeep (by rw [hdb]; exact h.row) (by rw [hdb]) (by simp) fun status' hnext => ?_
          cases hnext
          obtain ⟨filler, fillAmount, outputAmount, hargs, hstored⟩ :=
            (hlaw.stored.works l _ hworks).select_inv
          exact due_newStatus hlaw (hsourced.works hworks) h.row hargs hstored hdb
      | updateStatus hash' status' hdb =>
          refine settling_updateStatus h hsourced hlaw hworks (fun heq hstatus => ?_) number logs
            hdb happlied fun l' j' hl' => ?_
          · subst heq hstatus
            exact hactive rfl
          · exact (works l' j' hl').resolve_right fun hnew => (by cases hnew.2)
      | cancelNonce swapper nonce hdb =>
          refine settling_cancelNonce h hsourced hlaw hworks hcancel number logs hdb happlied
            fun l' j' hl' => ?_
          exact (works l' j' hl').resolve_right fun hnew => (by cases hnew.2)

end Steps

end EventIndexer

end NeutronX
