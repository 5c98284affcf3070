import NeutronX.CrossChain.Service

/-!
# What a statement does to a row

`RowStep` lists the changes of one fill's row, each with the statement that
makes it and the status it was made in; every fact about the service is a
case analysis on it. The statements of the watchers carry that status in
their `WHERE`; the authorisation does not, and its row is only found by id.
-/

namespace NeutronX.CrossChain

open Evm Sql
open OrderService (check check_eq_ok)

variable {κ A H : Type}

/-! ## Rows of fills -/

inductive RowStep (id : Nat) (r : FillRow κ A H) : Statement κ A H → FillRow κ A H → Prop
  | same (st) : RowStep id r st r
  | signed (sig : Bytes) (t1 : Nat) :
      RowStep id r (.setFillSig id sig t1)
        { r with swapperSig := some sig, t1 := t1, status := .authorized }
  | dstFunded (escrow : A) (hstatus : r.status = .quoted) :
      RowStep id r (.recordDstFunded r.orderHash r.hashlock escrow)
        { r with escrowDstAddr := some escrow, status := .dstFunded }
  | srcLocked (escrow : A) (hstatus : r.status = .authorized) :
      RowStep id r (.recordSrcLocked r.orderHash r.hashlock escrow r.filler)
        { r with escrowSrcAddr := some escrow, status := .srcLocked }
  | revealed (secret : Bytes32) (hstatus : r.status = .srcLocked) :
      RowStep id r (.recordReveal r.orderHash r.hashlock secret)
        { r with secret := some secret, status := .revealed }
  | claimed (hstatus : r.status = .revealed) :
      RowStep id r (.recordClaimed r.orderHash r.hashlock) { r with status := .claimed }
  | slashed (hstatus : r.status = .authorized ∨ r.status = .srcLocked) :
      RowStep id r (.recordSlashed r.orderHash r.hashlock) { r with status := .slashed }

/-- The columns no statement changes. -/
structure SameKey (r r' : FillRow κ A H) : Prop where
  orderHash : r'.orderHash = r.orderHash
  hashlock : r'.hashlock = r.hashlock
  filler : r'.filler = r.filler
  fillAmount : r'.fillAmount = r.fillAmount
  t2 : r'.t2 = r.t2

theorem SameKey.refl (r : FillRow κ A H) : SameKey r r := ⟨rfl, rfl, rfl, rfl, rfl⟩

theorem RowStep.sameKey {id : Nat} {r r' : FillRow κ A H} {st : Statement κ A H}
    (h : RowStep id r st r') : SameKey r r' := by
  cases h <;> exact ⟨rfl, rfl, rfl, rfl, rfl⟩

/-- Nothing becomes a quote again. -/
theorem RowStep.quoted {id : Nat} {r r' : FillRow κ A H} {st : Statement κ A H}
    (h : RowStep id r st r') (hquoted : r'.status = .quoted) : r.status = .quoted := by
  cases h with
  | same => exact hquoted
  | _ => cases hquoted

/-- What is signed of an order, and where it lives. -/
structure SameOrder (o o' : OrderRow A) : Prop where
  info : o'.info = o.info
  reactorAddr : o'.reactorAddr = o.reactorAddr
  chainAId : o'.chainAId = o.chainAId
  dstChainId : o'.dstChainId = o.dstChainId

theorem SameOrder.refl (o : OrderRow A) : SameOrder o o := ⟨rfl, rfl, rfl, rfl⟩

namespace Db

variable [DecidableEq κ] [DecidableEq A] [DecidableEq H] {db : Db κ A H} {st : Statement κ A H}

/-- Fill ids are handed out once. -/
def Fresh (db : Db κ A H) : Prop := ∀ id, db.nextFillId ≤ id → db.fills id = none

omit [DecidableEq κ] [DecidableEq A] [DecidableEq H] in
theorem fresh_init : (init : Db κ A H).Fresh := fun _ _ => rfl

omit [DecidableEq A] in
theorem record_evolves (orderHash : κ) (hashlock : H) {from_ : FillRow κ A H → Bool}
    {set : FillRow κ A H → FillRow κ A H}
    (hstep : ∀ id r, r.orderHash = orderHash → r.hashlock = hashlock → from_ r = true →
      RowStep id r st (set r)) :
    Table.Evolves (fun id r r' => RowStep id r st r') db.fills
      (db.record orderHash hashlock from_ set).fills := by
  refine Table.evolves_updateWhere (fun _ r => .same st) fun id r hp => ?_
  simp only [Bool.and_eq_true, decide_eq_true_eq] at hp
  exact hstep id r hp.1.1 hp.1.2 hp.2

omit [DecidableEq A] in
/-- The update of a row that it is for. -/
theorem record_fills {id : Nat} {r : FillRow κ A H} {from_ : FillRow κ A H → Bool}
    {set : FillRow κ A H → FillRow κ A H} (hr : db.fills id = some r) (hfrom : from_ r = true) :
    (db.record r.orderHash r.hashlock from_ set).fills id = some (set r) := by
  simp [record, Table.updateWhere, hr, hfrom]

/-- **What one statement does to every row.** -/
theorem execute_evolves (hfresh : db.Fresh) (st : Statement κ A H) :
    Table.Evolves (fun id r r' => RowStep id r st r') db.fills (db.execute st).fills := by
  cases st with
  | insertOrder orderHash row =>
      intro id r hr
      refine ⟨r, ?_, .same _⟩
      simp only [execute]
      split <;> exact hr
  | setOrderSig orderHash sig => exact fun id r hr => ⟨r, hr, .same _⟩
  | insertFill quote =>
      simp only [execute]
      split
      · exact Table.evolves_insert (fun _ _ => .same _) _ (hfresh _ (Nat.le_refl _))
      · exact fun id r hr => ⟨r, hr, .same _⟩
  | setFillSig fillId sig t1 =>
      refine Table.evolves_updateWhere (fun _ _ => .same _) fun id r hp => ?_
      obtain rfl : id = fillId := by simpa using hp
      exact .signed sig t1
  | recordDstFunded orderHash hashlock escrow =>
      refine record_evolves orderHash hashlock fun id r horder hhash hstatus => ?_
      subst horder hhash
      exact .dstFunded escrow (by simpa using hstatus)
  | recordSrcLocked orderHash hashlock escrow filler =>
      refine record_evolves orderHash hashlock fun id r horder hhash hstatus => ?_
      simp only [Bool.and_eq_true, beq_iff_eq] at hstatus
      obtain ⟨hstatus, rfl⟩ := hstatus
      subst horder hhash
      exact .srcLocked escrow hstatus
  | recordReveal orderHash hashlock secret =>
      refine record_evolves orderHash hashlock fun id r horder hhash hstatus => ?_
      subst horder hhash
      exact .revealed secret (by simpa using hstatus)
  | recordClaimed orderHash hashlock =>
      refine record_evolves orderHash hashlock fun id r horder hhash hstatus => ?_
      subst horder hhash
      exact .claimed (by simpa using hstatus)
  | recordSlashed orderHash hashlock =>
      refine record_evolves orderHash hashlock fun id r horder hhash hstatus => ?_
      subst horder hhash
      exact .slashed (by simpa using hstatus)

/-- A row that was not there before is a quote. -/
theorem execute_new {id : Nat} {r : FillRow κ A H} (hbefore : db.fills id = none)
    (h : (db.execute st).fills id = some r) :
    ∃ q, st = .insertFill q ∧ db.admits q = true ∧ id = db.nextFillId ∧ r = q.row := by
  have updated : ∀ {p f}, (db.fills.updateWhere p f) id = some r → False := fun heq => by
    obtain ⟨r₀, hr₀, -⟩ := Table.updateWhere_eq_some.mp heq
    simp [hbefore] at hr₀
  cases st with
  | insertOrder orderHash row =>
      simp only [execute] at h
      split at h <;> simp [hbefore] at h
  | setOrderSig orderHash sig => simp [execute, hbefore] at h
  | insertFill q =>
      simp only [execute] at h
      split at h
      case isFalse => simp [hbefore] at h
      case isTrue hadmits =>
          by_cases hid : id = db.nextFillId
          · subst hid
            obtain rfl : q.row = r := by simpa [Table.insert] using h
            exact ⟨q, rfl, hadmits, rfl, rfl⟩
          · simp [Table.insert, hid, hbefore] at h
  | setFillSig | recordDstFunded | recordSrcLocked | recordReveal | recordClaimed
  | recordSlashed =>
      simp only [execute, recordDstFunded, recordSrcLocked, recordReveal, recordClaimed,
        recordSlashed, record] at h
      exact (updated h).elim

/-- Where a row comes from: a row before it, or a quote. -/
theorem execute_back (hfresh : db.Fresh) {id : Nat} {r' : FillRow κ A H}
    (h : (db.execute st).fills id = some r') :
    (∃ r, db.fills id = some r ∧ RowStep id r st r') ∨
      (db.fills id = none ∧ ∃ q, st = .insertFill q ∧ db.admits q = true ∧ r' = q.row) := by
  cases hbefore : db.fills id with
  | none =>
      obtain ⟨q, hst, hadmits, -, hrow⟩ := execute_new hbefore h
      exact .inr ⟨rfl, q, hst, hadmits, hrow⟩
  | some r =>
      obtain ⟨r'', hr'', hstep⟩ := execute_evolves hfresh st id r hbefore
      obtain rfl := Option.some.inj (hr''.symm.trans h)
      exact .inl ⟨r, rfl, hstep⟩

theorem execute_fresh (hfresh : db.Fresh) (st : Statement κ A H) : (db.execute st).Fresh := by
  intro id hid
  cases hr : (db.execute st).fills id with
  | none => rfl
  | some r =>
      have hnext : db.nextFillId ≤ id := by
        cases st with
        | insertFill q => exact Nat.le_of_succ_le hid
        | insertOrder orderHash row =>
            simp only [execute] at hid
            split at hid <;> exact hid
        | _ => exact hid
      obtain ⟨q, rfl, -, hnew, -⟩ := execute_new (hfresh id hnext) hr
      exact absurd hid (by simp [execute, hnew])

theorem execute_orders (st : Statement κ A H) :
    Table.Evolves (fun _ o o' => SameOrder o o') db.orders (db.execute st).orders := by
  cases st with
  | insertOrder orderHash row =>
      simp only [execute]
      split
      · exact fun k o ho => ⟨o, ho, .refl o⟩
      case isFalse hnone =>
          exact Table.evolves_insert (fun _ o => .refl o) _ (by simpa using hnone)
  | setOrderSig orderHash sig =>
      exact Table.evolves_updateWhere (fun _ o => .refl o) fun k o _ => ⟨rfl, rfl, rfl, rfl⟩
  | _ => exact fun k o ho => ⟨o, ho, .refl o⟩

end Db

/-! ## Requests -/

namespace Service

variable [DecidableEq A] {svc : Service κ A H} {db : Db κ A H}

/-- The swapper of the fill's order signed the fill with this `t1`. -/
def Signs (svc : Service κ A H) (db : Db κ A H) (r : FillRow κ A H) (sig : Bytes) (t1 : Nat) :
    Prop :=
  ∃ o, db.orders r.orderHash = some o ∧
    svc.recoverAddress o.chainAId o.reactorAddr
      (svc.hashFill r.orderHash r.hashlock r.fillAmount t1 r.t2) sig = some o.info.swapper

omit [DecidableEq A] in
theorem Signs.later {db' : Db κ A H} {r r' : FillRow κ A H} {sig : Bytes} {t1 : Nat}
    (h : Signs svc db r sig t1) (hkey : SameKey r r')
    (horders : Table.Evolves (fun _ o o' => SameOrder o o') db.orders db'.orders) :
    Signs svc db' r' sig t1 := by
  obtain ⟨o, horder, hsig⟩ := h
  obtain ⟨o', horder', hsame⟩ := horders _ o horder
  refine ⟨o', by rw [hkey.orderHash, horder'], ?_⟩
  rw [hkey.orderHash, hkey.hashlock, hkey.fillAmount, hkey.t2, hsame.chainAId, hsame.reactorAddr,
    hsame.info]
  exact hsig

theorem verifySwapperSig_eq_ok {o : OrderRow A} {structHash : κ} {sig : Bytes} {u : Unit} :
    verifySwapperSig svc o structHash sig = .ok u ↔
      svc.recoverAddress o.chainAId o.reactorAddr structHash sig = some o.info.swapper := by
  unfold verifySwapperSig
  cases svc.recoverAddress o.chainAId o.reactorAddr structHash sig <;> simp

theorem setFillSwapperSig_spec {now id : Nat} {sig : Bytes} {newT1 : Option Nat}
    {st : Statement κ A H} (h : setFillSwapperSig svc now db id sig newT1 = .ok st) :
    ∃ r t1, db.fills id = some r ∧ r.status = .dstFunded ∧ Signs svc db r sig t1 ∧
      st = .setFillSig id sig t1 := by
  unfold setFillSwapperSig at h
  split at h
  case h_2 => cases h
  case h_1 r hrow =>
      split at h
      case h_2 => cases h
      case h_1 o horder =>
          simp only [bind_eq_ok, check_eq_ok, verifySwapperSig_eq_ok, pure_eq_ok] at h
          obtain ⟨_, hstatus, t1, -, _, hsig, rfl⟩ := h
          exact ⟨r, t1, hrow, hstatus, ⟨o, horder, hsig⟩, rfl⟩

/-- What a checked request is about to write. -/
inductive Checked (svc : Service κ A H) (db : Db κ A H) : Statement κ A H → Prop
  | order (info : OrderInfo A) (chainAId dstChainId : Nat) :
      Checked svc db (.insertOrder (svc.hashOrder info)
        ⟨info, none, svc.escrowSrcFactory chainAId, chainAId, dstChainId⟩)
  | orderSig (orderHash : κ) (sig : Bytes) : Checked svc db (.setOrderSig orderHash sig)
  | quote (q : Quote κ A H) (hterms : q.t1 < q.t2) : Checked svc db (.insertFill q)
  | fillSig (id : Nat) (r : FillRow κ A H) (sig : Bytes) (t1 : Nat) (hrow : db.fills id = some r)
      (hstatus : r.status = .dstFunded) (hsig : Signs svc db r sig t1) :
      Checked svc db (.setFillSig id sig t1)

theorem select_checked {now : Nat} {req : Request κ A H} {st : Statement κ A H}
    (h : svc.select now db req = .ok st) : Checked svc db st := by
  cases req with
  | createIntent info chainAId dstChainId =>
      simp only [select, createIntent, bind_eq_ok, check_eq_ok, pure_eq_ok] at h
      obtain ⟨_, -, _, -, _, -, _, -, rfl⟩ := h
      exact .order info chainAId dstChainId
  | setOrderSwapperSig orderHash sig =>
      simp only [select, setOrderSwapperSig, bind_eq_ok, pure_eq_ok] at h
      obtain ⟨o, -, _, -, rfl⟩ := h
      exact .orderSig orderHash sig
  | createFillQuote q =>
      simp only [select, createFillQuote, bind_eq_ok, check_eq_ok, pure_eq_ok] at h
      obtain ⟨o, -, _, -, _, hterms, _, -, rfl⟩ := h
      exact .quote q hterms
  | setFillSwapperSig id sig newT1 =>
      obtain ⟨r, t1, hrow, hstatus, hsig, rfl⟩ := setFillSwapperSig_spec h
      exact .fillSig id r sig t1 hrow hstatus hsig

variable [DecidableEq κ] [DecidableEq H]

omit [DecidableEq κ] [DecidableEq A] [DecidableEq H] in
/-- The statement an instruction runs satisfies `Q`. -/
def Move.Runs (Q : ServiceState κ A H → Statement κ A H → Prop) (s : ServiceState κ A H) :
    Move κ A H → Prop
  | .request _ _ => True
  | .execute place => ∀ st ∈ s.pending[place]?, Q s st
  | .record st => Q s st

instance {Q : ServiceState κ A H → Statement κ A H → Prop} [∀ s st, Decidable (Q s st)]
    (s : ServiceState κ A H) : (m : Move κ A H) → Decidable (m.Runs Q s)
  | .request _ _ => .isTrue trivial
  | .execute place => inferInstanceAs (Decidable (∀ st ∈ s.pending[place]?, Q s st))
  | .record st => inferInstanceAs (Decidable (Q s st))

/-- An instruction is a step or nothing. -/
theorem move_step {Q : ServiceState κ A H → Statement κ A H → Prop} {s : ServiceState κ A H}
    {m : Move κ A H} (hQ : m.Runs Q s) : move svc s m = s ∨ Step svc Q s (move svc s m) := by
  cases m with
  | request now req =>
      simp only [move]
      split
      case h_1 st h => exact .inr (.request s now req st h)
      case h_2 => exact .inl rfl
  | execute place =>
      simp only [move]
      split
      case h_2 => exact .inl rfl
      case h_1 st hst =>
          obtain ⟨hlt, rfl⟩ := List.getElem?_eq_some_iff.mp hst
          have hsplit : s.pending = s.pending.take place ++ s.pending[place]
              :: s.pending.drop (place + 1) := by simp
          rw [List.eraseIdx_eq_take_drop_succ]
          exact .inr (.execute s _ _ _ hsplit (hQ _ hst))
  | record st =>
      simp only [move]
      split
      case isTrue hrecord => exact .inr (.record s st hrecord hQ)
      case isFalse => exact .inl rfl

end Service

end NeutronX.CrossChain
