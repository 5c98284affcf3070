import NeutronX.CrossChain.BackendSteps
import NeutronX.CrossChain.FillProgress

/-!
# What backs a fill

`Genuine` is what the destination watcher has checked when it records an
escrow; it is a property of things that last, so it holds of the table
from then on (`Backed`). The watcher finds the quote by its hashlock alone
and reads a log again as long as it lies in the rescanned range, so the
same escrow is offered to every quote with that hashlock, of whatever
order. One fill per escrow is what quotes that lie `Apart` have.
-/

namespace NeutronX.CrossChain

open Evm Sql Function
open OrderService (check_eq_ok)

namespace Backend

variable {κ A W H : Type} [Zero A] {b : Backend κ A W H} {s s' : BackendState κ A W H}

/-! ## Genuine escrows -/

/-- The escrow of `(h, f)` has the terms that the quote and its order `o`
ask for. -/
structure Backs (b : Backend κ A W H) (s : BackendState κ A W H) (r : FillRow κ A H)
    (o : OrderRow A) (h : Bytes32) (f : A) (t : DstTerms A) : Prop where
  order : s.db.orders r.orderHash = some o
  hashlock : r.hashlock = b.hex h
  terms : ((s.destination o.dstChainId).escrows h f).terms = some t
  recipient : t.recipient = o.info.swapper
  token : t.token = o.info.outputToken
  amount : r.fillAmount ≤ t.amount
  expiry : t.expiry = r.t2

/-- What `assertGenuineDstClone` finds out about the escrow at `a`. -/
def Genuine (b : Backend κ A W H) (s : BackendState κ A W H) (r : FillRow κ A H) (a : A) : Prop :=
  ∃ o h f t, Backs b s r o h f t ∧ a = (b.destination o.dstChainId).computeAddress h f

theorem Backs.later {r r' : FillRow κ A H} {o : OrderRow A} {h : Bytes32} {f : A} {t : DstTerms A}
    (hback : Backs b s r o h f t) (hlast : Lasting s s') (hkey : SameKey r r') :
    ∃ o', SameOrder o o' ∧ Backs b s' r' o' h f t := by
  obtain ⟨o', ho', hsame⟩ := hlast.orders _ o hback.order
  refine ⟨o', hsame, ?_⟩
  constructor
  · rw [hkey.orderHash, ho']
  · rw [hkey.hashlock, hback.hashlock]
  · rw [hsame.dstChainId]
    exact hlast.terms _ h f t hback.terms
  · rw [hsame.info, hback.recipient]
  · rw [hsame.info, hback.token]
  · rw [hkey.fillAmount]
    exact hback.amount
  · rw [hkey.t2, hback.expiry]

theorem Genuine.later {r r' : FillRow κ A H} {a : A} (hgenuine : Genuine b s r a)
    (hlast : Lasting s s') (hkey : SameKey r r') : Genuine b s' r' a := by
  obtain ⟨o, h, f, t, hback, rfl⟩ := hgenuine
  obtain ⟨o', hsame, hback'⟩ := hback.later hlast hkey
  exact ⟨o', h, f, t, hback', by rw [hsame.dstChainId]⟩

/-! ## What the watcher has in hand -/

/-- The quote a log was matched with is a fill of an order that settles on
`c`. -/
def Looked (b : Backend κ A W H) (s : BackendState κ A W H) (c : Nat) (q : Lookup κ A) : Prop :=
  ∃ id r o, s.db.fills id = some r ∧ s.db.orders r.orderHash = some o ∧ o.dstChainId = c ∧
    q.orderHash = r.orderHash ∧ r.hashlock = b.hex q.hashlock ∧
    q.expected = ⟨o.info.swapper, o.info.outputToken, r.fillAmount, r.t2⟩

/-- What was established before a statement could wait. -/
def Justified (b : Backend κ A W H) (s : BackendState κ A W H) : Statement κ A H → Prop
  | .recordDstFunded k h a =>
      ∃ id r, s.db.fills id = some r ∧ r.orderHash = k ∧ r.hashlock = h ∧ Genuine b s r a
  | .setFillSig id _ _ => ∃ r, s.db.fills id = some r ∧ r.status ≠ .quoted
  | _ => True

theorem Looked.later {c : Nat} {q : Lookup κ A} (hlooked : Looked b s c q)
    (hlast : Lasting s s') : Looked b s' c q := by
  obtain ⟨id, r, o, hr, ho, hc, hk, hh, hexpected⟩ := hlooked
  obtain ⟨r', hr', hkey, -⟩ := hlast.rows id r hr
  obtain ⟨o', ho', hsame⟩ := hlast.orders _ o ho
  refine ⟨id, r', o', hr', by rw [hkey.orderHash, ho'], by rw [hsame.dstChainId, hc],
    by rw [hkey.orderHash, hk], by rw [hkey.hashlock, hh], ?_⟩
  rw [hexpected, hsame.info, hkey.fillAmount, hkey.t2]

theorem Justified.later {st : Statement κ A H} (hst : Justified b s st) (hlast : Lasting s s') :
    Justified b s' st := by
  unfold Justified at hst ⊢
  split
  case h_1 k h a =>
      obtain ⟨id, r, hr, rfl, rfl, hgenuine⟩ := hst
      obtain ⟨r', hr', hkey, -⟩ := hlast.rows id r hr
      exact ⟨id, r', hr', hkey.orderHash, hkey.hashlock, hgenuine.later hlast hkey⟩
  case h_2 id sig t1 =>
      obtain ⟨r, hr, hstatus⟩ := hst
      obtain ⟨r', hr', -, hquoted⟩ := hlast.rows id r hr
      exact ⟨r', hr', fun h => hstatus (hquoted h)⟩
  case h_3 => trivial

variable [DecidableEq κ] [DecidableEq A] [DecidableEq H]

omit [DecidableEq κ] [DecidableEq A] in
/-- `handleEscrowCreated` up to its check. -/
theorem handleDst_looked {c choice : Nat} {e : DestinationEvent A} {j : DstWork κ A H}
    (h : b.handleDst s.db c choice e = some j) : ∃ q, j = .found q ∧ Looked b s c q := by
  unfold handleDst at h
  split at h
  case h_2 => cases h
  case h_1 escrow filler hashlock recipient token amount expiry =>
      obtain ⟨q, hq, rfl⟩ := Option.map_eq_some_iff.mp h
      refine ⟨q, rfl, ?_⟩
      simp only [findQuote, Option.bind_eq_bind, Option.bind_eq_some_iff] at hq
      obtain ⟨r, hrow, o, ho, hq⟩ := hq
      obtain ⟨id, hr, hp⟩ := Db.anyRow_eq_some hrow
      split at hq
      case isFalse => cases hq
      case isTrue hc =>
          obtain rfl := Option.some.inj hq
          simp only [Bool.and_eq_true, beq_iff_eq] at hp
          exact ⟨id, r, o, hr, ho, hc, rfl, hp.1, rfl⟩

omit [DecidableEq κ] [DecidableEq H] in
/-- What the check reads off the chain. -/
theorem assertGenuineDstClone_spec {x : DestinationState A W} {c : Nat} {h : Bytes32}
    {f a : A} {expected : Expected A} {u : Unit}
    (hok : b.assertGenuineDstClone x c h f a expected = .ok u) :
    (b.destination c).computeAddress h f = a ∧ ∃ t, (x.escrows h f).terms = some t ∧
      t.recipient = expected.recipient ∧ t.token = expected.token ∧
      expected.minAmount ≤ t.amount ∧ t.expiry = expected.expiry := by
  simp only [assertGenuineDstClone, bind_eq_ok, check_eq_ok] at hok
  obtain ⟨_, haddress, hrest⟩ := hok
  split at hrest
  case h_2 => cases hrest
  case h_1 t hterms =>
      simp only [bind_eq_ok, check_eq_ok] at hrest
      obtain ⟨_, hrecipient, _, htoken, _, hamount, hexpiry⟩ := hrest
      exact ⟨haddress, t, hterms, hrecipient, htoken, hamount, hexpiry⟩

omit [DecidableEq κ] [DecidableEq H] in
/-- And so what its statement is justified by. -/
theorem checkQuote_justified {c : Nat} {q : Lookup κ A} {st : Statement κ A H}
    (hlooked : Looked b s c q) (h : b.checkQuote (s.destination c) c q = some st) :
    Justified b s st := by
  obtain ⟨id, r, o, hr, ho, rfl, hk, hh, hexpected⟩ := hlooked
  unfold checkQuote at h
  split at h
  case h_2 => cases h
  case h_1 u hok =>
      obtain rfl := Option.some.inj h
      obtain ⟨ha, t, hterms, hrecipient, htoken, hamount, hexpiry⟩ :=
        assertGenuineDstClone_spec hok
      rw [hexpected] at hrecipient htoken hamount hexpiry
      exact ⟨id, r, hr, hk.symm, hh, o, q.hashlock, q.filler, t,
        ⟨ho, hh, hterms, hrecipient, htoken, hamount, hexpiry⟩, ha.symm⟩

omit [DecidableEq κ] in
omit [DecidableEq H] in
/-- The logs of the source chain tell nothing about the other escrow. -/
theorem handleSrc_justified {x : SourceState κ A W} {c choice : Nat} {e : SourceEvent κ A}
    {st : Statement κ A H} (h : b.handleSrc x s.db c choice e = some st) :
    Justified b s st := by
  unfold handleSrc at h
  split at h
  case h_1 =>
      unfold handleFilled at h
      split at h
      · obtain rfl := Option.some.inj h
        trivial
      · cases h
  case h_2 | h_3 =>
      obtain ⟨r, -, rfl⟩ := Option.map_eq_some_iff.mp h
      trivial
  case h_4 => cases h

omit [DecidableEq κ] [DecidableEq H] in
theorem select_justified {now : Nat} {req : Request κ A H} {st : Statement κ A H}
    (h : b.service.select now s.db req = .ok st) : Justified b s st := by
  cases Service.select_checked h with
  | fillSig id r sig t1 hrow hstatus => exact ⟨r, hrow, by simp [hstatus]⟩
  | order | orderSig | quote => trivial

/-! ## The table -/

/-- What holds of the recorded escrows, and of what is on its way to
record one. -/
structure Backed (b : Backend κ A W H) (s : BackendState κ A W H) : Prop where
  pending : ∀ st ∈ s.service.pending, Justified b s st
  source : ∀ c st, (s.srcWatcher c).work = some st → Justified b s st
  found : ∀ c q, (s.dstWatcher c).work = some (.found q) → Looked b s c q
  writing : ∀ c st, (s.dstWatcher c).work = some (.writing st) → Justified b s st
  genuine : ∀ id r a, s.db.fills id = some r → r.escrowDstAddr = some a → Genuine b s r a
  funded : ∀ id r, s.db.fills id = some r → r.status ≠ .quoted → ∃ a, r.escrowDstAddr = some a

omit [DecidableEq κ] [DecidableEq A] [DecidableEq H] in
theorem Backed.runs (hs : Backed b s) {m : b.Move} {st : Statement κ A H}
    (h : b.runs s m = some st) : Justified b s st := by
  rcases runs_cases h with hpending | ⟨c, hwork⟩ | ⟨c, hwork⟩
  · exact hs.pending st hpending
  · exact hs.source c st hwork
  · exact hs.writing c st hwork

omit [DecidableEq H] in
/-- The escrow column of one row, over one statement. -/
theorem Backed.row (hs : Backed b s) (hreg : Regular b s) {id : Nat} {r r' : FillRow κ A H}
    {st : Statement κ A H} (hst : Justified b s st) (hr : s.db.fills id = some r)
    (hstep : RowStep id r st r') :
    (∀ a, r'.escrowDstAddr = some a → Genuine b s r a) ∧
      (r'.status ≠ .quoted → ∃ a, r'.escrowDstAddr = some a) := by
  have hfunded := hs.funded id r hr
  have hgenuine := fun a ha => hs.genuine id r a hr ha
  cases hstep with
  | same => exact ⟨hgenuine, hfunded⟩
  | signed sig t1 =>
      obtain ⟨r₀, hr₀, hstatus⟩ := hst
      obtain rfl := Option.some.inj (hr.symm.trans hr₀)
      exact ⟨hgenuine, fun _ => hfunded hstatus⟩
  | dstFunded escrow hstatus =>
      obtain ⟨id₀, r₀, hr₀, hk, hh, hescrow⟩ := hst
      obtain rfl := hreg.unique id₀ id r₀ r hr₀ hr hk hh
      obtain rfl := Option.some.inj (hr.symm.trans hr₀)
      exact ⟨fun a ha => Option.some.inj ha ▸ hescrow, fun _ => ⟨escrow, rfl⟩⟩
  | srcLocked escrow hstatus => exact ⟨hgenuine, fun _ => hfunded (by simp [hstatus])⟩
  | revealed secret hstatus => exact ⟨hgenuine, fun _ => hfunded (by simp [hstatus])⟩
  | claimed hstatus => exact ⟨hgenuine, fun _ => hfunded (by simp [hstatus])⟩
  | slashed hstatus =>
      exact ⟨hgenuine, fun _ => hfunded (by rcases hstatus with h | h <;> simp [h])⟩

theorem backed_step (hreg : Regular b s) (hs : Backed b s) (m : b.Move) :
    Backed b (b.step s m) := by
  have hlast := lasting_step hreg m
  have hrow : ∀ id r', (b.step s m).db.fills id = some r' →
      (∀ a, r'.escrowDstAddr = some a → Genuine b (b.step s m) r' a) ∧
        (r'.status ≠ .quoted → ∃ a, r'.escrowDstAddr = some a) := by
    intro id r' hr'
    rcases step_back hreg m hr' with ⟨r, hr, rfl | ⟨st, hst, hstep⟩⟩ | ⟨-, q, -, -, rfl⟩
    · exact ⟨fun a ha => (hs.genuine id r' a hr ha).later hlast (.refl r'), hs.funded id r' hr⟩
    · obtain ⟨hgenuine, hfunded⟩ := hs.row hreg (hs.runs hst) hr hstep
      exact ⟨fun a ha => (hgenuine a ha).later hlast hstep.sameKey, hfunded⟩
    · exact ⟨nofun, fun h => absurd rfl h⟩
  constructor
  case pending =>
      intro st hst
      rcases step_pending m hst with hold | ⟨now, req, hselect⟩ | ⟨k, h, rfl⟩
      · exact (hs.pending st hold).later hlast
      · exact (select_justified hselect).later hlast
      · trivial
  case source =>
      intro c st hwork
      rcases step_srcWork hwork with hold | ⟨choice, e, -, hread⟩
      · exact (hs.source c st hold).later hlast
      · exact (handleSrc_justified hread).later hlast
  case found =>
      intro c q hwork
      rcases step_dstWork hwork with hold | ⟨choice, e, -, hread⟩ | ⟨q', st, -, -, heq⟩
      · exact (hs.found c q hold).later hlast
      · obtain ⟨q', heq, hlooked⟩ := handleDst_looked hread
        obtain rfl : q = q' := by simpa using heq
        exact hlooked.later hlast
      · cases heq
  case writing =>
      intro c st hwork
      rcases step_dstWork hwork with hold | ⟨choice, e, -, hread⟩ | ⟨q', st', hold, hcheck, heq⟩
      · exact (hs.writing c st hold).later hlast
      · obtain ⟨q', heq, -⟩ := handleDst_looked hread
        cases heq
      · obtain rfl : st = st' := by simpa using heq
        exact (checkQuote_justified (hs.found c q' hold) hcheck).later hlast
  case genuine => exact fun id r' a hr' ha => (hrow id r' hr').1 a ha
  case funded => exact fun id r' hr' hstatus => (hrow id r' hr').2 hstatus

omit [DecidableEq κ] [DecidableEq A] [DecidableEq H] in
theorem backed_init {source : Nat → SourceState κ A W} {destination : Nat → DestinationState A W} :
    Backed b (.init source destination) :=
  ⟨nofun, nofun, nofun, nofun, nofun, nofun⟩

theorem ReachableBy.backed {Q : BackendState κ A W H → b.Move → Prop} (hs : b.ReachableBy Q s) :
    Regular b s ∧ Backed b s :=
  hs.keep (fun _ _ => backed_init) fun hreg hs _ => backed_step hreg hs _

/-! ## One fill an escrow -/

omit [DecidableEq κ] [DecidableEq A] [DecidableEq H] in
/-- Fills with one hashlock that one account's escrow could back both, but
for its amount. On two destination chains it is two escrows with one
address. -/
def Clash (b : Backend κ A W H) (s : BackendState κ A W H) (r r' : FillRow κ A H) : Prop :=
  ∃ o o' h f, s.db.orders r.orderHash = some o ∧ s.db.orders r'.orderHash = some o' ∧
    r.hashlock = b.hex h ∧ r'.hashlock = b.hex h ∧
    (b.destination o.dstChainId).computeAddress h f =
      (b.destination o'.dstChainId).computeAddress h f ∧
    (o.dstChainId = o'.dstChainId → o.info.swapper = o'.info.swapper ∧
      o.info.outputToken = o'.info.outputToken ∧ r.t2 = r'.t2)

/-- No quote is admitted beside one it clashes with. -/
def Apart (b : Backend κ A W H) (s : BackendState κ A W H) (m : b.Move) : Prop :=
  ∀ q, b.runs s m = some (.insertFill q) → s.db.admits q = true →
    ∀ id r, s.db.fills id = some r → ¬ Clash b s r q.row

/-- No escrow is recorded for two fills that count on it. -/
def OneFillPerEscrow (s : BackendState κ A W H) : Prop :=
  ∀ id id' r r' a, s.db.fills id = some r → s.db.fills id' = some r' →
    FillStatus.dstFunded.rank ≤ r.status.rank → FillStatus.dstFunded.rank ≤ r'.status.rank →
    r.escrowDstAddr = some a → r'.escrowDstAddr = some a → id = id'

/-- No two rows clash. -/
def Separate (b : Backend κ A W H) (s : BackendState κ A W H) : Prop :=
  ∀ id id' r r', s.db.fills id = some r → s.db.fills id' = some r' → Clash b s r r' → id = id'

omit [DecidableEq κ] [DecidableEq A] [DecidableEq H] in
theorem Clash.symm {r r' : FillRow κ A H} (h : Clash b s r r') : Clash b s r' r := by
  obtain ⟨o, o', hl, f, ho, ho', hhash, hhash', haddress, hterms⟩ := h
  refine ⟨o', o, hl, f, ho', ho, hhash', hhash, haddress.symm, fun hc => ?_⟩
  obtain ⟨hswapper, htoken, ht2⟩ := hterms hc.symm
  exact ⟨hswapper.symm, htoken.symm, ht2.symm⟩

omit [DecidableEq κ] [DecidableEq A] [DecidableEq H] in
/-- A clash is one from the start. -/
theorem Clash.earlier {r₀ r₀' r r' : FillRow κ A H} (h : Clash b s' r r') (hlast : Lasting s s')
    (hkey : SameKey r₀ r) (hkey' : SameKey r₀' r')
    (horder : ∃ o, s.db.orders r₀.orderHash = some o)
    (horder' : ∃ o, s.db.orders r₀'.orderHash = some o) : Clash b s r₀ r₀' := by
  obtain ⟨o, o', hl, f, ho, ho', hhash, hhash', haddress, hterms⟩ := h
  obtain ⟨o₀, ho₀⟩ := horder
  obtain ⟨o₀', ho₀'⟩ := horder'
  have hsame : SameOrder o₀ o := by
    obtain ⟨o₁, ho₁, hsame⟩ := hlast.orders _ o₀ ho₀
    rw [← hkey.orderHash, ho] at ho₁
    exact Option.some.inj ho₁ ▸ hsame
  have hsame' : SameOrder o₀' o' := by
    obtain ⟨o₁, ho₁, hsame⟩ := hlast.orders _ o₀' ho₀'
    rw [← hkey'.orderHash, ho'] at ho₁
    exact Option.some.inj ho₁ ▸ hsame
  refine ⟨o₀, o₀', hl, f, ho₀, ho₀', by rw [← hkey.hashlock, hhash],
    by rw [← hkey'.hashlock, hhash'], ?_, fun hc => ?_⟩
  · rw [← hsame.dstChainId, ← hsame'.dstChainId, haddress]
  · rw [← hsame.info, ← hsame'.info, ← hkey.t2, ← hkey'.t2]
    exact hterms (by rw [hsame.dstChainId, hsame'.dstChainId, hc])

theorem separate_step (hreg : Regular b s) (hs : Separate b s) {m : b.Move} (hapart : Apart b s m) :
    Separate b (b.step s m) := by
  have hlast := lasting_step hreg m
  have horder : ∀ q, s.db.admits q = true → ∃ o, s.db.orders q.row.orderHash = some o :=
    fun q hadmits => ((Db.admits_eq_true hreg.fresh).mp hadmits).1
  -- a row before it, or a quote
  have hback : ∀ id r', (b.step s m).db.fills id = some r' →
      (∃ r, s.db.fills id = some r ∧ SameKey r r') ∨
      ∃ q, b.runs s m = some (.insertFill q) ∧ s.db.admits q = true ∧ r' = q.row := by
    intro id r' hr'
    rcases step_back hreg m hr' with ⟨r, hr, rfl | ⟨st, -, hstep⟩⟩ | ⟨-, hnew⟩
    · exact .inl ⟨r', hr, .refl r'⟩
    · exact .inl ⟨r, hr, hstep.sameKey⟩
    · exact .inr hnew
  intro id id' r r' hr hr' hclash
  rcases hback id r hr with ⟨r₀, hr₀, hkey⟩ | ⟨q, hq, hadmits, rfl⟩ <;>
    rcases hback id' r' hr' with ⟨r₀', hr₀', hkey'⟩ | ⟨q', hq', hadmits', rfl⟩
  · exact hs id id' r₀ r₀' hr₀ hr₀' (hclash.earlier hlast hkey hkey' (hreg.referenced id r₀ hr₀)
      (hreg.referenced id' r₀' hr₀'))
  · exact absurd (hclash.earlier hlast hkey (.refl _) (hreg.referenced id r₀ hr₀)
      (horder q' hadmits')) (hapart q' hq' hadmits' id r₀ hr₀)
  · exact absurd (hclash.earlier hlast (.refl _) hkey' (horder q hadmits)
      (hreg.referenced id' r₀' hr₀')).symm (hapart q hq hadmits id' r₀' hr₀')
  · obtain rfl : q = q' := by simpa [hq] using hq'
    exact (regular_step hreg m).unique id id' _ _ hr hr' rfl rfl

omit [DecidableEq κ] [DecidableEq A] [DecidableEq H] in
theorem separate_init {source : Nat → SourceState κ A W}
    {destination : Nat → DestinationState A W} :
    Separate b (.init source destination) :=
  fun _ _ _ _ hr => nomatch hr

theorem ReachableBy.separate (hs : b.ReachableBy (Apart b) s) : Separate b s :=
  (hs.keep (fun _ _ => separate_init) fun hreg hs hapart => separate_step hreg hs hapart).2

omit [DecidableEq κ] [DecidableEq A] [DecidableEq H] in
/-- Fills with one escrow clash. -/
theorem Genuine.clash {r r' : FillRow κ A H} {a : A} (h : Genuine b s r a)
    (h' : Genuine b s r' a) : Clash b s r r' := by
  obtain ⟨o, hl, f, t, hback, rfl⟩ := h
  obtain ⟨o', hl', f', t', hback', haddress⟩ := h'
  obtain ⟨rfl, rfl⟩ := b.dstAddress_injective haddress
  refine ⟨o, o', hl, f, hback.order, hback'.order, hback.hashlock, hback'.hashlock, haddress,
    fun hc => ?_⟩
  have hterms := hback.terms
  rw [hc] at hterms
  obtain rfl := Option.some.inj (hterms.symm.trans hback'.terms)
  exact ⟨hback.recipient.symm.trans hback'.recipient, hback.token.symm.trans hback'.token,
    hback.expiry.symm.trans hback'.expiry⟩

/-- **One escrow backs one fill**, where no quote is admitted beside one it
clashes with. -/
theorem ReachableBy.one_fill_per_escrow (hs : b.ReachableBy (Apart b) s) : OneFillPerEscrow s := by
  intro id id' r r' a hr hr' _ _ ha ha'
  obtain ⟨-, hbacked⟩ := hs.backed
  have hclash : Clash b s r r' :=
    (hbacked.genuine id r a hr ha).clash (hbacked.genuine id' r' a hr' ha')
  exact hs.separate id id' r r' hr hr' hclash

/-! ## Hashlocks that are used twice -/

/-- The hashlock of a quote that is inserted is no other fill's. -/
def unshared (b : Backend κ A W H) (s : BackendState κ A W H) (m : b.Move) : Bool :=
  match b.runs s m with
  | some (.insertFill q) => (s.db.fillsWhere fun r => r.hashlock == q.hashlock).isEmpty
  | _ => true

theorem unshared_apart {m : b.Move} (hreg : Regular b s) (h : unshared b s m = true) :
    Apart b s m := by
  rintro q hq - id r hr ⟨o, o', hl, f, -, -, hhash, hhash', -⟩
  simp only [unshared, hq, List.isEmpty_iff] at h
  have hfound : id ∈ s.db.fillsWhere fun r => r.hashlock == q.hashlock :=
    (Db.mem_fillsWhere hreg.fresh).mpr ⟨r, hr, beq_iff_eq.mpr (hhash.trans hhash'.symm)⟩
  simp [h] at hfound

/-- A funded fill, and a quote for another order of the same swapper, with the
hashlock `hashlock`, before the watcher drains one more block. -/
def quotedTwice (hashlock : Bytes32) : List Ledger.backend.Move :=
  Ledger.fundedFill ⟨2, 4, 100, 6, 90, 1000, 0, 3000⟩ ++
    Ledger.ordered ⟨2, 4, 100, 6, 90, 1000, 1, 3000⟩ ++
    Ledger.quoted ⟨⟨2, 4, 100, 6, 90, 1000, 1, 3000⟩, 14, 40, hashlock, 100, 200⟩ ++
    [.destination 2 (.tick ⟨1, 1⟩)] ++ Ledger.drained 11

/-- The log that funded the first fill is read again and funds the second
one too. -/
theorem escrow_backs_two_fills :
    ¬∀ s, Ledger.backend.Reachable s → OneFillPerEscrow s := by
  intro hall
  let escrow := Ledger.destinationChain.computeAddress 8 14
  let s := Ledger.backend.run (quotedTwice 8) (Ledger.launched (update₂ (fun _ _ => 0) 6 escrow 40))
  have hs : Ledger.backend.Reachable s :=
    run_reachableBy (P := fun _ _ => True) (fun _ => ⟨_, _, [], rfl⟩) (fun _ => ⟨_, _, [], rfl⟩)
      (fun _ _ _ h => h) (by decide +kernel)
  have hrow : ∀ id ∈ [1, 2], ∃ r, s.db.fills id = some r ∧
      (r.status, r.escrowDstAddr) = (.dstFunded, some escrow) := fun id hid =>
    Option.map_eq_some_iff.mp (by revert id; decide +kernel)
  obtain ⟨r, hr, hfunded⟩ := hrow 1 (by simp)
  obtain ⟨r', hr', hfunded'⟩ := hrow 2 (by simp)
  obtain ⟨hstatus, ha⟩ := Prod.mk.injEq .. |>.mp hfunded
  obtain ⟨hstatus', ha'⟩ := Prod.mk.injEq .. |>.mp hfunded'
  have hsame : 1 = 2 :=
    hall s hs 1 2 r r' escrow hr hr' (by simp [hstatus]) (by simp [hstatus']) ha ha'
  cases hsame

/-- With a hashlock of its own the second fill is not funded. -/
theorem one_fill_per_escrow_unshared :
    ∃ s, (s.db.fills 1).map (fun r => r.status) = some .dstFunded ∧
      (s.db.fills 2).map (fun r => r.status) = some .quoted ∧
      Ledger.backend.ReachableBy (Apart Ledger.backend) s ∧ OneFillPerEscrow s := by
  let escrow := Ledger.destinationChain.computeAddress 8 14
  let s := Ledger.backend.run (quotedTwice 9) (Ledger.launched (update₂ (fun _ _ => 0) 6 escrow 40))
  have hs : Ledger.backend.ReachableBy (Apart Ledger.backend) s :=
    run_reachableBy (P := fun s m => unshared Ledger.backend s m = true)
      (fun _ => ⟨_, _, [], rfl⟩) (fun _ => ⟨_, _, [], rfl⟩) (fun _ _ => unshared_apart)
      (by decide +kernel)
  exact ⟨s, by decide +kernel, by decide +kernel, hs, hs.one_fill_per_escrow⟩

/-! ## What an authorised fill is paid -/

/-- The escrow recorded for a fill of the order `o` is one for its share of
the order's minimum, or more, and has sent it to nobody but the swapper. -/
structure Pays (b : Backend κ A W H) (s : BackendState κ A W H) (r : FillRow κ A H)
    (o : OrderRow A) (h : Bytes32) (f : A) (t : DstTerms A) : Prop where
  recorded : r.escrowDstAddr = some ((b.destination o.dstChainId).computeAddress h f)
  terms : ((s.destination o.dstChainId).escrows h f).terms = some t
  token : t.token = o.info.outputToken
  kept : ((s.destination o.dstChainId).escrows h f).refunded = false
  payee : ∀ p ∈ ((s.destination o.dstChainId).escrows h f).payouts, p.to_ = o.info.swapper
  share : (o.info.minOutput : Nat) * r.fillAmount ≤ t.amount * o.info.inputAmount

def PaysProRata (b : Backend κ A W H) (s : BackendState κ A W H) (r : FillRow κ A H)
    (o : OrderRow A) : Prop :=
  ∃ h f t, Pays b s r o h f t

/-- The instruction brings the fill to 'authorized'. -/
structure Authorises (b : Backend κ A W H) (s : BackendState κ A W H) (m : b.Move) (id : Nat)
    (r : FillRow κ A H) : Prop where
  row : (b.step s m).db.fills id = some r
  authorized : r.status = .authorized
  before : ∀ r₀, s.db.fills id = some r₀ → r₀.status ≠ .authorized

/-- No chain moves meanwhile. -/
theorem Authorises.destination {m : b.Move} {id : Nat} {r : FillRow κ A H}
    (h : Authorises b s m id r) : (b.step s m).destination = s.destination := by
  have hdb : (b.step s m).db ≠ s.db := fun hsame => h.before r (hsame ▸ h.row) h.authorized
  cases m with
  | destination c tx => exact absurd rfl hdb
  | relay c now id hashlock filler turns =>
      change (b.relay s c now id hashlock filler turns).db ≠ s.db at hdb
      show (b.relay s c now id hashlock filler turns).destination = s.destination
      unfold relay at hdb ⊢
      split
      case h_1 => rfl
      case h_2 =>
      split
      case h_1 => rfl
      case h_2 => simp_all
  | request | execute | source | srcWatcher | dstWatcher | restart => rfl

section Backs

variable {r : FillRow κ A H} {o : OrderRow A} {h : Bytes32} {f : A} {t : DstTerms A}

omit [DecidableEq H] in
/-- The escrow is not refunded before T2. -/
theorem Backs.kept (hback : Backs b s r o h f t) (hreg : Regular b s)
    (htime : (s.destination o.dstChainId).block.timestamp ≤ r.t2) :
    ((s.destination o.dstChainId).escrows h f).refunded = false := by
  rw [Bool.eq_false_iff]
  intro hrefunded
  obtain ⟨hmoment, -⟩ := hreg.destination o.dstChainId
  obtain ⟨t', hterms, hlate⟩ := hmoment.refund_late h f hrefunded
  obtain rfl := Option.some.inj (hterms.symm.trans hback.terms)
  rw [hback.expiry] at hlate
  exact absurd htime (Nat.not_le_of_lt hlate)

omit [DecidableEq H] in
/-- Then it has paid the swapper, or nobody. -/
theorem Backs.payee (hback : Backs b s r o h f t) (hreg : Regular b s)
    (hkept : ((s.destination o.dstChainId).escrows h f).refunded = false) :
    ∀ p ∈ ((s.destination o.dstChainId).escrows h f).payouts, p.to_ = o.info.swapper := by
  obtain ⟨hmoment, -⟩ := hreg.destination o.dstChainId
  intro p hp
  cases (hmoment.law h f).standing t hback.terms with
  | unsettled _ _ hpayouts =>
      rw [hpayouts] at hp
      exact absurd hp List.not_mem_nil
  | claimed time secret _ _ _ _ hpayouts =>
      rw [hpayouts, List.mem_singleton] at hp
      rw [hp]
      exact hback.recipient
  | refunded _ _ hrefunded => exact absurd (hkept.symm.trans hrefunded) (by simp)

omit [DecidableEq κ] [DecidableEq A] [DecidableEq H] in
/-- An order that asks for no more units than it gives has its share in the
escrow. -/
theorem Backs.share (hback : Backs b s r o h f t)
    (hunits : (r.fillAmount : Nat) = 0 ∨ (o.info.minOutput : Nat) ≤ o.info.inputAmount) :
    (o.info.minOutput : Nat) * r.fillAmount ≤ t.amount * o.info.inputAmount := by
  calc (o.info.minOutput : Nat) * r.fillAmount
      ≤ o.info.inputAmount * r.fillAmount := by
        rcases hunits with hzero | hle
        · simp [hzero]
        · exact Nat.mul_le_mul_right _ hle
    _ ≤ o.info.inputAmount * t.amount := Nat.mul_le_mul_left _ hback.amount
    _ = t.amount * o.info.inputAmount := Nat.mul_comm ..

end Backs

section Authorised

open Ledger (backend destinationChain)

/-- The swapper signs the funded fill of an order for 100 units, after so
many seconds and calls on the destination chain. -/
def signed (minOutput : Uint 256) (seconds : Nat)
    (calls : List (Call (DestinationChain.Label Nat (Ledger Nat)))) :
    BackendState (OrderInfo Nat) Nat (Ledger Nat) Bytes32 :=
  backend.run (Ledger.fundedFill ⟨2, 4, 100, 6, minOutput, 1000, 0, 3000⟩
      ++ [.destination 2 (.tick ⟨1, seconds⟩)] ++ (calls.map fun c => .destination 2 (.call c))
      ++ [.request 0 (.setFillSwapperSig 1 [1] none)])
    (Ledger.launched (update₂ (fun _ _ => 0) 6 (destinationChain.computeAddress 8 14) 40))

/-- The escrow that pays is the one at the recorded address. -/
theorem PaysProRata.pays {s : BackendState (OrderInfo Nat) Nat (Ledger Nat) Bytes32}
    {r : FillRow (OrderInfo Nat) Nat Bytes32} {o : OrderRow Nat}
    (h : PaysProRata backend s r o)
    (ha : r.escrowDstAddr = some (destinationChain.computeAddress 8 14)) :
    ∃ t, Pays backend s r o 8 14 t := by
  obtain ⟨h, f, t, hpays⟩ := h
  obtain ⟨rfl, rfl⟩ : 8 = h ∧ 14 = f :=
    destinationChain.computeAddress_injective (Option.some.inj (ha.symm.trans hpays.recorded))
  exact ⟨t, hpays⟩

end Authorised

end Backend

end NeutronX.CrossChain
