import NeutronX.Controls
import NeutronX.Ledger

/-!
# Authority

Who can change what. Roles, the stake configuration and the routers of the
fallback are changed by calls that name their sender (`governor`), and by
`commitPending`, which anyone may send.

Two statements about whole runs, whatever is called inside the
transactions. Accounts without a role change nothing, but for bringing a
configuration that was waiting to life (`outsiders_change_nothing`). And
without the holders of the two administrative roles, a guardian can only
choose between the configurations that are already on record
(`no_new_config`): what is live, what it replaced, what is waiting.
-/

namespace NeutronX

open Evm Function

namespace System

open FillAuction (governance Governance isEmptyConfig)
open DynamicStakeLib (emptyConfig)

variable {κ W : Type} [DecidableEq κ] {d : Deployment κ W}

/-- Who sends a call that changes roles, configuration or routers. -/
def governor : Label κ W → Option Account
  | .auctionOp (.grantRole msgSender _ _) => some msgSender
  | .auctionOp (.revokeRole msgSender _ _) => some msgSender
  | .auctionOp (.renounceRole msgSender _ _) => some msgSender
  | .auctionOp (.setStakeConfig msgSender _) => some msgSender
  | .auctionOp (.cancelPendingConfig msgSender) => some msgSender
  | .auctionOp (.rollback msgSender) => some msgSender
  | .setRouterAllowed msgSender _ _ _ => some msgSender
  | _ => none

/-! ## What a call needs -/

/-- What a call of the roles or the configuration did, and the role of its
sender. -/
inductive OpEffect (a : AuctionState κ) : AuctionOp → AuctionState κ → Prop
  | granted {a'} (msgSender : Account) (role : Role) (account : Address)
      (hadmin : a.roles .defaultAdmin msgSender = true)
      (ha' : a' = { a with roles := update₂ a.roles role account true }) :
      OpEffect a (.grantRole msgSender role account) a'
  | revoked {a'} (msgSender : Account) (role : Role) (account : Address)
      (hadmin : a.roles .defaultAdmin msgSender = true)
      (ha' : a' = { a with roles := update₂ a.roles role account false }) :
      OpEffect a (.revokeRole msgSender role account) a'
  | renounced {a'} (msgSender : Account) (role : Role)
      (ha' : a' = { a with roles := update₂ a.roles role msgSender false }) :
      OpEffect a (.renounceRole msgSender role msgSender) a'
  | configured {a'} (msgSender : Account) (c : StakeConfig)
      (hadmin : a.roles .paramAdmin msgSender = true) (hroles : a'.roles = a.roles) :
      OpEffect a (.setStakeConfig msgSender c) a'
  | committed {a'} (hpending : isEmptyConfig a.pending = false) (hroles : a'.roles = a.roles)
      (hconfig : a'.config = a.pending) (hprevious : a'.previousConfig = a.config)
      (hfree : a'.pending = emptyConfig) (heffective : a'.pendingEffective = a.pendingEffective) :
      OpEffect a .commitPending a'
  | cancelled {a'} (msgSender : Account) (hguardian : a.roles .guardian msgSender = true)
      (hroles : a'.roles = a.roles)
      (hconfig : governance a' = { governance a with pending := emptyConfig }) :
      OpEffect a (.cancelPendingConfig msgSender) a'
  | rolledBack {a'} (msgSender : Account) (hguardian : a.roles .guardian msgSender = true)
      (hroles : a'.roles = a.roles)
      (hconfig : governance a' =
        { governance a with config := a.previousConfig, pending := emptyConfig }) :
      OpEffect a (.rollback msgSender) a'
  | forced {a'} (amount : Nat) (hroles : a'.roles = a.roles)
      (hconfig : governance a' = governance a) : OpEffect a (.forceEth amount) a'

omit [DecidableEq κ] in
theorem AuctionOp.effect {op : AuctionOp} {blk : Block} {a a' : AuctionState κ}
    (h : op.run blk a = .ok a') : OpEffect a op a' := by
  cases op with
  | grantRole msgSender role account =>
      simp only [AuctionOp.run, FillAuction.grantRole, bind_eq_ok, FillAuction.onlyRole_eq_ok,
        pure_eq_ok] at h
      obtain ⟨_, hadmin, rfl⟩ := h
      exact .granted msgSender role account hadmin rfl
  | revokeRole msgSender role account =>
      simp only [AuctionOp.run, FillAuction.revokeRole, bind_eq_ok, FillAuction.onlyRole_eq_ok,
        pure_eq_ok] at h
      obtain ⟨_, hadmin, rfl⟩ := h
      exact .revoked msgSender role account hadmin rfl
  | renounceRole msgSender role callerConfirmation =>
      simp only [AuctionOp.run, FillAuction.renounceRole, bind_eq_ok, requireCustom_eq_ok,
        pure_eq_ok] at h
      obtain ⟨_, rfl, rfl⟩ := h
      exact .renounced msgSender role rfl
  | setStakeConfig msgSender c =>
      have hset := h
      simp only [AuctionOp.run, FillAuction.setStakeConfig, bind_eq_ok,
        FillAuction.onlyRole_eq_ok] at h
      obtain ⟨_, hadmin, -⟩ := h
      refine .configured msgSender c hadmin ?_
      obtain ⟨-, hqueued | rfl⟩ := FillAuction.setStakeConfig_spec hset
      · obtain ⟨effective, rfl⟩ := FillAuction.queueConfig_spec hqueued
        rfl
      · rfl
  | commitPending =>
      simp only [AuctionOp.run, FillAuction.commitPending, bind_eq_ok, requireCustom_eq_ok,
        pure_eq_ok] at h
      obtain ⟨_, hpending, _, -, rfl⟩ := h
      exact .committed hpending rfl rfl rfl rfl rfl
  | cancelPendingConfig msgSender =>
      simp only [AuctionOp.run, FillAuction.cancelPendingConfig, bind_eq_ok,
        FillAuction.onlyRole_eq_ok, pure_eq_ok] at h
      obtain ⟨_, hguardian, _, -, rfl⟩ := h
      exact .cancelled msgSender hguardian rfl rfl
  | rollback msgSender =>
      simp only [AuctionOp.run, FillAuction.rollback, bind_eq_ok, FillAuction.onlyRole_eq_ok,
        pure_eq_ok] at h
      obtain ⟨_, hguardian, _, -, rfl⟩ := h
      exact .rolledBack msgSender hguardian rfl rfl
  | forceEth amount =>
      obtain ⟨-, rfl⟩ := FillAuction.forceEth_spec h
      exact .forced amount rfl rfl

omit [DecidableEq κ] in
theorem setRouterAllowed_owner {s s' : World κ W} {msgSender : Account}
    {router approveTarget : Address} {allowed : Bool}
    (h : setRouterAllowed d s msgSender router approveTarget allowed = .ok s') :
    (msgSender : Address) = d.routerOwner := by
  simp only [setRouterAllowed, FallbackExecutor.setRouterAllowed, bind_eq_ok, require_eq_ok] at h
  obtain ⟨_, ⟨_, howner, -⟩, -⟩ := h
  exact howner

/-! ## Outsiders -/

/-- Holds no role, and is not the owner of the router list. -/
def Outsider (d : Deployment κ W) (s : World κ W) (a : Address) : Prop :=
  (∀ role, s.auction.roles role a = false) ∧ a ≠ d.routerOwner

/-- The waiting configuration went live, and nothing else changed. -/
structure Committed (g g' : Governance) : Prop where
  waiting : isEmptyConfig g.pending = false
  config : g'.config = g.pending
  previousConfig : g'.previousConfig = g.config
  free : g'.pending = emptyConfig
  pendingEffective : g'.pendingEffective = g.pendingEffective

/-- What outsiders keep: roles and routers, and the configuration but for a
commit. -/
structure Ungoverned (s s' : World κ W) : Prop where
  roles : s'.auction.roles = s.auction.roles
  routers : s'.fallback.approveTargetOf = s.fallback.approveTargetOf
  config : governance s'.auction = governance s.auction ∨
    Committed (governance s.auction) (governance s'.auction)

omit [DecidableEq κ] in
theorem Ungoverned.ofSame {s s' : World κ W} (h : SameControls s s') : Ungoverned s s' :=
  ⟨h.roles, h.routers, Or.inl h.governance⟩

omit [DecidableEq κ] in
/-- Nothing waits after a commit, so there is at most one. -/
theorem Ungoverned.trans {s s' s'' : World κ W} (h : Ungoverned s s') (h' : Ungoverned s' s'') :
    Ungoverned s s'' := by
  refine ⟨h'.roles.trans h.roles, h'.routers.trans h.routers, ?_⟩
  rcases h.config with hsame | hcommitted
  · rw [← hsame]
    exact h'.config
  · rcases h'.config with hsame' | hcommitted'
    · rw [hsame']
      exact Or.inr hcommitted
    · have hwaiting := hcommitted'.waiting
      rw [hcommitted.free] at hwaiting
      cases hwaiting

/-- The step lemma: a body whose sender holds none of the roles `roles`. -/
theorem body_ungoverned {roles : Role → Address → Bool} {l : Label κ W}
    (hout : ∀ a ∈ governor l, (∀ role, roles role a = false) ∧ (a : Address) ≠ d.routerOwner)
    (s : World κ W) :
    (body d l s).Sat (fun s s' => s.auction.roles = roles → Ungoverned s s') s := by
  refine body_sat_of_controls (fun h h' hroles => ?_) (fun h _ => .ofSame h) l s ?_ ?_ ?_ ?_
  · exact (h hroles).trans (h' ((h hroles).roles.trans hroles))
  · intro msgSender info _ s' h _
    rw [cancelOrder_spec h]
    exact ⟨rfl, rfl, Or.inl rfl⟩
  · intro msgSender nonce _ _
    exact ⟨rfl, rfl, Or.inl rfl⟩
  · rintro op rfl s' h hroles
    obtain ⟨auction, hrun, rfl⟩ := onAuction_spec h
    subst hroles
    -- a call that needs a role does not get here
    have hnone : ∀ {a : Account} {role : Role}, governor (.auctionOp op : Label κ W) = some a →
        s.auction.roles role a ≠ true := by
      intro a role ha hrole
      rw [(hout a ha).1 role] at hrole
      cases hrole
    cases AuctionOp.effect hrun with
    | granted msgSender role account hadmin _ => exact absurd hadmin (hnone rfl)
    | revoked msgSender role account hadmin _ => exact absurd hadmin (hnone rfl)
    | renounced msgSender role ha' =>
        -- giving up a role one does not hold
        have hfalse := (hout msgSender rfl).1 role
        rw [← hfalse, update₂_eq_self] at ha'
        rw [ha']
        exact ⟨rfl, rfl, Or.inl rfl⟩
    | configured msgSender c hadmin _ => exact absurd hadmin (hnone rfl)
    | committed hpending hroles hconfig hprevious hfree heffective =>
        exact ⟨hroles, rfl, Or.inr ⟨hpending, hconfig, hprevious, hfree, heffective⟩⟩
    | cancelled msgSender hguardian _ _ => exact absurd hguardian (hnone rfl)
    | rolledBack msgSender hguardian _ _ => exact absurd hguardian (hnone rfl)
    | forced amount hroles hconfig => exact ⟨hroles, rfl, Or.inl hconfig⟩
  · rintro msgSender router approveTarget allowed rfl s' h _
    exact absurd (setRouterAllowed_owner h) (hout msgSender rfl).2

/-- **Outsiders change nothing.** In every run whose governing calls all
come from accounts that hold no role at its start, at whatever depth they
are made, roles and routers stay as they are, and so does the
configuration, except that one that was waiting may be live. -/
theorem outsiders_change_nothing (s : World κ W) (txs : List (Tx (Label κ W) Elapse))
    (hout : ∀ tx ∈ txs, tx.All fun l => ∀ a ∈ governor l, Outsider d s a) :
    Ungoverned s (run d txs s) := by
  have hrun : s.auction.roles = s.auction.roles → Ungoverned s (run d txs s) :=
    runTxs_sat
      (R := fun s₁ s₂ : World κ W => s₁.auction.roles = s.auction.roles → Ungoverned s₁ s₂)
      (fun s₁ _ => .ofSame (.refl s₁))
      (fun h h' hroles => (h hroles).trans (h' ((h hroles).roles.trans hroles)))
      (fun _ hl s₁ => body_ungoverned hl s₁)
      (fun t s₁ (_ : s₁.auction.roles = s.auction.roles) =>
        (⟨rfl, rfl, Or.inl rfl⟩ : Ungoverned s₁ (elapse t s₁))) s hout
  exact hrun rfl

/-- Someone without a role tries to grant one, to set a configuration and
to list a router, and whoever asks for a commit finds nothing waiting. -/
theorem outsiders_change_nothing_tried :
    ∃ s t : World OrderInfo Ledger, t.block.number = 12 ∧ Ungoverned s t := by
  let outsider : Account := ⟨7, by decide⟩
  let s : World OrderInfo Ledger := deployed Ledger.deployment (fun _ _ => 0) ⟨10, 0⟩
  let txs : List (Tx (Label OrderInfo Ledger) Elapse) :=
    [.call (.leaf (.auctionOp (.grantRole outsider .paramAdmin 7))),
     .call (.leaf (.auctionOp (.setStakeConfig outsider DynamicStakeLib.defaultStakeConfig))),
     .tick ⟨2, 0⟩,
     .call (.leaf (.auctionOp .commitPending)),
     .call (.leaf (.setRouterAllowed outsider 7 7 true))]
  refine ⟨s, run Ledger.deployment txs s, by decide +kernel, outsiders_change_nothing s txs ?_⟩
  have hnone : Outsider Ledger.deployment s outsider :=
    ⟨fun role => by cases role <;> rfl, by decide⟩
  have hsent : ∀ a ∈ some outsider, Outsider Ledger.deployment s a :=
    fun a ha => Option.mem_some_iff.mp ha ▸ hnone
  intro tx htx
  simp only [txs, List.mem_cons, List.not_mem_nil, or_false] at htx
  rcases htx with rfl | rfl | rfl | rfl | rfl
  · exact ⟨hsent, trivial⟩
  · exact ⟨hsent, trivial⟩
  · trivial
  · exact ⟨fun a ha => (Option.not_mem_none a ha).elim, trivial⟩
  · exact ⟨hsent, trivial⟩

/-! ## Guardians -/

/-- The configurations on record. -/
def OnRecord (g : Governance) (c : StakeConfig) : Prop :=
  c = g.config ∨ c = g.previousConfig ∨ c = g.pending

/-- Where a run from `s₀` without administrators has come: nobody gained a
role, nobody lost an administrative one, and no configuration is new. -/
structure Unadministered (s₀ s : World κ W) : Prop where
  gained : ∀ role account, s.auction.roles role account = true →
    s₀.auction.roles role account = true
  defaultAdmin : s.auction.roles .defaultAdmin = s₀.auction.roles .defaultAdmin
  paramAdmin : s.auction.roles .paramAdmin = s₀.auction.roles .paramAdmin
  routers : s.fallback.approveTargetOf = s₀.fallback.approveTargetOf
  config : OnRecord (governance s₀.auction) s.auction.config
  previousConfig : OnRecord (governance s₀.auction) s.auction.previousConfig
  pending : s.auction.pending = s₀.auction.pending ∨ s.auction.pending = emptyConfig

omit [DecidableEq κ] in
theorem Unadministered.refl (s : World κ W) : Unadministered s s where
  gained := fun _ _ h => h
  defaultAdmin := rfl
  paramAdmin := rfl
  routers := rfl
  config := Or.inl rfl
  previousConfig := Or.inr (Or.inl rfl)
  pending := Or.inl rfl

omit [DecidableEq κ] in
theorem Unadministered.ofSame {s₀ s s' : World κ W} (h : Unadministered s₀ s)
    (hsame : SameControls s s') : Unadministered s₀ s' where
  gained := by rw [hsame.roles]; exact h.gained
  defaultAdmin := by rw [hsame.roles]; exact h.defaultAdmin
  paramAdmin := by rw [hsame.roles]; exact h.paramAdmin
  routers := hsame.routers.trans h.routers
  config := by
    rw [show s'.auction.config = s.auction.config from congrArg Governance.config hsame.governance]
    exact h.config
  previousConfig := by
    rw [show s'.auction.previousConfig = s.auction.previousConfig from
      congrArg Governance.previousConfig hsame.governance]
    exact h.previousConfig
  pending := by
    rw [show s'.auction.pending = s.auction.pending from
      congrArg Governance.pending hsame.governance]
    exact h.pending

/-- Holds neither administrative role, and is not the owner of the router
list. A guardian may be such an account. -/
def NoAdministrator (d : Deployment κ W) (s : World κ W) (a : Address) : Prop :=
  s.auction.roles .defaultAdmin a = false ∧ s.auction.roles .paramAdmin a = false ∧
    a ≠ d.routerOwner

omit [DecidableEq κ] in
/-- A guardian who gives up a role it holds. -/
theorem Unadministered.renounced {s₀ s : World κ W} (h : Unadministered s₀ s) {a : Address}
    (ha : NoAdministrator d s₀ a) (role : Role) :
    Unadministered s₀ { s with
      auction := { s.auction with roles := update₂ s.auction.roles role a false } } := by
  have hkept : ∀ {r : Role}, s.auction.roles r = s₀.auction.roles r →
      s₀.auction.roles r a = false →
      update₂ s.auction.roles role a false r = s₀.auction.roles r := by
    intro r hsame hnone
    funext b
    by_cases hb : r = role ∧ b = a
    · obtain ⟨rfl, rfl⟩ := hb
      rw [update₂_self, hnone]
    · rw [update₂_of_ne hb, hsame]
  refine { h with
    gained := fun r b hb => ?_
    defaultAdmin := hkept h.defaultAdmin ha.1
    paramAdmin := hkept h.paramAdmin ha.2.1 }
  by_cases heq : r = role ∧ b = a
  · obtain ⟨rfl, rfl⟩ := heq
    change update₂ s.auction.roles r b false r b = true at hb
    rw [update₂_self] at hb
    cases hb
  · change update₂ s.auction.roles role a false r b = true at hb
    rw [update₂_of_ne heq] at hb
    exact h.gained r b hb

omit [DecidableEq κ] in
/-- What a call of the roles or the configuration does without an
administrator. -/
theorem Unadministered.op {s₀ s s' : World κ W} (h : Unadministered s₀ s) {op : AuctionOp}
    (hno : ∀ a ∈ governor (.auctionOp op : Label κ W), NoAdministrator d s₀ a)
    (hrun : (onAuction s fun a => op.run s.block a) = .ok s') : Unadministered s₀ s' := by
  obtain ⟨auction, hauction, rfl⟩ := onAuction_spec hrun
  have hadmin : ∀ {a : Account}, governor (.auctionOp op : Label κ W) = some a →
      s.auction.roles .defaultAdmin a ≠ true := by
    intro a ha hrole
    rw [h.defaultAdmin, (hno a ha).1] at hrole
    cases hrole
  have hparam : ∀ {a : Account}, governor (.auctionOp op : Label κ W) = some a →
      s.auction.roles .paramAdmin a ≠ true := by
    intro a ha hrole
    rw [h.paramAdmin, (hno a ha).2.1] at hrole
    cases hrole
  cases AuctionOp.effect hauction with
  | granted msgSender role account hrole _ => exact absurd hrole (hadmin rfl)
  | revoked msgSender role account hrole _ => exact absurd hrole (hadmin rfl)
  | renounced msgSender role ha' =>
      rw [ha']
      exact h.renounced (hno msgSender rfl) role
  | configured msgSender c hrole _ => exact absurd hrole (hparam rfl)
  | committed hpending hroles hconfig hprevious hfree heffective =>
      -- what was waiting is not the empty configuration, so it is the one on record
      have hwaiting : s.auction.pending = s₀.auction.pending := by
        refine h.pending.resolve_right fun hempty => ?_
        rw [hempty] at hpending
        cases hpending
      refine ⟨by rw [hroles]; exact h.gained, by rw [hroles]; exact h.defaultAdmin,
        by rw [hroles]; exact h.paramAdmin, h.routers, ?_, ?_, Or.inr hfree⟩
      · rw [hconfig, hwaiting]
        exact Or.inr (Or.inr rfl)
      · rw [hprevious]
        exact h.config
  | cancelled msgSender _ hroles hconfig =>
      have hlive : auction.config = s.auction.config := congrArg Governance.config hconfig
      have hprevious : auction.previousConfig = s.auction.previousConfig :=
        congrArg Governance.previousConfig hconfig
      exact ⟨by rw [hroles]; exact h.gained, by rw [hroles]; exact h.defaultAdmin,
        by rw [hroles]; exact h.paramAdmin, h.routers, by rw [hlive]; exact h.config,
        by rw [hprevious]; exact h.previousConfig,
        Or.inr (congrArg Governance.pending hconfig)⟩
  | rolledBack msgSender _ hroles hconfig =>
      have hlive : auction.config = s.auction.previousConfig :=
        congrArg Governance.config hconfig
      have hprevious : auction.previousConfig = s.auction.previousConfig :=
        congrArg Governance.previousConfig hconfig
      exact ⟨by rw [hroles]; exact h.gained, by rw [hroles]; exact h.defaultAdmin,
        by rw [hroles]; exact h.paramAdmin, h.routers, by rw [hlive]; exact h.previousConfig,
        by rw [hprevious]; exact h.previousConfig,
        Or.inr (congrArg Governance.pending hconfig)⟩
  | forced amount hroles hconfig =>
      exact h.ofSame ⟨rfl, rfl, hroles, hconfig, rfl⟩

/-- The step lemma of runs without administrators. -/
theorem body_unadministered {s₀ : World κ W} {l : Label κ W}
    (hno : ∀ a ∈ governor l, NoAdministrator d s₀ a) (s : World κ W) :
    (body d l s).Sat (fun s s' => Unadministered s₀ s → Unadministered s₀ s') s := by
  refine body_sat_of_controls (fun h h' hs => h' (h hs)) (fun h hs => hs.ofSame h) l s ?_ ?_ ?_ ?_
  · intro msgSender info _ s' h hs
    rw [cancelOrder_spec h]
    exact ⟨hs.gained, hs.defaultAdmin, hs.paramAdmin, hs.routers, hs.config, hs.previousConfig,
      hs.pending⟩
  · intro msgSender nonce _ hs
    exact ⟨hs.gained, hs.defaultAdmin, hs.paramAdmin, hs.routers, hs.config, hs.previousConfig,
      hs.pending⟩
  · rintro op rfl s' h hs
    exact hs.op hno h
  · rintro msgSender router approveTarget allowed rfl s' h _
    exact absurd (setRouterAllowed_owner h) (hno msgSender rfl).2.2

/-- **Only administrators bring in a configuration.** In every run in which
no governing call comes from an account that holds an administrative role
at its start, or from the owner of the router list, whatever guardians and
everyone else do: nobody gains a role, the administrators stay, and what is
live is a configuration that was on record at the start. -/
theorem no_new_config (s : World κ W) (txs : List (Tx (Label κ W) Elapse))
    (hno : ∀ tx ∈ txs, tx.All fun l => ∀ a ∈ governor l, NoAdministrator d s a) :
    Unadministered s (run d txs s) := by
  have hrun : Unadministered s s → Unadministered s (run d txs s) :=
    runTxs_sat (R := fun s₁ s₂ : World κ W => Unadministered s s₁ → Unadministered s s₂)
      (fun _ hs => hs) (fun h h' hs => h' (h hs)) (fun _ hl s₁ => body_unadministered hl s₁)
      (fun t s₁ (hs : Unadministered s s₁) =>
        (hs.ofSame ⟨rfl, rfl, rfl, rfl, rfl⟩ : Unadministered s (elapse t s₁))) s hno
  exact hrun (.refl s)

/-- A floor of 1 wei went live. A guardian takes it back, and tries to make
itself an administrator. -/
theorem no_new_config_rolled_back :
    ∃ s t : World OrderInfo Ledger, s.auction.config.minCollateral = 1 ∧
      t.auction.config = DynamicStakeLib.defaultStakeConfig ∧ Unadministered s t := by
  let admin : Account := ⟨104, by decide⟩
  let guardian : Account := ⟨8, by decide⟩
  let floored : StakeConfig := { DynamicStakeLib.defaultStakeConfig with minCollateral := 1 }
  let s : World OrderInfo Ledger := run Ledger.deployment
    [.call (.leaf (.auctionOp (.grantRole admin .guardian 8))),
     .call (.leaf (.auctionOp (.grantRole admin .paramAdmin 9))),
     .call (.leaf (.auctionOp (.setStakeConfig ⟨9, by decide⟩ floored)))]
    (deployed Ledger.deployment (fun _ _ => 0) ⟨10, 100⟩)
  let txs : List (Tx (Label OrderInfo Ledger) Elapse) :=
    [.call (.leaf (.auctionOp (.grantRole guardian .paramAdmin 8))),
     .call (.leaf (.auctionOp (.rollback guardian)))]
  refine ⟨s, run Ledger.deployment txs s, by decide +kernel, by decide +kernel,
    no_new_config s txs ?_⟩
  have hguardian : NoAdministrator Ledger.deployment s guardian := by
    refine ⟨?_, ?_, ?_⟩ <;> decide +kernel
  have hsent : ∀ a ∈ some guardian, NoAdministrator Ledger.deployment s a :=
    fun a ha => Option.mem_some_iff.mp ha ▸ hguardian
  intro tx htx
  simp only [txs, List.mem_cons, List.not_mem_nil, or_false] at htx
  rcases htx with rfl | rfl
  · exact ⟨hsent, trivial⟩
  · exact ⟨hsent, trivial⟩

end System

end NeutronX
