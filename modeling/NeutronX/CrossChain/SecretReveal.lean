import NeutronX.CrossChain.FillerQuestions
import NeutronX.CrossChain.Ledger
import NeutronX.CrossChain.SourceLaw

/-!
# To whom the filler reveals its secret

`fillSlot` makes its caller the filler of the clone, and the swapper's two
signatures bind neither. The filler takes a clone that is there already
for its own, so a secret goes to a foreign escrow if and only if someone
else was first; `Unraced` says of the one question that decides it that
nobody was.
-/

namespace NeutronX.CrossChain

open Evm Function

namespace CoWFiller

open Script
open SourceChain (Moment Between Passed)

variable {κ A W : Type} [DecidableEq κ] [Zero A] [DecidableEq A] (bot : CoWFiller κ A W)

/-- The address is a clone's whose filler is the bot's own account, to which
every withdrawal from it goes. -/
def Owns (w : World κ A W) (legs : ChainLegs) (escrow : A) : Prop :=
  ∃ orderHash hashlock t, (bot.chain legs).computeAddress orderHash hashlock = escrow ∧
    ((w.source legs).escrows orderHash hashlock).terms = some t ∧ t.filler = bot.wallet ∧
    ∀ p ∈ ((w.source legs).escrows orderHash hashlock).payouts, p.secret.isSome = true →
      p.to_ = bot.wallet

/-- Whenever one of the programs is about to withdraw, the escrow is the
bot's own. -/
def RevealsToItself (s : Running (World κ A W) (Ask κ A) Ask.Answer String) : Prop :=
  ∀ x ∈ s.tasks, ∀ legs escrow secret, x.pending = some (.withdraw legs escrow secret) →
    bot.Owns s.world legs escrow

/-- A clone that `isFilled` reports is not another account's. -/
def Unraced (w : World κ A W) : Ask κ A → Prop
  | .isFilled legs orderHash hashlock =>
      ∀ fill ∈ ((w.source legs).escrows orderHash hashlock).fill, fill.filler = bot.wallet
  | _ => True

/-! ## The setting -/

/-- What every question but one is free of, and when that one may be asked. -/
def setting : Setting (World κ A W) (Ask κ A) Ask.Answer where
  Inv := fun w => ∀ legs, Moment (bot.chain legs) (w.source legs) ∧ Between (w.source legs)
  Later := fun w w' => ∀ legs k h fill, ((w.source legs).escrows k h).fill = some fill →
    ((w'.source legs).escrows k h).fill = some fill
  Answers := fun w q answer w' => bot.Unraced w q ∧ bot.Answers w q answer w'
  Asked := fun w q => ∀ legs escrow secret, q = .withdraw legs escrow secret →
    bot.Owns w legs escrow

theorem setting_refl (w : World κ A W) : bot.setting.Later w w := fun _ _ _ _ h => h

variable {bot} {w w' : World κ A W} {legs : ChainLegs}

theorem setSource_kept (hinv : bot.setting.Inv w) {s : SourceState κ A W}
    (h : Passed (bot.chain legs) (w.source legs) s) :
    bot.setting.Inv (w.setSource legs s) ∧ bot.setting.Later w (w.setSource legs s) := by
  refine ⟨fun legs' => ?_, fun legs' k hl fill hfill => ?_⟩
  · by_cases hsame : legs' = legs
    · subst hsame
      simp only [World.setSource, update_self]
      exact ⟨(hinv legs').1.segments h.segments, h.between⟩
    · simpa [World.setSource, hsame] using hinv legs'
  · by_cases hsame : legs' = legs
    · subst hsame
      simp only [World.setSource, update_self]
      exact h.fills k hl fill hfill
    · simpa [World.setSource, hsame] using hfill

theorem env_kept (hinv : bot.setting.Inv w) (h : bot.Env w w') :
    bot.setting.Inv w' ∧ bot.setting.Later w w' := by
  cases h with
  | chain legs tx => exact setSource_kept hinv (SourceChain.stepTx_passed tx (hinv legs).2)
  | lost => exact ⟨hinv, fun _ _ _ _ h => h⟩

theorem sends_kept (hinv : bot.setting.Inv w) {l : SourceChain.Label (bot.chain legs)}
    (h : bot.Sends legs l w w') : bot.setting.Inv w' ∧ bot.setting.Later w w' := by
  obtain ⟨turns, s', hexec, rfl⟩ := h
  exact setSource_kept hinv (SourceChain.exec_passed (hinv legs).2 hexec)

theorem setting_lawful : bot.setting.Lawful where
  refl := bot.setting_refl
  trans := fun h h' legs k hl fill hfill => h' legs k hl fill (h legs k hl fill hfill)
  answers := fun {w q answer w'} hinv h => by
    have hsame : w' = w → bot.setting.Inv w' ∧ bot.setting.Later w w' := by
      rintro rfl
      exact ⟨hinv, bot.setting_refl w'⟩
    cases q with
    | saveSecret =>
        obtain rfl : w' = _ := h.2
        exact ⟨hinv, fun _ _ _ _ h => h⟩
    | loadSecret | remainingInput | computeAddress | isFilled | previewRequiredStake =>
        exact hsame h.2.2
    | fillSlot => exact sends_kept hinv h.2
    | withdraw =>
        obtain ⟨-, _, _, _, -, hsends⟩ := h
        exact sends_kept hinv hsends
    | randomBytes32 | dateNow | sleep | getOrder | getFill | postFill | dstComputeAddress
    | dstHasCode | dstBalanceOf | dstTransfer | dstDeploy => exact hsame h.2

/-! ## The programs -/

omit [DecidableEq κ] [DecidableEq A] in
/-- The clone of a pair is there, and the bot's. -/
def Mine (bot : CoWFiller κ A W) (legs : ChainLegs) (k : κ) (h : Bytes32) (w : World κ A W) :
    Prop :=
  ∃ fill, ((w.source legs).escrows k h).fill = some fill ∧ fill.filler = bot.wallet

theorem Mine.owns {k : κ} {h : Bytes32} (hmine : bot.Mine legs k h w)
    (hinv : bot.setting.Inv w) :
    bot.Owns w legs ((bot.chain legs).computeAddress k h) := by
  obtain ⟨fill, hfill, hfiller⟩ := hmine
  obtain ⟨hmoment, hfree⟩ := hinv legs
  have hterms := hmoment.law.genuine k h fill (by simp [hfree.filling]) hfill
  refine ⟨k, h, _, rfl, hterms, hfiller, fun p hp hsecret => ?_⟩
  cases (hmoment.law.clone k h).standing _ hterms with
  | unsettled _ _ hpayouts => simp [hpayouts] at hp
  | withdrawn time secret _ _ _ _ hpayouts =>
      obtain rfl : p = _ := by simpa [hpayouts] using hp
      exact hfiller
  | cancelled time _ _ _ hpayouts =>
      obtain rfl : p = _ := by simpa [hpayouts] using hp
      simp at hsecret

theorem Mine.later {k : κ} {h : Bytes32} (hmine : bot.Mine legs k h w)
    (hlater : bot.setting.Later w w') : bot.Mine legs k h w' := by
  obtain ⟨fill, hfill, hfiller⟩ := hmine
  exact ⟨fill, hlater legs k h fill hfill, hfiller⟩

omit [DecidableEq κ] [Zero A] [DecidableEq A] in
/-- A question that is no withdrawal. -/
def Free (q : Ask κ A) : Prop := ∀ legs escrow secret, q ≠ .withdraw legs escrow secret

theorem Free.asked {q : Ask κ A} (hq : Free q) : bot.setting.Asked w q :=
  fun legs escrow secret heq => absurd heq (hq legs escrow secret)

omit [DecidableEq κ] [Zero A] [DecidableEq A] in
theorem quiet_await {q : Ask κ A} (hq : Free q) : (await q).Quiet Free := quiet_call hq

/-- A program that withdraws nothing, in front of another. -/
theorem safe_after {α β : Type} {x : Task κ A α} {f : α → Task κ A β}
    {Post : β → World κ A W → Prop} (hx : x.Quiet Free)
    (hf : ∀ a w, (f a).Safe bot.setting Post w) : (x >>= f).Safe bot.setting Post w :=
  hx.safe_bind setting_lawful (fun _ _ hq => hq.asked) (F := fun _ => True)
    (fun _ _ => trivial) (fun a w _ => hf a w) trivial

omit [DecidableEq κ] [DecidableEq A] in
theorem ensureDstEscrowDeployed_quiet (legs : ChainLegs) (outputToken : A) (hashlock : Bytes32)
    (swapper : A) (fillAmount t2 : Nat) :
    (bot.ensureDstEscrowDeployed legs outputToken hashlock swapper fillAmount t2
      : Task κ A A).Quiet Free := by
  refine quiet_bind (fun escrow => quiet_bind (fun deployed => ?_) (quiet_await nofun))
    (quiet_await nofun)
  cases deployed with
  | true => trivial
  | false =>
      refine quiet_bind (fun bal => quiet_bind (fun _ => ?_) (quiet_ensure _ _))
        (quiet_await nofun)
      refine quiet_bind (fun _ => quiet_bind (fun _ => ?_) (quiet_await nofun))
        (quiet_await nofun)
      trivial

/-- **The address `fillSlotOnSrc` returns is a clone of the bot's.** -/
theorem fillSlotOnSrc_safe (order : OrderData A) (fill : FillData) (fillId : Nat) (k : κ)
    (h : Bytes32) :
    (fillSlotOnSrc legs order fill fillId k h).Safe bot.setting
      (fun escrow w => escrow = (bot.chain legs).computeAddress k h ∧ bot.Mine legs k h w) w := by
  -- the address comes from the factory
  refine fun w₁ _ _ => ⟨Free.asked nofun, fun escrow w₂ haddress => ?_⟩
  obtain ⟨-, rfl, rfl⟩ := haddress
  refine fun w₃ _ _ => ⟨Free.asked nofun, fun alreadyFilled w₄ hfilled => ?_⟩
  obtain ⟨hown, rfl, rfl⟩ := hfilled
  cases hfill : ((w₄.source legs).escrows k h).fill with
  | some fill =>
      -- the clone was there, and `Unraced` says whose it is
      exact ⟨rfl, fill, hfill, hown fill hfill⟩
  | none =>
      simp only [Option.isSome_none]
      cases hper : fill.swapperSig with
      | none => trivial
      | some perFillSig =>
          cases hsig : order.swapperSig with
          | none => trivial
          | some swapperSig =>
              refine fun w₅ _ _ => ⟨Free.asked nofun, fun required w₆ _ => ?_⟩
              refine fun w₇ _ _ => ⟨Free.asked nofun, fun _ w₈ hsent => ?_⟩
              obtain ⟨-, turns, s', hexec, rfl⟩ := hsent
              refine ⟨rfl, ⟨order.info, ⟨k, h, fill.fillAmount, fill.t1, fill.t2⟩, bot.wallet,
                required⟩, ?_, rfl⟩
              simp only [World.setSource, update_self]
              exact SourceChain.fillSlot_deploys hexec

theorem withdrawOnSrc_safe {k : κ} {h : Bytes32} (hmine : bot.Mine legs k h w)
    (secret : Bytes32) :
    (withdrawOnSrc legs ((bot.chain legs).computeAddress k h) secret).Safe bot.setting
      (fun _ _ => True) w := by
  refine fun w₁ hlater hinv => ⟨fun legs' escrow secret' heq => ?_, fun _ _ _ => trivial⟩
  obtain ⟨rfl, rfl, -⟩ := Ask.withdraw.inj heq
  exact (hmine.later hlater).owns hinv

theorem driveToCompletion_safe (polls : Nat) (k : κ) (fillId : Nat) (h secret : Bytes32)
    (order : OrderData A) (fillAmount t2 : Nat) (opts : CrossChainFillOptions) :
    (bot.driveToCompletion polls k fillId h secret order legs fillAmount t2 opts).Safe
      bot.setting (fun _ _ => True) w := by
  refine safe_after (ensureDstEscrowDeployed_quiet ..) fun _ _ => ?_
  refine safe_after (waitForFillStatus_quiet nofun nofun nofun ..) fun _ _ => ?_
  refine safe_after (waitForFillStatus_quiet nofun nofun nofun ..) fun fill _ => ?_
  refine safe_after (assertTimeMargin_quiet nofun ..) fun _ w => ?_
  refine safe_bind
    (Safe.mono (fun escrow w hescrow => ?_) (fillSlotOnSrc_safe order fill fillId k h))
  obtain ⟨rfl, hmine⟩ := hescrow
  -- what the second check of the time cannot change
  have hquiet : (assertTimeMargin "before revealing the secret" fill.t1 opts).Quiet
      (Free (κ := κ) (A := A)) := assertTimeMargin_quiet nofun ..
  refine hquiet.safe_bind setting_lawful (fun _ _ hq => hq.asked) Mine.later
    (fun _ w hmine => ?_) hmine
  exact withdrawOnSrc_safe hmine secret

theorem crossChainFill_safe (polls : Nat) (k : κ) (bps : Int) (opts : CrossChainFillOptions) :
    (bot.crossChainFill polls k bps opts).Safe bot.setting (fun _ _ => True) w := by
  refine safe_after (quiet_ensure ..) fun _ _ => ?_
  refine safe_after (quiet_await nofun) fun order _ => ?_
  refine safe_after (quiet_ensure ..) fun _ _ => ?_
  refine safe_after (resolveLegs_quiet _) fun legs _ => ?_
  refine safe_after (quiet_await nofun) fun remaining _ => ?_
  refine safe_after (quiet_ensure ..) fun _ _ => ?_
  refine safe_after (quiet_ensure ..) fun _ _ => ?_
  refine safe_after (quiet_await nofun) fun secret _ => ?_
  refine safe_after (quiet_await nofun) fun now _ => ?_
  refine safe_after (quiet_ensure ..) fun _ _ => ?_
  refine safe_after (quiet_await nofun) fun fillId _ => ?_
  refine safe_after (quiet_await nofun) fun _ _ => ?_
  exact driveToCompletion_safe polls k fillId _ secret order _ _ opts

theorem crossChainResume_safe (polls : Nat) (k : κ) (fillId : Nat)
    (opts : CrossChainFillOptions) :
    (bot.crossChainResume polls k fillId opts).Safe bot.setting (fun _ _ => True) w := by
  refine safe_after (quiet_ensure ..) fun _ _ => ?_
  refine safe_after (quiet_await nofun) fun stored _ => ?_
  cases stored with
  | none => trivial
  | some secret =>
      refine safe_after (quiet_await nofun) fun order _ => ?_
      refine safe_after (quiet_await nofun) fun fill w => ?_
      by_cases hclaimed : fill.status = .claimed
      · simp only [hclaimed, if_true]
        trivial
      · simp only [hclaimed, if_false]
        refine safe_after (resolveLegs_quiet _) fun legs _ => ?_
        exact driveToCompletion_safe polls k fillId _ secret order _ _ opts

/-! ## Runs -/

/-- **A secret goes to the bot's own escrow**, in every run in which no
other account has the clone when the bot looks whether it is there. -/
theorem reveals_to_itself {tokens : ChainLegs → W} {block : ChainLegs → Block}
    {s : Running (World κ A W) (Ask κ A) Ask.Answer String}
    (h : bot.Steps bot.Unraced ⟨World.deployed tokens block, []⟩ s) :
    bot.RevealsToItself s := by
  have hinit : Running.Sound bot.setting
      (⟨World.deployed tokens block, []⟩ : Running (World κ A W) (Ask κ A) Ask.Answer String) :=
    ⟨fun legs => ⟨⟨_, _, .refl⟩, ⟨rfl, fun _ _ => rfl⟩⟩, nofun⟩
  have hsound := Running.sound_steps setting_lawful env_kept (fun {x w} hstart _ => by
    cases hstart with
    | crossChainFill polls k bps opts => exact crossChainFill_safe polls k bps opts
    | crossChainResume polls k fillId opts => exact crossChainResume_safe polls k fillId opts)
    hinit h
  intro x hx legs escrow secret hpending
  exact hsound.asked setting_lawful hx hpending legs escrow secret rfl

/-! ## A race -/

namespace Race

open Ledger (cowFiller)

def info : OrderInfo Nat := ⟨2, 4, 100, 6, 90, 1000, 0, 3000⟩

def order : OrderData Nat := ⟨info, some [1], 31337⟩

def fill : FillData := ⟨8, 40, 300, 420, some [1], .authorized⟩

/-- Up to the first check of the time. -/
def quoted : List (Sigma (Ask.Answer (κ := OrderInfo Nat) (A := Nat))) :=
  [⟨.getOrder info, order⟩, ⟨.remainingInput .chainA info 100, (100 : Nat)⟩,
   ⟨.randomBytes32, (7 : Bytes32)⟩, ⟨.dateNow, (0 : Nat)⟩,
   ⟨.postFill info 14 8 40 300 420, (1 : Nat)⟩, ⟨.saveSecret 1 7, ()⟩,
   ⟨.dstComputeAddress .chainA 8 14, (15 : Nat)⟩, ⟨.dstHasCode .chainA 15, true⟩,
   ⟨.dateNow, (0 : Nat)⟩, ⟨.dateNow, (0 : Nat)⟩, ⟨.getFill 1, fill⟩,
   ⟨.dateNow, (0 : Nat)⟩, ⟨.dateNow, (0 : Nat)⟩, ⟨.getFill 1, fill⟩, ⟨.dateNow, (0 : Nat)⟩]

/-- From there to the withdrawal, when the clone is there. -/
def resumed : List (Sigma (Ask.Answer (κ := OrderInfo Nat) (A := Nat))) :=
  [⟨.computeAddress .chainA info 8, Ledger.cloneAddress info 8⟩, ⟨.isFilled .chainA info 8, true⟩,
   ⟨.dateNow, (0 : Nat)⟩]

def start : World (OrderInfo Nat) Nat (Ledger Nat) :=
  .deployed (fun _ => update₂ (fun _ _ => 0) 4 2 100) fun _ => ⟨1, 0⟩

/-- The call the bot would make, made by someone. -/
def fillSlotBy (msgSender : Outsider Ledger.sourceChain) :
    Tx (SourceChain.Label Ledger.sourceChain) SourceChain.Elapse :=
  .call (.leaf (.fillSlot msgSender 100 info [1] ⟨info, 8, 40, 300, 420⟩ [1]))

def filled (msgSender : Outsider Ledger.sourceChain) : World (OrderInfo Nat) Nat (Ledger Nat) :=
  { start with secrets := update start.secrets 1 (some 7) }.setSource .chainA
    (stepTx (SourceChain.body Ledger.sourceChain) SourceChain.elapse (fillSlotBy msgSender)
      (start.source .chainA))

theorem withdraws (msgSender : Outsider Ledger.sourceChain)
    {P : World (OrderInfo Nat) Nat (Ledger Nat) → Ask (OrderInfo Nat) Nat → Prop}
    (hfree : ∀ w q, (∀ legs k h, q ≠ .isFilled legs k h) → P w q)
    (hpermits : P (filled msgSender) (.isFilled .chainA info 8))
    (hfilled : (((filled msgSender).source .chainA).escrows info 8).fill.isSome = true) :
    ∃ x, x.pending = some (.withdraw .chainA (Ledger.cloneAddress info 8) 7) ∧
      cowFiller.Steps P ⟨start, []⟩ ⟨filled msgSender, [x]⟩ := by
  have hdialogue : (((cowFiller.crossChainFill 2 info 4000 ⟨none, false⟩).feed quoted).bind
      fun x => x.feed resumed).bind Script.pending =
        some (.withdraw .chainA (Ledger.cloneAddress info 8) 7) := by decide +kernel
  obtain ⟨y, hfeed, hpending⟩ := Option.bind_eq_some_iff.mp hdialogue
  obtain ⟨x, hquoted, hresumed⟩ := Option.bind_eq_some_iff.mp hfeed
  have heard : Running.Heard (fun w q a w' => P w q ∧ cowFiller.Answers w q a w') start
      quoted { start with secrets := update start.secrets 1 (some 7) } :=
    ⟨_, ⟨hfree _ _ nofun, rfl⟩, _, ⟨hfree _ _ nofun, rfl, rfl⟩, _, ⟨hfree _ _ nofun, rfl⟩,
      _, ⟨hfree _ _ nofun, rfl⟩, _, ⟨hfree _ _ nofun, rfl⟩, _, ⟨hfree _ _ nofun, rfl⟩,
      _, ⟨hfree _ _ nofun, rfl⟩, _, ⟨hfree _ _ nofun, rfl⟩, _, ⟨hfree _ _ nofun, rfl⟩,
      _, ⟨hfree _ _ nofun, rfl⟩, _, ⟨hfree _ _ nofun, rfl⟩, _, ⟨hfree _ _ nofun, rfl⟩,
      _, ⟨hfree _ _ nofun, rfl⟩, _, ⟨hfree _ _ nofun, rfl⟩, _, ⟨hfree _ _ nofun, rfl⟩, rfl⟩
  have heard' : Running.Heard (fun w q a w' => P w q ∧ cowFiller.Answers w q a w')
      (filled msgSender) resumed (filled msgSender) :=
    ⟨_, ⟨hfree _ _ nofun, rfl, rfl⟩, _, ⟨hpermits, hfilled.symm, rfl⟩,
      _, ⟨hfree _ _ nofun, rfl⟩, rfl⟩
  refine ⟨y, hpending, .head (.start _ _ (.crossChainFill 2 info 4000 ⟨none, false⟩)) ?_⟩
  refine (Running.feed_steps hquoted heard).trans (.head
    (.world _ _ (.chain _ .chainA (fillSlotBy msgSender))) ?_)
  exact Running.feed_steps hresumed heard'

/-- Account 16 calls `fillSlot` while the bot waits for its authorisation, and
the bot goes on to reveal its secret to 16's escrow. -/
theorem reveals_to_another :
    ¬ ∀ (tokens : ChainLegs → Ledger Nat) (block : ChainLegs → Block)
      (s : Running (World (OrderInfo Nat) Nat (Ledger Nat)) (Ask (OrderInfo Nat) Nat) Ask.Answer
        String),
      cowFiller.Steps (fun _ _ => True) ⟨World.deployed tokens block, []⟩ s →
        cowFiller.RevealsToItself s := by
  intro hall
  obtain ⟨x, hpending, hsteps⟩ := withdraws (Ledger.outsider 8 (by decide))
    (P := fun _ _ => True) (fun _ _ _ => trivial) trivial (by decide +kernel)
  obtain ⟨k, h, t, haddress, hterms, hfiller, -⟩ :=
    hall _ _ _ hsteps x (List.mem_singleton.mpr rfl) _ _ _ hpending
  obtain ⟨rfl, rfl⟩ := Ledger.cloneAddress_injective haddress
  have hforeign :
      (((filled (Ledger.outsider 8 (by decide))).source .chainA).escrows info 8).terms.map
        (fun t => t.filler) = some 16 := by decide +kernel
  rw [hterms] at hforeign
  simp [hfiller, cowFiller] at hforeign

/-- The same run with the bot's own account in the place of 16. -/
theorem reveals_to_itself_resumed :
    ∃ s x, x ∈ s.tasks ∧
      x.pending = some (.withdraw .chainA (Ledger.cloneAddress info 8) 7) ∧
      cowFiller.RevealsToItself s := by
  obtain ⟨x, hpending, hsteps⟩ := withdraws (Ledger.outsider 7 (by decide))
    (P := cowFiller.Unraced) (fun w q hq => by
      cases q with
      | isFilled legs k h => exact absurd rfl (hq legs k h)
      | _ => trivial)
    (show ∀ fill ∈ (((filled (Ledger.outsider 7 (by decide))).source .chainA).escrows info 8).fill,
      fill.filler = cowFiller.wallet by decide +kernel)
    (by decide +kernel)
  exact ⟨_, x, List.mem_singleton.mpr rfl, hpending, reveals_to_itself hsteps⟩

end Race

end CoWFiller

end NeutronX.CrossChain
