import NeutronX.CrossChain.Service
import NeutronX.CrossChain.SourceChain
import NeutronX.Evm.Script

/-!
# The cross-chain filler

The CoW filler drives a fill from its quote to the withdrawal that reveals
its secret. It is a program that asks: the backend, the two chains, the
clock and its secret store answer, and between any two questions the
chains move on. A transaction is a question whose answer is that it went
through; where it does not, or anything else fails, the program stops
there, as it does when the process is killed.

Either chain can be the source of an order. Their source sides are
modelled; what the backend and the destination side answer is up to them.
-/

namespace NeutronX.CrossChain

open Evm Function

/-- Which chain plays the source; the other one plays the destination. -/
inductive ChainLegs where
  | chainA
  | chainB
deriving DecidableEq

structure CrossChainFillOptions where
  minMarginSeconds : Option Int
  force : Bool

/-- `GET /cc/orders/:orderHash`, as far as the filler reads it. -/
structure OrderData (A : Type) where
  info : OrderInfo A
  swapperSig : Option Bytes
  chainAId : Nat
deriving DecidableEq

/-- `GET /cc/fills/:fillId`, as far as the filler reads it. -/
structure FillData where
  hashlock : Bytes32
  fillAmount : Uint 256
  t1 : Uint 256
  t2 : Uint 256
  swapperSig : Option Bytes
  status : FillStatus
deriving DecidableEq

/-! ## Questions -/

inductive Ask (κ A : Type) where
  | randomBytes32
  /-- in milliseconds -/
  | dateNow
  | sleep (milliseconds : Nat)
  | getOrder (orderHash : κ)
  | getFill (fillId : Nat)
  | postFill (orderHash : κ) (filler : A) (hashlock : Bytes32) (fillAmount t1 t2 : Nat)
  | saveSecret (fillId : Nat) (secret : Bytes32)
  | loadSecret (fillId : Nat)
  | remainingInput (legs : ChainLegs) (orderHash : κ) (orderAmount : Nat)
  | computeAddress (legs : ChainLegs) (orderHash : κ) (hashlock : Bytes32)
  | isFilled (legs : ChainLegs) (orderHash : κ) (hashlock : Bytes32)
  | previewRequiredStake (legs : ChainLegs) (fillAmount : Nat) (inputToken : A)
      (feeTier t1 : Nat)
  | fillSlot (legs : ChainLegs) (info : OrderInfo A) (swapperSig : Bytes) (auth : FillAuth κ)
      (perFillSig : Bytes) (value : Nat)
  | withdraw (legs : ChainLegs) (escrow : A) (secret : Bytes32)
  | dstComputeAddress (legs : ChainLegs) (hashlock : Bytes32) (filler : A)
  /-- `getCode(escrow) !== '0x'` -/
  | dstHasCode (legs : ChainLegs) (escrow : A)
  | dstBalanceOf (legs : ChainLegs) (token account : A)
  | dstTransfer (legs : ChainLegs) (token to_ : A) (amount : Nat)
  | dstDeploy (legs : ChainLegs) (hashlock : Bytes32) (swapper token : A) (amount t2 : Nat)
deriving DecidableEq

namespace Ask

/-- A transaction hash is a text, and so is what a run prints at its end. -/
def Answer {κ A : Type} : Ask κ A → Type
  | randomBytes32 => Bytes32
  | dateNow => Nat
  | sleep _ => Unit
  | getOrder _ => OrderData A
  | getFill _ => FillData
  | postFill .. => Nat
  | saveSecret .. => Unit
  | loadSecret _ => Option Bytes32
  | remainingInput .. => Nat
  | computeAddress .. => A
  | isFilled .. => Bool
  | previewRequiredStake .. => Nat
  | fillSlot .. => Unit
  | withdraw .. => String
  | dstComputeAddress .. => A
  | dstHasCode .. => Bool
  | dstBalanceOf .. => Nat
  | dstTransfer .. => Unit
  | dstDeploy .. => Unit

end Ask

/-- A piece of the filler's program. -/
abbrev Task (κ A : Type) := Script (Ask κ A) Ask.Answer

def await {κ A : Type} (q : Ask κ A) : Task κ A q.Answer := Script.call q

/-- The filler's wallet, which is no clone, the two chains it knows, and its
configuration. -/
structure CoWFiller (κ A W : Type) [Zero A] where
  chain : ChainLegs → SourceChain κ A W
  wallet : A
  wallet_ne_zero : wallet ≠ 0
  wallet_outside : ∀ legs orderHash hashlock, (chain legs).computeAddress orderHash hashlock ≠ wallet
  keccak256 : Bytes32 → Bytes32
  /-- whether `CHAIN_B_RPC` is set -/
  chainBRpc : Bool
  /-- `orderHash.slice(0, 10)` -/
  short : κ → String
  /-- the text of an address -/
  text : A → String

namespace CoWFiller

def chainAId : Nat := 31337
def chainBId : Nat := 31338
def t1BufferSeconds : Nat := 300
def t2BufferSeconds : Nat := 120
def statusPollIntervalMs : Nat := 3000
def statusWaitTimeoutMs : Nat := 300000
def defaultMinMarginSeconds : Int := 60

section Program

open Script

variable {κ A W : Type}

/-! ## The steps of a fill -/

def assertTimeMargin (label : String) (targetSec : Nat) (opts : CrossChainFillOptions) :
    Task κ A Unit := do
  let minMargin := opts.minMarginSeconds.getD defaultMinMarginSeconds
  let now : Nat ← await .dateNow
  let remaining : Int := targetSec - (now / 1000 : Nat)
  ensure (minMargin ≤ remaining ∨ opts.force = true)
    (s!"{label}: only {remaining}s left before T1 (< {minMargin}s required margin) — aborting to " ++
      "avoid a tx that might not confirm in time. Re-run with --force to proceed anyway, or " ++
      "--min-margin-sec to change the threshold.")

def resolveLegs (id : Nat) : Task κ A ChainLegs :=
  if id = chainAId then
    return .chainA
  else if id = chainBId then
    return .chainB
  else
    .throw (s!"Unsupported chainAId {id} — this filler only supports Chain A ({chainAId}) / " ++
      s!"Chain B ({chainBId})")

def timedOut (fillId : Nat) : String :=
  s!"Timed out waiting for fill {fillId} to progress past its current status.\n" ++
    s!"Run \x27cc resume <hash> {fillId}\x27 later to pick it back up (the secret is saved locally)."

/-- The loop of `waitForFillStatus`, which the clock ends: `polls` is any
number above that of its rounds. -/
def pollFillStatus (fillId deadline : Nat) (predicate : FillStatus → Bool) :
    (polls : Nat) → Task κ A FillData
  | 0 => .throw (timedOut fillId)
  | polls + 1 => do
      let now : Nat ← await .dateNow
      ensure (now < deadline) (timedOut fillId)
      let fill : FillData ← await (.getFill fillId)
      if predicate fill.status then
        return fill
      let _ : Unit ← await (.sleep statusPollIntervalMs)
      pollFillStatus fillId deadline predicate polls

def waitForFillStatus (polls fillId : Nat) (predicate : FillStatus → Bool) :
    Task κ A FillData := do
  let now : Nat ← await .dateNow
  pollFillStatus fillId (now + statusWaitTimeoutMs) predicate polls

variable [Zero A] (bot : CoWFiller κ A W)

def ensureDstEscrowDeployed (legs : ChainLegs) (outputToken : A) (hashlock : Bytes32)
    (swapper : A) (fillAmount t2 : Nat) : Task κ A A := do
  let escrowAddrDst : A ← await (.dstComputeAddress legs hashlock bot.wallet)
  let deployed : Bool ← await (.dstHasCode legs escrowAddrDst)
  if deployed then
    return escrowAddrDst
  let bal : Nat ← await (.dstBalanceOf legs outputToken bot.wallet)
  ensure (fillAmount ≤ bal)
    (s!"Insufficient {bot.text outputToken} on the destination chain. Need {fillAmount}, " ++
      s!"have {bal}.")
  let _ : Unit ← await (.dstTransfer legs outputToken escrowAddrDst fillAmount)
  let _ : Unit ← await (.dstDeploy legs hashlock swapper outputToken fillAmount t2)
  return escrowAddrDst

def fillSlotOnSrc (legs : ChainLegs) (order : OrderData A) (fill : FillData) (fillId : Nat)
    (orderHash : κ) (hashlock : Bytes32) : Task κ A A := do
  let escrowAddrSrc : A ← await (.computeAddress legs orderHash hashlock)
  let alreadyFilled : Bool ← await (.isFilled legs orderHash hashlock)
  if alreadyFilled then
    -- source already locked — skipping fillSlot
    return escrowAddrSrc
  let some perFillSig := fill.swapperSig | .throw s!"Fill {fillId} has no per-fill swapperSig yet"
  let some swapperSig := order.swapperSig | .throw "invalid arrayify value"
  let auth : FillAuth κ := ⟨orderHash, hashlock, fill.fillAmount, fill.t1, fill.t2⟩
  let required : Nat ← await (.previewRequiredStake legs fill.fillAmount order.info.inputToken
    order.info.feeTier fill.t1)
  let _ : Unit ← await (.fillSlot legs order.info swapperSig auth perFillSig required)
  return escrowAddrSrc

def withdrawOnSrc (legs : ChainLegs) (escrowAddrSrc : A) (secret : Bytes32) : Task κ A String :=
  await (.withdraw legs escrowAddrSrc secret)

def driveToCompletion (polls : Nat) (orderHash : κ) (fillId : Nat) (hashlock secret : Bytes32)
    (order : OrderData A) (legs : ChainLegs) (fillAmount t2 : Nat)
    (opts : CrossChainFillOptions) : Task κ A String := do
  let _ ← bot.ensureDstEscrowDeployed legs order.info.outputToken hashlock order.info.swapper
    fillAmount t2
  let _ ← waitForFillStatus polls fillId fun s => s != .quoted
  let fill ← waitForFillStatus polls fillId fun s => s != .quoted && s != .dstFunded
  assertTimeMargin "before creating EscrowSrc" fill.t1 opts
  let escrowAddrSrc ← fillSlotOnSrc legs order fill fillId orderHash hashlock
  assertTimeMargin "before revealing the secret" fill.t1 opts
  withdrawOnSrc legs escrowAddrSrc secret

/-! ## Entry points -/

/-- A new fill, of `bps` ten-thousandths of what is left
(`Math.round(pctOfRemaining * 100)`). -/
def crossChainFill (polls : Nat) (orderHash : κ) (bps : Int) (opts : CrossChainFillOptions) :
    Task κ A String := do
  ensure (bot.chainBRpc = true)
    ("CHAIN_B_RPC not set in .env\nRun: bash tests/crosschain/setup_cc.sh   " ++
      "(then restart this filler)")
  let order : OrderData A ← await (.getOrder orderHash)
  ensure (order.swapperSig.isSome = true)
    s!"Order {bot.short orderHash}… has no swapperSig yet — the swapper hasn\x27t signed the intent"
  let legs ← resolveLegs order.chainAId
  let remaining : Nat ← await (.remainingInput legs orderHash order.info.inputAmount)
  ensure (remaining ≠ 0) s!"Order {bot.short orderHash}… has nothing left to fill"
  let fillAmount := (remaining * bps).tdiv 10000
  ensure (0 < fillAmount) s!"{bps} bps of remaining ({remaining}) rounds to zero"
  let secret : Bytes32 ← await .randomBytes32
  let hashlock := bot.keccak256 secret
  let now : Nat ← await .dateNow
  let nowSec := now / 1000
  let t1 := min (order.info.deadlineBase : Nat) (nowSec + t1BufferSeconds)
  let t2 := t1 + t2BufferSeconds
  ensure (nowSec < t1)
    s!"Order {bot.short orderHash}… deadlineBase is too close/passed — no valid T1 available"
  let fillId : Nat ← await (.postFill orderHash bot.wallet hashlock fillAmount.toNat t1 t2)
  let _ : Unit ← await (.saveSecret fillId secret)
  bot.driveToCompletion polls orderHash fillId hashlock secret order legs fillAmount.toNat t2 opts

/-- A fill that was under way when the process stopped. -/
def crossChainResume (polls : Nat) (orderHash : κ) (fillId : Nat)
    (opts : CrossChainFillOptions) : Task κ A String := do
  ensure (bot.chainBRpc = true) "CHAIN_B_RPC not set in .env"
  let stored : Option Bytes32 ← await (.loadSecret fillId)
  let some secret := stored
    | .throw (s!"No locally-stored secret for fill {fillId} — this filler didn\x27t originate it, " ++
        "or the local store (.cc-secrets.json) was lost")
  let order : OrderData A ← await (.getOrder orderHash)
  let fill : FillData ← await (.getFill fillId)
  if fill.status = .claimed then
    return "already-claimed"
  let legs ← resolveLegs order.chainAId
  bot.driveToCompletion polls orderHash fillId fill.hashlock secret order legs fill.fillAmount
    fill.t2 opts

/-- The programs the operator starts. -/
inductive Starts : Task κ A String → Prop
  | crossChainFill (polls : Nat) (orderHash : κ) (bps : Int) (opts : CrossChainFillOptions) :
      Starts (bot.crossChainFill polls orderHash bps opts)
  | crossChainResume (polls : Nat) (orderHash : κ) (fillId : Nat)
      (opts : CrossChainFillOptions) : Starts (bot.crossChainResume polls orderHash fillId opts)

end Program

/-! ## The world it runs in -/

/-- The source sides of the two chains, and the file of secrets. -/
structure World (κ A W : Type) where
  source : ChainLegs → SourceState κ A W
  secrets : Nat → Option Bytes32

variable {κ A W : Type} [DecidableEq κ] [Zero A] [DecidableEq A] (bot : CoWFiller κ A W)

/-- The filler's account on a chain. -/
def account (legs : ChainLegs) : Outsider (bot.chain legs) :=
  ⟨bot.wallet, bot.wallet_ne_zero, bot.wallet_outside legs⟩

namespace World

omit [DecidableEq κ] [Zero A] [DecidableEq A] in
def deployed (tokens : ChainLegs → W) (block : ChainLegs → Block) : World κ A W where
  source := fun legs => SourceChain.deployed (tokens legs) (block legs)
  secrets := fun _ => none

omit [DecidableEq κ] [Zero A] [DecidableEq A] in
def setSource (w : World κ A W) (legs : ChainLegs) (s : SourceState κ A W) : World κ A W :=
  { w with source := update w.source legs s }

end World

/-- What anyone does on the chains, and the loss of the secrets. -/
inductive Env : World κ A W → World κ A W → Prop
  | chain (w) (legs : ChainLegs)
      (tx : Tx (SourceChain.Label (bot.chain legs)) SourceChain.Elapse) :
      Env w (w.setSource legs
        (stepTx (SourceChain.body (bot.chain legs)) SourceChain.elapse tx (w.source legs)))
  | lost (w) : Env w { w with secrets := fun _ => none }

/-- A transaction of the filler's that goes through, whatever is called back. -/
def Sends (legs : ChainLegs) (l : SourceChain.Label (bot.chain legs)) (w w' : World κ A W) :
    Prop :=
  ∃ turns s', exec (SourceChain.body (bot.chain legs)) (.mk l turns) (w.source legs) = .ok s' ∧
    w' = w.setSource legs s'

def Answers (w : World κ A W) : (q : Ask κ A) → q.Answer → World κ A W → Prop
  | .saveSecret fillId secret, _, w' =>
      w' = { w with secrets := update w.secrets fillId (some secret) }
  | .loadSecret fillId, answer, w' => answer = w.secrets fillId ∧ w' = w
  | .remainingInput legs orderHash orderAmount, answer, w' =>
      answer = RemainingLib.remaining ((w.source legs).remaining orderHash) orderAmount ∧ w' = w
  | .computeAddress legs orderHash hashlock, answer, w' =>
      answer = (bot.chain legs).computeAddress orderHash hashlock ∧ w' = w
  | .isFilled legs orderHash hashlock, answer, w' =>
      answer = ((w.source legs).escrows orderHash hashlock).fill.isSome ∧ w' = w
  | .previewRequiredStake legs fillAmount inputToken feeTier t1, answer, w' =>
      SourceChain.requiredStake (bot.chain legs) (w.source legs) fillAmount inputToken feeTier t1
        = .ok answer ∧ w' = w
  | .fillSlot legs info swapperSig auth perFillSig value, _, w' =>
      bot.Sends legs (.fillSlot (bot.account legs) value info swapperSig auth perFillSig) w w'
  | .withdraw legs escrow secret, _, w' =>
      ∃ orderHash hashlock accepted, (bot.chain legs).computeAddress orderHash hashlock = escrow ∧
        bot.Sends legs (.withdraw orderHash hashlock secret accepted) w w'
  -- the clock, the backend and the destination chain answer as they like
  | _, _, w' => w' = w

/-- Any number of the filler's programs beside the chains. `Permits` is asked
of every question that is answered. -/
abbrev Step (Permits : World κ A W → Ask κ A → Prop) :
    Running (World κ A W) (Ask κ A) Ask.Answer String →
      Running (World κ A W) (Ask κ A) Ask.Answer String → Prop :=
  Running.Step bot.Env (fun w q answer w' => Permits w q ∧ bot.Answers w q answer w') bot.Starts

abbrev Steps (Permits : World κ A W → Ask κ A → Prop) :
    Running (World κ A W) (Ask κ A) Ask.Answer String →
      Running (World κ A W) (Ask κ A) Ask.Answer String → Prop :=
  Relation.ReflTransGen (bot.Step Permits)

end CoWFiller

end NeutronX.CrossChain
