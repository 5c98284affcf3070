import NeutronX.CrossChain.EscrowSrc
import NeutronX.Evm.Accounts
import NeutronX.Evm.Reentrant

/-!
# The source chain

`EscrowSrcFactory` and every address at which it can deploy a clone. An
address is the order hash and the hashlock it is derived from; there is
one account for each pair, with code once `fillSlot` has deployed it.

The entry points are bodies in the sense of `Evm.Reentrant`. Tokens and
Permit2 are code outside the repository, and any of their calls may call
back in; so may a receiver of ETH that accepts it. One that rejects it
leaves no trace, and is a flag of the call.

Clones never send a call of their own but the ones in these bodies, so the
`msg.sender` of an entry point is an account that is not a clone.
-/

namespace NeutronX.CrossChain

open Evm Function

/-! ## Code outside the repository -/

/-- The token contracts of a chain, acting on their own state `W`. -/
structure TokenCode (A W : Type) where
  balanceOf : W → (token account : A) → Nat
  safeTransfer : W → (sender token to_ : A) → (amount : Nat) → Except Revert W

/-- The immutables of the factory, the chain's primitives and the code
outside. A clone's address tells its order hash and its hashlock (CREATE2
over the salt of the two), and an order hash its order. -/
structure SourceChain (κ A W : Type) [Zero A] extends TokenCode A W where
  permit2TransferFrom : W → (spender from_ to_ : A) → (amount : Nat) → (token : A) →
    Except Revert W
  /-- `none` where ECDSA rejects the signature -/
  recover : κ → Bytes → Option A
  keccak : Bytes32 → Bytes32
  hashOrder : OrderInfo A → κ
  hashOrder_injective : Injective hashOrder
  hashFill : FillAuth κ → κ
  computeAddress : κ → Bytes32 → A
  computeAddress_injective : Injective2 computeAddress
  factory : A
  factory_ne_zero : factory ≠ 0
  /-- the price source, whose quotes depend on the state of the pools -/
  oracle : Option (W → (token : A) → (amount feeTier : Nat) → Except Revert Nat)
  config : StakeConfig

/-- An account that is not a clone: the `msg.sender` of an entry point. -/
abbrev Outsider {κ A W : Type} [Zero A] (d : SourceChain κ A W) :=
  { a : A // a ≠ 0 ∧ ∀ orderHash hashlock, d.computeAddress orderHash hashlock ≠ a }

/-! ## State -/

inductive SourceEvent (κ A : Type) where
  | filled (orderHash : κ) (hashlock : Bytes32) (filler escrow : A)
      (fillAmount bondAmount t1 t2 : Nat)
  | remainingRestored (orderHash : κ) (hashlock : Bytes32) (amount newRemaining : Nat)
  /-- emitted by the clone at `escrow` -/
  | withdrawn (escrow filler : A) (secret : Bytes32)
  /-- emitted by the clone at `escrow` -/
  | cancelled (escrow swapper : A) (amount : Nat) (canceller : A) (safetyDeposit : Nat)
deriving DecidableEq

structure SourceState (κ A W : Type) where
  /-- raw words, in the encoding of `RemainingLib` -/
  remaining : κ → Nat
  orderAmount : κ → Nat
  /-- the reentrancy guard of `fillSlot`, and the fill that holds it -/
  filling : Option (κ × Bytes32)
  escrows : κ → Bytes32 → EscrowSrc κ A
  tokens : W
  block : Block
  /-- newest first, with the number of the block -/
  events : List (Nat × SourceEvent κ A)

namespace SourceChain

variable {κ A W : Type}

def deployed (tokens : W) (block : Block) : SourceState κ A W where
  remaining := fun _ => 0
  orderAmount := fun _ => 0
  filling := none
  escrows := fun _ _ => .vacant
  tokens := tokens
  block := block
  events := []

def emit (s : SourceState κ A W) (e : SourceEvent κ A) : SourceState κ A W :=
  { s with events := (s.block.number, e) :: s.events }

variable [DecidableEq κ]

def setEscrow (s : SourceState κ A W) (orderHash : κ) (hashlock : Bytes32)
    (c : EscrowSrc κ A) : SourceState κ A W :=
  { s with escrows := update₂ s.escrows orderHash hashlock c }

omit [DecidableEq κ] in
/-- The clone a call goes to. -/
def cloneAt (s : SourceState κ A W) (orderHash : κ) (hashlock : Bytes32) :
    Except Revert (EscrowSrc κ A) := do
  let c := s.escrows orderHash hashlock
  require (c.fill.isSome = true) "call to non-contract"
  return c

variable [Zero A] [DecidableEq A] (d : SourceChain κ A W)

/-! ## fillSlot -/

omit [DecidableEq κ] in
def verifySig (structHash : κ) (sig : Bytes) (expectedSigner : A) : Except Revert Unit :=
  match d.recover structHash sig with
  | none => .error (.custom "ECDSAInvalidSignature")
  | some signer => require (signer ≠ 0 ∧ signer = expectedSigner) "invalid signature"

omit [DecidableEq κ] [DecidableEq A] in
/-- The raw amount when the oracle is disabled. -/
def notionalEth (s : SourceState κ A W) (inputToken : A) (fillAmount feeTier : Nat) :
    Except Revert Nat :=
  match d.oracle with
  | none => .ok fillAmount
  | some quote => quote s.tokens inputToken fillAmount feeTier

omit [DecidableEq κ] [DecidableEq A] in
def requiredStake (s : SourceState κ A W) (fillAmount : Nat) (inputToken : A)
    (feeTier t1 : Nat) : Except Revert Nat := do
  let notional ← notionalEth d s inputToken fillAmount feeTier
  DynamicStakeLib.requiredStakeByTimestamp s.block d.config notional t1

omit [DecidableEq A] in
/-- `Clones.cloneDeterministic`, which fails where there is code already. -/
def deployClone (s : SourceState κ A W) (fill : Fill κ A) :
    Except Revert (SourceState κ A W) := do
  let c := s.escrows (d.hashOrder fill.order) fill.auth.hashlock
  requireCustom (c.fill.isNone = true) "FailedDeployment"
  return setEscrow s (d.hashOrder fill.order) fill.auth.hashlock { c with fill := some fill }

/-- `fillSlot` up to and including the pull of the input into the clone. -/
def fillOpen (s : SourceState κ A W) (fill : Fill κ A) (swapperSig perFillSig : Bytes) :
    Except Revert (SourceState κ A W) := do
  let info := fill.order
  let auth := fill.auth
  let orderHash := d.hashOrder info
  nonReentrant s.filling.isSome
  require (auth.orderHash = orderHash) "auth/order mismatch"
  require (0 < (info.inputAmount : Nat)) "zero amount"
  require (s.block.timestamp ≤ info.deadlineBase) "order expired"
  require (auth.t1 ≤ info.deadlineBase) "t1 beyond deadlineBase"
  require (auth.t1 < auth.t2) "t2 must exceed t1"
  require (0 < (auth.fillAmount : Nat)) "zero fill amount"
  require (auth.fillAmount ≤ maxUint 160) "fill amount overflow"
  verifySig d orderHash swapperSig info.swapper
  verifySig d (d.hashFill auth) perFillSig info.swapper
  let currentRemaining := RemainingLib.remaining (s.remaining orderHash) info.inputAmount
  require (auth.fillAmount ≤ currentRemaining) "fill > remaining"
  let newRemaining ← checkedSub currentRemaining auth.fillAmount
  let required ← requiredStake d s auth.fillAmount info.inputToken info.feeTier auth.t1
  require (required ≤ fill.bond) "bond below required stake"
  let s ← deployClone d s fill
  let tokens ← d.permit2TransferFrom s.tokens d.factory info.swapper
    (d.computeAddress orderHash auth.hashlock) (toUint 160 auth.fillAmount) info.inputToken
  return { s with
    filling := some (orderHash, auth.hashlock)
    orderAmount := update s.orderAmount orderHash info.inputAmount
    remaining := update s.remaining orderHash (RemainingLib.store newRemaining)
    tokens }

/-- The arguments `fillSlot` passes to `initialize`. -/
def initArgs (fill : Fill κ A) : InitArgs κ A where
  hashlock := fill.auth.hashlock
  filler := fill.filler
  swapper := fill.order.swapper
  token := fill.order.inputToken
  amount := fill.auth.fillAmount
  expiry := fill.auth.t1
  orderHash := d.hashOrder fill.order
  factory := d.factory

/-- `initialize` of the clone with its own token balance. -/
def initializeAt (s : SourceState κ A W) (orderHash : κ) (hashlock : Bytes32) (msgValue : Nat)
    (a : InitArgs κ A) : Except Revert (SourceState κ A W) := do
  let c ← cloneAt s orderHash hashlock
  let held := d.balanceOf s.tokens a.token (d.computeAddress orderHash hashlock)
  let c ← EscrowSrc.initializeClone s.block c msgValue held a
  return setEscrow s orderHash hashlock c

/-- `fillSlot` after the pull. -/
def fillClose (s : SourceState κ A W) (fill : Fill κ A) : Except Revert (SourceState κ A W) := do
  let orderHash := d.hashOrder fill.order
  let auth := fill.auth
  let s ← initializeAt d s orderHash auth.hashlock fill.bond (initArgs d fill)
  return { emit s (.filled orderHash auth.hashlock fill.filler
      (d.computeAddress orderHash auth.hashlock) auth.fillAmount fill.bond auth.t1 auth.t2) with
    filling := none }

def fillSlot (s : SourceState κ A W) (msgSender : A) (msgValue : Nat) (info : OrderInfo A)
    (swapperSig : Bytes) (auth : FillAuth κ) (perFillSig : Bytes) :
    Prog (SourceState κ A W) Revert :=
  let fill : Fill κ A := ⟨info, auth, msgSender, msgValue⟩
  .attempt (fillOpen d s fill swapperSig perFillSig) fun s =>
  .yield s fun s =>
  .attempt (fillClose d s fill) .done

/-! ## restoreRemaining -/

def restoreRemaining (s : SourceState κ A W) (msgSender : A) (orderHash : κ)
    (hashlock : Bytes32) (amount : Nat) : Except Revert (SourceState κ A W) := do
  require (msgSender = d.computeAddress orderHash hashlock) "not escrow clone"
  let orderAmount := s.orderAmount orderHash
  let sum ← checkedAdd (RemainingLib.remaining (s.remaining orderHash) orderAmount) amount
  -- never exceed the order total
  let restored := if orderAmount < sum then orderAmount else sum
  let raw := if restored = 0 then 0 else RemainingLib.pack restored
  return emit { s with remaining := update s.remaining orderHash raw }
    (.remainingRestored orderHash hashlock amount restored)

/-! ## Settlement of a clone -/

omit [Zero A] [DecidableEq A] in
/-- The clone sends what it escrows, and its storage becomes `c`. -/
def payOut (code : TokenCode A W) (s : SourceState κ A W) (escrow : A) (orderHash : κ)
    (hashlock : Bytes32) (t : Terms κ A) (to_ : A) (c : EscrowSrc κ A) :
    Except Revert (SourceState κ A W) := do
  let tokens ← code.safeTransfer s.tokens escrow t.token to_ t.amount
  return { setEscrow s orderHash hashlock c with tokens }

omit [DecidableEq A] in
def withdrawStart (s : SourceState κ A W) (orderHash : κ) (hashlock secret : Bytes32) :
    Except Revert (SourceState κ A W) := do
  let c ← cloneAt s orderHash hashlock
  let (c, t) ← EscrowSrc.withdrawStart d.keccak s.block c secret
  payOut d.toTokenCode s (d.computeAddress orderHash hashlock) orderHash hashlock t t.filler c

omit [Zero A] in
def withdrawPay (s : SourceState κ A W) (orderHash : κ) (hashlock secret : Bytes32)
    (accepted : Bool) : Except Revert (SourceState κ A W) := do
  let c ← cloneAt s orderHash hashlock
  let t ← EscrowSrc.initialized c
  let c ← EscrowSrc.payDeposit c (.withdrawn secret) t.filler t.safetyDeposit accepted
  return setEscrow s orderHash hashlock c

omit [DecidableEq A] in
def withdrawEnd (s : SourceState κ A W) (orderHash : κ) (hashlock secret : Bytes32) :
    Except Revert (SourceState κ A W) := do
  let c ← cloneAt s orderHash hashlock
  let t ← EscrowSrc.initialized c
  return emit (setEscrow s orderHash hashlock (EscrowSrc.release c))
    (.withdrawn (d.computeAddress orderHash hashlock) t.filler secret)

def withdraw (s : SourceState κ A W) (orderHash : κ) (hashlock secret : Bytes32)
    (accepted : Bool) : Prog (SourceState κ A W) Revert :=
  .attempt (withdrawStart d s orderHash hashlock secret) fun s =>
  .yield s fun s =>
  .attempt (withdrawPay s orderHash hashlock secret accepted) fun s =>
  .yieldIf accepted s fun s =>
  .attempt (withdrawEnd d s orderHash hashlock secret) .done

omit [DecidableEq A] in
def cancelStart (s : SourceState κ A W) (orderHash : κ) (hashlock : Bytes32) :
    Except Revert (SourceState κ A W) := do
  let c ← cloneAt s orderHash hashlock
  let (c, t) ← EscrowSrc.cancelStart s.block c
  payOut d.toTokenCode s (d.computeAddress orderHash hashlock) orderHash hashlock t t.swapper c

omit [Zero A] in
def cancelPay (s : SourceState κ A W) (orderHash : κ) (hashlock : Bytes32) (accepted : Bool) :
    Except Revert (SourceState κ A W) := do
  let c ← cloneAt s orderHash hashlock
  let t ← EscrowSrc.initialized c
  let c ← EscrowSrc.payDeposit c .refunded t.swapper t.safetyDeposit accepted
  return setEscrow s orderHash hashlock c

/-- The callback of a clone whose terms are `t`. A clone that names another
factory would call code outside. -/
def callFactory (s : SourceState κ A W) (escrow : A) (t : Terms κ A) :
    Except Revert (SourceState κ A W) :=
  if t.factory = d.factory then
    restoreRemaining d s escrow t.orderHash t.hashlock t.amount
  else
    .error (.external "restoreRemaining")

def cancelEnd (s : SourceState κ A W) (msgSender : A) (orderHash : κ) (hashlock : Bytes32) :
    Except Revert (SourceState κ A W) := do
  let c ← cloneAt s orderHash hashlock
  let t ← EscrowSrc.initialized c
  let s ← callFactory d s (d.computeAddress orderHash hashlock) t
  return emit (setEscrow s orderHash hashlock (EscrowSrc.release c))
    (.cancelled (d.computeAddress orderHash hashlock) t.swapper t.amount msgSender
      t.safetyDeposit)

def cancel (s : SourceState κ A W) (msgSender : A) (orderHash : κ) (hashlock : Bytes32)
    (accepted : Bool) : Prog (SourceState κ A W) Revert :=
  .attempt (cancelStart d s orderHash hashlock) fun s =>
  .yield s fun s =>
  .attempt (cancelPay s orderHash hashlock accepted) fun s =>
  .yieldIf accepted s fun s =>
  .attempt (cancelEnd d s msgSender orderHash hashlock) .done

/-! ## Credited and forced ETH -/

def claimStart (s : SourceState κ A W) (orderHash : κ) (hashlock : Bytes32)
    (msgSender to_ : A) : Except Revert (SourceState κ A W) := do
  let c ← cloneAt s orderHash hashlock
  let c ← EscrowSrc.claimStart c msgSender to_
  return setEscrow s orderHash hashlock c

omit [Zero A] [DecidableEq A] in
def claimReturn (s : SourceState κ A W) (orderHash : κ) (hashlock : Bytes32)
    (accepted : Bool) : Except Revert (SourceState κ A W) := do
  let c ← cloneAt s orderHash hashlock
  let c ← EscrowSrc.claimReturn c accepted
  return setEscrow s orderHash hashlock c

def claimEth (s : SourceState κ A W) (orderHash : κ) (hashlock : Bytes32)
    (msgSender to_ : A) (accepted : Bool) : Prog (SourceState κ A W) Revert :=
  .attempt (claimStart s orderHash hashlock msgSender to_) fun s =>
  .yield s fun s =>
  .attempt (claimReturn s orderHash hashlock accepted) .done

omit [Zero A] [DecidableEq A] in
/-- ETH that arrives without a call, also before there is a clone. -/
def forceEth (s : SourceState κ A W) (orderHash : κ) (hashlock : Bytes32) (value : Nat) :
    Except Revert (SourceState κ A W) := do
  let c ← EscrowSrc.receiveEth (s.escrows orderHash hashlock) value
  return setEscrow s orderHash hashlock c

/-! ## Calls and runs -/

omit [DecidableEq κ] [DecidableEq A] in
/-- The entry points; `accepted` is whether the receiver takes the ETH. -/
inductive Label (d : SourceChain κ A W) where
  | fillSlot (msgSender : Outsider d) (msgValue : Nat) (info : OrderInfo A) (swapperSig : Bytes)
      (auth : FillAuth κ) (perFillSig : Bytes)
  | restoreRemaining (msgSender : Outsider d) (orderHash : κ) (hashlock : Bytes32)
      (amount : Nat)
  | initializeClone (orderHash : κ) (hashlock : Bytes32) (msgValue : Nat) (args : InitArgs κ A)
  | withdraw (orderHash : κ) (hashlock secret : Bytes32) (accepted : Bool)
  | cancel (msgSender : Outsider d) (orderHash : κ) (hashlock : Bytes32) (accepted : Bool)
  | claimEth (msgSender : Outsider d) (orderHash : κ) (hashlock : Bytes32) (to_ : A)
      (accepted : Bool)
  | forceEth (orderHash : κ) (hashlock : Bytes32) (value : Nat)
  /-- anything anyone does to tokens -/
  | tokens (f : W → W)

def body : Label d → SourceState κ A W → Prog (SourceState κ A W) Revert
  | .fillSlot msgSender msgValue info swapperSig auth perFillSig, s =>
      fillSlot d s msgSender msgValue info swapperSig auth perFillSig
  | .restoreRemaining msgSender orderHash hashlock amount, s =>
      .attempt (restoreRemaining d s msgSender orderHash hashlock amount) .done
  | .initializeClone orderHash hashlock msgValue args, s =>
      .attempt (initializeAt d s orderHash hashlock msgValue args) .done
  | .withdraw orderHash hashlock secret accepted, s =>
      withdraw d s orderHash hashlock secret accepted
  | .cancel msgSender orderHash hashlock accepted, s =>
      cancel d s msgSender orderHash hashlock accepted
  | .claimEth msgSender orderHash hashlock to_ accepted, s =>
      claimEth s orderHash hashlock msgSender to_ accepted
  | .forceEth orderHash hashlock value, s => .attempt (forceEth s orderHash hashlock value) .done
  | .tokens f, s => .done { s with tokens := f s.tokens }

/-- The passing of blocks and seconds. -/
structure Elapse where
  blocks : Nat
  seconds : Nat

omit [DecidableEq κ] [Zero A] [DecidableEq A] in
def elapse (t : Elapse) (s : SourceState κ A W) : SourceState κ A W :=
  { s with block := ⟨s.block.number + t.blocks, s.block.timestamp + t.seconds⟩ }

/-- Transactions, each with whatever the code outside calls back, and time
between them. -/
def run (txs : List (Tx (Label d) Elapse)) (s : SourceState κ A W) : SourceState κ A W :=
  runTxs (body d) elapse txs s

/-- A state between transactions. -/
def Reachable (s : SourceState κ A W) : Prop :=
  ∃ tokens block txs, s = run d txs (deployed tokens block)

end SourceChain

end NeutronX.CrossChain
