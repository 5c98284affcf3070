import Mathlib.Data.Nat.Pairing
import NeutronX.CrossChain.Backend
import NeutronX.CrossChain.Filler

/-!
# Plain tokens and two chains on them

`Ledger` is the token code that moves balances and does nothing else, over
any accounts. `sourceChain` and `destinationChain` are deployments on it
whose accounts are numbers: an order is its own hash, a swapper's
signature on anything is the byte 1, the odd numbers are the addresses of
clones, and the hash of a secret is its successor.

`service` is a backend whose hashes are the lists of what is hashed, so
that a signature can be the bytes of a hash with the signer's number;
`backend` is one for the two chains, with the hashes and signatures of
`sourceChain`.
-/

namespace NeutronX.CrossChain

open Evm Function

/-- The balances of every token and account. -/
abbrev Ledger (A : Type) := A → A → Nat

namespace Ledger

section Code

variable {A : Type} [DecidableEq A]

def move (w : Ledger A) (token from_ to_ : A) (amount : Nat) : Except Revert (Ledger A) := do
  require (amount ≤ w token from_) "transfer amount exceeds balance"
  let debited := update₂ w token from_ (w token from_ - amount)
  return update₂ debited token to_ (debited token to_ + amount)

def code : TokenCode A (Ledger A) where
  balanceOf := fun w token account => w token account
  safeTransfer := fun w sender token to_ amount => move w token sender to_ amount

end Code

/-- An order as one number. -/
def encode (i : OrderInfo Nat) : Nat :=
  Nat.pair i.swapper (Nat.pair i.inputToken (Nat.pair i.inputAmount (Nat.pair i.outputToken
    (Nat.pair i.minOutput (Nat.pair i.deadlineBase (Nat.pair i.nonce i.feeTier))))))

theorem encode_injective : Injective encode := by
  intro i j h
  simp only [encode, Nat.pair_eq_pair] at h
  obtain ⟨h₁, h₂, h₃, h₄, h₅, h₆, h₇, h₈⟩ := h
  cases i
  cases j
  simp only [OrderInfo.mk.injEq]
  exact ⟨h₁, h₂, Fin.ext h₃, h₄, Fin.ext h₅, Fin.ext h₆, Fin.ext h₇, Fin.ext h₈⟩

/-- The address of a clone. -/
def cloneAddress (order : OrderInfo Nat) (hashlock : Bytes32) : Nat :=
  2 * Nat.pair (encode order) hashlock + 1

theorem cloneAddress_injective : Injective2 cloneAddress := by
  intro i j h h' heq
  have hpair : Nat.pair (encode i) h = Nat.pair (encode j) h' := by
    simp only [cloneAddress] at heq
    omega
  obtain ⟨hi, hh⟩ := Nat.pair_eq_pair.mp hpair
  exact ⟨encode_injective hi, Fin.ext hh⟩

def sourceChain : SourceChain (OrderInfo Nat) Nat (Ledger Nat) where
  toTokenCode := code
  permit2TransferFrom := fun w _ from_ to_ amount token => move w token from_ to_ amount
  recover := fun order sig => if sig = [1] then some order.swapper else none
  keccak := fun secret => secret + 1
  hashOrder := id
  hashOrder_injective := injective_id
  hashFill := fun auth => auth.orderHash
  computeAddress := cloneAddress
  computeAddress_injective := cloneAddress_injective
  factory := 100
  factory_ne_zero := by decide
  oracle := none
  config := DynamicStakeLib.defaultStakeConfig

def destinationChain : DestinationChain Nat (Ledger Nat) where
  toTokenCode := code
  keccak := fun secret => secret + 1
  computeAddress := fun hashlock filler => 2 * Nat.pair hashlock filler + 1
  computeAddress_injective := fun h h' f f' heq => by
    have hpair : Nat.pair (h : Nat) f = Nat.pair (h' : Nat) f' := by
      simp only at heq
      omega
    obtain ⟨hh, hf⟩ := Nat.pair_eq_pair.mp hpair
    exact ⟨Fin.ext hh, hf⟩

/-- An even number is an account that is not a clone. -/
def outsider (n : Nat) (hn : n ≠ 0) : Outsider sourceChain :=
  ⟨2 * n, by omega, fun order hashlock => by simp only [sourceChain, cloneAddress]; omega⟩

/-- The filler with the account 14, on two such chains. -/
def cowFiller : CoWFiller (OrderInfo Nat) Nat (Ledger Nat) where
  chain := fun _ => sourceChain
  wallet := 14
  wallet_ne_zero := by decide
  wallet_outside := fun _ => (outsider 7 (by decide)).2.2
  keccak256 := fun secret => secret + 1
  chainBRpc := true
  short := fun orderHash => toString (encode orderHash)
  text := fun a => toString a

/-- The signature of account `a`. -/
def sign (a : UInt8) (hash : List Nat) : Bytes := hash.map UInt8.ofNat ++ [a]

def service : Service (List Nat) Nat Nat where
  chainIds := [1, 2]
  escrowSrcFactory := fun _ => 100
  hashOrder := fun i => [i.swapper, i.inputToken, i.inputAmount, i.outputToken, i.minOutput,
    i.deadlineBase, i.nonce, i.feeTier]
  hashFill := fun orderHash hashlock fillAmount t1 t2 =>
    orderHash ++ [hashlock, (fillAmount : Nat), t1, t2]
  recoverAddress := fun _ _ hash sig =>
    match sig.getLast? with
    | some a => if sign a hash = sig then some a.toNat else none
    | none => none

/-- Orders from chain 1 to chain 2, on such chains. -/
def backend : Backend (OrderInfo Nat) Nat (Ledger Nat) Bytes32 where
  service := {
    chainIds := [1, 2]
    escrowSrcFactory := fun _ => sourceChain.factory
    hashOrder := sourceChain.hashOrder
    hashFill := fun orderHash _ _ _ _ => orderHash
    recoverAddress := fun _ _ => sourceChain.recover }
  source := fun _ => sourceChain
  destination := fun _ => destinationChain
  srcAddress_injective := fun h => sourceChain.computeAddress_injective h
  dstAddress_injective := fun h => destinationChain.computeAddress_injective h
  hex := id
  hex_injective := injective_id
  relayer := 16
  text := fun a => toString a

/-- Two chains with 10 blocks, the second with what `tokens` says. -/
def launched (tokens : Ledger Nat) : BackendState (OrderInfo Nat) Nat (Ledger Nat) Bytes32 :=
  .init (fun _ => SourceChain.deployed (fun _ _ => 1000) ⟨10, 0⟩)
    (fun _ => DestinationChain.deployed tokens ⟨10, 0⟩)

/-- An order is created and signed. -/
def ordered (info : OrderInfo Nat) : List backend.Move :=
  [.request 0 (.createIntent info 1 2), .execute 0,
    .request 0 (.setOrderSwapperSig info [1]), .execute 0]

def quoted (q : Quote (OrderInfo Nat) Nat Bytes32) : List backend.Move :=
  [.request 0 (.createFillQuote q), .execute 0]

/-- The destination watcher drains the blocks up to `toBlock`, with one log
in them. -/
def drained (toBlock : Nat) : List backend.Move :=
  [.see toBlock, .fetch, .handle 0, .check, .write, .finish true].map (.dstWatcher 2)

/-- Filler 14 quotes a fill of 40 with the hashlock 8 and deploys an escrow
with 40 for it, which the watcher records. -/
def fundedFill (info : OrderInfo Nat) : List backend.Move :=
  ordered info ++ quoted ⟨info, 14, 40, 8, 100, 200⟩ ++
    [.dstWatcher 2 (.connect 9 false), .destination 2 (.call (.leaf (.deploy 14 8 2 6 40 200))),
      .destination 2 (.tick ⟨1, 1⟩)] ++ drained 10

/-- The swapper authorises the funded fill of an order for 100 units. -/
def authorisedFill (minOutput : Uint 256) : List backend.Move :=
  fundedFill ⟨2, 4, 100, 6, minOutput, 1000, 0, 3000⟩ ++
    [.request 0 (.setFillSwapperSig 1 [1] none), .execute 0]

end Ledger

end NeutronX.CrossChain
