import NeutronX.Reactor

/-!
# The order service

The backend's `createOrder`: it checks that the swapper signed the order,
that the swapper holds the input, picks the fee tier of the deepest pool,
cosigns, and stores the order under its hash. Fillers read the cosigned
orders from the table.

The swapper signs eight fields (`SwapperOrder`), the cosigner all eleven.
What the service learns from the chain while it handles a request is an
`Answers`, fresh for each request. Values that do not fit the ABI type of
their field make the encoder throw before anything is stored, so a request
carries an `OrderInfo`.
-/

namespace NeutronX

open Evm

namespace OrderService

/-! ## Orders as the swapper signs them -/

/-- `SWAPPER_ORDER_TYPE_HASH`: the order without its price curve and its
fee tier. -/
structure SwapperOrder where
  swapper : Address
  inputToken : Address
  inputAmount : Uint 256
  outputToken : Address
  minOutputAmount : Uint 256
  deadline : Uint 256
  nonce : Uint 256
  minFillBps : Uint 16
deriving DecidableEq

def swapperOrder (info : OrderInfo) : SwapperOrder where
  swapper := info.swapper
  inputToken := info.inputToken
  inputAmount := info.inputAmount
  outputToken := info.outputToken
  minOutputAmount := info.minOutputAmount
  deadline := info.deadline
  nonce := info.nonce
  minFillBps := info.minFillBps

/-! ## Requests and the table -/

structure OrderInput where
  info : OrderInfo
  startBlock : Option Nat

structure CreateOrderRequest where
  order : OrderInput
  /-- empty when missing -/
  signature : Bytes
  preferredAggregator : Option String

structure OrderRow (κ : Type) where
  hash : κ
  order : OrderInfo
  /-- the cosigner's -/
  signature : Bytes
  preferredAggregator : Option String
  startBlock : Option Nat

/-- What the service uses of the ethers library and its own key. -/
structure Ethers where
  /-- `recoverAddress(swapperDigest(order), signature)`, `none` where it throws -/
  recoverAddress : SwapperOrder → Bytes → Option Address
  signOrder : OrderInfo → Bytes
  formatUnits : (amount decimals : Nat) → String

structure Pool where
  liquidity : Nat
  observationCardinality : Nat

/-- The chain's answers while one request is handled. -/
structure Answers where
  balanceOf : (token account : Address) → Except String Nat
  /-- 18 when the call fails -/
  decimals : Address → Nat
  /-- the token's address when the call fails -/
  symbol : Address → String
  /-- the pool of the token with WETH at a fee tier -/
  getPool : Address → Uint 24 → Except String (Option Pool)

def check (c : Prop) [Decidable c] (text : String) : Except String Unit :=
  if c then .ok () else .error text

@[simp] theorem check_eq_ok {c : Prop} [Decidable c] {text : String} {u : Unit} :
    check c text = .ok u ↔ c := by
  by_cases h : c <;> simp [check, h]

/-! ## The fee tier -/

def WETH : Address := 0xC02aaa39b223FE8D0A0e5C4F27eAD9083C756Cc2

def CANDIDATE_FEE_TIERS : List (Uint 24) := [100, 500, 3000, 10000]

def minObservationCardinality : Nat := 2

/-- The loop over the candidate tiers, with the best one so far. -/
def deepest (getPool : Uint 24 → Except String (Option Pool)) :
    List (Uint 24) → Option (Uint 24 × Nat) → Except String (Option (Uint 24 × Nat))
  | [], best => return best
  | tier :: tiers, best => do
      match ← getPool tier with
      | none => deepest getPool tiers best
      | some pool =>
          if pool.liquidity = 0 ∨ pool.observationCardinality < minObservationCardinality then
            deepest getPool tiers best
          else if best.all fun b => b.2 < pool.liquidity then
            deepest getPool tiers (some (tier, pool.liquidity))
          else
            deepest getPool tiers best

/-- Never throws: without an answer the caller keeps the client's tier. -/
def pickFeeTier (q : Answers) (inputToken : Address) : Option (Uint 24) :=
  if inputToken = WETH then none
  else match deepest (q.getPool inputToken) CANDIDATE_FEE_TIERS none with
    | .ok best => best.map Prod.fst
    | .error _ => none

/-- The order that is cosigned for a request. -/
def cosignedOrder (q : Answers) (dto : CreateOrderRequest) : OrderInfo :=
  { dto.order.info with
    feeTier := (pickFeeTier q dto.order.info.inputToken).getD dto.order.info.feeTier }

/-! ## createOrder -/

def AGGREGATORS : List String := ["uniswap", "1inch", "kyberswap", "paraswap"]

def checkAggregator : Option String → Except String Unit
  | none => .ok ()
  | some key => check (key ∈ AGGREGATORS) ("Unknown preferredAggregator \x27" ++ key ++ "\x27")

def authenticate (e : Ethers) (dto : CreateOrderRequest) : Except String Unit := do
  check (dto.signature ≠ []) "Missing swapper signature"
  match e.recoverAddress (swapperOrder dto.order.info) dto.signature with
  | none => .error "Invalid swapper signature"
  | some recovered =>
      check (recovered = dto.order.info.swapper) "Order signature does not match swapper"

def checkBalance (e : Ethers) (q : Answers) (order : OrderInfo) : Except String Unit := do
  let balance ← q.balanceOf order.inputToken order.swapper
  let decimals := q.decimals order.inputToken
  check ((order.inputAmount : Nat) ≤ balance)
    ("Insufficient " ++ q.symbol order.inputToken ++ " balance: have "
      ++ e.formatUnits balance decimals ++ ", need " ++ e.formatUnits order.inputAmount decimals)

variable {κ : Type} [DecidableEq κ]

/-- Returns the table with the new row, and the hash of the order. -/
def createOrder (e : Ethers) (a : OrderAuth κ) (q : Answers) (orders : List (OrderRow κ))
    (dto : CreateOrderRequest) : Except String (List (OrderRow κ) × κ) := do
  let preferredAggregator := dto.preferredAggregator.filter fun key => key ≠ ""
  checkAggregator preferredAggregator
  authenticate e dto
  checkBalance e q dto.order.info
  let order := cosignedOrder q dto
  let cosignerSig := e.signOrder order
  let hash := a.hashOrder order
  check (∀ row ∈ orders, row.hash ≠ hash) "Order already exists"
  return (⟨hash, order, cosignerSig, preferredAggregator, dto.order.startBlock⟩ :: orders, hash)

/-- Requests one after the other; a request that throws stores nothing. -/
def createOrders (e : Ethers) (a : OrderAuth κ) :
    List (Answers × CreateOrderRequest) → List (OrderRow κ) → List (OrderRow κ)
  | [], orders => orders
  | (q, dto) :: requests, orders =>
      match createOrder e a q orders dto with
      | .ok (orders', _) => createOrders e a requests orders'
      | .error _ => createOrders e a requests orders

omit [DecidableEq κ] in
theorem authenticate_eq_ok {e : Ethers} {dto : CreateOrderRequest} {u : Unit} :
    authenticate e dto = .ok u ↔ dto.signature ≠ [] ∧
      e.recoverAddress (swapperOrder dto.order.info) dto.signature
        = some dto.order.info.swapper := by
  simp only [authenticate, bind_eq_ok, check_eq_ok]
  cases e.recoverAddress (swapperOrder dto.order.info) dto.signature with
  | none => simp
  | some recovered => simp

/-- An accepted request stores one row: the cosigned order, which has the
fields its swapper signed, under a hash that was free. -/
theorem createOrder_spec {e : Ethers} {a : OrderAuth κ} {q : Answers}
    {orders orders' : List (OrderRow κ)} {dto : CreateOrderRequest} {hash : κ}
    (h : createOrder e a q orders dto = .ok (orders', hash)) :
    e.recoverAddress (swapperOrder dto.order.info) dto.signature = some dto.order.info.swapper ∧
    (∀ row ∈ orders, row.hash ≠ hash) ∧
    ∃ row : OrderRow κ, orders' = row :: orders ∧ row.hash = hash ∧
      hash = a.hashOrder row.order ∧ row.order = cosignedOrder q dto ∧
      row.signature = e.signOrder row.order := by
  simp only [createOrder, bind_eq_ok, authenticate_eq_ok, check_eq_ok, pure_eq_ok,
    Prod.mk.injEq] at h
  obtain ⟨_, -, _, ⟨-, hauthentic⟩, _, -, _, hfree, rfl, rfl⟩ := h
  exact ⟨hauthentic, hfree, _, rfl, rfl, rfl, rfl, rfl⟩

end OrderService

end NeutronX
