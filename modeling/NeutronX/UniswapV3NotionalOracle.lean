import NeutronX.Auction
import NeutronX.Evm.Signed

/-!
# The price source

`UniswapV3NotionalOracle` values an amount of a token in wei, at the price
of the token's Uniswap V3 pool averaged over a time window: the mean tick
from the pool's cumulative ticks, its square root price, and the quote at
that price. The factory, the pools and `TickMath` are code outside the
repository; what they answer can depend on a state `W`.
-/

namespace NeutronX

open Evm

namespace TickMath

def MIN_TICK : Int := -887272
def MAX_TICK : Int := 887272
def MIN_SQRT_PRICE : Nat := 4295128739
def MAX_SQRT_PRICE : Nat := 1461446703485210103287273052203988822378723970342

/-- A square root price in the range of the library. -/
def ValidSqrtPrice (sqrtPriceX96 : Nat) : Prop :=
  MIN_SQRT_PRICE ≤ sqrtPriceX96 ∧ sqrtPriceX96 ≤ MAX_SQRT_PRICE

instance (sqrtPriceX96 : Nat) : Decidable (ValidSqrtPrice sqrtPriceX96) :=
  inferInstanceAs (Decidable (_ ∧ _))

end TickMath

/-- The immutables, with what their constructor checks, and the code they
point at. -/
structure UniswapV3NotionalOracle (W : Type) where
  wrappedNative : Address
  wrappedNative_ne_zero : wrappedNative ≠ 0
  twapWindow : Uint 32
  twapWindow_pos : 0 < (twapWindow : Nat)
  /-- of the factory, which is not the zero address -/
  getPool : W → (tokenA tokenB : Address) → (fee : Nat) → Except Revert Address
  /-- the cumulative ticks of a pool at two ages -/
  observe : W → (pool : Address) → (older newer : Nat) → Except Revert (Int × Int)
  getSqrtPriceAtTick : Int → Except Revert Nat

namespace UniswapV3NotionalOracle

variable {W : Type} (o : UniswapV3NotionalOracle W)

/-- The mean tick, of the cumulative ticks at both ends of the window. -/
def meanTick (older newer : Int) : Except Revert Int := do
  let delta ← checkedInt 56 (newer - older)
  let meanTick := toInt 24 (delta.tdiv o.twapWindow)
  -- round toward negative infinity
  if delta < 0 ∧ delta.tmod o.twapWindow ≠ 0 then
    checkedInt 24 (meanTick - 1)
  else
    return meanTick

/-- `_quote`. -/
def quote (sqrtPriceX96 amountIn : Nat) (token : Address) : Except Revert Nat :=
  if sqrtPriceX96 ≤ maxUint 128 then do
    let ratioX192 ← checkedMul sqrtPriceX96 sqrtPriceX96
    if token < o.wrappedNative then
      mulDiv ratioX192 amountIn (2 ^ 192)
    else
      mulDiv (2 ^ 192) amountIn ratioX192
  else do
    let ratioX128 ← mulDiv sqrtPriceX96 sqrtPriceX96 (2 ^ 64)
    if token < o.wrappedNative then
      mulDiv ratioX128 amountIn (2 ^ 128)
    else
      mulDiv (2 ^ 128) amountIn ratioX128

def quoteEthNotional (w : W) : Quote := fun token amount feeTier => do
  if token = o.wrappedNative then
    return amount
  let pool ← o.getPool w token o.wrappedNative feeTier
  require (pool ≠ 0) "no twap pool"
  let (older, newer) ← o.observe w pool o.twapWindow 0
  let tick ← o.meanTick older newer
  let sqrtPriceX96 ← o.getSqrtPriceAtTick tick
  o.quote sqrtPriceX96 amount token

end UniswapV3NotionalOracle

end NeutronX
