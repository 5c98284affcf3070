import Mathlib.Algebra.Order.Archimedean.Basic
import Mathlib.Data.Rat.Floor
import Mathlib.Tactic.NormNum
import NeutronX.Evm.FixedPoint
import NeutronX.UniswapV3NotionalOracle

/-!
# How accurate a quote is

A quote is the floor of the amount times a fixed-point ratio (`quote_eq`),
so it grows with the amount. Up to a square root price of 128 bits the
ratio is the exact price, and the quote is within one unit of the exact
value. Above, the ratio itself is rounded down: as a divisor it still costs
less than one unit, as a factor it can cost a second one
(`Fractional.quote_is_not_within_one`). The tick the price is taken at is
the floor of the average, where that is a tick.
-/

namespace NeutronX

open Evm

namespace UniswapV3NotionalOracle

variable {W : Type} (o : UniswapV3NotionalOracle W)

/-- The exact price of one unit of `token`. -/
def price (sqrtPriceX96 : Nat) (token : Address) : ℚ :=
  if token < o.wrappedNative then
    ((sqrtPriceX96 : ℚ) / 2 ^ 96) ^ 2
  else
    (((sqrtPriceX96 : ℚ) / 2 ^ 96) ^ 2)⁻¹

/-- The ratio an amount is multiplied by: its numerator and denominator. -/
def ratio (sqrtPriceX96 : Nat) (token : Address) : Nat × Nat :=
  if sqrtPriceX96 ≤ maxUint 128 then
    if token < o.wrappedNative then
      (sqrtPriceX96 * sqrtPriceX96, 2 ^ 192)
    else
      (2 ^ 192, sqrtPriceX96 * sqrtPriceX96)
  else
    if token < o.wrappedNative then
      (sqrtPriceX96 * sqrtPriceX96 / 2 ^ 64, 2 ^ 128)
    else
      (2 ^ 128, sqrtPriceX96 * sqrtPriceX96 / 2 ^ 64)

/-- The floor of an amount times the ratio. -/
def quoted (sqrtPriceX96 amountIn : Nat) (token : Address) : Nat :=
  (o.ratio sqrtPriceX96 token).1 * amountIn / (o.ratio sqrtPriceX96 token).2

/-- What a quote of `amountIn` may be: less than one unit away from the exact
value, and less than two units below it where the ratio is a rounded factor. -/
def Accurate (sqrtPriceX96 amountIn : Nat) (token : Address) (quote : Nat) : Prop :=
  if 2 ^ 128 ≤ sqrtPriceX96 ∧ token < o.wrappedNative then
    quote ≤ o.price sqrtPriceX96 token * amountIn ∧
      o.price sqrtPriceX96 token * amountIn < quote + 2
  else
    |quote - o.price sqrtPriceX96 token * amountIn| < 1

/-- The exact average tick over the window. -/
def averageTick (older newer : Int) : ℚ := (newer - older : Int) / (o.twapWindow : Nat)

/-! ## The ranges of the intermediate values -/

section Ranges

variable {sqrtPriceX96 : Nat}

theorem ratioX192_lt (hsmall : sqrtPriceX96 < 2 ^ 128) :
    sqrtPriceX96 * sqrtPriceX96 < wordSize :=
  Nat.lt_of_lt_of_eq (Nat.mul_lt_mul'' hsmall hsmall) (by norm_num [wordSize])

theorem ratioX128_ge (hlarge : 2 ^ 128 ≤ sqrtPriceX96) :
    2 ^ 192 ≤ sqrtPriceX96 * sqrtPriceX96 / 2 ^ 64 := by
  rw [Nat.le_div_iff_mul_le (by positivity)]
  calc 2 ^ 192 * 2 ^ 64 = 2 ^ 128 * 2 ^ 128 := by norm_num
    _ ≤ sqrtPriceX96 * sqrtPriceX96 := Nat.mul_le_mul hlarge hlarge

variable (hvalid : TickMath.ValidSqrtPrice sqrtPriceX96)
include hvalid

theorem square_ge : 2 ^ 64 ≤ sqrtPriceX96 * sqrtPriceX96 := by
  have hmin : 2 ^ 32 ≤ sqrtPriceX96 := Nat.le_trans (by decide) hvalid.1
  calc 2 ^ 64 = 2 ^ 32 * 2 ^ 32 := by norm_num
    _ ≤ sqrtPriceX96 * sqrtPriceX96 := Nat.mul_le_mul hmin hmin

theorem ratioX128_lt : sqrtPriceX96 * sqrtPriceX96 / 2 ^ 64 < wordSize := by
  have hmax : sqrtPriceX96 < 2 ^ 160 := Nat.lt_of_le_of_lt hvalid.2 (by decide)
  refine Nat.div_lt_of_lt_mul ?_
  calc sqrtPriceX96 * sqrtPriceX96 < 2 ^ 160 * 2 ^ 160 := Nat.mul_lt_mul'' hmax hmax
    _ = 2 ^ 64 * wordSize := by norm_num [wordSize]

variable {amountIn : Nat} (hamount : amountIn < 2 ^ 128) (token : Address)
include hamount

theorem quote_of_small (hsmall : sqrtPriceX96 ≤ maxUint 128) :
    o.quote sqrtPriceX96 amountIn token = .ok (o.quoted sqrtPriceX96 amountIn token) := by
  have hsquare := square_ge hvalid
  have hword := ratioX192_lt (le_maxUint.mp hsmall)
  have hmul : checkedMul sqrtPriceX96 sqrtPriceX96 = .ok (sqrtPriceX96 * sqrtPriceX96) :=
    checkedMul_eq_ok.mpr ⟨hword, rfl⟩
  by_cases htoken : token < o.wrappedNative
  · simp only [quote, quoted, ratio, hsmall, htoken, if_true, hmul, bind, Except.bind]
    refine mulDiv_eq_ok.mpr ⟨⟨by positivity, Nat.div_lt_of_lt_mul ?_⟩, rfl⟩
    calc sqrtPriceX96 * sqrtPriceX96 * amountIn
        ≤ wordSize * 2 ^ 128 := Nat.mul_le_mul hword.le hamount.le
      _ < 2 ^ 192 * wordSize := by norm_num [wordSize]
  · simp only [quote, quoted, ratio, hsmall, htoken, if_true, if_false, hmul, bind, Except.bind]
    refine mulDiv_eq_ok.mpr ⟨⟨by omega, Nat.div_lt_of_lt_mul ?_⟩, rfl⟩
    calc 2 ^ 192 * amountIn
        < 2 ^ 192 * 2 ^ 128 := Nat.mul_lt_mul_of_pos_left hamount (by positivity)
      _ = 2 ^ 64 * wordSize := by norm_num [wordSize]
      _ ≤ sqrtPriceX96 * sqrtPriceX96 * wordSize := Nat.mul_le_mul_right _ hsquare

theorem quote_of_large (hlarge : 2 ^ 128 ≤ sqrtPriceX96) :
    o.quote sqrtPriceX96 amountIn token = .ok (o.quoted sqrtPriceX96 amountIn token) := by
  have hsmall : ¬sqrtPriceX96 ≤ maxUint 128 := fun h => absurd (le_maxUint.mp h) (by omega)
  have hge := ratioX128_ge hlarge
  have hword := ratioX128_lt hvalid
  have hdiv : mulDiv sqrtPriceX96 sqrtPriceX96 (2 ^ 64)
      = .ok (sqrtPriceX96 * sqrtPriceX96 / 2 ^ 64) :=
    mulDiv_eq_ok.mpr ⟨⟨by positivity, hword⟩, rfl⟩
  by_cases htoken : token < o.wrappedNative
  · simp only [quote, quoted, ratio, hsmall, htoken, if_true, if_false, hdiv, bind, Except.bind]
    refine mulDiv_eq_ok.mpr ⟨⟨by positivity, Nat.div_lt_of_lt_mul ?_⟩, rfl⟩
    calc sqrtPriceX96 * sqrtPriceX96 / 2 ^ 64 * amountIn
        ≤ sqrtPriceX96 * sqrtPriceX96 / 2 ^ 64 * 2 ^ 128 := Nat.mul_le_mul_left _ hamount.le
      _ < wordSize * 2 ^ 128 := Nat.mul_lt_mul_of_pos_right hword (by positivity)
      _ = 2 ^ 128 * wordSize := Nat.mul_comm _ _
  · simp only [quote, quoted, ratio, hsmall, htoken, if_false, hdiv, bind, Except.bind]
    have hpos : 0 < sqrtPriceX96 * sqrtPriceX96 / 2 ^ 64 :=
      Nat.lt_of_lt_of_le (by positivity) hge
    refine mulDiv_eq_ok.mpr ⟨⟨by omega, Nat.lt_of_le_of_lt (Nat.div_le_self _ _) ?_⟩, rfl⟩
    calc 2 ^ 128 * amountIn
        < 2 ^ 128 * 2 ^ 128 := Nat.mul_lt_mul_of_pos_left hamount (by positivity)
      _ = wordSize := by norm_num [wordSize]

/-- A quote returns: the floor of the amount times the ratio. -/
theorem quote_eq :
    o.quote sqrtPriceX96 amountIn token = .ok (o.quoted sqrtPriceX96 amountIn token) := by
  by_cases hsmall : sqrtPriceX96 ≤ maxUint 128
  · exact o.quote_of_small hvalid hamount token hsmall
  · have hlarge : 2 ^ 128 ≤ sqrtPriceX96 := Nat.not_lt.mp fun h => hsmall (le_maxUint.mpr h)
    exact o.quote_of_large hvalid hamount token hlarge

end Ranges

/-! ## The error of a quote -/

section Accuracy

variable {o}
variable {sqrtPriceX96 amountIn : Nat} {token : Address}

/-- The quote of a price whose ratio is exact. -/
theorem abs_quote_sub_lt_one_of_small (hsmall : sqrtPriceX96 ≤ maxUint 128) :
    |(o.quoted sqrtPriceX96 amountIn token : ℚ) - o.price sqrtPriceX96 token * amountIn| < 1 := by
  by_cases htoken : token < o.wrappedNative
  · have hexact : o.price sqrtPriceX96 token * amountIn
        = ((sqrtPriceX96 * sqrtPriceX96 * amountIn : Nat) : ℚ) / (2 ^ 192 : Nat) := by
      rw [price, if_pos htoken]
      push_cast
      ring
    simp only [quoted, ratio, hsmall, htoken, if_true]
    rw [hexact]
    exact abs_nat_div_sub_lt_one _ _
  · have hexact : o.price sqrtPriceX96 token * amountIn
        = ((2 ^ 192 * amountIn : Nat) : ℚ) / (sqrtPriceX96 * sqrtPriceX96 : Nat) := by
      rw [price, if_neg htoken]
      push_cast
      rw [div_pow, inv_div]
      ring
    simp only [quoted, ratio, hsmall, htoken, if_true, if_false]
    rw [hexact]
    exact abs_nat_div_sub_lt_one _ _

/-- The ratio a large price is rounded to. -/
theorem floor_ratioX128 :
    ⌊((sqrtPriceX96 * sqrtPriceX96 : Nat) : ℚ) / (2 ^ 64 : Nat)⌋₊
      = sqrtPriceX96 * sqrtPriceX96 / 2 ^ 64 :=
  Nat.floor_div_eq_div _ _

/-- The quote by a rounded factor. -/
theorem quote_bounds_of_large (hlarge : 2 ^ 128 ≤ sqrtPriceX96)
    (htoken : token < o.wrappedNative) (hamount : amountIn < 2 ^ 128) :
    (o.quoted sqrtPriceX96 amountIn token : ℚ) ≤ o.price sqrtPriceX96 token * amountIn ∧
      o.price sqrtPriceX96 token * amountIn
        < (o.quoted sqrtPriceX96 amountIn token : ℚ) + 2 := by
  have hsmall : ¬sqrtPriceX96 ≤ maxUint 128 := fun h => absurd (le_maxUint.mp h) (by omega)
  have hexact : o.price sqrtPriceX96 token * amountIn
      = ((sqrtPriceX96 * sqrtPriceX96 : Nat) : ℚ) / (2 ^ 64 : Nat) * amountIn
        / (2 ^ 128 : Nat) := by
    rw [price, if_pos htoken]
    push_cast
    ring
  simp only [quoted, ratio, hsmall, htoken, if_true, if_false]
  rw [hexact, ← floor_ratioX128]
  exact floor_mul_div_bounds (by positivity) hamount.le (by positivity)

/-- The quote by a rounded divisor. -/
theorem abs_quote_sub_lt_one_of_large (hlarge : 2 ^ 128 ≤ sqrtPriceX96)
    (htoken : ¬token < o.wrappedNative) (hamount : amountIn < 2 ^ 128) :
    |(o.quoted sqrtPriceX96 amountIn token : ℚ) - o.price sqrtPriceX96 token * amountIn| < 1 := by
  have hsmall : ¬sqrtPriceX96 ≤ maxUint 128 := fun h => absurd (le_maxUint.mp h) (by omega)
  have hexact : o.price sqrtPriceX96 token * amountIn
      = ((2 ^ 128 * amountIn : Nat) : ℚ)
        / (((sqrtPriceX96 * sqrtPriceX96 : Nat) : ℚ) / (2 ^ 64 : Nat)) := by
    rw [price, if_neg htoken]
    push_cast
    rw [div_pow, inv_div, div_div_eq_mul_div]
    ring
  have hge := ratioX128_ge hlarge
  have hone : 1 ≤ ((sqrtPriceX96 * sqrtPriceX96 : Nat) : ℚ) / (2 ^ 64 : Nat) := by
    rw [← Nat.one_le_floor_iff, floor_ratioX128]
    omega
  -- the quotient has 64 bits, its divisor 192
  have hquotient : ((2 ^ 128 * amountIn : Nat) : ℚ)
      / ⌊((sqrtPriceX96 * sqrtPriceX96 : Nat) : ℚ) / (2 ^ 64 : Nat)⌋₊
        ≤ ((sqrtPriceX96 * sqrtPriceX96 : Nat) : ℚ) / (2 ^ 64 : Nat) := by
    have hfloor : ((sqrtPriceX96 * sqrtPriceX96 / 2 ^ 64 : Nat) : ℚ)
        ≤ ((sqrtPriceX96 * sqrtPriceX96 : Nat) : ℚ) / (2 ^ 64 : Nat) := Nat.cast_div_le
    have hposQ : (0 : ℚ) < (sqrtPriceX96 * sqrtPriceX96 / 2 ^ 64 : Nat) := by
      exact_mod_cast Nat.lt_of_lt_of_le (by positivity) hge
    have hproduct : 2 ^ 128 * amountIn
        ≤ sqrtPriceX96 * sqrtPriceX96 / 2 ^ 64 * (sqrtPriceX96 * sqrtPriceX96 / 2 ^ 64) :=
      calc 2 ^ 128 * amountIn ≤ 2 ^ 128 * 2 ^ 128 := Nat.mul_le_mul_left _ hamount.le
        _ ≤ 2 ^ 192 * 2 ^ 192 := by norm_num
        _ ≤ _ := Nat.mul_le_mul hge hge
    rw [floor_ratioX128]
    refine le_trans ?_ hfloor
    rw [div_le_iff₀ hposQ]
    exact_mod_cast hproduct
  simp only [quoted, ratio, hsmall, htoken, if_false]
  rw [hexact, ← floor_ratioX128]
  exact abs_div_floor_sub_lt_one hone hquotient

/-- A quote returns an accurate value. -/
theorem quote_accurate (hvalid : TickMath.ValidSqrtPrice sqrtPriceX96)
    (hamount : amountIn < 2 ^ 128) (token : Address) :
    ∃ q, o.quote sqrtPriceX96 amountIn token = .ok q ∧
      o.Accurate sqrtPriceX96 amountIn token q := by
  refine ⟨_, o.quote_eq hvalid hamount token, ?_⟩
  unfold Accurate
  split
  case isTrue hrounded =>
      exact quote_bounds_of_large hrounded.1 hrounded.2 hamount
  case isFalse hother =>
      by_cases hlarge : 2 ^ 128 ≤ sqrtPriceX96
      · exact abs_quote_sub_lt_one_of_large hlarge (fun htoken => hother ⟨hlarge, htoken⟩) hamount
      · exact abs_quote_sub_lt_one_of_small (le_maxUint.mpr (Nat.not_le.mp hlarge))

/-- A larger amount is not quoted less. -/
theorem quote_mono (hvalid : TickMath.ValidSqrtPrice sqrtPriceX96) {amountIn' : Nat}
    (hle : amountIn ≤ amountIn') (hamount : amountIn' < 2 ^ 128) (token : Address) :
    ∃ q q', o.quote sqrtPriceX96 amountIn token = .ok q ∧
      o.quote sqrtPriceX96 amountIn' token = .ok q' ∧ q ≤ q' :=
  ⟨_, _, o.quote_eq hvalid (Nat.lt_of_le_of_lt hle hamount) token,
    o.quote_eq hvalid hamount token, Nat.div_le_div_right (Nat.mul_le_mul_left _ hle)⟩

end Accuracy

/-! ## The mean tick -/

theorem floor_averageTick (older newer : Int) :
    ⌊o.averageTick older newer⌋ = (newer - older) / ((o.twapWindow : Nat) : Int) :=
  Rat.floor_intCast_div_natCast _ _

/-- The floor of the average tick, where it is a value of its type. -/
theorem meanTick_eq_floor {older newer : Int} (hdelta : FitsInt 56 (newer - older))
    (hmean : FitsInt 24 ⌊o.averageTick older newer⌋) :
    o.meanTick older newer = .ok ⌊o.averageTick older newer⌋ := by
  rw [floor_averageTick] at hmean ⊢
  have hwindow : (0 : Int) < (o.twapWindow : Nat) := by exact_mod_cast o.twapWindow_pos
  have htrunc := fits_tdiv hwindow hmean
  have hfloor := ediv_eq_tdiv (n := newer - older) hwindow
  simp only [meanTick, bind_eq_ok, checkedInt_eq_ok]
  refine ⟨newer - older, ⟨hdelta, rfl⟩, ?_⟩
  rw [toInt_of_fits (by decide) htrunc]
  split
  case isTrue hround =>
      rw [if_pos hround] at hfloor
      rw [checkedInt_eq_ok, ← hfloor]
      exact ⟨hmean, rfl⟩
  case isFalse hexact =>
      rw [if_neg hexact] at hfloor
      rw [pure_eq_ok]
      exact hfloor.symm

/-- The average of ticks is a tick, and its floor as well. -/
theorem floor_averageTick_mem {older newer : Int}
    (hlow : TickMath.MIN_TICK * (o.twapWindow : Nat) ≤ newer - older)
    (hhigh : newer - older ≤ TickMath.MAX_TICK * (o.twapWindow : Nat)) :
    TickMath.MIN_TICK ≤ ⌊o.averageTick older newer⌋ ∧
      ⌊o.averageTick older newer⌋ ≤ TickMath.MAX_TICK := by
  have hwindow : (0 : Int) < (o.twapWindow : Nat) := by exact_mod_cast o.twapWindow_pos
  rw [floor_averageTick]
  exact ⟨(Int.le_ediv_iff_mul_le hwindow).mpr hlow, Int.ediv_le_of_le_mul hwindow hhigh⟩

/-! ## The oracle -/

section Pool

variable {o}
variable {w : W} {token pool : Address} {feeTier : Nat} {older newer : Int}
variable (htoken : token ≠ o.wrappedNative)
  (hgetPool : o.getPool w token o.wrappedNative feeTier = .ok pool) (hpool : pool ≠ 0)
  (hobserve : o.observe w pool o.twapWindow 0 = .ok (older, newer))
include htoken hgetPool hpool hobserve

/-- An amount is valued at the square root price of the mean tick. -/
theorem quoteEthNotional_eq {tick : Int} (htick : o.meanTick older newer = .ok tick)
    (amount : Nat) :
    o.quoteEthNotional w token amount feeTier
      = o.getSqrtPriceAtTick tick >>= fun sqrtPriceX96 => o.quote sqrtPriceX96 amount token := by
  have hrequire : require (pool ≠ 0) "no twap pool" = .ok () := require_eq_ok.mpr hpool
  simp only [quoteEthNotional, htoken, if_false, hgetPool, hrequire, hobserve, htick, bind,
    Except.bind]

/-- A pool that averages ticks is quoted without a revert, at a price of the
library and as accurately as the price allows. -/
theorem quoteEthNotional_accurate
    (hprices : ∀ tick, TickMath.MIN_TICK ≤ tick → tick ≤ TickMath.MAX_TICK →
      ∃ sqrtPriceX96, o.getSqrtPriceAtTick tick = .ok sqrtPriceX96 ∧
        TickMath.ValidSqrtPrice sqrtPriceX96)
    (hlow : TickMath.MIN_TICK * (o.twapWindow : Nat) ≤ newer - older)
    (hhigh : newer - older ≤ TickMath.MAX_TICK * (o.twapWindow : Nat))
    {amount : Nat} (hamount : amount < 2 ^ 128) :
    ∃ sqrtPriceX96 q, o.getSqrtPriceAtTick ⌊o.averageTick older newer⌋ = .ok sqrtPriceX96 ∧
      o.quoteEthNotional w token amount feeTier = .ok q ∧
      o.Accurate sqrtPriceX96 amount token q := by
  obtain ⟨hmin, hmax⟩ := o.floor_averageTick_mem hlow hhigh
  have hbits : ((o.twapWindow : Nat) : Int) < 2 ^ 32 := by exact_mod_cast o.twapWindow.isLt
  have hdelta : FitsInt 56 (newer - older) := by
    simp only [TickMath.MIN_TICK, TickMath.MAX_TICK] at hlow hhigh
    constructor <;> norm_num <;> omega
  have hmean : FitsInt 24 ⌊o.averageTick older newer⌋ := by
    simp only [TickMath.MIN_TICK, TickMath.MAX_TICK] at hmin hmax
    constructor <;> norm_num <;> omega
  obtain ⟨sqrtPriceX96, hprice, hvalid⟩ := hprices _ hmin hmax
  obtain ⟨q, hquote, haccurate⟩ := quote_accurate hvalid hamount token
  refine ⟨sqrtPriceX96, q, hprice, ?_, haccurate⟩
  rw [quoteEthNotional_eq htoken hgetPool hpool hobserve (o.meanTick_eq_floor hdelta hmean),
    hprice]
  exact hquote

end Pool

/-- In the whole range of the library, for amounts of 128 bits and both
orders of the tokens: a quote returns an accurate value, a larger amount is
not quoted less, and the price is the one of the floor of the average tick,
where that floor is a value of its type. -/
theorem quotes_accurate_and_monotone :
    (∀ sqrtPriceX96, TickMath.ValidSqrtPrice sqrtPriceX96 → ∀ amountIn < 2 ^ 128, ∀ token,
      ∃ q, o.quote sqrtPriceX96 amountIn token = .ok q ∧
        o.Accurate sqrtPriceX96 amountIn token q) ∧
    (∀ sqrtPriceX96, TickMath.ValidSqrtPrice sqrtPriceX96 →
      ∀ amountIn amountIn', amountIn ≤ amountIn' → amountIn' < 2 ^ 128 → ∀ token,
      ∃ q q', o.quote sqrtPriceX96 amountIn token = .ok q ∧
        o.quote sqrtPriceX96 amountIn' token = .ok q' ∧ q ≤ q') ∧
    ∀ older newer, FitsInt 56 (newer - older) → FitsInt 24 ⌊o.averageTick older newer⌋ →
      o.meanTick older newer = .ok ⌊o.averageTick older newer⌋ ∧
      ∀ w token feeTier pool amount, token ≠ o.wrappedNative →
        o.getPool w token o.wrappedNative feeTier = .ok pool → pool ≠ 0 →
        o.observe w pool o.twapWindow 0 = .ok (older, newer) →
        o.quoteEthNotional w token amount feeTier
          = o.getSqrtPriceAtTick ⌊o.averageTick older newer⌋ >>=
              fun sqrtPriceX96 => o.quote sqrtPriceX96 amount token := by
  refine ⟨fun sqrtPriceX96 hvalid amountIn hamount token => quote_accurate hvalid hamount token,
    fun sqrtPriceX96 hvalid amountIn amountIn' hle hamount token =>
      quote_mono hvalid hle hamount token, ?_⟩
  intro older newer hdelta hmean
  have htick := o.meanTick_eq_floor hdelta hmean
  refine ⟨htick, ?_⟩
  intro w token feeTier pool amount htoken hgetPool hpool hobserve
  exact quoteEthNotional_eq htoken hgetPool hpool hobserve htick amount

/-! ## A price with a fractional ratio -/

namespace Fractional

/-- A price source with a window of two seconds, and a pool that was at tick -1
for one of them. -/
def source : UniswapV3NotionalOracle Unit where
  wrappedNative := 2
  wrappedNative_ne_zero := by decide
  twapWindow := 2
  twapWindow_pos := by decide
  getPool := fun _ _ _ _ => .ok 3
  observe := fun _ _ _ _ => .ok (0, -1)
  getSqrtPriceAtTick := fun _ => .ok 79224201403219477170569942574

/-- A price whose square leaves a remainder of three quarters in the ratio. -/
def sqrtPriceX96 : Nat := 2 ^ 128 + 3 * 2 ^ 31

/-- The largest amount loses more than one unit at this price, and a
difference of cumulative ticks past the type of the mean wraps. -/
theorem quote_is_not_within_one :
    (TickMath.ValidSqrtPrice sqrtPriceX96 ∧ ∃ q,
      source.quote sqrtPriceX96 (2 ^ 128 - 1) 1 = .ok q ∧
        1 < |(q : ℚ) - source.price sqrtPriceX96 1 * (2 ^ 128 - 1 : Nat)|) ∧
    FitsInt 56 (2 ^ 25 - 0) ∧ source.meanTick 0 (2 ^ 25) = .ok 0 ∧
      ⌊source.averageTick 0 (2 ^ 25)⌋ = 2 ^ 24 := by
  refine ⟨⟨by decide, 6277101735386680763835789423445350903626701713170956812289,
    by decide, ?_⟩, by decide, by decide, ?_⟩
  · have horder : (1 : Address) < source.wrappedNative := by decide
    rw [price, if_pos horder, abs_sub_comm, lt_abs]
    left
    norm_num [sqrtPriceX96]
  · rw [floor_averageTick]
    decide

/-- The quotes of this source: half a tick below zero rounds to -1. -/
theorem quotes_at_minus_one :
    (∃ q, source.quote 79224201403219477170569942574 1000 1 = .ok q ∧
      source.Accurate 79224201403219477170569942574 1000 1 q) ∧
    source.quoteEthNotional () 1 1000 500 = source.quote 79224201403219477170569942574 1000 1 := by
  have hquotes := source.quotes_accurate_and_monotone
  have hfloor : ⌊source.averageTick 0 (-1)⌋ = -1 := by
    rw [floor_averageTick]
    decide
  refine ⟨hquotes.1 _ (by decide) 1000 (by decide) 1, ?_⟩
  exact (hquotes.2.2 0 (-1) (by decide) (by rw [hfloor]; decide)).2
    () 1 500 3 1000 (by decide) rfl (by decide) rfl

end Fractional

end UniswapV3NotionalOracle

end NeutronX
