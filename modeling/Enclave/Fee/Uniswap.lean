import Enclave.Evm.Abi
import Enclave.Evm.Ownable
import Enclave.Fee.FullMath

/-!
# `EnclaveFeeLogicUniswap`

The fee logic that prices gas in a token at the spot price of a Uniswap v3 pool.  The factory, the
pools and the tokens are other contracts, of which the code reads four values.
-/

namespace Enclave

/-- What the fee logic reads from other contracts. -/
structure UniswapV3 where
  /-- `factory.getPool`. -/
  getPool : Address → Address → BitVec 24 → Address
  /-- `pool.liquidity()`. -/
  liquidity : Address → BitVec 128
  /-- The first component of `pool.slot0()`. -/
  sqrtPriceX96 : Address → BitVec 160
  /-- `token.decimals()`, which a token need not have. -/
  decimals : Address → Result (BitVec 8)

/-- `struct PoolInfo`. -/
structure PoolInfo where
  poolAddress : Address
  fee : BitVec 24
  liquidity : BitVec 128
deriving DecidableEq, Repr

/-- The storage and the immutables, with the owner that `Ownable` keeps. -/
structure FeeLogicUniswap where
  owner : Address
  WETH9 : Address
  markup : BitVec 24
  markupDenominator : BitVec 24
  feeTiers : List (BitVec 24)
deriving DecidableEq, Repr

namespace FeeLogicUniswap

open CustomFullMath

/-- What the constructor leaves. -/
def deploy (deployer WETH9 : Address) (markup markupDenominator : BitVec 24) : FeeLogicUniswap where
  owner := deployer
  WETH9 := WETH9
  markup := markup
  markupDenominator := markupDenominator
  feeTiers := [100, 500, 3000, 10000]

/-- `Q96`. -/
def Q96 : Word := 0x1000000000000000000000000

/-! ### The owner's functions -/

instance : Ownable FeeLogicUniswap where
  owner := FeeLogicUniswap.owner
  setOwner fl newOwner := { fl with owner := newOwner }

/-- The modifier `onlyOwner`. -/
def onlyOwner (sender : Address) (fl : FeeLogicUniswap) : Result Unit :=
  Ownable.onlyOwner sender fl

/-- `updateFeeTiers`. -/
def updateFeeTiers (sender : Address) (feeTiers : List (BitVec 24)) (fl : FeeLogicUniswap) :
    Result FeeLogicUniswap := do
  onlyOwner sender fl
  .ok { fl with feeTiers := feeTiers }

/-- `updateMarkup`. -/
def updateMarkup (sender : Address) (markup : BitVec 24) (fl : FeeLogicUniswap) :
    Result FeeLogicUniswap := do
  onlyOwner sender fl
  .ok { fl with markup := markup }

/-- `updateMarkupDenominator`. -/
def updateMarkupDenominator (sender : Address) (markupDenominator : BitVec 24)
    (fl : FeeLogicUniswap) : Result FeeLogicUniswap := do
  onlyOwner sender fl
  .ok { fl with markupDenominator := markupDenominator }

/-! ### Prices -/

/-- What the loop of `findOptimalPool` keeps. -/
structure Search where
  bestPool : PoolInfo
  bestLiquidity : BitVec 128
deriving DecidableEq, Repr

/-- One round of the loop, for the pool of one fee tier. -/
def visitTier (u : UniswapV3) (fl : FeeLogicUniswap) (token : Address) (best : Search)
    (tier : BitVec 24) : Search :=
  let poolAddress := u.getPool fl.WETH9 token tier
  if poolAddress ≠ 0 then
    let liquidity := u.liquidity poolAddress
    if liquidity > best.bestLiquidity ∨
        (liquidity = best.bestLiquidity ∧ tier < best.bestPool.fee) then
      ⟨⟨poolAddress, tier, liquidity⟩, liquidity⟩
    else best
  else best

/-- `findOptimalPool`. -/
def findOptimalPool (u : UniswapV3) (fl : FeeLogicUniswap) (token : Address) : BitVec 24 :=
  (fl.feeTiers.foldl (visitTier u fl token) ⟨⟨0, 0, 0⟩, 0⟩).bestPool.fee

/-- The first part of `getAmountIn`: the amount at the price after the swap. -/
def amountAtPrice (u : UniswapV3) (fl : FeeLogicUniswap) (tokenIn : Address) (amountOut : Word) :
    Result Word := do
  let fee := findOptimalPool u fl tokenIn
  let poolAddress := u.getPool tokenIn fl.WETH9 fee
  require (poolAddress ≠ 0) "Pool does not exist"
  let sqrtPriceX96 := toWord (u.sqrtPriceX96 poolAddress)
  let priceX96 ← mulDiv sqrtPriceX96 sqrtPriceX96 Q96
  let feeComplement ← Word.checkedSub 1000 (toWord fee / 1000)
  let ethAmountWithFee ← mulDiv amountOut 1000 feeComplement
  let priceImpact ← mulDiv ethAmountWithFee Q96 (toWord (u.liquidity poolAddress))
  let newPriceX96 ← Word.checkedAdd priceX96 priceImpact
  mulDiv amountOut newPriceX96 Q96

/-- `getAmountIn`: the amount is adjusted for decimals, and increased by the markup. -/
def getAmountIn (u : UniswapV3) (fl : FeeLogicUniswap) (tokenIn : Address) (amountOut : Word) :
    Result Word := do
  let amountIn ← amountAtPrice u fl tokenIn amountOut
  let decimals ← u.decimals tokenIn
  let unit ← Word.checkedPow 10 decimals.toNat
  let amountIn ← mulDiv amountIn unit 1000000000000000000
  mulDiv amountIn (toWord fl.markup) (toWord fl.markupDenominator)

/-- `calculateFee`, in a transaction with the gas price `gasprice`. -/
def calculateFee (u : UniswapV3) (fl : FeeLogicUniswap) (gasprice : Word) (token : Address)
    (gasUsed : Word) : Result Word := do
  let baseFeeInEth ← mulDiv gasUsed gasprice 1
  if token = fl.WETH9 then .ok baseFeeInEth else
    let amountIn ← getAmountIn u fl token baseFeeInEth
    mulDiv amountIn (toWord fl.markup) 100

end FeeLogicUniswap

end Enclave
