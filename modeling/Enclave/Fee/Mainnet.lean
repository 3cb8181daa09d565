import Enclave.Evm.Ownable

/-!
# `EnclaveFeeLogicMainnet`

The fee logic that prices gas in a token with six decimals at the answer of a price feed.  The feed
is another contract, of which the code reads two values.
-/

namespace Enclave

/-- What the fee logic reads from an `AggregatorV3Interface`. -/
structure DataFeed where
  /-- The second component of `latestRoundData()`, an `int256`. -/
  latestAnswer : Result (BitVec 256)
  /-- `decimals()`. -/
  decimals : Result (BitVec 8)

/-- The storage, with the owner that `Ownable` keeps. -/
structure FeeLogicMainnet where
  owner : Address
  dataFeed : Address
  markupDenominator : Word
deriving DecidableEq, Repr

namespace FeeLogicMainnet

/-- `ETH_DECIMALS`, which no function assigns. -/
def ETH_DECIMALS : Word := 18

/-- What the constructor leaves. -/
def deploy (deployer dataFeed : Address) (markupDenominator : Word) : FeeLogicMainnet where
  owner := deployer
  dataFeed := dataFeed
  markupDenominator := markupDenominator

instance : Ownable FeeLogicMainnet where
  owner := FeeLogicMainnet.owner
  setOwner fl newOwner := { fl with owner := newOwner }

/-- The modifier `onlyOwner`. -/
def onlyOwner (sender : Address) (fl : FeeLogicMainnet) : Result Unit :=
  Ownable.onlyOwner sender fl

/-- `updateChainlinkDataFeed`. -/
def updateChainlinkDataFeed (sender dataFeed : Address) (fl : FeeLogicMainnet) :
    Result FeeLogicMainnet := do
  onlyOwner sender fl
  .ok { fl with dataFeed := dataFeed }

/-- `updateMarkupDenominator`. -/
def updateMarkupDenominator (sender : Address) (markupDenominator : Word) (fl : FeeLogicMainnet) :
    Result FeeLogicMainnet := do
  onlyOwner sender fl
  .ok { fl with markupDenominator := markupDenominator }

/-- `getChainlinkDataFeedLatestAnswer`. -/
def getChainlinkDataFeedLatestAnswer (feeds : Address → DataFeed) (fl : FeeLogicMainnet) :
    Result (BitVec 256) :=
  (feeds fl.dataFeed).latestAnswer

/-- `calculateFee`. -/
def calculateFee (feeds : Address → DataFeed) (fl : FeeLogicMainnet) (_token : Address)
    (actualGasCost : Word) : Result Word := do
  let answer ← getChainlinkDataFeedLatestAnswer feeds fl
  -- `uint256(answer)` keeps the bits
  let product ← Word.checkedMul actualGasCost answer
  let decimals ← (feeds fl.dataFeed).decimals
  let sum ← Word.checkedAdd ETH_DECIMALS (toWord decimals)
  let exponent ← Word.checkedSub sum 6
  let unit ← Word.checkedPow 10 exponent.toNat
  let costInUSDC ← Word.checkedDiv product unit
  let markup ← Word.checkedDiv costInUSDC fl.markupDenominator
  Word.checkedAdd costInUSDC markup

end FeeLogicMainnet

end Enclave
