import Enclave.Evm.Abi
import Enclave.Evm.Keccak
import Enclave.Fee.Mainnet
import Enclave.Fee.Uniswap

/-!
# The contracts of the fee logic

`EnclaveFeeLogicTestnet`, and the contract that stands at the address of a fee logic, as its callers
see it: it gets calldata and answers bytes.  The callers know it as an `IEnclaveFeeLogic`, whose
`calculateFee` takes the token and the cost.  `EnclaveFeeLogicMainnet` and `EnclaveFeeLogicUniswap`
have that function; the one of `EnclaveFeeLogicTestnet` takes the cost alone, so that it has another
selector.
-/

namespace Enclave

/-! ### `EnclaveFeeLogicTestnet` -/

namespace FeeLogicTestnet

/-- `USDC_DECIMALS`, which no function assigns. -/
def USDC_DECIMALS : Word := 6

/-- `ETH_DECIMALS`, which no function assigns. -/
def ETH_DECIMALS : Word := 18

/-- `calculateFee`. -/
def calculateFee (actualGasCost : Word) : Result Word := do
  let product ← Word.checkedMul actualGasCost 2500
  let exponent ← Word.checkedSub ETH_DECIMALS USDC_DECIMALS
  let unit ← Word.checkedPow 10 exponent.toNat
  Word.checkedDiv product unit

end FeeLogicTestnet

/-! ### `Ownable` -/

namespace FeeLogicMainnet

/-- `transferOwnership`. -/
def transferOwnership (sender newOwner : Address) (fl : FeeLogicMainnet) :
    Result FeeLogicMainnet :=
  Ownable.transferOwnership sender newOwner fl

/-- `renounceOwnership`. -/
def renounceOwnership (sender : Address) (fl : FeeLogicMainnet) : Result FeeLogicMainnet :=
  Ownable.renounceOwnership sender fl

end FeeLogicMainnet

namespace FeeLogicUniswap

/-- `transferOwnership`. -/
def transferOwnership (sender newOwner : Address) (fl : FeeLogicUniswap) :
    Result FeeLogicUniswap :=
  Ownable.transferOwnership sender newOwner fl

/-- `renounceOwnership`. -/
def renounceOwnership (sender : Address) (fl : FeeLogicUniswap) : Result FeeLogicUniswap :=
  Ownable.renounceOwnership sender fl

end FeeLogicUniswap

/-! ### The contract at an address -/

/-- What the contracts of the fee logic read of the chain. -/
structure FeeSources where
  feeds : Address → DataFeed
  uniswap : UniswapV3
  gasprice : Word
  /-- The answers of their other `view` functions. -/
  rest : Bytes → Result Bytes

/-- What stands at an address. -/
inductive FeeContract
  | noCode
  | mainnet (fl : FeeLogicMainnet)
  | testnet
  | uniswap (fl : FeeLogicUniswap)
deriving DecidableEq, Repr

namespace FeeContract

/-- The function of `IEnclaveFeeLogic`. -/
def calculateFeeSelector : Bytes := selector "calculateFee(address,uint256)"

/-- The function of `EnclaveFeeLogicTestnet`. -/
def testnetSelector : Bytes := selector "calculateFee(uint256)"

/-- The dispatcher of a contract that implements `IEnclaveFeeLogic`. -/
def dispatch (calculateFee : Address → Word → Result Word) (rest : Bytes → Result Bytes)
    (data : Bytes) : Result Bytes :=
  if data.take 4 = calculateFeeSelector then do
    let token ← abiDecodeAddress (data.drop 4) 0
    let actualGasCost ← abiDecodeWord (data.drop 4) 32
    let fee ← calculateFee token actualGasCost
    .ok (abiEncode [.word fee])
  else rest data

/-- A static call.  The contract of the testnet has neither other functions nor a fallback. -/
def staticcall (chain : FeeSources) (data : Bytes) : FeeContract → Result Bytes
  | .noCode => .ok []
  | .mainnet fl => dispatch (fl.calculateFee chain.feeds) chain.rest data
  | .testnet =>
    if data.take 4 = testnetSelector then do
      let actualGasCost ← abiDecodeWord (data.drop 4) 0
      let fee ← FeeLogicTestnet.calculateFee actualGasCost
      .ok (abiEncode [.word fee])
    else .error .empty
  | .uniswap fl => dispatch (fl.calculateFee chain.uniswap chain.gasprice) chain.rest data

/-- `IEnclaveFeeLogic(feeLogic).calculateFee(token, actualGasCost)`: the compiler checks that there
is code, passes a revert on, and decodes the answer. -/
def calculateFee (chain : FeeSources) (contracts : Address → FeeContract)
    (feeLogic token : Address) (actualGasCost : Word) : Result Word :=
  match contracts feeLogic with
  | .noCode => .error .empty
  | contract => do
    let reply ← contract.staticcall chain
      (calculateFeeSelector ++ abiEncode [.word (toWord token), .word actualGasCost])
    abiDecodeWord reply 0

/-! ### The owner's functions -/

/-- The functions of the contracts that write. -/
inductive Update
  | updateChainlinkDataFeed (dataFeed : Address)
  | updateMarkupDenominator (markupDenominator : Word)
  | updateFeeTiers (feeTiers : List (BitVec 24))
  | updateMarkup (markup : BitVec 24)
  | updateMarkupDenominator24 (markupDenominator : BitVec 24)
  | transferOwnership (newOwner : Address)
  | renounceOwnership

def Update.mainnet (sender : Address) (fl : FeeLogicMainnet) : Update → Result FeeLogicMainnet
  | .updateChainlinkDataFeed dataFeed => fl.updateChainlinkDataFeed sender dataFeed
  | .updateMarkupDenominator markupDenominator =>
    fl.updateMarkupDenominator sender markupDenominator
  | .transferOwnership newOwner => fl.transferOwnership sender newOwner
  | .renounceOwnership => fl.renounceOwnership sender
  | _ => .error .empty

def Update.uniswap (sender : Address) (fl : FeeLogicUniswap) : Update → Result FeeLogicUniswap
  | .updateFeeTiers feeTiers => fl.updateFeeTiers sender feeTiers
  | .updateMarkup markup => fl.updateMarkup sender markup
  | .updateMarkupDenominator24 markupDenominator =>
    fl.updateMarkupDenominator sender markupDenominator
  | .transferOwnership newOwner => fl.transferOwnership sender newOwner
  | .renounceOwnership => fl.renounceOwnership sender
  | _ => .error .empty

/-- A call of one of them.  A function that the contract does not have reverts; an address without
code accepts everything, and keeps nothing. -/
def update (sender : Address) (f : Update) : FeeContract → Result FeeContract
  | .noCode => .ok .noCode
  | .mainnet fl => do
    let fl ← f.mainnet sender fl
    .ok (.mainnet fl)
  | .testnet => .error .empty
  | .uniswap fl => do
    let fl ← f.uniswap sender fl
    .ok (.uniswap fl)

end FeeContract

end Enclave
