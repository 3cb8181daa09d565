import Enclave.Evm.Ownable
import Enclave.Paymaster.Verifying

/-!
# `NFTGasLogic` and `EnclaveVerifyingNFTPaymaster`

The paymaster that sponsors the holders of a collection, and the contract that counts what it has
sponsored.  The validation asks whether the sender is eligible (`Paymaster.validateNFT`), and
`postOp` records the operation.  `NFTGasLogic` does not look at who calls it.
-/

namespace Enclave

/-- The answers of `balanceOf` of the collections: the first address is the collection's. -/
abbrev Collections := Address → Address → Result Word

/-! ### `NFTGasLogic` -/

structure SponsoredData where
  count : Word
  totalAmount : Word
deriving DecidableEq, Repr

structure NFTGasLogic where
  sponsoredTransactionsByNFT : Address → Address → SponsoredData
  transactionLimitByNFT : Address → Word
  gasValueLimitByNFT : Address → Word

namespace NFTGasLogic

/-- What the constructor leaves. -/
def deploy : NFTGasLogic where
  sponsoredTransactionsByNFT _ _ := ⟨0, 0⟩
  transactionLimitByNFT _ := 0
  gasValueLimitByNFT _ := 0

/-- `isEligible`; the sum is computed only if the first two conditions hold. -/
def isEligible (balanceOf : Collections) (user nft : Address) (gasAmount : Word)
    (s : NFTGasLogic) : Result Bool := do
  let balance ← balanceOf nft user
  let data := s.sponsoredTransactionsByNFT nft user
  if balance.toNat > 0 ∧ data.count.toNat < (s.transactionLimitByNFT nft).toNat then
    let amount ← Word.checkedAdd gasAmount data.totalAmount
    .ok (decide (amount.toNat ≤ (s.gasValueLimitByNFT nft).toNat))
  else .ok false

/-- The record of a user. -/
def setRecord (nft user : Address) (data : SponsoredData) (s : NFTGasLogic) : NFTGasLogic :=
  let records := Function.update (s.sponsoredTransactionsByNFT nft) user data
  { s with sponsoredTransactionsByNFT := Function.update s.sponsoredTransactionsByNFT nft records }

/-- `applyLogic`. -/
def applyLogic (balanceOf : Collections) (user nft : Address) (gasAmount : Word)
    (s : NFTGasLogic) : Result (Bool × NFTGasLogic) := do
  let eligible ← isEligible balanceOf user nft gasAmount s
  require (eligible = true) "Not eligible for sponsorship"
  let data := s.sponsoredTransactionsByNFT nft user
  let count ← checkedIncr data.count
  let totalAmount ← Word.checkedAdd data.totalAmount gasAmount
  .ok (true, s.setRecord nft user ⟨count, totalAmount⟩)

/-- `addOrUpdateNFTLimits`. -/
def addOrUpdateNFTLimits (nft : Address) (transactionLimit gasValueLimit : Word)
    (s : NFTGasLogic) : NFTGasLogic :=
  { s with
    transactionLimitByNFT := Function.update s.transactionLimitByNFT nft transactionLimit
    gasValueLimitByNFT := Function.update s.gasValueLimitByNFT nft gasValueLimit }

/-- The functions that write. -/
inductive Call
  | applyLogic (user nft : Address) (gasAmount : Word)
  | addOrUpdateNFTLimits (nft : Address) (transactionLimit gasValueLimit : Word)

def Call.run (balanceOf : Collections) (s : NFTGasLogic) : Call → Result NFTGasLogic
  | .applyLogic user nft gasAmount => do
    let (_, s) ← s.applyLogic balanceOf user nft gasAmount
    .ok s
  | .addOrUpdateNFTLimits nft transactionLimit gasValueLimit =>
    .ok (s.addOrUpdateNFTLimits nft transactionLimit gasValueLimit)

/-- A call that reverts changes nothing. -/
def apply (balanceOf : Collections) (s : NFTGasLogic) (call : Call) : NFTGasLogic :=
  match call.run balanceOf s with
  | .ok s' => s'
  | .error _ => s

/-- A call, and the balances of the collections at that time. -/
structure Event where
  balanceOf : Collections
  call : Call

/-- The state after a run of calls by anyone. -/
def stateAfter (s : NFTGasLogic) (events : List Event) : NFTGasLogic :=
  events.foldl (fun s e => s.apply e.balanceOf e.call) s

end NFTGasLogic

/-! ### `EnclaveVerifyingNFTPaymaster` -/

namespace NFTPaymaster

open Paymaster

/-- The storage, with the owner that `Ownable` keeps. -/
structure State where
  owner : Address
  nft : Address
  senderNonce : Nonces

/-- What the validation asks of the other contracts. -/
def view (balanceOf : Collections) (gasLogic : NFTGasLogic) (nft : Address) : NFTView where
  nft := nft
  balanceOf := balanceOf nft
  isEligible user nft gasAmount := gasLogic.isEligible balanceOf user nft gasAmount

/-- `validatePaymasterUserOp`. -/
def validatePaymasterUserOp (site : Site) (balanceOf : Collections) (gasLogic : NFTGasLogic)
    (sender : Address) (userOp : UserOperation) (requiredPreFund : Word) (s : State) :
    Result ((Bytes × Word) × State) := do
  let (answer, senderNonce) ← Paymaster.validatePaymasterUserOp .nft site
    ⟨sender, userOp, requiredPreFund, view balanceOf gasLogic s.nft⟩ s.senderNonce
  .ok (answer, { s with senderNonce := senderNonce })

/-- `_postOp`, which does not look at the mode. -/
def postOp (balanceOf : Collections) (nft : Address) (context : Bytes) (actualGasCost : Word)
    (gasLogic : NFTGasLogic) : Result NFTGasLogic := do
  let sender ← abiDecodeAddress context 0
  let (_, gasLogic) ← gasLogic.applyLogic balanceOf sender nft actualGasCost
  .ok gasLogic

instance : Ownable State where
  owner := State.owner
  setOwner s newOwner := { s with owner := newOwner }

/-- The modifier `onlyOwner`. -/
def onlyOwner (sender : Address) (s : State) : Result Unit := Ownable.onlyOwner sender s

/-- `updateNFT`. -/
def updateNFT (sender nft : Address) (s : State) : Result State := do
  onlyOwner sender s
  .ok { s with nft := nft }

/-- `transferOwnership`. -/
def transferOwnership (sender newOwner : Address) (s : State) : Result State :=
  Ownable.transferOwnership sender newOwner s

/-- `renounceOwnership`. -/
def renounceOwnership (sender : Address) (s : State) : Result State :=
  Ownable.renounceOwnership sender s

/-! ### Runs of the two contracts -/

/-- The two contracts, and the collections. -/
structure World where
  paymaster : State
  gasLogic : NFTGasLogic
  balanceOf : Collections

/-- The calls that can change the world, by anyone.  The collections are changed by calls of their
own. -/
inductive Call
  | gasLogic (sender : Address) (c : NFTGasLogic.Call)
  | validatePaymasterUserOp (sender : Address) (userOp : UserOperation) (requiredPreFund : Word)
  | postOp (sender : Address) (context : Bytes) (actualGasCost : Word)
  | updateNFT (sender nft : Address)
  | transferOwnership (sender newOwner : Address)
  | renounceOwnership (sender : Address)
  | collections (balanceOf : Collections)

def Call.run (site : Site) (w : World) : Call → Result World
  | .gasLogic _ c => do
    let g ← c.run w.balanceOf w.gasLogic
    .ok { w with gasLogic := g }
  | .validatePaymasterUserOp sender userOp requiredPreFund => do
    let (_, s) ← NFTPaymaster.validatePaymasterUserOp site w.balanceOf w.gasLogic sender userOp
      requiredPreFund w.paymaster
    .ok { w with paymaster := s }
  | .postOp sender context actualGasCost => do
    require (sender = site.entryPoint) "Sender not EntryPoint"
    let g ← NFTPaymaster.postOp w.balanceOf w.paymaster.nft context actualGasCost w.gasLogic
    .ok { w with gasLogic := g }
  | .updateNFT sender nft => do
    let s ← NFTPaymaster.updateNFT sender nft w.paymaster
    .ok { w with paymaster := s }
  | .transferOwnership sender newOwner => do
    let s ← NFTPaymaster.transferOwnership sender newOwner w.paymaster
    .ok { w with paymaster := s }
  | .renounceOwnership sender => do
    let s ← NFTPaymaster.renounceOwnership sender w.paymaster
    .ok { w with paymaster := s }
  | .collections balanceOf => .ok { w with balanceOf := balanceOf }

/-- A call that reverts changes nothing. -/
def apply (site : Site) (w : World) (call : Call) : World :=
  match call.run site w with
  | .ok w' => w'
  | .error _ => w

/-- The world at the end of a run. -/
def worldAfter (site : Site) (w : World) (calls : List Call) : World :=
  calls.foldl (apply site) w

end NFTPaymaster

end Enclave
