import Enclave.Evm.Calldata
import Enclave.Evm.Journal
import Enclave.Evm.Ownable
import Enclave.Paymaster.ERC20
import Enclave.Paymaster.Verifying

/-!
# `EnclaveMultiTokenPaymaster`

The paymaster that charges the sender in a token of their choice, among those that the owner
allows.  The token stands in `paymasterAndData`, in front of the window.
-/

namespace Enclave.MultiTokenPaymaster

open Paymaster

/-- The storage, with the owner that `Ownable` keeps. -/
structure State where
  owner : Address
  feeLogic : Address
  allowedPaymentTokens : Address → Bool
  senderNonce : Nonces

/-- What the constructor leaves. -/
def deploy (deployer feeLogicContract : Address) : State where
  owner := deployer
  feeLogic := feeLogicContract
  allowedPaymentTokens _ := false
  senderNonce _ := 0

/-! ### The owner's functions -/

instance : Ownable State where
  owner := State.owner
  setOwner s newOwner := { s with owner := newOwner }

/-- The modifier `onlyOwner`. -/
def onlyOwner (sender : Address) (s : State) : Result Unit := Ownable.onlyOwner sender s

/-- `transferOwnership`. -/
def transferOwnership (sender newOwner : Address) (s : State) : Result State :=
  Ownable.transferOwnership sender newOwner s

/-- `renounceOwnership`. -/
def renounceOwnership (sender : Address) (s : State) : Result State :=
  Ownable.renounceOwnership sender s

/-- `updateFeeLogic`. -/
def updateFeeLogic (sender feeLogicContract : Address) (s : State) : Result State := do
  onlyOwner sender s
  .ok { s with feeLogic := feeLogicContract }

/-- What `addPaymentToken` and `removePaymentToken` share. -/
def setPaymentToken (allowed : Bool) (sender paymentToken : Address) (s : State) :
    Result State := do
  onlyOwner sender s
  .ok { s with allowedPaymentTokens :=
    Function.update s.allowedPaymentTokens paymentToken allowed }

/-- `addPaymentToken`. -/
def addPaymentToken : Address → Address → State → Result State := setPaymentToken true

/-- `removePaymentToken`. -/
def removePaymentToken : Address → Address → State → Result State := setPaymentToken false

/-! ### Validation -/

/-- `parsePaymasterAndData`. -/
def parsePaymasterAndData (paymasterAndData : Bytes) :
    Result (Address × Uint48 × Uint48 × Bytes) := do
  let token ← calldataSlice paymasterAndData 20 40
  let window ← calldataSlice paymasterAndData 40 104
  let (validUntil, validAfter) ← decodeWindow window
  let signature ← calldataSlice paymasterAndData 104 paymasterAndData.length
  .ok (BitVec.ofNat 160 (ofBytesBE token), validUntil, validAfter, signature)

/-- `_validatePaymasterUserOp`.  The context holds the sender alone. -/
def validateMultiToken (site : Site) (userOp : UserOperation) (s : State) :
    Result ((Bytes × Word) × State) := do
  let (token, validUntil, validAfter, signature) ← parsePaymasterAndData userOp.paymasterAndData
  require (s.allowedPaymentTokens token = true) "EnclaveVerifyingTokenPaymaster: token not allowed"
  let (answer, senderNonce) ← checkApproval site
    (getHash site s.senderNonce userOp validUntil validAfter) userOp.sender signature
    (abiEncode [addressValue userOp.sender]) validUntil validAfter s.senderNonce
  .ok (answer, { s with senderNonce := senderNonce })

/-- `BasePaymaster.validatePaymasterUserOp`. -/
def validatePaymasterUserOp (site : Site) (sender : Address) (userOp : UserOperation) (s : State) :
    Result ((Bytes × Word) × State) := do
  require (sender = site.entryPoint) "Sender not EntryPoint"
  validateMultiToken site userOp s

/-! ### Tokens -/

/-- `enum PostOpMode`. -/
inductive PostOpMode
  | opSucceeded
  | opReverted
  | postOpReverted

section Tokens

variable {τ : Type} (tokens : TokenContracts τ)

/-- `_postOp`, with `calculateFee` the answers of the fee logic at an address.  The context is read
as a sender and a token. -/
def postOp (site : Site) (calculateFee : Address → Address → Word → Result Word)
    (_mode : PostOpMode) (context : Bytes) (actualGasCost : Word) (s : State) (ledger : τ) :
    Result τ := do
  requireHead context 64
  let sender ← abiDecodeAddress context 0
  let token ← abiDecodeAddress context 32
  let charge ← calculateFee s.feeLogic token actualGasCost
  let (paid, ledger) ← tokens.transferFrom token site.this sender site.this charge ledger
  require (paid = true) "EnclaveVerifyingTokenPaymaster: transfer failed"
  .ok ledger

/-- `withdrawTokens`. -/
def withdrawTokens (site : Site) (sender token recipient : Address) (amount : Word)
    (ledger : τ) : Result τ := do
  require (sender = site.verifyingSigner) "Only verifying signer can withdraw"
  let (paid, ledger) ← tokens.transfer token site.this recipient amount ledger
  require (paid = true) "EnclaveVerifyingTokenPaymaster: withdraw failed"
  .ok ledger

end Tokens

/-! ### Runs -/

/-- The calls that can change the storage, with their sender. -/
inductive Call
  | transferOwnership (sender newOwner : Address)
  | renounceOwnership (sender : Address)
  | updateFeeLogic (sender feeLogicContract : Address)
  | addPaymentToken (sender paymentToken : Address)
  | removePaymentToken (sender paymentToken : Address)
  | validatePaymasterUserOp (sender : Address) (userOp : UserOperation)

def Call.run (site : Site) (s : State) : Call → Result State
  | .transferOwnership sender newOwner => MultiTokenPaymaster.transferOwnership sender newOwner s
  | .renounceOwnership sender => MultiTokenPaymaster.renounceOwnership sender s
  | .updateFeeLogic sender feeLogic => MultiTokenPaymaster.updateFeeLogic sender feeLogic s
  | .addPaymentToken sender token => MultiTokenPaymaster.addPaymentToken sender token s
  | .removePaymentToken sender token => MultiTokenPaymaster.removePaymentToken sender token s
  | .validatePaymasterUserOp sender userOp => do
    let (_, s) ← MultiTokenPaymaster.validatePaymasterUserOp site sender userOp s
    .ok s

/-- A call that reverts changes nothing. -/
def apply (site : Site) (s : State) (call : Call) : State :=
  match call.run site s with
  | .ok s' => s'
  | .error _ => s

/-- The state at the end of a run. -/
def stateAfter (site : Site) (s : State) (events : List (JournalEvent Call)) : State :=
  (Journal.run (apply site) (Journal.start s) events).state

end Enclave.MultiTokenPaymaster
