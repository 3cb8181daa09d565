import Enclave.Paymaster.MultiToken

/-!
# `EnclaveVerifyingTokenPaymaster`

The paymaster that charges the sender in one token, at the price of its fee logic.  Its validation
is `Paymaster.validateToken`; here is what it keeps, and what it does after the operation.
-/

namespace Enclave.TokenPaymaster

open Paymaster
open MultiTokenPaymaster (PostOpMode)

/-- The events of the owner's functions, with the address before and after the update. -/
inductive Event
  | feeLogicUpdated (oldFeeLogic newFeeLogic : Address) (timestamp : Word)
  | paymentTokenUpdated (oldPaymentToken newPaymentToken : Address) (timestamp : Word)
deriving DecidableEq, Repr

/-- The storage, with the owner that `Ownable` keeps, and the events that were emitted. -/
structure State where
  owner : Address
  paymentToken : Address
  feeLogic : Address
  senderNonce : Nonces
  events : List Event

/-- What the constructor leaves. -/
def deploy (deployer paymentToken feeLogicContract : Address) : State where
  owner := deployer
  paymentToken := paymentToken
  feeLogic := feeLogicContract
  senderNonce _ := 0
  events := []

instance : Ownable State where
  owner := State.owner
  setOwner s newOwner := { s with owner := newOwner }

/-- The modifier `onlyOwner`. -/
def onlyOwner (sender : Address) (s : State) : Result Unit := Ownable.onlyOwner sender s

/-- `updateFeeLogic`; the event is emitted after the assignment, and reads the new address twice. -/
def updateFeeLogic (sender feeLogicContract : Address) (timestamp : Word) (s : State) :
    Result State := do
  onlyOwner sender s
  let s := { s with feeLogic := feeLogicContract }
  .ok { s with events := .feeLogicUpdated s.feeLogic feeLogicContract timestamp :: s.events }

/-- `updatePaymentToken`. -/
def updatePaymentToken (sender paymentToken : Address) (timestamp : Word) (s : State) :
    Result State := do
  onlyOwner sender s
  let s := { s with paymentToken := paymentToken }
  .ok { s with events := .paymentTokenUpdated s.paymentToken paymentToken timestamp :: s.events }

section Tokens

variable {τ : Type} (tokens : TokenContracts τ)

/-- `_postOp`, with `calculateFee` the answers of the fee logic at an address. -/
def postOp (site : Site) (calculateFee : Address → Address → Word → Result Word)
    (_mode : PostOpMode) (context : Bytes) (actualGasCost : Word) (s : State) (ledger : τ) :
    Result τ := do
  let sender ← abiDecodeAddress context 0
  let charge ← calculateFee s.feeLogic s.paymentToken actualGasCost
  let (paid, ledger) ← tokens.transferFrom s.paymentToken site.this sender site.this charge ledger
  require (paid = true) "EnclaveVerifyingTokenPaymaster: transfer failed"
  .ok ledger

/-- `withdrawTokens`. -/
def withdrawTokens (site : Site) (sender recipient : Address) (amount : Word) (s : State)
    (ledger : τ) : Result τ :=
  MultiTokenPaymaster.withdrawTokens tokens site sender s.paymentToken recipient amount ledger

end Tokens

end Enclave.TokenPaymaster
