import Enclave.Paymaster.Solver
import Enclave.Paymaster.Token

/-!
# Runs of `EnclaveVerifyingTokenPaymaster`

The paymaster among OpenZeppelin tokens that anyone uses.  A run is any sequence of calls of its
functions and of the functions of the tokens, inside frames that may be rolled back.  The functions
of `BasePaymaster` for the deposit and the stake change nothing here: both are kept by the entry
point.
-/

namespace Enclave.TokenPaymaster

open Paymaster
open MultiTokenPaymaster (PostOpMode)
open SolverPaymaster (Outsider TokenFunction)

/-- `transferOwnership`. -/
def transferOwnership (sender newOwner : Address) (s : State) : Result State :=
  Ownable.transferOwnership sender newOwner s

/-- `renounceOwnership`. -/
def renounceOwnership (sender : Address) (s : State) : Result State :=
  Ownable.renounceOwnership sender s

/-- `BasePaymaster.validatePaymasterUserOp`. -/
def validatePaymasterUserOp (site : Site) (sender : Address) (userOp : UserOperation) (s : State) :
    Result State := do
  require (sender = site.entryPoint) "Sender not EntryPoint"
  let (_, senderNonce) ← validateToken site userOp s.senderNonce
  .ok { s with senderNonce := senderNonce }

/-- The paymaster among the tokens. -/
structure World where
  state : State
  tokens : Address → ERC20

/-- The calls that can change something.  The fee logic is asked by a `view`, and may answer
anything. -/
inductive Call (site : Site)
  | transferOwnership (sender newOwner : Address)
  | renounceOwnership (sender : Address)
  | updateFeeLogic (sender feeLogicContract : Address) (timestamp : Word)
  | updatePaymentToken (sender paymentToken : Address) (timestamp : Word)
  | validatePaymasterUserOp (sender : Address) (userOp : UserOperation)
  | postOp (sender : Address) (calculateFee : Address → Address → Word → Result Word)
      (mode : PostOpMode) (context : Bytes) (actualGasCost : Word)
  | withdrawTokens (sender recipient : Address) (amount : Word)
  | token (caller : Outsider site) (tokenAddress : Address) (f : TokenFunction)

section Runs

variable (site : Site)

/-- A function that only writes the paymaster's own storage. -/
def World.update (w : World) (f : State → Result State) : Result World := do
  let s ← f w.state
  .ok { w with state := s }

/-- A function that only moves tokens. -/
def World.move (w : World) (f : (Address → ERC20) → Result (Address → ERC20)) : Result World := do
  let tokens ← f w.tokens
  .ok { w with tokens := tokens }

def Call.run (w : World) : Call site → Result World
  | .transferOwnership sender newOwner =>
    w.update (TokenPaymaster.transferOwnership sender newOwner)
  | .renounceOwnership sender => w.update (TokenPaymaster.renounceOwnership sender)
  | .updateFeeLogic sender feeLogic timestamp =>
    w.update (TokenPaymaster.updateFeeLogic sender feeLogic timestamp)
  | .updatePaymentToken sender paymentToken timestamp =>
    w.update (TokenPaymaster.updatePaymentToken sender paymentToken timestamp)
  | .validatePaymasterUserOp sender userOp =>
    w.update (TokenPaymaster.validatePaymasterUserOp site sender userOp)
  | .postOp sender calculateFee mode context actualGasCost => do
    -- `BasePaymaster.postOp`
    require (sender = site.entryPoint) "Sender not EntryPoint"
    w.move (TokenPaymaster.postOp openZeppelin site calculateFee mode context actualGasCost w.state)
  | .withdrawTokens sender recipient amount =>
    w.move (TokenPaymaster.withdrawTokens openZeppelin site sender recipient amount w.state)
  | .token caller tokenAddress f => do
    let t ← f.run caller (w.tokens tokenAddress)
    .ok { w with tokens := Function.update w.tokens tokenAddress t }

end Runs

end Enclave.TokenPaymaster
