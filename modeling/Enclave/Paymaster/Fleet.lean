import Enclave.Paymaster.MultiToken

/-!
# Paymasters that share a signer

One signer approves operations for paymasters at many addresses of many chains.  Four contracts of
the repository ask for approvals of the same form: the three verifying paymasters and
`EnclaveMultiTokenPaymaster`.
-/

namespace Enclave.Fleet

open Paymaster

/-- The contracts that take approvals of this form. -/
inductive Contract
  | single (kind : Kind)
  | multiToken

structure Member where
  contract : Contract
  entryPoint : Address

/-- The signer of all paymasters, and what stands at the addresses of the chains. -/
structure Deployed where
  verifyingSigner : Address
  ecrecover : ECDSA.Ecrecover
  member : Word → Address → Option Member

/-- A paymaster knows its own chain and address. -/
def Deployed.site (f : Deployed) (chainid : Word) (this : Address) (m : Member) : Site :=
  ⟨this, chainid, m.entryPoint, f.verifyingSigner, f.ecrecover⟩

/-- A call of `validatePaymasterUserOp`.  What the owner of an `EnclaveMultiTokenPaymaster` has set
by then is in `settings`, of which the nonces are not used. -/
structure Request where
  attempt : Attempt
  settings : MultiTokenPaymaster.State

/-- `validatePaymasterUserOp` of the four contracts. -/
def Contract.validate (site : Site) (r : Request) (senderNonce : Nonces) :
    Contract → Result ((Bytes × Word) × Nonces)
  | .single kind => validatePaymasterUserOp kind site r.attempt senderNonce
  | .multiToken => do
    let (answer, s) ← MultiTokenPaymaster.validatePaymasterUserOp site r.attempt.sender
      r.attempt.userOp { r.settings with senderNonce := senderNonce }
    .ok (answer, s.senderNonce)

/-- The window and the signature in `paymasterAndData`. -/
def Contract.parse (paymasterAndData : Bytes) : Contract → Result (Uint48 × Uint48 × Bytes)
  | .single _ => parsePaymasterAndData paymasterAndData
  | .multiToken => do
    let (_, validUntil, validAfter, signature) ←
      MultiTokenPaymaster.parsePaymasterAndData paymasterAndData
    .ok (validUntil, validAfter, signature)

/-- A call to the paymaster at `this`. -/
structure Call where
  this : Address
  request : Request

end Enclave.Fleet
