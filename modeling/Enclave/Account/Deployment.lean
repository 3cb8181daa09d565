import Enclave.Account.EnclaveRegistry
import Enclave.Account.MultichainValidator

/-!
# A deployment

The contracts that take part in a signature check, each at its own address: the registry, the
verifier that it names, the account and the signature module.  `Deployment.env` is how they answer
each other's static calls; everything else is answered by `outside`, of which nothing is assumed.
-/

namespace Enclave

structure Deployment where
  registryAddress : Address
  verifierAddress : Address
  accountAddress : Address
  moduleAddress : Address
  /-- The implementation behind the account's proxy. -/
  logicAddress : Address
  registry : EnclaveRegistry
  account : P256SmartAccount.Storage
  outside : Call → Reply
  registered : registry.registry (ascii "p256Verifier") = verifierAddress
  verifier_ne_zero : verifierAddress ≠ 0
  account_registry : account.enclaveRegistry = registryAddress
  verifier_ne_registry : verifierAddress ≠ registryAddress
  account_ne_registry : accountAddress ≠ registryAddress
  account_ne_verifier : accountAddress ≠ verifierAddress

namespace Deployment

/-- The storage of the module. -/
def validator (d : Deployment) : MultichainPasskeyValidator.Storage := ⟨d.registryAddress⟩

/-- What the account returns to a static call of the module. -/
def accountReply (d : Deployment) (data : Bytes) : Reply :=
  (P256SmartAccount.body d.accountAddress d.logicAddress ⟨d.moduleAddress, 0, data, true⟩).value
    d.outside d.account

/-- How the deployed contracts answer, where the verifier has the code `verifier`. -/
def env (d : Deployment) (verifier : Bytes → Result Bytes) (c : Call) : Reply :=
  if c.kind ≠ .staticcall then d.outside c
  else if c.target = d.registryAddress then d.registry.staticcall c.data
  else if c.target = d.verifierAddress then verifier c.data
  else if c.target = d.accountAddress then d.accountReply c.data
  else d.outside c

end Deployment

/-- The verifier contracts of the repository. -/
inductive Verifier
  /-- A `P256V` that was deployed with the address of a `P256Verifier`. -/
  | p256V (precompileAddress : Address)
  | p256Verifier
deriving DecidableEq, Repr

/-- What a call to the verifier does with its calldata. -/
def Verifier.code : Verifier → Bytes → Result Bytes
  | p256V precompileAddress => P256V.call precompileAddress P256Verifier.call
  | p256Verifier => P256Verifier.call

end Enclave
