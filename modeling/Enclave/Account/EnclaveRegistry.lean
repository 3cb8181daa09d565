import Enclave.Evm.Calldata
import Enclave.Evm.Keccak
import Mathlib.Logic.Function.Basic

/-!
# `EnclaveRegistry`

The directory in which an account looks up its entry point and its verifier.  Names are compared as
byte strings.
-/

namespace Enclave

structure EnclaveRegistry where
  owner : Address
  registry : Bytes → Address

namespace EnclaveRegistry

/-- `updateRegistryAddress`, with the guard `_onlyOwner`. -/
def updateRegistryAddress (sender : Address) (contractName : Bytes) (contractAddress : Address)
    (s : EnclaveRegistry) : Result EnclaveRegistry := do
  require (sender = s.owner) "Caller not owner"
  require (contractAddress ≠ 0) "Registry: Zero address"
  .ok { s with registry := Function.update s.registry contractName contractAddress }

/-- `getRegistryAddress`. -/
def getRegistryAddress (contractName : Bytes) (s : EnclaveRegistry) : Result Address := do
  require (s.registry contractName ≠ 0) "Registry: Entry doesn't exist"
  .ok (s.registry contractName)

/-- A static call to the registry. -/
def staticcall (s : EnclaveRegistry) (input : Bytes) : Result Bytes :=
  let args := input.drop 4
  if input.length < 4 then .error .empty
  else if input.take 4 = selector "getRegistryAddress(string)" then do
    requireHead args 32
    let contractName ← abiDecodeBytesMemory args 0
    let a ← getRegistryAddress contractName s
    .ok (abiEncode [.word (toWord a)])
  else if input.take 4 = selector "owner()" then .ok (abiEncode [.word (toWord s.owner)])
  -- `updateRegistryAddress` writes, which a static call does not allow
  else .error .empty

/-! ### Runs -/

/-- What the constructor leaves. -/
def deploy (owner : Address) : EnclaveRegistry := ⟨owner, fun _ => 0⟩

/-- A call of `updateRegistryAddress`. -/
structure Update where
  sender : Address
  contractName : Bytes
  contractAddress : Address

/-- A call that reverts changes nothing. -/
def apply (s : EnclaveRegistry) (u : Update) : EnclaveRegistry :=
  match updateRegistryAddress u.sender u.contractName u.contractAddress s with
  | .ok s' => s'
  | .error _ => s

/-- The registry after calls by anyone. -/
def stateAfter (owner : Address) (updates : List Update) : EnclaveRegistry :=
  updates.foldl apply (deploy owner)

end EnclaveRegistry

end Enclave
