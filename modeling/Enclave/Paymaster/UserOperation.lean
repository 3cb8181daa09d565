import Enclave.Evm.Abi
import Enclave.Evm.Keccak

/-!
# User operations

`UserOperation`, and what every paymaster of the repository computes from one: `pack` encodes the
nine fields that an approval covers, `packValidationData` is the answer to the entry point.
-/

namespace Enclave

/-- `struct UserOperation`. -/
structure UserOperation where
  sender : Address
  nonce : Word
  initCode : Bytes
  callData : Bytes
  callGasLimit : Word
  verificationGasLimit : Word
  preVerificationGas : Word
  maxFeePerGas : Word
  maxPriorityFeePerGas : Word
  paymasterAndData : Bytes
  signature : Bytes
deriving DecidableEq, Repr

/-- An address as an argument of `abi.encode`. -/
def addressValue (a : Address) : AbiValue := .word (toWord a)

/-- A `uint48` as an argument of `abi.encode`. -/
def uint48Value (v : Uint48) : AbiValue := .word (toWord v)

namespace UserOperation

/-- `pack`, which every paymaster has a copy of. -/
def pack (userOp : UserOperation) : Bytes :=
  abiEncode [addressValue userOp.sender, .word userOp.nonce,
    .word (keccak256 userOp.initCode), .word (keccak256 userOp.callData),
    .word userOp.callGasLimit, .word userOp.verificationGasLimit, .word userOp.preVerificationGas,
    .word userOp.maxFeePerGas, .word userOp.maxPriorityFeePerGas]

/-- The two operations agree on the fields that `pack` covers. -/
structure Agree (op op' : UserOperation) : Prop where
  sender : op.sender = op'.sender
  nonce : op.nonce = op'.nonce
  initCode : op.initCode = op'.initCode
  callData : op.callData = op'.callData
  callGasLimit : op.callGasLimit = op'.callGasLimit
  verificationGasLimit : op.verificationGasLimit = op'.verificationGasLimit
  preVerificationGas : op.preVerificationGas = op'.preVerificationGas
  maxFeePerGas : op.maxFeePerGas = op'.maxFeePerGas
  maxPriorityFeePerGas : op.maxPriorityFeePerGas = op'.maxPriorityFeePerGas

end UserOperation

/-- `_packValidationData(sigFailed, validUntil, validAfter)`. -/
def packValidationData (sigFailed : Bool) (validUntil validAfter : Uint48) : Word :=
  (if sigFailed then (1 : Word) else 0) ||| (toWord validUntil <<< 160) |||
    (toWord validAfter <<< 208)

/-- The low 160 bits of the answer, which the entry point takes for an aggregator: zero for a valid
signature, one for a failed one. -/
def authorizer (validationData : Word) : Address := validationData.setWidth 160

/-- `struct ValidationData`. -/
structure ValidationData where
  aggregator : Address
  validAfter : Uint48
  validUntil : Uint48
deriving DecidableEq, Repr

/-- `_parseValidationData`: the entry point takes a zero `validUntil` for no limit. -/
def parseValidationData (validationData : Word) : ValidationData :=
  let validUntil : Uint48 := (validationData >>> 160).setWidth 48
  ⟨authorizer validationData, (validationData >>> 208).setWidth 48,
    if validUntil = 0 then BitVec.allOnes 48 else validUntil⟩

/-- `abi.decode(bs, (uint48, uint48))`. -/
def decodeWindow (bs : Bytes) : Result (Uint48 × Uint48) := do
  let validUntil ← abiDecodeUint48 bs 0
  let validAfter ← abiDecodeUint48 bs 32
  .ok (validUntil, validAfter)

end Enclave
