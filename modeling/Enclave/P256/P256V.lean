import Enclave.Evm.Keccak
import Enclave.P256.Verifier

/-!
# The verifier behind its byte interface

`P256Verifier.call` is what a call to a deployed `P256Verifier` does with its calldata: the
dispatcher routes calldata that starts with the selector of the one public function to that
function's ABI decoder and everything else to `fallback`, which reads the layout of the EIP-7212
precompile.

`P256V.verify` packs its arguments in that layout and calls whatever it was deployed with; the
callee is a parameter, as the deployment either names the precompile or a `P256Verifier`.
-/

namespace Enclave.P256Verifier

/-- The selector of the public function `ecdsa_verify`. -/
def ecdsaVerifySelector : Bytes := selector "ecdsa_verify(bytes32,uint256,uint256,uint256[2])"

/-- The external entry of `ecdsa_verify`, with `args` the calldata after the selector. -/
def ecdsaVerifyExternal (args : Bytes) : Result Bytes := do
  let messageHash ← abiDecodeWord args 0
  let r ← abiDecodeWord args 32
  let s ← abiDecodeWord args 64
  let x ← abiDecodeWord args 96
  let y ← abiDecodeWord args 128
  let accepted ← ecdsaVerify messageHash r s (x, y)
  .ok (abiEncode [.word (if accepted then 1 else 0)])

/-- `fallback`. -/
def fallback (input : Bytes) : Result Bytes :=
  if input.length ≠ 160 then .ok (Word.toBytes 0) else do
    let hash ← calldataSlice input 0 32
    let r ← calldataSlice input 32 64
    let s ← calldataSlice input 64 96
    let x ← calldataSlice input 96 128
    let y ← calldataSlice input 128 160
    let accepted ← ecdsaVerify (Word.ofBytes hash) (Word.ofBytes r) (Word.ofBytes s)
      (Word.ofBytes x, Word.ofBytes y)
    let ret : Word := if accepted then 1 else 0
    .ok ret.toBytes

/-- A call to the contract. -/
def call (input : Bytes) : Result Bytes :=
  if 4 ≤ input.length ∧ input.take 4 = ecdsaVerifySelector then ecdsaVerifyExternal (input.drop 4)
  else fallback input

end Enclave.P256Verifier

namespace Enclave.P256V

/-- `verify`, with `precompile` the behaviour of the contract at the address `precompile`. -/
def verify (precompile : Bytes → Result Bytes) (messageHash r s : Word) (pubKey : Word × Word) :
    Result Bool :=
  let publicKey := pubKey.1.toBytes ++ pubKey.2.toBytes
  let signature := r.toBytes ++ s.toBytes
  let input := messageHash.toBytes ++ (signature ++ publicKey)
  match precompile input with
  | .error _ => .error (.reason "Verification failed")
  | .ok output => abiDecodeBool output 0

/-- A call to a `P256V` at which `precompileAddress` was deployed: the dispatcher knows `verify` and
the getter of `precompile`, and there is no `fallback`. -/
def call (precompileAddress : Address) (precompile : Bytes → Result Bytes) (input : Bytes) :
    Result Bytes :=
  let args := input.drop 4
  if input.length < 4 then .error .empty
  else if input.take 4 = selector "verify(bytes32,uint256,uint256,uint256[2])" then do
    let messageHash ← abiDecodeWord args 0
    let r ← abiDecodeWord args 32
    let s ← abiDecodeWord args 64
    let x ← abiDecodeWord args 96
    let y ← abiDecodeWord args 128
    let accepted ← verify precompile messageHash r s (x, y)
    .ok (abiEncode [.word (if accepted then 1 else 0)])
  else if input.take 4 = selector "precompile()" then
    .ok (abiEncode [.word (toWord precompileAddress)])
  else .error .empty

end Enclave.P256V
