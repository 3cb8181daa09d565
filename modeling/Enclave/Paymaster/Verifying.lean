import Enclave.Paymaster.ECDSA
import Enclave.Paymaster.UserOperation
import Mathlib.Logic.Function.Basic

/-!
# The verifying paymasters

`EnclaveVerifyingPaymaster`, `EnclaveVerifyingTokenPaymaster` and `EnclaveVerifyingNFTPaymaster`
share everything from the layout of `paymasterAndData` to the answer; they differ in the context
they hand to `postOp` and in what the last one asks of the sender before it looks at the signature.
-/

namespace Enclave.Paymaster

/-- What a deployed paymaster does not change: its address, the chain, the entry point, the signer,
and the recovery of signatures. -/
structure Site where
  this : Address
  chainid : Word
  entryPoint : Address
  verifyingSigner : Address
  ecrecover : ECDSA.Ecrecover

/-- `senderNonce`. -/
abbrev Nonces := Address → Word

/-- `getHash`. -/
def getHash (site : Site) (senderNonce : Nonces) (userOp : UserOperation)
    (validUntil validAfter : Uint48) : Word :=
  keccak256 (abiEncode [.bytes userOp.pack, .word site.chainid, addressValue site.this,
    .word (senderNonce userOp.sender), uint48Value validUntil, uint48Value validAfter])

/-- `parsePaymasterAndData`. -/
def parsePaymasterAndData (paymasterAndData : Bytes) : Result (Uint48 × Uint48 × Bytes) := do
  let window ← calldataSlice paymasterAndData 20 84
  let (validUntil, validAfter) ← decodeWindow window
  let signature ← calldataSlice paymasterAndData 84 paymasterAndData.length
  .ok (validUntil, validAfter, signature)

/-- `senderNonce[sender]++`. -/
def bumpNonce (senderNonce : Nonces) (sender : Address) : Result Nonces := do
  let next ← checkedIncr (senderNonce sender)
  .ok (Function.update senderNonce sender next)

/-- The check of an approval, from the signature on: the nonce is used up whether or not the
signature is the signer's. -/
def checkApproval (site : Site) (hash : Word) (sender : Address) (signature context : Bytes)
    (validUntil validAfter : Uint48) (senderNonce : Nonces) :
    Result ((Bytes × Word) × Nonces) := do
  require (signature.length = 64 ∨ signature.length = 65)
    "VerifyingPaymaster: invalid signature length in paymasterAndData"
  let digest := ECDSA.toEthSignedMessageHash hash
  let senderNonce ← bumpNonce senderNonce sender
  let signer ← ECDSA.recover site.ecrecover digest signature
  if site.verifyingSigner ≠ signer then
    .ok ((context, packValidationData true validUntil validAfter), senderNonce)
  else .ok ((context, packValidationData false validUntil validAfter), senderNonce)

/-- `_validatePaymasterUserOp`, with the context that it returns. -/
def validateWith (site : Site) (context : Bytes) (userOp : UserOperation)
    (senderNonce : Nonces) : Result ((Bytes × Word) × Nonces) := do
  let (validUntil, validAfter, signature) ← parsePaymasterAndData userOp.paymasterAndData
  checkApproval site (getHash site senderNonce userOp validUntil validAfter) userOp.sender signature
    context validUntil validAfter senderNonce

/-- The answers of the contracts that `EnclaveVerifyingNFTPaymaster` asks: the balance of the
collection `nft`, and `isEligible` of the gas logic. -/
structure NFTView where
  nft : Address
  balanceOf : Address → Result Word
  isEligible : Address → Address → Word → Result Bool

/-- The three paymasters. -/
inductive Kind
  | verifying
  | token
  | nft

/-- `_validatePaymasterUserOp` of `EnclaveVerifyingPaymaster`. -/
def validateVerifying (site : Site) (userOp : UserOperation) (senderNonce : Nonces) :
    Result ((Bytes × Word) × Nonces) :=
  validateWith site [] userOp senderNonce

/-- `_validatePaymasterUserOp` of `EnclaveVerifyingTokenPaymaster`. -/
def validateToken (site : Site) (userOp : UserOperation) (senderNonce : Nonces) :
    Result ((Bytes × Word) × Nonces) :=
  validateWith site (abiEncode [addressValue userOp.sender]) userOp senderNonce

/-- `_validatePaymasterUserOp` of `EnclaveVerifyingNFTPaymaster`. -/
def validateNFT (site : Site) (view : NFTView) (userOp : UserOperation)
    (requiredPreFund : Word) (senderNonce : Nonces) : Result ((Bytes × Word) × Nonces) := do
  let balance ← view.balanceOf userOp.sender
  require (balance.toNat > 0) "User does not have the NFT"
  let eligible ← view.isEligible userOp.sender view.nft requiredPreFund
  require (eligible = true) "User is not eligible for gas payment"
  validateWith site (abiEncode [addressValue userOp.sender]) userOp senderNonce

/-- A call of `validatePaymasterUserOp`, with what the other contracts answer at that moment. -/
structure Attempt where
  sender : Address
  userOp : UserOperation
  requiredPreFund : Word
  view : NFTView

/-- `BasePaymaster.validatePaymasterUserOp`. -/
def validatePaymasterUserOp (kind : Kind) (site : Site) (a : Attempt) (senderNonce : Nonces) :
    Result ((Bytes × Word) × Nonces) := do
  require (a.sender = site.entryPoint) "Sender not EntryPoint"
  match kind with
  | .verifying => validateVerifying site a.userOp senderNonce
  | .token => validateToken site a.userOp senderNonce
  | .nft => validateNFT site a.view a.userOp a.requiredPreFund senderNonce

end Enclave.Paymaster
