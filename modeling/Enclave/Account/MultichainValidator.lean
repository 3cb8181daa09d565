import Enclave.Account.P256SmartAccount
import Enclave.Crypto.Merkle
import Enclave.P256.P256V
import Enclave.Paymaster.UserOperation

/-!
# `MultichainPasskeyValidator`

The signature module with which one passkey signature authorises operations on several chains: what
is signed is the root of a Merkle tree, and each operation brings the proof of its own leaf.  The
module is called by an account, whose key it reads back from `msg.sender`.
-/

namespace Enclave.MultichainPasskeyValidator

structure Storage where
  enclaveRegistry : Address
deriving DecidableEq, Repr

/-! ### The Merkle tree -/

/-- What a leaf stands for. -/
structure Authorisation where
  validUntil : Uint48
  validAfter : Uint48
  userOpHash : Word
deriving DecidableEq, Repr

/-- `abi.encodePacked(validUntil, validAfter, userOpHash)`. -/
def leafPreimage (a : Authorisation) : Bytes :=
  toBytesBE 6 a.validUntil.toNat ++ toBytesBE 6 a.validAfter.toNat ++ a.userOpHash.toBytes

def leaf (a : Authorisation) : Word := keccak256 (leafPreimage a)

/-- The leaves are packed triples, the nodes two digests. -/
def encoding : Merkle.Encoding Authorisation Word Bytes where
  leaf := leafPreimage
  node x y := x.toBytes ++ y.toBytes

/-- The comparison of `bytes32` values. -/
def less (x y : Word) : Bool := x.toNat < y.toNat

/-- `MerkleProof.processProof`. -/
def processProof (proof : List Word) (leaf : Word) : Word :=
  Merkle.processProof less encoding keccak256 proof leaf

/-- `MerkleProof.verify`. -/
def merkleVerify (proof : List Word) (root leaf : Word) : Bool := processProof proof leaf == root

/-! ### Decoding -/

/-- What the signature of an operation holds for this module. -/
structure ModuleSignature where
  validUntil : Uint48
  validAfter : Uint48
  merkleTreeRoot : Word
  merkleProof : List Word
  multichainSignature : Bytes
deriving DecidableEq, Repr

/-- `abi.decode(userOp.signature, (bytes, address))`; the address is checked and dropped. -/
def decodeModule (signature : Bytes) : Result Bytes := do
  requireHead signature 64
  let moduleSignature ← abiDecodeBytesMemory signature 0
  let _ ← abiDecodeAddress signature 32
  .ok moduleSignature

/-- `abi.decode(moduleSignature, (uint48, uint48, bytes32, bytes32[], bytes))`. -/
def decodeModuleSignature (moduleSignature : Bytes) : Result ModuleSignature := do
  requireHead moduleSignature 160
  let validUntil ← abiDecodeUint48 moduleSignature 0
  let validAfter ← abiDecodeUint48 moduleSignature 32
  let merkleTreeRoot ← abiDecodeWord moduleSignature 64
  let merkleProof ← abiDecodeWordsMemory moduleSignature 96
  let multichainSignature ← abiDecodeBytesMemory moduleSignature 128
  .ok ⟨validUntil, validAfter, merkleTreeRoot, merkleProof, multichainSignature⟩

/-! ### Validation -/

/-- The part of `validateUserOp` up to and including the Merkle check. -/
def authorise (userOp : UserOperation) (userOpHash : Word) : Result ModuleSignature := do
  let moduleSignature ← decodeModule userOp.signature
  let m ← decodeModuleSignature moduleSignature
  require (merkleVerify m.merkleProof m.merkleTreeRoot
    (leaf ⟨m.validUntil, m.validAfter, userOpHash⟩) = true) "Invalid UserOp"
  .ok m

/-- `P256SmartAccount(msg.sender).pubKey(i)`. -/
def pubKey (sender : Address) (i : Word) : Prog Storage Word := do
  let data ← Prog.callOrRevert
    ⟨.staticcall, sender, 0, P256SmartAccount.Method.pubKey.selector ++ abiEncode [.word i]⟩
  Prog.lift (abiDecodeWord data 0)

/-- `EnclaveRegistry(enclaveRegistry).getRegistryAddress(name)`. -/
def getRegistryAddress (name : String) : Prog Storage Address := do
  let s ← Prog.storage
  let data ← Prog.callOrRevert ⟨.staticcall, s.enclaveRegistry, 0,
    P256SmartAccount.Callee.getRegistryAddress.encode [.bytes (ascii name)]⟩
  Prog.lift (abiDecodeAddress data 0)

/-- `_verifySignature`, called by `sender`; the digest is computed as in the account, but the
verifier is asked through `ecdsa_verify`. -/
def verifySignature (sender : Address) (authenticatorData pre post : Bytes) (hash r s : Word) :
    Prog Storage Bool := do
  let digest := P256SmartAccount.sigHash authenticatorData pre post hash
  let verifier ← getRegistryAddress "p256Verifier"
  let x ← pubKey sender 0
  let y ← pubKey sender 1
  let data ← Prog.callOrRevert ⟨.staticcall, verifier, 0, P256Verifier.ecdsaVerifySelector ++
    abiEncode [.word digest, .word r, .word s, .word x, .word y]⟩
  Prog.lift (abiDecodeBool data 0)

/-- `validateUserOp`, called by `sender`. -/
def validateUserOp (sender : Address) (userOp : UserOperation) (userOpHash : Word) :
    Prog Storage Word := do
  let m ← Prog.lift (authorise userOp userOpHash)
  let sig ← Prog.lift (P256SmartAccount.decodePasskey m.multichainSignature)
  let accepted ← verifySignature sender sig.authenticatorData sig.clientDataJSONPre
    sig.clientDataJSONPost m.merkleTreeRoot sig.r sig.s
  .pure (if accepted then 0 else 1)

end Enclave.MultichainPasskeyValidator
