import Enclave.Evm.Calldata
import Enclave.Evm.Keccak
import Enclave.Evm.Memory
import Enclave.Evm.Program

/-!
# `P256VerifierYul.sol`

The wrapper around a verifier contract, down to the memory and the storage slots that its assembly
block addresses.  The block takes the values of `input` and `result`, which are both zero, for the
addresses of its buffers, and the value of the slot whose number is `verifierContract` for the
callee.  It writes over the free memory pointer, which what follows allocates with.

A call pays for the memory it touches: accesses at an offset that the code computes run out of gas
beyond `Budget.bytes`.
-/

namespace Enclave.P256VerifierYul

/-- The storage, by slots; the contract has no variable there, and `verifierContract` is an
immutable, a part of its code. -/
abbrev Storage := Word → Word

/-- What the constructor leaves. -/
def deploy : Storage := fun _ => 0

/-- The memory that a call can pay for: the 192 bytes that every call uses, and no more than gas can
pay for in any block. -/
structure Budget where
  bytes : ℕ
  enough : 192 ≤ bytes
  lt : bytes < 2 ^ 64

/-- `mload(0x40)`. -/
def freePointer (m : Memory) : Word := m.mload 0x40

/-- `mstore(i, w)` at an offset that may be too far out. -/
def mstore (budget : Budget) (m : Memory) (i w : Word) : Result Memory :=
  if i.toNat + 32 ≤ budget.bytes then .ok (m.mstore i.toNat w) else .error .empty

/-- `return(i, k)`. -/
def ret (budget : Budget) (m : Memory) (i k : Word) : Result Bytes :=
  if i.toNat + k.toNat ≤ budget.bytes then .ok (m.read i.toNat k.toNat) else .error .empty

/-- The memory once an array of two words has been allocated in it, which is then at `0x80`. -/
def withPubKey (x y : Word) : Memory :=
  ((Memory.zero.mstore 0x40 0xc0).mstore 0x80 x).mstore 0xa0 y

/-- `ecdsa_verify`, with `pubKey` the address of the array; also the memory that it leaves. -/
def ecdsaVerify (verifierContract : Address) (hash r s : Word) (pubKey : ℕ) (m : Memory) :
    Prog Storage (Bool × Memory) := do
  let input : Word := 0
  let result : Word := 0
  let x := m.mload pubKey
  let y := m.mload (pubKey + 32)
  let yulAddress := toWord verifierContract
  let m := m.mstore input.toNat hash
  let m := m.mstore (input + 32).toNat r
  let m := m.mstore (input + 64).toNat s
  let m := m.mstore (input + 96).toNat x
  let m := m.mstore (input + 128).toNat y
  let slots ← Prog.storage
  let reply ← Prog.tryCall
    ⟨.staticcall, (slots yulAddress).setWidth 160, 0, m.read input.toNat 160⟩
  match reply with
  | .error _ => .revert (.reason "P256 verify call failed")
  | .ok data =>
    -- the answer goes to memory; `result` is a variable of its own and stays zero
    let m := m.write result.toNat (data.take 32)
    .pure (result.byte 31 == 0x01, m)

/-- The end of an external call of `ecdsa_verify`: the verdict is encoded at the free memory
pointer, which is looked up again for what is returned. -/
def returnBool (budget : Budget) (m : Memory) (verdict : Bool) : Result Bytes := do
  let p := freePointer m
  let m ← mstore budget m p (if verdict then 1 else 0)
  let stop := p + 32
  let p := freePointer m
  ret budget m p (stop - p)

/-- `return abi.encodePacked(w)` at the end of `fallback`: the word goes behind a length word at the
free memory pointer, which is looked up again for the length. -/
def returnPacked (budget : Budget) (m : Memory) (w : Word) : Result Bytes := do
  let p := freePointer m
  let m ← mstore budget m (p + 32) w
  let stop := p + 64
  let p := freePointer m
  let m ← mstore budget m p (stop - p - 32)
  let m := m.mstore 0x40 stop
  ret budget m (p + 32) (m.mload p.toNat)

/-- `fallback`. -/
def fallback (budget : Budget) (verifierContract : Address) (input : Bytes) :
    Prog Storage Bytes :=
  if input.length ≠ 160 then .pure (Word.toBytes 0) else do
    let hash ← Prog.lift (calldataSlice input 0 32)
    let r ← Prog.lift (calldataSlice input 32 64)
    let s ← Prog.lift (calldataSlice input 64 96)
    let x ← Prog.lift (calldataSlice input 96 128)
    let y ← Prog.lift (calldataSlice input 128 160)
    let (accepted, m) ← ecdsaVerify verifierContract (Word.ofBytes hash) (Word.ofBytes r)
      (Word.ofBytes s) 0x80 (withPubKey (Word.ofBytes x) (Word.ofBytes y))
    Prog.lift (returnPacked budget m (if accepted then 1 else 0))

/-- The external entry of `ecdsa_verify`, with `args` the calldata after the selector. -/
def ecdsaVerifyExternal (budget : Budget) (verifierContract : Address) (args : Bytes) :
    Prog Storage Bytes := do
  let hash ← Prog.lift (abiDecodeWord args 0)
  let r ← Prog.lift (abiDecodeWord args 32)
  let s ← Prog.lift (abiDecodeWord args 64)
  let x ← Prog.lift (abiDecodeWord args 96)
  let y ← Prog.lift (abiDecodeWord args 128)
  let (accepted, m) ← ecdsaVerify verifierContract hash r s 0x80 (withPubKey x y)
  Prog.lift (returnBool budget m accepted)

/-- A call to the wrapper; no function takes value. -/
def body (budget : Budget) (verifierContract : Address) (msg : Msg) : Prog Storage Bytes :=
  if msg.value ≠ 0 then .revert .empty
  else if 4 ≤ msg.data.length ∧
      msg.data.take 4 = selector "ecdsa_verify(bytes32,uint256,uint256,uint256[2])" then
    ecdsaVerifyExternal budget verifierContract (msg.data.drop 4)
  else fallback budget verifierContract msg.data

end Enclave.P256VerifierYul
