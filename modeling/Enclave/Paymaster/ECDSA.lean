import Enclave.Evm.Abi
import Enclave.Evm.Keccak

/-!
# OpenZeppelin `ECDSA`

Version 4.9.6: `recover` accepts signatures of 65 bytes only, with `s` in the lower half of the
order.  The precompile `ecrecover` is a parameter; it answers zero where there is nothing to
recover.
-/

namespace Enclave.ECDSA

/-- The precompile: the signer of a hash, from `v`, `r` and `s`. -/
abbrev Ecrecover := Word → UInt8 → Word → Word → Address

/-- The largest `s` that is accepted. -/
def maxS : ℕ := 0x7FFFFFFFFFFFFFFFFFFFFFFFFFFFFFFF5D576E7357A4501DDFE92F46681B20A0

/-- `tryRecover(hash, v, r, s)` with `_throwError`. -/
def recoverVRS (ecrecover : Ecrecover) (hash : Word) (v : UInt8) (r s : Word) :
    Result Address :=
  if s.toNat > maxS then .error (.reason "ECDSA: invalid signature 's' value") else
    let signer := ecrecover hash v r s
    if signer = 0 then .error (.reason "ECDSA: invalid signature") else .ok signer

/-- `recover(hash, signature)`. -/
def recover (ecrecover : Ecrecover) (hash : Word) (signature : Bytes) : Result Address :=
  if signature.length = 65 then
    recoverVRS ecrecover hash (signature.getD 64 0) (Word.ofBytes (signature.take 32))
      (Word.ofBytes ((signature.drop 32).take 32))
  else .error (.reason "ECDSA: invalid signature length")

/-- The bytes that are hashed for an `eth_sign` message of 32 bytes. -/
def ethSignedMessage (hash : Word) : Bytes :=
  0x19 :: ascii "Ethereum Signed Message:\n32" ++ hash.toBytes

/-- `toEthSignedMessageHash`. -/
def toEthSignedMessageHash (hash : Word) : Word := keccak256 (ethSignedMessage hash)

theorem ethSignedMessage_injective : Function.Injective ethSignedMessage := by
  intro hash hash' h
  exact Word.toBytes_injective (List.append_cancel_left h)

/-- A signature of another length is rejected. -/
theorem recover_of_length_ne {ecrecover : Ecrecover} {hash : Word} {signature : Bytes}
    (h : signature.length ≠ 65) :
    recover ecrecover hash signature = .error (.reason "ECDSA: invalid signature length") :=
  if_neg h

end Enclave.ECDSA
