import Enclave.Evm.Keccak
import Enclave.Evm.Memory

/-!
# Addresses of contracts that `CREATE2` creates

The address depends on the creator, a salt and the init code, and on nothing else.  The library
function `Create2.computeAddress` lays out the same 85 bytes in memory (`computeAddress_eq`).
-/

namespace Enclave

/-- The bytes whose hash ends in the address. -/
def create2Preimage (deployer : Address) (salt codeHash : Word) : Bytes :=
  0xff :: (deployer.toBytes ++ (salt.toBytes ++ codeHash.toBytes))

/-- An address is the end of a hash. -/
def addressOf (preimage : Bytes) : Address := (keccak256 preimage).setWidth 160

/-- The opcode `CREATE2`: the address of the new contract. -/
def create2Address (deployer : Address) (salt : Word) (initCode : Bytes) : Address :=
  addressOf (create2Preimage deployer salt (keccak256 initCode))

/-- OpenZeppelin `Create2.computeAddress` in a contract at `deployer`, with the free memory pointer
at `ptr`. -/
def computeAddress (m : Memory) (ptr : ℕ) (deployer : Address) (salt bytecodeHash : Word) :
    Address :=
  let m := m.mstore (ptr + 0x40) bytecodeHash
  let m := m.mstore (ptr + 0x20) salt
  let m := m.mstore ptr (toWord deployer)
  let start := ptr + 0x0b
  let m := m.mstore8 start 0xff
  addressOf (m.read start 85)

theorem toBytes_toWord (a : Address) : (toWord a).toBytes.drop 12 = a.toBytes := by
  rw [Word.toBytes, toNat_toWord (by decide)]
  exact drop_toBytesBE 12 20 _

/-- The library computes the address that the opcode gives. -/
theorem computeAddress_eq (m : Memory) (ptr : ℕ) (deployer : Address) (salt : Word)
    (initCode : Bytes) : computeAddress m ptr deployer salt (keccak256 initCode)
      = create2Address deployer salt initCode := by
  set codeHash := keccak256 initCode with hcode
  set m₁ := (m.mstore (ptr + 0x40) codeHash).mstore (ptr + 0x20) salt with hm₁
  set m₂ := m₁.mstore ptr (toWord deployer) with hm₂
  set m₃ := m₂.mstore8 (ptr + 0x0b) 0xff with hm₃
  have hmark : m₃.read (ptr + 11) 1 = [0xff] := Memory.read_write_self m₂ (ptr + 0x0b) [0xff]
  have hdeployer : m₃.read (ptr + 11 + 1) 20 = deployer.toBytes := by
    have hword : m₂.read ptr 32 = (toWord deployer).toBytes := Memory.read_mstore_self _ _ _
    rw [Memory.read_add m₂ ptr 12 20] at hword
    rw [hm₃, Memory.mstore8, Memory.read_write_of_disjoint (by simp), ← toBytes_toWord,
      ← hword, List.drop_left' (Memory.length_read _ _ _)]
  have hsalt : m₃.read (ptr + 11 + 1 + 20) 32 = salt.toBytes := by
    rw [hm₃, Memory.mstore8, Memory.read_write_of_disjoint (by simp), hm₂,
      Memory.read_mstore_of_disjoint (by omega)]
    exact Memory.read_mstore_self _ _ _
  have hhash : m₃.read (ptr + 11 + 1 + 20 + 32) 32 = codeHash.toBytes := by
    rw [hm₃, Memory.mstore8, Memory.read_write_of_disjoint (by simp), hm₂,
      Memory.read_mstore_of_disjoint (by omega), hm₁, Memory.read_mstore_of_disjoint (by omega)]
    exact Memory.read_mstore_self _ _ _
  have hall : m₃.read (ptr + 11) 85 = create2Preimage deployer salt codeHash := by
    rw [show 85 = 1 + (20 + (32 + 32)) from rfl, Memory.read_add, Memory.read_add, Memory.read_add,
      hmark, hdeployer, hsalt, hhash]
    rfl
  exact congrArg addressOf hall

theorem create2Preimage_inj {deployer : Address} {salt salt' codeHash codeHash' : Word}
    (h : create2Preimage deployer salt codeHash = create2Preimage deployer salt' codeHash') :
    salt = salt' ∧ codeHash = codeHash' := by
  have htail := List.append_cancel_left (List.cons.inj h).2
  obtain ⟨hsalt, hhash⟩ := List.append_inj htail (by simp)
  exact ⟨Word.toBytes_injective hsalt, Word.toBytes_injective hhash⟩

end Enclave
