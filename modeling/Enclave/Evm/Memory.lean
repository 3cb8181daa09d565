import Enclave.Evm.Word

/-!
# Memory

The byte-addressed memory of a call frame, which is zero at first.  `write` puts a byte string at an
offset and `read` takes one out; `mstore` and `mload` are the opcodes, for the 32 bytes of a word.
What is read where something was written depends only on how the two ranges lie: they agree
(`read_write_self`), or they do not meet (`read_write_of_disjoint`).
-/

namespace Enclave

/-- The memory of a call frame. -/
abbrev Memory := ℕ → UInt8

/-- The opcode `BYTE`: the bytes of a word are counted from the most significant one. -/
def Word.byte (w : Word) (j : ℕ) : UInt8 := w.toBytes.getD j 0

theorem Word.byte_zero (j : ℕ) : (0 : Word).byte j = 0 := by
  have hbytes : (0 : Word).toBytes = List.replicate 32 0 := by decide
  rw [Word.byte, hbytes, List.getD_eq_getElem?_getD, List.getElem?_replicate]
  split_ifs <;> rfl

theorem Word.byte_of_lt {w : Word} (hw : w.toNat < 256) {j : ℕ} (hj : j < 31) : w.byte j = 0 := by
  rw [Word.byte, Word.toBytes, toBytesBE_of_lt hw, List.getD_append _ _ _ _ (by simpa using hj),
    List.getD_replicate _ hj]

theorem Word.byte_last {w : Word} (hw : w.toNat < 256) : w.byte 31 = UInt8.ofNat w.toNat := by
  rw [Word.byte, Word.toBytes, toBytesBE_of_lt hw, List.getD_append_right _ _ _ _ (by simp)]
  simp

namespace Memory

/-- The memory at the start of a call. -/
def zero : Memory := fun _ => 0

/-- The bytes `data` at the offset `i`. -/
def write (m : Memory) (i : ℕ) (data : Bytes) : Memory := fun j =>
  if i ≤ j then data.getD (j - i) (m j) else m j

/-- The `k` bytes at the offset `i`. -/
def read (m : Memory) (i k : ℕ) : Bytes := (List.range k).map fun j => m (i + j)

/-- The opcode `MSTORE`. -/
def mstore (m : Memory) (i : ℕ) (w : Word) : Memory := m.write i w.toBytes

/-- The opcode `MSTORE8`. -/
def mstore8 (m : Memory) (i : ℕ) (b : UInt8) : Memory := m.write i [b]

/-- The opcode `MLOAD`. -/
def mload (m : Memory) (i : ℕ) : Word := Word.ofBytes (m.read i 32)

variable {m : Memory} {i j k : ℕ} {data : Bytes}

@[simp] theorem length_read (m : Memory) (i k : ℕ) : (m.read i k).length = k := by
  rw [read, List.length_map, List.length_range]

theorem read_congr {m m' : Memory} (h : ∀ j, i ≤ j → j < i + k → m j = m' j) :
    m.read i k = m'.read i k := by
  apply List.map_congr_left
  intro j hj
  have hlt := List.mem_range.mp hj
  exact h (i + j) (by omega) (by omega)

theorem getD_read (hj : j < k) : (m.read i k).getD j 0 = m (i + j) := by
  simp [read, List.getD_eq_getElem?_getD, hj]

/-- Adjacent ranges. -/
theorem read_add (m : Memory) (i k l : ℕ) :
    m.read i (k + l) = m.read i k ++ m.read (i + k) l := by
  simp only [read, List.range_add, List.map_append, List.map_map]
  congr 2
  funext j
  simp only [Function.comp_apply, Nat.add_assoc]

theorem write_of_disjoint (h : j < i ∨ i + data.length ≤ j) : m.write i data j = m j := by
  unfold write
  split_ifs with hij
  · have hlen : data.length ≤ j - i := by omega
    rw [List.getD_eq_getElem?_getD, List.getElem?_eq_none hlen, Option.getD_none]
  · rfl

theorem write_inside (m : Memory) (i : ℕ) (hj : j < data.length) :
    m.write i data (i + j) = data.getD j 0 := by
  unfold write
  rw [if_pos (Nat.le_add_right i j), Nat.add_sub_cancel_left, List.getD_eq_getElem _ _ hj,
    List.getD_eq_getElem _ _ hj]

/-- What was written is read back. -/
theorem read_write_self (m : Memory) (i : ℕ) (data : Bytes) :
    (m.write i data).read i data.length = data := by
  apply List.ext_getElem (length_read _ _ _)
  intro j hj hj'
  rw [← List.getD_eq_getElem _ 0, ← List.getD_eq_getElem _ 0, getD_read hj', write_inside m i hj']

/-- What lies elsewhere stays. -/
theorem read_write_of_disjoint (h : i + k ≤ j ∨ j + data.length ≤ i) :
    (m.write j data).read i k = m.read i k := by
  apply read_congr
  intro l hil hlk
  apply write_of_disjoint
  omega

theorem read_mstore_self (m : Memory) (i : ℕ) (w : Word) :
    (m.mstore i w).read i 32 = w.toBytes := by
  have hread := read_write_self m i w.toBytes
  rw [Word.length_toBytes] at hread
  exact hread

theorem read_mstore_of_disjoint {w : Word} (h : i + k ≤ j ∨ j + 32 ≤ i) :
    (m.mstore j w).read i k = m.read i k := by
  apply read_write_of_disjoint
  rw [Word.length_toBytes]
  exact h

@[simp] theorem mload_mstore_self (m : Memory) (i : ℕ) (w : Word) : (m.mstore i w).mload i = w := by
  rw [mload, read_mstore_self, Word.ofBytes_toBytes]

theorem mload_mstore_of_disjoint {w : Word} (h : i + 32 ≤ j ∨ j + 32 ≤ i) :
    (m.mstore j w).mload i = m.mload i := by
  rw [mload, read_mstore_of_disjoint h, mload]

/-- A word in memory is its 32 bytes. -/
theorem toBytes_mload (m : Memory) (i : ℕ) : (m.mload i).toBytes = m.read i 32 := by
  have hlen : (m.read i 32).length = 32 := length_read m i 32
  rw [mload, Word.toBytes, Word.toNat_ofBytes hlen]
  conv_lhs => rw [← hlen]
  exact toBytesBE_ofBytesBE _

theorem byte_mload (m : Memory) (i : ℕ) (hj : j < 32) : (m.mload i).byte j = m (i + j) := by
  rw [Word.byte, toBytes_mload, getD_read hj]

theorem mstore_inside (m : Memory) (i : ℕ) (w : Word) (hj : j < 32) :
    m.mstore i w (i + j) = w.byte j := by
  rw [← byte_mload (m.mstore i w) i hj, mload_mstore_self]

theorem mstore_of_disjoint {w : Word} (h : j < i ∨ i + 32 ≤ j) : m.mstore i w j = m j := by
  apply write_of_disjoint
  rw [Word.length_toBytes]
  exact h

theorem mstore_zero (m : Memory) (i j : ℕ) :
    m.mstore i 0 j = if i ≤ j ∧ j < i + 32 then 0 else m j := by
  split_ifs with h
  · obtain ⟨l, rfl⟩ := Nat.exists_eq_add_of_le h.1
    rw [mstore_inside m i 0 (by omega), Word.byte_zero]
  · exact mstore_of_disjoint (by omega)

/-- A word in memory, from its bytes. -/
theorem mload_eq {w : Word} (h : ∀ j < 32, m (i + j) = w.byte j) : m.mload i = w := by
  apply Word.toBytes_injective
  rw [toBytes_mload]
  apply List.ext_getElem (by simp)
  intro j hj hj'
  rw [length_read] at hj
  rw [← List.getD_eq_getElem _ 0, ← List.getD_eq_getElem _ 0, getD_read hj, h j hj, Word.byte]

end Memory

end Enclave
