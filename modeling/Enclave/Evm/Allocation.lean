import Enclave.Evm.Abi
import Enclave.Evm.Memory

/-!
# Byte strings in memory

The objects that compiled code keeps in memory.  The word at `0x40` is the free memory pointer; an
allocation moves it up and panics at `2 ^ 64`.  A `bytes` or `string` object is its length followed
by its bytes, and is known by the address of its length.

`newBytes_eq_ok` and `literal_eq_ok` say what an allocation leaves behind: the object, the pointer
after it, and everything below as it was (`Keeps`).  Code that only fills objects leaves the pointer
as well (`Agree`).
-/

namespace Enclave.Memory

/-! ### Allocation -/

/-- The free memory pointer. -/
def freePtr (m : Memory) : ℕ := (m.mload 0x40).toNat

/-- `n`, rounded up to a multiple of 32. -/
def roundUp32 (n : ℕ) : ℕ := (n + 31) / 32 * 32

/-- Take `size` bytes from the free memory. -/
def allocate (m : Memory) (size : ℕ) : Result (Memory × ℕ) :=
  let next := m.freePtr + roundUp32 size
  if 2 ^ 64 ≤ next then .error (.panic 0x41)
  else .ok (m.mstore 0x40 (BitVec.ofNat 256 next), m.freePtr)

/-- The place for an object of `n` bytes, with its length. -/
def allocateBytes (m : Memory) (n : ℕ) : Result (Memory × ℕ) :=
  if 2 ^ 64 ≤ n then .error (.panic 0x41) else do
    let (m, ptr) ← m.allocate (roundUp32 n + 32)
    .ok (m.mstore ptr (BitVec.ofNat 256 n), ptr)

/-- `new bytes(n)`. -/
def newBytes (m : Memory) (n : ℕ) : Result (Memory × ℕ) := do
  let (m, ptr) ← m.allocateBytes n
  .ok (m.write (ptr + 32) (List.replicate (roundUp32 n) 0), ptr)

/-- A string constant, copied to memory. -/
def literal (m : Memory) (data : Bytes) : Result (Memory × ℕ) := do
  let (m, ptr) ← m.allocateBytes data.length
  .ok (m.write (ptr + 32) (pad32 data), ptr)

/-! ### Objects -/

/-- The length of an object. -/
def lengthAt (m : Memory) (ptr : ℕ) : ℕ := (m.mload ptr).toNat

/-- The bytes of an object. -/
def bytesAt (m : Memory) (ptr : ℕ) : Bytes := m.read (ptr + 32) (m.lengthAt ptr)

/-- `b[i]`. -/
def index (m : Memory) (ptr i : ℕ) : Result UInt8 :=
  if i < m.lengthAt ptr then .ok (m (ptr + 32 + i)) else .error (.panic 0x32)

/-- `b[i] = c`. -/
def setIndex (m : Memory) (ptr i : ℕ) (c : UInt8) : Result Memory :=
  if i < m.lengthAt ptr then .ok (m.mstore8 (ptr + 32 + i) c) else .error (.panic 0x32)

/-- The memory below `limit` is the same in both. -/
def Agree (limit : ℕ) (m m' : Memory) : Prop := ∀ j, j < limit → m' j = m j

/-- The memory below `limit` is the same in both, apart from the free memory pointer. -/
def Keeps (limit : ℕ) (m m' : Memory) : Prop :=
  ∀ j, j < limit → j < 0x40 ∨ 0x60 ≤ j → m' j = m j

/-! ### Lemmas -/

variable {m m' m'' : Memory} {ptr i n limit : ℕ}

theorem le_roundUp32 (n : ℕ) : n ≤ roundUp32 n := by
  unfold roundUp32
  omega

theorem roundUp32_add (n : ℕ) : roundUp32 (roundUp32 n + 32) = roundUp32 n + 32 := by
  unfold roundUp32
  omega

theorem length_pad32 (data : Bytes) : (pad32 data).length = roundUp32 data.length := by
  rw [pad32, List.length_append, List.length_replicate, roundUp32]
  omega

theorem agree_refl (limit : ℕ) (m : Memory) : Agree limit m m := fun _ _ => rfl

theorem Agree.trans (h : Agree limit m m') (h' : Agree limit m' m'') : Agree limit m m'' :=
  fun j hj => (h' j hj).trans (h j hj)

theorem Agree.mono {limit' : ℕ} (h : Agree limit m m') (hle : limit' ≤ limit) :
    Agree limit' m m' := fun j hj => h j (by omega)

theorem Agree.keeps (h : Agree limit m m') : Keeps limit m m' := fun j hj _ => h j hj

theorem Keeps.trans (h : Keeps limit m m') (h' : Keeps limit m' m'') : Keeps limit m m'' :=
  fun j hj hslot => (h' j hj hslot).trans (h j hj hslot)

theorem Keeps.mono {limit' : ℕ} (h : Keeps limit m m') (hle : limit' ≤ limit) :
    Keeps limit' m m' := fun j hj hslot => h j (by omega) hslot

/-- A write above the limit. -/
theorem agree_write (m : Memory) (data : Bytes) (h : limit ≤ i) : Agree limit m (m.write i data) :=
  fun j hj => write_of_disjoint (Or.inl (by omega))

theorem agree_mstore8 (m : Memory) (c : UInt8) (h : limit ≤ i) : Agree limit m (m.mstore8 i c) :=
  agree_write m [c] h

theorem mload_congr (h : ∀ j, i ≤ j → j < i + 32 → m j = m' j) : m.mload i = m'.mload i := by
  rw [mload, read_congr h, mload]

theorem Agree.mload_eq (h : Agree limit m m') (hi : i + 32 ≤ limit) : m'.mload i = m.mload i :=
  mload_congr fun j _ hj => h j (by omega)

theorem Agree.freePtr_eq (h : Agree limit m m') (hlimit : 0x60 ≤ limit) :
    m'.freePtr = m.freePtr := by
  rw [freePtr, h.mload_eq hlimit, freePtr]

/-- An object below the limit is kept. -/
theorem Keeps.bytesAt_eq (h : Keeps limit m m') (hlow : 0x60 ≤ ptr)
    (hhigh : ptr + 32 + m.lengthAt ptr ≤ limit) :
    m'.lengthAt ptr = m.lengthAt ptr ∧ m'.bytesAt ptr = m.bytesAt ptr := by
  have hlen : m'.lengthAt ptr = m.lengthAt ptr := by
    rw [lengthAt, mload_congr fun j hj hj' => h j (by omega) (Or.inr (by omega)), lengthAt]
  refine ⟨hlen, ?_⟩
  rw [bytesAt, hlen]
  exact read_congr fun j hj hj' => h j (by omega) (Or.inr (by omega))

/-- The low byte of a word in memory is the last of its 32 bytes. -/
theorem lowByte_mload (m : Memory) (i : ℕ) : UInt8.ofNat (m.mload i).toNat = m (i + 31) := by
  have hlast : (m.mload i).toBytes.drop 31 = [UInt8.ofNat (m.mload i).toNat] := by
    rw [Word.toBytes, drop_toBytesBE 31 1, toBytesBE, pow_zero, Nat.div_one, toBytesBE]
  have hread := read_add m i 31 1
  rw [← toBytes_mload] at hread
  rw [hread, List.drop_left' (length_read _ _ _)] at hlast
  exact (List.cons.inj hlast).1.symm

@[simp] theorem write_nil (m : Memory) (i : ℕ) : m.write i [] = m := by
  funext j
  exact write_of_disjoint (by simp only [List.length_nil]; omega)

/-- Two writes, one after the other. -/
theorem write_append (m : Memory) (i : ℕ) (as bs : Bytes) :
    (m.write i as).write (i + as.length) bs = m.write i (as ++ bs) := by
  funext j
  unfold write
  by_cases hlow : i ≤ j
  · by_cases hhigh : i + as.length ≤ j
    · have hsub : j - i - as.length = j - (i + as.length) := by omega
      rw [if_pos hhigh, if_pos hlow, if_pos hlow, List.getD_append_right _ _ _ _ (by omega), hsub,
        List.getD_eq_default as _ (by omega)]
    · rw [if_neg hhigh, if_pos hlow, if_pos hlow, List.getD_append _ _ _ _ (by omega)]
  · rw [if_neg (by omega), if_neg hlow, if_neg hlow]

theorem read_mstore8_of_disjoint {j k : ℕ} (m : Memory) (c : UInt8) (h : i + k ≤ j ∨ j < i) :
    (m.mstore8 j c).read i k = m.read i k := by
  apply read_write_of_disjoint
  show i + k ≤ j ∨ j + 1 ≤ i
  omega

/-- A range in which the last byte is overwritten. -/
theorem read_mstore8_last (m : Memory) (i n : ℕ) (c : UInt8) :
    (m.mstore8 (i + n) c).read i (n + 1) = m.read i n ++ [c] := by
  have hlen : 0 < [c].length := Nat.zero_lt_one
  rw [read_add, read_mstore8_of_disjoint m c (Or.inl le_rfl)]
  congr 1
  exact congrArg (fun b => [b]) (write_inside m (i + n) hlen)

theorem index_of_lt (h : i < m.lengthAt ptr) : m.index ptr i = .ok ((m.bytesAt ptr).getD i 0) := by
  rw [index, if_pos h, bytesAt, getD_read h]

theorem setIndex_of_lt (h : i < m.lengthAt ptr) (c : UInt8) :
    m.setIndex ptr i c = .ok (m.mstore8 (ptr + 32 + i) c) := if_pos h

theorem length_bytesAt (m : Memory) (ptr : ℕ) : (m.bytesAt ptr).length = m.lengthAt ptr :=
  length_read _ _ _

/-- What an allocation leaves behind. -/
theorem allocateBytes_eq_ok (hlow : 0x60 ≤ m.freePtr)
    (hroom : m.freePtr + 32 + roundUp32 n < 2 ^ 64) :
    ∃ m', m.allocateBytes n = .ok (m', m.freePtr) ∧ m'.lengthAt m.freePtr = n ∧
      m'.freePtr = m.freePtr + 32 + roundUp32 n ∧ Keeps m.freePtr m m' := by
  have hn := le_roundUp32 n
  have hnext : m.freePtr + roundUp32 (roundUp32 n + 32) = m.freePtr + 32 + roundUp32 n := by
    rw [roundUp32_add]
    omega
  refine ⟨(m.mstore 0x40 (BitVec.ofNat 256 (m.freePtr + 32 + roundUp32 n))).mstore m.freePtr
    (BitVec.ofNat 256 n), ?_, ?_, ?_, ?_⟩
  · rw [allocateBytes, if_neg (by omega), allocate, hnext]
    simp only [if_neg (not_le.mpr hroom)]
    rfl
  · rw [lengthAt, mload_mstore_self, BitVec.toNat_ofNat]
    omega
  · rw [freePtr, mload_mstore_of_disjoint (by omega), mload_mstore_self, BitVec.toNat_ofNat]
    omega
  · intro j hj hslot
    rw [mstore_of_disjoint (by omega), mstore_of_disjoint (by omega)]

theorem allocateBytes_eq_panic (h : 2 ^ 64 ≤ m.freePtr + 32 + roundUp32 n) :
    m.allocateBytes n = .error (.panic 0x41) := by
  have hnext : m.freePtr + roundUp32 (roundUp32 n + 32) = m.freePtr + 32 + roundUp32 n := by
    rw [roundUp32_add]
    omega
  rw [allocateBytes]
  split_ifs with hn
  · rfl
  · rw [allocate, hnext]
    simp only [if_pos h]
    rfl

/-- What `new bytes(n)` leaves behind. -/
theorem newBytes_eq_ok (hlow : 0x60 ≤ m.freePtr)
    (hroom : m.freePtr + 32 + roundUp32 n < 2 ^ 64) :
    ∃ m', m.newBytes n = .ok (m', m.freePtr) ∧ m'.lengthAt m.freePtr = n ∧
      m'.freePtr = m.freePtr + 32 + roundUp32 n ∧ Keeps m.freePtr m m' := by
  obtain ⟨m₁, hm₁, hlen, hfree, hkeeps⟩ := allocateBytes_eq_ok hlow hroom
  have hwrite : Agree (m.freePtr + 32) m₁ _ :=
    agree_write m₁ (List.replicate (roundUp32 n) 0) le_rfl
  refine ⟨m₁.write (m.freePtr + 32) (List.replicate (roundUp32 n) 0), ?_, ?_, ?_, ?_⟩
  · rw [newBytes, hm₁]
    rfl
  · rw [lengthAt, hwrite.mload_eq le_rfl]
    exact hlen
  · exact (hwrite.freePtr_eq (by omega)).trans hfree
  · exact hkeeps.trans (hwrite.mono (by omega)).keeps

theorem newBytes_eq_panic (h : 2 ^ 64 ≤ m.freePtr + 32 + roundUp32 n) :
    m.newBytes n = .error (.panic 0x41) := by
  rw [newBytes, allocateBytes_eq_panic h, error_bind]

/-- What a string constant leaves behind. -/
theorem literal_eq_ok (hlow : 0x60 ≤ m.freePtr) {data : Bytes}
    (hroom : m.freePtr + 32 + roundUp32 data.length < 2 ^ 64) :
    ∃ m', m.literal data = .ok (m', m.freePtr) ∧ m'.lengthAt m.freePtr = data.length ∧
      m'.bytesAt m.freePtr = data ∧ m'.freePtr = m.freePtr + 32 + roundUp32 data.length ∧
      Keeps m.freePtr m m' := by
  obtain ⟨m₁, hm₁, hlen, hfree, hkeeps⟩ := allocateBytes_eq_ok hlow hroom
  have hwrite : Agree (m.freePtr + 32) m₁ _ := agree_write m₁ (pad32 data) le_rfl
  have hlen' : (m₁.write (m.freePtr + 32) (pad32 data)).lengthAt m.freePtr = data.length := by
    rw [lengthAt, hwrite.mload_eq le_rfl]
    exact hlen
  refine ⟨m₁.write (m.freePtr + 32) (pad32 data), ?_, hlen', ?_, ?_, ?_⟩
  · rw [literal, hm₁]
    rfl
  · have hread := read_write_self m₁ (m.freePtr + 32) (pad32 data)
    rw [length_pad32] at hread
    have hsplit := read_add (m₁.write (m.freePtr + 32) (pad32 data)) (m.freePtr + 32) data.length
      (roundUp32 data.length - data.length)
    rw [Nat.add_sub_cancel' (le_roundUp32 _), hread] at hsplit
    rw [bytesAt, hlen']
    exact (List.append_inj_left hsplit (length_read _ _ _).symm).symm
  · exact (hwrite.freePtr_eq (by omega)).trans hfree
  · exact hkeeps.trans (hwrite.mono (by omega)).keeps

theorem literal_eq_panic {data : Bytes} (h : 2 ^ 64 ≤ m.freePtr + 32 + roundUp32 data.length) :
    m.literal data = .error (.panic 0x41) := by
  rw [literal, allocateBytes_eq_panic h, error_bind]

end Enclave.Memory
