import Enclave.Account.Base64Memory
import Enclave.Account.Equiv.Base64URL

/-!
# The assembly of `Base64` computes the text

`encodeMemory_refines`: on every memory whose objects lie below the free memory pointer, the code
of `Base64URL.encode` either panics because the memory is full, or leaves behind the text of
`Base64URL.encode` as a new object, with everything below as it was.

The loop of the assembly carries the invariant `Written`: what has been written, followed by the
text of the rest of the input, is the whole text.  The bytes that it reads after the end of its
input are zero because of the word that it clears before and puts back afterwards.
-/

namespace Enclave.Base64

open Codec

/-! ### The input of one iteration -/

theorem ofBytesBE_append_triple (as : Bytes) (x y z : UInt8) :
    ofBytesBE (as ++ [x, y, z]) = ofBytesBE as * 16777216 + triple x y z := by
  induction as with
  | nil =>
    simp only [List.nil_append, ofBytesBE, List.length_cons, List.length_nil, triple]
    omega
  | cons a as ih =>
    have hlen : (as ++ [x, y, z]).length = as.length + 3 := List.length_append
    rw [List.cons_append, ofBytesBE, ih, ofBytesBE, hlen, pow_add]
    ring

/-- The low 24 bits of a word in memory are its last three bytes. -/
theorem mload_mod (m : Memory) (i : ℕ) :
    (m.mload i).toNat % 16777216 = triple (m (i + 29)) (m (i + 30)) (m (i + 31)) := by
  have hread : m.read i 32 = m.read i 29 ++ [m (i + 29), m (i + 30), m (i + 31)] :=
    Memory.read_add m i 29 3
  rw [Memory.mload, Word.toNat_ofBytes (Memory.length_read _ _ _), hread, ofBytesBE_append_triple,
    Nat.mul_add_mod_of_lt (triple_lt _ _ _)]

theorem index_eq {input : Word} {v shift : ℕ} (hinput : input.toNat % 16777216 = v)
    (hshift : shift ∈ [18, 12, 6, 0]) :
    (input >>> shift &&& 0x3F).toNat = v >>> shift &&& 0x3F := by
  have hmask : ∀ k : ℕ, k &&& 0x3F = k % 64 := fun k => Nat.and_two_pow_sub_one_eq_mod k 6
  rw [BitVec.toNat_and, BitVec.toNat_ushiftRight, Nat.shiftRight_eq_div_pow,
    Nat.shiftRight_eq_div_pow, ← hinput]
  show _ &&& 0x3F = _
  rw [hmask, hmask]
  simp only [List.mem_cons, List.not_mem_nil, or_false] at hshift
  rcases hshift with rfl | rfl | rfl | rfl <;> simp only [Nat.reducePow] <;> omega

/-! ### One iteration -/

/-- The table stands at its address. -/
def TableAt (m : Memory) (ptr : ℕ) : Prop := ∀ i < 64, m (ptr + 32 + i) = table.getD i 0

theorem TableAt.mono {m m' : Memory} {ptr limit : ℕ} (h : TableAt m ptr)
    (hagree : m.Agree limit m') (hlimit : ptr + 96 ≤ limit) : TableAt m' ptr :=
  fun i hi => (hagree _ (by omega)).trans (h i hi)

theorem yul_add_of_lt {x y : ℕ} (h : x + y < 2 ^ 64) : Yul.add x y = x + y :=
  Nat.mod_eq_of_lt (by omega)

/-- One `mstore8` writes one character of the table after those written before. -/
theorem writeCharacter_eq {m : Memory} {ptr dataPtr resultPtr v shift : ℕ} {input : Word}
    (htable : TableAt m ptr) (hptr : ptr + 96 ≤ resultPtr) (written : Bytes)
    (hresult : resultPtr + written.length + 1 < 2 ^ 64) (hinput : input.toNat % 16777216 = v)
    (hshift : shift ∈ [18, 12, 6, 0]) :
    writeCharacter (Yul.add ptr 1) input shift
        ⟨m.write resultPtr written, dataPtr, resultPtr + written.length⟩
      = ⟨m.write resultPtr (written ++ [character v shift]), dataPtr,
          resultPtr + (written ++ [character v shift]).length⟩ := by
  have hindex : (v >>> shift &&& 0x3F) < 64 := by
    have hle : (v >>> shift &&& 0x3F) ≤ 0x3F := Nat.and_le_right
    omega
  have hentry : ptr + 1 + (v >>> shift &&& 0x3F) + 31 = ptr + 32 + (v >>> shift &&& 0x3F) := by
    omega
  have htable' := htable.mono (Memory.agree_write m written le_rfl) hptr
  simp only [writeCharacter, index_eq hinput hshift, yul_add_of_lt hresult]
  rw [yul_add_of_lt (by omega : ptr + 1 < 2 ^ 64), yul_add_of_lt (by omega),
    Memory.lowByte_mload, hentry, htable' _ hindex, Memory.mstore8, Memory.write_append,
    List.length_append]
  rfl

/-- One iteration writes the four characters of the next three bytes. -/
theorem iteration_eq {m : Memory} {ptr dataPtr resultPtr : ℕ} (htable : TableAt m ptr)
    (hptr : ptr + 96 ≤ resultPtr) (hdata : dataPtr + 3 < 2 ^ 64)
    (hresult : resultPtr + 4 < 2 ^ 64) :
    iteration (Yul.add ptr 1) ⟨m, dataPtr, resultPtr⟩
      = ⟨m.write resultPtr (chunk (m (dataPtr + 32)) (m (dataPtr + 33)) (m (dataPtr + 34))),
          dataPtr + 3, resultPtr + 4⟩ := by
  have hinput := mload_mod m (dataPtr + 3)
  have hstart : (⟨m, dataPtr + 3, resultPtr⟩ : LoopState)
      = ⟨m.write resultPtr [], dataPtr + 3, resultPtr + ([] : Bytes).length⟩ := by
    rw [Memory.write_nil]
    rfl
  simp only [iteration, yul_add_of_lt hdata]
  rw [hstart, writeCharacter_eq htable hptr _ (by simp; omega) hinput (by decide),
    writeCharacter_eq htable hptr _ (by simp; omega) hinput (by decide),
    writeCharacter_eq htable hptr _ (by simp; omega) hinput (by decide),
    writeCharacter_eq htable hptr _ (by simp; omega) hinput (by decide)]
  rfl

/-! ### The loop -/

/-- The bytes of a string, with zeroes after its end, stand at an address. -/
def ZeroPadded (m : Memory) (ptr : ℕ) (data : Bytes) : Prop :=
  ∀ i < data.length + 32, m (ptr + i) = data.getD i 0

/-- The loop takes three bytes at a time, also where the last ones are missing. -/
theorem encodeLoop_eq_chunk {data : Bytes} (h : data ≠ []) :
    encodeLoop data = chunk (data.getD 0 0) (data.getD 1 0) (data.getD 2 0) ++
      encodeLoop (data.drop 3) := by
  match data with
  | [] => exact absurd rfl h
  | [x] => exact (List.append_nil _).symm
  | [x, y] => exact (List.append_nil _).symm
  | x :: y :: z :: rest => rfl

theorem length_encodeLoop (data : Bytes) :
    (encodeLoop data).length = 4 * ((data.length + 2) / 3) := by
  rw [encodeLoop_eq, List.length_append, List.length_map, List.length_replicate, length_sextets,
    padding]
  have hmod : data.length % 3 < 3 := Nat.mod_lt _ (by decide)
  interval_cases h : data.length % 3 <;> omega

/-- After `k` iterations: what has been written, followed by the text of the rest of the input, is
the whole text, and the memory below is as it was. -/
structure Written (m : Memory) (data result : ℕ) (input : Bytes) (k : ℕ) (s : LoopState) :
    Prop where
  dataPtr : s.dataPtr = data + 3 * k
  resultPtr : s.resultPtr = result + 32 + 4 * k
  bound : 3 * k < input.length + 3
  text : s.memory.read (result + 32) (4 * k) ++ encodeLoop (input.drop (3 * k)) = encodeLoop input
  agree : m.Agree (result + 32) s.memory

/-- One iteration keeps the invariant. -/
theorem written_iteration {m : Memory} {data ptr result k : ℕ} {input : Bytes} {s : LoopState}
    (htable : TableAt m ptr) (hptr : ptr + 96 ≤ result) (hdata : data + 32 + input.length ≤ ptr)
    (hpadded : ZeroPadded m (data + 32) input)
    (hroom : result + 32 + 4 * ((input.length + 2) / 3) < 2 ^ 64)
    (h : Written m data result input k s) (hlt : s.dataPtr < data + input.length) :
    Written m data result input (k + 1) (iteration (Yul.add ptr 1) s) := by
  obtain ⟨hdataPtr, hresultPtr, hbound, htext, hagree⟩ := h
  obtain ⟨m', dataPtr, resultPtr⟩ := s
  simp only at hdataPtr hresultPtr htext hagree hlt
  subst hdataPtr hresultPtr
  have hrest : input.drop (3 * k) ≠ [] := by
    rw [ne_eq, List.drop_eq_nil_iff]
    omega
  have hbyte : ∀ i < 3, m' (data + 3 * k + 32 + i) = (input.drop (3 * k)).getD i 0 := by
    intro i hi
    have hread := hpadded (3 * k + i) (by omega)
    rw [List.getD_eq_getElem?_getD, List.getElem?_drop, ← List.getD_eq_getElem?_getD, ← hread,
      hagree _ (by omega)]
    congr 1
    omega
  rw [iteration_eq (htable.mono hagree (by omega)) (by omega) (by omega) (by omega),
    hbyte 0 (by decide), hbyte 1 (by decide), hbyte 2 (by decide)]
  refine ⟨by simp only; omega, by simp only; omega, by omega, ?_, ?_⟩
  · rw [encodeLoop_eq_chunk hrest, List.drop_drop, ← List.append_assoc] at htext
    have hsplit : 4 * (k + 1) = 4 * k + 4 := by omega
    rw [← htext, hsplit, Memory.read_add, Memory.read_write_of_disjoint (Or.inl le_rfl)]
    congr 2
    exact Memory.read_write_self _ _ (chunk _ _ _)
  · exact hagree.trans (Memory.agree_write _ _ (by omega))

/-- The whole loop writes the text of the input, with zero digits to the end of the last group. -/
theorem forLoop_iteration {m : Memory} {data ptr result gas : ℕ} {input : Bytes}
    (htable : TableAt m ptr) (hptr : ptr + 96 ≤ result) (hdata : data + 32 + input.length ≤ ptr)
    (hpadded : ZeroPadded m (data + 32) input)
    (hroom : result + 32 + 4 * ((input.length + 2) / 3) < 2 ^ 64) (hgas : input.length < gas) :
    ∃ s, Yul.forLoop (fun s : LoopState => decide (s.dataPtr < data + input.length))
        (fun s => some (iteration (Yul.add ptr 1) s)) gas ⟨m, data, result + 32⟩ = some s ∧
      s.resultPtr = result + 32 + 4 * ((input.length + 2) / 3) ∧
      s.memory.read (result + 32) (4 * ((input.length + 2) / 3)) = encodeLoop input ∧
      m.Agree (result + 32) s.memory := by
  have hstep : ∀ s : LoopState, (∃ k, Written m data result input k s) →
      decide (s.dataPtr < data + input.length) = true →
      ∃ s', some (iteration (Yul.add ptr 1) s) = some s' ∧
        (∃ k, Written m data result input k s') ∧
        data + input.length - s'.dataPtr < data + input.length - s.dataPtr := by
    rintro s ⟨k, hk⟩ hlt
    rw [decide_eq_true_eq] at hlt
    have hk' := written_iteration htable hptr hdata hpadded hroom hk hlt
    refine ⟨_, rfl, ⟨k + 1, hk'⟩, ?_⟩
    rw [hk'.dataPtr, hk.dataPtr]
    rw [hk.dataPtr] at hlt
    omega
  have hinit : Written m data result input 0 ⟨m, data, result + 32⟩ :=
    ⟨rfl, rfl, by omega, rfl, Memory.agree_refl _ _⟩
  obtain ⟨s, hs, ⟨k, hk⟩, hend⟩ := Yul.forLoop_spec
    (fun s : LoopState => data + input.length - s.dataPtr) hstep gas _ ⟨0, hinit⟩
    (by simp only; omega)
  -- the loop ends when the whole input has been read
  rw [decide_eq_false_iff_not, hk.dataPtr] at hend
  have hbound := hk.bound
  have hcount : 4 * ((input.length + 2) / 3) = 4 * k := by omega
  have htext := hk.text
  rw [List.drop_eq_nil_of_le (by omega), encodeLoop, List.append_nil] at htext
  rw [hcount]
  exact ⟨s, hs, hk.resultPtr, htext, hk.agree⟩

/-! ### The padding -/

theorem yul_sub_of_le {x y : ℕ} (h : y ≤ x) (hx : x < 2 ^ 64) : Yul.sub x y = x - y :=
  Yul.sub_of_le h (by omega)

/-- The `switch` puts the padding in the place of the last characters. -/
theorem padResult_spec {m : Memory} {data start n : ℕ} {input : Bytes}
    (hlen : m.lengthAt data = input.length) (htext : m.read start n = encodeLoop input)
    (hroom : start + n < 2 ^ 64) :
    (padResult m data (start + n)).read start n = encode input ∧
      m.Agree start (padResult m data (start + n)) := by
  have hn : n = 4 * ((input.length + 2) / 3) := by
    rw [← length_encodeLoop, ← htext, Memory.length_read]
  have htake : ∀ k l, n = k + l → (encodeLoop input).take ((encodeLoop input).length - l)
      = m.read start k := by
    rintro k l rfl
    rw [← htext, Memory.length_read, Nat.add_sub_cancel, Memory.read_add]
    exact List.take_left' (Memory.length_read _ _ _)
  have hmod : input.length % 3 < 3 := Nat.mod_lt _ (by decide)
  unfold padResult encode
  rw [hlen]
  interval_cases h : input.length % 3
  · refine ⟨?_, Memory.agree_refl _ _⟩
    split_ifs with hzero
    · rw [hn, hzero]
      rfl
    · exact htext
  · -- one byte is left: two characters of the last group are padding
    obtain ⟨k, rfl⟩ : ∃ k, n = k + 2 := ⟨n - 2, by omega⟩
    have hfirst : (m.mstore8 (start + (k + 1)) 0x3d).read start k = m.read start k :=
      Memory.read_mstore8_of_disjoint _ _ (Or.inl (by omega))
    have hlast : ((m.mstore8 (start + (k + 1)) 0x3d).mstore8 (start + k) 0x3d).read
        (start + (k + 1)) 1 = [0x3d] := by
      rw [Memory.read_mstore8_of_disjoint _ _ (Or.inr (by omega))]
      exact Memory.read_mstore8_last m (start + (k + 1)) 0 0x3d
    simp only [yul_sub_of_le (by omega : 1 ≤ start + (k + 2)) hroom,
      yul_sub_of_le (by omega : 2 ≤ start + (k + 2)) hroom]
    rw [if_neg (by omega), htake k 2 rfl, show start + (k + 2) - 1 = start + (k + 1) by omega,
      show start + (k + 2) - 2 = start + k by omega]
    refine ⟨?_, (Memory.agree_mstore8 m _ (by omega)).trans (Memory.agree_mstore8 _ _ (by omega))⟩
    rw [show k + 2 = k + 1 + 1 by rfl, Memory.read_add, Memory.read_mstore8_last, hfirst, hlast,
      List.append_assoc]
    rfl
  · -- two bytes are left: one character of the last group is padding
    obtain ⟨k, rfl⟩ : ∃ k, n = k + 1 := ⟨n - 1, by omega⟩
    simp only [yul_sub_of_le (by omega : 1 ≤ start + (k + 1)) hroom]
    rw [if_neg (by omega), htake k 1 rfl, show start + (k + 1) - 1 = start + k by omega]
    exact ⟨Memory.read_mstore8_last m start k _, Memory.agree_mstore8 m _ (by omega)⟩

/-! ### The assembly block -/

/-- The word after the input is cleared: the input is followed by zeroes. -/
theorem zeroPadded_mstore (m : Memory) (data : ℕ) :
    ZeroPadded (m.mstore (data + 32 + m.lengthAt data) 0) (data + 32) (m.bytesAt data) := by
  intro i hi
  rw [Memory.length_bytesAt] at hi
  rw [Memory.mstore_zero]
  split_ifs with hafter
  · rw [List.getD_eq_default _ _ (by rw [Memory.length_bytesAt]; omega)]
  · rw [Memory.bytesAt, Memory.getD_read (by omega)]

/-- The word after the input is put back. -/
theorem agree_restore {m m' : Memory} {i limit : ℕ} (h : (m.mstore i 0).Agree limit m') :
    m.Agree limit (m'.mstore i (m.mload i)) := by
  intro j hj
  by_cases hin : i ≤ j ∧ j < i + 32
  · obtain ⟨l, rfl⟩ := Nat.exists_eq_add_of_le hin.1
    rw [Memory.mstore_inside _ _ _ (by omega), Memory.byte_mload m i (by omega)]
  · rw [Memory.mstore_of_disjoint (by omega), h j hj, Memory.mstore_of_disjoint (by omega)]

/-- The assembly block writes the text of the input into the result, and leaves what is below it as
it was. -/
theorem encodeAssembly_spec {gas : ℕ} {m : Memory} {data ptr result : ℕ} (htable : TableAt m ptr)
    (hdata : data + 32 + m.lengthAt data ≤ ptr) (hptr : ptr + 96 ≤ result)
    (hroom : result + 32 + 4 * ((m.lengthAt data + 2) / 3) < 2 ^ 64)
    (hgas : m.lengthAt data < gas) :
    ∃ m', encodeAssembly gas m data ptr result = some m' ∧
      m'.read (result + 32) (4 * ((m.lengthAt data + 2) / 3)) = encode (m.bytesAt data) ∧
      m.Agree (result + 32) m' := by
  have hlen := Memory.length_bytesAt m data
  have hafter : data + m.lengthAt data + 32 = data + 32 + m.lengthAt data := by omega
  -- the loop runs on the memory with the word after the input cleared
  have htable₀ : TableAt (m.mstore (data + 32 + m.lengthAt data) 0) ptr := fun i hi => by
    rw [Memory.mstore_of_disjoint (by omega)]
    exact htable i hi
  have hpadded := zeroPadded_mstore m data
  rw [← hlen] at hdata hroom hgas hafter htable₀ hpadded ⊢
  obtain ⟨s, hs, hresultPtr, htext, hagree⟩ :=
    forLoop_iteration htable₀ hptr hdata hpadded hroom hgas
  have hrestore := agree_restore hagree
  have hlen' : (s.memory.mstore (data + 32 + (m.bytesAt data).length)
      (m.mload (data + 32 + (m.bytesAt data).length))).lengthAt data
        = (m.bytesAt data).length := by
    rw [Memory.lengthAt, hrestore.mload_eq (by omega), hlen, Memory.lengthAt]
  have htext' : (s.memory.mstore (data + 32 + (m.bytesAt data).length)
      (m.mload (data + 32 + (m.bytesAt data).length))).read (result + 32)
        (4 * (((m.bytesAt data).length + 2) / 3)) = encodeLoop (m.bytesAt data) := by
    rw [Memory.read_mstore_of_disjoint (Or.inr (by omega)), htext]
  obtain ⟨hread, hpad⟩ := padResult_spec hlen' htext' hroom
  refine ⟨_, ?_, hread, hrestore.trans hpad⟩
  simp only [encodeAssembly, ← hlen,
    yul_add_of_lt (by omega : data + (m.bytesAt data).length < 2 ^ 64),
    yul_add_of_lt (by omega : result + 0x20 < 2 ^ 64),
    yul_add_of_lt (by omega : data + (m.bytesAt data).length + 0x20 < 2 ^ 64), hafter]
  rw [hs, ← hresultPtr]
  rfl

/-! ### The function -/

/-- The memory that `encode` takes for an input of `n` bytes: the table and the text, or an empty
string. -/
def footprint (n : ℕ) : ℕ :=
  if n = 0 then 32 else 128 + Memory.roundUp32 (4 * ((n + 2) / 3))

/-- An object that lies between the free memory pointer's word and the free memory. -/
structure Placed (m : Memory) (ptr : ℕ) : Prop where
  above : 0x60 ≤ ptr
  below : ptr + 32 + m.lengthAt ptr ≤ m.freePtr

/-- The length of the text is computed without overflow. -/
theorem size_eq {length : Word} (h : length.toNat < 2 ^ 64) :
    ∃ rounded size : Word, length.checkedAdd 2 = .ok rounded ∧
      Word.checkedMul 4 (rounded / 3) = .ok size ∧
      size.toNat = 4 * ((length.toNat + 2) / 3) := by
  have hrounded : (BitVec.ofNat 256 (length.toNat + 2)).toNat = length.toNat + 2 := by
    rw [BitVec.toNat_ofNat]
    omega
  have hsize : (BitVec.ofNat 256 (4 * ((length.toNat + 2) / 3))).toNat
      = 4 * ((length.toNat + 2) / 3) := by
    rw [BitVec.toNat_ofNat]
    omega
  refine ⟨BitVec.ofNat 256 (length.toNat + 2), _, Word.checkedAdd_eq_ok.mpr hrounded,
    Word.checkedMul_eq_ok.mpr ?_, hsize⟩
  rw [hsize, BitVec.toNat_udiv, hrounded]
  rfl

theorem tableAt_of_bytesAt {m : Memory} {ptr : ℕ} (hbytes : m.bytesAt ptr = table) :
    TableAt m ptr := by
  have hlen : m.lengthAt ptr = 64 := by
    rw [← Memory.length_bytesAt, hbytes]
    decide
  intro i hi
  rw [← hbytes, Memory.bytesAt, hlen, Memory.getD_read hi]

/-- The part of `encode` after the table has been copied. -/
theorem encodeMemory_of_literal {gas : ℕ} {m m₁ : Memory} {data : ℕ} (hdata : Placed m data)
    (hgas : m.lengthAt data < gas) (hzero : m.lengthAt data ≠ 0)
    (hliteral : m.literal table = .ok (m₁, m.freePtr)) (hbytes : m₁.bytesAt m.freePtr = table)
    (hfree : m₁.freePtr = m.freePtr + 96) (hkeeps : m.Keeps m.freePtr m₁)
    (hinside : m.freePtr + 96 < 2 ^ 64) :
    (m.freePtr + footprint (m.lengthAt data) < 2 ^ 64 → ∃ m',
      encodeMemory gas m data = .ok (m', m₁.freePtr) ∧ Placed m' m₁.freePtr ∧
      m'.freePtr = m.freePtr + footprint (m.lengthAt data) ∧
      m'.bytesAt m₁.freePtr = encode (m.bytesAt data) ∧ m.Keeps m.freePtr m') ∧
    (2 ^ 64 ≤ m.freePtr + footprint (m.lengthAt data) →
      encodeMemory gas m data = .error (.panic 0x41)) := by
  obtain ⟨habove, hbelow⟩ := hdata
  have hlow : 0x60 ≤ m₁.freePtr := by omega
  have hne : m.mload data ≠ 0 := fun h => hzero (Word.toNat_eq_zero.mpr h)
  obtain ⟨hlen₁, hbytes₁⟩ := hkeeps.bytesAt_eq habove hbelow
  have hload : (m₁.mload data).toNat = m.lengthAt data := hlen₁
  obtain ⟨rounded, size, hadd, hmul, hsize⟩ := size_eq (by omega : (m₁.mload data).toNat < 2 ^ 64)
  rw [hload] at hsize
  have hprint : m.freePtr + footprint (m.lengthAt data)
      = m₁.freePtr + 32 + Memory.roundUp32 size.toNat := by
    rw [footprint, if_neg hzero, hfree, hsize]
    omega
  rw [hprint]
  constructor
  · intro hroom
    obtain ⟨m₂, hm₂, hlen₂, hfree₂, hkeeps₂⟩ := Memory.newBytes_eq_ok hlow hroom
    have hround := Memory.le_roundUp32 size.toNat
    have htable : TableAt m₂ m.freePtr := fun i hi =>
      (hkeeps₂ _ (by omega) (Or.inr (by omega))).trans (tableAt_of_bytesAt hbytes i hi)
    obtain ⟨hlen, hbytes₂⟩ := hkeeps₂.bytesAt_eq habove (by omega)
    rw [hlen₁] at hlen
    have hgas₂ : m₂.lengthAt data < gas := by
      rw [hlen]
      exact hgas
    obtain ⟨m₃, hm₃, hread, hagree⟩ := encodeAssembly_spec htable (by rw [hlen]; exact hbelow)
      (by omega : _ ≤ m₁.freePtr) (by rw [hlen]; omega) hgas₂
    have hlen₃ : m₃.lengthAt m₁.freePtr = size.toNat := by
      rw [Memory.lengthAt, hagree.mload_eq le_rfl]
      exact hlen₂
    have hfree₃ := (hagree.freePtr_eq (by omega)).trans hfree₂
    refine ⟨m₃, ?_, ⟨hlow, by omega⟩, hfree₃, ?_, ?_⟩
    · rw [encodeMemory, if_neg hne, hliteral, ok_bind]
      simp only [hadd, hmul, hm₂, hm₃, ok_bind]
    · rw [Memory.bytesAt, hlen₃, hsize, ← hlen, hread, hbytes₂, hbytes₁]
    · exact hkeeps.trans ((hkeeps₂.mono (by omega)).trans (hagree.mono (by omega)).keeps)
  · intro hfull
    rw [encodeMemory, if_neg hne, hliteral, ok_bind]
    simp only [hadd, hmul, Memory.newBytes_eq_panic hfull, ok_bind, error_bind]

/-- What `Base64.encode` leaves behind, and when it panics. -/
theorem encodeMemory_spec {gas : ℕ} {m : Memory} {data : ℕ} (hdata : Placed m data)
    (hgas : m.lengthAt data < gas) :
    (m.freePtr + footprint (m.lengthAt data) < 2 ^ 64 → ∃ m' ptr,
      encodeMemory gas m data = .ok (m', ptr) ∧ m.freePtr ≤ ptr ∧ Placed m' ptr ∧
      m'.freePtr = m.freePtr + footprint (m.lengthAt data) ∧
      m'.bytesAt ptr = encode (m.bytesAt data) ∧ m.Keeps m.freePtr m') ∧
    (2 ^ 64 ≤ m.freePtr + footprint (m.lengthAt data) →
      encodeMemory gas m data = .error (.panic 0x41)) := by
  obtain ⟨habove, hbelow⟩ := hdata
  have hlow : 0x60 ≤ m.freePtr := by omega
  by_cases hzero : m.lengthAt data = 0
  · -- an empty input gives a new empty string
    have hload : m.mload data = 0 := Word.toNat_eq_zero.mp hzero
    have hround : Memory.roundUp32 ([] : Bytes).length = 0 := rfl
    have hempty : m.bytesAt data = [] := by
      rw [← List.length_eq_zero_iff, Memory.length_bytesAt, hzero]
    rw [encodeMemory, if_pos hload, footprint, if_pos hzero, hempty]
    refine ⟨fun hroom => ?_, fun hfull => Memory.literal_eq_panic (by rw [hround]; omega)⟩
    obtain ⟨m', hm', hlen, hbytes, hfree, hkeeps⟩ := Memory.literal_eq_ok hlow
      (by rw [hround]; omega : _ + Memory.roundUp32 ([] : Bytes).length < _)
    rw [hround] at hfree
    refine ⟨m', _, hm', le_rfl, ⟨hlow, ?_⟩, hfree, hbytes, hkeeps⟩
    rw [hlen, hfree]
    rfl
  · have hround : Memory.roundUp32 table.length = 64 := by decide
    have hprint : 128 ≤ footprint (m.lengthAt data) := by
      rw [footprint, if_neg hzero]
      omega
    by_cases hinside : m.freePtr + 96 < 2 ^ 64
    · obtain ⟨m₁, hm₁, -, hbytes, hfree, hkeeps⟩ :=
        Memory.literal_eq_ok hlow (by rw [hround]; omega : _ + Memory.roundUp32 table.length < _)
      rw [hround] at hfree
      obtain ⟨hok, hpanic⟩ := encodeMemory_of_literal ⟨habove, hbelow⟩ hgas hzero hm₁ hbytes
        (by omega) hkeeps hinside
      refine ⟨fun hroom => ?_, hpanic⟩
      obtain ⟨m', hm', hplaced, hfree', hbytes', hkeeps'⟩ := hok hroom
      exact ⟨m', _, hm', by omega, hplaced, hfree', hbytes', hkeeps'⟩
    · refine ⟨fun hroom => by omega, fun _ => ?_⟩
      have hne : m.mload data ≠ 0 := fun h => hzero (Word.toNat_eq_zero.mpr h)
      rw [encodeMemory, if_neg hne, Memory.literal_eq_panic (by rw [hround]; omega), error_bind]

end Enclave.Base64

namespace Enclave.Base64URL

open Base64 (Placed)

/-! ### The padding is cut off -/

/-- The count of trailing `=` of a string, as `encode` makes it. -/
def trailingEquals (b64 : Bytes) : ℕ :=
  if b64.length > 2 ∧ b64.getD (b64.length - 2) 0 = 0x3d then 2
  else if b64.length > 1 ∧ b64.getD (b64.length - 1) 0 = 0x3d then 1
  else 0

theorem encode_eq_map_replace (data : Bytes) :
    encode data = ((Base64.encode data).take ((Base64.encode data).length
      - trailingEquals (Base64.encode data))).map replace := rfl

theorem trailingEquals_le (b64 : Bytes) : trailingEquals b64 ≤ b64.length := by
  unfold trailingEquals
  split_ifs <;> omega

theorem equalsAt_eq (m : Memory) (ptr : ℕ) {k : ℕ} (hk : 0 < k) :
    equalsAt m ptr k = .ok (decide ((m.bytesAt ptr).length > k ∧
      (m.bytesAt ptr).getD ((m.bytesAt ptr).length - k) 0 = 0x3d)) := by
  rw [equalsAt, Memory.length_bytesAt]
  by_cases hlen : m.lengthAt ptr > k
  · rw [if_pos hlen, Memory.index_of_lt (by omega), ok_bind]
    simp only [hlen, true_and]
    rfl
  · rw [if_neg hlen, decide_eq_false (fun h => hlen h.1)]

theorem equalsCount_eq_ok (m : Memory) (ptr : ℕ) :
    equalsCount m ptr = .ok (trailingEquals (m.bytesAt ptr)) := by
  rw [equalsCount, equalsAt_eq m ptr (by decide : 0 < 2), ok_bind,
    equalsAt_eq m ptr (by decide : 0 < 1), ok_bind, trailingEquals]
  simp only [decide_eq_true_eq]
  split_ifs <;> rfl

/-! ### The copying loop -/

/-- One character is copied, with `+` and `/` replaced. -/
theorem copyCharacter_eq {m : Memory} {b64 result i : ℕ} (hb64 : i < m.lengthAt b64)
    (hresult : i < m.lengthAt result) :
    copyCharacter b64 result i m
      = .ok (m.mstore8 (result + 32 + i) (replace ((m.bytesAt b64).getD i 0))) := by
  rw [copyCharacter, Memory.index_of_lt hb64, ok_bind, replace]
  by_cases hplus : (m.bytesAt b64).getD i 0 = 0x2b
  · rw [if_pos hplus, if_pos hplus, Memory.setIndex_of_lt hresult]
  · rw [if_neg hplus, if_neg hplus, ok_bind]
    by_cases hslash : (m.bytesAt b64).getD i 0 = 0x2f
    · rw [if_pos hslash, if_pos hslash, Memory.setIndex_of_lt hresult]
    · rw [if_neg hslash, if_neg hslash, ok_bind, Memory.setIndex_of_lt hresult]

/-- The loop copies the characters from index `i` on. -/
theorem copyLoop_spec {b64 result : ℕ} (n : ℕ) : ∀ (i : ℕ) (m : Memory),
    0x60 ≤ b64 → b64 + 32 + m.lengthAt b64 ≤ result → i + n ≤ m.lengthAt b64 →
    i + n ≤ m.lengthAt result →
    ∃ m', copyLoop b64 result i n m = .ok m' ∧ m.Agree (result + 32) m' ∧
      m'.read (result + 32) (i + n)
        = m.read (result + 32) i ++ (((m.bytesAt b64).drop i).take n).map replace := by
  induction n with
  | zero =>
    intro i m _ _ _ _
    refine ⟨m, rfl, Memory.agree_refl _ _, ?_⟩
    rw [List.take_zero, List.map_nil, List.append_nil]
    rfl
  | succ n ih =>
    intro i m habove hbelow hb64 hresult
    have hagree : m.Agree (result + 32)
        (m.mstore8 (result + 32 + i) (replace ((m.bytesAt b64).getD i 0))) :=
      Memory.agree_mstore8 m _ (by omega)
    obtain ⟨hlen, hbytes⟩ := hagree.keeps.bytesAt_eq habove (by omega)
    have hlen' : (m.mstore8 (result + 32 + i) (replace ((m.bytesAt b64).getD i 0))).lengthAt result
        = m.lengthAt result := by
      rw [Memory.lengthAt, hagree.mload_eq le_rfl, Memory.lengthAt]
    obtain ⟨m', hm', hagree', hread⟩ := ih (i + 1)
      (m.mstore8 (result + 32 + i) (replace ((m.bytesAt b64).getD i 0))) habove (by omega)
      (by omega) (by omega)
    refine ⟨m', ?_, hagree.trans hagree', ?_⟩
    · rw [copyLoop, copyCharacter_eq (by omega) (by omega), ok_bind, hm']
    · have hi : i < (m.bytesAt b64).length := by
        rw [Memory.length_bytesAt]
        omega
      rw [show i + (n + 1) = i + 1 + n by omega, hread, Memory.read_mstore8_last, hbytes,
        List.drop_eq_getElem_cons hi, List.take_succ_cons, List.map_cons, List.append_assoc,
        List.getD_eq_getElem _ _ hi]
      rfl

/-! ### The function -/

/-- The memory that `encode` takes for an input of `n` bytes. -/
def footprint (n : ℕ) : ℕ :=
  Base64.footprint n + 32 + Memory.roundUp32 ((4 * n + 2) / 3)

/-- **The code of `Base64URL.encode` computes the text**: on every memory, whatever stands after the
input, it leaves behind a new object with the text of the input, and everything below the old free
memory pointer as it was; if the memory that it needs ends above `2 ^ 64` it panics. -/
theorem encodeMemory_refines (gas : ℕ) (m : Memory) (data : ℕ) (hdata : Placed m data)
    (hgas : m.lengthAt data < gas) :
    (m.freePtr + footprint (m.lengthAt data) < 2 ^ 64 → ∃ m' ptr,
      encodeMemory gas m data = .ok (m', ptr) ∧ m.freePtr ≤ ptr ∧ Placed m' ptr ∧
      m'.freePtr = m.freePtr + footprint (m.lengthAt data) ∧
      m'.bytesAt ptr = encode (m.bytesAt data) ∧ m.Keeps m.freePtr m') ∧
    (2 ^ 64 ≤ m.freePtr + footprint (m.lengthAt data) →
      encodeMemory gas m data = .error (.panic 0x41)) := by
  obtain ⟨hok, hpanic⟩ := Base64.encodeMemory_spec hdata hgas
  by_cases hfirst : m.freePtr + Base64.footprint (m.lengthAt data) < 2 ^ 64
  swap
  · rw [footprint]
    refine ⟨fun hroom => by omega, fun _ => ?_⟩
    rw [encodeMemory, hpanic (by omega), error_bind]
  obtain ⟨m₁, b64, hm₁, hle, ⟨habove, hbelow⟩, hfree, hbytes, hkeeps⟩ := hok hfirst
  have hlow : 0x60 ≤ m₁.freePtr := by omega
  have hlen₁ : m₁.lengthAt b64 = (Base64.encode (m.bytesAt data)).length := by
    rw [← hbytes, Memory.length_bytesAt]
  have htrail := trailingEquals_le (Base64.encode (m.bytesAt data))
  -- the length of the text without its padding
  have htext : (Base64.encode (m.bytesAt data)).length - trailingEquals (Base64.encode
      (m.bytesAt data)) = (4 * m.lengthAt data + 2) / 3 := by
    rw [← Memory.length_bytesAt, ← length_encode, encode_eq_map_replace, List.length_map,
      List.length_take, Nat.min_eq_left (Nat.sub_le _ _)]
  have hstart : ∀ r, (m₁.newBytes ((4 * m.lengthAt data + 2) / 3) >>= fun x => do
      let m ← copyLoop b64 x.2 0 ((4 * m.lengthAt data + 2) / 3) x.1
      .ok (m, x.2)) = r → encodeMemory gas m data = r := by
    rintro r rfl
    rw [encodeMemory, hm₁, ok_bind]
    dsimp only
    rw [equalsCount_eq_ok, ok_bind, hbytes, hlen₁, checkedSub_of_le htrail, ok_bind, htext]
  have hprint : m.freePtr + footprint (m.lengthAt data)
      = m₁.freePtr + 32 + Memory.roundUp32 ((4 * m.lengthAt data + 2) / 3) := by
    rw [footprint, hfree]
    omega
  rw [hprint]
  refine ⟨fun hroom => ?_, fun hfull => hstart _ ?_⟩
  swap
  · rw [Memory.newBytes_eq_panic hfull, error_bind]
  obtain ⟨m₂, hm₂, hlen₂, hfree₂, hkeeps₂⟩ := Memory.newBytes_eq_ok hlow hroom
  have hround := Memory.le_roundUp32 ((4 * m.lengthAt data + 2) / 3)
  obtain ⟨hlenb, hbytesb⟩ := hkeeps₂.bytesAt_eq habove hbelow
  obtain ⟨m₃, hm₃, hagree, hread⟩ := copyLoop_spec ((4 * m.lengthAt data + 2) / 3) 0 m₂ habove
    (by omega : b64 + 32 + m₂.lengthAt b64 ≤ m₁.freePtr) (by omega) (by omega)
  have hlen₃ : m₃.lengthAt m₁.freePtr = (4 * m.lengthAt data + 2) / 3 := by
    rw [Memory.lengthAt, hagree.mload_eq le_rfl]
    exact hlen₂
  have hfree₃ := (hagree.freePtr_eq (by omega)).trans hfree₂
  refine ⟨m₃, m₁.freePtr, hstart _ ?_, by omega, ⟨hlow, by omega⟩, hfree₃, ?_, ?_⟩
  · rw [hm₂, ok_bind]
    dsimp only
    rw [hm₃, ok_bind]
  · have hnil : m₂.read (m₁.freePtr + 32) 0 = [] := rfl
    rw [Nat.zero_add, hbytesb, hbytes, List.drop_zero, hnil, List.nil_append] at hread
    rw [Memory.bytesAt, hlen₃, hread, encode_eq_map_replace, htext]
  · exact hkeeps.trans ((hkeeps₂.mono (by omega)).trans (hagree.mono (by omega)).keeps)

/-- A memory with four bytes at `0x80`, free from `0xc0` on, and full of ones after the four
bytes. -/
def dirty : Memory := fun j =>
  if j = 0x5f then 0xc0 else if j = 0x9f then 4 else if j < 0xa0 then 0
  else if j < 0xa4 then (ascii "hi?>").getD (j - 0xa0) 0 else 0xff

/-- What stands after the input does not get into the text. -/
theorem encodeMemory_dirty : ∃ m' ptr, encodeMemory 5 dirty 0x80 = .ok (m', ptr) ∧
    m'.bytesAt ptr = ascii "aGk_Pg" := by
  have hlen : dirty.lengthAt 0x80 = 4 := by decide
  have hfree : dirty.freePtr = 0xc0 := by decide
  have htext : encode (dirty.bytesAt 0x80) = ascii "aGk_Pg" := by decide
  obtain ⟨m', ptr, hm', -, -, -, hbytes, -⟩ := (encodeMemory_refines 5 dirty 0x80
    ⟨by decide, by rw [hlen, hfree]; decide⟩ (by rw [hlen]; decide)).1 (by rw [hlen, hfree]; decide)
  exact ⟨m', ptr, hm', hbytes.trans htext⟩

end Enclave.Base64URL
