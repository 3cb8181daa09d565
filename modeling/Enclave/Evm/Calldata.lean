import Enclave.Evm.Abi

/-!
# Dynamic arguments

The decoders that the compiler emits for arguments of dynamic type.  A `bytes` value is checked as a
whole when it is decoded; the elements of an array in calldata are checked one by one, when the code
reaches them.
-/

namespace Enclave

/-- The check that precedes a decoder: `n` bytes of head are there. -/
def requireHead (bs : Bytes) (n : ℕ) : Result Unit :=
  if bs.length < n then .error .empty else .ok ()

/-- How a value of `size` bytes that is not there is refused when it is copied to memory.  It is
allocated first, behind a word for its length, and the allocation panics if the free memory pointer,
which is `0x80` before it, does not stay below `2 ^ 64`. -/
def missingInMemory (size : ℕ) : Revert :=
  if 2 ^ 64 ≤ 0x80 + 32 + 32 * ((size + 31) / 32) then .panic 0x41 else .empty

/-- The `bytes` or `string` whose offset stands at `head`; one that is not there is refused by
`missing`. -/
def abiDecodeBytes (missing : ℕ → Revert) (bs : Bytes) (head : ℕ) : Result Bytes := do
  let offset ← abiDecodeWord bs head
  if 2 ^ 64 ≤ offset.toNat then .error .empty else
    let length ← abiDecodeWord bs offset.toNat
    if 2 ^ 64 ≤ length.toNat then .error (missing length.toNat) else
      match slice bs (offset.toNat + 32) (offset.toNat + 32 + length.toNat) with
      | some value => .ok value
      | none => .error (missing length.toNat)

/-- `bytes memory`. -/
def abiDecodeBytesMemory (bs : Bytes) (head : ℕ) : Result Bytes :=
  abiDecodeBytes missingInMemory bs head

/-- `bytes calldata`. -/
def abiDecodeBytesCalldata (bs : Bytes) (head : ℕ) : Result Bytes :=
  abiDecodeBytes (fun _ => .empty) bs head

/-- The `bytes` or `string` whose offset stands at `head` lies inside the data. -/
structure WellPlaced (bs : Bytes) (head : ℕ) : Prop where
  offset_lt : wordAt bs head < 2 ^ 64
  length_lt : wordAt bs (wordAt bs head) < 2 ^ 64
  inside : wordAt bs head + 32 + wordAt bs (wordAt bs head) ≤ bs.length

/-- The decoder accepts what lies inside the data. -/
theorem abiDecodeBytes_ok_iff {missing : ℕ → Revert} {bs : Bytes} {head : ℕ} :
    (∃ v, abiDecodeBytes missing bs head = .ok v) ↔ head + 32 ≤ bs.length ∧ WellPlaced bs head := by
  unfold abiDecodeBytes
  constructor
  · rintro ⟨v, h⟩
    obtain ⟨offset, hoffset, h⟩ := bind_eq_ok.mp h
    obtain ⟨hhead, hoffset⟩ := abiDecodeWord_eq_ok.mp hoffset
    split_ifs at h with hlarge
    obtain ⟨length, hlength, h⟩ := bind_eq_ok.mp h
    obtain ⟨-, hlength⟩ := abiDecodeWord_eq_ok.mp hlength
    split_ifs at h with hlong
    cases hslice : slice bs (offset.toNat + 32) (offset.toNat + 32 + length.toNat) with
    | none =>
      rw [hslice] at h
      cases h
    | some value =>
    obtain ⟨-, hinside, -⟩ := slice_eq_some hslice
    rw [hlength, hoffset] at hinside
    rw [hoffset] at hlarge
    rw [hlength, hoffset] at hlong
    exact ⟨hhead, not_le.mp hlarge, not_le.mp hlong, hinside⟩
  · rintro ⟨hhead, hlarge, hlong, hinside⟩
    obtain ⟨offset, hoffset⟩ : ∃ w : Word, w.toNat = wordAt bs head := ⟨_, rfl⟩
    rw [← hoffset] at hlarge hlong hinside
    obtain ⟨length, hlength⟩ : ∃ w : Word, w.toNat = wordAt bs offset.toNat := ⟨_, rfl⟩
    rw [← hlength] at hlong hinside
    have hslice : slice bs (offset.toNat + 32) (offset.toNat + 32 + length.toNat) = some _ :=
      if_pos ⟨Nat.le_add_right _ _, hinside⟩
    rw [abiDecodeWord_eq_ok.mpr ⟨hhead, hoffset⟩, ok_bind, if_neg (not_le.mpr hlarge),
      abiDecodeWord_eq_ok.mpr ⟨by omega, hlength⟩, ok_bind, if_neg (not_le.mpr hlong), hslice]
    exact ⟨_, rfl⟩

/-- An array in calldata whose offset stands at `head`: where its elements start, and how many there
are. -/
def abiDecodeArray (bs : Bytes) (head : ℕ) : Result (ℕ × ℕ) := do
  let offset ← abiDecodeWord bs head
  if 2 ^ 64 ≤ offset.toNat then .error .empty else
    let length ← abiDecodeWord bs offset.toNat
    if 2 ^ 64 ≤ length.toNat then .error .empty
    else if bs.length < offset.toNat + 32 + 32 * length.toNat then .error .empty
    else .ok (offset.toNat + 32, length.toNat)

/-- `bytes32[] memory` whose offset stands at `head`. -/
def abiDecodeWordsMemory (bs : Bytes) (head : ℕ) : Result (List Word) := do
  let offset ← abiDecodeWord bs head
  if 2 ^ 64 ≤ offset.toNat then .error .empty else
    let length ← abiDecodeWord bs offset.toNat
    let start := offset.toNat + 32
    if 2 ^ 64 ≤ 32 * length.toNat ∨ bs.length < start + 32 * length.toNat then
      .error (missingInMemory (32 * length.toNat))
    else .ok ((List.range length.toNat).map fun i =>
      Word.ofBytes ((bs.drop (start + 32 * i)).take 32))

/-- `n` bytes from offset `i`, with zeroes after the end. -/
def calldataBytes (cd : Bytes) (i n : ℕ) : Bytes :=
  let bs := (cd.drop i).take n
  bs ++ List.replicate (n - bs.length) 0

/-- The `CALLDATALOAD` opcode. -/
def calldataload (cd : Bytes) (i : ℕ) : Word := Word.ofBytes (calldataBytes cd i 32)

/-- Loading a word that stands in the calldata. -/
theorem calldataload_append {as bs : Bytes} (w : Word) {i : ℕ} (h : as.length = i) :
    calldataload (as ++ (w.toBytes ++ bs)) i = w := by
  have htake : (w.toBytes ++ bs).take 32 = w.toBytes := List.take_left' w.length_toBytes
  rw [calldataload, calldataBytes, List.drop_left' h, htake, w.length_toBytes, Nat.sub_self,
    List.replicate_zero, List.append_nil, Word.ofBytes_toBytes]

/-- The `bytes` behind the relative offset at `ptr`, counted from `base`.  The comparisons are
signed, so that an offset may also lead backwards. -/
def calldataTail (cd : Bytes) (base ptr : ℕ) : Result Bytes :=
  let rel := calldataload cd ptr
  if rel.toInt < (cd.length : ℤ) - base - 31 then
    let addr : Word := BitVec.ofNat 256 base + rel
    let length := calldataload cd addr.toNat
    let start : Word := addr + 32
    if 2 ^ 64 ≤ length.toNat then .error .empty
    else if (cd.length : ℤ) - length.toNat < start.toInt then .error .empty
    else .ok (calldataBytes cd start.toNat length.toNat)
  else .error .empty

end Enclave
