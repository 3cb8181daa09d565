import Enclave.Evm.Word
import Mathlib.Data.List.Forall2

/-!
# The contract ABI

`abiEncode` is `abi.encode`: one 32-byte head for each argument, in order, then the tails of the
dynamic ones.  A static argument's head is its word; a `bytes` argument's head is the offset of its
tail, and its tail is its length followed by its bytes, zero-padded to a multiple of 32.
`abiEncode_injective` says that the encoding determines the arguments once their kinds are fixed.

The decoders read one head each, at a byte offset.  They check what the ABI decoder checks: that
the word lies inside the data, and that the bits above the type's width are zero.
-/

namespace Enclave

/-! ### Encoding -/

/-- An argument of `abi.encode`: a static value, already widened to a word, or a `bytes` value. -/
inductive AbiValue where
  | word (w : Word)
  | bytes (b : Bytes)
  deriving DecidableEq, Repr

/-- `b`, zero-padded on the right to a multiple of 32 bytes. -/
def pad32 (b : Bytes) : Bytes := b ++ List.replicate ((32 - b.length % 32) % 32) 0

/-- What an argument adds after the heads. -/
def abiTail : AbiValue → Bytes
  | .word _ => []
  | .bytes b => toBytesBE 32 b.length ++ pad32 b

/-- The heads; `off` is where the tail of the next dynamic argument starts. -/
def abiHeads (off : ℕ) : List AbiValue → Bytes
  | [] => []
  | .word w :: vs => w.toBytes ++ abiHeads off vs
  | .bytes b :: vs => toBytesBE 32 off ++ abiHeads (off + (abiTail (.bytes b)).length) vs

/-- `abi.encode(vs)`. -/
def abiEncode (vs : List AbiValue) : Bytes :=
  abiHeads (32 * vs.length) vs ++ vs.flatMap abiTail

/-- The two arguments have the same ABI type, and their lengths fit the length word. -/
def AbiValue.SameKind : AbiValue → AbiValue → Prop
  | .word _, .word _ => True
  | .bytes b, .bytes c => b.length < 256 ^ 32 ∧ c.length < 256 ^ 32
  | _, _ => False

theorem length_abiHeads (off : ℕ) (vs : List AbiValue) :
    (abiHeads off vs).length = 32 * vs.length := by
  induction vs generalizing off with
  | nil => rfl
  | cons v vs ih =>
    cases v <;> rw [abiHeads, List.length_append, ih, List.length_cons] <;> simp <;> omega

theorem flatMap_abiTail_words (ws : List Word) : (ws.map AbiValue.word).flatMap abiTail = [] := by
  rw [List.flatMap_map, List.flatMap_eq_nil_iff]
  exact fun _ _ => rfl

theorem length_abiEncode_of_words (ws : List Word) :
    (abiEncode (ws.map .word)).length = 32 * ws.length := by
  rw [abiEncode, flatMap_abiTail_words, List.append_nil, length_abiHeads, List.length_map]

/-- Two length-prefixed strings at the front of equal buffers are equal. -/
theorem abiTail_append_inj {b c as bs : Bytes} (hb : b.length < 256 ^ 32) (hc : c.length < 256 ^ 32)
    (h : abiTail (.bytes b) ++ as = abiTail (.bytes c) ++ bs) : b = c ∧ as = bs := by
  simp only [abiTail, pad32, List.append_assoc] at h
  obtain ⟨hlen, hrest⟩ := List.append_inj h (by simp)
  have hbc : b.length = c.length := toBytesBE_inj hb hc hlen
  obtain ⟨hbytes, hpad⟩ := List.append_inj hrest hbc
  rw [hbc] at hpad
  exact ⟨hbytes, List.append_cancel_left hpad⟩

theorem abi_inj_of_heads_tails {vs ws : List AbiValue} (hk : List.Forall₂ AbiValue.SameKind vs ws) :
    ∀ {i j : ℕ}, abiHeads i vs = abiHeads j ws → vs.flatMap abiTail = ws.flatMap abiTail →
      vs = ws := by
  induction hk with
  | nil => intros; rfl
  | @cons v w vs ws hvw _ ih =>
    intro i j hheads htails
    rw [List.flatMap_cons, List.flatMap_cons] at htails
    match v, w, hvw with
    | .word x, .word y, _ =>
      obtain ⟨hxy, hheads⟩ := List.append_inj hheads (by simp)
      rw [Word.toBytes_injective hxy, ih hheads htails]
    | .bytes b, .bytes c, ⟨hb, hc⟩ =>
      -- the heads hold only the offsets here; the bytes are compared through the tails
      obtain ⟨-, hheads⟩ := List.append_inj hheads (by simp)
      obtain ⟨hbc, htails⟩ := abiTail_append_inj hb hc htails
      rw [hbc, ih hheads htails]

/-- **Injectivity of `abi.encode`** on argument lists of one kind. -/
theorem abiEncode_injective {vs ws : List AbiValue} (hk : List.Forall₂ AbiValue.SameKind vs ws)
    (h : abiEncode vs = abiEncode ws) : vs = ws := by
  have hlen : (abiHeads (32 * vs.length) vs).length = (abiHeads (32 * ws.length) ws).length := by
    rw [length_abiHeads, length_abiHeads, hk.length_eq]
  obtain ⟨hheads, htails⟩ := List.append_inj h hlen
  exact abi_inj_of_heads_tails hk hheads htails

/-! ### Decoding -/

/-- `bs[i:j]` of a `bytes calldata`; bounds out of range revert. -/
def calldataSlice (bs : Bytes) (i j : ℕ) : Result Bytes :=
  match slice bs i j with
  | some cs => .ok cs
  | none => .error .empty

theorem calldataSlice_eq_ok {bs cs : Bytes} {i j : ℕ} :
    calldataSlice bs i j = .ok cs ↔ slice bs i j = some cs := by
  unfold calldataSlice
  cases slice bs i j <;> simp

theorem calldataSlice_append {as bs cs : Bytes} {i j : ℕ} (hi : as.length = i)
    (hj : as.length + bs.length = j) : calldataSlice (as ++ (bs ++ cs)) i j = .ok bs :=
  calldataSlice_eq_ok.mpr (slice_append hi hj)

/-- The word at byte offset `i`. -/
def abiDecodeWord (bs : Bytes) (i : ℕ) : Result Word :=
  if i + 32 ≤ bs.length then .ok (Word.ofBytes ((bs.drop i).take 32)) else .error .empty

/-- A value of `k` bits at byte offset `i`: `uint48`, `address` and `bool` for `k = 48, 160, 1`. -/
def abiDecodeBits (k : ℕ) (bs : Bytes) (i : ℕ) : Result (BitVec k) := do
  let w ← abiDecodeWord bs i
  if w.toNat < 2 ^ k then .ok (BitVec.ofNat k w.toNat) else .error .empty

def abiDecodeUint48 (bs : Bytes) (i : ℕ) : Result Uint48 := abiDecodeBits 48 bs i

def abiDecodeAddress (bs : Bytes) (i : ℕ) : Result Address := abiDecodeBits 160 bs i

def abiDecodeBool (bs : Bytes) (i : ℕ) : Result Bool := do
  let v ← abiDecodeBits 1 bs i
  .ok (v == 1)

/-- The value of the word at a byte offset, in data that is long enough. -/
def wordAt (bs : Bytes) (i : ℕ) : ℕ := (Word.ofBytes ((bs.drop i).take 32)).toNat

theorem abiDecodeWord_eq_ok {bs : Bytes} {i : ℕ} {w : Word} :
    abiDecodeWord bs i = .ok w ↔ i + 32 ≤ bs.length ∧ w.toNat = wordAt bs i := by
  unfold abiDecodeWord
  split_ifs with h
  · rw [Word.ok_eq_ok_iff rfl]
    exact ⟨fun hw => ⟨h, hw⟩, fun hw => hw.2⟩
  · exact ⟨nofun, fun hw => absurd hw.1 h⟩

theorem abiDecodeWord_of_length_lt {bs : Bytes} {i : ℕ} (h : bs.length < i + 32) :
    abiDecodeWord bs i = .error .empty := if_neg (by omega)

theorem abiDecodeWord_of_append {as bs cs : Bytes} {i : ℕ} (hi : as.length = i)
    (hb : bs.length = 32) : abiDecodeWord (as ++ (bs ++ cs)) i = .ok (Word.ofBytes bs) := by
  subst hi
  unfold abiDecodeWord
  rw [if_pos (by simp only [List.length_append]; omega), List.drop_left, ← hb, List.take_left]

theorem abiEncode_words (ws : List Word) :
    abiEncode (ws.map .word) = ws.flatMap Word.toBytes := by
  have hheads : ∀ off, abiHeads off (ws.map .word) = ws.flatMap Word.toBytes := by
    intro off
    induction ws with
    | nil => rfl
    | cons w ws ih => rw [List.map_cons, abiHeads, ih, List.flatMap_cons]
  rw [abiEncode, hheads, flatMap_abiTail_words, List.append_nil]

/-- Encoded words are read back one by one. -/
theorem abiDecodeWord_words (ws : List Word) (i : ℕ) (h : i < ws.length) :
    abiDecodeWord (abiEncode (ws.map .word)) (32 * i) = .ok ws[i] := by
  have hsplit : ws.flatMap Word.toBytes = (ws.take i).flatMap Word.toBytes ++
      ((ws[i]).toBytes ++ (ws.drop (i + 1)).flatMap Word.toBytes) := by
    rw [← List.flatMap_cons, ← List.flatMap_append, List.getElem_cons_drop, List.take_append_drop]
  have hlen : ((ws.take i).flatMap Word.toBytes).length = 32 * i := by
    rw [← abiEncode_words, length_abiEncode_of_words, List.length_take_of_le h.le]
  rw [abiEncode_words, hsplit, abiDecodeWord_of_append hlen (Word.length_toBytes _),
    Word.ofBytes_toBytes]

theorem abiDecodeBits_toWord {k : ℕ} (hk : k ≤ 256) (v : BitVec k) {as cs : Bytes} {i : ℕ}
    (hi : as.length = i) : abiDecodeBits k (as ++ ((toWord v).toBytes ++ cs)) i = .ok v := by
  rw [abiDecodeBits, abiDecodeWord_of_append hi (Word.length_toBytes _), ok_bind,
    Word.ofBytes_toBytes, toNat_toWord hk, if_pos v.isLt, BitVec.ofNat_toNat,
    BitVec.setWidth_eq]

theorem abiDecodeBits_eq_ok {k : ℕ} {bs : Bytes} {i : ℕ} {v : BitVec k} :
    abiDecodeBits k bs i = .ok v ↔ i + 32 ≤ bs.length ∧ v.toNat = wordAt bs i := by
  simp only [abiDecodeBits, bind_eq_ok, abiDecodeWord_eq_ok]
  constructor
  · rintro ⟨w, ⟨hlen, hw⟩, hv⟩
    split_ifs at hv with hlt
    rw [← Except.ok.inj hv, BitVec.toNat_ofNat, Nat.mod_eq_of_lt hlt]
    exact ⟨hlen, hw⟩
  · rintro ⟨hlen, hv⟩
    refine ⟨Word.ofBytes ((bs.drop i).take 32), ⟨hlen, rfl⟩, ?_⟩
    have hw : (Word.ofBytes ((bs.drop i).take 32)).toNat = v.toNat := hv.symm
    rw [hw, if_pos v.isLt, BitVec.ofNat_toNat, BitVec.setWidth_eq]

theorem wordAt_append {as cs : Bytes} {i : ℕ} (hi : as.length = i) (w : Word) :
    wordAt (as ++ (w.toBytes ++ cs)) i = w.toNat := by
  have hread : abiDecodeWord (as ++ (w.toBytes ++ cs)) i = .ok (Word.ofBytes w.toBytes) :=
    abiDecodeWord_of_append hi (Word.length_toBytes w)
  rw [Word.ofBytes_toBytes] at hread
  exact (abiDecodeWord_eq_ok.mp hread).2.symm

/-- A word of a slice is a word of the whole. -/
theorem wordAt_slice {bs cs : Bytes} {i j k : ℕ} (h : slice bs i j = some cs)
    (hk : k + 32 ≤ j - i) : wordAt cs k = wordAt bs (i + k) := by
  obtain ⟨-, -, rfl⟩ := slice_eq_some h
  rw [wordAt, List.drop_take, List.take_take, List.drop_drop, Nat.min_eq_left (by omega), wordAt]

/-- A value that is read from a word stands there. -/
theorem drop_eq_toBytes_append {k : ℕ} (hk : k ≤ 256) {v : BitVec k} {bs : Bytes} {i : ℕ}
    (hi : i + 32 ≤ bs.length) (hv : v.toNat = wordAt bs i) :
    bs.drop i = (toWord v).toBytes ++ bs.drop (i + 32) := by
  have hword : toWord v = Word.ofBytes ((bs.drop i).take 32) := by
    apply BitVec.eq_of_toNat_eq
    rw [toNat_toWord hk, hv, wordAt]
  have hlen : ((bs.drop i).take 32).length = 32 := by
    rw [List.length_take, List.length_drop]
    omega
  rw [hword, Word.toBytes_ofBytes hlen, ← List.drop_drop, List.take_append_drop]

theorem abiDecodeAddress_encode (a : Address) :
    abiDecodeAddress (abiEncode [.word (toWord a)]) 0 = .ok a := by
  have hbytes : abiEncode [.word (toWord a)] = [] ++ ((toWord a).toBytes ++ []) := by
    rw [List.nil_append, List.append_nil]
    exact (abiEncode_words [toWord a]).trans (List.flatMap_singleton _ _)
  rw [hbytes]
  exact abiDecodeBits_toWord (by decide) a rfl

end Enclave
