import Enclave.Evm.Calldata

/-!
# What is encoded is decoded

A tuple is encoded as the heads of its parts followed by their tails (`encodeParts`); `abiEncode` is
the case of words and byte strings, and arrays are parts as well.  The decoders read a part back
from behind its head, also where the encoding is followed by other bytes (`decode…_encodeParts`).
The one condition is that the data is shorter than `2 ^ 64` bytes, which every offset in it then is.
-/

namespace Enclave

/-! ### Tuples -/

/-- A part of a tuple: a word in place, or a tail that its head points to. -/
inductive Part
  | static (w : Word)
  | dynamic (tail : Bytes)

def Part.tail : Part → Bytes
  | static _ => []
  | dynamic tail => tail

/-- The heads; `off` is where the next tail starts. -/
def partHeads (off : ℕ) : List Part → Bytes
  | [] => []
  | .static w :: ps => w.toBytes ++ partHeads off ps
  | .dynamic tail :: ps => toBytesBE 32 off ++ partHeads (off + tail.length) ps

/-- The encoding of a tuple. -/
def encodeParts (ps : List Part) : Bytes := partHeads (32 * ps.length) ps ++ ps.flatMap Part.tail

/-- A byte string. -/
def bytesPart (b : Bytes) : Part := .dynamic (abiTail (.bytes b))

/-- An array of words: the number of its elements and the elements. -/
def wordsPart (ws : List Word) : Part :=
  .dynamic (toBytesBE 32 ws.length ++ ws.flatMap Word.toBytes)

/-- An array of byte strings: the number of its elements and their encoding as a tuple. -/
def bytesArrayPart (bs : List Bytes) : Part :=
  .dynamic (toBytesBE 32 bs.length ++ encodeParts (bs.map bytesPart))

def AbiValue.part : AbiValue → Part
  | .word w => .static w
  | .bytes b => bytesPart b

theorem length_partHeads (off : ℕ) (ps : List Part) :
    (partHeads off ps).length = 32 * ps.length := by
  induction ps generalizing off with
  | nil => rfl
  | cons p ps ih =>
    cases p with
    | static w =>
      rw [partHeads, List.length_append, ih, Word.length_toBytes, List.length_cons]
      omega
    | dynamic tail =>
      rw [partHeads, List.length_append, ih, length_toBytesBE, List.length_cons]
      omega

theorem abiEncode_eq_encodeParts (vs : List AbiValue) :
    abiEncode vs = encodeParts (vs.map AbiValue.part) := by
  have hheads : ∀ off, abiHeads off vs = partHeads off (vs.map AbiValue.part) := by
    induction vs with
    | nil => exact fun _ => rfl
    | cons v vs ih =>
      intro off
      cases v with
      | word w => rw [abiHeads, ih]; rfl
      | bytes b => rw [abiHeads, ih]; rfl
  have htails : vs.flatMap abiTail = (vs.map AbiValue.part).flatMap Part.tail := by
    rw [List.flatMap_map]
    congr 1
    funext v
    cases v <;> rfl
  rw [abiEncode, encodeParts, hheads, htails, List.length_map]

theorem length_encodeParts (ps : List Part) :
    (encodeParts ps).length = 32 * ps.length + (ps.flatMap Part.tail).length := by
  rw [encodeParts, List.length_append, length_partHeads]

/-- The heads of a tuple are all there. -/
theorem requireHead_encodeParts (ps : List Part) (rest : Bytes) {n : ℕ} (hn : n ≤ 32 * ps.length) :
    requireHead (encodeParts ps ++ rest) n = .ok () := by
  rw [requireHead, if_neg]
  rw [List.length_append, length_encodeParts]
  omega

theorem partHeads_append (off : ℕ) (ps qs : List Part) :
    partHeads off (ps ++ qs)
      = partHeads off ps ++ partHeads (off + (ps.flatMap Part.tail).length) qs := by
  induction ps generalizing off with
  | nil => rfl
  | cons p ps ih =>
    cases p with
    | static w =>
      rw [List.cons_append, partHeads, ih, partHeads, List.append_assoc]
      rfl
    | dynamic tail =>
      rw [List.cons_append, partHeads, ih, partHeads, List.append_assoc, List.flatMap_cons,
        List.length_append, Part.tail, Nat.add_assoc]

/-! ### Heads and tails -/

variable {ps : List Part} {i : ℕ}

theorem split_of_getElem? {p : Part} (h : ps[i]? = some p) :
    ∃ before after, ps = before ++ p :: after ∧ before.length = i := by
  obtain ⟨hi, rfl⟩ := List.getElem?_eq_some_iff.mp h
  refine ⟨ps.take i, ps.drop (i + 1), ?_, List.length_take_of_le hi.le⟩
  rw [List.getElem_cons_drop, List.take_append_drop]

/-- A word of the tuple is read in place. -/
theorem decodeWord_encodeParts {w : Word} (h : ps[i]? = some (.static w)) (rest : Bytes) :
    abiDecodeWord (encodeParts ps ++ rest) (32 * i) = .ok w := by
  obtain ⟨before, after, rfl, rfl⟩ := split_of_getElem? h
  obtain ⟨n, hn⟩ : ∃ n, n = 32 * (before ++ .static w :: after).length := ⟨_, rfl⟩
  have hsplit : encodeParts (before ++ .static w :: after) ++ rest
      = partHeads n before ++ (w.toBytes ++ (partHeads (n + (before.flatMap Part.tail).length)
        after ++ ((before ++ .static w :: after).flatMap Part.tail ++ rest))) := by
    rw [encodeParts, partHeads_append, partHeads, hn]
    simp only [List.append_assoc]
  rw [hsplit, abiDecodeWord_of_append (length_partHeads _ _) (Word.length_toBytes w),
    Word.ofBytes_toBytes]

/-- A narrower value is read where it stands as a word. -/
theorem abiDecodeBits_of_decode {k : ℕ} (hk : k ≤ 256) {v : BitVec k} {bs : Bytes} {j : ℕ}
    (h : abiDecodeWord bs j = .ok (toWord v)) : abiDecodeBits k bs j = .ok v := by
  rw [abiDecodeBits, h, ok_bind, toNat_toWord hk, if_pos v.isLt, BitVec.ofNat_toNat,
    BitVec.setWidth_eq]

theorem decodeBits_encodeParts {k : ℕ} (hk : k ≤ 256) {v : BitVec k}
    (h : ps[i]? = some (.static (toWord v))) (rest : Bytes) :
    abiDecodeBits k (encodeParts ps ++ rest) (32 * i) = .ok v :=
  abiDecodeBits_of_decode hk (decodeWord_encodeParts h rest)

theorem ofBytes_toBytesBE (n : ℕ) : Word.ofBytes (toBytesBE 32 n) = BitVec.ofNat 256 n := by
  apply BitVec.eq_of_toNat_eq
  rw [Word.toNat_ofBytes (length_toBytesBE 32 n), ofBytesBE_toBytesBE, BitVec.toNat_ofNat]
  rfl

/-- The head of a dynamic part holds the offset of its tail. -/
theorem decodeOffset_encodeParts {tail : Bytes} (h : ps[i]? = some (.dynamic tail)) :
    ∃ front back, encodeParts ps = front ++ (tail ++ back) ∧ ∀ rest,
      abiDecodeWord (encodeParts ps ++ rest) (32 * i) = .ok (BitVec.ofNat 256 front.length) := by
  obtain ⟨before, after, rfl, rfl⟩ := split_of_getElem? h
  obtain ⟨n, hn⟩ : ∃ n, n = 32 * (before ++ .dynamic tail :: after).length := ⟨_, rfl⟩
  refine ⟨partHeads n (before ++ .dynamic tail :: after) ++ before.flatMap Part.tail,
    after.flatMap Part.tail, ?_, fun rest => ?_⟩
  · rw [encodeParts, List.flatMap_append, List.flatMap_cons, Part.tail, hn, List.append_assoc]
  · have hsplit : encodeParts (before ++ .dynamic tail :: after) ++ rest
        = partHeads n before ++ (toBytesBE 32 (n + (before.flatMap Part.tail).length) ++
          (partHeads (n + (before.flatMap Part.tail).length + tail.length) after ++
            ((before ++ .dynamic tail :: after).flatMap Part.tail ++ rest))) := by
      rw [encodeParts, partHeads_append, partHeads, hn]
      simp only [List.append_assoc]
    rw [hsplit, abiDecodeWord_of_append (length_partHeads _ _) (length_toBytesBE 32 _),
      ofBytes_toBytesBE, List.length_append, length_partHeads, hn]

theorem toNat_ofNat_of_lt {n : ℕ} (h : n < 2 ^ 64) : (BitVec.ofNat 256 n : Word).toNat = n := by
  rw [BitVec.toNat_ofNat]
  omega

/-- The number at the start of a tail, as the decoders read it. -/
theorem decodeWord_tail {front back : Bytes} {n : ℕ} (h : front.length < 2 ^ 64) :
    abiDecodeWord (front ++ (toBytesBE 32 n ++ back)) (BitVec.ofNat 256 front.length : Word).toNat
      = .ok (BitVec.ofNat 256 n) := by
  rw [toNat_ofNat_of_lt h, abiDecodeWord_of_append rfl (length_toBytesBE 32 n), ofBytes_toBytesBE]

theorem length_flatMap_toBytes (ws : List Word) :
    (ws.flatMap Word.toBytes).length = 32 * ws.length := by
  rw [← abiEncode_words, length_abiEncode_of_words]

/-- The words of an array lie one after the other. -/
theorem decodeWord_flatMap (front : Bytes) {ws : List Word} (back : Bytes) {j : ℕ}
    (hj : j < ws.length) :
    abiDecodeWord (front ++ (ws.flatMap Word.toBytes ++ back)) (front.length + 32 * j)
      = .ok ws[j] := by
  have hsplit : ws.flatMap Word.toBytes = (ws.take j).flatMap Word.toBytes ++
      ((ws[j]).toBytes ++ (ws.drop (j + 1)).flatMap Word.toBytes) := by
    rw [← List.flatMap_cons, ← List.flatMap_append, List.getElem_cons_drop, List.take_append_drop]
  have hlen : (front ++ (ws.take j).flatMap Word.toBytes).length = front.length + 32 * j := by
    rw [List.length_append, length_flatMap_toBytes, List.length_take_of_le hj.le]
  have happend : front ++ (ws.flatMap Word.toBytes ++ back)
      = front ++ (ws.take j).flatMap Word.toBytes ++ ((ws[j]).toBytes ++
        ((ws.drop (j + 1)).flatMap Word.toBytes ++ back)) := by
    rw [hsplit]
    simp only [List.append_assoc]
  rw [happend, abiDecodeWord_of_append hlen (Word.length_toBytes _), Word.ofBytes_toBytes]

section Decode

variable (hlen : (encodeParts ps).length < 2 ^ 64)
include hlen

/-- A byte string of the tuple is read back. -/
theorem decodeBytes_encodeParts {b : Bytes} (h : ps[i]? = some (bytesPart b))
    {missing : ℕ → Revert} (rest : Bytes) :
    abiDecodeBytes missing (encodeParts ps ++ rest) (32 * i) = .ok b := by
  obtain ⟨front, back, hsplit, hoffset⟩ := decodeOffset_encodeParts h
  have hfront := congrArg List.length hsplit
  simp only [List.length_append, abiTail, pad32, length_toBytesBE] at hfront
  have htail : encodeParts ps ++ rest
      = front ++ (toBytesBE 32 b.length ++ (b ++ (List.replicate ((32 - b.length % 32) % 32) 0 ++
        (back ++ rest)))) := by
    rw [hsplit, abiTail, pad32]
    simp only [List.append_assoc]
  have hoffset' := hoffset rest
  rw [htail] at hoffset' ⊢
  rw [abiDecodeBytes, hoffset', ok_bind, if_neg (by rw [toNat_ofNat_of_lt (by omega)]; omega),
    decodeWord_tail (by omega), ok_bind, if_neg (by rw [toNat_ofNat_of_lt (by omega)]; omega),
    toNat_ofNat_of_lt (by omega), toNat_ofNat_of_lt (by omega), ← List.append_assoc,
    slice_append (by rw [List.length_append, length_toBytesBE])
      (by rw [List.length_append, length_toBytesBE])]

/-- An array of the tuple: where its elements start, and how many there are. -/
theorem decodeArray_encodeParts {n : ℕ} {body : Bytes}
    (h : ps[i]? = some (.dynamic (toBytesBE 32 n ++ body))) (hbody : 32 * n ≤ body.length)
    (rest : Bytes) :
    ∃ front back, encodeParts ps ++ rest = front ++ (body ++ back) ∧
      abiDecodeArray (encodeParts ps ++ rest) (32 * i) = .ok (front.length, n) := by
  obtain ⟨front, back, hsplit, hoffset⟩ := decodeOffset_encodeParts h
  have hfront := congrArg List.length hsplit
  simp only [List.length_append, length_toBytesBE] at hfront
  have htail : encodeParts ps ++ rest
      = front ++ (toBytesBE 32 n ++ (body ++ (back ++ rest))) := by
    rw [hsplit]
    simp only [List.append_assoc]
  have htotal := congrArg List.length htail
  simp only [List.length_append, length_toBytesBE] at htotal
  have hoffset' := hoffset rest
  refine ⟨front ++ toBytesBE 32 n, back ++ rest, by rw [htail, List.append_assoc], ?_⟩
  rw [htail] at hoffset' ⊢
  rw [abiDecodeArray, hoffset', ok_bind, if_neg (by rw [toNat_ofNat_of_lt (by omega)]; omega),
    decodeWord_tail (by omega), ok_bind, if_neg (by rw [toNat_ofNat_of_lt (by omega)]; omega),
    toNat_ofNat_of_lt (by omega), toNat_ofNat_of_lt (by omega), if_neg, List.length_append,
    length_toBytesBE]
  simp only [List.length_append, length_toBytesBE]
  omega

/-- An array of words in memory. -/
theorem decodeWordsMemory_encodeParts {ws : List Word} (h : ps[i]? = some (wordsPart ws))
    (rest : Bytes) : abiDecodeWordsMemory (encodeParts ps ++ rest) (32 * i) = .ok ws := by
  obtain ⟨front, back, hsplit, hoffset⟩ := decodeOffset_encodeParts h
  have hfront := congrArg List.length hsplit
  simp only [List.length_append, length_toBytesBE, length_flatMap_toBytes] at hfront
  have htail : encodeParts ps ++ rest
      = front ++ (toBytesBE 32 ws.length ++ (ws.flatMap Word.toBytes ++ (back ++ rest))) := by
    rw [hsplit]
    simp only [List.append_assoc]
  have hoffset' := hoffset rest
  rw [htail] at hoffset' ⊢
  rw [abiDecodeWordsMemory, hoffset', ok_bind,
    if_neg (by rw [toNat_ofNat_of_lt (by omega)]; omega), decodeWord_tail (by omega), ok_bind,
    toNat_ofNat_of_lt (by omega), toNat_ofNat_of_lt (by omega)]
  dsimp only
  rw [if_neg]
  · congr 1
    apply List.ext_getElem (by rw [List.length_map, List.length_range])
    intro j hj hj'
    have hword := decodeWord_flatMap (front ++ toBytesBE 32 ws.length) (back ++ rest) hj'
    rw [List.length_append, length_toBytesBE, List.append_assoc] at hword
    rw [List.getElem_map, List.getElem_range]
    unfold abiDecodeWord at hword
    split_ifs at hword
    exact Except.ok.inj hword
  · simp only [List.length_append, length_toBytesBE, length_flatMap_toBytes]
    omega

end Decode

/-- A tail is shorter than the tuple. -/
theorem length_tail_le {tail : Bytes} (h : ps[i]? = some (.dynamic tail)) :
    tail.length ≤ (encodeParts ps).length := by
  obtain ⟨front, back, hsplit, -⟩ := decodeOffset_encodeParts h
  rw [hsplit, List.length_append, List.length_append]
  omega

theorem length_le_bytesPart {b : Bytes} (h : ps[i]? = some (bytesPart b)) :
    b.length ≤ (encodeParts ps).length := by
  have htail := length_tail_le h
  simp only [abiTail, pad32, List.length_append] at htail
  omega

/-! ### Byte strings in calldata -/

/-- Data that is preceded by other data. -/
theorem abiDecodeWord_shift (front bs : Bytes) (j : ℕ) :
    abiDecodeWord (front ++ bs) (front.length + j) = abiDecodeWord bs j := by
  unfold abiDecodeWord
  rw [List.drop_append, List.drop_eq_nil_of_le (Nat.le_add_right _ _), List.nil_append,
    Nat.add_sub_cancel_left, List.length_append]
  simp only [Nat.add_assoc, Nat.add_le_add_iff_left]

theorem calldataload_of_decode {bs : Bytes} {j : ℕ} {w : Word} (h : abiDecodeWord bs j = .ok w) :
    calldataload bs j = w := by
  unfold abiDecodeWord at h
  split_ifs at h with hj
  have hlen : ((bs.drop j).take 32).length = 32 := by
    rw [List.length_take, List.length_drop]
    omega
  rw [calldataload, calldataBytes, hlen, Nat.sub_self, List.replicate_zero, List.append_nil]
  exact Except.ok.inj h

theorem calldataBytes_append (front b back : Bytes) :
    calldataBytes (front ++ (b ++ back)) front.length b.length = b := by
  rw [calldataBytes, List.drop_left, List.take_left, Nat.sub_self, List.replicate_zero,
    List.append_nil]

theorem toInt_ofNat_of_lt {n : ℕ} (h : n < 2 ^ 64) : (BitVec.ofNat 256 n : Word).toInt = n := by
  rw [BitVec.toInt_eq_toNat_of_lt, toNat_ofNat_of_lt h]
  rw [toNat_ofNat_of_lt h]
  omega

/-- A byte string of a tuple in calldata, behind the relative offset in its head. -/
theorem calldataTail_encodeParts {front back b : Bytes} (h : ps[i]? = some (bytesPart b))
    (hlen : (front ++ (encodeParts ps ++ back)).length < 2 ^ 64) :
    calldataTail (front ++ (encodeParts ps ++ back)) front.length (front.length + 32 * i)
      = .ok b := by
  obtain ⟨front', back', hsplit, hoffset⟩ := decodeOffset_encodeParts h
  have hrel : calldataload (front ++ (encodeParts ps ++ back)) (front.length + 32 * i)
      = BitVec.ofNat 256 front'.length :=
    calldataload_of_decode ((abiDecodeWord_shift _ _ _).trans (hoffset back))
  have htail : front ++ (encodeParts ps ++ back)
      = front ++ front' ++ (toBytesBE 32 b.length ++ (b ++
        (List.replicate ((32 - b.length % 32) % 32) 0 ++ (back' ++ back)))) := by
    rw [hsplit, abiTail, pad32]
    simp only [List.append_assoc]
  have hlen' := congrArg List.length htail
  simp only [List.length_append, length_toBytesBE, List.length_replicate] at hlen hlen'
  have hbound : front.length + front'.length + 32 + b.length < 2 ^ 64 := by omega
  have haddr : (BitVec.ofNat 256 front.length + BitVec.ofNat 256 front'.length : Word)
      = BitVec.ofNat 256 (front.length + front'.length) := (BitVec.ofNat_add _ _).symm
  have hstart : (BitVec.ofNat 256 (front.length + front'.length) + 32 : Word)
      = BitVec.ofNat 256 (front.length + front'.length + 32) := (BitVec.ofNat_add _ 32).symm
  have hload : calldataload (front ++ (encodeParts ps ++ back)) (front.length + front'.length)
      = BitVec.ofNat 256 b.length := by
    apply calldataload_of_decode
    rw [htail, abiDecodeWord_of_append List.length_append (length_toBytesBE 32 _),
      ofBytes_toBytesBE]
  unfold calldataTail
  dsimp only
  rw [hrel, haddr, toNat_ofNat_of_lt (by omega), hload, hstart, toInt_ofNat_of_lt (by omega),
    toInt_ofNat_of_lt (by omega), toNat_ofNat_of_lt (by omega), toNat_ofNat_of_lt (by omega),
    if_pos (by simp only [List.length_append]; omega), if_neg (by omega),
    if_neg (by simp only [List.length_append]; omega), htail, ← List.append_assoc]
  have hread := calldataBytes_append (front ++ front' ++ toBytesBE 32 b.length) b
    (List.replicate ((32 - b.length % 32) % 32) 0 ++ (back' ++ back))
  rw [List.length_append, List.length_append, length_toBytesBE] at hread
  rw [hread]

/-! ### Arrays in calldata -/

/-- An array of words, with its elements. -/
theorem decodeArray_wordsPart {ws : List Word} (h : ps[i]? = some (wordsPart ws))
    (hlen : (encodeParts ps).length < 2 ^ 64) (rest : Bytes) :
    ∃ start, abiDecodeArray (encodeParts ps ++ rest) (32 * i) = .ok (start, ws.length) ∧
      ∀ j (hj : j < ws.length),
        abiDecodeWord (encodeParts ps ++ rest) (start + 32 * j) = .ok ws[j] := by
  obtain ⟨front, back, hsplit, hdecode⟩ := decodeArray_encodeParts hlen h
    (length_flatMap_toBytes ws).ge rest
  refine ⟨front.length, hdecode, fun j hj => ?_⟩
  rw [hsplit]
  exact decodeWord_flatMap front back hj

/-- An array of byte strings in calldata, with its elements. -/
theorem decodeArray_bytesArrayPart {bs : List Bytes} (h : ps[i]? = some (bytesArrayPart bs))
    (front rest : Bytes) (hlen : (front ++ (encodeParts ps ++ rest)).length < 2 ^ 64) :
    ∃ start, abiDecodeArray (encodeParts ps ++ rest) (32 * i) = .ok (start, bs.length) ∧
      ∀ j (hj : j < bs.length),
        calldataTail (front ++ (encodeParts ps ++ rest)) (front.length + start)
          (front.length + start + 32 * j) = .ok bs[j] := by
  have hlen' : (encodeParts ps).length < 2 ^ 64 := by
    simp only [List.length_append] at hlen
    omega
  have hbody : 32 * bs.length ≤ (encodeParts (bs.map bytesPart)).length := by
    rw [length_encodeParts, List.length_map]
    omega
  obtain ⟨before, back, hsplit, hdecode⟩ := decodeArray_encodeParts hlen' h hbody rest
  refine ⟨before.length, hdecode, fun j hj => ?_⟩
  have hget : (bs.map bytesPart)[j]? = some (bytesPart bs[j]) := by
    rw [List.getElem?_map, List.getElem?_eq_getElem hj]
    rfl
  rw [hsplit, ← List.append_assoc] at hlen ⊢
  rw [← List.length_append]
  exact calldataTail_encodeParts hget hlen

end Enclave
