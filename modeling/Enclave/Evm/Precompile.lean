import Enclave.Evm.Abi
import Enclave.Number.PowMod

/-!
# The modular exponentiation precompile

`modexp` is the contract at address `5`.  Its input is three lengths, one word each, followed by the
base, the exponent and the modulus in that many bytes; input that runs out is read as zeros.  Its
output is the power in as many bytes as the modulus has, and a modulus of zero gives zero.
`modexp_words` and `modexp_ofNat` evaluate it on three 32-byte operands.
-/

namespace Enclave

/-- The number in the `k` bytes at offset `i`, the input continued by zeros. -/
def readNumber (input : Bytes) (i k : ℕ) : ℕ :=
  ofBytesBE (((input.drop i).take k).rightpad k 0)

/-- The precompile at address `5`; it never fails. -/
def modexp (input : Bytes) : Option Bytes :=
  let lenB := readNumber input 0 32
  let lenE := readNumber input 32 32
  let lenM := readNumber input 64 32
  let m := readNumber input (96 + lenB + lenE) lenM
  some (toBytesBE lenM (if m = 0 then 0 else
    powMod (readNumber input 96 lenB) (readNumber input (96 + lenB) lenE) m))

theorem readNumber_append {as bs cs : Bytes} {i k : ℕ} (hi : as.length = i) (hk : bs.length = k) :
    readNumber (as ++ (bs ++ cs)) i k = ofBytesBE bs := by
  subst hi hk
  rw [readNumber, List.drop_left, List.take_left, List.rightpad, Nat.sub_self, List.replicate_zero,
    List.append_nil]

/-- The precompile on three words. -/
theorem modexp_words (u e m : Word) (hm : m ≠ 0) :
    modexp (abiEncode [.word 32, .word 32, .word 32, .word u, .word e, .word m])
      = some (toBytesBE 32 (u.toNat ^ e.toNat % m.toNat)) := by
  have hm' : m.toNat ≠ 0 := fun h => hm (BitVec.eq_of_toNat_eq h)
  have h32 : ofBytesBE (Word.toBytes 32) = 32 := by decide
  have hval : ∀ w : Word, ofBytesBE w.toBytes = w.toNat := fun w =>
    ofBytesBE_toBytesBE_of_lt w.toNat_lt_pow
  set input := abiEncode [.word 32, .word 32, .word 32, .word u, .word e, .word m] with hinput
  have hcat : input = Word.toBytes 32 ++ (Word.toBytes 32 ++ (Word.toBytes 32 ++
      (u.toBytes ++ (e.toBytes ++ (m.toBytes ++ []))))) := by
    simp [hinput, abiEncode, abiHeads, abiTail]
  have hB : readNumber input 0 32 = 32 := by
    rw [hcat, ← List.nil_append (Word.toBytes 32 ++ _), readNumber_append List.length_nil
      (Word.length_toBytes 32), h32]
  have hE : readNumber input 32 32 = 32 := by
    rw [hcat, readNumber_append (by simp) (by simp), h32]
  have hM : readNumber input 64 32 = 32 := by
    rw [hcat, ← List.append_assoc, readNumber_append (by simp) (by simp), h32]
  have hb : readNumber input 96 32 = u.toNat := by
    rw [hcat, ← List.append_assoc, ← List.append_assoc, readNumber_append (by simp) (by simp), hval]
  have he : readNumber input 128 32 = e.toNat := by
    rw [hcat, ← List.append_assoc, ← List.append_assoc, ← List.append_assoc,
      readNumber_append (by simp) (by simp), hval]
  have hmod : readNumber input 160 32 = m.toNat := by
    rw [hcat, ← List.append_assoc, ← List.append_assoc, ← List.append_assoc, ← List.append_assoc,
      readNumber_append (by simp) (by simp), hval]
  simp only [modexp, hB, hE, hM, hb, he, hmod]
  rw [if_neg hm', powMod_eq]

/-- The precompile on three numbers that fit in a word. -/
theorem modexp_ofNat {u e m : ℕ} (hu : u < 2 ^ 256) (he : e < 2 ^ 256) (hm : m < 2 ^ 256)
    (hpos : 0 < m) :
    modexp (abiEncode [.word 32, .word 32, .word 32, .word (BitVec.ofNat 256 u),
        .word (BitVec.ofNat 256 e), .word (BitVec.ofNat 256 m)])
      = some (toBytesBE 32 (u ^ e % m)) := by
  have htoNat : ∀ {v : ℕ}, v < 2 ^ 256 → (BitVec.ofNat 256 v).toNat = v := fun hv => by
    rw [BitVec.toNat_ofNat, Nat.mod_eq_of_lt hv]
  have hm0 : BitVec.ofNat 256 m ≠ 0 := by
    intro h
    have := congrArg BitVec.toNat h
    rw [htoNat hm] at this
    exact hpos.ne' this
  rw [modexp_words _ _ _ hm0, htoNat hu, htoNat he, htoNat hm]

end Enclave
