import Enclave.P256.Equiv.Verifier
import Enclave.P256.P256V

/-!
# `P256V` over `P256Verifier`

The packed input of `P256V.verify` starts with the message hash, so the dispatcher of
`P256Verifier` compares the hash's first four bytes with the selector of `ecdsa_verify`.  A hash
that differs there reaches `fallback`, which gives the verdict back (`call_packed_of_ne`); a hash
that agrees is decoded as a call of `ecdsa_verify` that is four bytes short, and reverts
(`call_packed_of_eq`).
-/

namespace Enclave.P256V

open P256 P256Verifier

/-- The 160 bytes that `verify` sends. -/
def packed (messageHash r s x y : Word) : Bytes :=
  messageHash.toBytes ++ ((r.toBytes ++ s.toBytes) ++ (x.toBytes ++ y.toBytes))

theorem length_packed (messageHash r s x y : Word) : (packed messageHash r s x y).length = 160 := by
  simp [packed]

theorem take_four_packed (messageHash r s x y : Word) :
    (packed messageHash r s x y).take 4 = messageHash.toBytes.take 4 := by
  rw [packed, List.take_append_of_le_length (by simp)]

/-- The slices of the packed input. -/
theorem calldataSlice_packed (messageHash r s x y : Word) :
    calldataSlice (packed messageHash r s x y) 0 32 = .ok messageHash.toBytes ∧
    calldataSlice (packed messageHash r s x y) 32 64 = .ok r.toBytes ∧
    calldataSlice (packed messageHash r s x y) 64 96 = .ok s.toBytes ∧
    calldataSlice (packed messageHash r s x y) 96 128 = .ok x.toBytes ∧
    calldataSlice (packed messageHash r s x y) 128 160 = .ok y.toBytes := by
  have hcat : packed messageHash r s x y = messageHash.toBytes ++ (r.toBytes ++ (s.toBytes ++
      (x.toBytes ++ (y.toBytes ++ [])))) := by
    simp [packed]
  refine ⟨?_, ?_, ?_, ?_, ?_⟩
  · rw [hcat, ← List.nil_append (messageHash.toBytes ++ _)]
    exact calldataSlice_append rfl (by simp)
  · rw [hcat]
    exact calldataSlice_append (by simp) (by simp)
  · rw [hcat, ← List.append_assoc]
    exact calldataSlice_append (by simp) (by simp)
  · rw [hcat, ← List.append_assoc, ← List.append_assoc]
    exact calldataSlice_append (by simp) (by simp)
  · rw [hcat, ← List.append_assoc, ← List.append_assoc, ← List.append_assoc]
    exact calldataSlice_append (by simp) (by simp)

/-- `fallback` reads back what `verify` packed. -/
theorem fallback_packed (messageHash r s x y : Word) {accepted : Bool}
    (h : ecdsaVerify messageHash r s (x, y) = .ok accepted) :
    fallback (packed messageHash r s x y)
      = .ok (Word.toBytes (if accepted then 1 else 0)) := by
  obtain ⟨h0, h1, h2, h3, h4⟩ := calldataSlice_packed messageHash r s x y
  unfold fallback
  rw [if_neg (not_not.mpr (length_packed messageHash r s x y)), h0, h1, h2, h3, h4]
  rw [ok_bind, ok_bind, ok_bind, ok_bind, ok_bind]
  simp only [Word.ofBytes_toBytes]
  rw [h, ok_bind]

/-- Decoding a word either gives one or reverts without data. -/
theorem abiDecodeWord_ok_or_empty (bs : Bytes) (i : ℕ) :
    (∃ w, abiDecodeWord bs i = .ok w) ∨ abiDecodeWord bs i = .error .empty := by
  by_cases hlen : i + 32 ≤ bs.length
  · exact Or.inl ⟨_, if_pos hlen⟩
  · exact Or.inr (if_neg hlen)

/-- The ABI decoder of `ecdsa_verify` needs 160 bytes of arguments. -/
theorem ecdsaVerifyExternal_of_length_lt {args : Bytes} (h : args.length < 160) :
    ecdsaVerifyExternal args = .error .empty := by
  have hlast : abiDecodeWord args 128 = .error .empty := abiDecodeWord_of_length_lt (by omega)
  unfold ecdsaVerifyExternal
  -- an argument that is missing earlier reverts in the same way as the last one
  rcases abiDecodeWord_ok_or_empty args 0 with ⟨messageHash, h0⟩ | h0
  swap; · rw [h0, error_bind]
  rcases abiDecodeWord_ok_or_empty args 32 with ⟨r, h1⟩ | h1
  swap; · rw [h0, ok_bind, h1, error_bind]
  rcases abiDecodeWord_ok_or_empty args 64 with ⟨s, h2⟩ | h2
  swap; · rw [h0, ok_bind, h1, ok_bind, h2, error_bind]
  rcases abiDecodeWord_ok_or_empty args 96 with ⟨x, h3⟩ | h3
  swap; · rw [h0, ok_bind, h1, ok_bind, h2, ok_bind, h3, error_bind]
  rw [h0, ok_bind, h1, ok_bind, h2, ok_bind, h3, ok_bind, hlast, error_bind]

/-- A hash that starts with the selector is taken for a call of `ecdsa_verify`. -/
theorem call_packed_of_eq {messageHash : Word} (r s x y : Word)
    (hsel : messageHash.toBytes.take 4 = ecdsaVerifySelector) :
    P256Verifier.call (packed messageHash r s x y) = .error .empty := by
  have hlen := length_packed messageHash r s x y
  have htake := take_four_packed messageHash r s x y
  rw [P256Verifier.call, if_pos ⟨by omega, by rw [htake, hsel]⟩]
  apply ecdsaVerifyExternal_of_length_lt
  rw [List.length_drop, hlen]
  omega

/-- Every other hash reaches `fallback`, which gives the verdict back as a word. -/
theorem call_packed_of_ne {messageHash r s x y : Word} {accepted : Bool}
    (hsel : messageHash.toBytes.take 4 ≠ ecdsaVerifySelector)
    (h : ecdsaVerify messageHash r s (x, y) = .ok accepted) :
    P256Verifier.call (packed messageHash r s x y)
      = .ok (Word.toBytes (if accepted then 1 else 0)) := by
  rw [P256Verifier.call, take_four_packed, if_neg (fun hboth => hsel hboth.2)]
  exact fallback_packed messageHash r s x y h

/-- The word of a boolean decodes to the boolean. -/
theorem abiDecodeBool_toBytes (accepted : Bool) :
    abiDecodeBool (Word.toBytes (if accepted then 1 else 0)) 0 = .ok accepted := by
  cases accepted
  · decide
  · decide

theorem verify_of_eq {messageHash : Word} (r s x y : Word)
    (hsel : messageHash.toBytes.take 4 = ecdsaVerifySelector) :
    verify P256Verifier.call messageHash r s (x, y) = .error (.reason "Verification failed") := by
  have hcall := call_packed_of_eq r s x y hsel
  rw [packed] at hcall
  simp only [verify, hcall]

theorem verify_of_ne {messageHash r s x y : Word} {accepted : Bool}
    (hsel : messageHash.toBytes.take 4 ≠ ecdsaVerifySelector)
    (h : ecdsaVerify messageHash r s (x, y) = .ok accepted) :
    verify P256Verifier.call messageHash r s (x, y) = .ok accepted := by
  have hcall := call_packed_of_ne hsel h
  rw [packed] at hcall
  simp only [verify, hcall]
  exact abiDecodeBool_toBytes accepted

/-! ### The ABI entries -/

/-- The arguments of `verify` and of `ecdsa_verify`. -/
def arguments (messageHash r s x y : Word) : Bytes :=
  abiEncode [.word messageHash, .word r, .word s, .word x, .word y]

theorem length_arguments (messageHash r s x y : Word) :
    (arguments messageHash r s x y).length = 160 :=
  length_abiEncode_of_words [messageHash, r, s, x, y]

/-- A word that is returned for a boolean. -/
def verdict (accepted : Bool) : Bytes := abiEncode [.word (if accepted then 1 else 0)]

theorem abiDecodeBool_verdict (accepted : Bool) :
    abiDecodeBool (verdict accepted) 0 = .ok accepted := by
  cases accepted
  · decide
  · decide

/-- The five arguments are read back. -/
theorem abiDecodeWord_arguments (messageHash r s x y : Word) :
    abiDecodeWord (arguments messageHash r s x y) 0 = .ok messageHash ∧
    abiDecodeWord (arguments messageHash r s x y) 32 = .ok r ∧
    abiDecodeWord (arguments messageHash r s x y) 64 = .ok s ∧
    abiDecodeWord (arguments messageHash r s x y) 96 = .ok x ∧
    abiDecodeWord (arguments messageHash r s x y) 128 = .ok y := by
  have hread := abiDecodeWord_words [messageHash, r, s, x, y]
  exact ⟨hread 0 (by simp), hread 1 (by simp), hread 2 (by simp), hread 3 (by simp),
    hread 4 (by simp)⟩

theorem selectors_eq :
    ecdsaVerifySelector = [0xd1, 0x28, 0xfa, 0xdc] ∧
      selector "verify(bytes32,uint256,uint256,uint256[2])" = [0x3b, 0x28, 0x02, 0x79] ∧
      selector "precompile()" = [0x13, 0xa4, 0xe8, 0xc0] := by
  decide +kernel

theorem ecdsaVerifySelector_eq : ecdsaVerifySelector = [0xd1, 0x28, 0xfa, 0xdc] := selectors_eq.1

/-- A `P256Verifier` that is asked through `ecdsa_verify` gives the verdict. -/
theorem call_ecdsaVerify {messageHash r s x y : Word} {accepted : Bool}
    (h : ecdsaVerify messageHash r s (x, y) = .ok accepted) :
    P256Verifier.call (ecdsaVerifySelector ++ arguments messageHash r s x y)
      = .ok (verdict accepted) := by
  obtain ⟨h0, h1, h2, h3, h4⟩ := abiDecodeWord_arguments messageHash r s x y
  rw [P256Verifier.call, ecdsaVerifySelector, take_selector_append, drop_selector_append,
    if_pos ⟨four_le_length_selector_append _ _, rfl⟩]
  unfold ecdsaVerifyExternal
  rw [h0, ok_bind, h1, ok_bind, h2, ok_bind, h3, ok_bind, h4, ok_bind, h, ok_bind]
  rfl

/-- A `P256Verifier` does not know `verify`: the call reaches `fallback`, with four bytes too
many. -/
theorem call_verify_of_verifier (messageHash r s x y : Word) :
    P256Verifier.call
      (selector "verify(bytes32,uint256,uint256,uint256[2])" ++ arguments messageHash r s x y)
      = .ok (verdict false) := by
  have hne : selector "verify(bytes32,uint256,uint256,uint256[2])" ≠ ecdsaVerifySelector := by
    rw [selectors_eq.2.1, ecdsaVerifySelector_eq]
    decide
  have hinput : (selector "verify(bytes32,uint256,uint256,uint256[2])" ++
      arguments messageHash r s x y).length ≠ 160 := by
    rw [List.length_append, length_selector, length_arguments]
    omega
  rw [P256Verifier.call, take_selector_append, if_neg (fun hboth => hne hboth.2), fallback,
    if_pos hinput]
  rfl

/-- A `P256V` that is asked through `verify` passes the verdict on. -/
theorem call_verify (precompileAddress : Address) (precompile : Bytes → Result Bytes)
    (messageHash r s x y : Word) :
    call precompileAddress precompile
      (selector "verify(bytes32,uint256,uint256,uint256[2])" ++ arguments messageHash r s x y)
      = (verify precompile messageHash r s (x, y)).map verdict := by
  obtain ⟨h0, h1, h2, h3, h4⟩ := abiDecodeWord_arguments messageHash r s x y
  unfold call
  rw [take_selector_append, drop_selector_append,
    if_neg (not_lt.mpr (four_le_length_selector_append _ _)), if_pos rfl, h0, ok_bind, h1, ok_bind,
    h2, ok_bind, h3, ok_bind, h4, ok_bind]
  cases verify precompile messageHash r s (x, y) with
  | error e => rfl
  | ok accepted => rfl

/-- A `P256V` does not know `ecdsa_verify`, and has no `fallback`. -/
theorem call_ecdsaVerify_of_p256V (precompileAddress : Address)
    (precompile : Bytes → Result Bytes) (messageHash r s x y : Word) :
    call precompileAddress precompile (ecdsaVerifySelector ++ arguments messageHash r s x y)
      = .error .empty := by
  have hverify : ecdsaVerifySelector ≠ selector "verify(bytes32,uint256,uint256,uint256[2])" := by
    rw [selectors_eq.2.1, ecdsaVerifySelector_eq]
    decide
  have hgetter : ecdsaVerifySelector ≠ selector "precompile()" := by
    rw [selectors_eq.2.2, ecdsaVerifySelector_eq]
    decide
  have htake : (ecdsaVerifySelector ++ arguments messageHash r s x y).take 4
      = ecdsaVerifySelector := take_selector_append _ _
  unfold call
  simp only [htake, if_neg hverify, if_neg hgetter, ite_self]

/-! ### When the two interfaces agree -/

/-- `P256V.verify` deployed over a `P256Verifier` returns the verdict of `ecdsa_verify` exactly for
the hashes that do not start with the selector of `ecdsa_verify`. -/
theorem verify_eq_ecdsaVerify_iff (messageHash r s x y : Word) :
    (∃ accepted, verify P256Verifier.call messageHash r s (x, y) = .ok accepted ∧
      ecdsaVerify messageHash r s (x, y) = .ok accepted) ↔
    messageHash.toBytes.take 4 ≠ ecdsaVerifySelector := by
  obtain ⟨accepted, haccepted⟩ := ecdsaVerify_total messageHash r s (x, y)
  constructor
  · rintro ⟨_, hverify, -⟩ hsel
    rw [verify_of_eq r s x y hsel] at hverify
    cases hverify
  · intro hsel
    exact ⟨accepted, verify_of_ne hsel haccepted, haccepted⟩

/-- A hash that starts with the selector, followed by zeroes. -/
def selectorHash : Word := BitVec.ofNat 256 (0xd128fadc * 2 ^ 224)

set_option maxRecDepth 100000 in
/-- The key `G` and the nonce one sign `selectorHash` with the `r` below and `s = hash + r`: the
signature is valid, `ecdsa_verify` says so, and `P256V.verify` reverts. -/
theorem verify_selectorHash :
    let r : Word := BitVec.ofNat 256 (GX % n)
    let s : Word := BitVec.ofNat 256 ((selectorHash.toNat + GX) % n)
    let key : Word × Word := (BitVec.ofNat 256 GX, BitVec.ofNat 256 GY)
    ecdsaVerify selectorHash r s key = .ok true ∧
      verify P256Verifier.call selectorHash r s key
        = .error (.reason "Verification failed") := by
  refine ⟨by decide, verify_of_eq _ _ _ _ ?_⟩
  rw [ecdsaVerifySelector_eq]
  decide

end Enclave.P256V
